import NexradeCache.Command.Groups
import NexradeCache.Command.StreamOrder

/-!
# XRANGE and XREVRANGE (`nexrade-core/src/command/stream.rs`)

Both commands select the entries between two ids, cut the selection at COUNT and format it; XREVRANGE
turns around what is left. So COUNT takes the entries of the smallest ids in both
(`xrevrange_mirrors`), where the first entries of the reverse are those of the largest.
-/

namespace NexradeCache

open Utf8

def StreamId.MAX : StreamId := ⟨18446744073709551615, 18446744073709551615⟩

theorem StreamId.le_MAX (i : StreamId) : i ≤ .MAX := by
  refine not_lt.1 fun less => ?_
  have top (n : UInt64) : ¬18446744073709551615 < n := by
    have small := n.toNat_lt
    rw [UInt64.lt_iff_toNat_lt, show (18446744073709551615 : UInt64).toNat = 2 ^ 64 - 1 from rfl]
    omega
  rcases StreamId.lt_iff.1 less with less | ⟨-, less⟩ <;> exact top _ less

/-- A range bound: `-` is the smallest id, `+` the largest, `$` the largest as a start or where it is allowed. -/
def parseIdBound (s : String) (isStart allowDollar : Bool) : Result StreamId :=
  if isStart && s = "-" then .ok .MIN
  else if (isStart || allowDollar) && s = "$" then .ok .MAX
  else if !isStart && s = "+" then .ok .MAX
  else match StreamId.parse s with
    | some id => .ok id
    | none => match parseU64 s with
      | some ms => .ok ⟨ms, 0⟩
      | none => .error invalidStreamId

section

variable (toUppercase : String → String)

/-- The value of COUNT. -/
def rangeCount (cmd : String) (args : List Resp) : Result (Option Nat) := do
  if args.length < 6 then return none
  if toUppercase (← strArg cmd args[4]?) ≠ "COUNT" then return none
  let n ← i64Arg cmd args[5]?
  if n < 0 then throw (.generic "value is not an integer or out of range")
  return some n.toInt.toNat

/-- The range of a call and its COUNT; `startAt` and `endAt` are the places of the bounds. -/
def parseRange (cmd : String) (startAt endAt : Nat) (args : List Resp) : Result (StreamId × StreamId × Option Nat) := do
  if args.length < 4 then throw (.wrongArity cmd)
  let _key ← bytesArg cmd args[1]?
  let startRaw ← strArg cmd args[startAt]?
  let endRaw ← strArg cmd args[endAt]?
  let count ← rangeCount toUppercase cmd args
  let start ← parseIdBound startRaw true false
  let stop ← parseIdBound endRaw false false
  return (start, stop, count)

/-- The entries from `start` to `stop`. -/
def StreamData.between (s : StreamData) (start stop : StreamId) : List StreamEntry :=
  s.entries.filter fun e => match StreamId.parse e.id with
    | some id => start ≤ id && id ≤ stop
    | none => false

namespace StreamReads

def cmdXrange (args : List Resp) (cell : Option DataType) : Result Resp := do
  let (start, stop, count) ← parseRange toUppercase "xrange" 2 3 args
  match cell with
  | none => return .array (some [])
  | some (.stream s) => return .array (some ((takeCount count (s.between start stop)).map formatStreamEntry))
  | some _ => throw .wrongType

/-- XREVRANGE swaps the places of the bounds. -/
def cmdXrevrange (args : List Resp) (cell : Option DataType) : Result Resp := do
  let (start, stop, count) ← parseRange toUppercase "xrevrange" 3 2 args
  match cell with
  | none => return .array (some [])
  | some (.stream s) => return .array (some ((takeCount count (s.between start stop)).map formatStreamEntry).reverse)
  | some _ => throw .wrongType

end StreamReads

end

/-! ## The reverse -/

/-- Cutting a list without repetition before it is turned around is not cutting it afterwards. -/
theorem reverse_take_iff {A : Type} {l : List A} (nodup : l.Nodup) (n : Nat) :
    (l.take n).reverse = l.reverse.take n ↔ n = 0 ∨ l.length ≤ n := by
  constructor
  · intro same
    by_contra! short
    obtain ⟨some', cut⟩ := short
    have first := congrArg (·[0]?) same
    have positive : 0 < (l.take n).length := by rw [List.length_take]; omega
    have left : (l.take n).reverse[0]? = l[n - 1]? := by
      rw [List.getElem?_reverse positive, List.length_take, min_eq_left cut.le,
        List.getElem?_take_of_lt (by omega), Nat.sub_zero]
    have right : (l.reverse.take n)[0]? = l[l.length - 1]? := by
      rw [List.getElem?_take_of_lt (by omega), List.getElem?_reverse (by omega), Nat.sub_zero]
    simp only [left, right] at first
    have places := (List.getElem?_inj (by omega) nodup).1 first
    omega
  · rintro (rfl | whole)
    · simp
    · rw [List.take_of_length_le whole, List.take_of_length_le (by simpa using whole)]

variable {s : StreamData}

theorem StreamData.mem_between {start stop : StreamId} {e : StreamEntry} (mem : e ∈ s.between start stop) :
    e ∈ s.entries ∧ StreamId.parse e.id = some e.number := by
  obtain ⟨there, within⟩ := List.mem_filter.1 mem
  cases parsed : StreamId.parse e.id with
  | none => simp [parsed] at within
  | some id => exact ⟨there, by rw [StreamEntry.number, parsed]; rfl⟩

/-- Two entries of one reply are two entries of the stream. -/
theorem StreamData.nodup_replies (sorted : s.entries.Pairwise fun a b => a.number < b.number) (start stop : StreamId) :
    ((s.between start stop).map formatStreamEntry).Nodup := by
  rw [List.Nodup, List.pairwise_map]
  refine (sorted.sublist List.filter_sublist).imp_of_mem fun {a b} inA inB less same => ?_
  have bytes : asBytes a.id = asBytes b.id := by
    simp only [formatStreamEntry, Resp.array.injEq, Option.some.injEq, List.cons.injEq, Resp.bulkString.injEq] at same
    exact same.1
  have number := (StreamData.mem_between inA).2
  rw [asBytes_injective bytes, (StreamData.mem_between inB).2] at number
  exact less.ne (Option.some.inj number).symm

theorem parseRange_eq_ok_iff {toUppercase : String → String} {cmd : String} {startAt endAt : Nat} {args : List Resp}
    {start stop : StreamId} {count : Option Nat} :
    parseRange toUppercase cmd startAt endAt args = .ok (start, stop, count) ↔
      4 ≤ args.length ∧ (∃ key, bytesArg cmd args[1]? = .ok key) ∧
        (∃ raw, strArg cmd args[startAt]? = .ok raw ∧ parseIdBound raw true false = .ok start) ∧
        (∃ raw, strArg cmd args[endAt]? = .ok raw ∧ parseIdBound raw false false = .ok stop) ∧
        rangeCount toUppercase cmd args = .ok count := by
  unfold parseRange
  by_cases short : args.length < 4
  · rw [if_pos short]
    constructor
    · intro h
      cases h
    · rintro ⟨enough, -⟩
      omega
  · rw [if_neg short]
    constructor
    · intro h
      obtain ⟨key, isKey, h⟩ := exists_of_bind_ok h
      obtain ⟨startRaw, isStart, h⟩ := exists_of_bind_ok h
      obtain ⟨endRaw, isEnd, h⟩ := exists_of_bind_ok h
      obtain ⟨count', isCount, h⟩ := exists_of_bind_ok h
      obtain ⟨start', parsedStart, h⟩ := exists_of_bind_ok h
      obtain ⟨stop', parsedStop, h⟩ := exists_of_bind_ok h
      cases h
      exact ⟨by omega, ⟨key, isKey⟩, ⟨startRaw, isStart, parsedStart⟩, ⟨endRaw, isEnd, parsedStop⟩, isCount⟩
    · rintro ⟨-, ⟨key, isKey⟩, ⟨startRaw, isStart, parsedStart⟩, ⟨endRaw, isEnd, parsedStop⟩, isCount⟩
      rw [isKey, isStart, isEnd, isCount]
      simp only [pure, Except.pure, bind, Except.bind, parsedStart, parsedStop]

theorem bytesArg_eq_ok_iff {cmd : String} {a : Option Resp} {b : Bytes} :
    bytesArg cmd a = .ok b ↔ a.bind Resp.toBytesVec = some b := by
  unfold bytesArg
  cases a.bind Resp.toBytesVec <;> simp

theorem strArg_eq_ok_iff {cmd : String} {a : Option Resp} {t : String} :
    strArg cmd a = .ok t ↔ a.bind Resp.asStr = some t := by
  unfold strArg
  cases a.bind Resp.asStr <;> simp

namespace StreamReads

/-- **XREVRANGE mirrors XRANGE, but for COUNT.** On a stream with growing ids XREVRANGE returns the first `count`
entries of the reverse of the whole range exactly if there is no COUNT, or it is zero, or it is not smaller than the
range: the handler cuts before it reverses, and so returns the oldest entries of the range. -/
theorem xrevrange_mirrors (toUppercase : String → String) (s : StreamData)
    (sorted : s.entries.Pairwise fun a b => a.number < b.number) (cmd cmd' key lo hi : Resp) (es : List Resp)
    (range : cmdXrange toUppercase [cmd, key, lo, hi] (some (.stream s)) = .ok (.array (some es)))
    (rest : List Resp) (count : Option Nat)
    (counted : rangeCount toUppercase "xrevrange" (cmd' :: key :: hi :: lo :: rest) = .ok count) :
    cmdXrevrange toUppercase (cmd' :: key :: hi :: lo :: rest) (some (.stream s)) =
        .ok (.array (some (takeCount count es.reverse))) ↔
      ∀ n ∈ count, n = 0 ∨ es.length ≤ n := by
  obtain ⟨⟨start, stop, none'⟩, parsed, reply⟩ := exists_of_bind_ok range
  obtain ⟨-, ⟨k, isKey⟩, ⟨startRaw, isStart, parsedStart⟩, ⟨endRaw, isEnd, parsedStop⟩, uncounted⟩ :=
    parseRange_eq_ok_iff.1 parsed
  cases uncounted
  have replies : es = (s.between start stop).map formatStreamEntry := by cases reply; rfl
  have parsed' : parseRange toUppercase "xrevrange" 3 2 (cmd' :: key :: hi :: lo :: rest) = .ok (start, stop, count) := by
    refine parseRange_eq_ok_iff.2 ⟨by simp, ⟨k, ?_⟩, ⟨startRaw, ?_, parsedStart⟩, ⟨endRaw, ?_, parsedStop⟩, counted⟩
    · exact bytesArg_eq_ok_iff.2 (bytesArg_eq_ok_iff.1 isKey)
    · exact strArg_eq_ok_iff.2 (strArg_eq_ok_iff.1 isStart)
    · exact strArg_eq_ok_iff.2 (strArg_eq_ok_iff.1 isEnd)
  have run : cmdXrevrange toUppercase (cmd' :: key :: hi :: lo :: rest) (some (.stream s)) =
      .ok (.array (some (takeCount count es).reverse)) := by
    rw [cmdXrevrange, parsed', replies]
    cases count <;> simp [takeCount, pure, Except.pure, bind, Except.bind]
  rw [run]
  simp only [Except.ok.injEq, Resp.array.injEq, Option.some.injEq]
  cases count with
  | none => simp [takeCount]
  | some n =>
    have nodup : es.Nodup := replies ▸ s.nodup_replies sorted start stop
    simpa [takeCount] using reverse_take_iff nodup n

/-- The bounds and COUNT of a call as a client sends them. -/
def words (text : List String) : List Resp := text.map fun word => .bulkString (some (asBytes word))

def threeEntries : StreamData := { StreamData.new with entries := [⟨"1-0", []⟩, ⟨"2-0", []⟩, ⟨"3-0", []⟩] }

def reply (ids : List String) : Result Resp := .ok (.array (some (ids.map fun id => formatStreamEntry ⟨id, []⟩)))

/-- Two of three entries: the reply has not the two largest ids. -/
theorem xrevrange_mirrors_three :
    cmdXrevrange id (words ["XREVRANGE", "s", "+", "-", "COUNT", "2"]) (some (.stream threeEntries)) ≠
      reply ["3-0", "2-0"] := by
  have whole : cmdXrange id (words ["XRANGE", "s", "-", "+"]) (some (.stream threeEntries)) =
      reply ["1-0", "2-0", "3-0"] := by rfl
  have counted : rangeCount id "xrevrange" (words ["XREVRANGE", "s", "+", "-", "COUNT", "2"]) = .ok (some 2) := by
    decide +kernel
  have ordered : threeEntries.entries.Pairwise fun a b => a.number < b.number := by decide +kernel
  have mirrors := xrevrange_mirrors id threeEntries ordered _ _ _ _ _ _ whole (words ["COUNT", "2"]) (some 2) counted
  exact fun same => absurd (mirrors.1 same) (by decide +kernel)

/-- XREVRANGE with COUNT returns the entries of the smallest ids. -/
theorem xrevrange_smallest :
    cmdXrange id (words ["XRANGE", "s", "-", "+"]) (some (.stream threeEntries)) = reply ["1-0", "2-0", "3-0"] ∧
      cmdXrevrange id (words ["XREVRANGE", "s", "+", "-", "COUNT", "2"]) (some (.stream threeEntries)) =
        reply ["2-0", "1-0"] ∧
      reply ["2-0", "1-0"] ≠ reply (["1-0", "2-0", "3-0"].reverse.take 2) := by
  refine ⟨rfl, rfl, fun same => ?_⟩
  simp [reply, formatStreamEntry, asBytes_injective.eq_iff] at same

end StreamReads

end NexradeCache
