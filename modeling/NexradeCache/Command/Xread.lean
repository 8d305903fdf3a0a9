import NexradeCache.Command.StreamReads

/-!
# XREAD (`nexrade-core/src/command/stream.rs`)

The ids behind STREAMS are resolved once. Every look at the streams selects the entries above these ids: the
one at the call, and in a call that blocks one more for each wake-up. `$` is resolved to the largest id there is,
not to the last-generated id of the stream, and no entry is above that one. So a key that is given as `$` is
silent for good, whatever is added (`xread_dollar_iff`).
-/

namespace NexradeCache

open Utf8

/-- The entries with an id above this one. -/
def StreamData.above (s : StreamData) (last : StreamId) : List StreamEntry :=
  s.entries.filter fun e => match StreamId.parse e.id with
    | some id => last < id
    | none => false

namespace StreamReads

/-- The options in front of STREAMS. -/
structure XreadOptions where
  count : Option Nat
  blockMs : Option Nat
deriving DecidableEq

/-- An XREAD that was read. -/
structure XreadCall extends XreadOptions where
  /-- `key_specs`: each key and the id its entries are to be above. -/
  specs : List (Bytes × StreamId)
deriving DecidableEq

section

variable (toUppercase : String → String)

/-- The options in front of STREAMS; one that is not known is passed over. -/
def readOptions (o : XreadOptions) : List Resp → Result (XreadOptions × List Resp)
  | [] => return (o, [])
  | a :: rest => do
    let opt ← strArg "xread" a
    match toUppercase opt, rest with
    | "COUNT", [] => throw (.wrongArity "xread")
    | "COUNT", n :: rest =>
      let n ← i64Arg "xread" n
      if n < 0 then throw (.generic "value is not an integer or out of range")
      readOptions { o with count := some n.toInt.toNat } rest
    | "BLOCK", [] => throw (.wrongArity "xread")
    | "BLOCK", n :: rest =>
      let ms ← i64Arg "xread" n
      if ms < 0 then throw (.generic "value is out of range")
      readOptions { o with blockMs := some (if ms = 0 then 2 ^ 64 - 1 else ms.toInt.toNat) } rest
    | "STREAMS", rest => return (o, rest)
    | _, rest => readOptions o rest

/-- The options, and each key beside the argument that gives its id. -/
def readParts (args : List Resp) : Result (XreadOptions × List (Resp × Resp)) := do
  if args.length < 4 then throw (.wrongArity "xread")
  let (o, rest) ← readOptions toUppercase ⟨none, none⟩ args.tail
  if rest.length = 0 ∨ rest.length % 2 ≠ 0 then throw (.wrongArity "xread")
  let half := rest.length / 2
  return (o, (rest.take half).zip (rest.drop half))

def readSpec (given : Resp × Resp) : Result (Bytes × StreamId) := do
  let key ← bytesArg "xread" given.1
  let id ← parseIdBound (← strArg "xread" given.2) true true
  return (key, id)

def parseXread (args : List Resp) : Result XreadCall := do
  let (o, given) ← readParts toUppercase args
  let specs ← given.mapM readSpec
  return { o with specs }

end

/-- What a look finds at a key. -/
def XreadCall.entries (c : XreadCall) (last : StreamId) (cell : Option DataType) : Result (List StreamEntry) :=
  match cell with
  | none => .ok []
  | some (.stream s) => .ok (takeCount c.count (s.above last))
  | some _ => .error .wrongType

/-- One look at the streams. -/
def XreadCall.snapshot (c : XreadCall) (cells : Cells) : Result Resp := do
  let results ← c.specs.mapM fun spec => do
    let entries ← c.entries spec.2 (cells spec.1)
    return .array (some [.bulkString (some spec.1), .array (some (entries.map formatStreamEntry))])
  return .array (some results)

/-- Whether some stream of a reply has an entry. -/
def hasEntries : Resp → Bool
  | .array (some streams) => streams.any fun
    | .array (some (_ :: .array (some entries) :: _)) => !entries.isEmpty
    | _ => false
  | _ => false

/-- The loop of a blocked call: one look when it is registered and one after each wake-up, until the timeout. -/
def XreadCall.await (c : XreadCall) : (looks : List Cells) → Result Resp
  | [] => .ok (.array none)
  | cells :: looks => do
    let snap ← c.snapshot cells
    if hasEntries snap then return snap
    c.await looks

/-- `looks` is what the call finds at each look after the first. -/
def cmdXread (toUppercase : String → String) (args : List Resp) (first : Cells) (looks : List Cells) : Result Resp := do
  let c ← parseXread toUppercase args
  let initial ← c.snapshot first
  if c.blockMs.isNone || hasEntries initial then return initial
  c.await looks

/-! ## `$` -/

theorem above_MAX (s : StreamData) : s.above .MAX = [] := by
  refine List.filter_eq_nil_iff.2 fun e _ => ?_
  cases StreamId.parse e.id with
  | none => simp
  | some id => simpa using StreamId.le_MAX id

theorem above_eq_nil_iff {s : StreamData} {last : StreamId} :
    s.above last = [] ↔ ∀ e ∈ s.entries, ∀ id ∈ StreamId.parse e.id, id ≤ last := by
  refine List.filter_eq_nil_iff.trans (forall₂_congr fun e _ => ?_)
  cases StreamId.parse e.id <;> simp

/-- Each element of what a fallible map returns is what it makes of the element at that place. -/
theorem getElem?_of_mapM {A B : Type} {f : A → Result B} {l : List A} {r : List B} (h : l.mapM f = .ok r) {j : Nat}
    {a : A} (here : l[j]? = some a) : ∃ b, f a = .ok b ∧ r[j]? = some b := by
  induction l generalizing r j with
  | nil => cases here
  | cons x l ih =>
    rw [List.mapM_cons] at h
    obtain ⟨y, first, h⟩ := exists_of_bind_ok h
    obtain ⟨ys, rest, h⟩ := exists_of_bind_ok h
    cases h
    cases j with
    | zero =>
      cases here
      exact ⟨y, first, rfl⟩
    | succ j => exact ih rest here

theorem readSpec_dollar {given : Resp × Resp} (dollar : given.2.asStr = some "$") {spec : Bytes × StreamId}
    (h : readSpec given = .ok spec) : spec.2 = .MAX := by
  obtain ⟨key, isKey, h⟩ := exists_of_bind_ok h
  obtain ⟨raw, isRaw, h⟩ := exists_of_bind_ok h
  obtain ⟨id, isId, h⟩ := exists_of_bind_ok h
  cases h
  obtain rfl : "$" = raw := by simpa [dollar] using strArg_eq_ok_iff.1 isRaw
  have top : parseIdBound "$" true true = .ok .MAX := by rfl
  exact (Except.ok.inj (top.symm.trans isId)).symm

/-- The id that is given for the key at this place. -/
def givenId (toUppercase : String → String) (args : List Resp) (j : Nat) : Option String :=
  match readParts toUppercase args with
  | .ok (_, given) => given[j]?.bind fun g => g.2.asStr
  | .error _ => none

theorem exists_spec_of_givenId {toUppercase : String → String} {args : List Resp} {j : Nat} {id : String}
    (isId : givenId toUppercase args j = some id) {c : XreadCall} (parsed : parseXread toUppercase args = .ok c) :
    ∃ given spec, given.2.asStr = some id ∧ readSpec given = .ok spec ∧ c.specs[j]? = some spec := by
  obtain ⟨⟨o, parts⟩, isParts, parsed⟩ := exists_of_bind_ok parsed
  obtain ⟨specs, mapped, rest⟩ := exists_of_bind_ok parsed
  cases rest
  rw [givenId, isParts] at isId
  obtain ⟨given, here, isId⟩ := Option.bind_eq_some_iff.1 isId
  obtain ⟨spec, isSpec, found⟩ := getElem?_of_mapM mapped here
  exact ⟨given, spec, isId, isSpec, found⟩

/-- **`$` is silent.** At a look that meets the stream in the state `s'`, a key that is given as `$` has what came
after the call, which met the state `s`, exactly if nothing came: no entry of `s'` is above the last-generated id of
`s`, or COUNT is zero. `$` is read as the largest id there is, above which no entry can be. -/
theorem xread_dollar_iff (toUppercase : String → String) (args : List Resp) (c : XreadCall)
    (parsed : parseXread toUppercase args = .ok c) (j : Nat) (dollar : givenId toUppercase args j = some "$") :
    ∃ key last, c.specs[j]? = some (key, last) ∧ ∀ s s' : StreamData,
      c.entries last (some (.stream s')) = .ok (takeCount c.count (s'.above s.topId)) ↔
        c.count = some 0 ∨ ∀ e ∈ s'.entries, ∀ id ∈ StreamId.parse e.id, id ≤ s.topId := by
  obtain ⟨given, ⟨key, last⟩, isDollar, isSpec, found⟩ := exists_spec_of_givenId dollar parsed
  obtain rfl : last = .MAX := readSpec_dollar isDollar isSpec
  refine ⟨key, .MAX, found, fun s s' => ?_⟩
  have empty (l : List StreamEntry) : takeCount c.count l = [] ↔ c.count = some 0 ∨ l = [] := by
    cases c.count <;> simp [takeCount]
  have nothing : takeCount c.count ([] : List StreamEntry) = [] := (empty []).2 (.inr rfl)
  rw [XreadCall.entries, above_MAX, nothing, Except.ok.injEq, eq_comm, empty, above_eq_nil_iff]

/-- A stream of two entries at the call. -/
def parked : StreamData := ⟨[⟨"1-0", [([102], [118])]⟩, ⟨"2-0", [([102], [119])]⟩], ∅, "2-0", 2⟩

/-- The same stream with a third one. -/
def parkedLater : StreamData := { parked with entries := parked.entries ++ [⟨"3-0", [([102], [120])]⟩] }

/-- A look that meets the two entries has nothing to return, as it should. One that meets the third has nothing either. -/
theorem xread_dollar_two :
    XreadCall.entries ⟨⟨none, none⟩, [([115], .MAX)]⟩ .MAX (some (.stream parked)) =
        .ok (parked.above parked.topId) ∧
      XreadCall.entries ⟨⟨none, none⟩, [([115], .MAX)]⟩ .MAX (some (.stream parkedLater)) ≠
        .ok (parkedLater.above parked.topId) := by
  obtain ⟨key, last, found, exact⟩ := xread_dollar_iff id (words ["XREAD", "STREAMS", "s", "$"])
    ⟨⟨none, none⟩, [([115], .MAX)]⟩ (by decide +kernel) 0 (by decide +kernel)
  cases found
  refine ⟨(exact parked parked).2 (.inr (by decide +kernel)), fun same => ?_⟩
  rcases (exact parked parkedLater).1 same with none | nothing
  · cases none
  · exact absurd nothing (by decide +kernel)

/-- A call that blocks until there is an entry in the stream `s`. -/
def blockedArgs (id : String) : List Resp := words ["XREAD", "BLOCK", "0", "STREAMS", "s", id]

/-- The stream is empty at the call and gets an entry. -/
def oneAdded : Option DataType :=
  (NexradeCache.cmdXadd id 5 (words ["XADD", "s", "*", "f", "v"]) (some (.stream .new))).1

/-- Whether a call that meets the empty stream, and looks again before and after an entry is added, returns an entry. -/
def returnsAdded (id : String) : Result Bool :=
  (cmdXread (fun word => word) (blockedArgs id) (fun _ => some (.stream .new))
    [fun _ => some (.stream .new), fun _ => oneAdded]).map hasEntries

/-- A call with `$` does not, a call with the last-generated id does. -/
theorem xread_dollar_misses :
    returnsAdded "$" = .ok false ∧ StreamData.new.lastGeneratedId = "0-0" ∧ returnsAdded "0-0" = .ok true := by
  refine ⟨?_, rfl, ?_⟩ <;> decide +kernel

end StreamReads

end NexradeCache
