import NexradeCache.Command.Collections
import NexradeCache.Command.Streams
import NexradeCache.Lib.Positions
import NexradeCache.Resp.Framing
import NexradeCache.Store.Atomic

/-!
# Indexes and ranges of lists (`nexrade-core/src/command/list.rs`)

LINDEX, LSET, LRANGE and LTRIM, each on the shard of its key, with `none` for a panic. All four take an index
through `normalize_idx`, which clamps what lies before the list to the first position. For the start of a range that
is right. `list_index_iff` says what it means for an element that is asked for, and for the end of a range.
-/

namespace NexradeCache

/-! ## Handlers that edit one value -/

/-- `IndexOutOfRange`, by its text. -/
def NexradeError.indexOutOfRange : NexradeError := .generic "index out of range"

/-- `get_bytes`. -/
def bulkArg (cmd : String) (a : Option Resp) : Result Bytes :=
  match a.bind Resp.asBytes with
  | some b => .ok b
  | none => .error (.wrongArity cmd)

/-- What a handler made of the value it was handed: its reply, what it added to the payload, and whether nothing
is left. -/
structure Edited where
  reply : Result Resp
  delta : Int
  emptied : Bool

/-- `get_mut` and an edit, then `adjust_live_bytes` and `remove_empty_key`. An edit without an answer panicked. -/
def Database.editValue (now : Nat) (s : Database) (key : Bytes) (missing : Result Resp)
    (edit : Entry → DataType × Option Edited) : Database × Option (Result Resp) :=
  match s.getMutWith now key edit with
  | (s, none) => (s, some missing)
  | (s, some none) => (s, none)
  | (s, some (some out)) =>
    let s := s.adjustLiveBytes out.delta
    (if out.emptied then (s.remove key).1 else s, some out.reply)

/-- An edit of a live entry: its value is what the edit leaves, or the key is gone if that is empty, and the answer
is that of the edit. -/
theorem Database.editValue_spec {now : Nat} {s : Database} {key : Bytes} {e : Entry} {v : DataType} {out : Edited}
    {edit : Entry → DataType × Option Edited} (missing : Result Resp) (found : s.getRo now key = some e)
    (edits : edit e = (v, some out)) :
    (s.editValue now key missing edit).2 = some out.reply ∧ ∀ x, (s.editValue now key missing edit).1.getRo now x =
      if x = key then if out.emptied then none else some { e with value := v } else s.getRo now x := by
  have acts := acts_getMutWith now key edit
  have answer : (s.getMutWith now key edit).2 = some (some out) := by
    rw [acts.answer, found, Option.map_some, edits]
  have after (x : Bytes) : (s.getMutWith now key edit).1.getRo now x =
      if x = key then some { e with value := v } else s.getRo now x := by
    rw [acts.getRo, found, Option.map_some, edits]
  unfold editValue
  generalize s.getMutWith now key edit = r at answer after
  obtain ⟨s', a⟩ := r
  obtain rfl : a = some (some out) := answer
  refine ⟨rfl, fun x => ?_⟩
  cases emptied : out.emptied with
  | false =>
    simp only [emptied, Bool.false_eq_true, if_false]
    exact after x
  | true =>
    simp only [emptied, if_true]
    rw [(acts_remove now key).getRo]
    split
    · rfl
    · rename_i other
      have kept := after x
      rwa [if_neg other] at kept

namespace CompactList

open Bytes

/-- `CompactRangeSnap`: a part of the buffer, and the size of the reply it makes. -/
structure RangeSnap where
  buf : Bytes
  start : Nat
  stop : Nat
  count : Nat
  need : Nat

/-- `range_snap`. -/
def rangeSnap (c : CompactList) (start stop : Nat) : Option RangeSnap :=
  if start ≤ stop ∧ stop < c.len then do
    let first ← c.offAt start
    let endOff ← c.offAt stop
    let endN ← readU32 c.buf endOff
    let last := endOff + 4 + endN
    let count := stop - start + 1
    let regionLen ← checkedSub last first
    let payload := regionLen - count * 4
    return ⟨c.buf, first, last, count, 16 + count * 12 + payload⟩
  else none

/-- The walk of `CompactRegionIter` over the region. -/
def RangeSnap.elements (snap : RangeSnap) : Option (List Bytes) := do
  let region ← slice snap.buf snap.start snap.stop
  frameCodec.readAll region snap.count 0

variable {c : CompactList} {l : List Bytes}

/-- The offset of what follows `m`. -/
theorem Rep.offAt_of_ne_nil {m k : List Bytes} (h : c.Rep (m ++ k)) (small : c.buf.length < 2 ^ 32) (follows : k ≠ []) :
    c.offAt m.length = some (c.head + (frameCodec.encs m).length) := by
  cases k with
  | nil => exact (follows rfl).elim
  | cons y k => exact h.offAt_eq small

theorem Rep.rangeSnap_append {m k r : List Bytes} {x : Bytes} (h : c.Rep (m ++ (k ++ x :: r)))
    (small : c.buf.length < 2 ^ 32) :
    (c.rangeSnap m.length (m.length + k.length)).bind RangeSnap.elements = some (k ++ [x]) := by
  have valid := h.valid small
  have len := h.len
  have first := h.offAt_of_ne_nil small (by simp)
  have grouped : c.Rep ((m ++ k) ++ x :: r) := by simpa using h
  have last := grouped.offAt_eq small
  rw [List.length_append] at last
  obtain ⟨spare, hbuf, hlen⟩ := h.live
  have header : readU32 c.buf (c.head + (frameCodec.encs (m ++ k)).length) = some x.length := by
    refine readU32_leBytes (a := spare ++ frameCodec.encs (m ++ k)) (z := x ++ frameCodec.encs r)
      (valid x (by simp)) ?_ (by simp [hlen])
    simp [hbuf, frameCodec, frame]
  have inside : m.length ≤ m.length + k.length ∧ m.length + k.length < c.len := by
    rw [len]
    simp only [List.length_append, List.length_cons]
    omega
  have size : (frameCodec.encs (k ++ [x])).length = (frameCodec.encs k).length + (4 + x.length) := by
    simp [frameCodec]
  have region : slice c.buf (c.head + (frameCodec.encs m).length)
      (c.head + (frameCodec.encs (m ++ k)).length + 4 + x.length) = some (frameCodec.encs (k ++ [x])) := by
    refine slice_eq (a := spare ++ frameCodec.encs m) (c := frameCodec.encs r) (by simp [hbuf]) (by simp [hlen]) ?_
    rw [size, List.length_append, hlen, Codec.encs_append, List.length_append]
    omega
  have walk : frameCodec.readAll (frameCodec.encs (k ++ [x])) (k ++ [x]).length 0 = some (k ++ [x]) :=
    frameCodec.readAll_encs (a := []) (z := []) (fun y mem => valid y (by simp at mem ⊢; tauto)) (by simp) rfl
  have room : c.head + (frameCodec.encs m).length ≤ c.head + (frameCodec.encs (m ++ k)).length + 4 + x.length := by
    rw [Codec.encs_append, List.length_append]
    omega
  have count : m.length + k.length - m.length + 1 = (k ++ [x]).length := by
    rw [List.length_append, List.length_singleton]
    omega
  unfold rangeSnap
  rw [if_pos inside, first, last, count]
  simp only [Option.bind_eq_bind, Option.bind_some, header, checkedSub_of_le room, Option.pure_def, RangeSnap.elements,
    region, walk]

/-- The snapshot holds the elements of the range. -/
theorem Rep.rangeSnap_elements (h : c.Rep l) (small : c.buf.length < 2 ^ 32) {start stop : Nat}
    (order : start ≤ stop) (inside : stop < l.length) :
    (c.rangeSnap start stop).bind RangeSnap.elements = some ((l.take (stop + 1)).drop start) := by
  have upto : l.take start ++ (l.take stop).drop start = l.take stop := by
    conv_rhs => rw [← List.take_append_drop start (l.take stop)]
    rw [List.take_take, Nat.min_eq_left order]
  have split' : l = l.take start ++ ((l.take stop).drop start ++ l[stop] :: l.drop (stop + 1)) := by
    rw [← List.append_assoc, upto]
    simp
  have range : (l.take (stop + 1)).drop start = (l.take stop).drop start ++ [l[stop]] := by
    rw [List.take_succ_eq_append_getElem inside, List.drop_append_of_le_length (by rw [List.length_take]; omega)]
  rw [split'] at h
  have snap := h.rangeSnap_append small
  rw [List.length_take, List.length_drop, List.length_take, Nat.min_eq_left (by omega), Nat.min_eq_left (by omega),
    Nat.add_sub_cancel' order] at snap
  rw [range]
  exact snap

end CompactList

namespace ListIndex

open Collections (normalizeIdx)
open Positions

/-! ## The handlers -/

/-- The arguments of LINDEX. -/
def lindexCall (args : List Resp) : Result (Bytes × Int64) := do
  if args.length ≠ 3 then throw (.wrongArity "lindex")
  let key ← bytesArg "lindex" args[1]?
  let idx ← i64Arg "lindex" args[2]?
  return (key, idx)

/-- LINDEX. A panic in the container is no answer. -/
def cmdLindex (now : Nat) (args : List Resp) (s : Database) : Option (Result Resp) :=
  match lindexCall args with
  | .error e => some (.error e)
  | .ok (key, idx) => match s.getRo now key with
    | none => some (.ok (.bulkString none))
    | some e => match e.value with
      | .list list => (list.get (normalizeIdx idx list.len)).map fun v => .ok (.bulkString v)
      | _ => some (.error .wrongType)

/-- The arguments of LSET. -/
def lsetCall (args : List Resp) : Result (Bytes × Int64 × Bytes) := do
  if args.length ≠ 4 then throw (.wrongArity "lset")
  let key ← bytesArg "lset" args[1]?
  let idx ← i64Arg "lset" args[2]?
  let val ← bulkArg "lset" args[3]?
  return (key, idx, val)

/-- A position outside returns before the payload is adjusted. -/
def lsetEdit (idx : Int64) (val : Bytes) (e : Entry) : DataType × Option Edited :=
  match e.value with
  | .list list => match list.set (normalizeIdx idx list.len) val with
    | some (list, true, d) => (.list list, some ⟨.ok (.simpleString "OK"), d, false⟩)
    | some (list, false, _) => (.list list, some ⟨.error .indexOutOfRange, 0, false⟩)
    | none => (e.value, none)
  | value => (value, some ⟨.error .wrongType, 0, false⟩)

/-- LSET. -/
def cmdLset (now : Nat) (args : List Resp) (s : Database) : Database × Option (Result Resp) :=
  match lsetCall args with
  | .error e => (s, some (.error e))
  | .ok (key, idx, val) => s.editValue now key (.error (.generic "no such key")) (lsetEdit idx val)

/-- The arguments of LRANGE. -/
def lrangeCall (args : List Resp) : Result (Bytes × Int64 × Int64) := do
  if args.length ≠ 4 then throw (.wrongArity "lrange")
  let key ← bulkArg "lrange" args[1]?
  let start ← i64Arg "lrange" args[2]?
  let stop ← i64Arg "lrange" args[3]?
  return (key, start, stop)

/-- `*0`, as it is sent. -/
def EMPTY_ARRAY : Bytes := [42, 48, 13, 10]

/-- The elements that are framed when the lock is free again; a linked list is cloned, a compact one is walked. -/
def lrangeElements (start stop : Nat) : ListData → Option (List Bytes)
  | .compact c => (c.rangeSnap start stop).bind CompactList.RangeSnap.elements
  | .linked d => Bytes.slice d.items start (stop + 1)

/-- LRANGE. Its reply is written out at once, without a tree of replies. -/
def cmdLrange (fmt : Fmt) (now : Nat) (args : List Resp) (s : Database) : Option (Result Resp) :=
  match lrangeCall args with
  | .error e => some (.error e)
  | .ok (key, start, stop) => match s.getRo now key with
    | none => some (.ok (.raw EMPTY_ARRAY))
    | some e => match e.value with
      | .list list =>
        let start := normalizeIdx start list.len
        let stop := normalizeIdx stop list.len
        if list.len ≤ start ∨ stop < start then some (.ok (.raw EMPTY_ARRAY))
        else (lrangeElements start (min stop (list.len - 1)) list).map fun elems =>
          .ok (.raw (Resp.writeBulkArrayInto fmt elems))
      | _ => some (.error .wrongType)

/-- The arguments of LTRIM. -/
def ltrimCall (args : List Resp) : Result (Bytes × Int64 × Int64) := do
  if args.length ≠ 4 then throw (.wrongArity "ltrim")
  let key ← bytesArg "ltrim" args[1]?
  let start ← i64Arg "ltrim" args[2]?
  let stop ← i64Arg "ltrim" args[3]?
  return (key, start, stop)

/-- What LTRIM makes of the entry: the two sides of the range are cut off, and an empty list is removed. -/
def ltrimEdit (thr : ListThresholds) (start stop : Int64) (e : Entry) : DataType × Option Edited :=
  match e.value with
  | .list list =>
    let start := normalizeIdx start list.len
    let stop := normalizeIdx stop list.len
    match if list.len ≤ start ∨ stop < start then list.trim thr 1 0 else list.trim thr start (min stop (list.len - 1)) with
    | some (list, d) => (.list list, some ⟨.ok (.simpleString "OK"), d, list.len == 0⟩)
    | none => (e.value, none)
  | value => (value, some ⟨.error .wrongType, 0, false⟩)

/-- LTRIM. -/
def cmdLtrim (thr : ListThresholds) (now : Nat) (args : List Resp) (s : Database) : Database × Option (Result Resp) :=
  match ltrimCall args with
  | .error e => (s, some (.error e))
  | .ok (key, start, stop) => s.editValue now key (.ok (.simpleString "OK")) (ltrimEdit thr start stop)

/-! ## What they should do -/

/-- The entry of a key that holds a list with these elements, or that is gone with the last of them. -/
inductive Holds (e : Entry) : Option Entry → List Bytes → Prop
  | list {d : ListData} {l : List Bytes} : d.Rep l → Holds e (some { e with value := .list d }) l
  | gone : Holds e none []

theorem Holds.length_eq {e : Entry} {c : Option Entry} {l l' : List Bytes} (h : Holds e c l) (h' : Holds e c l') :
    l.length = l'.length := by
  cases h with
  | list rep =>
    cases h' with
    | list rep' => exact rep.len_eq.symm.trans rep'.len_eq
  | gone =>
    cases h'
    rfl

/-- A command answers this and leaves these elements under the key; other keys stay. -/
structure Leaves (now : Nat) (key : Bytes) (e : Entry) (s : Database) (out : Database × Option (Result Resp))
    (reply : Result Resp) (l : List Bytes) : Prop where
  answers : out.2 = some reply
  holds : Holds e (out.1.getRo now key) l
  others : ∀ x, x ≠ key → out.1.getRo now x = s.getRo now x

/-- LSET at a position. -/
def replaced (p : Int) (v : Bytes) (l : List Bytes) : Result Resp × List Bytes :=
  if 0 ≤ p ∧ p < l.length then (.ok (.simpleString "OK"), l.set p.toNat v) else (.error .indexOutOfRange, l)

/-! ## What they do -/

variable {fmt : Fmt} {thr : ListThresholds} {now : Nat} {args : List Resp} {s : Database} {key : Bytes} {e : Entry}
  {d : ListData} {l : List Bytes} {i j : Int64}

/-- The index of the code is the clamped index. -/
theorem normalizeIdx_eq (i : Int64) (n : Nat) : normalizeIdx i n = clamped n i.toInt := by
  unfold normalizeIdx clamped denoted
  by_cases neg : i < 0
  · have neg' : i.toInt < 0 := Int64.lt_iff_toInt_lt.1 neg
    rw [if_pos neg, if_pos neg']
  · have pos : ¬i.toInt < 0 := fun lt => neg (Int64.lt_iff_toInt_lt.2 lt)
    rw [if_neg neg, if_neg pos]

/-- What an edit leaves of one key, the others being as they were. -/
theorem Leaves.of_edit {v' : DataType} {out : Edited} {edit : Entry → DataType × Option Edited}
    {missing : Result Resp} (found : s.getRo now key = some e) (edits : edit e = (v', some out))
    (holds : Holds e (if out.emptied then none else some { e with value := v' }) l) :
    Leaves now key e s (s.editValue now key missing edit) out.reply l := by
  obtain ⟨answers, after⟩ := Database.editValue_spec missing found edits
  refine ⟨answers, ?_, fun x ne => ?_⟩
  · rw [after, if_pos rfl]
    exact holds
  · rw [after, if_neg ne]

/-- **LINDEX answers the element at the clamped index.** -/
theorem cmdLindex_eq (parsed : lindexCall args = .ok (key, i)) (found : s.getRo now key = some e)
    (isList : e.value = .list d) (rep : d.Rep l) (small : d.Small) :
    cmdLindex now args s = some (.ok (.bulkString l[clamped l.length i.toInt]?)) := by
  unfold cmdLindex
  rw [parsed]
  dsimp only
  rw [found]
  dsimp only
  rw [isList]
  dsimp only
  rw [rep.get_eq small, rep.len_eq, normalizeIdx_eq]
  rfl

/-- **LSET replaces the element at the clamped index.** -/
theorem cmdLset_leaves {v : Bytes} (parsed : lsetCall args = .ok (key, i, v)) (found : s.getRo now key = some e)
    (isList : e.value = .list d) (rep : d.Rep l) (small : d.Small) :
    Leaves now key e s (cmdLset now args s) (replaced (clamped l.length i.toInt) v l).1
      (replaced (clamped l.length i.toInt) v l).2 := by
  obtain ⟨d', sets, rep'⟩ := rep.set small (clamped l.length i.toInt) v
  unfold cmdLset
  rw [parsed]
  dsimp only
  by_cases inside : clamped l.length i.toInt < l.length
  · have edits : lsetEdit i v e = (.list d', some ⟨.ok (.simpleString "OK"), ListSpec.delta l (l.set (clamped l.length i.toInt) v), false⟩) := by
      simp only [lsetEdit, isList, rep.len_eq, normalizeIdx_eq, sets, decide_eq_true inside]
    have spec : replaced (clamped l.length i.toInt) v l = (.ok (.simpleString "OK"), l.set (clamped l.length i.toInt) v) :=
      if_pos ⟨by omega, by omega⟩
    rw [spec]
    exact Leaves.of_edit found edits (.list rep')
  · have edits : lsetEdit i v e = (.list d', some ⟨.error .indexOutOfRange, 0, false⟩) := by
      simp only [lsetEdit, isList, rep.len_eq, normalizeIdx_eq, sets, decide_eq_false inside]
    have spec : replaced (clamped l.length i.toInt) v l = (.error .indexOutOfRange, l) := if_neg (by omega)
    rw [List.set_eq_of_length_le (by omega)] at rep'
    rw [spec]
    exact Leaves.of_edit found edits (.list rep')

theorem lrangeElements_eq (rep : d.Rep l) (small : d.Small) {start stop : Nat} (order : start ≤ stop)
    (inside : stop < l.length) : lrangeElements start stop d = some ((l.take (stop + 1)).drop start) := by
  cases d with
  | compact c => exact CompactList.Rep.rangeSnap_elements rep small order inside
  | linked d =>
    obtain rfl : d = ⟨l, payload l⟩ := rep
    exact if_pos ⟨by omega, by show _ ≤ l.length; omega⟩

theorem writeBulkArrayInto_nil (decimal : fmt.Decimal) : Resp.writeBulkArrayInto fmt [] = EMPTY_ARRAY := by
  rw [Resp.writeBulkArrayInto, putUsize, decimal]
  rfl

theorem writeBulkArrayInto_eq_empty (decimal : fmt.Decimal) {elems : List Bytes}
    (h : Resp.writeBulkArrayInto fmt elems = EMPTY_ARRAY) : elems = [] := by
  cases elems with
  | nil => rfl
  | cons x elems =>
    have length := congrArg List.length h
    have digits := List.length_pos_iff.2 (Decimal.isNumeral_numeral (x :: elems).length).nonempty
    simp [Resp.writeBulkArrayInto, line, putUsize, decimal _, crlf, EMPTY_ARRAY] at length digits
    omega

/-- **LRANGE answers the elements of the clamped range.** -/
theorem cmdLrange_eq (decimal : fmt.Decimal) (parsed : lrangeCall args = .ok (key, i, j))
    (found : s.getRo now key = some e) (isList : e.value = .list d) (rep : d.Rep l) (small : d.Small) :
    cmdLrange fmt now args s = some (.ok (.raw (Resp.writeBulkArrayInto fmt (clampedRange i.toInt j.toInt l)))) := by
  unfold cmdLrange
  rw [parsed]
  dsimp only
  rw [found]
  dsimp only
  rw [isList]
  dsimp only
  rw [rep.len_eq, normalizeIdx_eq, normalizeIdx_eq]
  split
  · rename_i empty
    rw [clampedRange_of_empty empty, writeBulkArrayInto_nil decimal]
  · rename_i nonempty
    rw [lrangeElements_eq rep small (by omega) (by omega), clampedRange_clipped nonempty]
    rfl

/-- **LTRIM leaves the elements of the clamped range.** -/
theorem ltrimEdit_eq (isList : e.value = .list d) (rep : d.Rep l) (small : d.Small) :
    ∃ d' delta, ltrimEdit thr i j e = (.list d', some ⟨.ok (.simpleString "OK"), delta, d'.len == 0⟩) ∧
      d'.Rep (clampedRange i.toInt j.toInt l) := by
  by_cases empty : l.length ≤ clamped l.length i.toInt ∨ clamped l.length j.toInt < clamped l.length i.toInt
  · obtain ⟨d', trims, rep'⟩ := rep.trim small thr 1 0
    have nothing : ListSpec.range 1 0 l = clampedRange i.toInt j.toInt l := by
      rw [clampedRange_of_empty empty, ListSpec.range, List.drop_eq_nil_iff, List.length_take]
      omega
    rw [nothing] at trims rep'
    refine ⟨d', ListSpec.delta l (clampedRange i.toInt j.toInt l), ?_, rep'⟩
    simp only [ltrimEdit, isList, rep.len_eq, normalizeIdx_eq, if_pos empty, trims]
  · obtain ⟨d', trims, rep'⟩ := rep.trim small thr (clamped l.length i.toInt)
      (min (clamped l.length j.toInt) (l.length - 1))
    rw [ListSpec.range, clampedRange_clipped empty] at trims rep'
    refine ⟨d', ListSpec.delta l (clampedRange i.toInt j.toInt l), ?_, rep'⟩
    simp only [ltrimEdit, isList, rep.len_eq, normalizeIdx_eq, if_neg empty, trims]

/-- And they are all that is left of the key. -/
theorem cmdLtrim_leaves (parsed : ltrimCall args = .ok (key, i, j)) (found : s.getRo now key = some e)
    (isList : e.value = .list d) (rep : d.Rep l) (small : d.Small) :
    Leaves now key e s (cmdLtrim thr now args s) (.ok (.simpleString "OK")) (clampedRange i.toInt j.toInt l) := by
  obtain ⟨d', delta, edits, rep'⟩ := ltrimEdit_eq isList rep small
  unfold cmdLtrim
  rw [parsed]
  refine Leaves.of_edit found edits ?_
  have len := rep'.len_eq
  cases left : clampedRange i.toInt j.toInt l with
  | nil =>
    have emptied : (d'.len == 0) = true := by simp [len, left]
    rw [if_pos emptied]
    exact .gone
  | cons x rest =>
    have stays : (d'.len == 0) = false := by simp [len, left]
    rw [left] at rep'
    rw [stays]
    exact .list rep'

/-! ## LSET against the index that is meant -/

/-- LSET at the clamped index is right just if the index is not before the first element. -/
theorem replaced_iff {v : Bytes} {out : Database × Option (Result Resp)}
    (leaves : Leaves now key e s out (replaced (clamped l.length i.toInt) v l).1
      (replaced (clamped l.length i.toInt) v l).2) :
    Leaves now key e s out (replaced (denoted l.length i.toInt) v l).1 (replaced (denoted l.length i.toInt) v l).2 ↔
      (denoted l.length i.toInt < 0 → l = []) := by
  by_cases before : denoted l.length i.toInt < 0
  · have outside : replaced (denoted l.length i.toInt) v l = (.error .indexOutOfRange, l) := if_neg (by omega)
    have zero : clamped l.length i.toInt = 0 := Int.toNat_of_nonpos (by omega)
    cases l with
    | nil =>
      refine ⟨fun _ _ => rfl, fun _ => ?_⟩
      rw [zero] at leaves
      rw [outside]
      exact leaves
    | cons x l =>
      have first : replaced (clamped (x :: l).length i.toInt) v (x :: l) = (.ok (.simpleString "OK"), v :: l) := by
        rw [zero]
        exact if_pos ⟨le_rfl, by simp⟩
      rw [first] at leaves
      rw [outside]
      constructor
      · intro refused
        have answers := leaves.answers.symm.trans refused.answers
        cases answers
      · intro empty
        cases empty before
  · have same : ((clamped l.length i.toInt : Nat) : Int) = denoted l.length i.toInt := Int.toNat_of_nonneg (by omega)
    rw [same] at leaves
    exact ⟨fun _ neg => absurd neg before, fun _ => leaves⟩

/-- **LINDEX and LSET are right unless they are asked for a position before the first of a list with elements, and
LRANGE and LTRIM unless a range that begins no later than the list ends before it.** An index before the first
element is clamped to the first, for all four commands alike; so the first element stands for what is not there. -/
theorem list_index_iff (decimal : fmt.Decimal) (found : s.getRo now key = some e) (isList : e.value = .list d)
    (rep : d.Rep l) (small : d.Small) :
    (∀ args i, lindexCall args = .ok (key, i) →
      (cmdLindex now args s = some (.ok (.bulkString (at? (denoted l.length i.toInt) l))) ↔
        (denoted l.length i.toInt < 0 → l = []))) ∧
    (∀ args i v, lsetCall args = .ok (key, i, v) →
      (Leaves now key e s (cmdLset now args s) (replaced (denoted l.length i.toInt) v l).1
          (replaced (denoted l.length i.toInt) v l).2 ↔ (denoted l.length i.toInt < 0 → l = []))) ∧
    (∀ args i j, lrangeCall args = .ok (key, i, j) →
      (cmdLrange fmt now args s = some (.ok (.raw (Resp.writeBulkArrayInto fmt
          (between (denoted l.length i.toInt) (denoted l.length j.toInt) l)))) ↔ EndsInside i.toInt j.toInt l)) ∧
    ∀ args i j, ltrimCall args = .ok (key, i, j) →
      (Leaves now key e s (cmdLtrim thr now args s) (.ok (.simpleString "OK"))
          (between (denoted l.length i.toInt) (denoted l.length j.toInt) l) ↔ EndsInside i.toInt j.toInt l) := by
  refine ⟨fun args i parsed => ?_, fun args i v parsed => ?_, fun args i j parsed => ?_, fun args i j parsed => ?_⟩
  · rw [cmdLindex_eq parsed found isList rep small, ← clamped_at_iff]
    simp
  · exact replaced_iff (cmdLset_leaves parsed found isList rep small)
  · rw [cmdLrange_eq decimal parsed found isList rep small]
    constructor
    · intro same
      have same := Resp.raw.inj (Except.ok.inj (Option.some.inj same))
      refine fun before => (clampedRange_iff _ _ _).1 ?_ before
      rw [between_eq_nil l before, writeBulkArrayInto_nil decimal] at same
      rw [between_eq_nil l before, writeBulkArrayInto_eq_empty decimal same]
    · intro inside
      rw [(clampedRange_iff _ _ _).2 inside]
  · have leaves := @cmdLtrim_leaves thr now args s key e d l i j parsed found isList rep small
    constructor
    · intro right before
      have length := leaves.holds.length_eq right.holds
      refine (clampedRange_iff _ _ _).1 ?_ before
      rw [between_eq_nil l before] at length ⊢
      exact List.length_eq_zero_iff.1 length
    · intro inside
      rw [← (clampedRange_iff _ _ _).2 inside]
      exact leaves

/-- The list a b c, pushed one by one. -/
def abc : CompactList := [[97], [98], [99]].foldl CompactList.pushBack .new

/-- A list of three elements. -/
def abcEntry : Entry := ⟨.list (.compact abc), none, 0⟩

/-- A shard with this list under k. -/
def abcShard : Database := Database.new.insert [107] abcEntry

/-- The words of a request. -/
def words (args : List String) : List Resp := args.map fun a => .bulkString (some (Utf8.asBytes a))

/-- Integers are written in decimal. -/
def decimalFmt : Fmt := ⟨Decimal.numeral, fun _ => []⟩

theorem abc_rep : ListData.Rep (.compact abc) [[97], [98], [99]] :=
  CompactList.foldl_pushBack_rep CompactList.new_rep [[97], [98], [99]]

theorem abc_small : ListData.Small (.compact abc) := by
  show abc.buf.length < 2 ^ 32
  decide +kernel

theorem lindexCall_minusFour : lindexCall (words ["LINDEX", "k", "-4"]) = .ok ([107], -4) := by decide +kernel

theorem ltrimCall_minusFour : ltrimCall (words ["LTRIM", "k", "0", "-4"]) = .ok ([107], 0, -4) := by decide +kernel

/-- The last element, by its index from the end, and the two last. -/
theorem list_index_last :
    cmdLindex 0 (words ["LINDEX", "k", "-1"]) abcShard = some (.ok (.bulkString (some [99]))) ∧
      cmdLrange decimalFmt 0 (words ["LRANGE", "k", "-2", "-1"]) abcShard =
        some (.ok (.raw (Resp.writeBulkArrayInto decimalFmt [[98], [99]]))) := by
  have parsed : lindexCall (words ["LINDEX", "k", "-1"]) = .ok ([107], -1) := by decide +kernel
  have parsedRange : lrangeCall (words ["LRANGE", "k", "-2", "-1"]) = .ok ([107], -2, -1) := by decide +kernel
  have claim := @list_index_iff decimalFmt .default 0 abcShard [107] abcEntry _ _ (fun _ => rfl) rfl rfl abc_rep abc_small
  exact ⟨(claim.1 _ _ parsed).2 (by decide), (claim.2.2.1 _ _ _ parsedRange).2 fun before => absurd before (by decide)⟩

/-- LINDEX k -4 answers the first of three elements, and LTRIM k 0 -4 keeps it. -/
theorem before_the_first :
    cmdLindex 0 (words ["LINDEX", "k", "-4"]) abcShard = some (.ok (.bulkString (some [97]))) ∧
      cmdLindex 0 (words ["LINDEX", "k", "-4"]) abcShard ≠
        some (.ok (.bulkString (at? (denoted 3 (-4)) [[97], [98], [99]]))) ∧
      Leaves 0 [107] abcEntry abcShard (cmdLtrim .default 0 (words ["LTRIM", "k", "0", "-4"]) abcShard)
        (.ok (.simpleString "OK")) [[97]] ∧
      ¬Leaves 0 [107] abcEntry abcShard (cmdLtrim .default 0 (words ["LTRIM", "k", "0", "-4"]) abcShard)
        (.ok (.simpleString "OK")) (between (denoted 3 0) (denoted 3 (-4)) [[97], [98], [99]]) := by
  have first : cmdLindex 0 (words ["LINDEX", "k", "-4"]) abcShard = some (.ok (.bulkString (some [97]))) :=
    cmdLindex_eq lindexCall_minusFour rfl rfl abc_rep abc_small
  have trims : Leaves 0 [107] abcEntry abcShard (cmdLtrim .default 0 (words ["LTRIM", "k", "0", "-4"]) abcShard)
      (.ok (.simpleString "OK")) [[97]] := cmdLtrim_leaves ltrimCall_minusFour rfl rfl abc_rep abc_small
  refine ⟨first, ?_, trims, fun right => ?_⟩
  · rw [first]
    simp [at?, denoted]
  · exact absurd (trims.holds.length_eq right.holds) (by decide)

end ListIndex

end NexradeCache
