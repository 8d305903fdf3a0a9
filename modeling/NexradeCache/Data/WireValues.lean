import NexradeCache.Data.HashRefinement
import NexradeCache.Data.ListRefinement
import NexradeCache.Data.SetRefinement
import NexradeCache.Data.ZSetRefinement
import NexradeCache.Store.Database

/-!
# Values as they are decoded (`Deserialize` of `nexrade-core/src/{list,hash,set,zset}_data.rs`)

The table encodings write their elements only and count the cached total again when they are read back.
The compact encodings derive `Deserialize`: buffer, offsets and totals are taken as they come.
`WireValue` is what the decoder may give, with any fields; `load` is the value it becomes. `check`
recomputes what the fields claim, and it passes exactly those whose value satisfies the invariant of its
type (`WireValue.check_iff`).
-/

namespace NexradeCache

open Bytes

/-! ## What comes from the wire -/

/-- A list as the decoder hands it over, before the check. -/
inductive WireList where
  | compact (c : CompactList)
  | linked (items : List Bytes)

/-- A hash as the decoder hands it over. -/
inductive WireHash where
  | compact (c : CompactHash)
  | hashtable (map : AList fun _ : Bytes => Bytes)

/-- A set as the decoder hands it over. -/
inductive WireSet where
  | compact (c : CompactSet)
  | hashtable (set : IndexSet Bytes)

/-- A sorted set as the decoder hands it over: the map and the order are read apart. -/
inductive WireZSet where
  | compact (c : CompactZSet)
  | skiplist (members : AList fun _ : Bytes => F64) (byScore : OrdSet zKey)

/-- A value as the decoder hands it over. -/
inductive WireValue where
  | string (v : Bytes)
  | int (value : Int64)
  | list (l : WireList)
  | set (s : WireSet)
  | zset (z : WireZSet)
  | hash (h : WireHash)
  | bitmap (v : Bytes)
  | hyperLogLog (v : Bytes)
  | stream (s : StreamData)
  | geo (g : GeoData)

/-- The counters that are not written are computed. -/
def WireList.load : WireList → ListData
  | compact c => .compact c
  | linked items => .linked ⟨items, (items.map List.length).sum⟩

/-- The counters that are not written are computed. -/
def WireHash.load : WireHash → HashData
  | compact c => .compact c
  | hashtable map => .hashtable (.fromMap map)

/-- The counters that are not written are computed. -/
def WireSet.load : WireSet → SetData
  | compact c => .compact c
  | hashtable set => .hashtable (.fromIndexSet set)

/-- The counters that are not written are computed. The map and the order stay as they were read. -/
def WireZSet.load : WireZSet → ZSetData
  | compact c => .compact c
  | skiplist members byScore => .skiplist ⟨members, byScore, (members.pairs.map fun p => p.1.length).sum⟩

/-- The value that RESTORE stores. -/
def WireValue.load : WireValue → DataType
  | string v => .string v
  | int value => .int (.new value)
  | list l => .list l.load
  | set s => .set s.load
  | zset z => .zset z.load
  | hash h => .hash h.load
  | bitmap v => .bitmap v
  | hyperLogLog v => .hyperLogLog v
  | stream s => .stream s
  | geo g => .geo g

/-! ## Recomputing the fields -/

/-- The records from `head` on fill the buffer, the table has their offsets, and the total is theirs. -/
def CompactList.check (c : CompactList) : Bool :=
  match frameCodec.readAll c.buf c.len c.head with
  | some l => c.buf.length < 2 ^ 32 && c.head ≤ c.buf.length && frameCodec.encs l = c.buf.drop c.head &&
      c.offHead ≤ c.offsets.length && (c.offsets.drop c.offHead).take c.len = frameCodec.starts c.head l &&
      c.bytes = payload l
  | none => false

/-- Only a compact list can be malformed. -/
def WireList.check : WireList → Bool
  | compact c => c.check
  | linked _ => true

/-- The records fill the buffer, no field comes twice, and the total is theirs. -/
def CompactHash.check (c : CompactHash) : Bool :=
  match pairCodec.readAll c.buf c.len 0 with
  | some l => pairCodec.encs l = c.buf && (l.map Prod.fst).Nodup && c.bytes = pairPayload l
  | none => false

/-- The frames of a compact hash, and the lengths of a table. -/
def WireHash.check : WireHash → Bool
  | compact c => c.check
  | hashtable map => map.pairs.all fun p => p.1.length < 2 ^ 32 && p.2.length < 2 ^ 32

/-- The frames, and no member twice. -/
def CompactSet.check (c : CompactSet) : Bool :=
  match frameCodec.readAll c.buf c.len 0 with
  | some l => frameCodec.encs l = c.buf && l.Nodup && c.bytes = payload l
  | none => false

/-- A compact set is walked, a table is measured. -/
def WireSet.check : WireSet → Bool
  | compact c => c.check
  | hashtable set => set.items.all fun m => m.length < 2 ^ 32

/-- The records are in order, too, and their scores are numbers. -/
def CompactZSet.check (c : CompactZSet) : Bool :=
  match zCodec.readAll c.buf c.len 0 with
  | some l => zCodec.encs l = c.buf && (l.map Prod.snd).Nodup && c.bytes = payload (l.map Prod.snd) &&
      l.Pairwise (fun a b => zKey a < zKey b) && l.all fun e => !e.1.isNaN
  | none => false

/-- The index has the members of the map, with their scores. -/
def WireZSet.check : WireZSet → Bool
  | compact c => c.check
  | skiplist members byScore =>
    (byScore.items.map Prod.snd).Nodup &&
      (byScore.items.all fun e =>
        (members.lookup e.2).map F64.key = some e.1.key && !e.1.isNaN && e.2.length < 2 ^ 32) &&
      members.pairs.all fun p => (byScore.items.map Prod.snd).contains p.1

/-- Texts and numbers need no check. -/
def WireValue.check : WireValue → Bool
  | list l => l.check
  | set s => s.check
  | zset z => z.check
  | hash h => h.check
  | _ => true

/-! ## The invariant of a value -/

namespace DataType

/-- The encoding is consistent. Of the other types no access trusts a length or an offset that is stored. -/
def Sound : DataType → Prop
  | list d => d.Small ∧ ∃ l, d.Rep l
  | set d => ∃ s, d.Rep s
  | zset d => ∃ z l, d.Rep z l
  | hash d => ∃ m, d.Rep m
  | _ => True

/-- No run of operations reads out of bounds or subtracts below zero. Lists stay below `2 ^ 32` bytes, lengths
fit their prefix, and scores are numbers. -/
def Safe : DataType → Prop
  | list d => ∀ calls, Run.Visits ListData.step ListData.Small calls d → (Run.run ListData.step calls d).isSome
  | set d => ∀ calls, (∀ call ∈ calls, call.op.Valid) → (Run.run SetData.step calls d).isSome
  | zset d => ∀ calls, (∀ call ∈ calls, call.op.NonNaN ∧ call.op.Short) → (Run.run ZSetData.step calls d).isSome
  | hash d => ∀ calls, (∀ call ∈ calls, call.op.Valid) → (Run.run HashData.step calls d).isSome
  | _ => True

theorem Sound.safe {v : DataType} (sound : v.Sound) : v.Safe := by
  cases v with
  | list d =>
    intro calls below
    obtain ⟨small, l, rep⟩ := sound
    have one : ∀ (call : ListThresholds × ListOp) (d : ListData) (l : List Bytes), True → d.Rep l ∧ d.Small →
        ∃ d' r, d.step call = some (d', r) ∧ r = (ListSpec.apply call.2 l).2 ∧
          (d'.Small → d'.Rep (ListSpec.apply call.2 l).1 ∧ d'.Small) := by
      rintro call d l - ⟨rep, small⟩
      obtain ⟨d', run, rep'⟩ := ListData.step_refines call rep small
      exact ⟨d', _, run, rfl, fun small' => ⟨rep', small'⟩⟩
    obtain ⟨d', answers, run, -⟩ := Run.run_refines one (fun _ _ => trivial) below ⟨rep, small⟩
    rw [run]
    rfl
  | set d =>
    intro calls valid
    obtain ⟨s, rep⟩ := sound
    obtain ⟨d', answers, s', run, -⟩ :=
      Run.run_allowed (fun call d s valid rep => SetData.step_refines call valid rep) valid rep
    rw [run]
    rfl
  | zset d =>
    intro calls valid
    obtain ⟨z, rep⟩ := sound
    have one : ∀ (call : ZSetCall) (d : ZSetData) (z : ZMap), call.op.NonNaN ∧ call.op.Short →
        (∃ l, d.Rep z l) → ∃ d' r z', d.step call = some (d', r) ∧ ZSetSpec call.op z r z' ∧
          ∃ l', d'.Rep z' l' := fun call d z valid rep => ZSetData.step_refines call valid.1 valid.2 rep
    obtain ⟨d', answers, z', run, -⟩ := Run.run_allowed one valid rep
    rw [run]
    rfl
  | hash d =>
    intro calls valid
    obtain ⟨m, rep⟩ := sound
    have one : ∀ (call : HashCall) (d : HashData) (m : HashSpec.Map), call.op.Valid → d.Rep m →
        ∃ d' r, d.step call = some (d', r) ∧ HashData.AnswersAgree r (HashSpec.apply call.op m).2 ∧
          (True → d'.Rep (HashSpec.apply call.op m).1) := by
      intro call d m valid rep
      obtain ⟨d', r, run, agree, rep'⟩ := HashData.step_refines call valid rep
      exact ⟨d', r, run, agree, fun _ => rep'⟩
    obtain ⟨d', answers, run, -⟩ := Run.run_refines one valid (fun _ _ _ _ _ => trivial) rep
    rw [run]
    rfl
  | string v => trivial
  | int cell => trivial
  | bitmap v => trivial
  | hyperLogLog v => trivial
  | stream s => trivial
  | geo g => trivial

end DataType

/-! ## The check is exact -/

/-- What passes is a list in the compact form, short enough for its offsets. -/
theorem CompactList.check_iff {c : CompactList} : c.check = true ↔ c.buf.length < 2 ^ 32 ∧ ∃ l, c.Rep l := by
  constructor
  · intro checked
    unfold check at checked
    split at checked
    · rename_i l read
      simp only [Bool.and_eq_true, decide_eq_true_eq] at checked
      obtain ⟨⟨⟨⟨⟨small, inside⟩, fills⟩, room⟩, table⟩, bytes⟩ := checked
      obtain ⟨length, -⟩ := Codec.readAll_valid frameCodec_decodesValid read
      have whole : c.buf = c.buf.take c.head ++ frameCodec.encs l := by rw [fills, List.take_append_drop]
      have exact : frameCodec.starts c.head l = offsetsOf c.head l := by
        rw [offsetsOf]
        conv_lhs => rw [← List.map_id (frameCodec.starts c.head l)]
        refine List.map_congr_left fun s mem => (Nat.mod_eq_of_lt ?_).symm
        have below := (frameCodec.mem_starts mem).2
        have total := congrArg List.length fills
        rw [List.length_drop] at total
        show s < 2 ^ 32
        omega
      refine ⟨small, l, ⟨c.buf.take c.head, whole, by rw [List.length_take, Nat.min_eq_left inside]⟩,
        ⟨c.offsets.take c.offHead, (c.offsets.drop c.offHead).drop c.len, ?_, ?_⟩, length.symm, bytes⟩
      · rw [← exact, ← table, List.take_append_drop, List.take_append_drop]
      · rw [List.length_take, Nat.min_eq_left room]
    · cases checked
  · rintro ⟨small, l, rep⟩
    obtain ⟨spare, buf, head⟩ := rep.live
    obtain ⟨dead, junk, offsets, offHead⟩ := rep.table
    have read : frameCodec.readAll c.buf c.len c.head = some l := by
      rw [rep.len]
      exact frameCodec.readAll_encs (z := []) (rep.valid small) (by rw [buf, List.append_nil]) head.symm
    have table := rep.offsets_exact small
    have window : (c.offsets.drop c.offHead).take c.len = frameCodec.starts c.head l := by
      rw [offsets, ← offHead, List.drop_left, ← table, rep.len, ← length_offsetsOf c.head l, List.take_left]
    rw [check, read]
    simp only [Bool.and_eq_true, decide_eq_true_eq]
    refine ⟨⟨⟨⟨⟨small, ?_⟩, ?_⟩, ?_⟩, window⟩, rep.bytes⟩
    · rw [rep.length_buf]
      exact Nat.le_add_right _ _
    · rw [buf, ← head, List.drop_left]
    · rw [offsets, ← offHead, List.length_append]
      exact Nat.le_add_right _ _

theorem WireList.check_iff {w : WireList} : w.check = true ↔ (DataType.list w.load).Sound := by
  cases w with
  | compact c => exact CompactList.check_iff
  | linked items => exact iff_of_true rfl ⟨trivial, items, rfl⟩

theorem CompactHash.check_iff {c : CompactHash} : c.check = true ↔ ∃ l, c.Rep l ∧ (l.map Prod.fst).Nodup := by
  constructor
  · intro checked
    unfold check at checked
    split at checked
    · rename_i l read
      simp only [Bool.and_eq_true, decide_eq_true_eq] at checked
      obtain ⟨⟨fills, nodup⟩, bytes⟩ := checked
      obtain ⟨length, valid⟩ :=
        Codec.readAll_valid (Codec.DecodesValid.pair frameCodec_decodesValid frameCodec_decodesValid) read
      exact ⟨l, ⟨fills.symm, length.symm, bytes, valid⟩, nodup⟩
    · cases checked
  · rintro ⟨l, rep, nodup⟩
    have read : pairCodec.readAll c.buf c.len 0 = some l := by
      rw [rep.len]
      exact pairCodec.readAll_encs (a := []) (z := []) rep.valid (by simpa using rep.buf) rfl
    rw [check, read]
    simp only [Bool.and_eq_true, decide_eq_true_eq]
    exact ⟨⟨rep.buf.symm, nodup⟩, rep.bytes⟩

/-- The check finds exactly the sound hashes. -/
theorem WireHash.check_iff {w : WireHash} : w.check = true ↔ (DataType.hash w.load).Sound := by
  cases w with
  | compact c =>
    refine CompactHash.check_iff.trans ⟨?_, ?_⟩
    · rintro ⟨l, rep, nodup⟩
      exact ⟨_, l, rep, .of_nodup nodup⟩
    · rintro ⟨m, l, rep, lists⟩
      exact ⟨l, rep, lists.nodup⟩
  | hashtable map =>
    rw [check, List.all_eq_true]
    constructor
    · intro short
      refine ⟨_, HashData.fromMap_rep fun e mem => ?_⟩
      have both := short e mem
      rwa [Bool.and_eq_true, decide_eq_true_eq, decide_eq_true_eq] at both
    · rintro ⟨m, l, rep, -⟩ e mem
      have pairs : map.pairs = l := HashtableHash.Rep.pairs rep
      rw [Bool.and_eq_true, decide_eq_true_eq, decide_eq_true_eq]
      exact HashtableHash.Rep.valid rep e (pairs ▸ mem)

theorem CompactSet.check_iff {c : CompactSet} : c.check = true ↔ ∃ l, c.Rep l ∧ l.Nodup := by
  constructor
  · intro checked
    unfold check at checked
    split at checked
    · rename_i l read
      simp only [Bool.and_eq_true, decide_eq_true_eq] at checked
      obtain ⟨⟨fills, nodup⟩, bytes⟩ := checked
      obtain ⟨length, valid⟩ := Codec.readAll_valid frameCodec_decodesValid read
      exact ⟨l, ⟨fills.symm, length.symm, bytes, valid⟩, nodup⟩
    · cases checked
  · rintro ⟨l, rep, nodup⟩
    have read : frameCodec.readAll c.buf c.len 0 = some l := by
      rw [rep.len]
      exact frameCodec.readAll_encs (a := []) (z := []) rep.valid (by simpa using rep.buf) rfl
    rw [check, read]
    simp only [Bool.and_eq_true, decide_eq_true_eq]
    exact ⟨⟨rep.buf.symm, nodup⟩, rep.bytes⟩

theorem WireSet.check_iff {w : WireSet} : w.check = true ↔ (DataType.set w.load).Sound := by
  cases w with
  | compact c =>
    refine CompactSet.check_iff.trans ⟨?_, ?_⟩
    · rintro ⟨l, rep, nodup⟩
      exact ⟨_, l, rep, nodup, rfl⟩
    · rintro ⟨s, l, rep, nodup, -⟩
      exact ⟨l, rep, nodup⟩
  | hashtable set =>
    rw [check, List.all_eq_true]
    constructor
    · intro short
      have valid : ∀ m ∈ set.items, frameCodec.Valid m := by
        intro m mem
        show m.length < 2 ^ 32
        exact of_decide_eq_true (short m mem)
      exact ⟨_, set.items, ⟨rfl, rfl, valid⟩, set.nodup, rfl⟩
    · rintro ⟨s, l, rep, -⟩ m mem
      have items : set.items = l := HashtableSet.Rep.items rep
      have short : m.length < 2 ^ 32 := HashtableSet.Rep.valid rep m (items ▸ mem)
      exact decide_eq_true short

/-- What passes has no member twice, is in order and has no NaN. -/
theorem CompactZSet.check_iff {c : CompactZSet} :
    c.check = true ↔ ∃ l, c.Rep l ∧ (l.map Prod.snd).Nodup ∧ l.Increasing zKey ∧ ∀ e ∈ l, e.1.isNaN = false := by
  constructor
  · intro checked
    unfold check at checked
    split at checked
    · rename_i l read
      simp only [Bool.and_eq_true, decide_eq_true_eq, List.all_eq_true, Bool.not_eq_true'] at checked
      obtain ⟨⟨⟨⟨fills, nodup⟩, bytes⟩, sorted⟩, numbers⟩ := checked
      have scores : F64.codec.DecodesValid := fun _ => trivial
      obtain ⟨length, valid⟩ :=
        Codec.readAll_valid (Codec.DecodesValid.pair scores frameCodec_decodesValid) read
      exact ⟨l, ⟨fills.symm, length.symm, bytes, valid⟩, nodup, sorted, numbers⟩
    · cases checked
  · rintro ⟨l, rep, nodup, sorted, numbers⟩
    have read : zCodec.readAll c.buf c.len 0 = some l := by
      rw [rep.len]
      exact zCodec.readAll_encs (a := []) (z := []) rep.valid (by simpa using rep.buf) rfl
    rw [check, read]
    simp only [Bool.and_eq_true, decide_eq_true_eq, List.all_eq_true, Bool.not_eq_true']
    exact ⟨⟨⟨⟨rep.buf.symm, nodup⟩, rep.bytes⟩, sorted⟩, numbers⟩

/-- Pairs with distinct members list the map that looks them up. -/
theorem ordered_of_nodup {l : List ZPair} (nodup : (l.map Prod.snd).Nodup) (sorted : l.Increasing zKey) :
    Ordered l (ZSetData.keys fun m => (l.map Prod.swap).lookup m) := by
  have swapped : ((l.map Prod.swap).map Prod.fst).Nodup := by rwa [List.map_map]
  have lists := (ListsMap.of_nodup swapped).map_values F64.key
  rw [List.map_map] at lists
  exact ⟨sorted, lists⟩

/-- The index of the fields a decoded skip list has. -/
theorem skiplist_rep {members : AList fun _ : Bytes => F64} {byScore : OrdSet zKey}
    (nodup : (byScore.items.map Prod.snd).Nodup)
    (scores : ∀ e ∈ byScore.items, (members.lookup e.2).map F64.key = some e.1.key)
    (short : ∀ e ∈ byScore.items, e.2.length < 2 ^ 32)
    (listed : ∀ p ∈ members.pairs, p.1 ∈ byScore.items.map Prod.snd) :
    (SkiplistZSet.mk members byScore (members.pairs.map fun p => p.1.length).sum).Rep byScore.items := by
  have known (k : Bytes) (x : F64) (found : members.lookup k = some x) :
      ∃ e ∈ byScore.items, e.2 = k ∧ e.1.key = x.key := by
    obtain ⟨e, mem, rfl⟩ := List.mem_map.1 (listed (k, x) ((members.lists_pairs.mem k x).2 found))
    have same := scores e mem
    rw [found, Option.map_some, Option.some.injEq] at same
    exact ⟨e, mem, rfl, same.symm⟩
  refine ⟨rfl, ⟨?_, fun k v => ?_⟩, ?_, fun e mem => zCodec_valid.2 (short e mem)⟩
  · rw [Ordered.members_eq]
    exact nodup
  · rw [memberKeys, List.mem_map]
    constructor
    · rintro ⟨e, mem, same⟩
      cases same
      exact scores e mem
    · intro found
      obtain ⟨x, lookup, rfl⟩ := Option.map_eq_some_iff.1 found
      obtain ⟨e, mem, rfl, same⟩ := known k x lookup
      exact ⟨e, mem, by rw [same]⟩
  · have perm : (members.pairs.map Prod.fst).Perm (byScore.items.map Prod.snd) := by
      refine (List.perm_ext_iff_of_nodup members.lists_pairs.nodup nodup).2 fun k => ⟨?_, ?_⟩
      · intro key
        obtain ⟨p, mem, rfl⟩ := List.mem_map.1 key
        exact listed p mem
      · intro member
        obtain ⟨e, mem, rfl⟩ := List.mem_map.1 member
        obtain ⟨x, lookup, -⟩ := Option.map_eq_some_iff.1 (scores e mem)
        exact List.mem_map.2 ⟨(e.2, x), (members.lists_pairs.mem _ _).2 lookup, rfl⟩
    rw [← payload_perm perm, payload, List.map_map]
    rfl

/-- The check finds exactly the sound sorted sets. -/
theorem WireZSet.check_iff {w : WireZSet} : w.check = true ↔ (DataType.zset w.load).Sound := by
  cases w with
  | compact c =>
    refine CompactZSet.check_iff.trans ⟨?_, ?_⟩
    · rintro ⟨l, rep, nodup, sorted, numbers⟩
      exact ⟨_, l, rep, ordered_of_nodup nodup sorted, numbers⟩
    · rintro ⟨z, l, rep⟩
      exact ⟨l, rep.holds, rep.ordered.nodup, rep.ordered.sorted, rep.nonNaN⟩
  | skiplist members byScore =>
    simp only [check, Bool.and_eq_true, decide_eq_true_eq, List.all_eq_true, Bool.not_eq_true',
      List.contains_iff_mem]
    constructor
    · rintro ⟨⟨nodup, entries⟩, listed⟩
      have rep := skiplist_rep nodup (fun e mem => (entries e mem).1.1) (fun e mem => (entries e mem).2) listed
      exact ⟨_, _, rep, rep.ordered, fun e mem => (entries e mem).1.2⟩
    · rintro ⟨z, l, rep⟩
      have skiplist : SkiplistZSet.Rep _ l := rep.holds
      have items : byScore.items = l := skiplist.items
      rw [items]
      refine ⟨⟨rep.ordered.nodup, fun e mem => ⟨⟨?_, rep.nonNaN e mem⟩, zCodec_valid.1 (skiplist.valid e mem)⟩⟩, ?_⟩
      · exact (skiplist.lists.mem _ _).1 (List.mem_map_of_mem mem)
      · intro p mem
        have found := (members.lists_pairs.mem p.1 p.2).1 mem
        have keyed : (members.lookup p.1).map F64.key = some p.2.key := by rw [found]; rfl
        obtain ⟨e, mem, same, -⟩ := skiplist.ordered.mem_of_key keyed
        exact List.mem_map.2 ⟨e, mem, same⟩

/-- The check passes exactly the values that satisfy the invariant of their type. -/
theorem WireValue.check_iff {w : WireValue} : w.check = true ↔ w.load.Sound := by
  cases w with
  | list l => exact WireList.check_iff
  | set s => exact WireSet.check_iff
  | zset z => exact WireZSet.check_iff
  | hash h => exact WireHash.check_iff
  | string v => exact iff_of_true rfl trivial
  | int value => exact iff_of_true rfl trivial
  | bitmap v => exact iff_of_true rfl trivial
  | hyperLogLog v => exact iff_of_true rfl trivial
  | stream s => exact iff_of_true rfl trivial
  | geo g => exact iff_of_true rfl trivial

end NexradeCache
