import NexradeCache.Data.ZSetRep
import NexradeCache.Lib.Run

/-!
# `ZSetData` refines a finite map ordered by (score, member)

The abstract sorted set is a map from members to scores; its order is that of `zKey`. Scores are
compared as doubles are (`F64.eq`): the two zeros are one score, and which of their patterns is
read back is not promised. `pop_extreme` is specified by what it returns: a member that precedes
(or follows) every other one.
-/

namespace NexradeCache

open Bytes

/-! ## The abstract sorted set -/

/-- The operations of a sorted set. -/
inductive ZSetOp where
  | insert (member : Bytes) (score : F64)
  | remove (member : Bytes)
  | popExtreme (max : Bool)
  | ensureSkiplist
  | maybeDemote
  | fromPairs (pairs : List (Bytes × F64))

/-- What an operation returns. -/
inductive ZSetAns where
  | inserted (isNew : Bool)
  | removed (score : Option F64)
  | popped (e : Option (F64 × Bytes))
  | done
deriving DecidableEq

/-- One call: the thresholds in force, the hash map order `from_pairs` sees, and the operation. -/
structure ZSetCall where
  thr : ZSetThresholds
  ord : ScoreOrder
  op : ZSetOp

/-- The scores an operation stores are not NaN. -/
def ZSetOp.NonNaN : ZSetOp → Prop
  | .insert _ score => score.isNaN = false
  | .fromPairs pairs => ∀ e ∈ pairs, e.2.isNaN = false
  | _ => True

/-- The members an operation stores fit the `u32` prefix. -/
def ZSetOp.Short : ZSetOp → Prop
  | .insert member _ => member.length < 2 ^ 32
  | .fromPairs pairs => ∀ e ∈ pairs, e.1.length < 2 ^ 32
  | _ => True

/-- The scores of the members. -/
abbrev ZMap := Bytes → Option F64

/-- Successive insertions. -/
def ZMap.insertAll (z : ZMap) (pairs : List (Bytes × F64)) : ZMap :=
  pairs.foldl (fun (z : ZMap) e => Function.update z e.1 (some e.2)) z

/-- Equal scores, as doubles. -/
def SameScore : Option F64 → Option F64 → Prop
  | none, none => True
  | some a, some b => a.eq b = true
  | _, _ => False

/-- `m` has score `s` and comes before every other member (after, for `max`). -/
def ZMap.Extreme (z : ZMap) (max : Bool) (s : F64) (m : Bytes) : Prop :=
  z m = some s ∧ ∀ m' s', z m' = some s' → m' ≠ m →
    if max then zKey (s', m') < zKey (s, m) else zKey (s, m) < zKey (s', m')

/-- The abstract sorted set. -/
inductive ZSetSpec : ZSetOp → ZMap → ZSetAns → ZMap → Prop
  | insert (member : Bytes) (score : F64) (z : ZMap) :
    ZSetSpec (.insert member score) z (.inserted (z member).isNone)
      (Function.update z member (some score))
  | remove {member : Bytes} {z : ZMap} {r : Option F64} :
    SameScore r (z member) → ZSetSpec (.remove member) z (.removed r) (Function.update z member none)
  | pop {max : Bool} {z : ZMap} {s r : F64} {m : Bytes} :
    z.Extreme max s m → r.eq s = true →
    ZSetSpec (.popExtreme max) z (.popped (some (r, m))) (Function.update z m none)
  | popEmpty {max : Bool} {z : ZMap} :
    (∀ m, z m = none) → ZSetSpec (.popExtreme max) z (.popped none) z
  | ensureSkiplist (z : ZMap) : ZSetSpec .ensureSkiplist z .done z
  | maybeDemote (z : ZMap) : ZSetSpec .maybeDemote z .done z
  | fromPairs (pairs : List (Bytes × F64)) (z : ZMap) :
    ZSetSpec (.fromPairs pairs) z .done (ZMap.insertAll (fun _ => none) pairs)

namespace ZSetData

/-- One call on a sorted set. -/
def step (call : ZSetCall) (d : ZSetData) : Option (ZSetData × ZSetAns) :=
  match call.op with
  | .insert member score => do
    let (d', isNew) ← d.insert call.thr member score
    return (d', .inserted isNew)
  | .remove member => do
    let (d', r) ← d.remove call.thr member
    return (d', .removed r)
  | .popExtreme max => do
    let (d', e) ← d.popExtreme call.thr max
    return (d', .popped e)
  | .ensureSkiplist => some (d.ensureSkiplist, .done)
  | .maybeDemote => some (d.maybeDemote call.thr, .done)
  | .fromPairs pairs => some (ZSetData.fromPairs call.thr call.ord pairs, .done)

/-- What is read from `d` is the map `z` in the order (score, member). -/
structure Agrees (d : ZSetData) (z : ZMap) : Prop where
  score : ∀ m, SameScore (d.score m) (z m)
  sorted : d.toPairsSorted.Pairwise fun a b => zKey (a.2, a.1) < zKey (b.2, b.1)
  once : (d.toPairsSorted.map Prod.fst).Nodup
  members : ∀ m, m ∈ d.toPairsSorted.map Prod.fst ↔ (z m).isSome
  pairs : ∀ e ∈ d.toPairsSorted, SameScore (some e.2) (z e.1)
  len : d.len = d.toPairsSorted.length
  rank : ∀ m rev, d.rank m rev =
    some (((if rev then d.toPairsSorted.reverse else d.toPairsSorted).map Prod.fst).idxOf? m)
  first : d.first = d.toPairsSorted.head?.map fun e => (e.2, e.1)
  last : d.last = d.toPairsSorted.getLast?.map fun e => (e.2, e.1)
  index : ∀ s, d = .skiplist s → ∀ m x, s.byScore.contains (x, m) = true ↔
    ∃ y, s.members.lookup m = some y ∧ y.key = x.key
  payload : d.payloadBytes = ((d.toPairsSorted.map Prod.fst).map List.length).sum

/-! ## Both encodings -/

/-- The value stores the pairs `l`. -/
def Holds (d : ZSetData) (l : List ZPair) : Prop :=
  match d with
  | .compact c => c.Rep l
  | .skiplist s => s.Rep l

/-- The keys of the scores of `z`. -/
def keys (z : ZMap) : Bytes → Option Int := fun m => (z m).map F64.key

/-- `d` stands for the map `z`. -/
structure Rep (d : ZSetData) (z : ZMap) (l : List ZPair) : Prop where
  holds : d.Holds l
  ordered : Ordered l (keys z)
  nonNaN : ∀ e ∈ l, e.1.isNaN = false

theorem keys_update (z : ZMap) (m : Bytes) (r : Option F64) :
    keys (Function.update z m r) = Function.update (keys z) m (r.map F64.key) := by
  funext x
  by_cases hx : x = m
  · subst hx
    simp [keys]
  · simp [keys, hx]

theorem sameScore_of_key {a b : Option F64} (h : a.map F64.key = b.map F64.key)
    (nan : ∀ x, a = some x → x.isNaN = false) : SameScore a b := by
  cases a with
  | none =>
    cases b with
    | none => trivial
    | some b => simp at h
  | some a =>
    cases b with
    | none => simp at h
    | some b =>
      have key : a.key = b.key := by simpa using h
      exact (F64.eq_iff (nan a rfl) (F64.isNaN_congr key ▸ nan a rfl)).2 key

variable {d : ZSetData} {z : ZMap} {l : List ZPair} {k : Bytes → Option Int} {member : Bytes} {score : F64}

theorem compact_insert {c : CompactZSet} (rep : c.Rep l) (h : Ordered l k)
    (valid : zCodec.Valid (score, member)) :
    ∃ c' l', c.insert member score = some (c', (k member).isNone) ∧ c'.Rep l' ∧
      Ordered l' (Function.update k member (some score.key)) ∧ ∀ e ∈ l', e ∈ l ∨ e = (score, member) := by
  cases held : k member with
  | none =>
    obtain ⟨c', run, rep'⟩ := rep.insert_new h.nodup (h.absent held) valid
    exact ⟨c', _, run, rep', h.insert_new held score, fun e => mem_insertBy⟩
  | some x =>
    obtain ⟨e, he, same, -⟩ := h.mem_of_key held
    obtain ⟨a, y, old, c', rfl, run, rep'⟩ := rep.insert_present h.nodup ⟨e, he, same⟩ valid
    exact ⟨c', _, run, rep', h.rescored score, fun e => mem_rescored⟩

theorem skiplist_insert {s : SkiplistZSet} (rep : s.Rep l) (h : Ordered l k)
    (valid : zCodec.Valid (score, member)) :
    ∃ s' l', s.insert member score = (s', (k member).isNone) ∧ s'.Rep l' ∧
      Ordered l' (Function.update k member (some score.key)) ∧ ∀ e ∈ l', e ∈ l ∨ e = (score, member) := by
  have look := rep.lookup_key h member
  cases held : s.members.lookup member with
  | none =>
    have gone : k member = none := by rw [← look, held]; rfl
    obtain ⟨s', run, rep'⟩ := rep.insert_new held valid
    exact ⟨s', _, by rw [run, gone]; rfl, rep', h.insert_new gone score, fun e => mem_insertBy⟩
  | some old' =>
    have here : k member = some old'.key := by rw [← look, held]; rfl
    obtain ⟨a, y, old, rfl, same, -⟩ := h.split here
    obtain ⟨s', run, rep'⟩ := rep.insert_present held same valid
    exact ⟨s', _, by rw [run, here]; rfl, rep', h.rescored score, fun e => mem_rescored⟩

/-- Reading an ordered list back into an index gives that list. -/
theorem toSkiplist_rep (h : d.Holds l) (ordered : Ordered l k) : d.toSkiplist.Rep l := by
  cases d with
  | skiplist s => exact h
  | compact c =>
    have rep : c.Rep l := h
    have swap : (l.map fun e : ZPair => ((e.2, e.1) : Bytes × F64)).map (fun e => ((e.2, e.1) : ZPair)) = l := by
      rw [List.map_map]
      exact List.map_id l
    obtain ⟨l', rep', perm⟩ := SkiplistZSet.foldl_insert_rep
      (l.map fun e : ZPair => ((e.2, e.1) : Bytes × F64)) SkiplistZSet.new_rep
      (by rw [List.map_map]; exact ordered.nodup) (fun _ _ => rfl)
      (by
        intro e he
        obtain ⟨x, hx, rfl⟩ := List.mem_map.1 he
        exact rep.valid x hx)
    rw [swap, List.append_nil] at perm
    obtain rfl : l' = l := rep'.ordered.sorted.eq_of_perm ordered.sorted perm
    rw [toSkiplist, rep.iterPairs_eq]
    exact ⟨rep'.items, rep'.lists, rep.bytes, rep'.valid⟩

theorem insert_ordered (h : d.Holds l) (ordered : Ordered l k) (thr : ZSetThresholds) (short : member.length < 2 ^ 32) :
    ∃ d' l', d.insert thr member score = some (d', (k member).isNone) ∧ d'.Holds l' ∧
      Ordered l' (Function.update k member (some score.key)) ∧ ∀ e ∈ l', e ∈ l ∨ e = (score, member) := by
  have valid : zCodec.Valid (score, member) := zCodec_valid.2 short
  cases d with
  | skiplist s =>
    obtain ⟨s', l', run, rep', ordered', from_⟩ := skiplist_insert h ordered valid
    exact ⟨.skiplist s', l', by simp [ZSetData.insert, run], rep', ordered', from_⟩
  | compact c =>
    obtain ⟨s', l', run, rep', ordered', from_⟩ := skiplist_insert (toSkiplist_rep h ordered) ordered valid
    have promote : some (promoteInsert c member score) = some (.skiplist s', (k member).isNone) := by
      simp [promoteInsert, run]
    rw [ZSetData.insert]
    split
    · exact ⟨.skiplist s', l', promote, rep', ordered', from_⟩
    · dsimp only
      split
      · exact ⟨.skiplist s', l', promote, rep', ordered', from_⟩
      · obtain ⟨c', l', run', rep', ordered', from_⟩ := compact_insert h ordered valid
        exact ⟨.compact c', l', by simp [run'], rep', ordered', from_⟩

theorem Rep.insert (h : d.Rep z l) (thr : ZSetThresholds) (nan : score.isNaN = false)
    (short : member.length < 2 ^ 32) :
    ∃ d' l', d.insert thr member score = some (d', (z member).isNone) ∧
      d'.Rep (Function.update z member (some score)) l' := by
  have isNone : (keys z member).isNone = (z member).isNone := by simp [keys]
  obtain ⟨d', l', run, holds, ordered, from_⟩ := insert_ordered h.holds h.ordered thr short
  refine ⟨d', l', by rw [run, isNone], holds, by rw [keys_update]; exact ordered, fun e he => ?_⟩
  rcases from_ e he with he | rfl
  · exact h.nonNaN e he
  · exact nan

theorem maybeDemote_holds (h : d.Holds l) (thr : ZSetThresholds) : (d.maybeDemote thr).Holds l := by
  cases d with
  | compact c => exact h
  | skiplist s =>
    have rep : s.Rep l := h
    have packed := CompactZSet.foldl_appendPair_rep CompactZSet.new_rep rep.valid
    rw [List.nil_append] at packed
    rw [ZSetData.maybeDemote, rep.items]
    split
    · exact h
    split
    · exact h
    split
    · exact h
    · exact packed

theorem Rep.maybeDemote (h : d.Rep z l) (thr : ZSetThresholds) : (d.maybeDemote thr).Rep z l :=
  ⟨maybeDemote_holds h.holds thr, h.ordered, h.nonNaN⟩

theorem remove_ordered (h : d.Holds l) (ordered : Ordered l k) (thr : ZSetThresholds) (member : Bytes) :
    ∃ d' r, d.remove thr member = some (d', r) ∧ r.map F64.key = k member ∧
      d'.Holds (CompactZSet.others member l) ∧
      Ordered (CompactZSet.others member l) (Function.update k member none) := by
  cases held : k member with
  | none =>
    have absent := ordered.absent held
    rw [CompactZSet.others_of_absent absent]
    refine ⟨d, none, ?_, rfl, h, ?_⟩
    · cases d with
      | compact c => simp [ZSetData.remove, CompactZSet.Rep.remove_miss h absent]
      | skiplist s =>
        have look := SkiplistZSet.Rep.lookup_key h ordered member
        rw [held, Option.map_eq_none_iff] at look
        simp [ZSetData.remove, SkiplistZSet.remove, look]
    · rwa [← held, Function.update_eq_self]
  | some x =>
    obtain ⟨a, y, old, rfl, same, miss⟩ := ordered.split held
    have after : ∀ e ∈ y, e.2 ≠ member := by
      intro e he eq
      have nodup := ordered.nodup
      rw [List.map_append, List.map_cons, List.nodup_append, List.nodup_cons] at nodup
      exact nodup.2.1.1 (List.mem_map.2 ⟨e, he, eq⟩)
    rw [CompactZSet.others_split miss after]
    cases d with
    | compact c =>
      obtain ⟨c', run, rep'⟩ := CompactZSet.Rep.remove_hit h miss
      have holds : (ZSetData.compact c').Holds (a ++ y) := rep'
      exact ⟨_, some old, by simp [ZSetData.remove, run], congrArg some same, maybeDemote_holds holds thr, ordered.remove⟩
    | skiplist s =>
      have look := SkiplistZSet.Rep.lookup_key h ordered member
      rw [held, Option.map_eq_some_iff] at look
      obtain ⟨old', look, same'⟩ := look
      obtain ⟨s', run, rep'⟩ := SkiplistZSet.Rep.remove_hit h look (same.trans same'.symm)
      have holds : (ZSetData.skiplist s').Holds (a ++ y) := rep'
      exact ⟨_, some old', by simp [ZSetData.remove, run], congrArg some same', maybeDemote_holds holds thr,
        ordered.remove⟩

theorem Rep.remove_others (h : d.Rep z l) (thr : ZSetThresholds) (member : Bytes) :
    ∃ d' r, d.remove thr member = some (d', r) ∧ SameScore r (z member) ∧ r.isSome = (z member).isSome ∧
      d'.Rep (Function.update z member none) (CompactZSet.others member l) := by
  obtain ⟨d', r, run, key, holds, ordered⟩ := remove_ordered h.holds h.ordered thr member
  refine ⟨d', r, run, sameScore_of_key key fun x hx => ?_, ?_, holds, by rwa [keys_update], fun e he => ?_⟩
  · obtain ⟨e, he, -, same⟩ := h.ordered.mem_of_key (key.symm.trans (congrArg _ hx))
    exact F64.isNaN_congr same ▸ h.nonNaN e he
  · have isSome := congrArg Option.isSome key
    rwa [Option.isSome_map, keys, Option.isSome_map] at isSome
  · exact h.nonNaN e (List.mem_of_mem_filter he)

theorem Rep.remove (h : d.Rep z l) (thr : ZSetThresholds) (member : Bytes) :
    ∃ d' l' r, d.remove thr member = some (d', r) ∧ SameScore r (z member) ∧
      r.isSome = (z member).isSome ∧ d'.Rep (Function.update z member none) l' := by
  obtain ⟨d', r, run, same, isSome, rep'⟩ := h.remove_others thr member
  exact ⟨d', _, r, run, same, isSome, rep'⟩

theorem foldl_insert_lookup (pairs : List (Bytes × F64)) (m : AList fun _ : Bytes => F64) :
    (fun x => (pairs.foldl (fun map e => map.insert e.1 e.2) m).lookup x) =
      ZMap.insertAll (fun x => m.lookup x) pairs := by
  induction pairs generalizing m with
  | nil => rfl
  | cons e pairs ih =>
    rw [List.foldl_cons, ih, AList.lookup_insert_update, ZMap.insertAll, ZMap.insertAll, List.foldl_cons]

theorem mem_foldl_insert {pairs : List (Bytes × F64)} {m : AList fun _ : Bytes => F64} {e : Bytes × F64}
    (he : e ∈ (pairs.foldl (fun map e => map.insert e.1 e.2) m).pairs) : e ∈ pairs ∨ e ∈ m.pairs := by
  induction pairs generalizing m with
  | nil => exact .inr he
  | cons x pairs ih =>
    rcases ih he with he | he
    · exact .inl (List.mem_cons_of_mem _ he)
    · rw [AList.pairs_insert, List.mem_cons] at he
      rcases he with rfl | he
      · exact .inl (by simp)
      · obtain ⟨s, hs, rfl⟩ := List.mem_map.1 he
        exact .inr (List.mem_map_of_mem ((List.kerase_sublist _ _).mem hs))

theorem fromPairs_rep (thr : ZSetThresholds) (ord : ScoreOrder) {pairs : List (Bytes × F64)}
    (nan : ∀ e ∈ pairs, e.2.isNaN = false) (short : ∀ e ∈ pairs, e.1.length < 2 ^ 32) :
    ∃ l, (fromPairs thr ord pairs).Rep (ZMap.insertAll (fun _ => none) pairs) l := by
  set map := pairs.foldl (fun map e => map.insert e.1 e.2) (∅ : AList fun _ : Bytes => F64) with hmap
  set items := ord.order map.pairs with hitems
  have perm : items.Perm map.pairs := ord.perm map.pairs
  have stored : ∀ e ∈ items, e ∈ pairs := fun e he =>
    (mem_foldl_insert (perm.mem_iff.1 he)).resolve_right (by simp [AList.pairs])
  have lists : ListsMap items (ZMap.insertAll (fun _ => none) pairs) := by
    have own := map.lists_pairs.perm perm
    rwa [foldl_insert_lookup pairs ∅] at own
  have nanSwap : ∀ e ∈ items.map fun e => ((e.2, e.1) : ZPair), e.1.isNaN = false := by
    intro e he
    obtain ⟨x, hx, rfl⟩ := List.mem_map.1 he
    exact nan x (stored x hx)
  have validSwap : ∀ e ∈ items.map fun e => ((e.2, e.1) : ZPair), zCodec.Valid e := by
    intro e he
    obtain ⟨x, hx, rfl⟩ := List.mem_map.1 he
    exact zCodec_valid.2 (short x (stored x hx))
  -- any order of the pairs lists the same map
  have ordered : ∀ {l : List ZPair}, l.Increasing zKey → l.Perm (items.map fun e => ((e.2, e.1) : ZPair)) →
      Ordered l (keys (ZMap.insertAll (fun _ => none) pairs)) := by
    intro l sorted p
    have keyed : ListsMap (items.map fun e => (e.1, e.2.key)) (keys (ZMap.insertAll (fun _ => none) pairs)) :=
      lists.map_values F64.key
    refine ⟨sorted, keyed.perm ?_⟩
    have mapped := p.map fun e : ZPair => (e.2, e.1.key)
    rwa [List.map_map] at mapped
  rw [fromPairs, ← hmap, ← hitems]
  split
  · set l := (items.map fun e => ((e.2, e.1) : ZPair)).mergeSort fun a b => zKey a ≤ zKey b with hl
    have p : l.Perm (items.map fun e => ((e.2, e.1) : ZPair)) := List.mergeSort_perm _ _
    have distinct : ((items.map fun e => ((e.2, e.1) : ZPair)).map zKey).Nodup := by
      refine List.Nodup.of_map (fun x : Int ×ₗ Bytes => (ofLex x).2) ?_
      rw [List.map_map, List.map_map]
      exact lists.nodup
    have packed := CompactZSet.foldl_appendPair_rep CompactZSet.new_rep
      fun e he => validSwap e (p.mem_iff.1 he)
    rw [List.nil_append] at packed
    exact ⟨l, packed, ordered (List.increasing_mergeSort distinct) p, fun e he => nanSwap e (p.mem_iff.1 he)⟩
  · obtain ⟨l, rep, p⟩ := SkiplistZSet.foldl_insert_rep items SkiplistZSet.new_rep lists.nodup
      (fun _ _ => rfl) (fun e he => zCodec_valid.2 (short e (stored e he)))
    rw [List.append_nil] at p
    exact ⟨l, rep, ordered rep.ordered.sorted p, fun e he => nanSwap e (p.mem_iff.1 he)⟩

/-! ## Reads -/

theorem toPairsSorted_of_holds (h : d.Holds l) : d.toPairsSorted = l.map fun e => (e.2, e.1) := by
  cases d with
  | compact c => exact CompactZSet.Rep.iterPairs_eq h
  | skiplist s => rw [toPairsSorted, SkiplistZSet.Rep.items h]

theorem Rep.toPairsSorted_eq (h : d.Rep z l) : d.toPairsSorted = l.map fun e => (e.2, e.1) :=
  toPairsSorted_of_holds h.holds

theorem Rep.nonNaN_of_key (h : d.Rep z l) {x : F64} {m : Bytes} (hk : keys z m = some x.key) :
    x.isNaN = false := by
  obtain ⟨e, he, -, same⟩ := h.ordered.mem_of_key hk
  exact F64.isNaN_congr same ▸ h.nonNaN e he

theorem score_of_ordered (h : d.Holds l) (ordered : Ordered l k) (m : Bytes) : (d.score m).map F64.key = k m := by
  cases d with
  | skiplist s => exact SkiplistZSet.Rep.lookup_key h ordered m
  | compact c =>
    have rep : c.Rep l := h
    rw [ZSetData.score, rep.score_eq]
    cases hk : k m with
    | none =>
      rw [List.find?_eq_none.2 fun e he => by simpa using ordered.absent hk e he]
      rfl
    | some x =>
      obtain ⟨a, y, s, rfl, rfl, miss⟩ := ordered.split hk
      rw [List.find?_append, List.find?_eq_none.2 fun e he => by simpa using miss e he]
      simp

theorem Rep.score_key (h : d.Rep z l) (m : Bytes) : (d.score m).map F64.key = keys z m :=
  score_of_ordered h.holds h.ordered m

theorem mem_of_ordered (ordered : Ordered l (keys z)) (m : Bytes) : m ∈ l.map Prod.snd ↔ (z m).isSome := by
  have isSome : (z m).isSome = (keys z m).isSome := by simp [keys]
  rw [isSome, Option.isSome_iff_exists]
  constructor
  · intro hm
    obtain ⟨e, he, rfl⟩ := List.mem_map.1 hm
    exact ⟨_, ordered.key_of_mem he⟩
  · rintro ⟨x, hx⟩
    obtain ⟨e, he, rfl, -⟩ := ordered.mem_of_key hx
    exact List.mem_map_of_mem he

theorem Rep.mem_iff (h : d.Rep z l) (m : Bytes) : m ∈ l.map Prod.snd ↔ (z m).isSome := mem_of_ordered h.ordered m

theorem len_of_holds (h : d.Holds l) : d.len = l.length := by
  cases d with
  | compact c => exact CompactZSet.Rep.len h
  | skiplist s =>
    have rep : s.Rep l := h
    have same := (s.members.lists_pairs.map_values F64.key).perm_of rep.lists
    have length := same.length_eq
    simp only [AList.pairs, memberKeys, List.length_map] at length
    exact length

theorem Rep.len_eq (h : d.Rep z l) : d.len = l.length := len_of_holds h.holds

/-- Whatever the order, the pairs are the members with the keys of their scores. -/
theorem iterPairsRef_lists (h : d.Holds l) (ordered : Ordered l k) (ord : ScoreOrder) :
    ListsMap ((d.iterPairsRef ord).map fun e => (e.1, e.2.key)) k := by
  cases d with
  | compact c =>
    rw [iterPairsRef, CompactZSet.Rep.iterPairs_eq h, List.map_map]
    exact ordered.lists
  | skiplist s =>
    have own := (s.members.lists_pairs.perm (ord.perm _)).map_values F64.key
    have same : (fun m => (s.members.lookup m).map F64.key) = k := funext (SkiplistZSet.Rep.lookup_key h ordered)
    rwa [same] at own

/-- The position of a member, and from the other end. -/
theorem idxOf?_reverse {L : List Bytes} (nodup : L.Nodup) {m : Bytes} {pos : Nat}
    (h : L.idxOf? m = some pos) : L.reverse.idxOf? m = some (L.length - pos - 1) := by
  obtain ⟨hpos, here, -⟩ := List.idxOf?_eq_some_iff.1 h
  have hr : L.length - pos - 1 < L.reverse.length := by rw [List.length_reverse]; omega
  have there : L.reverse[L.length - pos - 1] = m := by
    rw [List.getElem_reverse]
    simpa [show L.length - 1 - (L.length - pos - 1) = pos by omega] using here
  refine List.idxOf?_eq_some_iff.2 ⟨hr, by simpa using there, fun j hj same => ?_⟩
  have equal := (List.nodup_reverse.2 nodup).getElem_inj_iff.1 (same.trans there.symm)
  omega

/-- The scan of `rank` finds the member's own pair: its score is equal to the one looked up. -/
theorem Rep.position_eq (h : d.Rep z l) {m : Bytes} {s : F64} (hs : keys z m = some s.key) :
    d.position s m = (l.map Prod.snd).idxOf? m := by
  have nan := h.nonNaN_of_key hs
  have hit : ∀ e ∈ l, (e.1.eq s && e.2 == m) = (e.2 == m) := by
    intro e he
    by_cases hm : e.2 = m
    · have key : some e.1.key = some s.key := by rw [← hs, ← hm, h.ordered.key_of_mem he]
      have eq : e.1.eq s = true := (F64.eq_iff (h.nonNaN e he) nan).2 (Option.some.inj key)
      simp [eq]
    · simp [hm]
  have scan : (l.findIdx? fun e => e.1.eq s && e.2 == m) = (l.map Prod.snd).idxOf? m := by
    rw [List.idxOf?, List.findIdx?_map]
    clear h
    induction l with
    | nil => rfl
    | cons e l ih =>
      rw [List.findIdx?_cons, List.findIdx?_cons, hit e (by simp), ih fun x hx => hit x (by simp [hx])]
      rfl
  rw [← scan]
  cases d with
  | compact c =>
    have rep : c.Rep l := h.holds
    rw [position, rep.iterPairs_eq, List.findIdx?_map]
    rfl
  | skiplist t =>
    have rep : t.Rep l := h.holds
    rw [position, rep.items]

theorem Rep.rank_eq (h : d.Rep z l) (m : Bytes) (rev : Bool) :
    d.rank m rev = some (((if rev then l.reverse else l).map Prod.snd).idxOf? m) := by
  have key := h.score_key m
  rw [ZSetData.rank]
  cases hs : d.score m with
  | none =>
    have gone : ∀ e ∈ l, e.2 ≠ m := h.ordered.absent (by rw [← key, hs]; rfl)
    have missing : ∀ {L : List ZPair}, (∀ e ∈ L, e.2 ≠ m) → (L.map Prod.snd).idxOf? m = none := by
      intro L hL
      rw [List.idxOf?_eq_none_iff, List.mem_map]
      rintro ⟨e, he, same⟩
      exact hL e he same
    cases rev
    · simp [missing gone]
    · simp only [if_true]
      rw [missing fun e he => gone e (List.mem_reverse.1 he)]
  | some s =>
    have hk : keys z m = some s.key := by rw [← key, hs]; rfl
    obtain ⟨a, y, t, split, -⟩ := h.ordered.split hk
    obtain ⟨pos, hpos⟩ : ∃ pos, (l.map Prod.snd).idxOf? m = some pos := by
      rw [← Option.isSome_iff_exists, List.isSome_idxOf?, split]
      simp
    have bound : pos < l.length := by
      simpa using (List.idxOf?_eq_some_iff.1 hpos).1
    simp only [h.position_eq hk, hpos]
    cases rev
    · simp [hpos]
    · have back := idxOf?_reverse h.ordered.nodup hpos
      rw [List.length_map, ← List.map_reverse] at back
      simp only [if_true, back, h.len_eq]
      rw [checkedSub_of_le bound.le]
      simp only [Option.bind_eq_bind, Option.bind_some]
      rw [checkedSub_of_le (by omega)]
      rfl

theorem Rep.first_eq (h : d.Rep z l) : d.first = l.head? := by
  cases d with
  | compact c =>
    have rep : c.Rep l := h.holds
    rw [ZSetData.first, rep.iterPairs_eq]
    cases l <;> rfl
  | skiplist s =>
    have rep : s.Rep l := h.holds
    rw [ZSetData.first, rep.items]

theorem Rep.last_eq (h : d.Rep z l) : d.last = l.getLast? := by
  have fold : ∀ (L : List ZPair) (r : Option ZPair),
      (L.map fun e => (e.2, e.1)).foldl (fun _ e => some (e.2, e.1)) r = L.getLast?.or r := by
    intro L
    induction L with
    | nil => simp
    | cons e L ih =>
      intro r
      rw [List.map_cons, List.foldl_cons, ih]
      cases L <;> simp [List.getLast?_cons]
  cases d with
  | compact c =>
    have rep : c.Rep l := h.holds
    rw [ZSetData.last, rep.iterPairs_eq, fold, Option.or_none]
  | skiplist s =>
    have rep : s.Rep l := h.holds
    rw [ZSetData.last, rep.items]

theorem Rep.index (h : d.Rep z l) {s : SkiplistZSet} (hd : d = .skiplist s) (m : Bytes) (x : F64) :
    s.byScore.contains (x, m) = true ↔ ∃ y, s.members.lookup m = some y ∧ y.key = x.key := by
  subst hd
  have rep : s.Rep l := h.holds
  rw [OrdSet.mem_iff_contains, rep.items, ← Option.map_eq_some_iff, ← rep.lists.mem, memberKeys,
    List.mem_map]
  constructor
  · rintro ⟨e, he, key⟩
    obtain ⟨key, rfl⟩ := zKey_inj.1 key
    exact ⟨e, he, by rw [key]⟩
  · rintro ⟨e, he, same⟩
    exact ⟨e, he, zKey_inj.2 ⟨congrArg Prod.snd same, congrArg Prod.fst same⟩⟩

theorem Rep.agrees (h : d.Rep z l) : d.Agrees z := by
  have members : d.toPairsSorted.map Prod.fst = l.map Prod.snd := by
    rw [h.toPairsSorted_eq, List.map_map]
    rfl
  refine ⟨fun m => ?_, ?_, ?_, fun m => ?_, ?_, ?_, fun m rev => ?_, ?_, ?_, fun s hd => h.index hd, ?_⟩
  · refine sameScore_of_key (h.score_key m) fun x hx => h.nonNaN_of_key (m := m) ?_
    rw [← h.score_key m, hx]
    rfl
  · rw [h.toPairsSorted_eq, List.pairwise_map]
    exact h.ordered.sorted
  · rw [members]
    exact h.ordered.nodup
  · rw [members]
    exact h.mem_iff m
  · intro e he
    rw [h.toPairsSorted_eq] at he
    obtain ⟨x, hx, rfl⟩ := List.mem_map.1 he
    refine sameScore_of_key (h.ordered.key_of_mem hx).symm fun y hy => ?_
    cases hy
    exact h.nonNaN x hx
  · rw [h.len_eq, h.toPairsSorted_eq, List.length_map]
  · rw [h.rank_eq, h.toPairsSorted_eq]
    cases rev <;> simp [Function.comp_def]
  · rw [h.first_eq, h.toPairsSorted_eq]
    cases l <;> rfl
  · rw [h.last_eq, h.toPairsSorted_eq, List.getLast?_map]
    cases l.getLast? <;> rfl
  · rw [members]
    cases d with
    | compact c => exact CompactZSet.Rep.bytes h.holds
    | skiplist s => exact SkiplistZSet.Rep.bytes h.holds

/-! ## Runs -/

/-- The ends of an ordered list are the extremes of the map. -/
theorem Rep.extreme (h : d.Rep z l) {max : Bool} {e : ZPair}
    (he : (if max then l.getLast? else l.head?) = some e) :
    ∃ s, z.Extreme max s e.2 ∧ e.1.eq s = true := by
  have mem : e ∈ l := by
    cases max
    · exact List.mem_of_head? he
    · exact List.mem_of_getLast? he
  obtain ⟨s, hs, key⟩ := Option.map_eq_some_iff.1 (h.ordered.key_of_mem mem)
  have nan := h.nonNaN e mem
  refine ⟨s, ⟨hs, fun m' s' hs' other => ?_⟩, (F64.eq_iff nan (F64.isNaN_congr key ▸ nan)).2 key.symm⟩
  have same : zKey (s, e.2) = zKey e := zKey_inj.2 ⟨key, rfl⟩
  obtain ⟨e', mem', rfl, key'⟩ := h.ordered.mem_of_key (show keys z m' = some s'.key by simp [keys, hs'])
  have same' : zKey (s', e'.2) = zKey e' := zKey_inj.2 ⟨key'.symm, rfl⟩
  rw [same, same']
  cases max with
  | false =>
    obtain ⟨rest, rfl⟩ : ∃ rest, l = e :: rest := by
      cases l with
      | nil => simp at mem
      | cons x rest => exact ⟨rest, by simp at he; rw [he]⟩
    have below := (List.pairwise_cons.1 h.ordered.sorted).1
    rcases List.mem_cons.1 mem' with rfl | mem'
    · exact absurd rfl other
    · exact below e' mem'
  | true =>
    obtain ⟨init, rfl⟩ : ∃ init, l = init ++ [e] := List.getLast?_eq_some_iff.1 he
    have below := (List.pairwise_append.1 h.ordered.sorted).2.2
    rcases List.mem_append.1 mem' with mem' | mem'
    · exact below e' mem' e (by simp)
    · rw [List.mem_singleton.1 mem'] at other
      exact absurd rfl other

theorem Rep.popExtreme (h : d.Rep z l) (thr : ZSetThresholds) (max : Bool) :
    ∃ d' l' z' r, d.popExtreme thr max = some (d', r) ∧
      ZSetSpec (.popExtreme max) z (.popped r) z' ∧ d'.Rep z' l' := by
  have ends : (if max then d.last else d.first) = if max then l.getLast? else l.head? := by
    rw [h.last_eq, h.first_eq]
  rw [ZSetData.popExtreme, ends]
  cases he : (if max then l.getLast? else l.head?) with
  | none =>
    have empty : l = [] := by
      cases max
      · exact List.head?_eq_none_iff.1 he
      · exact List.getLast?_eq_none_iff.1 he
    refine ⟨d, l, z, none, rfl, .popEmpty fun m => ?_, h⟩
    have := h.mem_iff m
    rw [empty] at this
    simpa using this
  | some e =>
    obtain ⟨s, extreme, eq⟩ := h.extreme he
    obtain ⟨d', l', r, run, -, isSome, rep⟩ := h.remove thr e.2
    have there : r.isSome = true := by rw [isSome, extreme.1]; rfl
    refine ⟨d', l', _, some e, ?_, .pop extreme eq, rep⟩
    simp [run, there]

/-- **The step lemma**: a call on a value that stands for `z` returns an answer the abstract
sorted set allows, and leaves a value that stands for the abstract result. -/
theorem step_refines (call : ZSetCall) (nan : call.op.NonNaN) (short : call.op.Short)
    (h : ∃ l, d.Rep z l) :
    ∃ d' r z', d.step call = some (d', r) ∧ ZSetSpec call.op z r z' ∧ ∃ l', d'.Rep z' l' := by
  obtain ⟨l, h⟩ := h
  obtain ⟨thr, ord, op⟩ := call
  cases op with
  | insert member score =>
    obtain ⟨d', l', run, rep⟩ := h.insert thr nan short
    exact ⟨d', _, _, by simp only [step, run]; rfl, .insert member score z, l', rep⟩
  | remove member =>
    obtain ⟨d', l', r, run, same, -, rep⟩ := h.remove thr member
    exact ⟨d', _, _, by simp only [step, run]; rfl, .remove same, l', rep⟩
  | popExtreme max =>
    obtain ⟨d', l', z', r, run, spec, rep⟩ := h.popExtreme thr max
    exact ⟨d', _, z', by simp only [step, run]; rfl, spec, l', rep⟩
  | ensureSkiplist =>
    exact ⟨_, _, z, rfl, .ensureSkiplist z, l, toSkiplist_rep h.holds h.ordered, h.ordered, h.nonNaN⟩
  | maybeDemote => exact ⟨_, _, z, rfl, .maybeDemote z, l, h.maybeDemote thr⟩
  | fromPairs pairs => exact ⟨_, _, _, rfl, .fromPairs pairs z, fromPairs_rep thr ord nan short⟩

theorem new_rep : ZSetData.new.Rep (fun _ => none) [] :=
  ⟨CompactZSet.new_rep, ⟨.nil, .nil⟩, by simp⟩

end ZSetData

/-- **`ZSetData` refines a map ordered by (score, member).** Every run of calls from the empty value,
with scores that are not NaN, members shorter than `2 ^ 32` bytes and thresholds (and hash map
orders) that may differ from call to call, returns; its answers are those of the abstract sorted
set, and what is read back is that set in order, in either encoding. -/
theorem zsetData_refines_ordered_map (calls : List ZSetCall) (nan : ∀ call ∈ calls, call.op.NonNaN)
    (short : ∀ call ∈ calls, call.op.Short) :
    ∃ d answers z, Run.run ZSetData.step calls ZSetData.new = some (d, answers) ∧
      Run.Allows (fun call => ZSetSpec call.op) calls (fun _ => none) answers z ∧ d.Agrees z := by
  have one : ∀ (call : ZSetCall) (d : ZSetData) (z : ZMap), call.op.NonNaN ∧ call.op.Short →
      (∃ l, d.Rep z l) → ∃ d' r z', d.step call = some (d', r) ∧ ZSetSpec call.op z r z' ∧
        ∃ l', d'.Rep z' l' := fun call d z valid rep => ZSetData.step_refines call valid.1 valid.2 rep
  obtain ⟨d, answers, z, run, allowed, l, rep⟩ :=
    Run.run_allowed one (fun call hc => ⟨nan call hc, short call hc⟩) ⟨[], ZSetData.new_rep⟩
  exact ⟨d, answers, z, run, allowed, rep.agrees⟩

/-- A score update that moves a member over another one, a promotion and a pop. -/
theorem zsetData_refines_ordered_map_moved :
    ∃ d answers z, Run.run ZSetData.step
        [⟨.default, .asStored, .insert [1] ⟨0x3FF0000000000000⟩⟩,
          ⟨.default, .asStored, .insert [2] ⟨0x4000000000000000⟩⟩,
          ⟨.default, .asStored, .insert [1] ⟨0x4008000000000000⟩⟩,
          ⟨⟨2, 8192, 64, 128⟩, .asStored, .insert [3] ⟨0xBFF0000000000000⟩⟩,
          ⟨.default, .asStored, .popExtreme true⟩] ZSetData.new = some (d, answers) ∧ d.Agrees z := by
  obtain ⟨d, answers, z, run, -, agrees⟩ := zsetData_refines_ordered_map
    [⟨.default, .asStored, .insert [1] ⟨0x3FF0000000000000⟩⟩,
      ⟨.default, .asStored, .insert [2] ⟨0x4000000000000000⟩⟩,
      ⟨.default, .asStored, .insert [1] ⟨0x4008000000000000⟩⟩,
      ⟨⟨2, 8192, 64, 128⟩, .asStored, .insert [3] ⟨0xBFF0000000000000⟩⟩,
      ⟨.default, .asStored, .popExtreme true⟩]
    (by simp [ZSetOp.NonNaN, F64.isNaN, F64.mag])
    (by simp [ZSetOp.Short])
  exact ⟨d, answers, z, run, agrees⟩

/-! ## Members of `2 ^ 32` bytes -/

/-- A member whose length wraps to 0 in the `u32` prefix is read back as the empty one. -/
theorem iterPairs_wrapped {member : Bytes} (score : F64) (wraps : member.length % 2 ^ 32 = 0) :
    ∃ rest, (CompactZSet.new.appendPair score member).iterPairs = ([], score) :: rest := by
  have small : score.bits.toNat < 256 ^ 8 := score.bits.toNat_lt
  have buf : (CompactZSet.new.appendPair score member).buf =
      [] ++ (leBytes 8 score.bits.toNat ++ (leBytes 4 member.length ++ member)) := by
    simp [CompactZSet.appendPair, CompactZSet.new, CompactZSet.pairBytes]
  set b := (CompactZSet.new.appendPair score member).buf with hb
  have first : slice b 0 8 = some (leBytes 8 score.bits.toNat) := slice_eq buf rfl (by simp)
  have len : readU32 b 8 = some 0 := by
    have read : slice b 8 12 = some (leBytes 4 member.length) :=
      slice_eq (a := leBytes 8 score.bits.toNat) (c := member) (by simpa using buf) (by simp) (by simp)
    rw [readU32, read, Option.map_some, ofLe_leBytes, Option.some_inj]
    exact wraps
  have body : slice b 12 12 = some [] :=
    slice_eq (a := leBytes 8 score.bits.toNat ++ leBytes 4 member.length) (b := []) (c := member)
      (by simpa using buf) (by simp) (by simp)
  have dec : zCodec.dec b 0 = some ((score, []), 12) := by
    simp [zCodec, Codec.pair, F64.codec, frameCodec, readFrame, first, len, body,
      ofLe_leBytes_of_lt small]
  obtain ⟨n, fuel⟩ : ∃ n, b.length = n + 1 := ⟨b.length - 1, by rw [buf]; simp; omega⟩
  rw [CompactZSet.iterPairs, ← hb, fuel, Codec.readToEnd, dec]
  exact ⟨_, rfl⟩

/-- Without the bound on the members the refinement fails: a member of `2 ^ 32` bytes, kept
compact by a raised `max_value`, is listed as the empty member. -/
theorem zsetData_long_member_lost :
    ¬ ∀ calls : List ZSetCall, (∀ call ∈ calls, call.op.NonNaN) →
      ∃ d answers z, Run.run ZSetData.step calls ZSetData.new = some (d, answers) ∧
        Run.Allows (fun call => ZSetSpec call.op) calls (fun _ => none) answers z ∧ d.Agrees z := by
  intro claim
  obtain ⟨member, long⟩ : ∃ member : Bytes, member.length = 2 ^ 32 :=
    ⟨List.replicate (2 ^ 32) 0, List.length_replicate⟩
  let thr : ZSetThresholds := ⟨512, 2 ^ 33, 2 ^ 32, 128⟩
  let score : F64 := ⟨0x3FF0000000000000⟩
  obtain ⟨d, answers, z, run, allowed, agrees⟩ := claim [⟨thr, .asStored, .insert member score⟩]
    (by simp only [List.forall_mem_singleton, ZSetOp.NonNaN]; decide)
  have inserted : ZSetData.new.insert thr member score =
      some (.compact (CompactZSet.new.appendPair score member), true) := by
    simp [ZSetData.new, ZSetData.insert, thr, long, CompactZSet.new, CompactZSet.insert, CompactZSet.scan,
      checkedSub]
  simp only [Run.run, ZSetData.step, inserted, Option.bind_eq_bind, Option.bind_some, Option.pure_def,
    Option.some_inj, Prod.mk.injEq] at run
  obtain ⟨rfl, rfl⟩ := run
  cases allowed with
  | cons spec rest =>
    cases rest
    cases spec
    obtain ⟨rest, read⟩ := iterPairs_wrapped score (by rw [long, Nat.mod_self])
    have listed := agrees.members []
    rw [ZSetData.toPairsSorted, read] at listed
    have other : ([] : Bytes) ≠ member := by rintro rfl; simp at long
    simp [other] at listed

end NexradeCache
