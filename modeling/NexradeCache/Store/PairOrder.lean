import NexradeCache.Store.Mset

/-!
# When the order of the pairs does not matter

Insertions of different keys commute, and so do two insertions of one entry, but for the layout of the maps. So MSET
means one SET after the other, whatever order the sort leaves the pairs of a shard in, if no key is given two
entries; and if one is, some order keeps another entry than the last.
-/

namespace NexradeCache

/-- A set in order is determined by its elements. -/
theorem OrdSet.ext_mem {α κ : Type} [LinearOrder κ] {key : α → κ} {s t : OrdSet key}
    (h : ∀ x, x ∈ s.items ↔ x ∈ t.items) : s = t := by
  have perm : s.items.Perm t.items :=
    (List.perm_ext_iff_of_nodup s.sorted.nodup_keys.of_map t.sorted.nodup_keys.of_map).2 h
  have items := s.sorted.eq_of_perm t.sorted perm
  cases s
  cases t
  cases items
  rfl

namespace Database

open View

/-- The same shard, but for the layout of its maps and the memory estimate. -/
structure Alike (s s' : Database) : Prop where
  view : ∀ x, s.view x = s'.view x
  expiryIndex : s.expiryIndex = s'.expiryIndex
  removals : s.removalsSincePrune = s'.removalsSincePrune
  clock : s.lruClock = s'.lruClock

theorem alike_equivalence : Equivalence Alike where
  refl _ := ⟨fun _ => rfl, rfl, rfl, rfl⟩
  symm h := ⟨fun x => (h.view x).symm, h.expiryIndex.symm, h.removals.symm, h.clock.symm⟩
  trans h h' := ⟨fun x => (h.view x).trans (h'.view x), h.expiryIndex.trans h'.expiryIndex,
    h.removals.trans h'.removals, h.clock.trans h'.clock⟩

theorem view_insert (s : Database) (key : Bytes) (e : Entry) (x : Bytes) :
    (s.insert key e).view x = if x = key then inserted e (s.view key) else s.view x := by
  cases h : s.entries.lookup key with
  | none =>
    by_cases same : x = key
    · subst same
      simp [insert, h, view, inserted]
    · simp [insert, h, view, same]
  | some old =>
    by_cases same : x = key
    · subst same
      simp [insert, h, view, inserted, KeyMap.lookup_bumpVersion]
    · simp [insert, h, view, KeyMap.lookup_bumpVersion, same]

theorem expiryIndex_insert (s : Database) (key : Bytes) (e : Entry) :
    (s.insert key e).expiryIndex =
      (s.expiryIndex.removeFor ((s.view key).entry.bind Entry.expiry) key).insertFor e.expiry key := by
  cases h : s.entries.lookup key <;> simp [insert, h, view, ExpiryIndex.removeFor]

theorem counters_insert (s : Database) (key : Bytes) (e : Entry) :
    (s.insert key e).removalsSincePrune = s.removalsSincePrune ∧ (s.insert key e).lruClock = s.lruClock := by
  cases h : s.entries.lookup key <;> simp [insert, h]

theorem Alike.insert {s s' : Database} (h : Alike s s') (key : Bytes) (e : Entry) :
    Alike (s.insert key e) (s'.insert key e) where
  view x := by rw [view_insert, view_insert, h.view, h.view]
  expiryIndex := by rw [expiryIndex_insert, expiryIndex_insert, h.expiryIndex, h.view]
  removals := by rw [(counters_insert s key e).1, (counters_insert s' key e).1, h.removals]
  clock := by rw [(counters_insert s key e).2, (counters_insert s' key e).2, h.clock]

theorem insert_swap (s : Database) {key key' : Bytes} (ne : key ≠ key') (e e' : Entry) :
    Alike ((s.insert key e).insert key' e') ((s.insert key' e').insert key e) where
  view x := by
    rw [view_insert, view_insert, view_insert, view_insert, view_insert, view_insert, if_neg ne, if_neg ne.symm]
    by_cases here : x = key
    · simp [here, ne]
    · simp [here]
  expiryIndex := by
    refine OrdSet.ext_mem fun d => ?_
    have other : ((s.insert key e).view key').entry = (s.view key').entry := by rw [view_insert, if_neg ne.symm]
    have other' : ((s.insert key' e').view key).entry = (s.view key).entry := by rw [view_insert, if_neg ne]
    rw [expiryIndex_insert, expiryIndex_insert, expiryIndex_insert, expiryIndex_insert, other, other']
    simp only [ExpiryIndex.mem_insertFor, ExpiryIndex.mem_removeFor]
    grind
  removals := by simp only [counters_insert]
  clock := by simp only [counters_insert]

/-! ## The memory estimate -/

/-- What the entries account for. -/
def sizes (s : Database) : Nat := (s.entries.pairs.map fun kv => estimateEntrySize kv.1 kv.2).sum

/-- The estimate covers the entries, so that no subtraction saturates. -/
def Covered (s : Database) : Prop := s.sizes ≤ s.liveBytes

theorem Covered.insert {s : Database} (covered : s.Covered) (key : Bytes) (e : Entry) :
    (s.insert key e).Covered ∧ (s.insert key e).liveBytes - (s.insert key e).sizes = s.liveBytes - s.sizes := by
  have after : (s.entries.insert key e).pairs = (key, e) :: (s.entries.erase key).pairs := AList.pairs_insert _ _ _
  cases h : s.entries.lookup key with
  | none =>
    have before : (s.entries.erase key).pairs = s.entries.pairs := AList.pairs_erase_of_absent h
    simp only [Covered, sizes, Database.insert, h, after, before, List.map_cons, List.sum_cons] at covered ⊢
    omega
  | some old =>
    have before := ((AList.pairs_perm_erase h).map fun kv => estimateEntrySize kv.1 kv.2).sum_eq
    simp only [Covered, sizes, Database.insert, h, after, List.map_cons, List.sum_cons, resize] at covered before ⊢
    split <;> omega

theorem Alike.sizes {s s' : Database} (h : Alike s s') : s.sizes = s'.sizes := by
  have entries : (fun k => s'.entries.lookup k) = fun k => s.entries.lookup k :=
    funext fun x => (congrArg View.entry (h.view x)).symm
  have listed := s'.entries.lists_pairs
  rw [entries] at listed
  exact ((s.entries.lists_pairs.perm_of listed).map _).sum_eq

/-- What an estimate has beyond the entries stays as it is. -/
structure SameSlack (s s' : Database) : Prop where
  covered : s.Covered → s'.Covered
  slack : s.Covered → s'.liveBytes - s'.sizes = s.liveBytes - s.sizes

theorem SameSlack.refl (s : Database) : SameSlack s s := ⟨id, fun _ => rfl⟩

theorem SameSlack.trans {s s' s'' : Database} (h : SameSlack s s') (h' : SameSlack s' s'') : SameSlack s s'' where
  covered c := h'.covered (h.covered c)
  slack c := (h'.slack (h.covered c)).trans (h.slack c)

theorem sameSlack_insert (s : Database) (key : Bytes) (e : Entry) : SameSlack s (s.insert key e) where
  covered c := (c.insert key e).1
  slack c := (c.insert key e).2

/-- The estimates of two shards that are alike and come from one. -/
theorem Alike.liveBytes {s₀ s s' : Database} (h : Alike s s') (covered : s₀.Covered) (slack : SameSlack s₀ s)
    (slack' : SameSlack s₀ s') : s.liveBytes = s'.liveBytes := by
  have same := h.sizes
  have c := slack.covered covered
  have c' := slack'.covered covered
  have eq := (slack.slack covered).trans (slack'.slack covered).symm
  unfold Covered at c c'
  omega

end Database

namespace ShardedDatabase

open List

/-- The same store, but for the layout of its maps and the memory estimates. -/
def Alike (db db' : ShardedDatabase) : Prop := Forall₂ Database.Alike db.shards db'.shards

theorem alike_equivalence : Equivalence Alike where
  refl _ := forall₂_same.2 fun s _ => Database.alike_equivalence.refl s
  symm h := (h.imp fun _ _ => Database.alike_equivalence.symm).flip
  trans h h' := forall₂_trans h h' fun _ _ _ => Database.alike_equivalence.trans

variable {db db' : ShardedDatabase}

theorem Alike.shardIdx (h : Alike db db') (key : Bytes) : db'.shardIdx key = db.shardIdx key := by
  rw [ShardedDatabase.shardIdx, ShardedDatabase.shardIdx, h.length_eq]

theorem Alike.shardFor (h : Alike db db') (key : Bytes) : Database.Alike (db.shardFor key) (db'.shardFor key) := by
  have idx := h.shardIdx key
  have alike := Forall₂.get h (db.shardIdx_lt key) (idx ▸ db'.shardIdx_lt key)
  simp only [ShardedDatabase.shardFor, idx]
  exact alike

/-- One insertion of `insertAll`. -/
def insertPair (db : ShardedDatabase) (p : Bytes × Entry) : ShardedDatabase :=
  (db.writeFor p.1 fun s => (s.insert p.1 p.2, ())).1

theorem respects_insertPair (p : Bytes × Entry) : Respects Alike fun db => (db.insertPair p, ()) := by
  refine ⟨fun {db db'} h => ⟨rfl, ?_⟩⟩
  simp only [Alike, insertPair, writeFor, h.shardIdx p.1]
  exact forall₂_set h _ ((h.shardFor p.1).insert p.1 p.2)

/-- Insertions commute, unless they give a key two entries. -/
theorem insertPair_swap (db : ShardedDatabase) {p q : Bytes × Entry} (agree : p.1 = q.1 → p.2 = q.2) :
    Alike ((db.insertPair p).insertPair q) ((db.insertPair q).insertPair p) := by
  by_cases same : p.1 = q.1
  · rw [Prod.ext same (agree same)]
    exact alike_equivalence.refl _
  · have shards (p q : Bytes × Entry) : ((db.insertPair p).insertPair q).shards =
        (db.shards.set (db.shardIdx p.1) ((db.shardFor p.1).insert p.1 p.2)).set (db.shardIdx q.1)
          (((db.insertPair p).shardFor q.1).insert q.1 q.2) := by
      simp only [insertPair, writeFor, ShardedDatabase.shardIdx, List.length_set]
    rw [Alike, shards, shards]
    simp only [insertPair, shardFor_writeFor]
    by_cases shard : db.shardIdx p.1 = db.shardIdx q.1
    · have owner : db.shardFor q.1 = db.shardFor p.1 := by simp only [ShardedDatabase.shardFor, shard]
      simp only [shard, if_true, owner, List.set_set]
      exact forall₂_set (alike_equivalence.refl db) _ ((db.shardFor p.1).insert_swap same p.2 q.2)
    · rw [if_neg shard, if_neg (Ne.symm shard), List.set_comm _ _ shard]
      exact forall₂_same.2 fun s _ => Database.alike_equivalence.refl s

/-- **Pairs in another order** leave a store that is alike, if no key is given two entries. -/
theorem insertAll_perm {pairs pairs' : List (Bytes × Entry)} (perm : pairs.Perm pairs')
    (agree : ∀ p ∈ pairs, ∀ q ∈ pairs, p.1 = q.1 → p.2 = q.2) (db : ShardedDatabase) :
    Alike (db.insertAll pairs) (db.insertAll pairs') :=
  Respects.foldl_perm alike_equivalence respects_insertPair perm
    (fun p hp q hq db => insertPair_swap db (agree p hp q hq)) db

/-- Every estimate covers the entries of its shard. -/
def Covered (db : ShardedDatabase) : Prop := ∀ s ∈ db.shards, s.Covered

theorem sameSlack_insertAll (db : ShardedDatabase) (pairs : List (Bytes × Entry)) :
    Forall₂ Database.SameSlack db.shards (db.insertAll pairs).shards := by
  induction pairs generalizing db with
  | nil => exact forall₂_same.2 fun s _ => .refl s
  | cons p pairs ih =>
    have first : Forall₂ Database.SameSlack db.shards (db.insertPair p).shards := by
      refine forall₂_set_right Database.SameSlack.refl fun s here => ?_
      rw [show db.shards[db.shardIdx p.1]? = some (db.shardFor p.1) from List.getElem?_eq_getElem (db.shardIdx_lt _)] at here
      cases here
      exact Database.sameSlack_insert _ _ _
    exact forall₂_trans first (ih (db.insertPair p)) fun _ _ _ => Database.SameSlack.trans

theorem Alike.liveBytes {db₀ : ShardedDatabase} (h : Alike db db') (covered : db₀.Covered)
    (slack : Forall₂ Database.SameSlack db₀.shards db.shards)
    (slack' : Forall₂ Database.SameSlack db₀.shards db'.shards) :
    db.shards.map Database.liveBytes = db'.shards.map Database.liveBytes := by
  refine List.ext_getElem (by simp [h.length_eq]) fun i inside inside' => ?_
  rw [List.length_map] at inside inside'
  have before : i < db₀.shards.length := slack.length_eq ▸ inside
  rw [List.getElem_map, List.getElem_map]
  exact (Forall₂.get h inside inside').liveBytes (covered _ (List.getElem_mem before)) (Forall₂.get slack before inside)
    (Forall₂.get slack' before inside')

/-- The last of the entries that a key is given. -/
theorem lookup_insertAll (pairs : List (Bytes × Entry)) (db : ShardedDatabase) (key : Bytes) :
    ((db.insertAll pairs).view key).entry =
      ((pairs.filter fun p => p.1 = key).getLast?.map Prod.snd).or (db.view key).entry := by
  induction pairs using List.reverseRecOn with
  | nil => rfl
  | append_singleton pairs p ih =>
    have step : db.insertAll (pairs ++ [p]) = (db.insertAll pairs).insertPair p := by
      simp only [insertAll, List.foldl_append, List.foldl_cons, List.foldl_nil, insertPair]
    have moved := view_writeFor (Database.moves_insert p.1 p.2) (db.insertAll pairs)
    rw [step, List.filter_append]
    by_cases same : p.1 = key
    · subst same
      rw [show ((db.insertAll pairs).insertPair p).view p.1 = _ from rfl, insertPair, moved.1.entry]
      simp [View.inserted]
      split <;> rfl
    · rw [insertPair, (moved.2 (Ne.symm same)).entry, ih]
      simp [same]

/-! ## MSET -/

namespace Batch

/-- The order of the shards. -/
def byShard (a b : TaggedPair) : Prop := a.1 ≤ b.1

instance : DecidableRel byShard := fun a b => inferInstanceAs (Decidable (a.1 ≤ b.1))

instance : Std.Total byShard := ⟨fun a b => le_total a.1 b.1⟩

instance : IsTrans TaggedPair byShard := ⟨fun _ _ _ h h' => le_trans h h'⟩

/-- A sort that keeps the order in which it meets the pairs of a shard. -/
def keeping (meets : List TaggedPair → List TaggedPair) (perm : ∀ l, (meets l).Perm l) : ShardSort where
  sort l := (meets l).insertionSort byShard
  perm l := (List.perm_insertionSort byShard _).trans (perm l)
  sorted l := List.pairwise_insertionSort byShard (meets l)

theorem filter_insertionSort (l : List TaggedPair) {p : TaggedPair → Bool}
    (one : ∀ a ∈ l, ∀ b ∈ l, p a = true → p b = true → a.1 ≤ b.1) : (l.insertionSort byShard).filter p = l.filter p := by
  have ordered : (l.filter p).Pairwise byShard := by
    refine List.pairwise_of_forall_mem_list fun a ha b hb => ?_
    rw [List.mem_filter] at ha hb
    exact one a ha.1 b hb.1 ha.2 hb.2
  have sub := (List.sublist_insertionSort ordered List.filter_sublist).filter p
  rw [List.filter_filter, List.filter_congr fun a _ => Bool.and_self (p a)] at sub
  exact (sub.eq_of_length ((List.perm_insertionSort byShard l).filter p).length_eq.symm).symm

theorem exists_keeping {l l' : List TaggedPair} (perm : l'.Perm l) :
    ∃ sort : ShardSort, sort.sort l = l'.insertionSort byShard := by
  classical
  refine ⟨keeping (fun m => if m = l then l' else m) fun m => ?_, congrArg (List.insertionSort byShard) (if_pos rfl)⟩
  split
  · rename_i same
    exact same ▸ perm
  · exact .refl m

/-- Some sort leaves the store with this pair. -/
theorem exists_sort_keeping (db : ShardedDatabase) {pairs : List (Bytes × Entry)} {p : Bytes × Entry} (mem : p ∈ pairs) :
    ∃ sort : ShardSort, ((db.insertAll (sortedPairs sort db pairs)).view p.1).entry = some p.2 := by
  obtain ⟨a, b, rfl⟩ := List.append_of_mem mem
  let tag (q : Bytes × Entry) : TaggedPair := (db.shardIdx q.1, q)
  have perm : ((a ++ b ++ [p]).map tag).Perm ((a ++ p :: b).map tag) := by
    refine List.Perm.map tag ?_
    rw [List.append_assoc]
    exact (List.perm_append_singleton p b).append_left a
  obtain ⟨sort, sorted⟩ := exists_keeping perm
  refine ⟨sort, ?_⟩
  -- the pairs of its key are all of one shard, and it is the last of them
  have kept : (sortedPairs sort db (a ++ p :: b)).filter (fun q => q.1 = p.1) =
      (a ++ b ++ [p]).filter fun q => q.1 = p.1 := by
    have stable := filter_insertionSort ((a ++ b ++ [p]).map tag) (p := fun t => t.2.1 = p.1) fun c hc d hd keyc keyd => by
      obtain ⟨q, -, rfl⟩ := List.mem_map.1 hc
      obtain ⟨r, -, rfl⟩ := List.mem_map.1 hd
      rw [decide_eq_true_eq] at keyc keyd
      simp only [tag] at keyc keyd ⊢
      rw [keyc, keyd]
    rw [sortedPairs, tagAndSortPairs, sorted, List.filter_map]
    refine (congrArg (List.map Prod.snd) stable).trans ?_
    rw [List.filter_map, List.map_map]
    exact List.map_id _
  rw [lookup_insertAll, kept]
  simp

/-- **MSET means successive SETs exactly if no key is given two entries.** Whatever the sort does within a shard,
MSET leaves the store that the insertions in argument order leave, with the same memory estimates if they covered
the entries; MSETNX changes nothing if a key is live, and otherwise does what MSET does. The pairs are sorted by
shard with an unstable sort, so of two pairs with one key either can come last. -/
theorem mset_successive_iff (db : ShardedDatabase) (pairs : List (Bytes × Entry)) (now : Nat) :
    (∀ sort : ShardSort,
      (∃ db', mset sort db pairs = some db' ∧ db'.Alike (db.insertAll pairs) ∧
        (db.Covered → db'.shards.map Database.liveBytes = (db.insertAll pairs).shards.map Database.liveBytes)) ∧
      msetnx sort now db pairs =
        if pairs.any fun p => ((db.shardFor p.1).getRo now p.1).isSome then some (db, false)
        else (mset sort db pairs).map fun db' => (db', true)) ↔
    ∀ p ∈ pairs, ∀ q ∈ pairs, p.1 = q.1 → p.2 = q.2 := by
  constructor
  · intro h
    have last {p : Bytes × Entry} (mem : p ∈ pairs) : ((db.insertAll pairs).view p.1).entry = some p.2 := by
      obtain ⟨sort, kept⟩ := exists_sort_keeping db mem
      obtain ⟨⟨db', done, alike, -⟩, -⟩ := h sort
      rw [mset_eq] at done
      cases done
      exact (congrArg View.entry ((alike.shardFor p.1).view p.1)).symm.trans kept
    intro p hp q hq same
    have entries := last hp
    rw [same, last hq] at entries
    exact (Option.some.inj entries).symm
  · intro agree sort
    refine ⟨⟨_, mset_eq sort db pairs, ?_, ?_⟩, msetnx_eq sort db pairs now⟩
    · exact alike_equivalence.symm (insertAll_perm (sortedPairs_perm sort db pairs).symm agree db)
    · intro covered
      have alike := insertAll_perm (sortedPairs_perm sort db pairs).symm agree db
      exact (alike.liveBytes covered (sameSlack_insertAll db _) (sameSlack_insertAll db _)).symm

/-- A sort that turns the pairs of a shard round. -/
def turning : ShardSort := keeping List.reverse List.reverse_perm

/-- The value of a string key. -/
def textOf (db : ShardedDatabase) (key : Bytes) : Option Bytes :=
  match (db.view key).entry with
  | some ⟨.string v, _, _⟩ => some v
  | _ => none

/-- `MSET k a k b` leaves `a`. -/
theorem mset_keeps_first :
    let pairs : List (Bytes × Entry) := [([107], .new (.string [97])), ([107], .new (.string [98]))]
    let db := ShardedDatabase.new 4 (by decide)
    (mset turning db pairs).map (textOf · [107]) = some (some [97]) ∧ textOf (db.insertAll pairs) [107] = some [98] := by
  decide +kernel

end Batch

end ShardedDatabase

end NexradeCache
