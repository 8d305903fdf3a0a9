import NexradeCache.Store.Deadlines

/-!
# MSET under many locks (`mset` and `msetnx` of `ShardedDatabase` in `nexrade-core/src/store.rs`)

The pairs are tagged with their shards, sorted by the tag with a sort that need not be stable, and committed by one
walk over the guards of their shards. The commit is the insertion of the pairs one by one in the sorted order. In
the order of the arguments the store is the same, whatever the sort does, exactly if no key is given two entries.
-/

namespace NexradeCache

/-- A pair behind the index of its shard. -/
abbrev TaggedPair := Nat × Bytes × Entry

/-- All that `sort_unstable_by_key` promises of the tagged pairs. -/
structure ShardSort where
  sort : List TaggedPair → List TaggedPair
  perm : ∀ l, (sort l).Perm l
  sorted : ∀ l, (sort l).Pairwise fun a b => a.1 ≤ b.1

namespace ShardedDatabase

namespace Batch

/-- The shards of the sorted pairs, each once. -/
def shardIndices (tagged : List TaggedPair) : List Nat :=
  tagged.foldl (fun si p => if si.getLast? = some p.1 then si else si ++ [p.1]) []

def tagAndSortPairs (sort : ShardSort) (db : ShardedDatabase) (pairs : List (Bytes × Entry)) :
    List TaggedPair × List Nat :=
  let tagged := sort.sort (pairs.map fun p => (db.shardIdx p.1, p))
  (tagged, shardIndices tagged)

/-- `while si[gi] != shard { gi += 1 }`, which panics behind the end. -/
def seek (si : List Nat) (gi shard : Nat) : Option Nat :=
  ((si.drop gi).findIdx? fun i => i = shard).map fun n => gi + n

def lockShards (db : ShardedDatabase) (si : List Nat) : Option (List Database) := si.mapM fun i => db.shards[i]?

/-- What the guards hold is what the shards are when they are dropped. -/
def release (db : ShardedDatabase) (si : List Nat) (guards : List Database) : ShardedDatabase :=
  (si.zip guards).foldl (fun db held => db.shardWrite held.1 fun _ => held.2) db

def commitTaggedMset (si : List Nat) : Nat → List Database → List TaggedPair → Option (List Database)
  | _, guards, [] => some guards
  | gi, guards, (shard, key, entry) :: tagged => do
    let gi ← seek si gi shard
    let g ← guards[gi]?
    commitTaggedMset si gi (guards.set gi (g.insert key entry)) tagged

def mset (sort : ShardSort) (db : ShardedDatabase) (pairs : List (Bytes × Entry)) : Option ShardedDatabase :=
  if pairs.isEmpty then some db
  else
    match tagAndSortPairs sort db pairs with
    | (tagged, [i]) => some (db.shardWrite i fun g => tagged.foldl (fun g p => g.insert p.2.1 p.2.2) g)
    | (tagged, si) => do
      let guards ← lockShards db si
      return release db si (← commitTaggedMset si 0 guards tagged)

/-- The first walk of MSETNX: whether it meets a key that is live. -/
def findsLive (now : Nat) (si : List Nat) (guards : List Database) : Nat → List TaggedPair → Option Bool
  | _, [] => some false
  | gi, (shard, key, _) :: tagged => do
    let gi ← seek si gi shard
    let g ← guards[gi]?
    if (g.getRo now key).isSome then return true
    findsLive now si guards gi tagged

def commitTaggedMsetnx (now : Nat) (si : List Nat) (guards : List Database) (tagged : List TaggedPair) :
    Option (List Database × Bool) := do
  if ← findsLive now si guards 0 tagged then return (guards, false)
  return (← commitTaggedMset si 0 guards tagged, true)

def msetnx (sort : ShardSort) (now : Nat) (db : ShardedDatabase) (pairs : List (Bytes × Entry)) :
    Option (ShardedDatabase × Bool) :=
  if pairs.isEmpty then some (db, true)
  else
    match tagAndSortPairs sort db pairs with
    | (tagged, [i]) =>
      if tagged.any fun p => (db.shards[i]?.bind fun g => g.getRo now p.2.1).isSome then some (db, false)
      else some (db.shardWrite i fun g => tagged.foldl (fun g p => g.insert p.2.1 p.2.2) g, true)
    | (tagged, si) => do
      let guards ← lockShards db si
      let (guards, done) ← commitTaggedMsetnx now si guards tagged
      return (release db si guards, done)

/-! ## The shards of the pairs -/

variable {tagged : List TaggedPair} {si : List Nat}

theorem shardIndices_append (tagged : List TaggedPair) (p : TaggedPair) :
    shardIndices (tagged ++ [p]) =
      if (shardIndices tagged).getLast? = some p.1 then shardIndices tagged else shardIndices tagged ++ [p.1] := by
  rw [shardIndices, List.foldl_append]
  rfl

theorem mem_shardIndices {i : Nat} : i ∈ shardIndices tagged ↔ ∃ p ∈ tagged, p.1 = i := by
  induction tagged using List.reverseRecOn with
  | nil => simp [shardIndices]
  | append_singleton tagged p ih =>
    rw [shardIndices_append]
    split
    · rename_i last
      have there := ih.1
      have here : p.1 ∈ shardIndices tagged := List.mem_of_getLast? last
      simp only [List.mem_append, List.mem_singleton]
      grind
    · simp only [List.mem_append, List.mem_singleton]
      grind

/-- They are in the order of the pairs, so each is there once. -/
theorem shardIndices_increasing (sorted : tagged.Pairwise fun a b => a.1 ≤ b.1) :
    (shardIndices tagged).Pairwise (· < ·) := by
  induction tagged using List.reverseRecOn with
  | nil => exact .nil
  | append_singleton tagged p ih =>
    obtain ⟨before, -, last⟩ := List.pairwise_append.1 sorted
    have increasing := ih before
    have le : ∀ i ∈ shardIndices tagged, i ≤ p.1 := by
      intro i mem
      obtain ⟨q, hq, rfl⟩ := mem_shardIndices.1 mem
      exact last q hq p (by simp)
    rw [shardIndices_append]
    split
    · exact increasing
    · rename_i new
      refine List.pairwise_append.2 ⟨increasing, List.pairwise_singleton _ _, fun i mem j hj => ?_⟩
      obtain rfl := List.mem_singleton.1 hj
      refine lt_of_le_of_ne (le i mem) ?_
      rintro rfl
      -- the greatest of them would be the last
      refine new ?_
      obtain ⟨init, final, split⟩ := List.eq_nil_or_concat (shardIndices tagged) |>.resolve_left (List.ne_nil_of_mem mem)
      rw [List.concat_eq_append] at split
      rw [split] at mem increasing le ⊢
      have final_le : final ≤ p.1 := le final (by simp)
      have le_final : p.1 ≤ final := by
        rcases List.mem_append.1 mem with mem | mem
        · exact ((List.pairwise_append.1 increasing).2.2 _ mem final (by simp)).le
        · exact (List.mem_singleton.1 mem).le
      simp [le_antisymm final_le le_final]

/-! ## The walk over the guards -/

theorem seek_eq (increasing : si.Pairwise (· < ·)) {gi j shard : Nat} (there : si[j]? = some shard) (le : gi ≤ j) :
    seek si gi shard = some j := by
  obtain ⟨inside, here⟩ := List.getElem?_eq_some_iff.1 there
  have found : (si.drop gi).findIdx? (fun i => i = shard) = some (j - gi) := by
    rw [List.findIdx?_eq_some_iff_getElem]
    refine ⟨by simp; omega, by simp [Nat.add_sub_cancel' le, here], fun i before => ?_⟩
    have less : si[gi + i] < si[j] := List.pairwise_iff_getElem.1 increasing _ _ (by omega) inside (by omega)
    simp only [List.getElem_drop, decide_eq_true_eq]
    omega
  rw [seek, found, Option.map_some, Nat.add_sub_cancel' le]

/-- The guards hold the shards of the store, as it is by now. -/
structure Held (db : ShardedDatabase) (si : List Nat) (guards : List Database) : Prop where
  length : guards.length = si.length
  shard : ∀ {j i : Nat}, si[j]? = some i → guards[j]? = db.shards[i]?

variable {db : ShardedDatabase} {guards : List Database}

theorem held_lockShards (inside : ∀ i ∈ si, i < db.shards.length) :
    ∃ guards, lockShards db si = some guards ∧ Held db si guards := by
  induction si with
  | nil => exact ⟨[], rfl, rfl, nofun⟩
  | cons i si ih =>
    rw [List.forall_mem_cons] at inside
    obtain ⟨guards, locked, held⟩ := ih inside.2
    have here : db.shards[i]? = some db.shards[i] := List.getElem?_eq_getElem inside.1
    refine ⟨db.shards[i] :: guards, ?_, by simp [held.length], fun {j k} at_ => ?_⟩
    · rw [lockShards] at locked ⊢
      rw [List.mapM_cons, here, locked]
      rfl
    · cases j with
      | zero =>
        cases at_
        exact here.symm
      | succ j => exact held.shard at_

/-- The pairs are those of the store, and the walk has their shards in front of it. -/
structure Ahead (db : ShardedDatabase) (si : List Nat) (gi : Nat) (tagged : List TaggedPair) : Prop where
  sorted : tagged.Pairwise fun a b => a.1 ≤ b.1
  tag : ∀ p ∈ tagged, p.1 = db.shardIdx p.2.1
  ahead : ∀ p ∈ tagged, ∃ j, gi ≤ j ∧ si[j]? = some p.1

/-- The walk comes to the shard of the next pair, and the others are ahead of it. -/
theorem Ahead.next (increasing : si.Pairwise (· < ·)) {gi : Nat} {p : TaggedPair} (h : Ahead db si gi (p :: tagged)) :
    ∃ j, seek si gi p.1 = some j ∧ si[j]? = some (db.shardIdx p.2.1) ∧ Ahead db si j tagged := by
  obtain ⟨first, sorted⟩ := List.pairwise_cons.1 h.sorted
  obtain ⟨tag, tags⟩ := List.forall_mem_cons.1 h.tag
  obtain ⟨⟨j, le, there⟩, ahead⟩ := List.forall_mem_cons.1 h.ahead
  refine ⟨j, seek_eq increasing there le, tag ▸ there, sorted, tags, fun q hq => ?_⟩
  obtain ⟨k, -, there'⟩ := ahead q hq
  refine ⟨k, ?_, there'⟩
  by_contra before
  obtain ⟨insideJ, hereJ⟩ := List.getElem?_eq_some_iff.1 there
  obtain ⟨insideK, hereK⟩ := List.getElem?_eq_some_iff.1 there'
  have less : si[k] < si[j] := List.pairwise_iff_getElem.1 increasing _ _ insideK insideJ (by omega)
  have le := first q hq
  omega

theorem Held.insert (held : Held db si guards) (increasing : si.Pairwise (· < ·)) {j : Nat} {key : Bytes}
    (there : si[j]? = some (db.shardIdx key)) (entry : Entry) :
    guards[j]? = some (db.shardFor key) ∧
      Held (db.writeFor key fun s => (s.insert key entry, ())).1 si (guards.set j ((db.shardFor key).insert key entry)) := by
  have owner : db.shards[db.shardIdx key]? = some (db.shardFor key) := List.getElem?_eq_getElem (db.shardIdx_lt key)
  have here : guards[j]? = some (db.shardFor key) := (held.shard there).trans owner
  refine ⟨here, by simp [held.length], fun {k i} at_ => ?_⟩
  simp only [writeFor]
  by_cases same : k = j
  · subst same
    rw [there] at at_
    cases at_
    rw [List.getElem?_set_self (List.getElem?_eq_some_iff.1 here).1, List.getElem?_set_self (db.shardIdx_lt key)]
  · have apart : db.shardIdx key ≠ i := by
      rintro rfl
      have nodup : si.Nodup := increasing.imp fun h => h.ne
      obtain ⟨insideJ, hereJ⟩ := List.getElem?_eq_some_iff.1 there
      obtain ⟨insideK, hereK⟩ := List.getElem?_eq_some_iff.1 at_
      exact same ((nodup.getElem_inj_iff).1 (hereK.trans hereJ.symm))
    rw [List.getElem?_set_ne (Ne.symm same), List.getElem?_set_ne apart]
    exact held.shard at_

/-- The commit leaves in the guards what insertions in the sorted order leave in the store. -/
theorem commitTaggedMset_eq (increasing : si.Pairwise (· < ·)) {gi : Nat} (held : Held db si guards)
    (h : Ahead db si gi tagged) :
    ∃ guards', commitTaggedMset si gi guards tagged = some guards' ∧
      Held (db.insertAll (tagged.map Prod.snd)) si guards' := by
  induction tagged generalizing db gi guards with
  | nil => exact ⟨guards, rfl, held⟩
  | cons p tagged ih =>
    obtain ⟨shard, key, entry⟩ := p
    obtain ⟨j, sought, there, rest⟩ := h.next increasing
    obtain ⟨here, held'⟩ := held.insert increasing there entry
    have rest' : Ahead (db.writeFor key fun s => (s.insert key entry, ())).1 si j tagged :=
      ⟨rest.sorted, fun q hq => (rest.tag q hq).trans (shardIdx_writeFor _ _ _ _).symm, rest.ahead⟩
    obtain ⟨guards', done, after⟩ := ih held' rest'
    refine ⟨guards', ?_, after⟩
    rw [commitTaggedMset, show seek si gi shard = some j from sought]
    simp only [Option.bind_eq_bind, Option.bind_some, here]
    exact done

theorem findsLive_eq (increasing : si.Pairwise (· < ·)) {gi : Nat} (held : Held db si guards)
    (h : Ahead db si gi tagged) (now : Nat) :
    findsLive now si guards gi tagged = some (tagged.any fun p => ((db.shardFor p.2.1).getRo now p.2.1).isSome) := by
  induction tagged generalizing gi with
  | nil => rfl
  | cons p tagged ih =>
    obtain ⟨shard, key, entry⟩ := p
    obtain ⟨j, sought, there, rest⟩ := h.next increasing
    have here : guards[j]? = some (db.shardFor key) :=
      (held.shard there).trans (List.getElem?_eq_getElem (db.shardIdx_lt key))
    rw [findsLive, show seek si gi shard = some j from sought]
    simp only [Option.bind_eq_bind, Option.bind_some, here, List.any_cons, ih rest]
    split
    · rename_i live
      simp [live]
    · rename_i gone
      simp [Bool.eq_false_iff.2 gone]

/-! ## The guards are dropped -/

theorem shards_shardWrite (db : ShardedDatabase) (i : Nat) (f : Database → Database) :
    (db.shardWrite i f).shards = db.shards.modify i f := rfl

/-- A shard under a guard is what the guard holds, another one is as it was. -/
theorem release_getElem? (nodup : si.Nodup) (length : guards.length = si.length)
    (inside : ∀ i ∈ si, i < db.shards.length) (i : Nat) :
    (∀ j : Nat, si[j]? = some i → (release db si guards).shards[i]? = guards[j]?) ∧
      (i ∉ si → (release db si guards).shards[i]? = db.shards[i]?) := by
  induction si generalizing db guards with
  | nil => exact ⟨nofun, fun _ => rfl⟩
  | cons k si ih =>
    obtain ⟨g, guards, rfl⟩ := List.exists_cons_of_length_eq_add_one length
    obtain ⟨new, nodup⟩ := List.nodup_cons.1 nodup
    rw [List.forall_mem_cons] at inside
    have rest := @ih (db.shardWrite k fun _ => g) guards nodup (by simpa using length)
      (by simpa [shards_shardWrite] using inside.2)
    have eq : release db (k :: si) (g :: guards) = release (db.shardWrite k fun _ => g) si guards := rfl
    rw [eq]
    constructor
    · intro j there
      cases j with
      | zero =>
        cases there
        rw [rest.2 new, shards_shardWrite, List.getElem?_modify_eq, List.getElem?_eq_getElem inside.1]
        rfl
      | succ j => exact rest.1 j there
    · intro out
      rw [rest.2 fun mem => out (List.mem_cons_of_mem k mem), shards_shardWrite,
        List.getElem?_modify_ne _ _ fun h : k = i => out (h ▸ List.mem_cons_self)]

theorem release_eq {db' : ShardedDatabase} (held : Held db' si guards) (nodup : si.Nodup)
    (inside : ∀ i ∈ si, i < db.shards.length) (others : ∀ i, i ∉ si → db'.shards[i]? = db.shards[i]?) :
    release db si guards = db' := by
  have shards : (release db si guards).shards = db'.shards := by
    refine List.ext_getElem? fun i => ?_
    obtain ⟨under, free⟩ := release_getElem? nodup held.length inside i
    by_cases mem : i ∈ si
    · obtain ⟨j, there⟩ := List.getElem?_of_mem mem
      rw [under j there, held.shard there]
    · rw [free mem, others i mem]
  cases h : release db si guards
  cases db'
  simpa [h] using shards

/-! ## The pairs in the sorted order -/

theorem shards_insertAll_of_ne {pairs : List (Bytes × Entry)} {i : Nat} (out : ∀ p ∈ pairs, db.shardIdx p.1 ≠ i) :
    (db.insertAll pairs).shards[i]? = db.shards[i]? := by
  induction pairs generalizing db with
  | nil => rfl
  | cons p pairs ih =>
    rw [List.forall_mem_cons] at out
    have rest := @ih (db.writeFor p.1 fun s => (s.insert p.1 p.2, ())).1 fun q hq => by
      rw [shardIdx_writeFor]
      exact out.2 q hq
    refine rest.trans ?_
    simp only [writeFor]
    exact List.getElem?_set_ne out.1

/-- The fast path: all pairs are of one shard. -/
theorem shardWrite_insertAll {i : Nat} (one : ∀ p ∈ tagged, db.shardIdx p.2.1 = i) :
    db.shardWrite i (fun g => tagged.foldl (fun g p => g.insert p.2.1 p.2.2) g) = db.insertAll (tagged.map Prod.snd) := by
  induction tagged generalizing db with
  | nil =>
    obtain ⟨shards, nonempty⟩ := db
    simp only [shardWrite, insertAll, List.map_nil, List.foldl_nil, mk.injEq]
    exact List.modify_id i shards
  | cons p tagged ih =>
    rw [List.forall_mem_cons] at one
    have rest := @ih (db.writeFor p.2.1 fun s => (s.insert p.2.1 p.2.2, ())).1 fun q hq => by
      rw [shardIdx_writeFor]
      exact one.2 q hq
    refine Eq.trans ?_ rest
    have owner : db.shards[i]? = some (db.shardFor p.2.1) := by
      rw [← one.1]
      exact List.getElem?_eq_getElem (db.shardIdx_lt p.2.1)
    simp only [shardWrite, writeFor, one.1, mk.injEq]
    refine List.ext_getElem? fun k => ?_
    by_cases same : k = i
    · subst same
      rw [List.getElem?_modify_eq, List.getElem?_modify_eq, owner,
        List.getElem?_set_self (List.getElem?_eq_some_iff.1 owner).1]
      rfl
    · rw [List.getElem?_modify_ne _ _ (Ne.symm same), List.getElem?_modify_ne _ _ (Ne.symm same),
        List.getElem?_set_ne (Ne.symm same)]

variable (sort : ShardSort) (db : ShardedDatabase) (pairs : List (Bytes × Entry))

/-- The pairs, sorted by their shards. -/
def sortedPairs : List (Bytes × Entry) := (tagAndSortPairs sort db pairs).1.map Prod.snd

theorem sortedPairs_perm : (sortedPairs sort db pairs).Perm pairs := by
  have sorted := (sort.perm (pairs.map fun p => (db.shardIdx p.1, p))).map Prod.snd
  rwa [List.map_map, show Prod.snd ∘ (fun p : Bytes × Entry => (db.shardIdx p.1, p)) = id from rfl, List.map_id] at sorted

variable {sort db pairs}

/-- What `tag_and_sort_pairs` gives the commit. -/
theorem tagAndSortPairs_spec (eq : tagAndSortPairs sort db pairs = (tagged, si)) :
    sortedPairs sort db pairs = tagged.map Prod.snd ∧ si.Pairwise (· < ·) ∧ (∀ i ∈ si, i < db.shards.length) ∧
      (∀ i, i ∉ si → ∀ p ∈ pairs, db.shardIdx p.1 ≠ i) ∧ Ahead db si 0 tagged := by
  have listed : sortedPairs sort db pairs = tagged.map Prod.snd := by rw [sortedPairs, eq]
  obtain ⟨rfl, rfl⟩ := Prod.mk.inj eq
  have tag : ∀ p ∈ sort.sort (pairs.map fun p => (db.shardIdx p.1, p)), p.1 = db.shardIdx p.2.1 := by
    intro p mem
    obtain ⟨q, -, rfl⟩ := List.mem_map.1 ((sort.perm _).mem_iff.1 mem)
    rfl
  have sorted := sort.sorted (pairs.map fun p => (db.shardIdx p.1, p))
  refine ⟨listed, shardIndices_increasing sorted, fun i mem => ?_, fun i out p mem same => ?_, sorted, tag, fun p mem => ?_⟩
  · obtain ⟨p, hp, rfl⟩ := mem_shardIndices.1 mem
    rw [tag p hp]
    exact db.shardIdx_lt _
  · refine out (mem_shardIndices.2 ⟨(db.shardIdx p.1, p), (sort.perm _).mem_iff.2 ?_, same⟩)
    exact List.mem_map_of_mem mem
  · obtain ⟨j, there⟩ := List.getElem?_of_mem (mem_shardIndices.2 ⟨p, mem, rfl⟩)
    exact ⟨j, Nat.zero_le j, there⟩

/-- With one shard, it is the shard of every pair. -/
theorem Ahead.one {i : Nat} (h : Ahead db [i] 0 tagged) {p : TaggedPair} (mem : p ∈ tagged) : db.shardIdx p.2.1 = i := by
  obtain ⟨j, -, there⟩ := h.ahead p mem
  rw [← h.tag p mem]
  simpa using List.mem_of_getElem? there

variable (sort db pairs)

/-- **MSET inserts the pairs in the sorted order**; no guard is missed. -/
theorem mset_eq : mset sort db pairs = some (db.insertAll (sortedPairs sort db pairs)) := by
  unfold mset
  split
  · rename_i empty
    rw [List.isEmpty_iff.1 empty, show sortedPairs sort db [] = [] from (sortedPairs_perm sort db []).eq_nil]
    rfl
  · split
    · rename_i tagged i eq
      obtain ⟨listed, -, -, -, ahead⟩ := tagAndSortPairs_spec eq
      rw [listed]
      exact congrArg some (shardWrite_insertAll fun p mem => ahead.one mem)
    · rename_i tagged si _ eq
      obtain ⟨listed, increasing, inside, others, ahead⟩ := tagAndSortPairs_spec eq
      have untouched (i : Nat) (out : i ∉ si) : (db.insertAll (tagged.map Prod.snd)).shards[i]? = db.shards[i]? := by
        rw [← listed]
        exact shards_insertAll_of_ne fun p mem => others i out p ((sortedPairs_perm sort db pairs).mem_iff.1 mem)
      obtain ⟨guards, locked, held⟩ := held_lockShards inside
      obtain ⟨guards', done, held'⟩ := commitTaggedMset_eq increasing held ahead
      simp only [listed, locked, done, Option.bind_eq_bind, Option.bind_some]
      exact congrArg some (release_eq held' (increasing.imp fun h => h.ne) inside untouched)

/-- **MSETNX** changes nothing if a key is live, and otherwise does what MSET does. -/
theorem msetnx_eq (now : Nat) :
    msetnx sort now db pairs =
      if pairs.any fun p => ((db.shardFor p.1).getRo now p.1).isSome then some (db, false)
      else (mset sort db pairs).map fun db' => (db', true) := by
  have live {tagged : List TaggedPair} (listed : sortedPairs sort db pairs = tagged.map Prod.snd) :
      (tagged.any fun p => ((db.shardFor p.2.1).getRo now p.2.1).isSome) =
        pairs.any fun p => ((db.shardFor p.1).getRo now p.1).isSome := by
    rw [← (sortedPairs_perm sort db pairs).any_eq, listed, List.any_map]
    rfl
  unfold msetnx mset
  split
  · rename_i empty
    rw [List.isEmpty_iff.1 empty]
    rfl
  · split
    · rename_i tagged i eq
      obtain ⟨listed, -, -, -, ahead⟩ := tagAndSortPairs_spec eq
      have read : (tagged.any fun p => (db.shards[i]?.bind fun g => g.getRo now p.2.1).isSome) =
          tagged.any fun p => ((db.shardFor p.2.1).getRo now p.2.1).isSome := by
        have owner {p : TaggedPair} (mem : p ∈ tagged) : db.shards[i]? = some (db.shardFor p.2.1) := by
          rw [← ahead.one mem]
          exact List.getElem?_eq_getElem (db.shardIdx_lt _)
        rw [Bool.eq_iff_iff, List.any_eq_true, List.any_eq_true]
        refine exists_congr fun p => and_congr_right fun mem => ?_
        rw [owner mem, Option.bind_some]
      rw [read, live listed]
      split <;> rfl
    · rename_i tagged si _ eq
      obtain ⟨listed, increasing, inside, -, ahead⟩ := tagAndSortPairs_spec eq
      obtain ⟨guards, locked, held⟩ := held_lockShards inside
      have found := findsLive_eq increasing held ahead now
      obtain ⟨guards', done, -⟩ := commitTaggedMset_eq increasing held ahead
      rw [live listed] at found
      simp only [locked, commitTaggedMsetnx, found, done, Option.bind_eq_bind, Option.bind_some]
      split
      · have back : release db si guards = db :=
          release_eq held (increasing.imp fun h => h.ne) inside fun _ _ => rfl
        simp [back]
      · rfl

end Batch

end ShardedDatabase

end NexradeCache
