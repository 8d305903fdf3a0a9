import NexradeCache.Store.Atomic

/-!
# Stores without some of their expired entries

`Drops now s s'` says that `s'` is `s` without some entries that have expired at `now`, and without what the
index has of them. Such stores are twins; the rest is on what is not blind to the difference: what a key's
slot holds, live or not, and the order in which a shard has its keys.
-/

namespace NexradeCache

open List

namespace Database

/-- The shard without the entries of the keys in `gone`. -/
def without (s : Database) (gone : Bytes → Bool) : Database :=
  { s with
    entries := s.entries.filterKeys fun key => !gone key
    expiryIndex := ⟨s.expiryIndex.items.filter fun e => !gone e.2, s.expiryIndex.sorted.sublist filter_sublist⟩ }

/-- Some keys are gone, all of them expired. -/
def Drops (now : Nat) (s s' : Database) : Prop :=
  ∃ gone : Bytes → Bool,
    (∀ key e, s.entries.lookup key = some e → gone key = true → e.isExpired now = true) ∧ s' = s.without gone

variable {now : Nat} {s s' : Database}

@[simp] theorem without_nothing (s : Database) : (s.without fun _ => false) = s := by
  obtain ⟨entries, versions, removals, index, live, lru⟩ := s
  simp [without, KeyMap.filterKeys]

/-- A key is as it was, or it had expired and is gone. -/
theorem Drops.lookup (h : Drops now s s') (key : Bytes) :
    s'.entries.lookup key = s.entries.lookup key ∨
      (∃ e, s.entries.lookup key = some e ∧ e.isExpired now = true) ∧ s'.entries.lookup key = none := by
  obtain ⟨gone, expired, rfl⟩ := h
  rw [without, KeyMap.lookup_filterKeys]
  cases out : gone key with
  | false => exact .inl rfl
  | true =>
    cases found : s.entries.lookup key with
    | none => exact .inl rfl
    | some e => exact .inr ⟨⟨e, rfl, expired key e found out⟩, rfl⟩

theorem Drops.twin (h : Drops now s s') : Twin now s s' := by
  refine ⟨?_, fun key => ?_⟩
  · obtain ⟨gone, expired, rfl⟩ := h
    rfl
  · rw [getRo_eq, getRo_eq, view, view]
    rcases h.lookup key with same | ⟨⟨e, found, expired⟩, none'⟩
    · rw [same]
    · rw [found, none', seen_of_expired expired]
      rfl

/-- The live entries, in the order of the shard. -/
def liveEntries (now : Nat) (s : Database) : List (Sigma fun _ : Bytes => Entry) :=
  s.entries.entries.filter fun e => !e.2.isExpired now

theorem Drops.liveEntries_eq (h : Drops now s s') : s'.liveEntries now = s.liveEntries now := by
  obtain ⟨gone, expired, rfl⟩ := h
  show (s.entries.entries.filter _).filter _ = _
  rw [liveEntries, filter_filter]
  refine filter_congr fun e there => ?_
  cases out : gone e.1 with
  | false => simp [out]
  | true => simp [expired e.1 e.2 (AList.mem_lookup_iff.2 there) out]

/-! ## KEYS -/

/-- Keys are distinct, so removing one is a filter. -/
theorem kerase_eq_filter {l : List (Sigma fun _ : Bytes => Entry)} (nodup : l.NodupKeys) (key : Bytes) :
    l.kerase key = l.filter fun e => e.1 ≠ key := by
  induction l with
  | nil => rfl
  | cons e l ih =>
    obtain ⟨new, rest⟩ := nodupKeys_cons.1 nodup
    by_cases same : key = e.1
    · have others : l.filter (fun e' => e'.1 ≠ key) = l := filter_eq_self.2 fun e' there =>
        decide_eq_true fun eq => new (same ▸ eq ▸ mem_keys_of_mem there)
      rw [kerase_cons_eq same, filter_cons_of_neg (by simp [same]), others]
    · rw [kerase_cons_ne same, ih rest, filter_cons_of_pos (by simpa using Ne.symm same)]

theorem entries_remove (s : Database) (key : Bytes) :
    (s.remove key).1.entries = s.entries.filterKeys fun k => k ≠ key := by
  have erased : s.entries.erase key = s.entries.filterKeys fun k => k ≠ key :=
    AList.ext (kerase_eq_filter s.entries.nodupKeys key)
  unfold remove
  split
  · rw [entries_maybePruneVersions, erased]
  · rename_i absent
    rw [entries_maybePruneVersions, ← erased]
    exact (AList.ext (kerase_of_notMem_keys (AList.lookup_eq_none.1 absent))).symm

theorem entries_removeAll (keys : List Bytes) (s : Database) :
    (keys.foldl (fun s k => (s.remove k).1) s).entries = s.entries.filterKeys fun k => k ∉ keys := by
  induction keys generalizing s with
  | nil => exact AList.ext (by simp [KeyMap.filterKeys])
  | cons key keys ih =>
    rw [foldl_cons, ih, entries_remove]
    refine AList.ext ?_
    simp [KeyMap.filterKeys, filter_filter, Bool.and_comm]

/-- The expired keys are those of expired entries. -/
theorem mem_expiredKeys_of_mem {e : Sigma fun _ : Bytes => Entry} (there : e ∈ s.entries.entries) :
    e.1 ∈ s.expiredKeys now ↔ e.2.isExpired now = true := by
  have found : s.entries.lookup e.1 = some e.2 := AList.mem_lookup_iff.2 there
  simp only [mem_expiredKeys, found, Option.some.injEq, exists_eq_left']

/-- KEYS drops what has expired before it looks. -/
theorem keysMatching_entries (now : Nat) (s : Database) (pattern : Bytes) :
    (s.keysMatching now pattern).1.entries = s.entries.filterKeys fun k => k ∉ s.expiredKeys now :=
  entries_removeAll (s.expiredKeys now) s

theorem entries_keysMatching (now : Nat) (s : Database) (pattern : Bytes) :
    (s.keysMatching now pattern).1.entries.entries = s.liveEntries now := by
  rw [keysMatching_entries, KeyMap.filterKeys, liveEntries]
  refine filter_congr fun e there => ?_
  simp only [mem_expiredKeys_of_mem there]
  cases e.2.isExpired now <;> rfl

theorem keysMatching_answer (now : Nat) (s : Database) (pattern : Bytes) :
    (s.keysMatching now pattern).2 = ((s.liveEntries now).map Sigma.fst).filter (globMatch pattern) := by
  rw [← entries_keysMatching now s pattern]
  rfl

theorem twin_keysMatching (now : Nat) (s : Database) (pattern : Bytes) :
    Twin now s (s.keysMatching now pattern).1 := by
  have clock (keys : List Bytes) (s : Database) :
      (keys.foldl (fun s k => (s.remove k).1) s).lruClock = s.lruClock := by
    induction keys generalizing s with
    | nil => rfl
    | cons key keys ih => rw [foldl_cons, ih, lruClock_remove]
  refine ⟨(clock _ s).symm, fun key => ?_⟩
  have after : (s.keysMatching now pattern).1.entries.lookup key =
      if key ∈ s.expiredKeys now then none else s.entries.lookup key := by
    rw [keysMatching_entries, KeyMap.lookup_filterKeys]
    simp
  rw [getRo_eq, getRo_eq, view, view, after]
  split
  · rename_i expired
    cases found : s.entries.lookup key with
    | none => rfl
    | some e => exact seen_of_expired ((mem_expiredKeys_of_mem (AList.mem_lookup_iff.1 found)).1 expired)
  · rfl

end Database

namespace ShardedDatabase

variable {now : Nat} {db db' : ShardedDatabase}

/-- What the slot of a key holds, live or not. -/
def stored (db : ShardedDatabase) (key : Bytes) : Option Entry := (db.shardFor key).entries.lookup key

/-- A filter on every shard. -/
def without (db : ShardedDatabase) (gone : Bytes → Bool) : ShardedDatabase :=
  ⟨db.shards.map (·.without gone), by simp [db.nonempty]⟩

/-- Some keys of some shards are gone, all of them expired. -/
def Drops (now : Nat) (db db' : ShardedDatabase) : Prop :=
  ∃ gone : Bytes → Bool,
    (∀ s ∈ db.shards, ∀ key e, s.entries.lookup key = some e → gone key = true → e.isExpired now = true) ∧
      db' = db.without gone

theorem Drops.refl (now : Nat) (db : ShardedDatabase) : Drops now db db := by
  refine ⟨fun _ => false, by simp, ?_⟩
  have all : db.shards.map (fun s => s.without fun _ => false) = db.shards := by simp
  rcases db with ⟨shards, nonempty⟩
  simp only [without, all]

theorem Drops.shards (h : Drops now db db') : Forall₂ (Database.Drops now) db.shards db'.shards := by
  obtain ⟨gone, expired, rfl⟩ := h
  rw [without, forall₂_map_right_iff, forall₂_same]
  exact fun s there => ⟨gone, expired s there, rfl⟩

theorem Drops.twin (h : Drops now db db') : Twin now db db' := h.shards.imp fun _ _ => Database.Drops.twin

theorem Drops.shardFor (h : Drops now db db') (key : Bytes) : Database.Drops now (db.shardFor key) (db'.shardFor key) := by
  have idx := h.twin.shardIdx key
  have dropped := Forall₂.get h.shards (db.shardIdx_lt key) (idx ▸ db'.shardIdx_lt key)
  simp only [ShardedDatabase.shardFor, idx]
  exact dropped

/-- A key is as it was, or it had expired and is gone. -/
theorem Drops.stored (h : Drops now db db') (key : Bytes) :
    db'.stored key = db.stored key ∨
      (∃ e, db.stored key = some e ∧ e.isExpired now = true) ∧ db'.stored key = none :=
  (h.shardFor key).lookup key

/-- A look without removing depends on what is stored and on the clock. -/
theorem getRo_stored (now : Nat) (db : ShardedDatabase) (key : Bytes) :
    (db.shardFor key).getRo now key = seen now (db.stored key) :=
  Database.getRo_eq now _ key

/-- The entry of the key is not one of those that were removed. -/
def Kept (db db' : ShardedDatabase) (key : Bytes) : Prop := db'.stored key = db.stored key

theorem keysMatching_alike (h : Drops now db db') (pattern : Bytes) :
    (db.keysMatching now pattern).2 = (db'.keysMatching now pattern).2 ∧
      Twin now (db.keysMatching now pattern).1 (db'.keysMatching now pattern).1 := by
  constructor
  · show (db.shards.map _).flatMap _ = (db'.shards.map _).flatMap _
    rw [flatMap_map, flatMap_map]
    have answers : Forall₂ (fun s s' : Database => (s.keysMatching now pattern).2 = (s'.keysMatching now pattern).2)
        db.shards db'.shards := h.shards.imp fun s s' dropped => by
      rw [Database.keysMatching_answer, Database.keysMatching_answer, dropped.liveEntries_eq]
    clear h
    generalize db.shards = shards at answers
    generalize db'.shards = shards' at answers
    induction answers with
    | nil => rfl
    | cons same _ ih => rw [flatMap_cons, flatMap_cons, same, ih]
  · show Forall₂ _ ((db.shards.map _).map _) ((db'.shards.map _).map _)
    simp only [map_map, forall₂_map_left_iff, forall₂_map_right_iff]
    exact h.shards.imp fun s s' dropped => ((Database.twin_keysMatching now s pattern).symm.trans dropped.twin).trans
      (Database.twin_keysMatching now s' pattern)

/-! ## RANDOMKEY -/

/-- The keys of all entries, live or not, in the order of the shards and of each shard. -/
def storedKeys (db : ShardedDatabase) : List Bytes := db.shards.flatMap fun s => s.entries.keys

/-- RANDOMKEY takes the first stored key, expired or not. -/
theorem randomKey_eq (db : ShardedDatabase) : db.randomKey = db.storedKeys.head? := by
  rw [storedKeys, head?_flatMap]
  rfl

theorem storedKeys_without (db : ShardedDatabase) (gone : Bytes → Bool) :
    (db.without gone).storedKeys = db.storedKeys.filter fun key => !gone key := by
  have shard (s : Database) : (s.without gone).entries.keys = s.entries.keys.filter fun key => !gone key := by
    simp [Database.without, AList.keys, List.keys, KeyMap.filterKeys, filter_map, Function.comp_def]
  rw [storedKeys, storedKeys, filter_flatMap, without, flatMap_map]
  simp only [shard]

/-- RANDOMKEY is the same if and only if the first key that is stored is still there. -/
theorem randomKey_alike (h : Drops now db db') :
    db.randomKey = db'.randomKey ↔ ∀ key ∈ db.storedKeys.head?, key ∈ db'.storedKeys := by
  obtain ⟨gone, expired, rfl⟩ := h
  rw [randomKey_eq, randomKey_eq, storedKeys_without]
  cases db.storedKeys with
  | nil => simp
  | cons key keys =>
    cases out : gone key with
    | false => simp [out]
    | true =>
      rw [filter_cons_of_neg (by simp [out])]
      constructor
      · intro same
        have there := (mem_filter.1 (mem_of_mem_head? same.symm)).2
        simp [out] at there
      · intro there
        have := (mem_filter.1 (there key rfl)).2
        simp [out] at this

/-! ## SCAN -/

/-- The batch of one shard reads live entries. -/
theorem scanBatch_twin {s s' : Database} (h : Database.Twin now s s') (pattern : Bytes) (orderKey : Bytes → Nat)
    (keep : Bytes → Entry → Bool) (within : Option Nat) :
    scanBatch now pattern orderKey keep within s = scanBatch now pattern orderKey keep within s' := by
  have sought (s : Database) (key : Bytes) :
      (∃ e, s.entries.lookup key = some e ∧ Sought now pattern keep key e) ↔
        ∃ e, s.getRo now key = some e ∧ globMatch pattern key = true ∧ keep key e = true := by
    cases found : s.entries.lookup key with
    | none => simp [Database.getRo, found]
    | some e => cases expired : e.isExpired now <;> simp [Database.getRo, found, Sought, expired]
  refine (increasing_scanBatch _).eq_of_perm (increasing_scanBatch _) ?_
  refine (perm_ext_iff_of_nodup ((increasing_scanBatch _).nodup_keys.of_map _)
    ((increasing_scanBatch _).nodup_keys.of_map _)).2 fun r => ?_
  rw [mem_scanBatch, mem_scanBatch, sought, sought, h.getRo]

theorem Twin.scanPage (h : Twin now db db') (cursor count : Nat) (pattern : Bytes) (orderKey : Bytes → Nat)
    (keep : Bytes → Entry → Bool) :
    db.scanPage now cursor count pattern orderKey keep = db'.scanPage now cursor count pattern orderKey keep := by
  have shard (i : Nat) : Database.Twin now (db.shards[i]?.getD .new) (db'.shards[i]?.getD .new) :=
    forall₂_getD h i (Database.Twin.refl _)
  have batches (within : Option Nat) (i : Nat) :
      scanBatch now pattern orderKey keep within (db.shards[i]?.getD .new) =
        scanBatch now pattern orderKey keep within (db'.shards[i]?.getD .new) :=
    scanBatch_twin (shard i) pattern orderKey keep within
  simp only [ShardedDatabase.scanPage, batches, Forall₂.length_eq h]

end ShardedDatabase

end NexradeCache
