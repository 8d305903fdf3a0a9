import NexradeCache.Store.Sharded

/-!
# The index of deadlines agrees with the entries

`expiry_index` holds (deadline, key) for exactly the keys that have a deadline, with the deadline
of their entry. Every operation of `Database` keeps it so (`Indexed`), which is what lets active
expiry and the `volatile-ttl` eviction trust the index alone.
-/

namespace NexradeCache

/-- The index lists the deadlines `deadline` gives. -/
def ExpiryIndex.Tracks (index : ExpiryIndex) (deadline : Bytes → Option Nat) : Prop :=
  ∀ ms x, (ms, x) ∈ index.items ↔ deadline x = some ms

namespace ExpiryIndex

variable {index : ExpiryIndex} {deadline : Bytes → Option Nat}

/-- Only the pair of the old deadline goes. -/
theorem mem_removeFor {old : Option Nat} {key : Bytes} {e : Nat × Bytes} :
    e ∈ (index.removeFor old key).items ↔ e ∈ index.items ∧ ∀ ms, old = some ms → e ≠ (ms, key) := by
  cases old with
  | none => simp [removeFor]
  | some ms => simp [removeFor, OrdSet.mem_remove]

/-- Only the pair of the new deadline comes. -/
theorem mem_insertFor {new : Option Nat} {key : Bytes} {e : Nat × Bytes} :
    e ∈ (index.insertFor new key).items ↔ (∃ ms, new = some ms ∧ e = (ms, key)) ∨ e ∈ index.items := by
  cases new with
  | none => simp [insertFor]
  | some ms => simp [insertFor, OrdSet.mem_insert toLex.injective]

/-- Take the old deadline of a key out and put its new one in. -/
theorem Tracks.update (tracks : index.Tracks deadline) (key : Bytes) (new : Option Nat) :
    ((index.removeFor (deadline key) key).insertFor new key).Tracks (Function.update deadline key new) := by
  intro ms x
  rw [mem_insertFor, mem_removeFor, tracks ms x]
  by_cases here : x = key
  · subst here
    rw [Function.update_self]
    constructor
    · rintro (⟨ms', h, e⟩ | ⟨h, out⟩)
      · cases e; exact h
      · exact (out ms h rfl).elim
    · exact fun h => .inl ⟨ms, h, rfl⟩
  · rw [Function.update_of_ne here]
    constructor
    · rintro (⟨ms', -, e⟩ | ⟨h, -⟩)
      · cases e; exact (here rfl).elim
      · exact h
    · exact fun h => .inr ⟨h, fun ms' _ e => here (by cases e; rfl)⟩

end ExpiryIndex

namespace Database

/-- The deadline of a key's entry. -/
def deadline (entries : KeyMap Entry) (x : Bytes) : Option Nat := (entries.lookup x).bind Entry.expiry

/-- The index has the deadlines of the entries, and no others. -/
def Indexed (db : Database) : Prop := db.expiryIndex.Tracks (deadline db.entries)

theorem indexed_new : new.Indexed := by
  intro ms x
  simp [new, OrdSet.empty, deadline]

/-- A stored entry decides the deadline of its key. -/
theorem deadline_insert (entries : KeyMap Entry) (key : Bytes) (e : Entry) :
    deadline (entries.insert key e) = Function.update (deadline entries) key e.expiry := by
  funext x
  by_cases h : x = key
  · subst h; simp [deadline]
  · simp [deadline, h]

theorem deadline_erase (entries : KeyMap Entry) (key : Bytes) :
    deadline (entries.erase key) = Function.update (deadline entries) key none := by
  funext x
  by_cases h : x = key
  · subst h; simp [deadline]
  · simp [deadline, h]

variable {db : Database} {key : Bytes}

/-- An entry replaced by one with the same deadline. -/
theorem Indexed.same_deadline (indexed : db.Indexed) {e e' : Entry} (h : db.entries.lookup key = some e)
    (same : e'.expiry = e.expiry) :
    db.expiryIndex.Tracks (deadline (db.entries.insert key e')) := by
  have known : deadline db.entries key = e.expiry := by simp [deadline, h]
  rw [deadline_insert, same, ← known, Function.update_eq_self]
  exact indexed

/-- The step under every overwrite: the old pair goes before the new one comes. -/
theorem Indexed.replace (indexed : db.Indexed) {e : Entry} (e' : Entry) (h : db.entries.lookup key = some e) :
    ((db.expiryIndex.removeFor e.expiry key).insertFor e'.expiry key).Tracks
      (deadline (db.entries.insert key e')) := by
  have moved := indexed.update key e'.expiry
  rwa [← deadline_insert, show deadline db.entries key = e.expiry by simp [deadline, h]] at moved

/-- A key that was missing has no pair to remove. -/
theorem Indexed.create (indexed : db.Indexed) (e' : Entry) (h : db.entries.lookup key = none) :
    (db.expiryIndex.insertFor e'.expiry key).Tracks (deadline (db.entries.insert key e')) := by
  have moved := indexed.update key e'.expiry
  rwa [← deadline_insert, show deadline db.entries key = none by simp [deadline, h]] at moved

/-- A removal takes the pair of the deadline that was stored. -/
theorem Indexed.erase (indexed : db.Indexed) {e : Entry} (h : db.entries.lookup key = some e) :
    (db.expiryIndex.removeFor e.expiry key).Tracks (deadline (db.entries.erase key)) := by
  have moved := indexed.update key none
  rwa [← deadline_erase, show deadline db.entries key = e.expiry by simp [deadline, h]] at moved

/-- Pruning is about versions of keys that are gone. -/
theorem entries_maybePruneVersions (s : Database) (n : Nat) : (s.maybePruneVersions n).entries = s.entries := by
  rw [maybePruneVersions]
  dsimp only
  split
  · rfl
  · split <;> rfl

theorem liveBytes_maybePruneVersions (s : Database) (n : Nat) : (s.maybePruneVersions n).liveBytes = s.liveBytes := by
  rw [Database.maybePruneVersions]
  dsimp only
  split
  · rfl
  · split <;> rfl

theorem Indexed.maybePruneVersions (indexed : db.Indexed) (n : Nat) :
    (db.maybePruneVersions n).Indexed := by
  rw [Database.maybePruneVersions]
  dsimp only
  split
  · exact indexed
  · split <;> exact indexed

/-- DEL, eviction and lazy expiry end here. -/
theorem Indexed.remove (indexed : db.Indexed) (key : Bytes) : (db.remove key).1.Indexed := by
  cases h : db.entries.lookup key with
  | none =>
    simp only [Database.remove, h]
    exact indexed.maybePruneVersions 1
  | some e =>
    simp only [Database.remove, h]
    refine maybePruneVersions ?_ 1
    exact indexed.erase h

/-- The whole entry is new, its deadline with it. -/
theorem Indexed.insert (indexed : db.Indexed) (key : Bytes) (entry : Entry) :
    (db.insert key entry).Indexed := by
  cases h : db.entries.lookup key with
  | none => simp only [Database.insert, h]; exact indexed.create _ h
  | some e => simp only [Database.insert, h]; exact indexed.replace _ h

/-- A look that may drop an expired key. -/
theorem Indexed.get (indexed : db.Indexed) (now : Nat) (key : Bytes) : (db.get now key).1.Indexed := by
  cases h : db.entries.lookup key with
  | none => simp only [Database.get, h]; exact indexed
  | some e =>
    simp only [Database.get, h]
    split
    · exact indexed.remove key
    · exact indexed.same_deadline h rfl

/-- The edit is on the value; the deadline stays. -/
theorem Indexed.getMut (indexed : db.Indexed) (now : Nat) (key : Bytes) (edit : Option DataType) :
    (db.getMut now key edit).1.Indexed := by
  cases h : db.entries.lookup key with
  | none => simp only [Database.getMut, h]; exact indexed
  | some e =>
    simp only [Database.getMut, h]
    split
    · exact indexed.remove key
    · exact indexed.same_deadline h rfl

/-- SET without options clears the deadline. -/
theorem Indexed.setPlain (indexed : db.Indexed) (now : Nat) (key value : Bytes) :
    (db.setPlain now key value).Indexed := by
  cases h : db.entries.lookup key with
  | none => simp only [Database.setPlain, h]; exact indexed.insert key _
  | some e =>
    simp only [Database.setPlain, h]
    split
    · exact indexed.replace ⟨.string value, none, db.lruClock⟩ h
    · exact indexed.insert key _

/-- An expired entry goes before the fresh one comes. -/
theorem Indexed.getOrInsertWith (indexed : db.Indexed) (now : Nat) (key : Bytes) (fresh : Entry)
    (edit : Option DataType) : (db.getOrInsertWith now key fresh edit).Indexed := by
  cases h : db.entries.lookup key with
  | none =>
    simp only [Database.getOrInsertWith, h]
    exact indexed.create { fresh with value := edit.getD fresh.value } h
  | some e =>
    simp only [Database.getOrInsertWith, h]
    split
    · exact indexed.same_deadline h rfl
    · exact indexed.replace { fresh with value := edit.getD fresh.value } h

theorem Indexed.setExpiry (indexed : db.Indexed) (key : Bytes) (expiry : Option Nat) :
    (db.setExpiry key expiry).Indexed := by
  cases h : db.entries.lookup key with
  | none => simp only [Database.setExpiry, h]; exact indexed
  | some e =>
    simp only [Database.setExpiry, h]
    exact indexed.replace { e with expiry } h

/-- INCR keeps the deadline of a live key. -/
theorem Indexed.incrInt (indexed : db.Indexed) (now : Nat) (key : Bytes) (delta : Int64) :
    (db.incrInt now key delta).1.Indexed := by
  cases h : db.entries.lookup key with
  | none =>
    simp only [Database.incrInt, h]
    exact indexed.create (Entry.new (.int (.new delta))) h
  | some e =>
    simp only [Database.incrInt, h]
    split
    · exact indexed.replace (Entry.new (.int (.new delta))) h
    · split
      · split
        · exact indexed
        · exact indexed.same_deadline h rfl
      · split
        · exact indexed
        · split
          · exact indexed
          · exact indexed.same_deadline h rfl
      · exact indexed

/-- A deadline of the index is that of a key's entry. -/
theorem Indexed.entry (indexed : db.Indexed) {e : Nat × Bytes} (h : e ∈ db.expiryIndex.items) :
    ∃ entry, db.entries.lookup e.2 = some entry ∧ entry.expiry = some e.1 :=
  Option.bind_eq_some_iff.1 ((indexed e.1 e.2).1 h)

/-- One step of the active cycle removes the key with its pair. -/
theorem Indexed.expireKey (indexed : db.Indexed) {e : Nat × Bytes} (h : e ∈ db.expiryIndex.items) :
    (db.expireKey e).1.Indexed := by
  obtain ⟨entry, found, expiry⟩ := indexed.entry h
  simp only [Database.expireKey, found]
  have erased := indexed.erase found
  rwa [expiry] at erased

theorem mem_expiryIndex_expireKey (db : Database) (e e' : Nat × Bytes) :
    e' ∈ (db.expireKey e).1.expiryIndex.items ↔ e' ∈ db.expiryIndex.items ∧ e' ≠ e := by
  have mem : e' ∈ (db.expiryIndex.remove e).items ↔ e' ∈ db.expiryIndex.items ∧ e' ≠ e := by
    rw [OrdSet.mem_remove, ne_eq, ne_eq, toLex.injective.eq_iff]
  cases h : db.entries.lookup e.2 <;> simpa only [Database.expireKey, h] using mem

/-- The batch was read off the index, so each of its deadlines is still there in its turn. -/
theorem Indexed.expireKeys (indexed : db.Indexed) {es : List (Nat × Bytes)} (nodup : es.Nodup)
    (listed : ∀ e ∈ es, e ∈ db.expiryIndex.items) : (db.expireKeys es).1.Indexed := by
  induction es generalizing db with
  | nil => exact indexed
  | cons e es ih =>
    rw [List.nodup_cons] at nodup
    have still : ∀ e' ∈ es, e' ∈ (db.expireKey e).1.expiryIndex.items := fun e' he' =>
      (mem_expiryIndex_expireKey db e e').2 ⟨listed e' (by simp [he']), fun same => nodup.1 (same ▸ he')⟩
    exact ih (indexed.expireKey (listed e (by simp))) nodup.2 still

/-- The deadlines an expiry batch takes. -/
def due (now : Nat) (db : Database) (max : Nat) : List (Nat × Bytes) :=
  (db.expiryIndex.items.takeWhile fun e => e.1 ≤ now).take max

/-- The due pairs stand in front of the index, in its order. -/
theorem due_sublist (now : Nat) (db : Database) (max : Nat) :
    (db.due now max).Sublist db.expiryIndex.items :=
  (List.take_sublist max _).trans (List.takeWhile_prefix _).sublist

/-- A due pair has its deadline behind it. -/
theorem le_of_mem_due {now max : Nat} {e : Nat × Bytes} (h : e ∈ db.due now max) : e.1 ≤ now := by
  simpa using List.mem_takeWhile_imp (List.mem_of_mem_take h)

/-- A batch of the active cycle, by induction on the due pairs. -/
theorem Indexed.expireBatch (indexed : db.Indexed) (now max : Nat) :
    (db.expireBatch now max).1.Indexed := by
  refine maybePruneVersions ?_ _
  refine indexed.expireKeys ?_ fun e he => (due_sublist now db max).subset he
  exact db.expiryIndex.sorted.nodup_keys.of_map.sublist (due_sublist now db max)

theorem Indexed.expired_of_due (indexed : db.Indexed) {now max : Nat} {x : Bytes}
    (h : x ∈ (db.due now max).map Prod.snd) :
    ∃ entry, db.entries.lookup x = some entry ∧ entry.isExpired now = true := by
  obtain ⟨e, he, rfl⟩ := List.mem_map.1 h
  obtain ⟨entry, found, expiry⟩ := indexed.entry ((due_sublist now db max).subset he)
  exact ⟨entry, found, by simpa [Entry.isExpired, expiry] using le_of_mem_due he⟩

end Database

namespace ShardedDatabase

variable {db : ShardedDatabase}

def Indexed (db : ShardedDatabase) : Prop := ∀ s ∈ db.shards, s.Indexed

/-- The shard of a key is one of the shards. -/
theorem Indexed.shardFor (indexed : db.Indexed) (key : Bytes) : (db.shardFor key).Indexed :=
  indexed _ (List.get_mem _ _)

theorem indexed_new (numShards : Nat) (positive : 0 < numShards) : (new numShards positive).Indexed := by
  intro s hs
  rw [(List.mem_replicate.1 hs).2]
  exact Database.indexed_new

/-- An operation under the lock of one shard leaves the others. -/
theorem Indexed.writeFor {α : Type} {f : Database → Database × α} (indexed : db.Indexed) (key : Bytes)
    (keeps : ∀ {s : Database}, s.Indexed → (f s).1.Indexed) : (db.writeFor key f).1.Indexed := by
  intro s hs
  rcases List.mem_or_eq_of_mem_set hs with old | rfl
  · exact indexed s old
  · exact keeps (indexed.shardFor key)

/-- The counter operation, on the shard of its key. -/
theorem Indexed.incrInt (indexed : db.Indexed) (now : Nat) (key : Bytes) (delta : Int64) :
    (db.incrInt now key delta).1.Indexed := by
  rcases db.incrInt_cases now key delta with ⟨e, cell, cell', found, -, -, -, h, -⟩ | ⟨-, -, -, -, -, -, h⟩ | h
  · rw [h]
    intro s hs
    rcases List.mem_or_eq_of_mem_set hs with old | rfl
    · exact indexed s old
    · exact (indexed.shardFor key).same_deadline found rfl
  · rwa [h]
  · rw [h]
    exact indexed.writeFor key fun h => h.incrInt now key delta

/-- A flush clears the index with the entries. -/
theorem Indexed.flush (db : ShardedDatabase) : db.flush.Indexed := by
  intro s hs
  obtain ⟨s, -, rfl⟩ := List.mem_map.1 hs
  exact Database.indexed_new

/-- The active cycle goes through the shards in turn. -/
theorem Indexed.expireBatch (indexed : db.Indexed) (now maxTotal : Nat) :
    (db.expireBatch now maxTotal).1.Indexed := by
  intro s hs
  simp only [ShardedDatabase.expireBatch, List.map_map] at hs
  obtain ⟨s₀, old, rfl⟩ := List.mem_map.1 hs
  exact (indexed s₀ old).expireBatch now _

/-- An insert, on the shard of its key. -/
theorem Indexed.insertFor (indexed : db.Indexed) (key : Bytes) (entry : Entry) :
    (db.writeFor key fun shard => (shard.insert key entry, ())).1.Indexed :=
  indexed.writeFor key fun h => h.insert key entry

/-- RENAME takes the entry with its deadline to the other key, perhaps on another shard. -/
theorem Indexed.rename (indexed : db.Indexed) (src dst : Bytes) : (db.rename src dst).1.Indexed := by
  have taken := indexed.writeFor src fun h => h.remove src
  rw [ShardedDatabase.rename]
  split
  · rename_i db' entry h
    rw [h] at taken
    exact taken.insertFor dst entry
  · rename_i db' h
    rwa [h] at taken

theorem Indexed.copyFrom (indexed : db.Indexed) (now : Nat) (src dst : Bytes) :
    (db.copyFrom now src dst).1.Indexed := by
  have read := indexed.writeFor src fun h => h.get now src
  rw [ShardedDatabase.copyFrom]
  split
  · rename_i db'' entry h
    rw [h] at read
    exact read.insertFor dst entry
  · rename_i db'' h
    rwa [h] at read

theorem Indexed.copyEntry (indexed : db.Indexed) (now : Nat) (src dst : Bytes) (replace : Bool) :
    (db.copyEntry now src dst replace).1.Indexed := by
  have checked := indexed.writeFor dst fun h => h.get now dst
  rw [ShardedDatabase.copyEntry]
  split
  · exact indexed.copyFrom now src dst
  · split
    · rename_i db' entry h
      rwa [h] at checked
    · rename_i db' h
      rw [h] at checked
      exact checked.copyFrom now src dst

end ShardedDatabase

end NexradeCache
