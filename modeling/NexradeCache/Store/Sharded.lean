import NexradeCache.Store.Database

/-!
# The sharded keyspace (`ShardedDatabase` of `nexrade-core/src/store.rs`)

A key lives in the shard its FNV-1a hash selects. An operation on one key runs under that shard's
lock; `rename` and `copy_entry` hold the locks of both shards, so each is one step here. The
read-lock increment changes the cell of an existing integer and nothing else.
-/

namespace NexradeCache

/-- FNV-1a, 64 bit. -/
def fnv1a (key : Bytes) : Nat :=
  key.foldl (fun h b => ((h ^^^ b.toNat) * 0x100000001b3) % 2 ^ 64) 0xcbf29ce484222325

/-- A database as the list of its shards, each under a lock of its own. A key belongs to one of them, so there is at
least one. -/
structure ShardedDatabase where
  shards : List Database
  nonempty : shards ≠ []

namespace ShardedDatabase

def new (numShards : Nat) (positive : 0 < numShards) : ShardedDatabase :=
  ⟨List.replicate numShards .new, by simp; omega⟩

def shardIdx (db : ShardedDatabase) (key : Bytes) : Nat := fnv1a key &&& (db.shards.length - 1)

theorem length_pos (db : ShardedDatabase) : 0 < db.shards.length := List.length_pos_iff.2 db.nonempty

theorem shardIdx_lt (db : ShardedDatabase) (key : Bytes) : db.shardIdx key < db.shards.length := by
  have le : db.shardIdx key ≤ db.shards.length - 1 := Nat.and_le_right
  have positive := db.length_pos
  omega

/-- The shard that owns `key`. -/
def shardFor (db : ShardedDatabase) (key : Bytes) : Database :=
  db.shards.get ⟨db.shardIdx key, db.shardIdx_lt key⟩

/-- Run `f` on the shard that owns `key`. -/
def writeFor {α : Type} (db : ShardedDatabase) (key : Bytes) (f : Database → Database × α) :
    ShardedDatabase × α :=
  let (shard, answer) := f (db.shardFor key)
  (⟨db.shards.set (db.shardIdx key) shard, by simp [db.nonempty]⟩, answer)

def keyVersion (now : Nat) (db : ShardedDatabase) (key : Bytes) : Nat :=
  (db.shardFor key).keyVersion now key

/-- The increment under the read lock, where there is a live integer to increment. -/
def incrIntFast (now : Nat) (db : ShardedDatabase) (key : Bytes) (delta : Int64) :
    Option (ShardedDatabase × Except IncrError Int64) :=
  match (db.shardFor key).getRo now key with
  | some e =>
    match e.value with
    | .int cell =>
      match cell.checkedAdd delta with
      | some cell' =>
        some (db.writeFor key fun shard =>
          ({ shard with entries := shard.entries.insert key { e with value := .int cell' } }, .ok cell'.value))
      | none => some (db, .error .overflow)
    | _ => none
  | none => none

def incrInt (now : Nat) (db : ShardedDatabase) (key : Bytes) (delta : Int64) :
    ShardedDatabase × Except IncrError Int64 :=
  match db.incrIntFast now key delta with
  | some r => r
  | none => db.writeFor key fun shard => shard.incrInt now key delta

def flush (db : ShardedDatabase) : ShardedDatabase :=
  ⟨db.shards.map fun s =>
    { s with entries := ∅, expiryIndex := .empty, keyVersions := ∅, liveBytes := 0 }, by simp [db.nonempty]⟩

def expireBatch (now : Nat) (db : ShardedDatabase) (maxTotal : Nat) : ShardedDatabase × List Bytes :=
  let perShard := max (maxTotal / db.shards.length) 1
  let done := db.shards.map fun s => s.expireBatch now perShard
  (⟨done.map Prod.fst, by simp [done, db.nonempty]⟩, done.flatMap Prod.snd)

/-- RENAME. Both shards are locked from the first access to the last, the one with the lower index first (`lock_two`),
so whoever holds one of the two locks meets all of it or nothing. -/
def rename (db : ShardedDatabase) (src dst : Bytes) : ShardedDatabase × Bool :=
  match db.writeFor src fun shard => shard.remove src with
  | (db', some entry) => ((db'.writeFor dst fun shard => (shard.insert dst entry, ())).1, true)
  | (db', none) => (db', false)

/-- COPY after the check of the destination: the entry is cloned, an integer cell with its counter. -/
def copyFrom (now : Nat) (db : ShardedDatabase) (src dst : Bytes) : ShardedDatabase × Bool :=
  match db.writeFor src fun shard => shard.get now src with
  | (db', some entry) => ((db'.writeFor dst fun shard => (shard.insert dst entry, ())).1, true)
  | (db', none) => (db', false)

/-- COPY, under the locks of both shards in the order of `lock_two`. -/
def copyEntry (now : Nat) (db : ShardedDatabase) (src dst : Bytes) (replace : Bool) :
    ShardedDatabase × Bool :=
  if replace then db.copyFrom now src dst
  else
    match db.writeFor dst fun shard => shard.get now dst with
    | (db', some _) => (db', false)
    | (db', none) => db'.copyFrom now src dst

variable {α : Type} (db : ShardedDatabase)

@[simp] theorem length_writeFor (key : Bytes) (f : Database → Database × α) :
    (db.writeFor key f).1.shards.length = db.shards.length := by
  simp [writeFor]

@[simp] theorem shardIdx_writeFor (key : Bytes) (f : Database → Database × α) (k : Bytes) :
    (db.writeFor key f).1.shardIdx k = db.shardIdx k := by
  rw [shardIdx, length_writeFor, shardIdx]

theorem shardFor_writeFor (key : Bytes) (f : Database → Database × α) (k : Bytes) :
    (db.writeFor key f).1.shardFor k =
      if db.shardIdx key = db.shardIdx k then (f (db.shardFor key)).1 else db.shardFor k := by
  simp only [shardFor, List.get_eq_getElem, shardIdx_writeFor]
  simp only [writeFor, List.getElem_set]
  rfl

theorem shardFor_writeFor_self (key : Bytes) (f : Database → Database × α) :
    (db.writeFor key f).1.shardFor key = (f (db.shardFor key)).1 := by
  rw [shardFor_writeFor, if_pos rfl]

/-- An increment goes through the cell of a live integer, or fails there, or takes the write lock. -/
theorem incrInt_cases (now : Nat) (key : Bytes) (delta : Int64) :
    (∃ e cell cell', (db.shardFor key).entries.lookup key = some e ∧ e.isExpired now = false ∧
      e.value = .int cell ∧ cell.checkedAdd delta = some cell' ∧
      (db.incrInt now key delta).1 = (db.writeFor key fun shard =>
        ({ shard with entries := shard.entries.insert key { e with value := .int cell' } }, ())).1 ∧
      (db.incrInt now key delta).2 = .ok cell'.value) ∨
    (∃ e cell, (db.shardFor key).entries.lookup key = some e ∧ e.isExpired now = false ∧
      e.value = .int cell ∧ cell.checkedAdd delta = none ∧
      db.incrInt now key delta = (db, .error .overflow)) ∨
    db.incrInt now key delta = db.writeFor key fun shard => shard.incrInt now key delta := by
  cases found : (db.shardFor key).getRo now key with
  | none => exact .inr (.inr (by simp only [incrInt, incrIntFast, found]))
  | some e =>
    have live : (db.shardFor key).entries.lookup key = some e ∧ e.isExpired now = false := by
      rw [Database.getRo] at found
      grind
    cases hv : e.value with
    | int cell =>
      cases hc : cell.checkedAdd delta with
      | none =>
        exact .inr (.inl ⟨e, cell, live.1, live.2, hv, hc, by simp only [incrInt, incrIntFast, found, hv, hc]⟩)
      | some cell' =>
        refine .inl ⟨e, cell, cell', live.1, live.2, hv, hc, ?_, ?_⟩
        · simp only [incrInt, incrIntFast, found, hv, hc]
          rfl
        · simp only [incrInt, incrIntFast, found, hv, hc]
          rfl
    | _ => exact .inr (.inr (by simp only [incrInt, incrIntFast, found, hv]))

end ShardedDatabase

end NexradeCache
