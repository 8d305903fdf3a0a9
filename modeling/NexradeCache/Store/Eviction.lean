import Mathlib.Data.List.MinMax
import NexradeCache.Lib.Loop
import NexradeCache.Store.Index

/-!
# Eviction (`evict_if_needed` of `nexrade-core/src/store.rs`)

Under `maxmemory` a write first drains expired keys and then evicts keys, one in each pass of a
loop, until the memory estimate is under the limit. Hash maps are walked in an order that can be
another one in each pass, and every pass reads the clock again. One order is enough for a pass:
the shards before the one that evicts answer the same in any order.

A pass that finds no key it may evict is taken for an unlucky sample and tried again as long as
some shard holds a key. But `evict_one` looks at all keys, so the next pass finds nothing either.
-/

namespace NexradeCache

/-- `maxmemory-policy`: what may be evicted, and in which order. -/
inductive MaxMemoryPolicy where
  | noEviction
  | allKeysRandom
  | allKeysLru
  | volatileRandom
  | volatileLru
  | volatileTtl
deriving DecidableEq, Repr

/-- The reservoir of `sample_lru_victim` after one more item: the item's number, the sample. -/
def sampleItem {K V : Type} (sampleSize : Nat) (score : V → Nat) (keepFilter : V → Bool)
    (st : Nat × List (K × V × Nat)) (kv : K × V) : Nat × List (K × V × Nat) :=
  let idx := st.1 + 1
  if !keepFilter kv.2 then (idx, st.2)
  else if st.2.length < sampleSize then (idx, st.2 ++ [(kv.1, kv.2, score kv.2)])
  else
    let slot := idx * 2654435761 % 2 ^ 64 % (idx + 1)
    if slot < sampleSize then (idx, st.2.set slot (kv.1, kv.2, score kv.2)) else (idx, st.2)

/-- Sample up to `sampleSize` items that pass the filter, and take the first of least score. -/
def sampleLruVictim {K V : Type} (items : List (K × V)) (sampleSize : Nat) (score : V → Nat)
    (keepFilter : V → Bool) : Option (K × V) :=
  let sample := (items.foldl (sampleItem sampleSize score keepFilter) (0, [])).2
  (sample.argmin fun e => e.2.2).map fun e => (e.1, e.2.1)

def LRU_SAMPLE_SIZE : Nat := 5

namespace Database

/-- The key `evict_one` chooses. -/
def victim (policy : MaxMemoryPolicy) (order : IterOrder (Bytes × Entry)) (now : Nat) (db : Database) :
    Option Bytes :=
  let items := order.order db.entries.pairs
  match policy with
  | .noEviction => none
  | .allKeysRandom => items.head?.map Prod.fst
  | .volatileRandom => (items.find? fun kv => kv.2.expiry.isSome && !kv.2.isExpired now).map Prod.fst
  | .allKeysLru =>
    (sampleLruVictim items LRU_SAMPLE_SIZE Entry.lruClock fun _ => true).map Prod.fst
  | .volatileLru =>
    (sampleLruVictim items LRU_SAMPLE_SIZE Entry.lruClock fun e =>
      e.expiry.isSome && !e.isExpired now).map Prod.fst
  | .volatileTtl => db.expiryIndex.items.head?.map Prod.snd

def evictOne (policy : MaxMemoryPolicy) (order : IterOrder (Bytes × Entry)) (now : Nat) (db : Database) :
    Database × Option Bytes :=
  match db.victim policy order now with
  | some k => ((db.remove k).1, some k)
  | none => (db, none)

/-- Rounds of `expire_batch`; `left` rounds may still run and `clock` is read in each. -/
def expireRounds (clock : Nat → Nat) : Nat → Nat → Database → Database × List Bytes × Nat
  | 0, _, db => (db, [], 0)
  | left + 1, budget, db =>
    let size := db.expiryIndex.items.length
    if size = 0 ∨ budget = 0 then (db, [], 1)
    else
      let (db', deleted) := db.expireBatch (clock left) (min budget size)
      if deleted.length < budget then (db', deleted, 1)
      else
        let budget' := if budget < 256 then min (budget * 2) 256 else budget
        let (db'', total, rounds) := expireRounds clock left budget' db'
        (db'', deleted ++ total, rounds + 1)

def expireCycle (clock : Nat → Nat) (db : Database) : Database × List Bytes × Nat :=
  db.expireRounds clock 16 20

end Database

namespace ShardedDatabase

def evictOne (policy : MaxMemoryPolicy) (order : IterOrder (Bytes × Entry)) (now : Nat)
    (db : ShardedDatabase) : ShardedDatabase × Option Bytes :=
  let hit := db.shards.firstHit (Database.evictOne policy order now)
  (⟨hit.1, by simpa [hit, ← List.length_pos_iff] using db.length_pos⟩, hit.2)

/-- The cycle over every shard: the keys it deleted and the rounds it took. -/
def expireCycle (clock : Nat → Nat → Nat) (db : ShardedDatabase) : ShardedDatabase × List Bytes × Nat :=
  let done := db.shards.mapIdx fun i s => s.expireCycle (clock i)
  (⟨done.map Prod.fst, by simp [done, db.nonempty]⟩, done.flatMap fun r => r.2.1,
    done.foldl (fun rounds r => min (rounds + r.2.2) (2 ^ 32 - 1)) 0)

def isEmpty (db : ShardedDatabase) : Bool := db.shards.all fun s => s.entries.entries.isEmpty

def liveBytes (db : ShardedDatabase) : Nat := (db.shards.map Database.liveBytes).sum

end ShardedDatabase

/-- All databases of the server, by their index. -/
structure Store where
  dbs : List ShardedDatabase

/-- What a pass of the eviction loop did, if it was not the last. -/
inductive Pass where
  | evicted (key : Bytes)
  | retry
deriving DecidableEq, Repr

namespace Store

def estimatedMemoryBytes (store : Store) : Nat := (store.dbs.map ShardedDatabase.liveBytes).sum

def activeExpireCycle (clock : Nat → Nat → Nat → Nat) (store : Store) : Store × List (Nat × Bytes) :=
  let done := store.dbs.mapIdx fun i sdb => sdb.expireCycle (clock i)
  (⟨done.map Prod.fst⟩, (done.mapIdx fun i r => r.2.1.map fun k => (i, k)).flatten)

/-- One pass of the loop. -/
def evictPass (policy : MaxMemoryPolicy) (limitBytes : Nat) (orders : Nat → IterOrder (Bytes × Entry))
    (clock : Nat → Nat) (i : Nat) (store : Store) : Loop.Outcome Store Pass :=
  if store.estimatedMemoryBytes ≤ limitBytes then .exit store
  else
    match store.dbs.firstHit (ShardedDatabase.evictOne policy (orders i) (clock i)) with
    | (dbs, some k) => .again ⟨dbs⟩ (.evicted k)
    | (dbs, none) => if dbs.any fun sdb => !sdb.isEmpty then .again ⟨dbs⟩ .retry else .exit ⟨dbs⟩

/-- Evict until the memory estimate is under the limit. `cycleClock` is the clock of the expiry
cycle before the loop; `orders` and `clock` are what each pass meets. -/
def evictIfNeeded (policy : MaxMemoryPolicy) (limitBytes : Nat) (cycleClock : Nat → Nat → Nat → Nat)
    (orders : Nat → IterOrder (Bytes × Entry)) (clock : Nat → Nat) (fuel : Nat) (store : Store) :
    Option (Store × List Pass) :=
  if policy = .noEviction ∨ limitBytes = 0 then some (store, [])
  else
    let store := (store.activeExpireCycle cycleClock).1
    if store.estimatedMemoryBytes ≤ limitBytes then some (store, [])
    else Loop.run (evictPass policy limitBytes orders clock) fuel 0 store

end Store

end NexradeCache
