import Mathlib.Data.Prod.Lex
import NexradeCache.Data.HashData
import NexradeCache.Data.ListData
import NexradeCache.Data.SetData
import NexradeCache.Data.ZSetData
import NexradeCache.Lib.Text

/-!
# One shard of the keyspace (`Database` of `nexrade-core/src/store.rs`)

`Database` holds the entries of a shard, the write version of each key for `WATCH`, the index of
deadlines and the running estimate of memory. The definitions follow the Rust functions of the same
names. The system clock is the argument `now`, in milliseconds; the cached LRU clock is a field;
`u64` counters wrap; `saturating_sub` is truncated subtraction. Hash maps are `AList`s, and code
that walks one is given an iteration order.
-/

namespace NexradeCache

open Utf8 Decimal

/-! ## Values -/

/-- `wrapping_add(1)` on `u64`. -/
def wrappingSucc (v : Nat) : Nat := (v + 1) % 2 ^ 64

/-- `i64::checked_add`. -/
def checkedAddI64 (a b : Int64) : Option Int64 :=
  let sum := a.toInt + b.toInt
  if -(2 ^ 63) ≤ sum ∧ sum < 2 ^ 63 then some (Int64.ofInt sum) else none

/-- The integer of an `Int` value and the count of its read-lock increments. -/
structure AtomicIntCell where
  value : Int64
  version : Nat

namespace AtomicIntCell

def new (value : Int64) : AtomicIntCell := ⟨value, 0⟩

/-- The read-lock increment. The compare-and-swap loop commits one uncontended addition. -/
def checkedAdd (cell : AtomicIntCell) (delta : Int64) : Option AtomicIntCell := do
  let newVal ← checkedAddI64 cell.value delta
  return ⟨newVal, wrappingSucc cell.version⟩

end AtomicIntCell

/-- One entry of a stream: its id as XADD writes it, and the fields in the order they were given. -/
structure StreamEntry where
  id : String
  fields : List (Bytes × Bytes)

def StreamEntry.payloadBytes (e : StreamEntry) : Nat :=
  (asBytes e.id).length + (e.fields.map fun f => f.1.length + f.2.length).sum

/-- An entry that was delivered and not acknowledged, by the consumer that has it. -/
structure PendingEntry where
  consumer : Bytes
  deliveryTimeMs : Nat
  deliveryCount : Nat

/-- A consumer of a group, with the ids it has pending. -/
structure Consumer where
  name : Bytes
  pendingIds : List String

/-- A group of a stream. `pending` is a `BTreeMap` by the text of the ids: an increasing list. -/
structure ConsumerGroup where
  name : Bytes
  lastDeliveredId : String
  pending : List (String × PendingEntry)
  consumers : AList fun _ : Bytes => Consumer

/-- A stream. `lastId` is empty until the first XADD, and stays when the entry with that id is deleted. -/
structure StreamData where
  entries : List StreamEntry
  groups : AList fun _ : Bytes => ConsumerGroup
  lastId : String
  entriesAdded : Nat

def StreamData.estimatedSize (s : StreamData) : Nat := (s.entries.map StreamEntry.payloadBytes).sum

/-- A position in degrees. -/
structure GeoPoint where
  longitude : F64
  latitude : F64

/-- Members with their positions. -/
structure GeoData where
  members : AList fun _ : Bytes => GeoPoint

/-- What a key can hold. `int` is what increments leave: a cell that later ones change under the read lock of the
shard. -/
inductive DataType where
  | string (v : Bytes)
  | int (cell : AtomicIntCell)
  | list (l : ListData)
  | set (s : SetData)
  | zset (z : ZSetData)
  | hash (h : HashData)
  | bitmap (v : Bytes)
  | hyperLogLog (v : Bytes)
  | stream (s : StreamData)
  | geo (g : GeoData)

namespace DataType

/-- The payload size every memory estimate uses. -/
def payloadBytes : DataType → Nat
  | .string v => v.length
  | .int _ => 8
  | .list l => l.payloadBytes
  | .set s => s.payloadBytes
  | .hash h => h.payloadBytes
  | .bitmap v => v.length
  | .hyperLogLog v => v.length
  | .zset z => z.payloadBytes
  | .stream s => s.estimatedSize
  | .geo g => g.members.entries.length * 24

/-- The counter of an integer cell, zero for other values. -/
def cellVersion : DataType → Nat
  | .int cell => cell.version
  | _ => 0

end DataType

/-- A single entry; `expiry` is `expires_at_ms`. -/
structure Entry where
  value : DataType
  expiry : Option Nat
  lruClock : Nat

namespace Entry

def new (value : DataType) : Entry := ⟨value, none, 0⟩

def isExpired (now : Nat) (e : Entry) : Bool :=
  match e.expiry with
  | some expiresAtMs => expiresAtMs ≤ now
  | none => false

end Entry

/-! ## The shard -/

abbrev KeyMap (V : Type) := AList fun _ : Bytes => V

/-- The deadlines in order: (expires_at_ms, key). -/
abbrev ExpiryIndex := OrdSet fun e : Nat × Bytes => toLex e

/-- One shard of a database: the entries, the versions WATCH compares, the index of the deadlines, the estimate of
the memory, and the clock for accesses. -/
structure Database where
  entries : KeyMap Entry
  keyVersions : KeyMap Nat
  removalsSincePrune : Nat
  expiryIndex : ExpiryIndex
  liveBytes : Nat
  lruClock : Nat

def VERSION_PRUNE_INTERVAL : Nat := 1024

def VERSION_PRUNE_RATIO : Nat := 2

def VERSION_PRUNE_MIN : Nat := 4096

/-- Advance `key`'s write version, creating the slot if there is none. -/
def KeyMap.bumpVersion (versions : KeyMap Nat) (key : Bytes) : KeyMap Nat :=
  match versions.lookup key with
  | some v => versions.insert key (wrappingSucc v)
  | none => versions.insert key 1

/-- Advance `key`'s write version only if a slot exists. -/
def KeyMap.bumpVersionIfPresent (versions : KeyMap Nat) (key : Bytes) : KeyMap Nat :=
  match versions.lookup key with
  | some v => versions.insert key (wrappingSucc v)
  | none => versions

/-- The slots of keys that satisfy `keep`. -/
def KeyMap.filterKeys {V : Type} (m : KeyMap V) (keep : Bytes → Bool) : KeyMap V :=
  ⟨m.entries.filter fun e => keep e.1, List.NodupKeys.sublist List.filter_sublist m.nodupKeys⟩

namespace ExpiryIndex

def removeFor (index : ExpiryIndex) (expiry : Option Nat) (key : Bytes) : ExpiryIndex :=
  match expiry with
  | some ms => index.remove (ms, key)
  | none => index

def insertFor (index : ExpiryIndex) (expiry : Option Nat) (key : Bytes) : ExpiryIndex :=
  match expiry with
  | some ms => index.insert (ms, key)
  | none => index

end ExpiryIndex

/-- Why an increment is refused; nothing is changed then. -/
inductive IncrError where
  | wrongType
  | notInteger
  | overflow
deriving DecidableEq, Repr

namespace Database

def new : Database := ⟨∅, ∅, 0, .empty, 0, 0⟩

def estimateEntrySize (key : Bytes) (e : Entry) : Nat := 64 + key.length + e.value.payloadBytes

/-- Move the memory estimate from one size to another. -/
def resize (live oldSz newSz : Nat) : Nat :=
  if newSz > oldSz then live + (newSz - oldSz) else live - (oldSz - newSz)

/-- Drop the version slots of keys that no longer exist, once in an interval of removals and only
when there are many more slots than keys. -/
def maybePruneVersions (db : Database) (removals : Nat) : Database :=
  let since := min (db.removalsSincePrune + removals) (2 ^ 32 - 1)
  if since < VERSION_PRUNE_INTERVAL then { db with removalsSincePrune := since }
  else
    let cap := max (db.entries.entries.length * VERSION_PRUNE_RATIO) VERSION_PRUNE_MIN
    if db.keyVersions.entries.length ≤ cap then { db with removalsSincePrune := 0 }
    else
      { db with
        removalsSincePrune := 0
        keyVersions := db.keyVersions.filterKeys fun k => (db.entries.lookup k).isSome }

/-- The write version of a key: its slot, and for a live integer the counter of its cell. -/
def keyVersion (now : Nat) (db : Database) (key : Bytes) : Nat :=
  let base := (db.keyVersions.lookup key).getD 0
  match db.entries.lookup key with
  | some e => if !e.isExpired now then (base + e.value.cellVersion) % 2 ^ 64 else base
  | none => base

def remove (db : Database) (key : Bytes) : Database × Option Entry :=
  match db.entries.lookup key with
  | some e =>
    (({ db with
        entries := db.entries.erase key
        expiryIndex := db.expiryIndex.removeFor e.expiry key
        keyVersions := db.keyVersions.bumpVersionIfPresent key
        liveBytes := db.liveBytes - estimateEntrySize key e }).maybePruneVersions 1, some e)
  | none => (db.maybePruneVersions 1, none)

/-- Read an entry, deleting it if it has expired, and note the access. -/
def get (now : Nat) (db : Database) (key : Bytes) : Database × Option Entry :=
  match db.entries.lookup key with
  | some e =>
    if e.isExpired now then ((db.remove key).1, none)
    else
      let e := { e with lruClock := db.lruClock }
      ({ db with entries := db.entries.insert key e }, some e)
  | none => (db, none)

def getRo (now : Nat) (db : Database) (key : Bytes) : Option Entry :=
  match db.entries.lookup key with
  | some e => if !e.isExpired now then some e else none
  | none => none

/-- `get_mut`, and what the caller writes through the reference it got: a value, or nothing. -/
def getMut (now : Nat) (db : Database) (key : Bytes) (edit : Option DataType) : Database × Bool :=
  match db.entries.lookup key with
  | some e =>
    if e.isExpired now then ((db.remove key).1, false)
    else
      ({ db with
          keyVersions := db.keyVersions.bumpVersion key
          entries := db.entries.insert key { e with value := edit.getD e.value } }, true)
  | none => (db, false)

def insert (db : Database) (key : Bytes) (entry : Entry) : Database :=
  match db.entries.lookup key with
  | some old =>
    { db with
      expiryIndex := (db.expiryIndex.removeFor old.expiry key).insertFor entry.expiry key
      liveBytes := resize db.liveBytes (estimateEntrySize key old) (estimateEntrySize key entry)
      keyVersions := db.keyVersions.bumpVersion key
      entries := db.entries.insert key entry }
  | none =>
    { db with
      expiryIndex := db.expiryIndex.insertFor entry.expiry key
      keyVersions := db.keyVersions.insert key 1
      liveBytes := db.liveBytes + estimateEntrySize key entry
      entries := db.entries.insert key entry }

/-- `SET k v` without flags. -/
def setPlain (now : Nat) (db : Database) (key : Bytes) (value : Bytes) : Database :=
  match db.entries.lookup key with
  | some e =>
    if !e.isExpired now then
      { db with
        expiryIndex := db.expiryIndex.removeFor e.expiry key
        liveBytes := resize db.liveBytes e.value.payloadBytes value.length
        keyVersions := db.keyVersions.bumpVersion key
        entries := db.entries.insert key ⟨.string value, none, db.lruClock⟩ }
    else db.insert key (.new (.string value))
  | none => db.insert key (.new (.string value))

/-- `get_or_insert_with`, and what the caller writes through the reference it got. -/
def getOrInsertWith (now : Nat) (db : Database) (key : Bytes) (fresh : Entry)
    (edit : Option DataType) : Database :=
  let write (e : Entry) : Entry := { e with value := edit.getD e.value }
  match db.entries.lookup key with
  | some e =>
    if !e.isExpired now then
      { db with
        keyVersions := db.keyVersions.bumpVersion key
        entries := db.entries.insert key (write { e with lruClock := db.lruClock }) }
    else
      { db with
        expiryIndex := (db.expiryIndex.removeFor e.expiry key).insertFor fresh.expiry key
        liveBytes := db.liveBytes - estimateEntrySize key e + estimateEntrySize key fresh
        keyVersions := db.keyVersions.bumpVersion key
        entries := db.entries.insert key (write fresh) }
  | none =>
    { db with
      expiryIndex := db.expiryIndex.insertFor fresh.expiry key
      keyVersions := db.keyVersions.bumpVersion key
      liveBytes := db.liveBytes + estimateEntrySize key fresh
      entries := db.entries.insert key (write fresh) }

/-- The integer a string value stands for. -/
def parseValue (v : Bytes) : Option Int64 := (fromUtf8 v).bind parseI64

/-- The write-lock increment. -/
def incrInt (now : Nat) (db : Database) (key : Bytes) (delta : Int64) :
    Database × Except IncrError Int64 :=
  match db.entries.lookup key with
  | some e =>
    if e.isExpired now then
      let newEntry := Entry.new (.int (.new delta))
      ({ db with
          expiryIndex := db.expiryIndex.removeFor e.expiry key
          liveBytes := db.liveBytes - estimateEntrySize key e + estimateEntrySize key newEntry
          keyVersions := db.keyVersions.bumpVersion key
          entries := db.entries.insert key newEntry }, .ok delta)
    else
      match e.value with
      | .int cell =>
        match checkedAddI64 cell.value delta with
        | none => (db, .error .overflow)
        | some newVal =>
          ({ db with
              keyVersions := db.keyVersions.bumpVersion key
              entries := db.entries.insert key
                { e with value := .int { cell with value := newVal }, lruClock := db.lruClock } }, .ok newVal)
      | .string v =>
        match parseValue v with
        | none => (db, .error .notInteger)
        | some current =>
          match checkedAddI64 current delta with
          | none => (db, .error .overflow)
          | some newVal =>
            let entry := { e with value := .int (.new newVal), lruClock := db.lruClock }
            ({ db with
                liveBytes := resize db.liveBytes (estimateEntrySize key e) (estimateEntrySize key entry)
                keyVersions := db.keyVersions.bumpVersion key
                entries := db.entries.insert key entry }, .ok newVal)
      | _ => (db, .error .wrongType)
  | none =>
    let entry := Entry.new (.int (.new delta))
    ({ db with
        liveBytes := db.liveBytes + estimateEntrySize key entry
        keyVersions := db.keyVersions.bumpVersion key
        entries := db.entries.insert key entry }, .ok delta)

/-- One key of an expiry batch, with the deadline the index has for it. -/
def expireKey (db : Database) (e : Nat × Bytes) : Database × Bool :=
  match db.entries.lookup e.2 with
  | some entry =>
    ({ db with
        entries := db.entries.erase e.2
        liveBytes := db.liveBytes - estimateEntrySize e.2 entry
        keyVersions := db.keyVersions.bumpVersionIfPresent e.2
        expiryIndex := db.expiryIndex.remove e }, true)
  | none => ({ db with expiryIndex := db.expiryIndex.remove e }, false)

def expireKeys (db : Database) : List (Nat × Bytes) → Database × List Bytes
  | [] => (db, [])
  | e :: es =>
    let (db', gone) := db.expireKey e
    let (db'', deleted) := db'.expireKeys es
    (db'', if gone then e.2 :: deleted else deleted)

/-- Remove up to `max` expired keys, earliest deadline first. -/
def expireBatch (now : Nat) (db : Database) (max : Nat) : Database × List Bytes :=
  let toDelete := (db.expiryIndex.items.takeWhile fun e => e.1 ≤ now).take max
  let (db', deleted) := db.expireKeys toDelete
  (db'.maybePruneVersions (deleted.length % 2 ^ 32), deleted)

/-- Change the deadline of an existing entry. -/
def setExpiry (db : Database) (key : Bytes) (expiry : Option Nat) : Database :=
  match db.entries.lookup key with
  | some e =>
    { db with
      expiryIndex := (db.expiryIndex.removeFor e.expiry key).insertFor expiry key
      entries := db.entries.insert key { e with expiry }
      keyVersions := db.keyVersions.bumpVersion key }
  | none => db

end Database

end NexradeCache
