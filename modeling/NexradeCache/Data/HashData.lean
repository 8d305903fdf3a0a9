import NexradeCache.Lib.Codec
import NexradeCache.Lib.Collections

/-!
# Dual-encoded hashes (`nexrade-core/src/hash_data.rs`)

`HashData` is either a `CompactHash`, one buffer of length-prefixed field/value pairs with
a cached count and byte total, or a `HashtableHash`, a hash map with a cached byte total. The
definitions follow the Rust functions of the same names. An indexed access or a plain
subtraction that would panic answers `none`; `saturating_sub` is truncated subtraction. The
process-wide thresholds are an argument, and so is the order in which the hash map is
iterated. Buffer capacities and `Arc` sharing are not modelled.
-/

namespace NexradeCache

open Bytes

/-- Compact promote/demote thresholds. -/
structure HashThresholds where
  maxEntries : Nat
  maxSize : Nat
  maxValue : Nat
  demoteEntries : Nat
deriving Repr, DecidableEq

/-- The compiled-in thresholds. -/
def HashThresholds.default : HashThresholds where
  maxEntries := 512
  maxSize := 8192
  maxValue := 64
  demoteEntries := 128

/-- The iteration order of a hash map of byte strings. -/
abbrev PairOrder := IterOrder (Bytes × Bytes)

/-! ## `HashtableHash` -/

/-- The hash map encoding, with the cached sum of field and value lengths. -/
structure HashtableHash where
  map : AList fun _ : Bytes => Bytes
  bytes : Nat
deriving DecidableEq

namespace HashtableHash

/-- An empty table. -/
def withCapacity : HashtableHash := ⟨∅, 0⟩

/-- The pairs of the table, in the order of the hasher. -/
def iter (h : HashtableHash) (ord : PairOrder) : List (Bytes × Bytes) := ord.order h.map.pairs

/-- A table of these pairs, with its byte counter. -/
def fromMap (map : AList fun _ : Bytes => Bytes) : HashtableHash :=
  ⟨map, (map.pairs.map fun e => e.1.length + e.2.length).sum⟩

/-- `HLEN`. -/
def len (h : HashtableHash) : Nat := h.map.entries.length

/-- Whether the field is new, and the change in bytes. -/
def insert (h : HashtableHash) (field val : Bytes) : HashtableHash × Bool × Int :=
  match h.map.lookup field with
  | none =>
    (⟨h.map.insert field val, h.bytes + (field.length + val.length)⟩, true,
      ((field.length + val.length : Nat) : Int))
  | some old =>
    (⟨h.map.insert field val, h.bytes - old.length + val.length⟩, false,
      (val.length : Int) - old.length)

/-- `HGET`. -/
def get (h : HashtableHash) (field : Bytes) : Option Bytes := h.map.lookup field

/-- `HEXISTS`. -/
def containsKey (h : HashtableHash) (field : Bytes) : Bool := (h.map.lookup field).isSome

/-- The value that is gone, and the change in bytes. -/
def remove (h : HashtableHash) (field : Bytes) : HashtableHash × Option (Bytes × Int) :=
  match h.map.lookup field with
  | none => (h, none)
  | some v =>
    (⟨h.map.erase field, h.bytes - field.length - v.length⟩,
      some (v, -((field.length + v.length : Nat) : Int)))

end HashtableHash

/-! ## `CompactHash` -/

/-- The packed encoding `[u32_le flen][field][u32_le vlen][value]…`. -/
structure CompactHash where
  buf : Bytes
  len : Nat
  bytes : Nat
deriving Repr, DecidableEq

/-- A field/value pair as the compact buffer holds it. -/
def pairCodec : Codec (Bytes × Bytes) := frameCodec.pair frameCodec

/-- The accumulators of `remove`'s rebuild loop. -/
structure HashRebuild where
  found : Option (Bytes × Int)
  newBuf : Bytes
  newLen : Nat
  newBytes : Nat

namespace CompactHash

/-- An empty compact hash. -/
def new : CompactHash := ⟨[], 0, 0⟩

/-- Two frames behind the others. -/
def appendPair (c : CompactHash) (field val : Bytes) : CompactHash where
  buf := c.buf ++ leBytes 4 field.length ++ field ++ leBytes 4 val.length ++ val
  len := c.len + 1
  bytes := c.bytes + (field.length + val.length)

/-- The scan of `insert` and `get`: the offsets of the first pair of `field` and of its
value's length prefix, and the value's length. Only the field is sliced. -/
def findField (buf field : Bytes) : Nat → Nat → Option (Option (Nat × Nat × Nat))
  | 0, _ => some none
  | n + 1, off => do
    let (f, vo) ← readFrame buf off
    let vl ← readU32 buf vo
    if f = field then return some (off, vo, vl) else findField buf field n (vo + 4 + vl)

/-- A walk first; a field that is there is cut out and appended anew. -/
def insert (c : CompactHash) (field val : Bytes) : Option (CompactHash × Bool × Int) := do
  match ← findField c.buf field c.len 0 with
  | some (off, vo, vl) =>
    let oldEnd := vo + 4 + vl
    if vl = val.length then
      let buf ← overwrite c.buf (vo + 4) val
      return ({ c with buf }, false, 0)
    else
      let before ← slice c.buf 0 off
      let after ← slice c.buf oldEnd c.buf.length
      let bytes ← checkedSub c.bytes vl
      return ({ c with
        buf := before ++ after ++ leBytes 4 field.length ++ field ++ leBytes 4 val.length ++ val
        bytes := bytes + val.length }, false, (val.length : Int) - vl)
  | none => return (c.appendPair field val, true, ((field.length + val.length : Nat) : Int))

/-- A walk over the frames. -/
def get (c : CompactHash) (field : Bytes) : Option (Option Bytes) := do
  match ← findField c.buf field c.len 0 with
  | some (_, vo, vl) => return some (← slice c.buf (vo + 4) (vo + 4 + vl))
  | none => return none

/-- A walk over the frames. -/
def containsKey (c : CompactHash) (field : Bytes) : Option Bool := do
  return (← c.get field).isSome

/-- One round of `remove`'s loop: drop the first match, copy everything else. -/
def removeBody (field : Bytes) (s : HashRebuild) (e : Bytes × Bytes) (raw : Bytes) : HashRebuild :=
  if e.1 = field ∧ s.found.isNone then
    { s with found := some (e.2, -((e.1.length + e.2.length : Nat) : Int)) }
  else
    { s with
      newBuf := s.newBuf ++ raw
      newLen := s.newLen + 1
      newBytes := s.newBytes + (e.1.length + e.2.length) }

/-- A walk that cuts both frames out. -/
def remove (c : CompactHash) (field : Bytes) : Option (CompactHash × Option (Bytes × Int)) := do
  let s ← pairCodec.foldRecords c.buf (removeBody field) c.len 0 ⟨none, [], 0, 0⟩
  if s.found.isSome then return (⟨s.newBuf, s.newLen, s.newBytes⟩, s.found)
  else return (c, s.found)

/-- All pairs, in their order. -/
def iterPairs (c : CompactHash) : Option (List (Bytes × Bytes)) := pairCodec.readAll c.buf c.len 0

/-- The borrowing iterator walks the buffer as `iter_pairs` does. -/
def iterPairsRef (c : CompactHash) : Option (List (Bytes × Bytes)) := pairCodec.readAll c.buf c.len 0

end CompactHash

/-! ## `HashData` -/

/-- A hash in one of its two encodings. -/
inductive HashData where
  | compact (c : CompactHash)
  | hashtable (h : HashtableHash)
deriving DecidableEq

namespace HashData

/-- A new hash is compact. -/
def new : HashData := .compact .new

/-- A hash in the form of a table. -/
def fromMap (m : AList fun _ : Bytes => Bytes) : HashData := .hashtable (.fromMap m)

/-- `HLEN`, in both encodings. -/
def len : HashData → Nat
  | .compact c => c.len
  | .hashtable h => h.len

/-- The bytes of fields and values, as the counter has them. -/
def payloadBytes : HashData → Nat
  | .compact c => c.bytes
  | .hashtable h => h.bytes

/-- The table behind `ensure_hashtable`; the cached total is taken over, not recomputed. -/
def toHashtable : HashData → Option HashtableHash
  | .hashtable h => some h
  | .compact c => do
    let pairs ← c.iterPairs
    let h := pairs.foldl (fun h e => (h.insert e.1 e.2).1) HashtableHash.withCapacity
    return { h with bytes := c.bytes }

/-- Some edits work on the table only. -/
def ensureHashtable (d : HashData) : Option HashData := d.toHashtable.map .hashtable

/-- `maybe_demote`'s scan: `false` where it gives up. -/
def demoteFits (thr : HashThresholds) : Nat → List (Bytes × Bytes) → Bool
  | _, [] => true
  | total, (k, v) :: rest =>
    if thr.maxValue < v.length ∨ thr.maxValue < k.length then false
    else if thr.maxSize < total + (k.length + v.length) then false
    else demoteFits thr (total + (k.length + v.length)) rest

/-- A table that has become small goes back to the compact form, its pairs in the order of the hasher. -/
def maybeDemote (thr : HashThresholds) (ord : PairOrder) : HashData → HashData
  | .compact c => .compact c
  | .hashtable h =>
    if thr.demoteEntries < h.len then .hashtable h
    else if demoteFits thr 0 (h.iter ord) then
      .compact ((h.iter ord).foldl (fun c e => c.appendPair e.1 e.2) CompactHash.new)
    else .hashtable h

/-- `HEXISTS`, in both encodings. -/
def containsKey (d : HashData) (field : Bytes) : Option Bool :=
  match d with
  | .compact c => c.containsKey field
  | .hashtable h => some (h.containsKey field)

/-- The insertion into the table an oversized or crowded compact hash is promoted to. -/
def promoteInsert (c : CompactHash) (field val : Bytes) : Option (HashData × Bool × Int) := do
  let h ← toHashtable (.compact c)
  let (h, r) := h.insert field val
  return (.hashtable h, r)

/-- HSET of one pair, with the change in bytes. The promotion comes before the insert. -/
def insert (thr : HashThresholds) (field val : Bytes) : HashData → Option (HashData × Bool × Int)
  | .hashtable h => let (h, r) := h.insert field val; some (.hashtable h, r)
  | .compact c =>
    if thr.maxValue < field.length ∨ thr.maxValue < val.length then promoteInsert c field val
    else do
      let maybeNeedPromote : Bool :=
        thr.maxEntries ≤ c.len || thr.maxSize < c.bytes + field.length + val.length
      if maybeNeedPromote && !(← c.containsKey field) then promoteInsert c field val
      else
        let (c, r) ← c.insert field val
        return (.compact c, r)

/-- `HGET`, in both encodings. -/
def get (d : HashData) (field : Bytes) : Option (Option Bytes) :=
  match d with
  | .compact c => c.get field
  | .hashtable h => some (h.get field)

/-- HDEL of one field. A removal may demote. -/
def remove (thr : HashThresholds) (ord : PairOrder) (field : Bytes) (d : HashData) :
    Option (HashData × Option (Bytes × Int)) := do
  let (d, v) ← (match d with
    | .compact c => do let (c, v) ← c.remove field; return (.compact c, v)
    | .hashtable h => let (h, v) := h.remove field; some (.hashtable h, v))
  if v.isSome then return (maybeDemote thr ord d, v) else return (d, v)

/-- All pairs, in both encodings. -/
def toPairs (d : HashData) (ord : PairOrder) : Option (List (Bytes × Bytes)) :=
  match d with
  | .compact c => c.iterPairs
  | .hashtable h => some (h.iter ord)

/-- The same by reference. -/
def iterPairsRef (d : HashData) (ord : PairOrder) : Option (List (Bytes × Bytes)) :=
  match d with
  | .compact c => c.iterPairsRef
  | .hashtable h => some (h.iter ord)

end HashData

end NexradeCache
