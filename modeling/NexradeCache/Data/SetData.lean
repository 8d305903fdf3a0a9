import NexradeCache.Lib.Codec
import NexradeCache.Lib.Collections

/-!
# Dual-encoded sets (`nexrade-core/src/set_data.rs`)

`SetData` is either a `CompactSet`, one buffer of length-prefixed members with a cached
count and byte total, or a `HashtableSet`, an `IndexSet` with a cached byte total. The
definitions follow the Rust functions of the same names; an indexed access that would panic
answers `none`, `saturating_sub` is truncated subtraction, and the process-wide thresholds are
an argument. A `HashSet` argument is given as the members in the order its iteration yields
them. Buffer capacities and `Arc` sharing are not modelled.
-/

namespace NexradeCache

open Bytes

/-- Compact promote/demote thresholds. -/
structure SetThresholds where
  maxEntries : Nat
  maxSize : Nat
  maxValue : Nat
  demoteEntries : Nat
deriving Repr, DecidableEq

/-- The compiled-in thresholds. -/
def SetThresholds.default : SetThresholds where
  maxEntries := 512
  maxSize := 8192
  maxValue := 64
  demoteEntries := 128

/-! ## `HashtableSet` -/

/-- The index set encoding, with the cached sum of member lengths. -/
structure HashtableSet where
  set : IndexSet Bytes
  bytes : Nat
deriving DecidableEq

namespace HashtableSet

/-- An empty table. -/
def withCapacity : HashtableSet := ⟨.empty, 0⟩

/-- A table of these members, with its byte counter. -/
def fromIndexSet (set : IndexSet Bytes) : HashtableSet := ⟨set, (set.items.map List.length).sum⟩

/-- Collect the members into an index set. -/
def fromSet (s : IndexSet Bytes) : HashtableSet :=
  fromIndexSet (s.items.foldl (fun t m => (t.insert m).1) .empty)

/-- `SCARD`. -/
def len (h : HashtableSet) : Nat := h.set.items.length

/-- Whether the member is new, and the change in bytes. -/
def insert (h : HashtableSet) (member : Bytes) : HashtableSet × Bool × Int :=
  match h.set.insert member with
  | (set, true) => (⟨set, h.bytes + member.length⟩, true, member.length)
  | (set, false) => (⟨set, h.bytes⟩, false, 0)

/-- `SISMEMBER`. -/
def contains (h : HashtableSet) (member : Bytes) : Bool := h.set.contains member

/-- The last member takes the place of the removed one. -/
def remove (h : HashtableSet) (member : Bytes) : HashtableSet × Bool × Int :=
  match h.set.swapRemove member with
  | (set, true) => (⟨set, h.bytes - member.length⟩, true, -(member.length : Int))
  | (set, false) => (⟨set, h.bytes⟩, false, 0)

/-- The same, by the place. -/
def swapRemoveIndex (h : HashtableSet) (idx : Nat) : Option (HashtableSet × Bytes × Int) :=
  (h.set.swapRemoveIndex idx).map fun (set, m) => (⟨set, h.bytes - m.length⟩, m, -(m.length : Int))

end HashtableSet

/-! ## `CompactSet` -/

/-- The packed encoding `[u32_le len][bytes]…`. -/
structure CompactSet where
  buf : Bytes
  len : Nat
  bytes : Nat
deriving Repr, DecidableEq

/-- The accumulators of `remove`'s rebuild loop. -/
structure SetRebuild where
  found : Bool
  newBuf : Bytes
  newLen : Nat
  newBytes : Nat

namespace CompactSet

/-- An empty compact set. -/
def new : CompactSet := ⟨[], 0, 0⟩

/-- A frame behind the others. -/
def appendMember (c : CompactSet) (member : Bytes) : CompactSet where
  buf := c.buf ++ leBytes 4 member.length ++ member
  len := c.len + 1
  bytes := c.bytes + member.length

/-- A walk over the frames. -/
def contains (c : CompactSet) (member : Bytes) : Option Bool := do
  return (← frameCodec.findAt c.buf (fun m => m == member) c.len 0).isSome

/-- A walk first, and then the frame. -/
def insert (c : CompactSet) (member : Bytes) : Option (CompactSet × Bool × Int) := do
  if ← c.contains member then return (c, false, 0)
  else return (c.appendMember member, true, member.length)

/-- One round of `remove`'s loop: drop the first match, copy everything else. -/
def removeBody (member : Bytes) (s : SetRebuild) (m raw : Bytes) : SetRebuild :=
  if !s.found ∧ m = member then { s with found := true }
  else
    { s with
      newBuf := s.newBuf ++ raw
      newLen := s.newLen + 1
      newBytes := s.newBytes + m.length }

/-- A walk that cuts the frame out. -/
def remove (c : CompactSet) (member : Bytes) : Option (CompactSet × Bool × Int) := do
  let s ← frameCodec.foldRecords c.buf (removeBody member) c.len 0 ⟨false, [], 0, 0⟩
  if s.found then return (⟨s.newBuf, s.newLen, s.newBytes⟩, true, (s.newBytes : Int) - c.bytes)
  else return (c, false, 0)

/-- The loop of `nth_ref`, with `i` members still to skip. -/
def nthFrom (buf : Bytes) : Nat → Nat → Option Bytes
  | 0, off => (readFrame buf off).map Prod.fst
  | i + 1, off => do
    let n ← readU32 buf off
    nthFrom buf i (off + 4 + n)

/-- The member at a place, by a walk. -/
def nth (c : CompactSet) (idx : Nat) : Option (Option Bytes) :=
  if c.len ≤ idx then some none else (nthFrom c.buf idx 0).map some

/-- All members, in their order. -/
def iterMembers (c : CompactSet) : Option (List Bytes) := frameCodec.readAll c.buf c.len 0

/-- The borrowing iterator walks the buffer as `iter_members` does. -/
def iterMembersRef (c : CompactSet) : Option (List Bytes) := frameCodec.readAll c.buf c.len 0

end CompactSet

/-! ## `SetData` -/

/-- A set in one of its two encodings. -/
inductive SetData where
  | compact (c : CompactSet)
  | hashtable (h : HashtableSet)
deriving DecidableEq

namespace SetData

/-- A new set is compact. -/
def new : SetData := .compact .new

/-- `from_hashset`'s scan: `false` where a member or the total is too large. -/
def fitsCompact (thr : SetThresholds) : Nat → List Bytes → Bool
  | _, [] => true
  | total, m :: rest =>
    if thr.maxValue < m.length then false
    else if thr.maxSize < total + m.length then false
    else fitsCompact thr (total + m.length) rest

/-- A result of set algebra, in the encoding that the thresholds ask for. -/
def fromHashset (thr : SetThresholds) (s : IndexSet Bytes) : SetData :=
  if s.items.length ≤ thr.maxEntries ∧ fitsCompact thr 0 s.items then
    .compact (s.items.foldl CompactSet.appendMember .new)
  else .hashtable (.fromSet s)

/-- `SCARD`, in both encodings. -/
def len : SetData → Nat
  | .compact c => c.len
  | .hashtable h => h.len

/-- No members. -/
def isEmpty (d : SetData) : Bool := d.len == 0

/-- The bytes of the members, as the counter has them. -/
def payloadBytes : SetData → Nat
  | .compact c => c.bytes
  | .hashtable h => h.bytes

/-- The cached total is taken over from the compact encoding, not recomputed. -/
def ensureHashtable : SetData → Option SetData
  | .hashtable h => some (.hashtable h)
  | .compact c => do
    let members ← c.iterMembers
    let h := members.foldl (fun h m => (h.insert m).1) HashtableSet.withCapacity
    return .hashtable { h with bytes := c.bytes }

/-- A table that has become small goes back to the compact form. -/
def maybeDemote (thr : SetThresholds) : SetData → SetData
  | .compact c => .compact c
  | .hashtable h =>
    if thr.demoteEntries < h.len then .hashtable h
    else if h.set.items.any fun m => thr.maxValue < m.length then .hashtable h
    else if thr.maxSize < h.bytes then .hashtable h
    else .compact (h.set.items.foldl CompactSet.appendMember .new)

/-- The thresholds, for a member that is to come. -/
def shouldPromote (thr : SetThresholds) (d : SetData) (memberLen : Nat) (isNew : Bool) : Bool :=
  match d with
  | .compact c =>
    thr.maxValue < memberLen || (isNew && thr.maxEntries < c.len + 1) || thr.maxSize < c.bytes + memberLen
  | .hashtable _ => false

/-- `SISMEMBER`, in both encodings. -/
def contains (d : SetData) (member : Bytes) : Option Bool :=
  match d with
  | .compact c => c.contains member
  | .hashtable h => some (h.contains member)

/-- SADD of one member, with the change in bytes. -/
def insert (thr : SetThresholds) (member : Bytes) (d : SetData) : Option (SetData × Bool × Int) := do
  if ← d.contains member then return (d, false, 0)
  let d ← (if d.shouldPromote thr member.length true then d.ensureHashtable else some d)
  match d with
  | .compact c => let (c, r) ← c.insert member; return (.compact c, r)
  | .hashtable h => let (h, r) := h.insert member; return (.hashtable h, r)

/-- SREM of one member. A removal may demote. -/
def remove (thr : SetThresholds) (member : Bytes) (d : SetData) : Option (SetData × Bool × Int) := do
  let (d, removed, delta) ← (match d with
    | .compact c => do let (c, r) ← c.remove member; return (SetData.compact c, r)
    | .hashtable h => let (h, r) := h.remove member; some (SetData.hashtable h, r))
  if removed then return (maybeDemote thr d, removed, delta) else return (d, removed, delta)

/-- All members, in both encodings. -/
def toVec : SetData → Option (List Bytes)
  | .compact c => c.iterMembers
  | .hashtable h => some h.set.items

/-- The same by reference. -/
def iterRef : SetData → Option (List Bytes)
  | .compact c => c.iterMembersRef
  | .hashtable h => some h.set.items

/-- SPOP of the member at a place. -/
def removeAt (thr : SetThresholds) (idx : Nat) (d : SetData) : Option (SetData × Option Bytes) :=
  if d.isEmpty ∨ d.len ≤ idx then some (d, none)
  else match d with
    | .compact c => do
      match ← c.nth idx with
      | none => return (.compact c, none)
      | some m =>
        let (c, _) ← c.remove m
        return (maybeDemote thr (.compact c), some m)
    | .hashtable h =>
      match h.swapRemoveIndex idx with
      | none => some (.hashtable h, none)
      | some (h, m, _) => some (maybeDemote thr (.hashtable h), some m)

end SetData

end NexradeCache
