import Mathlib.Data.Prod.Lex
import Mathlib.Order.Compare
import NexradeCache.Lib.Collections
import NexradeCache.Lib.Float64
import NexradeCache.Lib.Ordered

/-!
# Dual-encoded sorted sets (`nexrade-core/src/zset_data.rs`)

`ZSetData` is either a `CompactZSet`, one buffer of score+member pairs kept sorted, or a
`SkiplistZSet`, a hash map from members to scores with a B-tree over (score, member). The
definitions follow the Rust functions of the same names: an indexed access or a plain
subtraction that would panic answers `none`, `saturating_sub` is truncated subtraction, the
process-wide thresholds and the iteration order of the hash map `from_pairs` builds are
arguments. Buffer capacities and `Arc` sharing are not modelled.
-/

namespace NexradeCache

open Bytes

/-- Compact promote/demote thresholds. -/
structure ZSetThresholds where
  maxEntries : Nat
  maxSize : Nat
  maxValue : Nat
  demoteEntries : Nat
deriving Repr, DecidableEq

/-- The compiled-in thresholds. -/
def ZSetThresholds.default : ZSetThresholds where
  maxEntries := 128
  maxSize := 8192
  maxValue := 64
  demoteEntries := 64

/-- A score with its member, the key of the sorted index. -/
abbrev ZPair := F64 × Bytes

/-- The position of a pair in the order (score, member). -/
def zKey (e : ZPair) : Int ×ₗ Bytes := toLex (e.1.key, e.2)

/-- The iteration order of a hash map from members to scores. -/
abbrev ScoreOrder := IterOrder (Bytes × F64)

/-! ## `SkiplistZSet` -/

/-- The indexed encoding, with the cached sum of member lengths. -/
structure SkiplistZSet where
  members : AList fun _ : Bytes => F64
  byScore : OrdSet zKey
  bytes : Nat
deriving DecidableEq

namespace SkiplistZSet

def new : SkiplistZSet := ⟨∅, .empty, 0⟩

def insert (s : SkiplistZSet) (member : Bytes) (score : F64) : SkiplistZSet × Bool :=
  match s.members.lookup member with
  | some oldScore =>
    let byScore :=
      if oldScore.key ≠ score.key then
        (s.byScore.remove (oldScore, member)).insert (score, member)
      else s.byScore
    ({ s with members := s.members.insert member score, byScore }, false)
  | none =>
    (⟨s.members.insert member score, s.byScore.insert (score, member), s.bytes + member.length⟩, true)

def remove (s : SkiplistZSet) (member : Bytes) : SkiplistZSet × Option F64 :=
  match s.members.lookup member with
  | some score =>
    (⟨s.members.erase member, s.byScore.remove (score, member), s.bytes - member.length⟩, some score)
  | none => (s, none)

def score (s : SkiplistZSet) (member : Bytes) : Option F64 := s.members.lookup member

end SkiplistZSet

/-! ## `CompactZSet` -/

/-- The packed encoding `[f64_le score][u32_le len][member]…`, sorted by (score, member). -/
structure CompactZSet where
  buf : Bytes
  len : Nat
  bytes : Nat
deriving Repr, DecidableEq

/-- A pair as the compact buffer holds it. -/
def zCodec : Codec ZPair := F64.codec.pair frameCodec

/-- The accumulators of `insert`'s scan: the member's pair (offset, score, length) once seen,
the splice offset, whether it is set, and the length of the pair to drop. -/
structure ZScan where
  found : Option (Nat × F64 × Nat)
  insertOff : Nat
  insertOffSet : Bool
  foundPlen : Nat
deriving Repr, DecidableEq

namespace CompactZSet

def new : CompactZSet := ⟨[], 0, 0⟩

/-- The bytes of one pair. -/
def pairBytes (score : F64) (member : Bytes) : Bytes :=
  leBytes 8 score.bits.toNat ++ leBytes 4 member.length ++ member

def appendPair (c : CompactZSet) (score : F64) (member : Bytes) : CompactZSet where
  buf := c.buf ++ pairBytes score member
  len := c.len + 1
  bytes := c.bytes + member.length

/-- The iterator stops where a pair no longer fits in the buffer; it does not consult `len`.
Every pair takes at least 12 bytes, so `buf.length` rounds are more than it makes. -/
def iterPairs (c : CompactZSet) : List (Bytes × F64) :=
  (zCodec.readToEnd c.buf c.buf.length 0).map fun e => (e.2, e.1)

def score (c : CompactZSet) (member : Bytes) : Option F64 :=
  (c.iterPairs.find? fun e => e.1 == member).map Prod.snd

def cmpScoreMember (scoreA : F64) (memA : Bytes) (scoreB : F64) (memB : Bytes) : Ordering :=
  (cmp scoreA.key scoreB.key).then (cmp memA memB)

/-- The single scan of `insert`. -/
def scan (buf member : Bytes) (score : F64) : Nat → Nat → ZScan → Option ZScan
  | 0, _, st => some st
  | n + 1, off, st => do
    let ((s, m), _) ← zCodec.dec buf off
    let plen := 12 + m.length
    if m = member then
      scan buf member score n (off + plen) { st with found := some (off, s, plen), foundPlen := plen }
    else
      let st ← (if !st.insertOffSet && cmpScoreMember score member s m == .lt then do
          let insertOff ← (if st.found.isSome then checkedSub off st.foundPlen else some off)
          return { st with insertOff, insertOffSet := true }
        else some st)
      scan buf member score n (off + plen) st

def insert (c : CompactZSet) (member : Bytes) (score : F64) : Option (CompactZSet × Bool) := do
  let st ← scan c.buf member score c.len 0 ⟨none, c.buf.length, false, 0⟩
  let insertOff ← (if st.insertOffSet then some st.insertOff else checkedSub c.buf.length st.foundPlen)
  match st.found with
  | some (oldOff, oldScore, oldPlen) =>
    if oldScore.eq score || (oldScore.isNaN && score.isNaN) then return (c, false)
    else
      let before ← slice c.buf 0 oldOff
      let after ← slice c.buf (oldOff + oldPlen) c.buf.length
      let without := before ++ after
      let front ← slice without 0 insertOff
      let back ← slice without insertOff without.length
      return ({ c with buf := front ++ pairBytes score member ++ back }, false)
  | none =>
    if insertOff = c.buf.length then return (c.appendPair score member, true)
    else
      let front ← slice c.buf 0 insertOff
      let back ← slice c.buf insertOff c.buf.length
      return (⟨front ++ pairBytes score member ++ back, c.len + 1, c.bytes + member.length⟩, true)

def remove (c : CompactZSet) (member : Bytes) : Option (CompactZSet × Option F64) := do
  match ← zCodec.findAt c.buf (fun e => e.2 == member) c.len 0 with
  | none => return (c, none)
  | some (off, (s, m), _) =>
    let plen := 12 + m.length
    let before ← slice c.buf 0 off
    let after ← slice c.buf (off + plen) c.buf.length
    let len ← checkedSub c.len 1
    let bytes ← checkedSub c.bytes m.length
    return (⟨before ++ after, len, bytes⟩, some s)

end CompactZSet

/-! ## `ZSetData` -/

/-- A sorted set in one of its two encodings. -/
inductive ZSetData where
  | compact (c : CompactZSet)
  | skiplist (s : SkiplistZSet)
deriving DecidableEq

namespace ZSetData

def new : ZSetData := .compact .new

/-- `from_pairs`' scan: `false` where a member or the padded total is too large. -/
def fitsCompact (thr : ZSetThresholds) : Nat → List Bytes → Bool
  | _, [] => true
  | total, m :: rest =>
    if thr.maxValue < m.length then false
    else if thr.maxSize < total + (m.length + 8) then false
    else fitsCompact thr (total + (m.length + 8)) rest

def fromPairs (thr : ZSetThresholds) (ord : ScoreOrder) (pairs : List (Bytes × F64)) : ZSetData :=
  let map := pairs.foldl (fun map e => map.insert e.1 e.2) (∅ : AList fun _ : Bytes => F64)
  let items := ord.order map.pairs
  if map.entries.length ≤ thr.maxEntries ∧ fitsCompact thr 0 (items.map Prod.fst) then
    let ordered := (items.map fun e => ((e.2, e.1) : ZPair)).mergeSort fun a b => zKey a ≤ zKey b
    .compact (ordered.foldl (fun c e => c.appendPair e.1 e.2) .new)
  else
    .skiplist (items.foldl (fun sk e => (sk.insert e.1 e.2).1) .new)

def len : ZSetData → Nat
  | .compact c => c.len
  | .skiplist s => s.members.entries.length

def payloadBytes : ZSetData → Nat
  | .compact c => c.bytes
  | .skiplist s => s.bytes

/-- The index behind `ensure_skiplist`; the cached total is taken over, not recomputed. -/
def toSkiplist : ZSetData → SkiplistZSet
  | .skiplist s => s
  | .compact c =>
    { c.iterPairs.foldl (fun sk e => (sk.insert e.1 e.2).1) SkiplistZSet.new with bytes := c.bytes }

def ensureSkiplist (d : ZSetData) : ZSetData := .skiplist d.toSkiplist

def maybeDemote (thr : ZSetThresholds) : ZSetData → ZSetData
  | .compact c => .compact c
  | .skiplist s =>
    if thr.demoteEntries < s.members.entries.length then .skiplist s
    else if s.members.keys.any fun m => thr.maxValue < m.length then .skiplist s
    else if thr.maxSize < (s.members.keys.map fun m => m.length + 8).sum then .skiplist s
    else .compact (s.byScore.items.foldl (fun c e => c.appendPair e.1 e.2) .new)

def score (d : ZSetData) (member : Bytes) : Option F64 :=
  match d with
  | .compact c => c.score member
  | .skiplist s => s.score member

/-- The insertion into the index an oversized or crowded compact set is promoted to. -/
def promoteInsert (c : CompactZSet) (member : Bytes) (score : F64) : ZSetData × Bool :=
  let (s, isNew) := (toSkiplist (.compact c)).insert member score
  (.skiplist s, isNew)

def insert (thr : ZSetThresholds) (member : Bytes) (score : F64) : ZSetData → Option (ZSetData × Bool)
  | .skiplist s => let (s, isNew) := s.insert member score; some (.skiplist s, isNew)
  | .compact c =>
    if thr.maxValue < member.length then some (promoteInsert c member score)
    else
      let maybeNeedPromote : Bool :=
        thr.maxEntries ≤ c.len || thr.maxSize < c.bytes + member.length + 8
      if maybeNeedPromote && (c.score member).isNone then some (promoteInsert c member score)
      else do
        let (c, isNew) ← c.insert member score
        return (.compact c, isNew)

def remove (thr : ZSetThresholds) (member : Bytes) (d : ZSetData) : Option (ZSetData × Option F64) := do
  let (d, removed) ← (match d with
    | .compact c => do let (c, r) ← c.remove member; return (ZSetData.compact c, r)
    | .skiplist s => let (s, r) := s.remove member; some (ZSetData.skiplist s, r))
  if removed.isSome then return (maybeDemote thr d, removed) else return (d, removed)

/-- All pairs in storage order. -/
def iterPairsRef (d : ZSetData) (ord : ScoreOrder) : List (Bytes × F64) :=
  match d with
  | .compact c => c.iterPairs
  | .skiplist s => ord.order s.members.pairs

/-- All pairs in score order. -/
def toPairsSorted : ZSetData → List (Bytes × F64)
  | .compact c => c.iterPairs
  | .skiplist s => s.byScore.items.map fun e => (e.2, e.1)

/-- `rank`'s scan in score order. Scores are compared with `==`, so it would miss a NaN. -/
def position (d : ZSetData) (score : F64) (member : Bytes) : Option Nat :=
  match d with
  | .compact c => c.iterPairs.findIdx? fun e => e.2.eq score && e.1 == member
  | .skiplist s => s.byScore.items.findIdx? fun e => e.1.eq score && e.2 == member

def rank (d : ZSetData) (member : Bytes) (rev : Bool) : Option (Option Nat) :=
  match d.score member with
  | none => some none
  | some score =>
    match d.position score member with
    | none => some none
    | some pos =>
      if rev then do
        let n ← checkedSub d.len pos
        let n ← checkedSub n 1
        return some n
      else some (some pos)

def first : ZSetData → Option (F64 × Bytes)
  | .compact c => c.iterPairs.head?.map fun e => (e.2, e.1)
  | .skiplist s => s.byScore.items.head?

def last : ZSetData → Option (F64 × Bytes)
  | .compact c => c.iterPairs.foldl (fun _ e => some (e.2, e.1)) none
  | .skiplist s => s.byScore.items.getLast?

def popExtreme (thr : ZSetThresholds) (max : Bool) (d : ZSetData) :
    Option (ZSetData × Option (F64 × Bytes)) :=
  match if max then d.last else d.first with
  | none => some (d, none)
  | some (score, member) => do
    let (d, removed) ← d.remove thr member
    return (d, if removed.isSome then some (score, member) else none)

end ZSetData

end NexradeCache
