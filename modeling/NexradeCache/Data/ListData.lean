import NexradeCache.Lib.Codec

/-!
# Dual-encoded lists (`nexrade-core/src/list_data.rs`)

`ListData` is either a `CompactList`, one contiguous buffer of length-prefixed
elements with a table of absolute offsets, or a `LinkedList`, a deque of byte strings
with a cached byte total. The definitions follow the Rust functions of the same names.
An indexed access or an unsigned subtraction that would panic answers `none`; a cast to
`u32` reduces modulo `2 ^ 32`. Buffer capacities and `Arc` sharing are not modelled: no
value read back depends on them. The process-wide thresholds are an argument, because
`CONFIG SET` may change them between any two calls.
-/

namespace NexradeCache

open Bytes

/-- Compact promote/demote thresholds. -/
structure ListThresholds where
  maxEntries : Nat
  maxSize : Nat
  maxElem : Nat
  demoteEntries : Nat
deriving Repr, DecidableEq

/-- The compiled-in thresholds. -/
def ListThresholds.default : ListThresholds where
  maxEntries := 512
  maxSize := 8192
  maxElem := 256
  demoteEntries := 128

/-! ## `LinkedList` -/

/-- The deque encoding: the elements and the cached sum of their lengths. -/
structure LinkedList where
  items : List Bytes
  bytes : Nat
deriving Repr, DecidableEq

namespace LinkedList

/-- An empty list. -/
def empty : LinkedList := ⟨[], 0⟩

/-- `LLEN`. -/
def len (d : LinkedList) : Nat := d.items.length

/-- The byte counter goes along. -/
def pushFront (d : LinkedList) (v : Bytes) : LinkedList := ⟨v :: d.items, d.bytes + v.length⟩

/-- The byte counter goes along. -/
def pushBack (d : LinkedList) (v : Bytes) : LinkedList := ⟨d.items ++ [v], d.bytes + v.length⟩

/-- The byte counter goes along. -/
def popFront (d : LinkedList) : LinkedList × Option Bytes :=
  match d.items with
  | [] => (d, none)
  | v :: rest => (⟨rest, d.bytes - v.length⟩, some v)

/-- The byte counter goes along. -/
def popBack (d : LinkedList) : LinkedList × Option Bytes :=
  match d.items.getLast? with
  | none => (d, none)
  | some v => (⟨d.items.dropLast, d.bytes - v.length⟩, some v)

/-- A loop of `pop` calls that sums the lengths of what it drops. -/
def popTimes (pop : LinkedList → LinkedList × Option Bytes) :
    Nat → LinkedList → Int → LinkedList × Int
  | 0, d, dropped => (d, dropped)
  | k + 1, d, dropped =>
    match pop d with
    | (d', some v) => popTimes pop k d' (dropped + v.length)
    | (d', none) => popTimes pop k d' dropped

end LinkedList

/-! ## `CompactList` -/

/-- The packed encoding. Live bytes are `buf[head..]`, live offsets
`offsets[offHead .. offHead + len]`; both tables keep spare room in front. -/
structure CompactList where
  buf : Bytes
  head : Nat
  len : Nat
  bytes : Nat
  offsets : List Nat
  offHead : Nat
deriving Repr, DecidableEq

/-- `n as u32` for a signed `n`. -/
def asU32 (n : Int) : Nat := (n % 2 ^ 32).toNat

namespace CompactList

/-- An empty list with room in front for pushes from the left. -/
def new : CompactList where
  buf := List.replicate 128 0
  head := 128
  len := 0
  bytes := 0
  offsets := List.replicate 16 0
  offHead := 16

/-- An empty list without room in front. -/
def withCapacity : CompactList := ⟨[], 0, 0, 0, [], 0⟩

/-- The offset of an element, relative to the first live one. -/
def offAt (c : CompactList) (i : Nat) : Option Nat := c.offsets[c.offHead + i]?

/-- The live offset window, as the slice `offsets[off_head..off_head + len]`. -/
def window (c : CompactList) : Option (List Nat) :=
  slice c.offsets c.offHead (c.offHead + c.len)

/-- Makes room in front of the frames: all of them move, and all offsets are shifted. -/
def ensureFrontRoom (c : CompactList) (need : Nat) : Option CompactList :=
  if need ≤ c.head then some c else do
    let live ← checkedSub c.buf.length c.head
    let spare := max (max (max (need * 8) (live / 2)) 64) need
    let tail ← slice c.buf c.head c.buf.length
    let delta : Int := spare - c.head
    let window ← c.window
    let offsets ← overwrite c.offsets c.offHead (window.map fun o : Nat => asU32 (o + delta))
    return { c with buf := List.replicate spare 0 ++ tail, head := spare, offsets }

/-- Makes room in front of the offsets. -/
def ensureOffFrontRoom (c : CompactList) : Option CompactList :=
  if 0 < c.offHead then some c else do
    let spare := max c.len 8
    let window ← c.window
    return { c with offsets := List.replicate spare 0 ++ window, offHead := spare }

/-- Appends a frame, its length in front. -/
def pushBack (c : CompactList) (v : Bytes) : CompactList :=
  let off := c.buf.length % 2 ^ 32
  let last := c.offHead + c.len
  let offsets := if last < c.offsets.length then c.offsets.take last else c.offsets
  { c with
    offsets := offsets ++ [off]
    buf := c.buf ++ frame v
    len := c.len + 1
    bytes := c.bytes + v.length }

/-- Writes a frame into the room in front. -/
def pushFront (c : CompactList) (v : Bytes) : Option CompactList := do
  let insert := 4 + v.length
  let c ← c.ensureFrontRoom insert
  let c ← c.ensureOffFrontRoom
  let head ← checkedSub c.head insert
  let buf ← overwrite c.buf head (leBytes 4 v.length)
  let buf ← overwrite buf (head + 4) v
  let offHead ← checkedSub c.offHead 1
  let offsets ← overwrite c.offsets offHead [head % 2 ^ 32]
  return { c with buf, head, offsets, offHead, len := c.len + 1, bytes := c.bytes + v.length }

/-- `pop_front`'s reclaim of a large dead prefix of the buffer. -/
def reclaim (c : CompactList) : Option CompactList :=
  if 4096 < c.head then do
    let live ← checkedSub c.buf.length c.head
    if live < c.head then do
      let tail ← slice c.buf c.head c.buf.length
      let window ← c.window
      let moved ← window.mapM fun o => checkedSub o (c.head % 2 ^ 32)
      let offsets ← overwrite c.offsets c.offHead moved
      return { c with buf := tail, head := 0, offsets }
    else return c
  else return c

/-- `pop_front`'s compaction of a large dead prefix of the offset table. -/
def compactOffsets (c : CompactList) : Option CompactList :=
  if 64 < c.offHead ∧ c.len < c.offHead then do
    let window ← c.window
    return { c with offsets := window, offHead := 0 }
  else return c

/-- Moves the head behind the first frame. -/
def popFront (c : CompactList) : Option (CompactList × Option Bytes) :=
  if c.len = 0 then some (c, none) else do
    let (val, next) ← readFrame c.buf c.head
    let bytes ← checkedSub c.bytes val.length
    let c := { c with head := next, offHead := c.offHead + 1, len := c.len - 1, bytes }
    let c ← c.reclaim
    let c ← c.compactOffsets
    return (c, some val)

/-- Cuts the buffer at the last frame. -/
def popBack (c : CompactList) : Option (CompactList × Option Bytes) :=
  if c.len = 0 then some (c, none) else do
    let lastStart ← c.offAt (c.len - 1)
    let (val, _) ← readFrame c.buf lastStart
    let bytes ← checkedSub c.bytes val.length
    return ({ c with
      buf := c.buf.take lastStart
      offsets := c.offsets.take (c.offHead + c.len - 1)
      len := c.len - 1
      bytes }, some val)

/-- `LINDEX`, by the offset. -/
def get (c : CompactList) (i : Nat) : Option (Option Bytes) :=
  if c.len ≤ i then some none else do
    let off ← c.offAt i
    let (val, _) ← readFrame c.buf off
    return some val

/-- Elements `[start, stop]`; the guard is `range_iter`'s `debug_assert!`. -/
def rangeBytes (c : CompactList) (start stop : Nat) : Option (List Bytes) :=
  if start ≤ stop ∧ stop < c.len then do
    let off ← c.offAt start
    frameCodec.readAll c.buf (stop - start + 1) off
  else none

/-- All elements, by the offsets. -/
def iterElements (c : CompactList) : Option (List Bytes) := do
  let off ← (if c.len = 0 then some c.head else c.offAt 0)
  frameCodec.readAll c.buf c.len off

end CompactList

/-! ## `ListData` -/

/-- A list in one of its two encodings. -/
inductive ListData where
  | compact (c : CompactList)
  | linked (d : LinkedList)
deriving Repr, DecidableEq

namespace ListData

/-- A new list is compact. -/
def new : ListData := .compact .new

/-- `LLEN`, in both encodings. -/
def len : ListData → Nat
  | .compact c => c.len
  | .linked d => d.len

/-- The bytes of the elements, as the counter has them. -/
def payloadBytes : ListData → Nat
  | .compact c => c.bytes
  | .linked d => d.bytes

/-- The cached total is taken over from the compact encoding, not recomputed. -/
def toLinked : ListData → Option LinkedList
  | .linked d => some d
  | .compact c => do
    let elems ← c.iterElements
    return { elems.foldl LinkedList.pushBack LinkedList.empty with bytes := c.bytes }

/-- Some edits work on the linked form only. -/
def ensureLinked (l : ListData) : Option ListData := l.toLinked.map .linked

/-- `maybe_demote`'s scan: the payload total, or `none` where the scan gives up. -/
def demoteTotal (thr : ListThresholds) : Nat → List Bytes → Option Nat
  | total, [] => some total
  | total, e :: rest =>
    if thr.maxElem < e.length then none
    else if thr.maxSize < total + e.length then none
    else demoteTotal thr (total + e.length) rest

/-- A linked list that has become small goes back to the compact form. -/
def maybeDemote (thr : ListThresholds) : ListData → ListData
  | .compact c => .compact c
  | .linked d =>
    if thr.demoteEntries < d.len then .linked d
    else match demoteTotal thr 0 d.items with
      | none => .linked d
      | some _ => .compact (d.items.foldl CompactList.pushBack CompactList.withCapacity)

/-- The thresholds, for the element that is to come. -/
def shouldPromoteAfterPush (thr : ListThresholds) (c : CompactList) (elemLen : Nat) : Bool :=
  thr.maxElem < elemLen || thr.maxEntries < c.len + 1 || thr.maxSize < c.bytes + elemLen

/-- LPUSH. The promotion comes before the push. -/
def pushFront (thr : ListThresholds) (v : Bytes) : ListData → Option ListData
  | .linked d => some (.linked (d.pushFront v))
  | .compact c =>
    if shouldPromoteAfterPush thr c v.length then do
      let d ← toLinked (.compact c)
      return .linked (d.pushFront v)
    else (c.pushFront v).map .compact

/-- RPUSH. The promotion comes before the push. -/
def pushBack (thr : ListThresholds) (v : Bytes) : ListData → Option ListData
  | .linked d => some (.linked (d.pushBack v))
  | .compact c =>
    if shouldPromoteAfterPush thr c v.length then do
      let d ← toLinked (.compact c)
      return .linked (d.pushBack v)
    else some (.compact (c.pushBack v))

/-- Demote after a pop that returned an element. -/
def demoteAfterPop (thr : ListThresholds) : ListData × Option Bytes → ListData × Option Bytes
  | (l, some v) => (maybeDemote thr l, some v)
  | (l, none) => (l, none)

/-- LPOP. A pop may demote. -/
def popFront (thr : ListThresholds) : ListData → Option (ListData × Option Bytes)
  | .compact c => c.popFront.map fun (c', v) => demoteAfterPop thr (.compact c', v)
  | .linked d => let (d', v) := d.popFront; some (demoteAfterPop thr (.linked d', v))

/-- RPOP. A pop may demote. -/
def popBack (thr : ListThresholds) : ListData → Option (ListData × Option Bytes)
  | .compact c => c.popBack.map fun (c', v) => demoteAfterPop thr (.compact c', v)
  | .linked d => let (d', v) := d.popBack; some (demoteAfterPop thr (.linked d', v))

/-- LINDEX, in both encodings. -/
def get (l : ListData) (i : Nat) : Option (Option Bytes) :=
  match l with
  | .compact c => c.get i
  | .linked d => some d.items[i]?

/-- LSET, with the change in bytes. -/
def set (i : Nat) (v : Bytes) (l : ListData) : Option (ListData × Bool × Int) := do
  let d ← l.toLinked
  match d.items[i]? with
  | some old =>
    let d' : LinkedList := ⟨d.items.set i v, d.bytes - old.length + v.length⟩
    return (.linked d', true, (v.length : Int) - old.length)
  | none => return (.linked d, false, 0)

/-- `insert_before` (`shift = 0`) and `insert_after` (`shift = 1`). -/
def insertAt (shift : Nat) (pivot v : Bytes) (l : ListData) : Option (ListData × Option Nat) := do
  let d ← l.toLinked
  match d.items.findIdx? (· == pivot) with
  | some pos =>
    let d' : LinkedList := ⟨d.items.insertIdx (pos + shift) v, d.bytes + v.length⟩
    return (.linked d', some d'.len)
  | none => return (.linked d, none)

/-- LINSERT BEFORE. -/
def insertBefore (pivot v : Bytes) (l : ListData) : Option (ListData × Option Nat) :=
  insertAt 0 pivot v l

/-- LINSERT AFTER. -/
def insertAfter (pivot v : Bytes) (l : ListData) : Option (ListData × Option Nat) :=
  insertAt 1 pivot v l

/-- The `count == 0` loop of `rem`: what is kept, how many are removed, the bytes kept. -/
def remAll (elem : Bytes) : List Bytes → List Bytes × Nat × Nat
  | [] => ([], 0, 0)
  | x :: rest =>
    let (kept, removed, newBytes) := remAll elem rest
    if x = elem then (kept, removed + 1, newBytes) else (x :: kept, removed, newBytes + x.length)

/-- The bounded loop of `rem`, with `left` removals to go. -/
def remSome (elem : Bytes) : Nat → List Bytes → List Bytes × Nat × Nat
  | _, [] => ([], 0, 0)
  | left, x :: rest =>
    if 0 < left ∧ x = elem then
      let (kept, removed, newBytes) := remSome elem (left - 1) rest
      (kept, removed + 1, newBytes)
    else
      let (kept, removed, newBytes) := remSome elem left rest
      (x :: kept, removed, newBytes + x.length)

/-- LREM, with how many are gone and the change in bytes. -/
def rem (thr : ListThresholds) (count : Int) (elem : Bytes) (l : ListData) :
    Option (ListData × Nat × Int) := do
  let d ← l.toLinked
  let (items, removed, newBytes) :=
    if count = 0 then remAll elem d.items
    else if 0 < count then remSome elem count.toNat d.items
    else
      -- the loop walks the deque backwards and pushes what it keeps in front
      let (kept, removed, newBytes) := remSome elem count.natAbs d.items.reverse
      (kept.reverse, removed, newBytes)
  let l' : ListData := .linked ⟨items, newBytes⟩
  let l' := if 0 < removed then maybeDemote thr l' else l'
  return (l', removed, -((removed * elem.length : Nat) : Int))

/-- LTRIM, with the change in bytes. -/
def trim (thr : ListThresholds) (start stop : Nat) (l : ListData) : Option (ListData × Int) := do
  let d ← l.toLinked
  if d.len ≤ start ∨ stop < start then
    return (maybeDemote thr (.linked LinkedList.empty), -(d.bytes : Int))
  else
    let stop := min stop (d.len - 1)
    -- `while d.len() > stop + 1`: each pop shortens the deque by one
    let (d, dropped) := LinkedList.popTimes LinkedList.popBack (d.len - (stop + 1)) d 0
    let (d, dropped) := LinkedList.popTimes LinkedList.popFront start d dropped
    return (maybeDemote thr (.linked d), -dropped)

/-- LRANGE, for indices that are no longer negative. -/
def rangeBytes (l : ListData) (start stop : Nat) : Option (List Bytes) :=
  if l.len = 0 ∨ stop < start then some []
  else
    let stop := min stop (l.len - 1)
    if l.len ≤ start then some []
    else match l with
      | .compact c => c.rangeBytes start stop
      | .linked d => slice d.items start (stop + 1)

/-- All elements, in both encodings. -/
def toVecBytes : ListData → Option (List Bytes)
  | .compact c => c.iterElements
  | .linked d => some d.items

end ListData

end NexradeCache
