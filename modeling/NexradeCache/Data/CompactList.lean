import Mathlib.Algebra.Order.BigOperators.Group.List
import Mathlib.Algebra.Order.Ring.Canonical
import Mathlib.Algebra.Order.Ring.Nat
import NexradeCache.Data.ListData

/-!
# The representation invariant of `CompactList`

`Rep c l` says that the packed list `c` holds the elements `l`: the live part of the
buffer is the packed image of `l`, and the live window of the offset table holds, modulo
`2 ^ 32`, the offset at which each element starts. Keeping the offsets modulo `2 ^ 32` makes
the invariant hold after every push without a size bound; only reading through the table,
and the offset subtraction in `pop_front`, need the buffer to be below `2 ^ 32` bytes, where
the window is exact (`Rep.window_exact`).

Each operation has one lemma: it does not go out of bounds, and what it leaves represents
the list the operation should give.
-/

namespace NexradeCache

open Bytes

/-- The sum of the element lengths. -/
def payload (l : List Bytes) : Nat := (l.map List.length).sum

@[simp] theorem payload_nil : payload [] = 0 := rfl

@[simp] theorem payload_cons (x : Bytes) (l : List Bytes) :
    payload (x :: l) = x.length + payload l := by
  simp [payload]

@[simp] theorem payload_append (l m : List Bytes) : payload (l ++ m) = payload l + payload m := by
  simp [payload]

theorem payload_reverse (l : List Bytes) : payload l.reverse = payload l := by
  simp [payload, List.sum_reverse]

/-- The length prefixes come on top of the payload. -/
theorem payload_le_encs (l : List Bytes) : payload l ≤ (frameCodec.encs l).length := by
  induction l with
  | nil => simp
  | cons x l ih => simp [frameCodec]; simp [frameCodec] at ih; omega

namespace CompactList

/-- The offset table entries for `l` packed from `h` on. -/
def offsetsOf (h : Nat) (l : List Bytes) : List Nat := (frameCodec.starts h l).map (· % 2 ^ 32)

/-- There is one offset for each element. -/
theorem length_offsetsOf (h : Nat) (l : List Bytes) : (offsetsOf h l).length = l.length := by
  simp [offsetsOf]

/-- The offset is kept in 32 bits. -/
theorem offsetsOf_cons (h : Nat) (x : Bytes) (l : List Bytes) :
    offsetsOf h (x :: l) = h % 2 ^ 32 :: offsetsOf (h + (4 + x.length)) l := by
  simp [offsetsOf, Codec.starts, frameCodec]

/-- The last one stands behind the frames of all others. -/
theorem offsetsOf_concat (h : Nat) (l : List Bytes) (x : Bytes) :
    offsetsOf h (l ++ [x]) = offsetsOf h l ++ [(h + (frameCodec.encs l).length) % 2 ^ 32] := by
  simp [offsetsOf, Codec.starts_append, Codec.starts]

/-- `c` holds exactly the elements `l`. -/
structure Rep (c : CompactList) (l : List Bytes) : Prop where
  live : ∃ spare, c.buf = spare ++ frameCodec.encs l ∧ spare.length = c.head
  table : ∃ dead junk, c.offsets = dead ++ (offsetsOf c.head l ++ junk) ∧ dead.length = c.offHead
  len : c.len = l.length
  bytes : c.bytes = payload l

variable {c : CompactList} {l : List Bytes}

/-- The buffer is the unused head and then the frames. -/
theorem Rep.length_buf (h : c.Rep l) : c.buf.length = c.head + (frameCodec.encs l).length := by
  obtain ⟨spare, hbuf, hlen⟩ := h.live
  rw [hbuf, List.length_append, hlen]

/-- In a small buffer every element fits its length prefix. -/
theorem Rep.valid (h : c.Rep l) (small : c.buf.length < 2 ^ 32) :
    ∀ x ∈ l, frameCodec.Valid x := by
  intro x hx
  have bound : x.length ≤ payload l := List.le_sum_of_mem (List.mem_map_of_mem hx)
  have := payload_le_encs l
  have := h.length_buf
  show x.length < 2 ^ 32
  omega

/-- The offsets in use, cut out of the offset table. -/
theorem Rep.window_eq (h : c.Rep l) : c.window = some (offsetsOf c.head l) := by
  obtain ⟨dead, junk, ho, hd⟩ := h.table
  exact slice_eq ho hd.symm (by rw [length_offsetsOf, h.len, hd])

/-- In a small buffer the offset table is exact. -/
theorem Rep.offsets_exact (h : c.Rep l) (small : c.buf.length < 2 ^ 32) :
    offsetsOf c.head l = frameCodec.starts c.head l := by
  have := h.length_buf
  rw [offsetsOf]
  conv_rhs => rw [← List.map_id (frameCodec.starts c.head l)]
  refine List.map_congr_left fun s hs => Nat.mod_eq_of_lt ?_
  have := frameCodec.mem_starts hs
  omega

/-- The offset of an element, read modulo 2^32, is its place as long as the buffer is below that. -/
theorem Rep.offAt_eq {m r : List Bytes} {x : Bytes} (h : c.Rep (m ++ x :: r))
    (small : c.buf.length < 2 ^ 32) :
    c.offAt m.length = some (c.head + (frameCodec.encs m).length) := by
  obtain ⟨dead, junk, ho, hd⟩ := h.table
  have exact := h.offsets_exact small
  rw [Codec.starts_append, Codec.starts] at exact
  rw [offAt, ho, exact, List.getElem?_append_right (by omega), hd]
  simp

/-- The element behind `m` is read at its offset. -/
theorem Rep.readFrame_eq {m r : List Bytes} {x : Bytes} (h : c.Rep (m ++ x :: r))
    (small : c.buf.length < 2 ^ 32) :
    readFrame c.buf (c.head + (frameCodec.encs m).length) =
      some (x, c.head + (frameCodec.encs m).length + 4 + x.length) := by
  obtain ⟨spare, hbuf, hlen⟩ := h.live
  refine readFrame_frame (a := spare ++ frameCodec.encs m) (z := frameCodec.encs r)
    (h.valid small x (by simp)) ?_ (by simp [hlen])
  simp [hbuf, frameCodec]

/-! ## Making room -/

/-- A shift of all offsets, with the wrap-around of `u32`. -/
theorem asU32_shift (h t spare : Nat) :
    asU32 (((h + t) % 2 ^ 32 : Nat) + ((spare : Int) - h)) = (spare + t) % 2 ^ 32 := by
  unfold asU32
  omega

/-- Making room in front moves the frames and shifts the offsets; the list is the same. -/
theorem Rep.ensureFrontRoom (h : c.Rep l) (need : Nat) :
    ∃ c', c.ensureFrontRoom need = some c' ∧ c'.Rep l ∧ need ≤ c'.head := by
  unfold CompactList.ensureFrontRoom
  by_cases room : need ≤ c.head
  · exact ⟨c, if_pos room, h, room⟩
  obtain ⟨spare, hbuf, hlen⟩ := h.live
  obtain ⟨dead, junk, ho, hd⟩ := h.table
  have live := h.length_buf
  have tail : slice c.buf c.head c.buf.length = some (frameCodec.encs l) := slice_to_end hbuf hlen.symm
  rw [if_neg room, checkedSub_of_le (by omega), tail, h.window_eq]
  simp only [Option.bind_eq_bind, Option.bind_some, Option.pure_def]
  generalize hs : max (max (max (need * 8) ((c.buf.length - c.head) / 2)) 64) need = room'
  have moved : (offsetsOf c.head l).map (fun o : Nat => asU32 (o + ((room' : Int) - c.head))) =
      offsetsOf room' l := by
    have e1 := frameCodec.starts_shift c.head 0 l
    have e2 := frameCodec.starts_shift room' 0 l
    rw [Nat.add_zero] at e1 e2
    simp only [offsetsOf, e1, e2, List.map_map]
    exact List.map_congr_left fun t _ => asU32_shift c.head t room'
  rw [moved, overwrite_append ho hd.symm (by rw [length_offsetsOf, length_offsetsOf])]
  refine ⟨_, rfl, ⟨⟨List.replicate room' 0, rfl, by simp⟩, ⟨dead, junk, rfl, hd⟩, h.len, h.bytes⟩, ?_⟩
  show need ≤ room'
  omega

/-- Making room in front of the offsets moves only these. -/
theorem Rep.ensureOffFrontRoom (h : c.Rep l) :
    ∃ c', c.ensureOffFrontRoom = some c' ∧ c'.Rep l ∧ 0 < c'.offHead ∧ c'.head = c.head := by
  unfold CompactList.ensureOffFrontRoom
  by_cases room : 0 < c.offHead
  · exact ⟨c, if_pos room, h, room, rfl⟩
  rw [if_neg room, h.window_eq]
  refine ⟨_, rfl, ⟨h.live, ⟨List.replicate (max c.len 8) 0, [], by simp, by simp⟩, h.len, h.bytes⟩, ?_, rfl⟩
  show 0 < max c.len 8
  omega

/-! ## Pushes -/

/-- RPUSH appends a frame and its offset. -/
theorem Rep.pushBack (h : c.Rep l) (v : Bytes) : (c.pushBack v).Rep (l ++ [v]) := by
  obtain ⟨spare, hbuf, hlen⟩ := h.live
  obtain ⟨dead, junk, ho, hd⟩ := h.table
  have live := h.length_buf
  refine ⟨⟨spare, by simp [CompactList.pushBack, hbuf, frameCodec], hlen⟩, ⟨dead, [], ?_, hd⟩,
    by simp [CompactList.pushBack, h.len], by simp [CompactList.pushBack, h.bytes]⟩
  have keep : (if c.offHead + c.len < c.offsets.length then c.offsets.take (c.offHead + c.len)
      else c.offsets) = dead ++ offsetsOf c.head l := by
    have size : (dead ++ offsetsOf c.head l).length = c.offHead + c.len := by
      simp [length_offsetsOf, hd, h.len]
    split
    · rw [ho, ← List.append_assoc, ← size, List.take_left]
    · rename_i full
      have : junk = [] := by
        apply List.eq_nil_of_length_eq_zero
        rw [ho, ← List.append_assoc, List.length_append, size] at full
        omega
      rw [ho, this, List.append_nil]
  show (if _ then _ else _) ++ [_] = dead ++ (offsetsOf c.head (l ++ [v]) ++ [])
  rw [keep, offsetsOf_concat, live]
  simp

/-- LPUSH writes a frame into the room in front. -/
theorem Rep.pushFront (h : c.Rep l) (v : Bytes) :
    ∃ c', c.pushFront v = some c' ∧ c'.Rep (v :: l) := by
  unfold CompactList.pushFront
  obtain ⟨c1, e1, h1, room⟩ := h.ensureFrontRoom (4 + v.length)
  obtain ⟨c2, e2, h2, offRoom, same⟩ := h1.ensureOffFrontRoom
  obtain ⟨spare, hbuf, hlen⟩ := h2.live
  obtain ⟨dead, junk, ho, hd⟩ := h2.table
  -- split the spare room of both tables at the places that are written
  obtain ⟨s1, s2, s3, hspare, l1, l2, l3⟩ : ∃ s1 s2 s3, spare = s1 ++ (s2 ++ s3) ∧
      s1.length = c2.head - (4 + v.length) ∧ s2.length = 4 ∧ s3.length = v.length := by
    refine ⟨spare.take (c2.head - (4 + v.length)), (spare.drop (c2.head - (4 + v.length))).take 4,
      (spare.drop (c2.head - (4 + v.length))).drop 4, ?_, ?_, ?_, ?_⟩
    · rw [List.take_append_drop, List.take_append_drop]
    all_goals simp; omega
  obtain ⟨d1, x, hdead⟩ : ∃ d1 x, dead = d1 ++ [x] := by
    refine ⟨dead.dropLast, dead.getLast (by intro e; rw [e] at hd; simp at hd; omega), ?_⟩
    rw [List.dropLast_concat_getLast]
  have ld : d1.length = c2.offHead - 1 := by rw [hdead] at hd; simp at hd; omega
  have w1 : overwrite c2.buf (c2.head - (4 + v.length)) (leBytes 4 v.length) =
      some (s1 ++ (leBytes 4 v.length ++ (s3 ++ frameCodec.encs l))) :=
    overwrite_append (b := s2) (by simp [hbuf, hspare]) l1.symm (by simp [l2])
  have w2 : overwrite (s1 ++ (leBytes 4 v.length ++ (s3 ++ frameCodec.encs l)))
      (c2.head - (4 + v.length) + 4) v = some ((s1 ++ leBytes 4 v.length) ++ (v ++ frameCodec.encs l)) :=
    overwrite_append (b := s3) (by simp) (by simp [l1]) l3.symm
  have w3 : overwrite c2.offsets (c2.offHead - 1) [(c2.head - (4 + v.length)) % 2 ^ 32] =
      some (d1 ++ ([(c2.head - (4 + v.length)) % 2 ^ 32] ++ (offsetsOf c2.head l ++ junk))) :=
    overwrite_append (b := [x]) (by simp [ho, hdead]) ld.symm (by simp)
  have front : c2.head - (4 + v.length) + (4 + v.length) = c2.head := by omega
  simp only [e1, e2, Option.bind_eq_bind, Option.bind_some, Option.pure_def,
    checkedSub_of_le (show 4 + v.length ≤ c2.head by omega),
    checkedSub_of_le (show 1 ≤ c2.offHead by omega), w1, w2, w3]
  refine ⟨_, rfl, ⟨⟨s1, by simp [frameCodec, frame], l1⟩, ⟨d1, junk, ?_, ld⟩,
    by simp [h2.len], by simp [h2.bytes]; omega⟩⟩
  show _ = d1 ++ (offsetsOf (c2.head - (4 + v.length)) (v :: l) ++ junk)
  rw [offsetsOf_cons, front]
  simp

/-! ## Pops -/

/-- Offsets that are at least the head can be brought down by it. -/
theorem starts_mapM_checkedSub (h t : Nat) (l : List Bytes) :
    (frameCodec.starts (h + t) l).mapM (fun o => checkedSub o h) = some (frameCodec.starts t l) := by
  induction l generalizing t with
  | nil => rfl
  | cons x l ih =>
    have step := ih (t + (frameCodec.enc x).length)
    rw [← Nat.add_assoc] at step
    simp [Codec.starts, step]

/-- Giving back the unused head keeps the list, and grows no buffer. -/
theorem Rep.reclaim (h : c.Rep l) (small : c.buf.length < 2 ^ 32) :
    ∃ c', c.reclaim = some c' ∧ c'.Rep l ∧ c'.buf.length ≤ c.buf.length := by
  unfold CompactList.reclaim
  by_cases big : 4096 < c.head
  swap
  · exact ⟨c, if_neg big, h, le_rfl⟩
  have live := h.length_buf
  rw [if_pos big, checkedSub_of_le (by omega)]
  by_cases dead' : c.buf.length - c.head < c.head
  swap
  · exact ⟨c, if_neg dead', h, le_rfl⟩
  obtain ⟨spare, hbuf, hlen⟩ := h.live
  obtain ⟨dead, junk, ho, hd⟩ := h.table
  have tail : slice c.buf c.head c.buf.length = some (frameCodec.encs l) := slice_to_end hbuf hlen.symm
  have moved : (frameCodec.starts c.head l).mapM (fun o => checkedSub o c.head) =
      some (frameCodec.starts 0 l) := starts_mapM_checkedSub c.head 0 l
  have exact := h.offsets_exact small
  rw [exact] at ho
  have written : overwrite c.offsets c.offHead (frameCodec.starts 0 l) =
      some (dead ++ (frameCodec.starts 0 l ++ junk)) := overwrite_append ho hd.symm (by simp)
  simp only [Option.bind_eq_bind, Option.bind_some, Option.pure_def, if_pos dead', tail, h.window_eq,
    exact, Nat.mod_eq_of_lt (show c.head < 2 ^ 32 by omega), moved, written]
  refine ⟨_, rfl, ⟨⟨[], rfl, rfl⟩, ⟨dead, junk, ?_, hd⟩, h.len, h.bytes⟩, by simp [hbuf]⟩
  have low : ∀ s ∈ frameCodec.starts 0 l, s % 2 ^ 32 = s := by
    intro s hs
    have := frameCodec.mem_starts hs
    exact Nat.mod_eq_of_lt (by omega)
  show _ = dead ++ (offsetsOf 0 l ++ junk)
  rw [offsetsOf, List.map_congr_left low, List.map_id']

/-- Giving back unused offsets keeps the buffer. -/
theorem Rep.compactOffsets (h : c.Rep l) : ∃ c', c.compactOffsets = some c' ∧ c'.Rep l ∧ c'.buf = c.buf := by
  unfold CompactList.compactOffsets
  split
  · rw [h.window_eq]
    exact ⟨_, rfl, ⟨h.live, ⟨[], [], by simp, rfl⟩, h.len, h.bytes⟩, rfl⟩
  · exact ⟨c, rfl, h, rfl⟩

theorem Rep.popFront_nil (h : c.Rep []) : c.popFront = some (c, none) :=
  if_pos h.len

/-- **LPOP** answers the first element and leaves the others. -/
theorem Rep.popFront_cons {x : Bytes} (h : c.Rep (x :: l)) (small : c.buf.length < 2 ^ 32) :
    ∃ c', c.popFront = some (c', some x) ∧ c'.Rep l ∧ c'.buf.length ≤ c.buf.length := by
  unfold CompactList.popFront
  have read := h.readFrame_eq (m := []) small
  obtain ⟨spare, hbuf, hlen⟩ := h.live
  obtain ⟨dead, junk, ho, hd⟩ := h.table
  have hl := h.len
  have hb := h.bytes
  simp only [Codec.encs_nil, List.length_nil, Nat.add_zero] at read
  rw [payload_cons] at hb
  rw [List.length_cons] at hl
  -- the state between the pop and the two reclaims
  let mid : CompactList :=
    { c with head := c.head + 4 + x.length, offHead := c.offHead + 1, len := c.len - 1,
             bytes := c.bytes - x.length }
  have rep : mid.Rep l := by
    refine ⟨⟨spare ++ frame x, by simp [mid, hbuf, frameCodec], by simp [mid, hlen, Nat.add_assoc]⟩,
      ⟨dead ++ [c.head % 2 ^ 32], junk, ?_, by simp [mid, hd]⟩, by simp [mid, hl], ?_⟩
    · show c.offsets = _
      rw [ho, offsetsOf_cons, show mid.head = c.head + (4 + x.length) from Nat.add_assoc ..]
      simp
    · show c.bytes - x.length = _
      omega
  obtain ⟨c1, e1, h1, less⟩ := rep.reclaim small
  obtain ⟨c2, e2, h2, same⟩ := h1.compactOffsets
  rw [if_neg (by omega), read]
  simp only [Option.bind_eq_bind, Option.bind_some, Option.pure_def,
    checkedSub_of_le (show x.length ≤ c.bytes by omega)]
  exact ⟨c2, by rw [show CompactList.reclaim _ = some c1 from e1]; simp [e2], h2, same ▸ less⟩

theorem Rep.popBack_nil (h : c.Rep []) : c.popBack = some (c, none) :=
  if_pos h.len

/-- RPOP cuts the buffer at the last frame. -/
theorem Rep.popBack_concat {x : Bytes} (h : c.Rep (l ++ [x])) (small : c.buf.length < 2 ^ 32) :
    ∃ c', c.popBack = some (c', some x) ∧ c'.Rep l ∧ c'.buf.length ≤ c.buf.length := by
  unfold CompactList.popBack
  have hl := h.len
  have hb := h.bytes
  simp only [List.length_append, List.length_singleton, payload_append, payload_cons, payload_nil] at hl hb
  have off : c.offAt (c.len - 1) = some (c.head + (frameCodec.encs l).length) := by
    rw [show c.len - 1 = l.length by omega]
    exact h.offAt_eq small
  have read := h.readFrame_eq (r := []) small
  obtain ⟨spare, hbuf, hlen⟩ := h.live
  obtain ⟨dead, junk, ho, hd⟩ := h.table
  rw [if_neg (by omega), off]
  simp only [Option.bind_eq_bind, Option.bind_some, Option.pure_def, read,
    checkedSub_of_le (show x.length ≤ c.bytes by omega)]
  refine ⟨_, rfl, ⟨⟨spare, ?_, hlen⟩, ⟨dead, [], ?_, hd⟩, by simp; omega, by simp; omega⟩,
    List.length_take_le' _ _⟩
  · show c.buf.take _ = _
    rw [hbuf, Codec.encs_append, ← List.append_assoc, ← hlen, ← List.length_append, List.take_left]
  · show c.offsets.take _ = _
    have size : (dead ++ offsetsOf c.head l).length = c.offHead + c.len - 1 := by
      rw [List.length_append, length_offsetsOf, hd]; omega
    rw [ho, offsetsOf_concat, List.append_assoc, ← List.append_assoc dead, ← size, List.take_left]
    simp

/-! ## Reads -/

/-- **Positions** are those of the list. -/
theorem Rep.get_eq (h : c.Rep l) (small : c.buf.length < 2 ^ 32) (i : Nat) : c.get i = some l[i]? := by
  unfold CompactList.get
  have hl := h.len
  split
  · rw [List.getElem?_eq_none (by omega)]
  · have inside : i < l.length := by omega
    have split' : l = l.take i ++ l[i] :: l.drop (i + 1) := by simp
    rw [split'] at h
    have off := h.offAt_eq small
    have read := h.readFrame_eq small
    rw [List.length_take, Nat.min_eq_left (by omega)] at off
    rw [off]
    simp [read, inside]

/-- A counted walk from the element behind `m` reads the next `k` elements. -/
theorem Rep.readAll_eq {m k r : List Bytes} (h : c.Rep (m ++ (k ++ r))) (valid : ∀ x ∈ k, frameCodec.Valid x) :
    frameCodec.readAll c.buf k.length (c.head + (frameCodec.encs m).length) = some k := by
  obtain ⟨spare, hbuf, hlen⟩ := h.live
  refine frameCodec.readAll_encs (a := spare ++ frameCodec.encs m) (z := frameCodec.encs r) valid ?_ ?_
  · simp [hbuf]
  · simp [hlen]

/-- LRANGE, for a range inside the list. -/
theorem Rep.rangeBytes_eq (h : c.Rep l) (small : c.buf.length < 2 ^ 32) {start stop : Nat}
    (order : start ≤ stop) (inside : stop < l.length) :
    c.rangeBytes start stop = some ((l.take (stop + 1)).drop start) := by
  unfold CompactList.rangeBytes
  have split' : l = l.take start ++ ((l.take (stop + 1)).drop start ++ l.drop (stop + 1)) := by
    rw [← List.append_assoc]
    have : l.take start ++ (l.take (stop + 1)).drop start = l.take (stop + 1) := by
      conv_rhs => rw [← List.take_append_drop start (l.take (stop + 1))]
      rw [List.take_take, Nat.min_eq_left (by omega)]
    rw [this, List.take_append_drop]
  have len : ((l.take (stop + 1)).drop start).length = stop - start + 1 := by
    rw [List.length_drop, List.length_take]; omega
  have off : c.offAt start = some (c.head + (frameCodec.encs (l.take start)).length) := by
    have whole := h
    rw [show l = l.take start ++ l[start] :: l.drop (start + 1) by simp] at whole
    have := whole.offAt_eq small
    rwa [List.length_take, Nat.min_eq_left (by omega)] at this
  rw [split'] at h
  have walk := h.readAll_eq fun x hx => h.valid small x (by simp [hx])
  rw [len] at walk
  rw [if_pos ⟨order, by have := h.len; rw [← split'] at this; omega⟩, off]
  simpa using walk

/-- A walk over all elements needs the offset of the first and the length prefixes. -/
theorem Rep.iterElements_of_valid (h : c.Rep l) (head : c.head < 2 ^ 32) (valid : ∀ x ∈ l, frameCodec.Valid x) :
    c.iterElements = some l := by
  unfold CompactList.iterElements
  have walk := Rep.readAll_eq (m := []) (k := l) (r := []) (by simpa using h) valid
  simp only [Codec.encs_nil, List.length_nil, Nat.add_zero] at walk
  have off : (if c.len = 0 then some c.head else c.offAt 0) = some c.head := by
    have hl := h.len
    split
    · rfl
    · cases l with
      | nil => simp at hl; omega
      | cons x l =>
        obtain ⟨dead, junk, ho, hd⟩ := h.table
        rw [offAt, ho, List.getElem?_append_right (by omega), hd, offsetsOf_cons]
        simpa using head
  rw [off, h.len]
  simpa using walk

/-- **Iteration** gives the list. -/
theorem Rep.iterElements_eq (h : c.Rep l) (small : c.buf.length < 2 ^ 32) : c.iterElements = some l :=
  h.iterElements_of_valid (by have := h.length_buf; omega) (h.valid small)

/-! ## Fresh lists -/

/-- A new list is empty. -/
theorem new_rep : new.Rep [] :=
  ⟨⟨List.replicate 128 0, by simp [new], by simp [new]⟩, ⟨List.replicate 16 0, [], rfl, rfl⟩, rfl, rfl⟩

/-- Elements that are pushed one by one. -/
theorem foldl_pushBack_rep (h : c.Rep l) (m : List Bytes) : (m.foldl CompactList.pushBack c).Rep (l ++ m) := by
  induction m generalizing c l with
  | nil => simpa using h
  | cons x m ih =>
    rw [List.append_cons]
    exact ih (h.pushBack x)

/-- Pushing to the back does not move the front. -/
theorem head_foldl_pushBack (m : List Bytes) (c : CompactList) : (m.foldl CompactList.pushBack c).head = c.head := by
  induction m generalizing c with
  | nil => rfl
  | cons x m ih => exact ih (c.pushBack x)

/-- A list without elements and without room in front. -/
theorem withCapacity_rep : withCapacity.Rep [] :=
  ⟨⟨[], rfl, rfl⟩, ⟨[], [], rfl, rfl⟩, rfl, rfl⟩

end CompactList

end NexradeCache
