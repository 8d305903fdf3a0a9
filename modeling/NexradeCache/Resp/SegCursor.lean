import NexradeCache.Resp.Value

/-!
# Reading a `SegBuf` (`impl Buf for SegBuf` of `nexrade-core/src/resp.rs`)

A `SegBuf` is read while it is written: the position is a segment and an offset in it, and behind the last segment the
active part. `pieces` is what is left of the segments, and every operation acts on the bytes that it spells
(`Run.reads`, for any interleaving of writes and reads). A reader that takes one chunk after the other stops at an empty
segment with bytes behind it, a `Gap`; `seg_buf_iff` says that nothing else stops it.
-/

namespace NexradeCache

open Bytes

/-- A buffer of segments and the place in it up to which bytes are consumed: a segment, and an offset in it. -/
structure SegCursor extends SegBuf where
  readPos : Nat
  readOffset : Nat

namespace SegCursor

/-! ## The code -/

def new : SegCursor := ⟨.new, 0, 0⟩

def put (c : SegCursor) (b : Bytes) : SegCursor := { c with toSegBuf := c.toSegBuf.put b }

def pushRaw (c : SegCursor) (raw : Bytes) : SegCursor := { c with toSegBuf := c.toSegBuf.pushRaw raw }

def finalize (c : SegCursor) : SegCursor := { c with toSegBuf := c.toSegBuf.finalize }

/-- `segments[read_pos..]` -/
def unreadSegments (c : SegCursor) : Option (List Bytes) := slice c.segments c.readPos c.segments.length

/-- One pass of the loop over the unread segments. -/
def addSegment (c : SegCursor) (total : Nat) (x : Bytes × Nat) : Option Nat :=
  if x.2 = 0 then (checkedSub x.1.length c.readOffset).map fun n => total + n else some (total + x.1.length)

/-- `none` is the panic of a subtraction or a slice out of range. -/
def remaining (c : SegCursor) : Option Nat := do
  let unread ← c.unreadSegments
  unread.zipIdx.foldlM c.addSegment c.active.length

def chunk (c : SegCursor) : Option Bytes :=
  match c.segments[c.readPos]? with
  | some seg => slice seg c.readOffset seg.length
  | none => some c.active

def advance (c : SegCursor) (cnt : Nat) : Option SegCursor :=
  if cnt = 0 then some c
  else if inside : c.readPos < c.segments.length then do
    let avail ← checkedSub (c.segments.get ⟨c.readPos, inside⟩).length c.readOffset
    if cnt < avail then return { c with readOffset := c.readOffset + cnt }
    advance { c with readPos := c.readPos + 1, readOffset := 0 } (cnt - avail)
  else if cnt ≤ c.active.length then some { c with active := c.active.drop cnt }
  else none
termination_by c.segments.length - c.readPos

/-- One pass of the loop of `chunks_vectored`. -/
def addSlice (c : SegCursor) (slots : Nat) (dst : List Bytes) (x : Bytes × Nat) : Option (List Bytes) :=
  if slots ≤ dst.length then some dst
  else do
    let data ← (if x.2 = 0 then slice x.1 c.readOffset x.1.length else some x.1)
    return if data.isEmpty then dst else dst ++ [data]

/-- The slices written into this many slots. -/
def chunksVectored (c : SegCursor) (slots : Nat) : Option (List Bytes) := do
  let unread ← c.unreadSegments
  let dst ← unread.zipIdx.foldlM (c.addSlice slots) []
  return if dst.length < slots ∧ ¬c.active.isEmpty then dst ++ [c.active] else dst

/-- A reader that takes a chunk and advances over it as long as something remains, for some passes. -/
def drain : Nat → SegCursor → Option Bytes
  | 0, _ => some []
  | n + 1, c => do
    let left ← c.remaining
    if left = 0 then return []
    let b ← c.chunk
    let c ← c.advance b.length
    let rest ← drain n c
    return b ++ rest

/-! ## What is left -/

/-- The position is at a segment, within it, or behind the last. -/
structure Sound (c : SegCursor) : Prop where
  pos : c.readPos ≤ c.segments.length
  offset : c.readOffset = 0 ∨ ∃ seg, c.segments[c.readPos]? = some seg ∧ c.readOffset < seg.length

/-- What is left of the segments. -/
def pieces (c : SegCursor) : List Bytes :=
  match c.segments.drop c.readPos with
  | [] => []
  | seg :: rest => seg.drop c.readOffset :: rest

/-- The bytes that are left. -/
def unread (c : SegCursor) : Bytes := c.pieces.flatten ++ c.active

/-- An empty segment with bytes behind it. -/
def Gap (c : SegCursor) : Prop := ∃ a z, c.pieces = a ++ [] :: z ∧ z.flatten ++ c.active ≠ []

variable {c c' : SegCursor} {n : Nat}

theorem sound_new : new.Sound := ⟨le_rfl, .inl rfl⟩

/-- The cursor is behind the last segment, or at one. -/
theorem Sound.cases (h : c.Sound) :
    (c.segments.drop c.readPos = [] ∧ c.segments[c.readPos]? = none ∧ c.readOffset = 0 ∧ c.pieces = []) ∨
      ∃ seg rest, c.segments.drop c.readPos = seg :: rest ∧ c.segments[c.readPos]? = some seg ∧
        c.readOffset ≤ seg.length ∧ c.pieces = seg.drop c.readOffset :: rest := by
  by_cases inside : c.readPos < c.segments.length
  · have here := List.getElem?_eq_getElem inside
    refine .inr ⟨c.segments[c.readPos], _, List.drop_eq_getElem_cons inside, here, ?_, ?_⟩
    · rcases h.offset with zero | ⟨seg, at_, below⟩
      · omega
      · rw [here, Option.some_inj] at at_
        rw [at_]
        exact below.le
    · rw [pieces, List.drop_eq_getElem_cons inside]
  · have none : c.segments[c.readPos]? = none := List.getElem?_eq_none (by omega)
    have behind : c.segments.drop c.readPos = [] := List.drop_eq_nil_of_le (by omega)
    refine .inl ⟨behind, none, ?_, by rw [pieces, behind]⟩
    rcases h.offset with zero | ⟨seg, at_, -⟩
    · exact zero
    · rw [none] at at_
      cases at_

theorem Sound.unreadSegments (h : c.Sound) : c.unreadSegments = some (c.segments.drop c.readPos) := by
  rw [SegCursor.unreadSegments, slice, if_pos ⟨h.pos, le_rfl⟩, List.take_length]

theorem foldlM_addSegment (rest : List Bytes) (total k : Nat) :
    (rest.zipIdx (k + 1)).foldlM c.addSegment total = some (total + rest.flatten.length) := by
  induction rest generalizing total k with
  | nil => simp
  | cons seg rest ih =>
    rw [List.zipIdx_cons, List.foldlM_cons, addSegment, if_neg (by simp), Option.bind_eq_bind, Option.bind_some, ih,
      List.flatten_cons, List.length_append, Nat.add_assoc]

theorem Sound.remaining (h : c.Sound) : c.remaining = some c.unread.length := by
  rw [SegCursor.remaining, h.unreadSegments, Option.bind_eq_bind, Option.bind_some, unread, List.length_append]
  rcases h.cases with ⟨behind, -, -, none⟩ | ⟨seg, rest, here, -, within, left⟩
  · rw [behind, none]
    simp
  · rw [here, left, List.zipIdx_cons, List.foldlM_cons, addSegment, if_pos rfl, checkedSub_of_le within,
      Option.map_some, Option.bind_eq_bind, Option.bind_some, foldlM_addSegment, List.flatten_cons, List.length_append,
      List.length_drop]
    congr 1
    omega

/-- A chunk is what is left of the segment at the cursor. -/
theorem Sound.chunk (h : c.Sound) : c.chunk = some (c.pieces.head?.getD c.active) := by
  rw [SegCursor.chunk]
  rcases h.cases with ⟨-, none, -, nothing⟩ | ⟨seg, rest, -, here, within, left⟩
  · rw [none, nothing]
    rfl
  · rw [here, left]
    exact slice_to_end (List.take_append_drop c.readOffset seg).symm (by simp [within])

/-! ## Advancing -/

/-- The cursor behind the segment that it is at. -/
def next (c : SegCursor) : SegCursor := { c with readPos := c.readPos + 1, readOffset := 0 }

theorem pieces_next {p : Bytes} {ps : List Bytes} (left : c.pieces = p :: ps) : c.next.pieces = ps := by
  have tail : c.segments.drop (c.readPos + 1) = ps := by
    unfold pieces at left
    split at left
    · cases left
    · rename_i seg rest here
      rw [← List.drop_drop, here]
      exact (List.cons.inj left).2
  unfold pieces next
  dsimp only
  rw [tail]
  cases ps <;> rfl

theorem Sound.next {p : Bytes} {ps : List Bytes} (h : c.Sound) (left : c.pieces = p :: ps) : c.next.Sound := by
  refine ⟨?_, .inl rfl⟩
  rcases h.cases with ⟨-, -, -, none⟩ | ⟨seg, rest, -, here, -⟩
  · rw [none] at left
    cases left
  · exact (List.getElem?_eq_some_iff.1 here).1

theorem Sound.advance_cons {p : Bytes} {ps : List Bytes} (h : c.Sound) (left : c.pieces = p :: ps) (some_ : n ≠ 0) :
    c.advance n =
      if n < p.length then some { c with readOffset := c.readOffset + n } else c.next.advance (n - p.length) := by
  rcases h.cases with ⟨-, -, -, none⟩ | ⟨seg, rest, -, here, within, left'⟩
  · rw [none] at left
    cases left
  · obtain ⟨inside, at_⟩ := List.getElem?_eq_some_iff.1 here
    have get : c.segments.get ⟨c.readPos, inside⟩ = seg := at_
    have length : p.length = seg.length - c.readOffset := by
      rw [left'] at left
      rw [← (List.cons.inj left).1, List.length_drop]
    rw [SegCursor.advance, if_neg some_, dif_pos inside, get, checkedSub_of_le within, length]
    rfl

theorem Sound.advance_nil (h : c.Sound) (left : c.pieces = []) (enough : n ≤ c.active.length) :
    c.advance n = some { c with active := c.active.drop n } := by
  rcases h.cases with ⟨behind, -⟩ | ⟨seg, rest, -, -, -, left'⟩
  · have outside : ¬c.readPos < c.segments.length := Nat.not_lt.2 (List.drop_eq_nil_iff.1 behind)
    rw [SegCursor.advance]
    by_cases zero : n = 0
    · subst zero
      rfl
    · rw [if_neg zero, dif_neg outside, if_pos enough]
  · rw [left'] at left
    cases left

/-- What advancing comes to: it stays in range, and leaves the rest. -/
structure Advanced (c : SegCursor) (n : Nat) (c' : SegCursor) : Prop where
  run : c.advance n = some c'
  sound : c'.Sound
  segments : c'.segments = c.segments
  unread : c'.unread = c.unread.drop n

theorem Sound.within {p : Bytes} {ps : List Bytes} (h : c.Sound) (left : c.pieces = p :: ps) (below : n < p.length) :
    let c' : SegCursor := { c with readOffset := c.readOffset + n }
    c'.Sound ∧ c'.pieces = p.drop n :: ps := by
  rcases h.cases with ⟨-, -, -, none⟩ | ⟨seg, rest, from_, here, within, left'⟩
  · rw [none] at left
    cases left
  · rw [left'] at left
    obtain ⟨rfl, rfl⟩ := List.cons.inj left
    rw [List.length_drop] at below
    refine ⟨⟨h.pos, .inr ⟨seg, here, by dsimp only; omega⟩⟩, ?_⟩
    unfold pieces
    dsimp only
    rw [from_, List.drop_drop]

theorem Sound.advance (h : c.Sound) (enough : n ≤ c.unread.length) : ∃ c', Advanced c n c' := by
  generalize left : c.pieces = ps
  induction ps generalizing c n with
  | nil =>
    have all : c.unread = c.active := by rw [unread, left, List.flatten_nil, List.nil_append]
    have same : ({ c with active := c.active.drop n } : SegCursor).pieces = [] := left
    exact ⟨_, h.advance_nil left (by rwa [all] at enough), ⟨h.pos, h.offset⟩, rfl, by
      rw [unread, same, all, List.flatten_nil, List.nil_append]⟩
  | cons p ps ih =>
    have all : c.unread = p ++ (ps.flatten ++ c.active) := by
      rw [unread, left, List.flatten_cons, List.append_assoc]
    have rest : c.next.unread = ps.flatten ++ c.active := by
      rw [unread, pieces_next left]
      rfl
    by_cases zero : n = 0
    · subst zero
      refine ⟨c, ?_, h, rfl, rfl⟩
      rw [SegCursor.advance, if_pos rfl]
    · have step := h.advance_cons left zero
      by_cases below : n < p.length
      · obtain ⟨sound, left'⟩ := h.within left below
        refine ⟨_, by rw [step, if_pos below], sound, rfl, ?_⟩
        rw [unread, left', all, List.drop_append_of_le_length below.le, List.flatten_cons, List.append_assoc]
      · have total := congrArg List.length all
        rw [List.length_append, ← rest] at total
        have fits : n - p.length ≤ c.next.unread.length := by omega
        have cut : (p ++ (ps.flatten ++ c.active)).drop n = (ps.flatten ++ c.active).drop (n - p.length) := by
          rw [List.drop_append, List.drop_eq_nil_of_le (by omega), List.nil_append]
        obtain ⟨c', run, sound, segments, unread'⟩ := ih (h.next left) fits (pieces_next left)
        refine ⟨c', by rw [step, if_neg below, run], sound, segments, ?_⟩
        rw [unread', rest, all, cut]

/-! ## Slices -/

/-- All slices there are, the empty ones left out. -/
def slices (c : SegCursor) : List Bytes := (c.pieces ++ [c.active]).filter fun b => !b.isEmpty

theorem flatten_slices (c : SegCursor) : c.slices.flatten = c.unread := by
  have skip (l : List Bytes) : (l.filter fun b => !b.isEmpty).flatten = l.flatten := by
    induction l with
    | nil => rfl
    | cons b l ih => cases b <;> simp [ih]
  rw [slices, skip, unread, List.flatten_append, List.flatten_singleton]

theorem foldlM_addSlice (slots k : Nat) (rest dst : List Bytes) (fits : dst.length ≤ slots) :
    (rest.zipIdx (k + 1)).foldlM (c.addSlice slots) dst =
      some ((dst ++ rest.filter fun b => !b.isEmpty).take slots) := by
  induction rest generalizing dst k with
  | nil => simp [List.take_of_length_le fits]
  | cons b rest ih =>
    rw [List.zipIdx_cons, List.foldlM_cons, addSlice]
    by_cases full : slots ≤ dst.length
    · have same : dst.length = slots := by omega
      rw [if_pos full, Option.bind_eq_bind, Option.bind_some, ih _ _ fits, List.take_append_of_le_length full,
        List.take_append_of_le_length full]
    · rw [if_neg full, if_neg (by simp)]
      simp only [Option.bind_eq_bind, Option.bind_some]
      cases b with
      | nil => exact ih _ _ fits
      | cons x b =>
        have room : (dst ++ [x :: b]).length ≤ slots := by
          rw [List.length_append, List.length_singleton]
          omega
        rw [List.filter_cons_of_pos (by rfl), List.append_cons dst (x :: b) (rest.filter fun b => !b.isEmpty)]
        exact ih _ _ room

/-- The slots are filled with the slices in order. -/
theorem Sound.chunksVectored (h : c.Sound) (slots : Nat) : c.chunksVectored slots = some (c.slices.take slots) := by
  have loop : (c.segments.drop c.readPos).zipIdx.foldlM (c.addSlice slots) [] =
      some ((c.pieces.filter fun b => !b.isEmpty).take slots) := by
    rcases h.cases with ⟨behind, -, -, nothing⟩ | ⟨seg, rest, here, -, within, left⟩
    · rw [behind, nothing]
      simp
    · rw [here, left, List.zipIdx_cons, List.foldlM_cons, addSlice]
      by_cases full : slots ≤ ([] : List Bytes).length
      · obtain rfl : slots = 0 := by simpa using full
        rw [if_pos full, Option.bind_eq_bind, Option.bind_some, foldlM_addSlice _ _ _ _ (by simp)]
        simp
      · have cut : slice seg c.readOffset seg.length = some (seg.drop c.readOffset) :=
          slice_to_end (List.take_append_drop c.readOffset seg).symm (by simp [within])
        rw [if_neg full, if_pos rfl, cut]
        simp only [Option.bind_eq_bind, Option.bind_some]
        generalize seg.drop c.readOffset = b
        have room : 0 < slots := by
          rw [List.length_nil] at full
          omega
        cases b with
        | nil => exact foldlM_addSlice _ _ _ _ (by simp)
        | cons x b => exact foldlM_addSlice _ _ _ _ room
  rw [SegCursor.chunksVectored, h.unreadSegments, Option.bind_eq_bind, Option.bind_some, loop, Option.bind_some,
    slices, List.filter_append]
  generalize (c.pieces.filter fun b => !b.isEmpty) = l
  by_cases room : l.length < slots
  · have whole : l.take slots = l := List.take_of_length_le room.le
    rw [whole]
    cases c.active with
    | nil => simp [whole]
    | cons x b =>
      have all : (l ++ [x :: b]).take slots = l ++ [x :: b] := by
        refine List.take_of_length_le ?_
        rw [List.length_append, List.length_singleton]
        exact room
      simp [room, all]
  · have full : ¬(l.take slots).length < slots := by
      rw [List.length_take]
      omega
    rw [if_neg fun both => full both.1, List.take_append_of_le_length (by omega)]
    rfl

/-! ## One chunk after the other -/

theorem gap_cons_nil {ps : List Bytes} (left : c.pieces = [] :: ps) : c.Gap ↔ ps.flatten ++ c.active ≠ [] := by
  constructor
  · rintro ⟨a, z, split, behind⟩
    rw [left] at split
    cases a with
    | nil =>
      cases split
      exact behind
    | cons p a =>
      rw [List.cons_append] at split
      obtain rfl := (List.cons.inj split).2
      simp only [List.flatten_append, List.flatten_cons, List.append_assoc, ne_eq, List.append_eq_nil_iff] at behind ⊢
      tauto
  · exact fun behind => ⟨[], ps, left, behind⟩

theorem gap_next {p : Bytes} {ps : List Bytes} (left : c.pieces = p :: ps) (some_ : p ≠ []) : c.next.Gap ↔ c.Gap := by
  unfold Gap
  rw [pieces_next left, left]
  constructor
  · rintro ⟨a, z, rfl, behind⟩
    exact ⟨p :: a, z, rfl, behind⟩
  · rintro ⟨a, z, split, behind⟩
    cases a with
    | nil =>
      cases split
      exact (some_ rfl).elim
    | cons q a => exact ⟨a, z, (List.cons.inj split).2, behind⟩

/-- Nothing is left, the chunk is the active part, or it is the rest of a segment. -/
theorem Sound.advance_chunk {p : Bytes} {ps : List Bytes} (h : c.Sound) (left : c.pieces = p :: ps) (some_ : p ≠ []) :
    c.advance p.length = some c.next := by
  have length : p.length ≠ 0 := fun zero => some_ (List.length_eq_zero_iff.1 zero)
  rw [h.advance_cons left length, if_neg (by omega), Nat.sub_self, SegCursor.advance, if_pos rfl]

theorem Sound.drain_succ (h : c.Sound) (some_ : c.unread ≠ []) (n : Nat) :
    drain (n + 1) c = (c.advance (c.pieces.head?.getD c.active).length).bind fun c' =>
      (drain n c').map fun rest => c.pieces.head?.getD c.active ++ rest := by
  have length : c.unread.length ≠ 0 := fun zero => some_ (List.length_eq_zero_iff.1 zero)
  rw [drain, h.remaining, h.chunk]
  simp only [Option.bind_eq_bind, Option.bind_some, if_neg length, Option.map_eq_bind]
  rfl

/-- Without a gap the chunks are all that is left. -/
theorem Sound.drains (h : c.Sound) (closed : ¬c.Gap) : ∃ n, drain n c = some c.unread := by
  generalize left : c.pieces = ps
  induction ps generalizing c with
  | nil =>
    have all : c.unread = c.active := by rw [unread, left, List.flatten_nil, List.nil_append]
    by_cases nothing : c.unread = []
    · exact ⟨0, by rw [nothing]; rfl⟩
    · refine ⟨1, ?_⟩
      rw [h.drain_succ nothing, left, List.head?_nil, Option.getD_none, h.advance_nil left le_rfl, all]
      simp [drain]
  | cons p ps ih =>
    by_cases nothing : p = []
    · subst nothing
      have behind : ps.flatten ++ c.active = [] := by
        rw [gap_cons_nil left] at closed
        exact not_not.1 closed
      have all : c.unread = [] := by rw [unread, left, List.flatten_cons, List.nil_append, behind]
      exact ⟨0, by rw [all]; rfl⟩
    · have rest : c.unread = p ++ c.next.unread := by
        rw [unread, unread, pieces_next left, left, List.flatten_cons, List.append_assoc]
        rfl
      obtain ⟨n, run⟩ := ih (h.next left) (fun gap => closed ((gap_next left nothing).1 gap)) (pieces_next left)
      refine ⟨n + 1, ?_⟩
      have more : c.unread ≠ [] := by
        rw [rest]
        exact List.append_ne_nil_of_left_ne_nil nothing _
      rw [h.drain_succ more, left, List.head?_cons, Option.getD_some, h.advance_chunk left nothing, Option.bind_some,
        run, rest]
      rfl

theorem Sound.drain_of_gap (h : c.Sound) (gap : c.Gap) (n : Nat) : drain n c ≠ some c.unread := by
  have more : c.unread ≠ [] := by
    obtain ⟨a, z, split, behind⟩ := gap
    rw [unread, split, List.flatten_append, List.flatten_cons, List.nil_append, List.append_assoc]
    exact List.append_ne_nil_of_right_ne_nil _ behind
  induction n generalizing c with
  | zero => exact fun all => more (Option.some.inj all).symm
  | succ n ih =>
    obtain ⟨p, ps, left⟩ : ∃ p ps, c.pieces = p :: ps := by
      obtain ⟨a, z, split, -⟩ := gap
      cases a with
      | nil => exact ⟨_, _, split⟩
      | cons p a => exact ⟨_, _, split⟩
    rw [h.drain_succ more, left, List.head?_cons, Option.getD_some]
    by_cases nothing : p = []
    · subst nothing
      have same : c.advance ([] : Bytes).length = some c := by
        rw [SegCursor.advance]
        rfl
      rw [same, Option.bind_some]
      have stuck := ih h gap more
      simpa using stuck
    · have rest : c.unread = p ++ c.next.unread := by
        rw [unread, unread, pieces_next left, left, List.flatten_cons, List.append_assoc]
        rfl
      have gap' := (gap_next left nothing).2 gap
      have more' : c.next.unread ≠ [] := by
        obtain ⟨a, z, split, behind⟩ := gap'
        rw [unread, split, List.flatten_append, List.flatten_cons, List.nil_append, List.append_assoc]
        exact List.append_ne_nil_of_right_ne_nil _ behind
      have stuck := ih (h.next left) gap' more'
      rw [h.advance_chunk left nothing, Option.bind_some, rest]
      intro all
      obtain ⟨u, run, same⟩ := Option.map_eq_some_iff.1 all
      exact stuck (by rw [run, List.append_cancel_left same])

/-! ## Writing -/

theorem getElem?_append_some {l z : List Bytes} {i : Nat} {seg : Bytes} (here : l[i]? = some seg) :
    (l ++ z)[i]? = some seg := by
  rw [List.getElem?_append_left (List.getElem?_eq_some_iff.1 here).1, here]

/-- Segments may be added behind, and the active part changed. -/
theorem Sound.extend (h : c.Sound) {z : List Bytes} (segments : c'.segments = c.segments ++ z)
    (pos : c'.readPos = c.readPos) (offset : c'.readOffset = c.readOffset) : c'.Sound ∧ c'.pieces = c.pieces ++ z := by
  constructor
  · constructor
    · rw [pos, segments, List.length_append]
      exact h.pos.trans (Nat.le_add_right _ _)
    · rw [pos, offset, segments]
      exact h.offset.imp_right fun ⟨seg, here, below⟩ => ⟨seg, getElem?_append_some here, below⟩
  · have tail : c'.segments.drop c'.readPos = c.segments.drop c.readPos ++ z := by
      rw [segments, pos, List.drop_append_of_le_length h.pos]
    rcases h.cases with ⟨behind, -, zero, nothing⟩ | ⟨seg, rest, here, -, -, left⟩
    · rw [nothing, pieces, tail, behind, offset, zero]
      cases z <;> rfl
    · rw [left, pieces, tail, here, offset]
      rfl

/-- A write leaves the cursor where it is and adds bytes behind. -/
structure Wrote (c : SegCursor) (b : Bytes) (c' : SegCursor) : Prop where
  sound : c'.Sound
  unread : c'.unread = c.unread ++ b

theorem Sound.put (h : c.Sound) (b : Bytes) : Wrote c b (c.put b) := by
  obtain ⟨sound, left⟩ : (c.put b).Sound ∧ (c.put b).pieces = c.pieces ++ [] :=
    h.extend (List.append_nil _).symm rfl rfl
  rw [List.append_nil] at left
  refine ⟨sound, ?_⟩
  rw [SegCursor.unread, SegCursor.unread, left, List.append_assoc]
  rfl

theorem Sound.finalize (h : c.Sound) : Wrote c [] c.finalize := by
  rw [SegCursor.finalize, SegBuf.finalize]
  split
  · exact ⟨h, (List.append_nil _).symm⟩
  · let frozen : SegCursor := { c with toSegBuf := ⟨[], c.segments ++ [c.active]⟩ }
    obtain ⟨sound, left⟩ : frozen.Sound ∧ frozen.pieces = c.pieces ++ [c.active] := h.extend rfl rfl rfl
    refine ⟨sound, ?_⟩
    rw [SegCursor.unread, SegCursor.unread, left]
    simp

theorem Sound.pushRaw (h : c.Sound) (raw : Bytes) : Wrote c raw (c.pushRaw raw) := by
  obtain ⟨before, unread⟩ := h.finalize
  obtain ⟨sound, left⟩ : (c.pushRaw raw).Sound ∧ (c.pushRaw raw).pieces = c.finalize.pieces ++ [raw] :=
    before.extend rfl rfl rfl
  refine ⟨sound, ?_⟩
  have frozen : c.finalize.active = [] := by
    rw [SegCursor.finalize, SegBuf.finalize]
    split
    · rename_i empty
      exact List.isEmpty_iff.1 empty
    · rfl
  have same : (c.pushRaw raw).active = [] := frozen
  rw [List.append_nil] at unread
  rw [← unread, SegCursor.unread, SegCursor.unread, left, same, frozen]
  simp

/-! ## Runs -/

/-- What is done with the buffer while it is read. -/
inductive Use where
  | write (b : Bytes)
  | pushRaw (raw : Bytes)
  | finalize
  | advance (n : Nat)

/-- The uses so far, all bytes in write order, and how many were advanced over. -/
inductive Run : List Use → SegCursor → (written : Bytes) → (advanced : Nat) → Prop
  | new : Run [] .new [] 0
  | write {us c w k} (b) : Run us c w k → Run (us ++ [.write b]) (c.put b) (w ++ b) k
  | pushRaw {us c w k} (raw) : Run us c w k → Run (us ++ [.pushRaw raw]) (c.pushRaw raw) (w ++ raw) k
  | finalize {us c w k} : Run us c w k → Run (us ++ [.finalize]) c.finalize w k
  | advance {us c w k n left c'} : Run us c w k → c.remaining = some left → n ≤ left → c.advance n = some c' →
      Run (us ++ [.advance n]) c' w (k + n)

variable {us : List Use} {w : Bytes} {k : Nat}

/-- What is unread is the rest of what was written. -/
theorem Run.reads (run : Run us c w k) : c.Sound ∧ k ≤ w.length ∧ c.unread = w.drop k := by
  induction run with
  | new => exact ⟨sound_new, le_rfl, rfl⟩
  | @write us c w k b _ ih =>
    obtain ⟨sound, within, unread⟩ := ih
    have wrote := sound.put b
    refine ⟨wrote.sound, within.trans (by simp), ?_⟩
    rw [wrote.unread, unread, List.drop_append_of_le_length within]
  | @pushRaw us c w k raw _ ih =>
    obtain ⟨sound, within, unread⟩ := ih
    have wrote := sound.pushRaw raw
    refine ⟨wrote.sound, within.trans (by simp), ?_⟩
    rw [wrote.unread, unread, List.drop_append_of_le_length within]
  | finalize _ ih =>
    obtain ⟨sound, within, unread⟩ := ih
    have wrote := sound.finalize
    exact ⟨wrote.sound, within, by rw [wrote.unread, List.append_nil, unread]⟩
  | @advance us c w k n left c' _ remains enough run ih =>
    obtain ⟨sound, within, unread⟩ := ih
    rw [sound.remaining, Option.some_inj] at remains
    obtain ⟨c'', advanced⟩ := sound.advance (remains ▸ enough)
    have same : c' = c'' := Option.some.inj (run.symm.trans advanced.run)
    subst same
    have length := congrArg List.length unread
    rw [List.length_drop] at length
    exact ⟨advanced.sound, by omega, by rw [advanced.unread, unread, List.drop_drop]⟩

theorem Run.full (run : Run us c w k) (some_ : ∀ raw, .pushRaw raw ∈ us → raw ≠ []) : ∀ seg ∈ c.segments, seg ≠ [] := by
  have frozen {c : SegCursor} (all : ∀ seg ∈ c.segments, seg ≠ []) : ∀ seg ∈ c.finalize.segments, seg ≠ [] := by
    rw [SegCursor.finalize, SegBuf.finalize]
    split
    · exact all
    · rename_i active
      intro seg mem
      rcases List.mem_append.1 mem with there | last
      · exact all seg there
      · rw [List.mem_singleton.1 last]
        exact fun empty => active (List.isEmpty_iff.2 empty)
  induction run with
  | new =>
    intro seg mem
    cases mem
  | write b _ ih => exact ih fun raw mem => some_ raw (List.mem_append_left _ mem)
  | @pushRaw us c w k raw _ ih =>
    have before := frozen (ih fun raw mem => some_ raw (List.mem_append_left _ mem))
    intro seg mem
    rcases List.mem_append.1 mem with there | last
    · exact before seg there
    · rw [List.mem_singleton.1 last]
      exact some_ raw (by simp)
  | finalize _ ih => exact frozen (ih fun raw mem => some_ raw (List.mem_append_left _ mem))
  | @advance us c w k n left c' before remains enough run ih =>
    have sound := before.reads.1
    rw [sound.remaining, Option.some_inj] at remains
    obtain ⟨c'', advanced⟩ := sound.advance (remains ▸ enough)
    have same : c' = c'' := Option.some.inj (run.symm.trans advanced.run)
    subst same
    rw [advanced.segments]
    exact ih fun raw mem => some_ raw (List.mem_append_left _ mem)

theorem Sound.not_gap (h : c.Sound) (full : ∀ seg ∈ c.segments, seg ≠ []) : ¬c.Gap := by
  rintro ⟨a, z, split, -⟩
  have empty : [] ∈ c.pieces := by
    rw [split]
    simp
  have later (rest : List Bytes) {seg : Bytes} (from_ : c.segments.drop c.readPos = seg :: rest) : [] ∉ rest := by
    intro mem
    have there : [] ∈ c.segments.drop c.readPos := by
      rw [from_]
      exact .tail _ mem
    exact full [] (List.mem_of_mem_drop there) rfl
  rcases h.cases with ⟨-, -, -, nothing⟩ | ⟨seg, rest, from_, here, within, left⟩
  · rw [nothing] at empty
    cases empty
  · rw [left] at empty
    rcases List.mem_cons.1 empty with first | mem
    · have through : seg.length ≤ c.readOffset := List.drop_eq_nil_iff.1 first.symm
      rcases h.offset with zero | ⟨seg', at_, below⟩
      · have nothing : seg = [] := List.length_eq_zero_iff.1 (by omega)
        exact full seg (List.mem_of_getElem? here) nothing
      · rw [here, Option.some_inj] at at_
        subst at_
        omega
    · exact later rest from_ mem

/-! ## What readers rely on -/

/-- What a reader relies on that advances as it likes, or takes the slices. -/
structure Faithful (c : SegCursor) (w : Bytes) (k : Nat) : Prop where
  remaining : c.remaining = some (w.drop k).length
  chunk : ∃ b, c.chunk = some b ∧ b <+: w.drop k
  advance : ∀ n ≤ (w.drop k).length, (c.advance n).isSome
  vectored : ∀ slots, c.chunksVectored slots = some (c.slices.take slots)
  slices : c.slices.flatten = w.drop k

/-- What a reader relies on that takes one chunk after the other. -/
structure Chunked (c : SegCursor) (w : Bytes) (k : Nat) : Prop where
  nonempty : w.drop k ≠ [] → c.chunk ≠ some []
  spells : ∃ n, drain n c = some (w.drop k)

theorem Run.faithful (run : Run us c w k) : Faithful c w k := by
  obtain ⟨sound, -, unread⟩ := run.reads
  refine ⟨by rw [sound.remaining, unread], ⟨_, sound.chunk, ?_⟩, fun n enough => ?_, sound.chunksVectored, ?_⟩
  · rw [← unread, SegCursor.unread]
    cases c.pieces with
    | nil => exact List.prefix_rfl
    | cons p ps =>
      rw [List.flatten_cons, List.append_assoc]
      exact List.prefix_append _ _
  · rw [← unread] at enough
    obtain ⟨c', advanced⟩ := sound.advance enough
    rw [advanced.run]
    rfl
  · rw [flatten_slices, unread]

theorem Run.chunked_iff (run : Run us c w k) : Chunked c w k ↔ ¬c.Gap := by
  obtain ⟨sound, -, unread⟩ := run.reads
  constructor
  · rintro ⟨-, n, spells⟩ gap
    rw [← unread] at spells
    exact sound.drain_of_gap gap n spells
  · intro closed
    refine ⟨?_, ?_⟩
    · rw [← unread, sound.chunk]
      intro more empty
      cases left : c.pieces with
      | nil =>
        rw [left] at empty
        have nothing : c.active = [] := Option.some.inj empty
        exact more (by rw [SegCursor.unread, left, nothing]; rfl)
      | cons p ps =>
        rw [left] at empty
        obtain rfl : p = [] := Option.some.inj empty
        rw [gap_cons_nil left, not_not] at closed
        exact more (by rw [SegCursor.unread, left, List.flatten_cons, List.nil_append, closed])
    · rw [← unread]
      exact sound.drains closed

/-- **In every run a `SegBuf` has, in order and within range, what was written and not yet read, and its chunks are all
of it exactly where no empty segment has bytes behind it.** Without an empty `push_raw` there is none. -/
theorem seg_buf_iff {us : List Use} {c : SegCursor} {w : Bytes} {k : Nat} (run : Run us c w k) :
    Faithful c w k ∧ (Chunked c w k ↔ ¬c.Gap) ∧ ((∀ raw, .pushRaw raw ∈ us → raw ≠ []) → Chunked c w k) :=
  ⟨run.faithful, run.chunked_iff, fun some_ => run.chunked_iff.2 (run.reads.1.not_gap (run.full some_))⟩

/-- A write, a segment behind it, and an advance into the segment. -/
theorem seg_buf_within : Chunked ⟨⟨[], [[97], [98, 99]]⟩, 1, 1⟩ [97, 98, 99] 2 := by
  have written : Run [.write [97], .pushRaw [98, 99]] ⟨⟨[], [[97], [98, 99]]⟩, 0, 0⟩ [97, 98, 99] 0 :=
    .pushRaw [98, 99] (.write [97] .new)
  have run : Run [.write [97], .pushRaw [98, 99], .advance 2] ⟨⟨[], [[97], [98, 99]]⟩, 1, 1⟩ [97, 98, 99] 2 := by
    have left : (⟨⟨[], [[97], [98, 99]]⟩, 0, 0⟩ : SegCursor).remaining = some 3 := rfl
    refine .advance written left (by decide) ?_
    simp [SegCursor.advance, checkedSub]
  refine (seg_buf_iff run).2.2 fun raw mem => ?_
  simp at mem
  simp [mem]

/-- An empty segment and a byte behind it: one byte remains, and the chunk is empty. -/
theorem seg_buf_empty_chunk : ¬∀ us c w k, Run us c w k → Chunked c w k := by
  intro claim
  have run : Run [.pushRaw [], .write [97]] ⟨⟨[97], [[]]⟩, 0, 0⟩ [97] 0 := .write [97] (.pushRaw [] .new)
  exact (claim _ _ _ _ run).nonempty (by decide) rfl

end SegCursor

end NexradeCache
