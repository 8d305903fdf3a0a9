import NexradeCache.Lib.Bytes
import NexradeCache.Lib.CommonSubsequence
import NexradeCache.Lib.Loop

/-!
# The longest common subsequence of two strings (`nexrade-core/src/command/string.rs`)

LCS fills a table of the lengths for all pairs of prefixes, walks back through it, and collapses what it passes into
ranges. An access outside the table or the strings is `none`, the panic of an index; `computeLcs_correct` shows that
there is none.
-/

namespace NexradeCache

namespace Lcs

open CommonSubsequence

/-! ## The code -/

/-- A contiguous range of matches, `a[aStart..aEnd]` and `b[bStart..bEnd]`. -/
structure LcsMatch where
  aStart : Nat
  aEnd : Nat
  bStart : Nat
  bEnd : Nat
deriving DecidableEq, Repr

abbrev Table := List (List Nat)

def readCell (dp : Table) (i j : Nat) : Option Nat := do
  let row ← dp[i]?
  row[j]?

def writeCell (dp : Table) (i j v : Nat) : Option Table := do
  let row ← dp[i]?
  if j < row.length then some (dp.set i (row.set j v)) else none

/-- One pass of the inner loop. -/
def fillCell (a b : Bytes) (i : Nat) (dp : Table) (j : Nat) : Option Table := do
  let x ← a[i - 1]?
  let y ← b[j - 1]?
  if x = y then
    let v ← readCell dp (i - 1) (j - 1)
    writeCell dp i j (v + 1)
  else
    let up ← readCell dp (i - 1) j
    let left ← readCell dp i (j - 1)
    writeCell dp i j (max up left)

def fillRow (a b : Bytes) (dp : Table) (i : Nat) : Option Table :=
  (List.range' 1 b.length).foldlM (fillCell a b i) dp

def fill (a b : Bytes) : Option Table :=
  (List.range' 1 a.length).foldlM (fillRow a b) (List.replicate (a.length + 1) (List.replicate (b.length + 1) 0))

/-- The walk back from `i` and `j`, with the pairs pushed so far. -/
def backtrack (a b : Bytes) (dp : Table) (i j : Nat) (pairs : List (Nat × Nat)) : Option (List (Nat × Nat)) :=
  match i, j with
  | 0, _ => some pairs
  | _ + 1, 0 => some pairs
  | i + 1, j + 1 => do
    let x ← a[i]?
    let y ← b[j]?
    if x = y then backtrack a b dp i j (pairs ++ [(i, j)])
    else
      let up ← readCell dp i (j + 1)
      let left ← readCell dp (i + 1) j
      if left ≤ up then backtrack a b dp i (j + 1) pairs else backtrack a b dp (i + 1) j pairs
termination_by i + j

/-- One pass of the loop that collapses: the ranges that are done, and the current one. -/
def collapseStep (acc : List LcsMatch × LcsMatch) (p : Nat × Nat) : List LcsMatch × LcsMatch :=
  let (done, r) := acc
  if p.1 = r.aEnd ∧ p.2 = r.bEnd then (done, { r with aEnd := r.aEnd + 1, bEnd := r.bEnd + 1 })
  else (done ++ [r], ⟨p.1, p.1 + 1, p.2, p.2 + 1⟩)

/-- Consecutive alignments become ranges. -/
def collapse : List (Nat × Nat) → List LcsMatch
  | [] => []
  | p :: ps =>
    let (done, r) := ps.foldl collapseStep ([], ⟨p.1, p.1 + 1, p.2, p.2 + 1⟩)
    done ++ [r]

def computeLcs (a b : Bytes) : Option (Bytes × List LcsMatch) := do
  let dp ← fill a b
  let pairs ← backtrack a b dp a.length b.length []
  let pairs := pairs.reverse
  let lcsBytes ← pairs.mapM fun p => a[p.1]?
  return (lcsBytes, collapse pairs)

/-! ## What it should return -/

/-- The pairs of positions of a range. -/
def LcsMatch.pairs (r : LcsMatch) : List (Nat × Nat) :=
  (List.range (r.aEnd - r.aStart)).map fun k => (r.aStart + k, r.bStart + k)

/-- The ranges spell a longest common subsequence. -/
structure Correct (a b lcs : Bytes) (ranges : List LcsMatch) : Prop where
  left : lcs.Sublist a
  right : lcs.Sublist b
  longest : ∀ s : Bytes, s.Sublist a → s.Sublist b → s.length ≤ lcs.length
  /-- No range is empty, and both parts of it are there and are equal. -/
  equal : ∀ r ∈ ranges, r.aStart < r.aEnd ∧ r.aEnd - r.aStart = r.bEnd - r.bStart ∧
    ∃ part, Bytes.slice a r.aStart r.aEnd = some part ∧ Bytes.slice b r.bStart r.bEnd = some part
  disjoint : ranges.Pairwise fun r q => r.aEnd ≤ q.aStart ∧ r.bEnd ≤ q.bStart
  /-- No range goes on in the next one. -/
  maximal : ranges.IsChain fun r q => ¬(r.aEnd = q.aStart ∧ r.bEnd = q.bStart)
  spells : ∃ parts, ranges.mapM (fun r => Bytes.slice a r.aStart r.aEnd) = some parts ∧ parts.flatten = lcs

/-! ## The table -/

/-- The table has rows `0..=n` and columns `0..=m`, and these numbers in its cells. -/
structure Holds (dp : Table) (n m : Nat) (f : Nat → Nat → Nat) : Prop where
  rows : dp.length = n + 1
  columns : ∀ row ∈ dp, row.length = m + 1
  cells : ∀ r c, r ≤ n → c ≤ m → readCell dp r c = some (f r c)

variable {a b : Bytes} {dp : Table} {n m i j : Nat} {f g : Nat → Nat → Nat}

theorem Holds.congr (holds : Holds dp n m f) (same : ∀ r c, r ≤ n → c ≤ m → f r c = g r c) : Holds dp n m g where
  rows := holds.rows
  columns := holds.columns
  cells r c inR inC := by rw [holds.cells r c inR inC, same r c inR inC]

theorem Holds.write (holds : Holds dp n m f) (inI : i ≤ n) (inJ : j ≤ m) (v : Nat) :
    ∃ dp', writeCell dp i j v = some dp' ∧ Holds dp' n m fun r c => if r = i ∧ c = j then v else f r c := by
  have inside : i < dp.length := by
    rw [holds.rows]
    omega
  have width : dp[i].length = m + 1 := holds.columns _ (List.getElem_mem inside)
  refine ⟨dp.set i (dp[i].set j v), ?_, ?_, ?_, fun r c inR inC => ?_⟩
  · simp [writeCell, inside, width]
    omega
  · rw [List.length_set, holds.rows]
  · intro row mem
    rcases List.mem_or_eq_of_mem_set mem with old | rfl
    · exact holds.columns row old
    · rw [List.length_set, width]
  · have old := holds.cells r c inR inC
    unfold readCell at old ⊢
    rw [List.getElem?_set]
    by_cases row : i = r
    · subst row
      rw [List.getElem?_eq_getElem inside] at old
      simp only [if_true, inside, Option.bind_eq_bind, Option.bind_some, true_and, List.getElem?_set] at old ⊢
      by_cases column : j = c
      · subst column
        rw [if_pos rfl, if_pos rfl, if_pos (by omega)]
      · rw [if_neg column, if_neg (Ne.symm column), old]
    · rw [if_neg row, if_neg fun both => row both.1.symm]
      exact old

theorem replicate_holds (n m : Nat) :
    Holds (List.replicate (n + 1) (List.replicate (m + 1) 0)) n m fun _ _ => 0 where
  rows := by simp
  columns row mem := by simp [List.eq_of_mem_replicate mem]
  cells r c inR inC := by
    have row : r < n + 1 := by omega
    have column : c < m + 1 := by omega
    simp [readCell, row, column]

/-- What the table holds when rows up to `i` and, of the next row, columns up to `j` are filled. -/
def stage (a b : Bytes) (i j : Nat) : Nat → Nat → Nat := fun r c =>
  if r ≤ i ∨ r = i + 1 ∧ c ≤ j then commonLength a b r c else 0

theorem stage_zero (a b : Bytes) (r c : Nat) : stage a b 0 0 r c = 0 := by
  unfold stage
  split
  · rename_i filled
    rcases filled with first | ⟨-, first⟩
    · obtain rfl : r = 0 := by omega
      rw [commonLength]
    · obtain rfl : c = 0 := by omega
      exact commonLength_zero a b r
  · rfl

theorem fillCell_holds (holds : Holds dp a.length b.length (stage a b i j)) (inI : i < a.length) (inJ : j < b.length) :
    ∃ dp', fillCell a b (i + 1) dp (j + 1) = some dp' ∧ Holds dp' a.length b.length (stage a b i (j + 1)) := by
  have written : ∀ v, v = commonLength a b (i + 1) (j + 1) → ∃ dp', writeCell dp (i + 1) (j + 1) v = some dp' ∧
      Holds dp' a.length b.length (stage a b i (j + 1)) := by
    rintro v rfl
    obtain ⟨dp', writes, holds'⟩ := holds.write (i := i + 1) (j := j + 1) inI inJ (commonLength a b (i + 1) (j + 1))
    refine ⟨dp', writes, holds'.congr fun r c _ _ => ?_⟩
    unfold stage
    by_cases here : r = i + 1 ∧ c = j + 1
    · rw [if_pos here, if_pos (by omega), here.1, here.2]
    · rw [if_neg here]
      congr 1
      rw [eq_iff_iff]
      omega
  have diagonal : readCell dp i j = some (commonLength a b i j) := by
    rw [holds.cells i j (by omega) (by omega), stage, if_pos (by omega)]
  have above : readCell dp i (j + 1) = some (commonLength a b i (j + 1)) := by
    rw [holds.cells i (j + 1) (by omega) (by omega), stage, if_pos (by omega)]
  have before : readCell dp (i + 1) j = some (commonLength a b (i + 1) j) := by
    rw [holds.cells (i + 1) j (by omega) (by omega), stage, if_pos (by omega)]
  have recurrence := commonLength_succ a b i j
  unfold fillCell
  simp only [Nat.add_sub_cancel, List.getElem?_eq_getElem inI, List.getElem?_eq_getElem inJ, Option.bind_eq_bind,
    Option.bind_some, diagonal, above, before, Option.some_inj] at recurrence ⊢
  by_cases same : a[i] = b[j]
  · rw [if_pos same] at recurrence ⊢
    exact written _ recurrence.symm
  · rw [if_neg same] at recurrence ⊢
    exact written _ recurrence.symm

/-- The table is filled with the recurrence, and no access lies outside. -/
theorem fill_holds (a b : Bytes) : ∃ dp, fill a b = some dp ∧ Holds dp a.length b.length (commonLength a b) := by
  have row : ∀ i dp, i < a.length → Holds dp a.length b.length (stage a b i 0) →
      ∃ dp', fillRow a b dp (i + 1) = some dp' ∧ Holds dp' a.length b.length (stage a b (i + 1) 0) := by
    intro i dp inI holds
    obtain ⟨dp', fills, holds'⟩ := List.foldlM_range'_of_pass (I := fun j dp => Holds dp a.length b.length (stage a b i j))
      (fun j dp inJ holds => fillCell_holds holds inI inJ) holds
    refine ⟨dp', fills, holds'.congr fun r c _ inC => ?_⟩
    unfold stage
    by_cases filled : r ≤ i + 1
    · rw [if_pos (by omega), if_pos (by omega)]
    · by_cases next : r = i + 1 + 1 ∧ c = 0
      · rw [if_neg (by omega), if_pos (by omega), next.2, commonLength_zero]
      · rw [if_neg (by omega), if_neg (by omega)]
  have start := (replicate_holds a.length b.length).congr fun r c _ _ => (stage_zero a b r c).symm
  obtain ⟨dp, fills, holds⟩ := List.foldlM_range'_of_pass (I := fun i dp => Holds dp a.length b.length (stage a b i 0))
    (fun i dp inI holds => row i dp inI holds) start
  exact ⟨dp, fills, holds.congr fun r c inR _ => if_pos (.inl inR)⟩

/-! ## The walk back -/

theorem backtrack_aligns (holds : Holds dp a.length b.length (commonLength a b)) (inI : i ≤ a.length)
    (inJ : j ≤ b.length) (pairs : List (Nat × Nat)) : ∃ ps, backtrack a b dp i j pairs = some (pairs ++ ps.reverse) ∧
      Alignment a b i j ps ∧ ps.length = commonLength a b i j := by
  fun_induction backtrack a b dp i j pairs with
  | case1 j pairs => exact ⟨[], by simp, .nil _ _, by simp [commonLength]⟩
  | case2 i pairs => exact ⟨[], by simp, .nil _ _, by simp⟩
  | case3 pairs i j diagonal up across =>
    have inI : i < a.length := inI
    have inJ : j < b.length := inJ
    have above := holds.cells i (j + 1) (by omega) (by omega)
    have before := holds.cells (i + 1) j (by omega) (by omega)
    have recurrence := commonLength_succ a b i j
    simp only [List.getElem?_eq_getElem inI, List.getElem?_eq_getElem inJ, Option.bind_eq_bind, Option.bind_some, above,
      before, Option.some_inj] at recurrence ⊢
    by_cases same : a[i] = b[j]
    · rw [if_pos same] at recurrence ⊢
      obtain ⟨ps, walks, aligned, length⟩ := diagonal (by omega) (by omega)
      refine ⟨ps ++ [(i, j)], ?_, aligned.snoc (List.getElem?_eq_getElem inI) (same ▸ List.getElem?_eq_getElem inJ), ?_⟩
      · rw [walks]
        simp
      · rw [recurrence, List.length_append, length]
        rfl
    · rw [if_neg same] at recurrence ⊢
      by_cases larger : commonLength a b (i + 1) j ≤ commonLength a b i (j + 1)
      · rw [if_pos larger]
        obtain ⟨ps, walks, aligned, length⟩ := up (by omega) (by omega)
        exact ⟨ps, walks, aligned.left, by rw [recurrence, length, max_eq_left larger]⟩
      · rw [if_neg larger]
        obtain ⟨ps, walks, aligned, length⟩ := across (by omega) (by omega)
        exact ⟨ps, walks, aligned.right, by rw [recurrence, length, max_eq_right (by omega)]⟩

/-! ## The ranges -/

/-- A range is not empty, and as long in both strings. -/
def LcsMatch.Sized (r : LcsMatch) : Prop := r.aStart < r.aEnd ∧ r.aEnd - r.aStart = r.bEnd - r.bStart

/-- Ranges of these pairs, none of which goes on in the next. -/
structure Collapsed (ps : List (Nat × Nat)) (ranges : List LcsMatch) : Prop where
  pairs : ranges.flatMap LcsMatch.pairs = ps
  sized : ∀ r ∈ ranges, r.Sized
  maximal : ranges.IsChain fun r q => ¬(r.aEnd = q.aStart ∧ r.bEnd = q.bStart)

/-- The range of one pair. -/
def LcsMatch.single (p : Nat × Nat) : LcsMatch := ⟨p.1, p.1 + 1, p.2, p.2 + 1⟩

theorem LcsMatch.pairs_single (p : Nat × Nat) : (LcsMatch.single p).pairs = [p] := by
  simp [LcsMatch.pairs, LcsMatch.single]

theorem LcsMatch.single_sized (p : Nat × Nat) : (LcsMatch.single p).Sized := by
  simp [LcsMatch.Sized, LcsMatch.single]

/-- A range that takes in the pair behind it. -/
def LcsMatch.grown (r : LcsMatch) : LcsMatch := { r with aEnd := r.aEnd + 1, bEnd := r.bEnd + 1 }

theorem LcsMatch.pairs_grown {r : LcsMatch} (sized : r.Sized) : r.grown.pairs = r.pairs ++ [(r.aEnd, r.bEnd)] := by
  obtain ⟨some, same⟩ := sized
  have longer : r.aEnd + 1 - r.aStart = r.aEnd - r.aStart + 1 := by omega
  have endA : r.aStart + (r.aEnd - r.aStart) = r.aEnd := by omega
  have endB : r.bStart + (r.aEnd - r.aStart) = r.bEnd := by omega
  simp [LcsMatch.pairs, LcsMatch.grown, longer, List.range_succ, endA, endB]

theorem LcsMatch.grown_sized {r : LcsMatch} (sized : r.Sized) : r.grown.Sized := by
  obtain ⟨some, same⟩ := sized
  unfold LcsMatch.Sized LcsMatch.grown
  dsimp only
  omega

theorem collapseStep_collapsed {ps : List (Nat × Nat)} {done : List LcsMatch} {r : LcsMatch} (p : Nat × Nat)
    (h : Collapsed ps (done ++ [r])) :
    Collapsed (ps ++ [p]) ((collapseStep (done, r) p).1 ++ [(collapseStep (done, r) p).2]) := by
  have sized : r.Sized := h.sized r (by simp)
  have pairs := h.pairs
  rw [List.flatMap_append, List.flatMap_singleton] at pairs
  have chain := List.isChain_append.1 h.maximal
  by_cases next : p.1 = r.aEnd ∧ p.2 = r.bEnd
  · have step : collapseStep (done, r) p = (done, r.grown) := if_pos next
    have is : p = (r.aEnd, r.bEnd) := Prod.ext next.1 next.2
    rw [step]
    refine ⟨?_, fun q mem => ?_, List.isChain_append.2 ⟨chain.1, .singleton _, fun x last y head => ?_⟩⟩
    · rw [List.flatMap_append, List.flatMap_singleton, LcsMatch.pairs_grown sized, ← List.append_assoc, pairs, is]
    · rcases List.mem_append.1 mem with old | new
      · exact h.sized q (by simp [old])
      · obtain rfl := List.mem_singleton.1 new
        exact LcsMatch.grown_sized sized
    · -- the range begins where it did
      obtain rfl : r.grown = y := Option.some.inj head
      exact chain.2.2 x last r rfl
  · have step : collapseStep (done, r) p = (done ++ [r], LcsMatch.single p) := if_neg next
    rw [step]
    refine ⟨?_, fun q mem => ?_, List.isChain_append.2 ⟨h.maximal, .singleton _, fun x last y head => ?_⟩⟩
    · rw [List.flatMap_append, List.flatMap_append, List.flatMap_singleton, List.flatMap_singleton, pairs,
        LcsMatch.pairs_single]
    · rcases List.mem_append.1 mem with old | new
      · exact h.sized q old
      · obtain rfl := List.mem_singleton.1 new
        exact LcsMatch.single_sized p
    · obtain rfl : r = x := by simpa using last
      obtain rfl : LcsMatch.single p = y := Option.some.inj head
      exact fun adjacent => next ⟨adjacent.1.symm, adjacent.2.symm⟩

theorem collapse_collapsed (ps : List (Nat × Nat)) : Collapsed ps (collapse ps) := by
  cases ps with
  | nil => exact ⟨rfl, by simp [collapse], .nil⟩
  | cons p ps =>
    have run : ∀ (qs before : List (Nat × Nat)) (acc : List LcsMatch × LcsMatch), Collapsed before (acc.1 ++ [acc.2]) →
        Collapsed (before ++ qs) ((qs.foldl collapseStep acc).1 ++ [(qs.foldl collapseStep acc).2]) := by
      intro qs
      induction qs with
      | nil => exact fun before acc h => by simpa using h
      | cons q qs ih =>
        intro before acc h
        have rest := ih _ _ (collapseStep_collapsed q h)
        simpa using rest
    have start : Collapsed [p] ([] ++ [LcsMatch.single p]) := by
      refine ⟨by simp [LcsMatch.pairs_single], fun q mem => ?_, .singleton _⟩
      obtain rfl := List.mem_singleton.1 mem
      exact LcsMatch.single_sized p
    exact run ps [p] ([], LcsMatch.single p) start


theorem LcsMatch.mem_pairs {r : LcsMatch} {p : Nat × Nat} :
    p ∈ r.pairs ↔ ∃ k < r.aEnd - r.aStart, p = (r.aStart + k, r.bStart + k) := by
  simp [LcsMatch.pairs, eq_comm]

/-- Reading position after position is taking a slice. -/
theorem mapM_range (l : Bytes) {lo n : Nat} (inside : lo + n ≤ l.length) :
    (List.range n).mapM (fun k => l[lo + k]?) = some ((l.take (lo + n)).drop lo) := by
  induction n with
  | zero => simp
  | succ n ih =>
    have there : lo + n < l.length := by omega
    rw [List.range_succ, List.mapM_append, ih (by omega)]
    have longer : l.take (lo + (n + 1)) = l.take (lo + n) ++ [l[lo + n]] := List.take_succ_eq_append_getElem there
    rw [longer, List.drop_append_of_le_length (by rw [List.length_take]; omega)]
    simp [there]

theorem slice_of_last {l : Bytes} {lo hi : Nat} (positive : lo < hi) {x : UInt8} (last : l[lo + (hi - lo - 1)]? = some x) :
    ∃ part, Bytes.slice l lo hi = some part ∧ (List.range (hi - lo)).mapM (fun k => l[lo + k]?) = some part := by
  obtain ⟨inside, -⟩ := List.getElem?_eq_some_iff.1 last
  have whole : lo + (hi - lo) = hi := by omega
  have positions : (List.range (hi - lo)).mapM (fun k => l[lo + k]?) = some ((l.take (lo + (hi - lo))).drop lo) :=
    mapM_range l (by omega)
  rw [whole] at positions
  exact ⟨_, if_pos (by omega), positions⟩

theorem LcsMatch.slice_left {r : LcsMatch} (sized : r.Sized) (reads : ∀ p ∈ r.pairs, ∃ x, a[p.1]? = some x) :
    ∃ part, Bytes.slice a r.aStart r.aEnd = some part ∧ r.pairs.mapM (fun p => a[p.1]?) = some part := by
  obtain ⟨positive, same⟩ := sized
  obtain ⟨x, last⟩ := reads _ (LcsMatch.mem_pairs.2 ⟨r.aEnd - r.aStart - 1, by omega, rfl⟩)
  rw [LcsMatch.pairs, List.mapM_map]
  exact slice_of_last positive last

theorem LcsMatch.slice_right {r : LcsMatch} (sized : r.Sized) (reads : ∀ p ∈ r.pairs, ∃ x, b[p.2]? = some x) :
    ∃ part, Bytes.slice b r.bStart r.bEnd = some part ∧ r.pairs.mapM (fun p => b[p.2]?) = some part := by
  obtain ⟨positive, same⟩ := sized
  obtain ⟨x, last⟩ := reads _ (LcsMatch.mem_pairs.2 ⟨r.aEnd - r.aStart - 1, by omega, rfl⟩)
  rw [LcsMatch.pairs, List.mapM_map, same]
  rw [same] at last
  exact slice_of_last (by omega) last

theorem mapM_congr {α β : Type} {f g : α → Option β} {l : List α} (same : ∀ x ∈ l, f x = g x) : l.mapM f = l.mapM g := by
  induction l with
  | nil => rfl
  | cons x l ih => rw [List.mapM_cons, List.mapM_cons, same x (by simp), ih fun y mem => same y (by simp [mem])]

variable {ps : List (Nat × Nat)} {ranges : List LcsMatch}

theorem Collapsed.disjoint (h : Collapsed ps ranges) (increasing : ps.Pairwise fun p q => p.1 < q.1 ∧ p.2 < q.2) :
    ranges.Pairwise fun r q => r.aEnd ≤ q.aStart ∧ r.bEnd ≤ q.bStart := by
  rw [← h.pairs, List.pairwise_flatMap] at increasing
  refine increasing.2.imp_of_mem fun {r q} inR inQ apart => ?_
  obtain ⟨some, same⟩ := h.sized r inR
  obtain ⟨some', same'⟩ := h.sized q inQ
  have less := apart _ (LcsMatch.mem_pairs.2 ⟨r.aEnd - r.aStart - 1, by omega, rfl⟩) _
    (LcsMatch.mem_pairs.2 ⟨0, by omega, rfl⟩)
  dsimp only at less
  omega

theorem spells_of_reads (sized : ∀ r ∈ ranges, r.Sized)
    (there : ∀ r ∈ ranges, ∀ p ∈ r.pairs, ∃ x, a[p.1]? = some x) {lcs : Bytes}
    (reads : (ranges.flatMap LcsMatch.pairs).mapM (fun p => a[p.1]?) = some lcs) :
    ∃ parts, ranges.mapM (fun r => Bytes.slice a r.aStart r.aEnd) = some parts ∧ parts.flatten = lcs := by
  induction ranges generalizing lcs with
  | nil =>
    cases reads
    exact ⟨[], rfl, rfl⟩
  | cons r rs ih =>
    rw [List.flatMap_cons, List.mapM_append] at reads
    obtain ⟨part, first, reads⟩ := Option.bind_eq_some_iff.1 reads
    obtain ⟨lcs', rest, is⟩ := Option.bind_eq_some_iff.1 reads
    obtain rfl := Option.some.inj is
    obtain ⟨parts, slices, flat⟩ := ih (fun q mem => sized q (by simp [mem])) (fun q mem => there q (by simp [mem])) rest
    obtain ⟨part', slice, first'⟩ := LcsMatch.slice_left (sized r (by simp)) (there r (by simp))
    obtain rfl := Option.some.inj (first.symm.trans first')
    exact ⟨part :: parts, by simp [slice, slices], by simp [flat]⟩

/-- **The result is a longest common subsequence, spelled by disjoint maximal ranges, and every access is inside.**
The table is filled row by row; each of its fields is the length of a longest common subsequence of two prefixes,
and the way back through it spells one, each step of which is a match or a field of equal length. -/
theorem computeLcs_correct (a b : Bytes) : ∃ lcs ranges, computeLcs a b = some (lcs, ranges) ∧ Correct a b lcs ranges := by
  obtain ⟨dp, fills, holds⟩ := fill_holds a b
  obtain ⟨ps, walks, aligned, length⟩ := backtrack_aligns holds le_rfl le_rfl []
  obtain ⟨lcs, reads, same, left, right⟩ := aligned.sublists
  rw [List.take_length] at left right
  have collapsed := collapse_collapsed ps
  have equal : ∀ r ∈ collapse ps, ∀ p ∈ r.pairs, ∃ x, a[p.1]? = some x ∧ b[p.2]? = some x := by
    intro r mem p inside
    have pair : p ∈ (collapse ps).flatMap LcsMatch.pairs := List.mem_flatMap.2 ⟨r, mem, inside⟩
    rw [collapsed.pairs] at pair
    exact aligned.equal p pair
  have readsA : ∀ r ∈ collapse ps, ∀ p ∈ r.pairs, ∃ x, a[p.1]? = some x := fun r mem p inside =>
    (equal r mem p inside).imp fun _ h => h.1
  have readsB : ∀ r ∈ collapse ps, ∀ p ∈ r.pairs, ∃ x, b[p.2]? = some x := fun r mem p inside =>
    (equal r mem p inside).imp fun _ h => h.2
  have spelled : ((collapse ps).flatMap LcsMatch.pairs).mapM (fun p => a[p.1]?) = some lcs := by
    rw [collapsed.pairs, reads]
  refine ⟨lcs, collapse ps, by simp [computeLcs, fills, walks, reads], left, right, fun s inA inB => ?_, fun r mem => ?_,
    collapsed.disjoint aligned.increasing, collapsed.maximal, spells_of_reads collapsed.sized readsA spelled⟩
  · rw [same, length]
    exact length_le_commonLength le_rfl le_rfl (by rwa [List.take_length]) (by rwa [List.take_length])
  · have sized := collapsed.sized r mem
    obtain ⟨part, slice, readsPart⟩ := LcsMatch.slice_left sized (readsA r mem)
    obtain ⟨part', slice', readsPart'⟩ := LcsMatch.slice_right sized (readsB r mem)
    have both : r.pairs.mapM (fun p => a[p.1]?) = r.pairs.mapM fun p => b[p.2]? := by
      refine mapM_congr fun p inside => ?_
      obtain ⟨x, atA, atB⟩ := equal r mem p inside
      rw [atA, atB]
    rw [readsPart, readsPart', Option.some_inj] at both
    exact ⟨sized.1, sized.2, part, slice, both ▸ slice'⟩

end Lcs

end NexradeCache
