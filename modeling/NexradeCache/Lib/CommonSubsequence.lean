import Mathlib.Data.List.Infix
import Mathlib.Data.List.Range

/-!
# Common subsequences

`commonLength a b i j` is the recurrence for the longest common subsequence of two prefixes, from the last element of
each; `length_le_commonLength` says that none is longer. An `Alignment` pairs positions of equal elements from left to
right.
-/

namespace CommonSubsequence

open List

variable {α : Type}

/-- How many elements the first `i` of `a` and the first `j` of `b` have in common. -/
def commonLength [DecidableEq α] (a b : List α) : Nat → Nat → Nat
  | 0, _ => 0
  | _ + 1, 0 => 0
  | i + 1, j + 1 =>
    if a[i]? = b[j]? then commonLength a b i j + 1 else max (commonLength a b i (j + 1)) (commonLength a b (i + 1) j)

/-- Pairs of positions of equal elements, the last of them below `i` and `j`. -/
inductive Alignment (a b : List α) : Nat → Nat → List (Nat × Nat) → Prop
  | nil (i j : Nat) : Alignment a b i j []
  | snoc {i j : Nat} {ps : List (Nat × Nat)} {x : α} : Alignment a b i j ps → a[i]? = some x → b[j]? = some x →
    Alignment a b (i + 1) (j + 1) (ps ++ [(i, j)])
  | left {i j : Nat} {ps : List (Nat × Nat)} : Alignment a b i j ps → Alignment a b (i + 1) j ps
  | right {i j : Nat} {ps : List (Nat × Nat)} : Alignment a b i j ps → Alignment a b i (j + 1) ps

variable {a b s : List α} {i j : Nat} {ps : List (Nat × Nat)}

@[simp] theorem commonLength_zero [DecidableEq α] (a b : List α) (i : Nat) : commonLength a b i 0 = 0 := by
  cases i <;> rw [commonLength]

theorem commonLength_succ [DecidableEq α] (a b : List α) (i j : Nat) : commonLength a b (i + 1) (j + 1) =
    if a[i]? = b[j]? then commonLength a b i j + 1 else max (commonLength a b i (j + 1)) (commonLength a b (i + 1) j) := by
  rw [commonLength]

/-- A subsequence ends with the last element, or does without it. -/
theorem sublist_snoc {x : α} (h : s <+ a ++ [x]) : s <+ a ∨ ∃ t, s = t ++ [x] ∧ t <+ a := by
  obtain ⟨t, u, rfl, front, back⟩ := sublist_append_iff.1 h
  rcases sublist_singleton.1 back with rfl | rfl
  · exact .inl (by simpa using front)
  · exact .inr ⟨t, rfl, front⟩

/-- No common subsequence of two prefixes is longer. -/
theorem length_le_commonLength [DecidableEq α] (inA : i ≤ a.length) (inB : j ≤ b.length) (left : s <+ a.take i)
    (right : s <+ b.take j) : s.length ≤ commonLength a b i j := by
  fun_induction commonLength a b i j generalizing s with
  | case1 j =>
    rw [take_zero, sublist_nil] at left
    simp [left]
  | case2 i =>
    rw [take_zero, sublist_nil] at right
    simp [right]
  | case3 i j same ih =>
    have inA : i < a.length := by omega
    have inB : j < b.length := by omega
    rw [getElem?_eq_getElem inA, getElem?_eq_getElem inB, Option.some_inj] at same
    rw [take_succ_eq_append_getElem inA] at left
    rw [take_succ_eq_append_getElem inB] at right
    -- without its last element, if it is the common one, it lies in the shorter prefixes
    have shorter : ∀ {t u : List α} {x : α}, s = t ++ [x] → s <+ u ++ [x] → t <+ u := by
      rintro t u x rfl inside
      exact (append_sublist_append_right [x]).1 inside
    rcases sublist_snoc left with left' | ⟨t, is, left'⟩
    · rcases sublist_snoc right with right' | ⟨t, is, right'⟩
      · exact (ih (by omega) (by omega) left' right').trans (Nat.le_succ _)
      · have sub : t <+ a.take i := by
          rw [is] at left'
          exact (sublist_append_left t _).trans left'
        have short := ih (by omega) (by omega) sub right'
        rw [is, length_append, length_singleton]
        omega
    · rw [← same] at right
      have short := ih (by omega) (by omega) left' (shorter is right)
      rw [is, length_append, length_singleton]
      omega
  | case4 i j apart up across =>
    have inA' : i < a.length := by omega
    have inB' : j < b.length := by omega
    rw [getElem?_eq_getElem inA', getElem?_eq_getElem inB', Option.some_inj] at apart
    have left' := left
    have right' := right
    rw [take_succ_eq_append_getElem inA'] at left'
    rw [take_succ_eq_append_getElem inB'] at right'
    rcases sublist_snoc left' with inside | ⟨t, is, -⟩
    · exact (up (by omega) inB inside right).trans (le_max_left _ _)
    · rcases sublist_snoc right' with inside | ⟨u, is', -⟩
      · exact (across inA (by omega) left inside).trans (le_max_right _ _)
      · rw [is] at is'
        exact absurd (append_inj_right' is' rfl) (by simpa using apart)

namespace Alignment

theorem inside (h : Alignment a b i j ps) : ∀ p ∈ ps, p.1 < i ∧ p.2 < j := by
  induction h with
  | nil => simp
  | snoc _ _ _ ih =>
    intro p mem
    rcases mem_append.1 mem with mem | mem
    · have := ih p mem
      omega
    · obtain rfl := mem_singleton.1 mem
      exact ⟨Nat.lt_succ_self _, Nat.lt_succ_self _⟩
  | left _ ih => exact fun p mem => ⟨(ih p mem).1.trans (Nat.lt_succ_self _), (ih p mem).2⟩
  | right _ ih => exact fun p mem => ⟨(ih p mem).1, (ih p mem).2.trans (Nat.lt_succ_self _)⟩

theorem increasing (h : Alignment a b i j ps) : ps.Pairwise fun p q => p.1 < q.1 ∧ p.2 < q.2 := by
  induction h with
  | nil => exact .nil
  | snoc h _ _ ih =>
    refine pairwise_append.2 ⟨ih, pairwise_singleton _ _, fun p mem q last => ?_⟩
    obtain rfl := mem_singleton.1 last
    exact h.inside p mem
  | left _ ih => exact ih
  | right _ ih => exact ih

theorem equal (h : Alignment a b i j ps) : ∀ p ∈ ps, ∃ x, a[p.1]? = some x ∧ b[p.2]? = some x := by
  induction h with
  | nil => simp
  | snoc _ atA atB ih =>
    intro p mem
    rcases mem_append.1 mem with mem | mem
    · exact ih p mem
    · obtain rfl := mem_singleton.1 mem
      exact ⟨_, atA, atB⟩
  | left _ ih => exact ih
  | right _ ih => exact ih

theorem take_snoc {x : α} (h : s <+ a.take i) (there : a[i]? = some x) : s ++ [x] <+ a.take (i + 1) := by
  rw [take_add_one, there]
  exact h.append (.refl _)

/-- The elements paired are a common subsequence. -/
theorem sublists (h : Alignment a b i j ps) :
    ∃ s, ps.mapM (fun p => a[p.1]?) = some s ∧ s.length = ps.length ∧ s <+ a.take i ∧ s <+ b.take j := by
  induction h with
  | nil => exact ⟨[], by simp⟩
  | @snoc i j ps x _ atA atB ih =>
    obtain ⟨s, reads, length, left, right⟩ := ih
    refine ⟨s ++ [x], ?_, by simp [length], take_snoc left atA, take_snoc right atB⟩
    rw [mapM_append, reads]
    simp [atA]
  | @left i j ps _ ih =>
    obtain ⟨s, reads, length, left, right⟩ := ih
    exact ⟨s, reads, length, left.trans (take_sublist_take_left (Nat.le_succ i)), right⟩
  | @right i j ps _ ih =>
    obtain ⟨s, reads, length, left, right⟩ := ih
    exact ⟨s, reads, length, left, right.trans (take_sublist_take_left (Nat.le_succ j))⟩

end Alignment

end CommonSubsequence
