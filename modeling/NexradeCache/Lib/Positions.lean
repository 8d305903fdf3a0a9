import Mathlib.Data.List.Basic

/-!
# Signed positions in a list

An index below zero counts from the end of the list. `between lo hi` is what is asked for: the elements at the
positions from `lo` to `hi`, which may lie outside. `clamped` is a position cut off at zero, and a range over clamped
positions is the range that was asked for unless it ends before the list begins (`clampedRange_iff`).
-/

namespace Positions

variable {α : Type}

/-- The position that an index denotes in a list of `n` elements. -/
def denoted (n : Nat) (i : Int) : Int := if i < 0 then n + i else i

/-- The element at a position. -/
def at? (p : Int) (l : List α) : Option α := if 0 ≤ p then l[p.toNat]? else none

/-- The elements at the positions from `lo` to `hi`. -/
def between (lo hi : Int) (l : List α) : List α :=
  (l.zipIdx.filter fun x => lo ≤ (x.2 : Int) ∧ (x.2 : Int) ≤ hi).map Prod.fst

def clamped (n : Nat) (i : Int) : Nat := (denoted n i).toNat

/-- The elements from one clamped position to the other. -/
def clampedRange (i j : Int) (l : List α) : List α := (l.take (clamped l.length j + 1)).drop (clamped l.length i)

/-- A range that begins no later than the list does not end before it; nothing can be asked of an empty list. -/
def EndsInside (i j : Int) (l : List α) : Prop := denoted l.length j < 0 → denoted l.length i ≤ 0 → l = []

/-! ## Ranges -/

theorem filter_zipIdx_map (lo hi : Int) (l : List α) (k : Nat) :
    ((l.zipIdx k).filter fun x => lo ≤ (x.2 : Int) ∧ (x.2 : Int) ≤ hi).map Prod.fst =
      (l.take (hi + 1 - k).toNat).drop (lo - k).toNat := by
  induction l generalizing k with
  | nil => simp
  | cons x l ih =>
    rw [List.zipIdx_cons, List.filter_cons]
    have rest := ih (k + 1)
    by_cases upper : (k : Int) ≤ hi
    · have taken : (hi + 1 - k).toNat = (hi + 1 - (k + 1 : Nat)).toNat + 1 := by omega
      rw [taken, List.take_succ_cons]
      by_cases lower : lo ≤ (k : Int)
      · have both : lo ≤ (k : Int) ∧ (k : Int) ≤ hi := ⟨lower, upper⟩
        rw [if_pos (by simpa using both), List.map_cons, rest]
        have start : (lo - k).toNat = 0 := by omega
        have next : (lo - (k + 1 : Nat)).toNat = 0 := by omega
        rw [start, next, List.drop_zero, List.drop_zero]
      · rw [if_neg (by simp [lower]), rest]
        have skipped : (lo - k).toNat = (lo - (k + 1 : Nat)).toNat + 1 := by omega
        rw [skipped, List.drop_succ_cons]
    · rw [if_neg (by simp [upper]), rest]
      have none : (hi + 1 - k).toNat = 0 := by omega
      have next : (hi + 1 - (k + 1 : Nat)).toNat = 0 := by omega
      rw [none, next, List.take_zero, List.take_zero, List.drop_nil, List.drop_nil]

theorem between_eq (lo hi : Int) (l : List α) : between lo hi l = (l.take (hi + 1).toNat).drop lo.toNat := by
  have h := filter_zipIdx_map lo hi l 0
  simpa [between] using h

theorem between_eq_nil {lo hi : Int} (l : List α) (before : hi < 0) : between lo hi l = [] := by
  have nothing : (hi + 1).toNat = 0 := by omega
  rw [between_eq, nothing, List.take_zero, List.drop_nil]

/-! ## Clamped positions -/

variable {l : List α} {i j : Int}

theorem clampedRange_of_empty (h : l.length ≤ clamped l.length i ∨ clamped l.length j < clamped l.length i) :
    clampedRange i j l = [] := by
  rw [clampedRange, List.drop_eq_nil_iff, List.length_take]
  omega

/-- The end may be cut off at the last position. -/
theorem clampedRange_clipped (h : ¬(l.length ≤ clamped l.length i ∨ clamped l.length j < clamped l.length i)) :
    (l.take (min (clamped l.length j) (l.length - 1) + 1)).drop (clamped l.length i) = clampedRange i j l := by
  unfold clampedRange
  congr 1
  rw [List.take_eq_take_iff]
  omega

/-- A range over clamped positions is the range over the positions denoted, unless that ends before the list and
begins no later than it. -/
theorem clampedRange_iff (l : List α) (i j : Int) :
    clampedRange i j l = between (denoted l.length i) (denoted l.length j) l ↔ EndsInside i j l := by
  unfold clampedRange EndsInside
  by_cases before : denoted l.length j < 0
  · have zero : clamped l.length j = 0 := Int.toNat_of_nonpos (by omega)
    rw [between_eq_nil l before, zero, List.drop_eq_nil_iff, List.length_take]
    constructor
    · intro short _ low
      have first : clamped l.length i = 0 := Int.toNat_of_nonpos (by omega)
      exact List.length_eq_zero_iff.1 (by omega)
    · intro empty
      by_cases low : denoted l.length i ≤ 0
      · rw [empty before low]
        simp
      · have after : 0 < clamped l.length i := by
          unfold clamped
          omega
        omega
  · have upto : (denoted l.length j + 1).toNat = clamped l.length j + 1 := by
      unfold clamped
      omega
    rw [between_eq, upto]
    exact ⟨fun _ neg => absurd neg before, fun _ => rfl⟩

/-- A range that ends before the list is clamped to one element at most. -/
theorem length_clampedRange_of_before (before : denoted l.length j < 0) : (clampedRange i j l).length ≤ 1 := by
  have zero : clamped l.length j = 0 := Int.toNat_of_nonpos (by omega)
  rw [clampedRange, zero, List.length_drop, List.length_take]
  omega

/-- The element at a clamped position is the one at the position denoted, unless that lies before the list. -/
theorem clamped_at_iff (l : List α) (i : Int) :
    l[clamped l.length i]? = at? (denoted l.length i) l ↔ (denoted l.length i < 0 → l = []) := by
  unfold at?
  by_cases before : denoted l.length i < 0
  · have zero : clamped l.length i = 0 := Int.toNat_of_nonpos (by omega)
    rw [if_neg (by omega), zero, List.getElem?_eq_none_iff, Nat.le_zero, List.length_eq_zero_iff]
    exact ⟨fun empty _ => empty, fun empty => empty before⟩
  · rw [if_pos (by omega)]
    exact ⟨fun _ neg => absurd neg before, fun _ => rfl⟩

end Positions
