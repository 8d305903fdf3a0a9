import Mathlib.Algebra.Order.Field.Basic
import Mathlib.Tactic.Linarith
import Mathlib.Tactic.Ring

/-!
# Bisection

An interval is halved again and again; a list of bits says which half is kept, the upper one for `true`. `width_narrow`
and `narrow_le` say where the interval ends up, and `bits_side` that the first bit already says on which side of the
first middle it is.

Two lists of bits are interleaved in one: `evens` and `odds` take them apart.
-/

namespace Bisection

section Intervals

variable {K : Type} [Field K] [LinearOrder K] [IsStrictOrderedRing K]

/-- A closed interval, with its order as a field. -/
structure Interval (K : Type) [LE K] where
  lo : K
  hi : K
  ordered : lo ≤ hi

namespace Interval

/-- Where it is cut in two. -/
def mid (i : Interval K) : K := (i.lo + i.hi) / 2

/-- How wide it is. -/
def width (i : Interval K) : K := i.hi - i.lo

/-- In the closed interval. -/
def Contains (i : Interval K) (x : K) : Prop := i.lo ≤ x ∧ x ≤ i.hi

theorem lo_le_mid (i : Interval K) : i.lo ≤ i.mid := by
  rw [mid]
  linarith [i.ordered]

theorem mid_le_hi (i : Interval K) : i.mid ≤ i.hi := by
  rw [mid]
  linarith [i.ordered]

/-- The upper or the lower half. -/
def half (i : Interval K) (upper : Bool) : Interval K :=
  match upper with
  | true => ⟨i.mid, i.hi, i.mid_le_hi⟩
  | false => ⟨i.lo, i.mid, i.lo_le_mid⟩

/-- Half after half, as the bits say. -/
def narrow (i : Interval K) (bits : List Bool) : Interval K := bits.foldl half i

variable {i : Interval K} {bits : List Bool} {x : K}

theorem narrow_cons (i : Interval K) (b : Bool) (bits : List Bool) : i.narrow (b :: bits) = (i.half b).narrow bits :=
  rfl

theorem narrow_append (i : Interval K) (bits more : List Bool) :
    i.narrow (bits ++ more) = (i.narrow bits).narrow more := List.foldl_append

theorem width_half (i : Interval K) (b : Bool) : (i.half b).width = i.width / 2 := by
  cases b <;> simp only [half, width, mid] <;> ring

/-- So the width goes down with the power of two. -/
theorem width_narrow (i : Interval K) (bits : List Bool) : (i.narrow bits).width = i.width / 2 ^ bits.length := by
  induction bits generalizing i with
  | nil => simp [narrow]
  | cons b bits ih =>
    rw [narrow_cons, ih, width_half, List.length_cons, pow_succ, div_div, mul_comm]

theorem narrow_le (i : Interval K) (bits : List Bool) : i.lo ≤ (i.narrow bits).lo ∧ (i.narrow bits).hi ≤ i.hi := by
  induction bits generalizing i with
  | nil => exact ⟨le_rfl, le_rfl⟩
  | cons b bits ih =>
    obtain ⟨low, high⟩ := ih (i.half b)
    cases b with
    | true => exact ⟨i.lo_le_mid.trans low, high⟩
    | false => exact ⟨low, high.trans i.mid_le_hi⟩

/-- What is in an interval is in every one that was narrowed to it. -/
theorem Contains.before {more : List Bool} (inside : (i.narrow (bits ++ more)).Contains x) :
    (i.narrow bits).Contains x := by
  rw [narrow_append] at inside
  have nested := narrow_le (i.narrow bits) more
  exact ⟨nested.1.trans inside.1, inside.2.trans nested.2⟩

/-- The first bit says on which side of the first middle the interval is. -/
theorem bits_side (i : Interval K) (b : Bool) (bits : List Bool) :
    i.mid ≤ (i.narrow (b :: bits)).lo ∨ (i.narrow (b :: bits)).hi ≤ i.mid := by
  have nested := narrow_le (i.half b) bits
  cases b with
  | true => exact .inl nested.1
  | false => exact .inr nested.2

/-- Always the upper half: the upper end stays. -/
theorem hi_narrow_upper (i : Interval K) (n : Nat) : (i.narrow (.replicate n true)).hi = i.hi := by
  induction n generalizing i with
  | zero => rfl
  | succ n ih => rw [List.replicate_succ, narrow_cons, ih, half]

theorem lo_narrow_lower (i : Interval K) (n : Nat) : (i.narrow (.replicate n false)).lo = i.lo := by
  induction n generalizing i with
  | zero => rfl
  | succ n ih => rw [List.replicate_succ, narrow_cons, ih, half]

/-- A point that stays in every upper half lies at the upper end. -/
theorem contains_narrow_upper (inside : i.Contains x) (n : Nat) :
    (i.narrow (.replicate n true)).Contains x ↔ i.hi - i.width / 2 ^ n ≤ x := by
  have wide := width_narrow i (.replicate n true)
  have top := hi_narrow_upper i n
  rw [width, top, List.length_replicate] at wide
  rw [Contains, top, ← wide, sub_sub_cancel]
  exact ⟨And.left, fun above => ⟨above, inside.2⟩⟩

/-- A point that stays in every lower half lies at the lower end. -/
theorem contains_narrow_lower (inside : i.Contains x) (n : Nat) :
    (i.narrow (.replicate n false)).Contains x ↔ x ≤ i.lo + i.width / 2 ^ n := by
  have wide := width_narrow i (.replicate n false)
  have bottom := lo_narrow_lower i n
  rw [width, bottom, List.length_replicate] at wide
  rw [Contains, bottom, ← wide, add_sub_cancel]
  exact ⟨And.right, fun below => ⟨inside.1, below⟩⟩

end Interval

end Intervals

/-! ## Interleaved bits -/

section Interleaved

variable {α : Type}

/-- The elements at the even places. -/
def evens : List α → List α
  | [] => []
  | [a] => [a]
  | a :: _ :: l => a :: evens l

/-- Every second element, from the second on. -/
def odds (l : List α) : List α := evens l.tail

theorem evens_cons (a : α) (l : List α) : evens (a :: l) = a :: odds l := by
  cases l <;> rfl

theorem odds_cons (a : α) (l : List α) : odds (a :: l) = evens l := rfl

theorem evens_odds_append (l more : List α) :
    (∃ rest, evens (l ++ more) = evens l ++ rest) ∧ ∃ rest, odds (l ++ more) = odds l ++ rest := by
  induction l with
  | nil => exact ⟨⟨_, rfl⟩, ⟨_, rfl⟩⟩
  | cons a l ih =>
    obtain ⟨⟨rest, even⟩, ⟨rest', odd⟩⟩ := ih
    rw [List.cons_append, evens_cons, evens_cons, odds_cons, odds_cons, even, odd]
    exact ⟨⟨_, rfl⟩, ⟨_, rfl⟩⟩

end Interleaved

end Bisection
