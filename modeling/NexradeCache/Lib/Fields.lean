import Mathlib.Data.Int.ModEq
import NexradeCache.Lib.Bits

/-!
# Integers in fields of a bit vector

An integer type is a width and whether it has a sign. `wrap` takes an integer to the value of the type that is the same
modulo two to the width, and `clamp` to the nearest one. The bits from an offset on, highest first, are a number
(`fieldNat`), and `valueAt` is the value of the type that it stands for.
-/

/-- A machine integer: its width and whether it has a sign. -/
structure IntType where
  bits : Nat
  signed : Bool
  pos : 0 < bits
deriving DecidableEq

namespace IntType

variable {t : IntType} {x y : Int}

/-! ## Ranges -/

/-- The least number of the type. -/
def low (t : IntType) : Int := if t.signed then -2 ^ (t.bits - 1) else 0

/-- The greatest number of the type. -/
def high (t : IntType) : Int := if t.signed then 2 ^ (t.bits - 1) - 1 else 2 ^ t.bits - 1

/-- A number that the type has. -/
def Fits (t : IntType) (x : Int) : Prop := t.low ≤ x ∧ x ≤ t.high

instance (t : IntType) (x : Int) : Decidable (t.Fits x) := inferInstanceAs (Decidable (_ ∧ _))

/-- The value that is the same modulo two to the width. -/
def wrap (t : IntType) (x : Int) : Int := (x - t.low) % 2 ^ t.bits + t.low

/-- The nearest value. -/
def clamp (t : IntType) (x : Int) : Int := max t.low (min t.high x)

/-- The width is at least one, so its power of two is even. -/
theorem two_pow_pred (t : IntType) : (2 : Int) ^ t.bits = 2 * 2 ^ (t.bits - 1) := by
  have split : t.bits = t.bits - 1 + 1 := by have := t.pos; omega
  rw [← Int.pow_succ', ← split]

theorem two_pow_pos (n : Nat) : (0 : Int) < 2 ^ n := Int.pow_pos (by decide)

/-- The numbers of a type are as many as its power of two, from the least on. -/
theorem high_eq (t : IntType) : t.high = t.low + 2 ^ t.bits - 1 := by
  have double := t.two_pow_pred
  unfold high low
  split <;> omega

/-- Counted from the least number, what fits is below that power. -/
theorem fits_iff : t.Fits x ↔ 0 ≤ x - t.low ∧ x - t.low < 2 ^ t.bits := by
  have high := t.high_eq
  unfold Fits
  omega

theorem wrap_fits (t : IntType) (x : Int) : t.Fits (t.wrap x) := by
  have pos := two_pow_pos t.bits
  rw [fits_iff, wrap, Int.add_sub_cancel]
  exact ⟨Int.emod_nonneg _ (by omega), Int.emod_lt_of_pos _ pos⟩

theorem wrap_of_fits (fits : t.Fits x) : t.wrap x = x := by
  obtain ⟨least, below⟩ := fits_iff.1 fits
  rw [wrap, Int.emod_eq_of_lt least below, Int.sub_add_cancel]

theorem wrap_congr (same : x ≡ y [ZMOD 2 ^ t.bits]) : t.wrap x = t.wrap y := by
  have shifted : (x - t.low) % 2 ^ t.bits = (y - t.low) % 2 ^ t.bits := same.sub_right t.low
  rw [wrap, shifted, wrap]

/-- A number and its wrap agree modulo that power. -/
theorem wrap_modEq (t : IntType) (x : Int) : t.wrap x ≡ x [ZMOD 2 ^ t.bits] := by
  have cancel : (x - t.low) % 2 ^ t.bits + t.low ≡ x - t.low + t.low [ZMOD 2 ^ t.bits] :=
    (Int.mod_modEq _ _).add_right t.low
  rwa [Int.sub_add_cancel] at cancel

theorem low_le_high (t : IntType) : t.low ≤ t.high := by
  have pos := two_pow_pos t.bits
  rw [high_eq]
  omega

theorem clamp_fits (t : IntType) (x : Int) : t.Fits (t.clamp x) := by
  have order := t.low_le_high
  unfold Fits clamp
  omega

/-- The highest bit says whether a number reaches its weight. -/
theorem testBit_last {n k : Nat} (below : n < 2 ^ (k + 1)) : n.testBit k = decide (2 ^ k ≤ n) := by
  by_cases high : 2 ^ k ≤ n
  · rw [decide_eq_true high]
    exact Nat.testBit_of_two_pow_le_and_two_pow_add_one_gt high below
  · rw [decide_eq_false high]
    exact Nat.testBit_lt_two_pow (Nat.not_le.1 high)

theorem wrap_signed (signed : t.signed = true) {n : Nat} (below : n < 2 ^ t.bits) :
    t.wrap n = if n.testBit (t.bits - 1) then (n : Int) - 2 ^ t.bits else n := by
  have double := t.two_pow_pred
  have pos := two_pow_pos (t.bits - 1)
  have low : t.low = -2 ^ (t.bits - 1) := if_pos signed
  have width : t.bits - 1 + 1 = t.bits := Nat.sub_add_cancel t.pos
  have below' : (n : Int) < 2 ^ t.bits := by exact_mod_cast below
  have cast : ((2 ^ (t.bits - 1) : Nat) : Int) = 2 ^ (t.bits - 1) := by push_cast; rfl
  rw [testBit_last (by rwa [width])]
  split
  · rename_i high
    have high : 2 ^ (t.bits - 1) ≤ n := of_decide_eq_true high
    have same : (n : Int) ≡ n - 2 ^ t.bits [ZMOD 2 ^ t.bits] := by
      exact (Int.modEq_iff_dvd.2 ⟨-1, by omega⟩)
    rw [wrap_congr same]
    exact wrap_of_fits (fits_iff.2 (by omega))
  · rename_i high
    have high : ¬2 ^ (t.bits - 1) ≤ n := fun h => high (decide_eq_true h)
    exact wrap_of_fits (fits_iff.2 (by omega))

theorem wrap_unsigned (unsigned : t.signed = false) {n : Nat} (below : n < 2 ^ t.bits) : t.wrap n = n := by
  have low : t.low = 0 := if_neg (by simp [unsigned])
  have below' : (n : Int) < 2 ^ t.bits := by exact_mod_cast below
  exact wrap_of_fits (fits_iff.2 (by omega))

end IntType

namespace Bits

variable {bytes : Bytes} {offset w k n : Nat}

/-! ## Fields -/

/-- The number that the bits from an offset on make, the highest first. -/
def fieldNat (bytes : Bytes) (offset : Nat) : (w : Nat) → Nat
  | 0 => 0
  | w + 1 => 2 * fieldNat bytes offset w + (bitAt bytes (offset + w)).toNat

/-- The bits of a field stand in it the other way round: the first is the highest. -/
theorem testBit_fieldNat (bytes : Bytes) (offset w k : Nat) :
    (fieldNat bytes offset w).testBit k = (decide (k < w) && bitAt bytes (offset + (w - 1 - k))) := by
  induction w generalizing k with
  | zero => simp [fieldNat]
  | succ w ih =>
    have bit := Bool.toNat_lt (bitAt bytes (offset + w))
    cases k with
    | zero =>
      rw [fieldNat, Nat.testBit_zero]
      cases last : bitAt bytes (offset + w) <;> simp [last]
    | succ k =>
      have half : (2 * fieldNat bytes offset w + (bitAt bytes (offset + w)).toNat) / 2 = fieldNat bytes offset w := by omega
      have place : w + 1 - 1 - (k + 1) = w - 1 - k := by omega
      rw [fieldNat, Nat.testBit_succ, half, ih, place, decide_eq_decide.2 Nat.succ_lt_succ_iff]

/-- A field of some width is below its power of two. -/
theorem fieldNat_lt (bytes : Bytes) (offset w : Nat) : fieldNat bytes offset w < 2 ^ w := by
  refine Nat.lt_pow_two_of_testBit _ fun k above => ?_
  rw [testBit_fieldNat, decide_eq_false (Nat.not_lt.2 above), Bool.false_and]

/-- A field whose bits are those of a number. -/
theorem fieldNat_of_bits (h : ∀ i < w, bitAt bytes (offset + i) = n.testBit (w - 1 - i)) :
    fieldNat bytes offset w = n % 2 ^ w := by
  refine Nat.eq_of_testBit_eq fun k => ?_
  rw [testBit_fieldNat, Nat.testBit_mod_two_pow]
  by_cases inside : k < w
  · have place : w - 1 - (w - 1 - k) = k := by omega
    rw [h _ (by omega), place]
  · simp [inside]

/-- The value of a type that a field holds. -/
def valueAt (t : IntType) (bytes : Bytes) (offset : Nat) : Int := t.wrap (fieldNat bytes offset t.bits)

theorem valueAt_fits (t : IntType) (bytes : Bytes) (offset : Nat) : t.Fits (valueAt t bytes offset) := t.wrap_fits _

theorem valueAt_congr {t : IntType} {bytes' : Bytes} (same : ∀ i, bitAt bytes i = bitAt bytes' i) (offset : Nat) :
    valueAt t bytes offset = valueAt t bytes' offset := by
  have number : fieldNat bytes offset t.bits = fieldNat bytes' offset t.bits := by
    refine Nat.eq_of_testBit_eq fun k => ?_
    rw [testBit_fieldNat, testBit_fieldNat, same]
  rw [valueAt, number, valueAt]

end Bits
