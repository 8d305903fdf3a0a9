import Mathlib
import NexradeCache.Lib.Codec

/-!
# Double-precision bit patterns and their total order

An `F64` is the 64-bit pattern of an IEEE-754 double. `key` maps it to an integer
that orders doubles: the magnitude bits with the sign applied, so that both zeros share one
key, and one key above all others for every NaN. `a.key ≤ b.key` is therefore the order of
`OrderedFloat<f64>`, key equality its equality, and `eq` is the operator `==`.
-/

/-- The bit pattern of a double. -/
structure F64 where
  bits : UInt64
deriving Repr, DecidableEq

namespace F64

open Bytes

/-- Exponent and mantissa bits. -/
def mag (x : F64) : Nat := x.bits.toNat % 2 ^ 63

def isNaN (x : F64) : Bool := 0x7FF0000000000000 < x.mag

/-- The position in the order of `OrderedFloat`. -/
def key (x : F64) : Int :=
  if x.isNaN then 2 ^ 63 else if 2 ^ 63 ≤ x.bits.toNat then -(x.mag : Int) else x.mag

def isInfinite (x : F64) : Bool := x.mag = 0x7FF0000000000000

def isZero (x : F64) : Bool := x.mag = 0

def isNegative (x : F64) : Bool := 2 ^ 63 ≤ x.bits.toNat

/-- Infinities of opposite signs. -/
def Opposed (a b : F64) : Prop := a.isInfinite = true ∧ b.isInfinite = true ∧ a.isNegative ≠ b.isNegative

/-- Zero and an infinity. -/
def Indefinite (a b : F64) : Prop := a.isZero = true ∧ b.isInfinite = true ∨ a.isInfinite = true ∧ b.isZero = true

instance (a b : F64) : Decidable (Opposed a b) := inferInstanceAs (Decidable (_ ∧ _ ∧ _))

instance (a b : F64) : Decidable (Indefinite a b) := inferInstanceAs (Decidable (_ ∨ _))

/-- The operator `==`. -/
def eq (a b : F64) : Bool := !a.isNaN && !b.isNaN && a.key == b.key

theorem eq_iff {a b : F64} (ha : a.isNaN = false) (hb : b.isNaN = false) :
    a.eq b = true ↔ a.key = b.key := by
  simp [eq, ha, hb]

theorem isNaN_iff_key (x : F64) : x.isNaN = true ↔ x.key = 2 ^ 63 := by
  rw [key]
  split
  · simp_all
  · rename_i hx
    have : x.mag < 2 ^ 63 := Nat.mod_lt _ (by decide)
    simp only [hx, Bool.false_eq_true, false_iff]
    split <;> omega

theorem isNaN_congr {a b : F64} (h : a.key = b.key) : a.isNaN = b.isNaN := by
  rw [Bool.eq_iff_iff, isNaN_iff_key, isNaN_iff_key, h]

theorem key_le (x : F64) : x.key ≤ 2 ^ 63 := by
  have : x.mag < 2 ^ 63 := Nat.mod_lt _ (by decide)
  unfold key
  split
  · omega
  · split <;> omega

/-- `f64::min`: of a NaN and a number the number. -/
def minNum (a b : F64) : F64 := if a.isNaN then b else if b.isNaN then a else if b.key < a.key then b else a

/-- `f64::max`. -/
def maxNum (a b : F64) : F64 := if a.isNaN then b else if b.isNaN then a else if a.key < b.key then b else a

/-- Below all numbers is the place of NaN for `maxNum`. -/
def maxKey (x y : Int) : Int := if x = 2 ^ 63 then y else if y = 2 ^ 63 then x else max x y

theorem minNum_key (a b : F64) : (minNum a b).key = min a.key b.key := by
  have ha := a.key_le
  have hb := b.key_le
  unfold minNum
  split
  · rename_i nan
    rw [isNaN_iff_key] at nan
    omega
  · split
    · rename_i nan
      rw [isNaN_iff_key] at nan
      omega
    · split <;> omega

theorem maxNum_key (a b : F64) : (maxNum a b).key = maxKey a.key b.key := by
  unfold maxNum maxKey
  simp only [isNaN_iff_key]
  split
  · rfl
  · split
    · rfl
    · split <;> omega

theorem maxKey_comm (x y : Int) : maxKey x y = maxKey y x := by
  unfold maxKey
  split <;> split <;> omega

theorem maxKey_assoc (x y z : Int) : maxKey (maxKey x y) z = maxKey x (maxKey y z) := by
  unfold maxKey
  grind

/-- Equal as `OrderedFloat`s: `==`, or both NaN. -/
theorem eq_or_isNaN_iff (a b : F64) :
    (a.eq b || (a.isNaN && b.isNaN)) = true ↔ a.key = b.key := by
  constructor
  · intro h
    rw [Bool.or_eq_true, Bool.and_eq_true, isNaN_iff_key, isNaN_iff_key] at h
    obtain h | ⟨ha, hb⟩ := h
    · simp [eq] at h
      exact h.2
    · rw [ha, hb]
  · intro h
    have nan := isNaN_congr h
    cases hb : b.isNaN <;> simp_all [eq]

/-- The eight little-endian bytes of a double. -/
def codec : Codec F64 where
  enc x := leBytes 8 x.bits.toNat
  dec buf o := (slice buf o (o + 8)).map fun b => (⟨UInt64.ofNat (ofLe b)⟩, o + 8)
  Valid _ := True
  dec_enc {x} _ a z := by
    have small : x.bits.toNat < 256 ^ 8 := x.bits.toNat_lt
    rw [slice_eq (a := a) (b := leBytes 8 x.bits.toNat) (c := z) rfl rfl (by simp)]
    simp [ofLe_leBytes_of_lt small]

@[simp] theorem enc_codec (x : F64) : codec.enc x = leBytes 8 x.bits.toNat := rfl

end F64
