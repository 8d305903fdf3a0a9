import Mathlib

/-!
# Byte strings, little-endian integers and checked slices

A byte string is a `List UInt8`, ordered lexicographically. `leBytes w n` is the
`w`-byte little-endian image of `n` (reduced modulo `256 ^ w`, as a narrowing cast
does), `ofLe` reads one back. `slice` and `overwrite` are range accesses that answer
`none` exactly where an indexed access would be out of bounds, so a function built
from them returns `none` iff some access it makes is out of bounds.
-/

instance UInt8.linearOrder : LinearOrder UInt8 where
  le_refl _ := UInt8.le_refl _
  le_trans _ _ _ := UInt8.le_trans
  le_antisymm _ _ := UInt8.le_antisymm
  le_total := UInt8.le_total
  lt_iff_le_not_ge a b := by
    rw [UInt8.lt_iff_toNat_lt, UInt8.le_iff_toNat_le, UInt8.le_iff_toNat_le]; omega
  toDecidableLE := inferInstance
  toDecidableEq := inferInstance
  toDecidableLT := inferInstance

/-- A byte string. -/
abbrev Bytes := List UInt8

instance Bytes.lawfulBEq : LawfulBEq Bytes := inferInstance

namespace Bytes

/-- The `w` little-endian bytes of `n`. -/
def leBytes : Nat → Nat → Bytes
  | 0, _ => []
  | w + 1, n => UInt8.ofNat (n % 256) :: leBytes w (n / 256)

/-- The natural number a little-endian byte string denotes. -/
def ofLe : Bytes → Nat
  | [] => 0
  | b :: bs => b.toNat + 256 * ofLe bs

@[simp] theorem length_leBytes (w n : Nat) : (leBytes w n).length = w := by
  induction w generalizing n with
  | zero => rfl
  | succ w ih => simp [leBytes, ih]

theorem ofLe_leBytes (w n : Nat) : ofLe (leBytes w n) = n % 256 ^ w := by
  induction w generalizing n with
  | zero => simp [leBytes, ofLe, Nat.mod_one]
  | succ w ih =>
    have low : (UInt8.ofNat (n % 256)).toNat = n % 256 := by
      simp [UInt8.toNat_ofNat']
    rw [leBytes, ofLe, ih, low, Nat.pow_succ, Nat.mul_comm (256 ^ w) 256, Nat.mod_mul]

theorem ofLe_leBytes_of_lt {w n : Nat} (h : n < 256 ^ w) : ofLe (leBytes w n) = n := by
  rw [ofLe_leBytes, Nat.mod_eq_of_lt h]

/-- The bytes of `b` in `[lo, hi)`, when that range lies in `b`. -/
def slice {α : Type} (b : List α) (lo hi : Nat) : Option (List α) :=
  if lo ≤ hi ∧ hi ≤ b.length then some ((b.take hi).drop lo) else none

/-- Replace the bytes of `b` from `lo` on by `data`, when they all lie in `b`. -/
def overwrite {α : Type} (b : List α) (lo : Nat) (data : List α) : Option (List α) :=
  if lo + data.length ≤ b.length then
    some (b.take lo ++ data ++ b.drop (lo + data.length))
  else none

/-- A difference that is `none` where an unsigned subtraction would underflow. -/
def checkedSub (a b : Nat) : Option Nat :=
  if b ≤ a then some (a - b) else none

@[simp] theorem checkedSub_of_le {a b : Nat} (h : b ≤ a) : checkedSub a b = some (a - b) :=
  if_pos h

theorem slice_append {α : Type} (a b c : List α) :
    slice (a ++ (b ++ c)) a.length (a.length + b.length) = some b := by
  have inside : a.length ≤ a.length + b.length ∧ a.length + b.length ≤ (a ++ (b ++ c)).length := by
    simp only [List.length_append]; omega
  rw [slice, if_pos inside, List.take_length_add_append, List.take_left, List.drop_left]

/-- `slice_append` with the bounds given up to equality. -/
theorem slice_eq {α : Type} {buf a b c : List α} {lo hi : Nat} (h : buf = a ++ (b ++ c))
    (hlo : lo = a.length) (hhi : hi = a.length + b.length) : slice buf lo hi = some b := by
  subst h hlo hhi
  exact slice_append a b c

/-- The tail of a concatenation, as the slice up to the end. -/
theorem slice_to_end {α : Type} {buf a b : List α} {lo : Nat} (h : buf = a ++ b)
    (hlo : lo = a.length) : slice buf lo buf.length = some b :=
  slice_eq (c := []) (by simpa using h) hlo (by rw [h]; simp)

/-- The head of a concatenation, as the slice from the start. -/
theorem slice_from_start {α : Type} {buf a b : List α} {hi : Nat} (h : buf = a ++ b)
    (hhi : hi = a.length) : slice buf 0 hi = some a :=
  slice_eq (a := []) (b := a) (c := b) (by simpa using h) rfl (by simpa using hhi)

theorem overwrite_append {α : Type} {buf a b c data : List α} {lo : Nat} (h : buf = a ++ (b ++ c))
    (hlo : lo = a.length) (hlen : data.length = b.length) :
    overwrite buf lo data = some (a ++ (data ++ c)) := by
  subst h hlo
  have inside : a.length + data.length ≤ (a ++ (b ++ c)).length := by
    simp only [List.length_append]; omega
  rw [overwrite, if_pos inside, hlen, List.take_left, List.drop_length_add_append, List.drop_left,
    List.append_assoc]

@[simp] theorem length_slice {α : Type} {b s : List α} {lo hi : Nat} (h : slice b lo hi = some s) :
    s.length = hi - lo := by
  unfold slice at h
  split at h
  · rename_i inside
    cases h
    rw [List.length_drop, List.length_take]
    omega
  · cases h

end Bytes
