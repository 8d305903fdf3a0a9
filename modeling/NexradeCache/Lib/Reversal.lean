import Mathlib.Data.Nat.Bitwise

/-!
# Bit reversal of 64-bit words

`reverseBits` turns the low bits of a word into its high bits. A bucket chosen by the `k` low bits of a hash is
one interval of the reversed hashes, and `eq_of_reverse` finds its number.
-/

namespace Reversal

/-- `u64::reverse_bits`. -/
def reverseBits (x : Nat) : Nat := (BitVec.ofNat 64 x).reverse.toNat

theorem reverseBits_lt (x : Nat) : reverseBits x < 2 ^ 64 := (BitVec.ofNat 64 x).reverse.isLt

theorem testBit_reverseBits (x i : Nat) : (reverseBits x).testBit i = (decide (i < 64) && x.testBit (63 - i)) := by
  rw [reverseBits, BitVec.testBit_toNat, BitVec.getLsbD_reverse, BitVec.getMsbD_eq_getLsbD, BitVec.getLsbD_ofNat]
  by_cases inside : i < 64
  · simp [inside]
    omega
  · simp [inside]

theorem reverseBits_or (x y : Nat) : reverseBits (x ||| y) = reverseBits x ||| reverseBits y := by
  refine Nat.eq_of_testBit_eq fun i => ?_
  simp only [testBit_reverseBits, Nat.testBit_or]
  cases decide (i < 64) <;> simp

theorem reverseBits_reverseBits {x : Nat} (lt : x < 2 ^ 64) : reverseBits (reverseBits x) = x := by
  refine Nat.eq_of_testBit_eq fun i => ?_
  rw [testBit_reverseBits, testBit_reverseBits]
  by_cases inside : i < 64
  · have back : 63 - (63 - i) = i := by omega
    simp [inside, back]
    omega
  · have zero : x.testBit i = false :=
      Nat.testBit_lt_two_pow (lt.trans_le (Nat.pow_le_pow_right (by omega) (by omega)))
    simp [inside, zero]

variable {k : Nat}

/-- The `k` low bits reversed, and reversed back. -/
theorem reverseBits_shift (le : k ≤ 64) (x : Nat) :
    reverseBits (reverseBits x >>> (64 - k)) >>> (64 - k) = x % 2 ^ k := by
  refine Nat.eq_of_testBit_eq fun i => ?_
  simp only [Nat.testBit_shiftRight, testBit_reverseBits, Nat.testBit_mod_two_pow]
  by_cases inside : i < k
  · have high : 64 - k + i < 64 := by omega
    have low : 64 - k + (63 - (64 - k + i)) < 64 := by omega
    have back : 63 - (64 - k + (63 - (64 - k + i))) = i := by omega
    simp [high, low, back, inside]
  · have out : ¬64 - k + i < 64 := by omega
    simp [out, inside]

theorem shiftRight_lt (le : k ≤ 64) {x : Nat} (lt : x < 2 ^ 64) : x >>> (64 - k) < 2 ^ k := by
  rw [Nat.shiftRight_eq_div_pow, Nat.div_lt_iff_lt_mul (Nat.two_pow_pos _), ← pow_add]
  rwa [show k + (64 - k) = 64 by omega]

/-- The bucket of the low bits of `h` has the number that the reversal of `h` begins with. -/
theorem eq_of_reverse (le : k ≤ 64) {i h : Nat} (lt : i < 2 ^ k)
    (bucket : reverseBits i >>> (64 - k) = h % 2 ^ k) : i = reverseBits h >>> (64 - k) := by
  have front := shiftRight_lt le (reverseBits_lt h)
  calc i = i % 2 ^ k := (Nat.mod_eq_of_lt lt).symm
    _ = reverseBits (h % 2 ^ k) >>> (64 - k) := by rw [← reverseBits_shift le i, bucket]
    _ = (reverseBits h >>> (64 - k)) % 2 ^ k := by rw [← reverseBits_shift le h, reverseBits_shift le]
    _ = reverseBits h >>> (64 - k) := Nat.mod_eq_of_lt front

theorem reverseBits_small {h : Nat} (lt : h < 2 ^ 32) : 2 ^ 32 ∣ reverseBits h := by
  refine Nat.dvd_of_mod_eq_zero (Nat.eq_of_testBit_eq fun i => ?_)
  rw [Nat.testBit_mod_two_pow, testBit_reverseBits, Nat.zero_testBit]
  by_cases inside : i < 32
  · have zero : h.testBit (63 - i) = false :=
      Nat.testBit_lt_two_pow (lt.trans_le (Nat.pow_le_pow_right (by omega) (by omega)))
    simp [zero]
  · simp [inside]

/-- Bit 32 goes to bit 31, below what a word of 32 bits is reversed to. -/
theorem reverseBits_add {h : Nat} (lt : h < 2 ^ 32) : reverseBits (h + 2 ^ 32) = reverseBits h + 2 ^ 31 := by
  obtain ⟨m, is⟩ := reverseBits_small lt
  have sum : h + 2 ^ 32 = 2 ^ 32 ||| h := by
    have := Nat.two_pow_add_eq_or_of_lt lt 1
    rw [Nat.mul_one] at this
    rw [← this, Nat.add_comm]
  rw [sum, reverseBits_or, is, Nat.two_pow_add_eq_or_of_lt (by decide : 2 ^ 31 < 2 ^ 32) m,
    show reverseBits (2 ^ 32) = 2 ^ 31 by decide +kernel, Nat.or_comm]

theorem reverseBits_pos {x : Nat} (lt : x < 2 ^ 64) (positive : 0 < x) : 0 < reverseBits x := by
  refine Nat.pos_of_ne_zero fun zero => ?_
  have back := reverseBits_reverseBits lt
  rw [zero, show reverseBits 0 = 0 by decide +kernel] at back
  omega

end Reversal
