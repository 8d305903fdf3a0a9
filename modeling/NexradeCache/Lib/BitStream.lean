import Mathlib.Data.Nat.Bits
import Mathlib.Data.Nat.Size
import Mathlib.Data.Finset.Card
import Mathlib.Order.Interval.Finset.Nat

/-!
# Streams of bits and the words they are cut into

A stream of bits is a function on positions. `bits w` reads words of `w` bits as one stream, the low bits of each word
first, and `words w` cuts a stream into words; they are inverse, so a stream can be cut anew at another width.

`leadingZeros n` counts the zeros before the highest bit of a number of `n` bits, and `card_leadingZeros` how many
numbers have so many.
-/

namespace BitStream

variable {w k : Nat} {f : Nat → Nat} {g : Nat → Bool}

/-- The words of a sequence, as one stream of bits. -/
def bits (w : Nat) (f : Nat → Nat) (k : Nat) : Bool := (f (k / w)).testBit (k % w)

/-- The stream, cut into words again. -/
def words (w : Nat) (g : Nat → Bool) (i : Nat) : Nat := Nat.ofBits fun t : Fin w => g (w * i + t)

theorem words_lt (w : Nat) (g : Nat → Bool) (i : Nat) : words w g i < 2 ^ w := Nat.ofBits_lt_two_pow _

/-- The bits of a word are the next ones of the stream. -/
theorem testBit_words (w : Nat) (g : Nat → Bool) (i t : Nat) :
    (words w g i).testBit t = (decide (t < w) && g (w * i + t)) := by
  rw [words, Nat.testBit_ofBits]
  split <;> simp [*]

theorem bits_words (wide : 0 < w) (g : Nat → Bool) (k : Nat) : bits w (words w g) k = g k := by
  rw [bits, testBit_words, Nat.div_add_mod]
  simp [Nat.mod_lt k wide]

theorem words_congr {g' : Nat → Bool} {i : Nat} (same : ∀ t < w, g (w * i + t) = g' (w * i + t)) :
    words w g i = words w g' i := by
  refine Nat.eq_of_testBit_eq fun t => ?_
  rw [testBit_words, testBit_words]
  by_cases inside : t < w
  · rw [same t inside]
  · simp [inside]

theorem words_bits {i : Nat} (small : f i < 2 ^ w) : words w (bits w f) i = f i := by
  refine Nat.eq_of_testBit_eq fun t => ?_
  rw [testBit_words, bits]
  by_cases inside : t < w
  · have place : (w * i + t) / w = i := by
      rw [Nat.mul_add_div (by omega), Nat.div_eq_of_lt inside, Nat.add_zero]
    rw [place, Nat.mul_add_mod, Nat.mod_eq_of_lt inside]
    simp [inside]
  · have high : (f i).testBit t = false :=
      Nat.testBit_lt_two_pow (small.trans_le (Nat.pow_le_pow_right (by omega) (by omega)))
    simp [inside, high]

/-! ## The highest bit -/

/-- The zeros before the highest bit of a number of `n` bits, all `n` of 0. -/
def leadingZeros : (n : Nat) → Nat → Nat
  | 0, _ => 0
  | n + 1, x => if x.testBit n then 0 else leadingZeros n x + 1

/-- What is no leading zero belongs to the number. -/
theorem leadingZeros_add_size {n x : Nat} (below : x < 2 ^ n) : leadingZeros n x + x.size = n := by
  induction n with
  | zero =>
    obtain rfl : x = 0 := by omega
    simp [leadingZeros]
  | succ n ih =>
    rw [leadingZeros]
    by_cases low : x < 2 ^ n
    · rw [Nat.testBit_lt_two_pow low, if_neg (by simp)]
      have rest := ih low
      omega
    · have top := Nat.testBit_of_two_pow_le_and_two_pow_add_one_gt (Nat.not_lt.1 low) below
      rw [top, if_pos rfl, Nat.zero_add]
      exact le_antisymm (Nat.size_le.2 below) (Nat.lt_size.2 (Nat.not_lt.1 low))

/-- The size of a number is the place of its highest bit. -/
theorem size_eq_iff {r x : Nat} : x.size = r + 1 ↔ 2 ^ r ≤ x ∧ x < 2 ^ (r + 1) := by
  rw [← Nat.lt_size, ← Nat.size_le]
  omega

/-- Half of the numbers of `r + 1` bits have their highest bit at the last place. -/
theorem card_size {n r : Nat} (inside : r < n) :
    ((Finset.range (2 ^ n)).filter fun x => x.size = r + 1).card = 2 ^ r := by
  have same : (Finset.range (2 ^ n)).filter (fun x => x.size = r + 1) = Finset.Ico (2 ^ r) (2 ^ (r + 1)) := by
    ext x
    rw [Finset.mem_filter, Finset.mem_range, Finset.mem_Ico, size_eq_iff]
    have bound : 2 ^ (r + 1) ≤ 2 ^ n := Nat.pow_le_pow_right (by omega) inside
    omega
  rw [same, Nat.card_Ico, Nat.pow_succ]
  omega

/-- Among the numbers of a width, every further leading zero halves how many there are. -/
theorem card_leadingZeros {n r : Nat} (inside : r < n) :
    ((Finset.range (2 ^ n)).filter fun x => leadingZeros n x = r).card = 2 ^ (n - 1 - r) := by
  rw [← card_size (show n - 1 - r < n by omega)]
  congr 1
  ext x
  simp only [Finset.mem_filter, Finset.mem_range, and_congr_right_iff]
  intro below
  have total := leadingZeros_add_size below
  omega

end BitStream
