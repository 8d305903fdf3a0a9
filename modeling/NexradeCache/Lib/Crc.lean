import Mathlib.Algebra.CharP.Two
import Mathlib.Algebra.Polynomial.Div
import Mathlib.Algebra.Field.ZMod
import Mathlib.RingTheory.Polynomial.Basic
import Mathlib.Tactic.Ring

/-!
# Cyclic redundancy checks

A word of `w` bits is a polynomial over GF(2) of degree less than `w`, its highest bit the highest power. `shift g`
multiplies by X modulo `generator g`, and `feed g` adds a byte below the word and multiplies by X to the eighth. So a
check that starts from 0 is a remainder (`poly_check`), and `feed_eq_table` takes the eight shifts from a table.
-/

namespace Crc

open Polynomial

variable {w : Nat} {g : BitVec w}

/-! ## Words as polynomials -/

/-- The polynomial with these coefficients below `n`. -/
noncomputable def polyOf (f : Nat → Bool) (n : Nat) : (ZMod 2)[X] := ∑ i ∈ Finset.range n, if f i then X ^ i else 0

/-- The polynomial over the field of two elements whose coefficients are the bits of a word. -/
noncomputable def poly (v : BitVec w) : (ZMod 2)[X] := polyOf v.getLsbD w

theorem polyOf_succ (f : Nat → Bool) (n : Nat) : polyOf f (n + 1) = polyOf f n + if f n then X ^ n else 0 :=
  Finset.sum_range_succ _ _

theorem polyOf_congr {f f' : Nat → Bool} {n : Nat} (same : ∀ i < n, f i = f' i) : polyOf f n = polyOf f' n :=
  Finset.sum_congr rfl fun i mem => by rw [same i (Finset.mem_range.1 mem)]

theorem polyOf_of_false {f : Nat → Bool} {n : Nat} (zero : ∀ i < n, f i = false) : polyOf f n = 0 :=
  Finset.sum_eq_zero fun i mem => by simp [zero i (Finset.mem_range.1 mem)]

/-- The sum of two polynomials has the exclusive or of their bits. -/
theorem polyOf_xor (f f' : Nat → Bool) (n : Nat) : polyOf (fun i => f i ^^ f' i) n = polyOf f n + polyOf f' n := by
  rw [polyOf, polyOf, polyOf, ← Finset.sum_add_distrib]
  refine Finset.sum_congr rfl fun i _ => ?_
  cases f i <;> cases f' i <;> simp [CharTwo.add_self_eq_zero]

/-- Coefficients that are moved up by `k` places. -/
theorem polyOf_add (f : Nat → Bool) (k n : Nat) :
    polyOf (fun i => decide (k ≤ i) && f (i - k)) (k + n) = X ^ k * polyOf f n := by
  induction n with
  | zero =>
    rw [polyOf_of_false fun i below => by simp; omega]
    simp [polyOf]
  | succ n ih =>
    have top : (decide (k ≤ k + n) && f (k + n - k)) = f n := by simp
    rw [← Nat.add_assoc, polyOf_succ, ih, top, polyOf_succ, mul_add, pow_add]
    split <;> simp

theorem polyOf_degree (f : Nat → Bool) (n : Nat) : (polyOf f n).degree < n := by
  refine Polynomial.mem_degreeLT.1 (Submodule.sum_mem _ fun i mem => ?_)
  have below := Finset.mem_range.1 mem
  split
  · rw [Polynomial.mem_degreeLT, degree_X_pow]
    exact_mod_cast below
  · exact Submodule.zero_mem _

theorem poly_degree (v : BitVec w) : (poly v).degree < w := polyOf_degree _ _

@[simp] theorem poly_zero : poly (0#w) = 0 := polyOf_of_false fun _ _ => BitVec.getLsbD_zero

@[simp] theorem poly_xor (a b : BitVec w) : poly (a ^^^ b) = poly a + poly b := by
  rw [poly, poly, poly, ← polyOf_xor]
  exact polyOf_congr fun i _ => BitVec.getLsbD_xor

/-- A byte at the top of a word. -/
def atTop (w : Nat) (b : BitVec 8) : BitVec w := b.setWidth w <<< (w - 8)

/-- A byte at the top of a word is shifted up. -/
theorem poly_atTop (wide : 8 ≤ w) (b : BitVec 8) : poly (atTop w b) = X ^ (w - 8) * poly b := by
  rw [poly, poly, ← polyOf_add]
  have width : w - 8 + 8 = w := by omega
  rw [width]
  refine polyOf_congr fun i below => ?_
  rw [atTop, BitVec.getLsbD_shiftLeft, BitVec.getLsbD_setWidth]
  by_cases above : w - 8 ≤ i
  · have inside : i - (w - 8) < w := by omega
    simp [above, below, inside, Nat.not_lt.2 above]
  · simp [above, below, Nat.not_le.1 above]

/-! ## The register -/

/-- One place up, and reduced if the highest bit falls out. -/
def shift (g v : BitVec w) : BitVec w := if v.getLsbD (w - 1) then (v <<< 1) ^^^ g else v <<< 1

/-- The generator of a check; its highest power is not in the word. -/
noncomputable def generator (g : BitVec w) : (ZMod 2)[X] := X ^ w + poly g

/-- The generator is monic: its highest coefficient is the bit that the word leaves out. -/
theorem generator_monic (g : BitVec w) : (generator g).Monic := monic_X_pow_add (poly_degree g)

/-- A shift multiplies by X, but for the bit that falls out at the top. -/
theorem poly_shiftLeft_one (pos : 0 < w) (v : BitVec w) :
    X * poly v = poly (v <<< 1) + if v.getLsbD (w - 1) then X ^ w else 0 := by
  obtain ⟨n, rfl⟩ : ∃ n, w = n + 1 := ⟨w - 1, by omega⟩
  have moved : poly (v <<< 1) = X * polyOf v.getLsbD n := by
    have up := polyOf_add v.getLsbD 1 n
    rw [pow_one] at up
    have width : n + 1 = 1 + n := Nat.add_comm n 1
    rw [← up, ← width, poly]
    refine polyOf_congr fun i below => ?_
    rw [BitVec.getLsbD_shiftLeft]
    by_cases first : i = 0
    · simp [first]
    · have later : 1 ≤ i := by omega
      simp [below, first, later]
  rw [moved, poly, polyOf_succ, mul_add, Nat.add_sub_cancel, pow_succ']
  split <;> simp

theorem generator_dvd_shift (pos : 0 < w) (g v : BitVec w) : generator g ∣ poly (shift g v) - X * poly v := by
  rw [poly_shiftLeft_one pos, shift, CharTwo.sub_eq_add]
  split
  · have twice : poly (v <<< 1) + poly (v <<< 1) = 0 := CharTwo.add_self_eq_zero _
    have sum : poly (v <<< 1 ^^^ g) + (poly (v <<< 1) + X ^ w) = generator g :=
      calc poly (v <<< 1 ^^^ g) + (poly (v <<< 1) + X ^ w)
        _ = (poly (v <<< 1) + poly (v <<< 1)) + (X ^ w + poly g) := by
          rw [poly_xor]
          ring
        _ = generator g := by rw [twice, zero_add, generator]
    rw [sum]
  · rw [add_zero, CharTwo.add_self_eq_zero]
    exact dvd_zero _

/-- After k shifts with reduction a word is X^k times what it was, up to a multiple of the generator. -/
theorem generator_dvd_shifts (pos : 0 < w) (g v : BitVec w) (k : Nat) :
    generator g ∣ poly ((shift g)^[k] v) - X ^ k * poly v := by
  induction k with
  | zero => simp
  | succ k ih =>
    rw [Function.iterate_succ_apply']
    have one := generator_dvd_shift pos g ((shift g)^[k] v)
    have rest := Dvd.dvd.mul_left ih X
    have sum := dvd_add one rest
    have eq : poly (shift g ((shift g)^[k] v)) - X * poly ((shift g)^[k] v) +
        X * (poly ((shift g)^[k] v) - X ^ k * poly v) =
        poly (shift g ((shift g)^[k] v)) - X ^ (k + 1) * poly v := by ring
    rwa [eq] at sum

/-! ## Bytes -/

/-- One byte of the message. -/
def feed (g : BitVec w) (c : BitVec w) (b : BitVec 8) : BitVec w := (shift g)^[8] (c ^^^ atTop w b)

/-- The bytes of a message as one polynomial, the highest bit of the first byte its highest power. -/
noncomputable def message (d : List (BitVec 8)) : (ZMod 2)[X] := d.foldl (fun p b => p * X ^ 8 + poly b) 0

/-- A byte that is fed in appends its eight coefficients, up to a multiple of the generator. -/
theorem generator_dvd_feed (wide : 8 ≤ w) {c : BitVec w} {p : (ZMod 2)[X]} (b : BitVec 8)
    (h : generator g ∣ poly c - p * X ^ w) : generator g ∣ poly (feed g c b) - (p * X ^ 8 + poly b) * X ^ w := by
  have shifted := generator_dvd_shifts (by omega) g (c ^^^ atTop w b) 8
  have before := Dvd.dvd.mul_left h (X ^ 8)
  have sum := dvd_add shifted before
  rw [poly_xor, poly_atTop wide] at sum
  have width : (X : (ZMod 2)[X]) ^ w = X ^ 8 * X ^ (w - 8) := by rw [← pow_add, Nat.add_sub_cancel' wide]
  have eq : poly ((shift g)^[8] (c ^^^ atTop w b)) - X ^ 8 * (poly c + X ^ (w - 8) * poly b) +
      X ^ 8 * (poly c - p * X ^ w) = poly ((shift g)^[8] (c ^^^ atTop w b)) - (p * X ^ 8 + poly b) * X ^ w := by
    rw [width]
    ring
  rwa [eq] at sum

/-- **The register of a whole message is its remainder**: by induction on the bytes, what is read so far times X^w
agrees with the register up to a multiple of the generator. -/
theorem generator_dvd_check (wide : 8 ≤ w) (d : List (BitVec 8)) (c : BitVec w) (p : (ZMod 2)[X])
    (h : generator g ∣ poly c - p * X ^ w) :
    generator g ∣ poly (d.foldl (feed g) c) - d.foldl (fun p b => p * X ^ 8 + poly b) p * X ^ w := by
  induction d generalizing c p with
  | nil => exact h
  | cons b d ih => exact ih _ _ (generator_dvd_feed wide b h)

/-- **The check of a message is its remainder.** -/
theorem poly_check (wide : 8 ≤ w) (g : BitVec w) (d : List (BitVec 8)) :
    poly (d.foldl (feed g) 0#w) = (message d * X ^ w) %ₘ generator g := by
  have start : generator g ∣ poly (0#w) - 0 * X ^ w := by simp
  have all := generator_dvd_check wide d _ _ start
  have monic := generator_monic g
  have degree : (generator g).degree = w := by
    have below : (poly g).degree < (X ^ w : (ZMod 2)[X]).degree := by
      rw [degree_X_pow]
      exact poly_degree g
    rw [generator, degree_add_eq_left_of_degree_lt below, degree_X_pow]
  have reduced : poly (d.foldl (feed g) 0#w) %ₘ generator g = poly (d.foldl (feed g) 0#w) := by
    rw [modByMonic_eq_self_iff monic, degree]
    exact poly_degree _
  rw [← reduced]
  exact modByMonic_eq_of_dvd_sub monic all

/-! ## From a table -/

theorem shift_xor (g a b : BitVec w) : shift g (a ^^^ b) = shift g a ^^^ shift g b := by
  have cancel : (a <<< 1 ^^^ g) ^^^ (b <<< 1 ^^^ g) = a <<< 1 ^^^ b <<< 1 := by
    rw [BitVec.xor_assoc, BitVec.xor_comm g, BitVec.xor_assoc, BitVec.xor_self, BitVec.xor_zero]
  unfold shift
  rw [BitVec.getLsbD_xor, BitVec.shiftLeft_xor_distrib]
  cases a.getLsbD (w - 1) <;> cases b.getLsbD (w - 1)
  · rfl
  · exact BitVec.xor_assoc _ _ _
  · show (a <<< 1 ^^^ b <<< 1) ^^^ g = (a <<< 1 ^^^ g) ^^^ b <<< 1
    rw [BitVec.xor_assoc, BitVec.xor_comm (b <<< 1), ← BitVec.xor_assoc]
  · exact cancel.symm

theorem shifts_xor (g a b : BitVec w) (k : Nat) :
    (shift g)^[k] (a ^^^ b) = (shift g)^[k] a ^^^ (shift g)^[k] b := by
  induction k with
  | zero => rfl
  | succ k ih =>
    rw [Function.iterate_succ_apply', ih, shift_xor, Function.iterate_succ_apply', Function.iterate_succ_apply']

/-- A word whose highest places are clear only moves up. -/
theorem shifts_of_clear {v : BitVec w} {k : Nat} (clear : ∀ i, w ≤ i + k → v.getLsbD i = false) :
    (shift g)^[k] v = v <<< k := by
  induction k with
  | zero => simp
  | succ k ih =>
    have low : (v <<< k).getLsbD (w - 1) = false := by
      rw [BitVec.getLsbD_shiftLeft]
      by_cases below : w - 1 < k
      · simp [below]
      · rw [clear (w - 1 - k) (by omega)]
        simp
    rw [Function.iterate_succ_apply', ih fun i high => clear i (by omega), shift, low, BitVec.shiftLeft_add]
    rfl

/-- A byte meets only the top of the register, so the rest can be shifted out of the way. This is what a table is
built on. -/
theorem xor_atTop (wide : 8 ≤ w) (c : BitVec w) (b : BitVec 8) :
    c ^^^ atTop w b = (c <<< 8 >>> 8) ^^^ atTop w ((c >>> (w - 8)).setWidth 8 ^^^ b) := by
  refine BitVec.eq_of_getLsbD_eq fun i below => ?_
  simp only [atTop, BitVec.getLsbD_xor, BitVec.getLsbD_shiftLeft, BitVec.getLsbD_ushiftRight, BitVec.getLsbD_setWidth]
  by_cases above : w - 8 ≤ i
  · have place : w - 8 + (i - (w - 8)) = i := by omega
    have top : i - (w - 8) < 8 := by omega
    have inside : i - (w - 8) < w := by omega
    have out : ¬8 + i < w := by omega
    simp [Nat.not_lt.2 above, below, place, top, inside, out]
  · have inside : 8 + i < w := by omega
    simp [Nat.not_le.1 above, inside]

/-- A byte at a time, with the eight shifts of each byte from a table. -/
theorem feed_eq_table (wide : 8 ≤ w) {tab : BitVec 8 → BitVec w} (holds : ∀ b, tab b = (shift g)^[8] (atTop w b))
    (c : BitVec w) (b : BitVec 8) : feed g c b = (c <<< 8) ^^^ tab ((c >>> (w - 8)).setWidth 8 ^^^ b) := by
  have clear (i : Nat) (high : w ≤ i + 8) : (c <<< 8 >>> 8).getLsbD i = false := by
    rw [BitVec.getLsbD_ushiftRight, BitVec.getLsbD_shiftLeft]
    have out : ¬8 + i < w := by omega
    simp [out]
  have back : c <<< 8 >>> 8 <<< 8 = c <<< 8 := by
    refine BitVec.eq_of_getLsbD_eq fun i below => ?_
    simp only [BitVec.getLsbD_shiftLeft, BitVec.getLsbD_ushiftRight]
    by_cases low : i < 8
    · simp [low]
    · simp [low, below, show 8 + (i - 8) = i by omega]
  rw [feed, xor_atTop wide, shifts_xor, shifts_of_clear clear, back, holds]

end Crc
