import Mathlib
import NexradeCache.Lib.Bytes

/-!
# Byte strings as bit vectors

The bits of a byte string, the highest of each byte first. `bitAt` is false past the end, so a byte string extended
with zeros is the same bit vector. Writing a bit changes that bit and no other (`bitAt_write`), operations on bytes
are operations on bits, and the bits that are set can be counted byte by byte (`sum_countOnes`).
-/

namespace Bits

variable {bytes : Bytes} {i j n : Nat}

/-! ## One byte -/

/-- The bit of a byte at a place that is counted from the lowest. -/
def bitOf (b : UInt8) (pos : Nat) : Bool := b.toBitVec.getLsbD pos

/-- A byte with one bit written. -/
def withBit (b : UInt8) (pos : Nat) (v : Bool) : UInt8 :=
  if v then b ||| 1 <<< UInt8.ofNat pos else b &&& ~~~(1 <<< UInt8.ofNat pos)

/-- `count_ones`. -/
def countOnes (b : UInt8) : Nat := (List.range 8).countP fun k => bitOf b (7 - k)

theorem shift_and_one (b : UInt8) {pos : Nat} (inside : pos < 8) :
    ((b >>> UInt8.ofNat pos) &&& 1 == 1) = bitOf b pos := by
  rw [Bool.eq_iff_iff, beq_iff_eq]
  have low : (b >>> UInt8.ofNat pos).toNat = b.toNat >>> pos := by
    rw [UInt8.toNat_shiftRight, UInt8.toNat_ofNat', Nat.mod_mod_of_dvd _ (by decide), Nat.mod_eq_of_lt inside]
  rw [← UInt8.toNat_inj, UInt8.toNat_and, low]
  show b.toNat >>> pos &&& 1 = 1 ↔ b.toNat.testBit pos = true
  rw [Nat.testBit, Nat.and_comm]
  simp

theorem getLsbD_one_shift {pos : Nat} (inside : pos < 8) (k : Nat) :
    ((1 : UInt8) <<< UInt8.ofNat pos).toBitVec.getLsbD k = decide (k = pos) := by
  have value : ((1 : UInt8) <<< UInt8.ofNat pos).toNat = 2 ^ pos := by
    rw [UInt8.toNat_shiftLeft, UInt8.toNat_ofNat', Nat.mod_mod_of_dvd _ (by decide), Nat.mod_eq_of_lt inside]
    show 1 <<< pos % 2 ^ 8 = 2 ^ pos
    rw [Nat.one_shiftLeft]
    exact Nat.mod_eq_of_lt (Nat.pow_lt_pow_right (by omega) inside)
  show ((1 : UInt8) <<< UInt8.ofNat pos).toNat.testBit k = _
  rw [value, Nat.testBit_two_pow]
  exact decide_eq_decide.2 eq_comm

theorem bitOf_withBit (b : UInt8) {pos k : Nat} (v : Bool) (inside : pos < 8) (low : k < 8) :
    bitOf (withBit b pos v) k = if k = pos then v else bitOf b k := by
  have single := getLsbD_one_shift inside k
  cases v with
  | true =>
    rw [withBit, if_pos rfl, bitOf, UInt8.toBitVec_or, BitVec.getLsbD_or, single]
    by_cases same : k = pos <;> simp [same, bitOf]
  | false =>
    rw [withBit, if_neg (by simp), bitOf, UInt8.toBitVec_and, UInt8.toBitVec_not, BitVec.getLsbD_and, BitVec.getLsbD_not,
      single]
    by_cases same : k = pos <;> simp [same, bitOf, low]

/-! ## Byte strings -/

/-- The bit at a position. -/
def bitAt (bytes : Bytes) (i : Nat) : Bool := bitOf (bytes.getD (i / 8) 0) (7 - i % 8)

theorem bitAt_of_length_le (h : 8 * bytes.length ≤ i) : bitAt bytes i = false := by
  have past : bytes.length ≤ i / 8 := by omega
  rw [bitAt, List.getD_eq_default _ _ past]
  exact BitVec.getLsbD_zero

theorem bitAt_eq_of_getElem? {b : UInt8} (h : bytes[i / 8]? = some b) : bitAt bytes i = bitOf b (7 - i % 8) := by
  rw [bitAt, List.getD_eq_getElem?_getD, h, Option.getD_some]

/-- A write at a position. -/
def write (bytes : Bytes) (i : Nat) (v : Bool) : Bytes :=
  bytes.set (i / 8) (withBit (bytes.getD (i / 8) 0) (7 - i % 8) v)

@[simp] theorem length_write (bytes : Bytes) (i : Nat) (v : Bool) : (write bytes i v).length = bytes.length :=
  List.length_set

theorem bitAt_write (inside : i / 8 < bytes.length) (v : Bool) (j : Nat) :
    bitAt (write bytes i v) j = if j = i then v else bitAt bytes j := by
  unfold bitAt write
  by_cases sameByte : j / 8 = i / 8
  · have here : (bytes.set (i / 8) (withBit (bytes.getD (i / 8) 0) (7 - i % 8) v)).getD (j / 8) 0 =
        withBit (bytes.getD (i / 8) 0) (7 - i % 8) v := by
      rw [sameByte, List.getD_eq_getElem?_getD, List.getElem?_set_self inside, Option.getD_some]
    have place : 7 - j % 8 = 7 - i % 8 ↔ j = i := by omega
    rw [here, bitOf_withBit _ v (by omega) (by omega), sameByte]
    simp only [place]
  · have other : j ≠ i := fun same => sameByte (by rw [same])
    rw [if_neg other, List.getD_eq_getElem?_getD, List.getElem?_set_ne (Ne.symm sameByte), ← List.getD_eq_getElem?_getD]

/-- At least this many bytes, with zeros. -/
def grow (bytes : Bytes) (n : Nat) : Bytes := bytes ++ List.replicate (n - bytes.length) 0

@[simp] theorem length_grow (bytes : Bytes) (n : Nat) : (grow bytes n).length = max bytes.length n := by
  rw [grow, List.length_append, List.length_replicate]
  omega

theorem grow_of_le (enough : n ≤ bytes.length) : grow bytes n = bytes := by
  have none : n - bytes.length = 0 := by omega
  rw [grow, none, List.replicate_zero, List.append_nil]

@[simp] theorem bitAt_grow (bytes : Bytes) (n i : Nat) : bitAt (grow bytes n) i = bitAt bytes i := by
  have same : (grow bytes n).getD (i / 8) 0 = bytes.getD (i / 8) 0 := by
    by_cases inside : i / 8 < bytes.length
    · rw [grow, List.getD_append _ _ _ _ inside]
    · rw [grow, List.getD_append_right _ _ _ _ (by omega), List.getD_eq_default bytes _ (by omega)]
      rw [List.getD_eq_getElem?_getD, List.getElem?_replicate]
      split <;> rfl
  rw [bitAt, same, bitAt]

theorem bitAt_replicate_zero (n i : Nat) : bitAt (List.replicate n 0) i = false := by
  have zeros : grow [] n = List.replicate n 0 := by rw [grow, List.nil_append, List.length_nil, Nat.sub_zero]
  rw [← zeros, bitAt_grow]
  exact bitAt_of_length_le (by simp)

/-! ## Counting -/

theorem countP_range_eight (bytes : Bytes) (q : Nat) :
    (List.range' (8 * q) 8).countP (bitAt bytes) = countOnes (bytes.getD q 0) := by
  rw [List.range'_eq_map_range, List.countP_map, countOnes]
  refine List.countP_congr fun k mem => ?_
  have low := List.mem_range.1 mem
  have byte : (8 * q + k) / 8 = q := by omega
  have place : (8 * q + k) % 8 = k := by omega
  simp only [Function.comp_apply, bitAt, byte, place]

/-- The bits that are set in consecutive bytes, byte by byte. -/
theorem sum_countOnes (bytes : Bytes) (q m : Nat) (inside : q + m ≤ bytes.length) :
    (((bytes.drop q).take m).map countOnes).sum = (List.range' (8 * q) (8 * m)).countP (bitAt bytes) := by
  induction m with
  | zero => simp
  | succ m ih =>
    have last : (bytes.drop q)[m]? = some (bytes.getD (q + m) 0) := by
      rw [List.getElem?_drop, List.getD_eq_getElem?_getD, List.getElem?_eq_getElem (by omega), Option.getD_some]
    have eight : 8 * (m + 1) = 8 * m + 8 := by omega
    have more : List.range' (8 * q) (8 * (m + 1)) = List.range' (8 * q) (8 * m) ++ List.range' (8 * (q + m)) 8 := by
      rw [eight, ← List.range'_append_1, Nat.mul_add]
    rw [List.take_add_one, last, more, List.countP_append, countP_range_eight, ← ih (by omega)]
    simp

end Bits
