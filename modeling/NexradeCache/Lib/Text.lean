import Mathlib
import NexradeCache.Lib.Bytes

/-!
# Text as bytes

`asBytes` is the UTF-8 image of a string, `fromUtf8` the checked way back and `fromUtf8Lossy`
the total one, which puts U+FFFD for each maximal ill-formed part. The decimal numerals of
naturals and integers, and the readers of `str::parse` for fixed-width integers, are at the end.
-/

namespace Utf8

/-- The UTF-8 bytes of `s`. -/
def asBytes (s : String) : Bytes := s.toByteArray.data.toList

/-- The string `b` encodes, if it is well formed. -/
def fromUtf8 (b : Bytes) : Option String := String.fromUTF8? b.toByteArray

@[simp] theorem fromUtf8_asBytes (s : String) : fromUtf8 (asBytes s) = some s := by
  have same : (asBytes s).toByteArray = s.toByteArray := by
    apply ByteArray.ext
    simp [asBytes]
  rw [fromUtf8, String.fromUTF8?, same, dif_pos s.isValidUTF8]
  rfl

theorem asBytes_injective : Function.Injective asBytes := by
  intro s t same
  have read := congrArg fromUtf8 same
  simpa using read

theorem asBytes_of_fromUtf8 {b : Bytes} {s : String} (h : fromUtf8 b = some s) : asBytes s = b := by
  rw [fromUtf8, String.fromUTF8?] at h
  split at h
  · cases h
    simp [asBytes, String.fromUTF8]
  · cases h

theorem utf8EncodeChar_ofNat {n : Nat} (small : n < 128) :
    String.utf8EncodeChar (Char.ofNat n) = [UInt8.ofNat n] := by
  revert n
  decide

@[simp] theorem asBytes_append (s t : String) : asBytes (s ++ t) = asBytes s ++ asBytes t := by
  rw [asBytes, String.toByteArray_append, ByteArray.data_append, Array.toList_append]
  rfl

theorem asBytes_ofList (cs : List Char) : asBytes (.ofList cs) = cs.flatMap String.utf8EncodeChar := by
  rw [asBytes, String.toByteArray_ofList, List.utf8Encode, List.data_toByteArray]

/-- A byte below 128 is a character of its own. -/
theorem toNat_of_mem_utf8EncodeChar {c : Char} {x : UInt8} (mem : x ∈ String.utf8EncodeChar c) (small : x < 128) :
    c.toNat = x.toNat := by
  rw [String.utf8EncodeChar] at mem
  rw [UInt8.lt_iff_toNat_lt] at small
  split_ifs at mem with h1 h2 h3 <;> simp only [List.mem_cons, List.not_mem_nil, or_false] at mem
  · rw [mem, UInt8.toNat_ofNat', Nat.mod_eq_of_lt (by omega)]
    rfl
  all_goals
    exfalso
    rcases mem with rfl | rfl | rfl | rfl <;> simp [UInt8.toNat_ofNat] at small <;> omega

theorem fromUtf8_ascii {b : Bytes} (ascii : ∀ x ∈ b, x < 128) :
    ∃ s, fromUtf8 b = some s ∧ asBytes s = b := by
  have valid : b.toByteArray.IsValidUTF8 := by
    refine ⟨b.map fun x => Char.ofNat x.toNat, ?_⟩
    apply ByteArray.ext
    rw [List.data_toByteArray, List.utf8Encode, List.data_toByteArray]
    congr 1
    induction b with
    | nil => rfl
    | cons x b ih =>
      have small : x.toNat < 128 := UInt8.lt_iff_toNat_lt.1 (ascii x (by simp))
      rw [List.map_cons, List.flatMap_cons, ← ih fun y hy => ascii y (by simp [hy]),
        utf8EncodeChar_ofNat small]
      simp
  refine ⟨String.fromUTF8 _ valid, ?_, ?_⟩
  · rw [fromUtf8, String.fromUTF8?, dif_pos valid]
  · simp [asBytes, String.fromUTF8]

/-- The length of the maximal ill-formed part `b` starts with, when no character starts there. -/
def illFormed (b : Bytes) : Nat :=
  let x := b.getD 0 0
  let y := b.getD 1 0
  let continued (z : UInt8) : Bool := z &&& 192 == 128
  let three : Bool := (x == 0xE0 && 0xA0 ≤ y && y ≤ 0xBF) || (0xE1 ≤ x && x ≤ 0xEC && continued y) ||
    (x == 0xED && 0x80 ≤ y && y ≤ 0x9F) || (0xEE ≤ x && x ≤ 0xEF && continued y)
  let four : Bool := (x == 0xF0 && 0x90 ≤ y && y ≤ 0xBF) || (0xF1 ≤ x && x ≤ 0xF3 && continued y) ||
    (x == 0xF4 && 0x80 ≤ y && y ≤ 0x8F)
  if three then 2 else if four then (if continued (b.getD 2 0) then 3 else 2) else 1

/-- The characters of `b` in at most `k` rounds, U+FFFD for each ill-formed part. -/
def lossyChars : Nat → Bytes → List Char
  | 0, _ => []
  | _ + 1, [] => []
  | k + 1, b =>
    match b.toByteArray.utf8DecodeChar? 0 with
    | some c => c :: lossyChars k (b.drop c.utf8Size)
    | none => Char.ofNat 0xFFFD :: lossyChars k (b.drop (illFormed b))

/-- The string `b` encodes, with ill-formed parts replaced. -/
def fromUtf8Lossy (b : Bytes) : String := (fromUtf8 b).getD (String.ofList (lossyChars b.length b))

@[simp] theorem fromUtf8Lossy_asBytes (s : String) : fromUtf8Lossy (asBytes s) = s := by
  rw [fromUtf8Lossy, fromUtf8_asBytes, Option.getD_some]

end Utf8

namespace Decimal

open Utf8

/-- The byte of the last digit of `v`. -/
def digit (v : Nat) : UInt8 := UInt8.ofNat (48 + v % 10)

def isDigit (x : UInt8) : Bool := 48 ≤ x && x ≤ 57

/-- Write the digits of `v` in front of `tail`, at most `k` of them, last digit first. -/
def fill : Nat → Nat → Bytes → Bytes
  | 0, _, tail => tail
  | k + 1, v, tail => if v = 0 then tail else fill k (v / 10) (digit v :: tail)

/-- The decimal numeral of `n`. -/
def numeral (n : Nat) : Bytes := if n = 0 then [48] else fill n n []

/-- Read digits behind a numeral of value `acc`. -/
def value : Nat → Bytes → Option Nat
  | acc, [] => some acc
  | acc, x :: xs => if isDigit x then value (acc * 10 + (x.toNat - 48)) xs else none

/-- `str::parse::<i64>`: an optional sign, at least one digit, a value in range. -/
def parseI64 (s : String) : Option Int64 :=
  let inRange (n : Int) : Option Int64 :=
    if -(2 ^ 63) ≤ n ∧ n < 2 ^ 63 then some (Int64.ofInt n) else none
  match asBytes s with
  | [] => none
  | 43 :: ds => if ds.isEmpty then none else (value 0 ds).bind fun n => inRange n
  | 45 :: ds => if ds.isEmpty then none else (value 0 ds).bind fun n => inRange (-n)
  | ds => (value 0 ds).bind fun n => inRange n

/-- `str::parse::<usize>`: an optional plus sign, at least one digit, a value below `2 ^ 64`. -/
def parseUsize (s : String) : Option Nat :=
  let inRange (n : Nat) : Option Nat := if n < 2 ^ 64 then some n else none
  match asBytes s with
  | [] => none
  | 43 :: ds => if ds.isEmpty then none else (value 0 ds).bind inRange
  | ds => (value 0 ds).bind inRange

theorem digit_toNat (v : Nat) : (digit v).toNat = 48 + v % 10 := by
  have small : v % 10 < 10 := Nat.mod_lt v (by decide)
  rw [digit, UInt8.toNat_ofNat']
  omega

theorem isDigit_digit (v : Nat) : isDigit (digit v) = true := by
  have small : v % 10 < 10 := Nat.mod_lt v (by decide)
  have same := digit_toNat v
  simp only [isDigit, Bool.and_eq_true, decide_eq_true_eq, UInt8.le_iff_toNat_le, same]
  constructor
  · show 48 ≤ _; omega
  · show _ ≤ 57; omega

/-- Reading what `fill` wrote. -/
theorem value_fill {k v : Nat} (fits : v < 10 ^ k) (tail : Bytes) :
    value 0 (fill k v tail) = value v tail := by
  induction k generalizing v tail with
  | zero =>
    have none : v = 0 := by omega
    rw [fill, none]
  | succ k ih =>
    rw [fill]
    split
    · rename_i none
      rw [none]
    · rw [ih (by rw [Nat.div_lt_iff_lt_mul (by decide)]; omega), value, if_pos (isDigit_digit v),
        digit_toNat]
      congr 1
      omega

theorem isDigit_of_mem_fill {k v : Nat} {tail : Bytes} {x : UInt8} (mem : x ∈ fill k v tail) :
    isDigit x = true ∨ x ∈ tail := by
  induction k generalizing v tail with
  | zero => exact .inr mem
  | succ k ih =>
    rw [fill] at mem
    split at mem
    · exact .inr mem
    · rcases ih mem with d | mem
      · exact .inl d
      · rcases List.mem_cons.1 mem with rfl | mem
        · exact .inl (isDigit_digit v)
        · exact .inr mem

theorem length_fill_ge (k v : Nat) (tail : Bytes) : tail.length ≤ (fill k v tail).length := by
  induction k generalizing v tail with
  | zero => simp [fill]
  | succ k ih =>
    rw [fill]
    split
    · exact Nat.le_refl _
    · have rest := ih (v / 10) (digit v :: tail)
      rw [List.length_cons] at rest
      omega

/-- A number below `10 ^ j` has at most `j` digits. -/
theorem length_fill_le {j k v : Nat} (fits : v < 10 ^ j) (tail : Bytes) :
    (fill k v tail).length ≤ j + tail.length := by
  induction k generalizing j v tail with
  | zero => simp [fill]
  | succ k ih =>
    rw [fill]
    split
    · omega
    · obtain ⟨i, rfl⟩ : ∃ i, j = i + 1 := ⟨j - 1, by cases j <;> simp_all⟩
      have rest := ih (j := i) (v := v / 10) (by rw [Nat.div_lt_iff_lt_mul (by decide)]; omega)
        (digit v :: tail)
      rw [List.length_cons] at rest
      omega

theorem fill_ne_nil {k v : Nat} (positive : v ≠ 0) : fill (k + 1) v [] ≠ [] := by
  rw [fill, if_neg positive]
  have one := length_fill_ge k (v / 10) [digit v]
  intro none
  rw [none] at one
  simp at one

/-- A non-empty string of digits. -/
structure IsNumeral (ds : Bytes) : Prop where
  nonempty : ds ≠ []
  digits : ∀ x ∈ ds, isDigit x = true

theorem isNumeral_fill {k v : Nat} (positive : v ≠ 0) : IsNumeral (fill (k + 1) v []) where
  nonempty := fill_ne_nil positive
  digits x mem := by
    rcases isDigit_of_mem_fill mem with d | none
    · exact d
    · cases none

theorem isNumeral_digit (v : Nat) : IsNumeral [digit v] where
  nonempty := List.cons_ne_nil _ _
  digits x mem := by
    rw [List.mem_singleton.1 mem]
    exact isDigit_digit v

theorem isNumeral_numeral (n : Nat) : IsNumeral (numeral n) := by
  rw [numeral]
  split
  · exact isNumeral_digit 0
  · rename_i positive
    obtain ⟨k, rfl⟩ : ∃ k, n = k + 1 := ⟨n - 1, by omega⟩
    exact isNumeral_fill positive

theorem value_numeral (n : Nat) : value 0 (numeral n) = some n := by
  rw [numeral]
  split
  · rename_i none
    rw [none]
    decide
  · rw [value_fill (Nat.lt_pow_self (by decide))]
    rfl

namespace IsNumeral

variable {ds : Bytes}

theorem not_mem (numeral : IsNumeral ds) {x : UInt8} (other : isDigit x = false) : x ∉ ds := by
  intro mem
  rw [numeral.digits x mem] at other
  cases other

theorem ascii (numeral : IsNumeral ds) : ∀ x ∈ ds, x < 128 := by
  intro x mem
  have upper := numeral.digits x mem
  simp only [isDigit, Bool.and_eq_true, decide_eq_true_eq] at upper
  exact lt_of_le_of_lt upper.2 (by decide)

theorem parseUsize (numeral : IsNumeral ds) {n : Nat} (val : value 0 ds = some n) (fits : n < 2 ^ 64)
    {s : String} (text : asBytes s = ds) : parseUsize s = some n := by
  obtain ⟨x, xs, rfl⟩ := List.exists_cons_of_ne_nil numeral.nonempty
  have plain : x ≠ 43 := by
    intro h
    subst h
    exact numeral.not_mem (x := 43) (by decide) (by simp)
  rw [Decimal.parseUsize, text]
  split
  · cases ‹x :: xs = []›
  · exact absurd (List.cons.inj ‹x :: xs = 43 :: _›).1 plain
  · rw [val, Option.bind_some, if_pos fits]

theorem parseI64 (numeral : IsNumeral ds) {n : Nat} (val : value 0 ds = some n) (fits : n < 2 ^ 63)
    {s : String} (text : asBytes s = ds) : parseI64 s = some (Int64.ofInt n) := by
  obtain ⟨x, xs, rfl⟩ := List.exists_cons_of_ne_nil numeral.nonempty
  have unsigned : x ≠ 43 ∧ x ≠ 45 := by
    constructor <;> intro h <;> subst h
    · exact numeral.not_mem (x := 43) (by decide) (by simp)
    · exact numeral.not_mem (x := 45) (by decide) (by simp)
  rw [Decimal.parseI64, text]
  split
  · cases ‹x :: xs = []›
  · exact absurd (List.cons.inj ‹x :: xs = 43 :: _›).1 unsigned.1
  · exact absurd (List.cons.inj ‹x :: xs = 45 :: _›).1 unsigned.2
  · rw [val, Option.bind_some]
    exact if_pos (by omega)

theorem parseI64_neg (numeral : IsNumeral ds) {n : Nat} (val : value 0 ds = some n)
    (fits : n ≤ 2 ^ 63) {s : String} (text : asBytes s = 45 :: ds) :
    Decimal.parseI64 s = some (Int64.ofInt (-n)) := by
  rw [Decimal.parseI64, text]
  simp only [List.isEmpty_iff, numeral.nonempty, if_false, val, Option.bind_some]
  rw [if_pos (by omega)]

end IsNumeral

end Decimal
