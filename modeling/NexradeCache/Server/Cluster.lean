import NexradeCache.Lib.Bytes
import NexradeCache.Lib.Crc

/-!
# Slots of a cluster (`nexrade-core/src/cluster.rs`)

A key belongs to the slot that CRC-16/XMODEM gives to its hash tag, or to the whole key. The table of the code holds
the eight shifts of each byte, so `crc16Hash` is the check of `Lib/Crc`, which is the remainder of a polynomial;
`keyslot_correct` adds which part of the key is hashed.
-/

namespace NexradeCache

def CLUSTER_SLOTS : UInt16 := 16384

def CRC16_TAB : List UInt16 := [
  0x0000, 0x1021, 0x2042, 0x3063, 0x4084, 0x50a5, 0x60c6, 0x70e7, 0x8108, 0x9129, 0xa14a, 0xb16b,
  0xc18c, 0xd1ad, 0xe1ce, 0xf1ef, 0x1231, 0x0210, 0x3273, 0x2252, 0x52b5, 0x4294, 0x72f7, 0x62d6,
  0x9339, 0x8318, 0xb37b, 0xa35a, 0xd3bd, 0xc39c, 0xf3ff, 0xe3de, 0x2462, 0x3443, 0x0420, 0x1401,
  0x64e6, 0x74c7, 0x44a4, 0x5485, 0xa56a, 0xb54b, 0x8528, 0x9509, 0xe5ee, 0xf5cf, 0xc5ac, 0xd58d,
  0x3653, 0x2672, 0x1611, 0x0630, 0x76d7, 0x66f6, 0x5695, 0x46b4, 0xb75b, 0xa77a, 0x9719, 0x8738,
  0xf7df, 0xe7fe, 0xd79d, 0xc7bc, 0x48c4, 0x58e5, 0x6886, 0x78a7, 0x0840, 0x1861, 0x2802, 0x3823,
  0xc9cc, 0xd9ed, 0xe98e, 0xf9af, 0x8948, 0x9969, 0xa90a, 0xb92b, 0x5af5, 0x4ad4, 0x7ab7, 0x6a96,
  0x1a71, 0x0a50, 0x3a33, 0x2a12, 0xdbfd, 0xcbdc, 0xfbbf, 0xeb9e, 0x9b79, 0x8b58, 0xbb3b, 0xab1a,
  0x6ca6, 0x7c87, 0x4ce4, 0x5cc5, 0x2c22, 0x3c03, 0x0c60, 0x1c41, 0xedae, 0xfd8f, 0xcdec, 0xddcd,
  0xad2a, 0xbd0b, 0x8d68, 0x9d49, 0x7e97, 0x6eb6, 0x5ed5, 0x4ef4, 0x3e13, 0x2e32, 0x1e51, 0x0e70,
  0xff9f, 0xefbe, 0xdfdd, 0xcffc, 0xbf1b, 0xaf3a, 0x9f59, 0x8f78, 0x9188, 0x81a9, 0xb1ca, 0xa1eb,
  0xd10c, 0xc12d, 0xf14e, 0xe16f, 0x1080, 0x00a1, 0x30c2, 0x20e3, 0x5004, 0x4025, 0x7046, 0x6067,
  0x83b9, 0x9398, 0xa3fb, 0xb3da, 0xc33d, 0xd31c, 0xe37f, 0xf35e, 0x02b1, 0x1290, 0x22f3, 0x32d2,
  0x4235, 0x5214, 0x6277, 0x7256, 0xb5ea, 0xa5cb, 0x95a8, 0x8589, 0xf56e, 0xe54f, 0xd52c, 0xc50d,
  0x34e2, 0x24c3, 0x14a0, 0x0481, 0x7466, 0x6447, 0x5424, 0x4405, 0xa7db, 0xb7fa, 0x8799, 0x97b8,
  0xe75f, 0xf77e, 0xc71d, 0xd73c, 0x26d3, 0x36f2, 0x0691, 0x16b0, 0x6657, 0x7676, 0x4615, 0x5634,
  0xd94c, 0xc96d, 0xf90e, 0xe92f, 0x99c8, 0x89e9, 0xb98a, 0xa9ab, 0x5844, 0x4865, 0x7806, 0x6827,
  0x18c0, 0x08e1, 0x3882, 0x28a3, 0xcb7d, 0xdb5c, 0xeb3f, 0xfb1e, 0x8bf9, 0x9bd8, 0xabbb, 0xbb9a,
  0x4a75, 0x5a54, 0x6a37, 0x7a16, 0x0af1, 0x1ad0, 0x2ab3, 0x3a92, 0xfd2e, 0xed0f, 0xdd6c, 0xcd4d,
  0xbdaa, 0xad8b, 0x9de8, 0x8dc9, 0x7c26, 0x6c07, 0x5c64, 0x4c45, 0x3ca2, 0x2c83, 0x1ce0, 0x0cc1,
  0xef1f, 0xff3e, 0xcf5d, 0xdf7c, 0xaf9b, 0xbfba, 0x8fd9, 0x9ff8, 0x6e17, 0x7e36, 0x4e55, 0x5e74,
  0x2e93, 0x3eb2, 0x0ed1, 0x1ef0]

/-- One pass of the loop; the index is below the 256 entries of the table. -/
def crc16Step (crc : UInt16) (b : UInt8) : UInt16 :=
  (crc <<< 8) ^^^ CRC16_TAB.getD (((crc >>> 8) ^^^ b.toUInt16) &&& 0xff).toNat 0

def crc16Hash (data : Bytes) : UInt16 := data.foldl crc16Step 0

/-- What is between the braces is hashed alone, if there is anything. -/
def extractHashTag (key : Bytes) : Bytes :=
  match key.findIdx? (· == 123) with
  | some open_ => match (key.drop (open_ + 1)).findIdx? (· == 125) with
    | some close =>
      let inner := (key.drop (open_ + 1)).take close
      if inner ≠ [] then inner else key
    | none => key
  | none => key

def keyslot (key : Bytes) : UInt16 := crc16Hash (extractHashTag key) % CLUSTER_SLOTS

/-! ## The checksum -/

/-- `x ^ 12 + x ^ 5 + 1`. -/
def xmodem : BitVec 16 := 0x1021#16

/-- The bytes of a message. -/
def byteWords (d : Bytes) : List (BitVec 8) := d.map UInt8.toBitVec

theorem table_holds (b : BitVec 8) :
    (CRC16_TAB.getD b.toNat 0).toBitVec = (Crc.shift xmodem)^[8] (Crc.atTop 16 b) := by
  have all : ∀ n < 256, (CRC16_TAB.getD n 0).toBitVec = (Crc.shift xmodem)^[8] (Crc.atTop 16 (BitVec.ofNat 8 n)) := by
    decide +kernel
  have here := all b.toNat b.isLt
  rwa [BitVec.ofNat_toNat, BitVec.setWidth_eq] at here

theorem crc16Step_eq (crc : UInt16) (b : UInt8) :
    (crc16Step crc b).toBitVec = Crc.feed xmodem crc.toBitVec b.toBitVec := by
  have index : (((crc >>> 8) ^^^ b.toUInt16) &&& 0xff).toNat =
      ((crc.toBitVec >>> 8).setWidth 8 ^^^ b.toBitVec).toNat := by
    have mask : (0xff : Nat) = 2 ^ 8 - 1 := rfl
    have wide : b.toUInt16.toNat = b.toNat := UInt8.toNat_toUInt16 b
    have shifted : (crc >>> 8).toNat = crc.toNat >>> 8 := rfl
    have low : (crc.toNat >>> 8 ^^^ b.toNat) % 2 ^ 8 = crc.toNat >>> 8 % 2 ^ 8 ^^^ b.toNat := by
      rw [Nat.xor_mod_two_pow, Nat.mod_eq_of_lt b.toNat_lt]
    rw [UInt16.toNat_and, UInt16.toNat_xor, wide, shifted, BitVec.toNat_xor, BitVec.toNat_setWidth,
      BitVec.toNat_ushiftRight]
    show (crc.toNat >>> 8 ^^^ b.toNat) &&& 0xff = _
    rw [mask, Nat.and_two_pow_sub_one_eq_mod, low]
    rfl
  rw [Crc.feed_eq_table (by decide) table_holds, crc16Step, UInt16.toBitVec_xor, index]
  rfl

theorem crc16Hash_eq (d : Bytes) : (crc16Hash d).toBitVec = (byteWords d).foldl (Crc.feed xmodem) 0#16 := by
  have each (crc : UInt16) :
      (d.foldl crc16Step crc).toBitVec = (byteWords d).foldl (Crc.feed xmodem) crc.toBitVec := by
    induction d generalizing crc with
    | nil => rfl
    | cons b d ih =>
      rw [List.foldl_cons, ih, crc16Step_eq]
      rfl
  exact each 0

open Polynomial in
theorem generator_xmodem : Crc.generator xmodem = X ^ 16 + X ^ 12 + X ^ 5 + 1 := by
  have bits : Crc.poly xmodem = 1 + X ^ 5 + X ^ 12 := by
    simp [Crc.poly, Crc.polyOf, Finset.sum_range_succ, xmodem]
  rw [Crc.generator, bits]
  ring

/-! ## The hash tag -/

/-- What is between the first opening brace and the first closing brace behind it. -/
def HashTag (key tag : Bytes) : Prop :=
  ∃ before behind, key = before ++ 123 :: (tag ++ 125 :: behind) ∧ 123 ∉ before ∧ 125 ∉ tag

/-- What is hashed of a key. -/
def Hashed (key text : Bytes) : Prop :=
  HashTag key text ∧ text ≠ [] ∨ (∀ tag, HashTag key tag → tag = []) ∧ text = key

theorem findIdx?_first {c : UInt8} {before : Bytes} (absent : c ∉ before) (behind : Bytes) :
    (before ++ c :: behind).findIdx? (· == c) = some before.length := by
  have none : before.findIdx? (· == c) = none := by
    rw [List.findIdx?_eq_none_iff]
    intro x mem
    exact beq_false_of_ne fun same => absent (same ▸ mem)
  rw [List.findIdx?_append, none, List.findIdx?_cons]
  simp

theorem split_of_findIdx? {c : UInt8} {l : Bytes} {i : Nat} (found : l.findIdx? (· == c) = some i) :
    c ∉ l.take i ∧ l = l.take i ++ c :: l.drop (i + 1) := by
  obtain ⟨inside, here, before⟩ := List.findIdx?_eq_some_iff_getElem.1 found
  constructor
  · intro mem
    obtain ⟨j, below, same⟩ := List.mem_take_iff_getElem.1 mem
    exact before j (by omega) (beq_iff_eq.2 same)
  · rw [← beq_iff_eq.1 here, List.getElem_cons_drop, List.take_append_drop]

theorem extractHashTag_of_tag {key tag : Bytes} (tagged : HashTag key tag) :
    extractHashTag key = if tag ≠ [] then tag else key := by
  obtain ⟨before, behind, rfl, noOpen, noClose⟩ := tagged
  have rest : (before ++ 123 :: (tag ++ 125 :: behind)).drop (before.length + 1) = tag ++ 125 :: behind := by
    rw [← List.drop_drop, List.drop_left, List.drop_one, List.tail_cons]
  unfold extractHashTag
  rw [findIdx?_first noOpen]
  dsimp only
  rw [rest, findIdx?_first noClose]
  dsimp only
  rw [List.take_left]

theorem extractHashTag_of_none {key : Bytes} (empty : ∀ tag, HashTag key tag → tag = []) : extractHashTag key = key := by
  unfold extractHashTag
  split
  · rename_i open_ found
    split
    · rename_i close found'
      obtain ⟨noOpen, split⟩ := split_of_findIdx? found
      obtain ⟨noClose, split'⟩ := split_of_findIdx? found'
      have nothing := empty _ ⟨_, _, by rw [← split', ← split], noOpen, noClose⟩
      exact if_neg (not_not.2 nothing)
    · rfl
  · rfl

theorem extractHashTag_of_hashed {key text : Bytes} (hashed : Hashed key text) : extractHashTag key = text := by
  rcases hashed with ⟨tagged, some_⟩ | ⟨empty, rfl⟩
  · rw [extractHashTag_of_tag tagged, if_pos some_]
  · exact extractHashTag_of_none empty

open Polynomial in
/-- **The slot of a key is the CRC-16/XMODEM of its hash tag, or of the whole key, modulo 16384.** The tag is what
stands between the first `{` and the first `}` behind it, if that is not empty. The check runs over the bytes bit by
bit, and `Crc.poly_check` says that it is a remainder of polynomials. -/
theorem keyslot_correct :
    (∀ d : Bytes, Crc.poly (crc16Hash d).toBitVec =
      (Crc.message (byteWords d) * X ^ 16) %ₘ (X ^ 16 + X ^ 12 + X ^ 5 + 1)) ∧
    (∀ key text, Hashed key text → (keyslot key).toNat = (crc16Hash text).toNat % 16384) ∧
    (∀ key, ∃ text, Hashed key text) ∧
    ∀ key key' tag, HashTag key tag → HashTag key' tag → tag ≠ [] → keyslot key = keyslot key' := by
  refine ⟨fun d => ?_, fun key text hashed => ?_, fun key => ?_, fun key key' tag tagged tagged' some_ => ?_⟩
  · rw [crc16Hash_eq, ← generator_xmodem]
    exact Crc.poly_check (by decide) xmodem (byteWords d)
  · rw [keyslot, extractHashTag_of_hashed hashed]
    rfl
  · by_cases exists_ : ∃ tag, HashTag key tag ∧ tag ≠ []
    · obtain ⟨tag, hashed⟩ := exists_
      exact ⟨tag, .inl hashed⟩
    · exact ⟨key, .inr ⟨fun tag tagged => by_contra fun some_ => exists_ ⟨tag, tagged, some_⟩, rfl⟩⟩
  · rw [keyslot, keyslot, extractHashTag_of_hashed (.inl ⟨tagged, some_⟩),
      extractHashTag_of_hashed (.inl ⟨tagged', some_⟩)]

/-- Two keys of one tag. -/
theorem keyslot_user : keyslot [123, 117, 125, 97] = keyslot [98, 123, 117, 125] :=
  keyslot_correct.2.2.2 _ _ [117] ⟨[], [97], rfl, by decide, by decide⟩ ⟨[98], [], rfl, by decide, by decide⟩ (by decide)

example : crc16Hash [49, 50, 51, 52, 53, 54, 55, 56, 57] = 0x31c3 := by decide +kernel

end NexradeCache
