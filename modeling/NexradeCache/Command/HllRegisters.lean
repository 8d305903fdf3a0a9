import NexradeCache.Command.Hll
import NexradeCache.Lib.BitStream

/-!
# The registers of a HyperLogLog (`nexrade-core/src/types.rs`, `nexrade-core/src/command/hll.rs`)

What `hll_add` records of an element, and what `unpack_redis_dense` reads of a dense blob. An estimator counts on
registers that hold the longest runs of leading zeros; `hll_rank_iff` says when they do, for the rank of `hll_add` is
the position of the highest bit from the other end. The dense form is a change of word width of one stream of bits, so
that packing and unpacking are inverse (`unpack_redis_dense_inverse`).
-/

namespace NexradeCache

namespace Hll

open BitStream

/-! ## Ranks -/

/-- The low bits of the hash of an element. -/
def suffixOf (element : Bytes) : Nat := (fnv1a64 element).toNat % 2 ^ (64 - HLL_PRECISION)

/-- The rank that `hll_add` gives to a suffix. -/
def rank (rest : Nat) : Nat := if rest = 0 then 64 - HLL_PRECISION + 1 else rest.log2 + 1

/-- The rank that the estimator is about: the leading zeros and one more. -/
def rarity (rest : Nat) : Nat := 1 + leadingZeros (64 - HLL_PRECISION) rest

/-- The elements that fall into a register. -/
def fallInto (elements : List Bytes) (j : Fin HLL_REGISTERS) : Finset Bytes :=
  elements.toFinset.filter fun e => indexOf e = j

/-- What a register is for: the rarest suffix that fell into it, and 0 if none did. -/
def rarest (elements : List Bytes) (j : Fin HLL_REGISTERS) : Nat :=
  (fallInto elements j).sup fun e => rarity (suffixOf e)

/-- The numbers of leading zeros that fell into a register. -/
def zerosAt (elements : List Bytes) (j : Fin HLL_REGISTERS) : Set Nat :=
  (fun e => leadingZeros (64 - HLL_PRECISION) (suffixOf e)) '' fallInto elements j

/-- The fewest and the most leading zeros in a register balance, or one of its suffixes is all zeros. -/
def Balanced (elements : List Bytes) (j : Fin HLL_REGISTERS) : Prop :=
  fallInto elements j = ∅ ∨ (∃ e ∈ fallInto elements j, suffixOf e = 0) ∨
    ∃ lo hi, IsLeast (zerosAt elements j) lo ∧ IsGreatest (zerosAt elements j) hi ∧ lo + hi + 1 = 64 - HLL_PRECISION

theorem suffixOf_lt (element : Bytes) : suffixOf element < 2 ^ (64 - HLL_PRECISION) :=
  Nat.mod_lt _ (Nat.two_pow_pos _)

theorem rank_eq {rest : Nat} (some_ : rest ≠ 0) : rank rest = rest.size := by
  rw [rank, if_neg some_]
  refine le_antisymm (Nat.lt_size.2 (Nat.log2_self_le some_)) (Nat.size_le.2 Nat.lt_log2_self)

theorem rank_add_rarity {rest : Nat} (some_ : rest ≠ 0) (below : rest < 2 ^ (64 - HLL_PRECISION)) :
    rank rest + rarity rest = 64 - HLL_PRECISION + 1 := by
  rw [rank_eq some_, rarity]
  have total := leadingZeros_add_size below
  omega

theorem rank_zero : rank 0 = 64 - HLL_PRECISION + 1 := rfl

theorem rarity_zero : rarity 0 = 64 - HLL_PRECISION + 1 := by decide

theorem rank_le {rest : Nat} (below : rest < 2 ^ (64 - HLL_PRECISION)) : rank rest ≤ 64 - HLL_PRECISION + 1 := by
  by_cases zero : rest = 0
  · rw [zero, rank_zero]
  · have total := rank_add_rarity zero below
    omega

theorem rarity_le {rest : Nat} (below : rest < 2 ^ (64 - HLL_PRECISION)) : rarity rest ≤ 64 - HLL_PRECISION + 1 := by
  have total := leadingZeros_add_size below
  rw [rarity]
  omega

theorem toNat_rankOf (element : Bytes) : (rankOf element).toNat = rank (suffixOf element) := by
  have small := rank_le (suffixOf_lt element)
  have value : rankOf element = min (.ofNat (rank (suffixOf element))) HLL_REGISTER_MAX := rfl
  have width : 64 - HLL_PRECISION + 1 = 51 := rfl
  have here : (UInt8.ofNat (rank (suffixOf element))).toNat = rank (suffixOf element) := by
    rw [UInt8.toNat_ofNat']
    omega
  have under : UInt8.ofNat (rank (suffixOf element)) ≤ HLL_REGISTER_MAX := by
    rw [UInt8.le_iff_toNat_le, here]
    show _ ≤ 63
    omega
  rw [value, min_eq_left under, here]

/-- What the registers hold after the elements. -/
theorem toNat_addAll (elements : List Bytes) (j : Fin HLL_REGISTERS) :
    ((addAll emptyRegisters elements).1 j).toNat = (fallInto elements j).sup fun e => rank (suffixOf e) := by
  have at_ : (addAll emptyRegisters elements).1 j = elements.toFinset.sup fun e => mark e j := by
    rw [addAll_eq, emptyRegisters_eq, bot_sup_eq, registersOf, Finset.sup_apply]
  have mono (a b : UInt8) : (a ⊔ b).toNat = a.toNat ⊔ b.toNat := by
    rcases le_total a b with le | le
    · rw [sup_eq_right.2 le, sup_eq_right.2 (UInt8.le_iff_toNat_le.1 le)]
    · rw [sup_eq_left.2 le, sup_eq_left.2 (UInt8.le_iff_toNat_le.1 le)]
  rw [at_, Finset.apply_sup_eq_sup_comp UInt8.toNat mono rfl]
  have marked (e : Bytes) (same : indexOf e = j) : (mark e j).toNat = rank (suffixOf e) := by
    rw [mark, if_pos same.symm, toNat_rankOf]
  refine le_antisymm (Finset.sup_le fun e mem => ?_) (Finset.sup_le fun e mem => ?_)
  · rw [Function.comp_apply]
    by_cases same : indexOf e = j
    · have there : e ∈ fallInto elements j := Finset.mem_filter.2 ⟨mem, same⟩
      rw [marked e same]
      exact Finset.le_sup (f := fun e => rank (suffixOf e)) there
    · rw [mark, if_neg (Ne.symm same)]
      exact Nat.zero_le _
  · obtain ⟨there, same⟩ := Finset.mem_filter.1 mem
    rw [← marked e same]
    exact Finset.le_sup (f := UInt8.toNat ∘ fun e => mark e j) there

theorem sup_eq_of_greatest {S : Finset Bytes} {f : Bytes → Nat} {n : Nat} (bound : ∀ e ∈ S, f e ≤ n)
    (met : ∃ e ∈ S, f e = n) : S.sup f = n := by
  obtain ⟨e, mem, rfl⟩ := met
  exact le_antisymm (Finset.sup_le bound) (Finset.le_sup mem)

/-- A register is right exactly if its leading zeros balance. -/
theorem register_iff (elements : List Bytes) (j : Fin HLL_REGISTERS) :
    ((addAll emptyRegisters elements).1 j).toNat = rarest elements j ↔ Balanced elements j := by
  rw [toNat_addAll, rarest, Balanced]
  unfold zerosAt
  set S := fallInto elements j
  by_cases empty : S = ∅
  · simp [empty]
  by_cases zero : ∃ e ∈ S, suffixOf e = 0
  · obtain ⟨e, mem, isZero⟩ := zero
    have left := sup_eq_of_greatest (fun e _ => rank_le (suffixOf_lt e)) ⟨e, mem, by rw [isZero, rank_zero]⟩
    have right := sup_eq_of_greatest (fun e _ => rarity_le (suffixOf_lt e)) ⟨e, mem, by rw [isZero, rarity_zero]⟩
    rw [left, right]
    exact iff_of_true rfl (.inr (.inl ⟨e, mem, isZero⟩))
  · have total (e : Bytes) (mem : e ∈ S) : rank (suffixOf e) + rarity (suffixOf e) = 64 - HLL_PRECISION + 1 :=
      rank_add_rarity (fun isZero => zero ⟨e, mem, isZero⟩) (suffixOf_lt e)
    obtain ⟨fewest, memFewest, least⟩ :=
      S.exists_min_image (fun e => rarity (suffixOf e)) (Finset.nonempty_iff_ne_empty.2 empty)
    obtain ⟨most, memMost, greatest⟩ :=
      S.exists_max_image (fun e => rarity (suffixOf e)) (Finset.nonempty_iff_ne_empty.2 empty)
    have left : (S.sup fun e => rank (suffixOf e)) = rank (suffixOf fewest) := by
      refine sup_eq_of_greatest (fun e mem => ?_) ⟨fewest, memFewest, rfl⟩
      have first := total e mem
      have second := total fewest memFewest
      have third := least e mem
      omega
    have right : (S.sup fun e => rarity (suffixOf e)) = rarity (suffixOf most) :=
      sup_eq_of_greatest greatest ⟨most, memMost, rfl⟩
    have isLeast : IsLeast ((fun e => leadingZeros (64 - HLL_PRECISION) (suffixOf e)) '' (S : Set Bytes))
        (leadingZeros (64 - HLL_PRECISION) (suffixOf fewest)) := by
      refine ⟨⟨fewest, memFewest, rfl⟩, ?_⟩
      rintro z ⟨e, mem, rfl⟩
      exact Nat.le_of_add_le_add_left (least e mem)
    have isGreatest : IsGreatest ((fun e => leadingZeros (64 - HLL_PRECISION) (suffixOf e)) '' (S : Set Bytes))
        (leadingZeros (64 - HLL_PRECISION) (suffixOf most)) := by
      refine ⟨⟨most, memMost, rfl⟩, ?_⟩
      rintro z ⟨e, mem, rfl⟩
      exact Nat.le_of_add_le_add_left (greatest e mem)
    have sum := total fewest memFewest
    rw [left, right]
    unfold rarity at sum ⊢
    constructor
    · intro same
      exact .inr (.inr ⟨_, _, isLeast, isGreatest, by omega⟩)
    · rintro (none | isZero | ⟨lo, hi, isLeast', isGreatest', balance⟩)
      · exact (empty none).elim
      · exact (zero isZero).elim
      · rw [isLeast'.unique isLeast, isGreatest'.unique isGreatest] at balance
        omega

/-- The suffixes that a statistic gives this value. -/
def suffixesOf (statistic : Nat → Nat) (r : Nat) : Finset Nat :=
  (Finset.range (2 ^ (64 - HLL_PRECISION))).filter fun w => statistic w = r

theorem card_rarity {r : Nat} (least : 1 ≤ r) (most : r ≤ 64 - HLL_PRECISION) :
    (suffixesOf rarity r).card = 2 ^ (64 - HLL_PRECISION - r) := by
  have exponent : 64 - HLL_PRECISION - r = 64 - HLL_PRECISION - 1 - (r - 1) := by omega
  rw [exponent, ← card_leadingZeros (by omega), suffixesOf]
  refine congrArg Finset.card (Finset.filter_congr fun w _ => ?_)
  rw [rarity]
  omega

theorem card_rank {r : Nat} (least : 1 ≤ r) (most : r ≤ 64 - HLL_PRECISION) :
    (suffixesOf rank r).card = 2 ^ (r - 1) := by
  rw [← card_size (show r - 1 < 64 - HLL_PRECISION by omega), suffixesOf]
  refine congrArg Finset.card (Finset.filter_congr fun w _ => ?_)
  rw [Nat.sub_add_cancel least]
  by_cases zero : w = 0
  · subst zero
    rw [rank_zero, Nat.size_zero]
    omega
  · rw [rank_eq zero]

/-- **After any elements each register holds the rarest suffix exactly if its leading zeros balance.** Of the suffixes
as many are that rare as the estimator assumes, and `hll_add` gives a rank to as many as the mirrored rank should
have. -/
theorem hll_rank_iff (elements : List Bytes) (j : Fin HLL_REGISTERS) :
    (((addAll emptyRegisters elements).1 j).toNat = rarest elements j ↔ Balanced elements j) ∧
    ∀ r, 1 ≤ r → r ≤ 64 - HLL_PRECISION →
      (suffixesOf rarity r).card = 2 ^ (64 - HLL_PRECISION - r) ∧ (suffixesOf rank r).card = 2 ^ (r - 1) ∧
        (suffixesOf rank r).card ≠ 2 ^ (64 - HLL_PRECISION - r) := by
  refine ⟨register_iff elements j, fun r least most => ⟨card_rarity least most, card_rank least most, ?_⟩⟩
  rw [card_rank least most]
  intro same
  have exponents := Nat.pow_right_injective (le_refl 2) same
  have width : 64 - HLL_PRECISION = 50 := rfl
  omega

/-- One suffix is the rarest, and half of all have its rank. -/
theorem hll_rank_fifty : (suffixesOf rarity 50).card = 1 ∧ (suffixesOf rank 50).card = 2 ^ 49 := by
  obtain ⟨rare, ranked, -⟩ := (hll_rank_iff [] (indexOf [])).2 50 (by decide) (by decide)
  exact ⟨rare, ranked⟩

/-- The suffix of a begins with a one, which is the rarity 1, and `hll_add` records 50. -/
theorem hll_rank_one :
    ¬∀ (elements : List Bytes) (j : Fin HLL_REGISTERS),
      ((addAll emptyRegisters elements).1 j).toNat = rarest elements j := by
  intro claim
  have here := claim [[97]] (indexOf [97])
  have single : fallInto [[97]] (indexOf [97]) = {[97]} := by
    ext e
    simp only [fallInto, List.toFinset_cons, List.toFinset_nil, Finset.mem_filter, Finset.mem_insert,
      Finset.mem_singleton]
    constructor
    · rintro ⟨same | none, -⟩
      · exact same
      · exact absurd none (Finset.notMem_empty _)
    · rintro rfl
      exact ⟨.inl rfl, rfl⟩
  rw [toNat_addAll, rarest, single, Finset.sup_singleton, Finset.sup_singleton] at here
  revert here
  decide +kernel

/-! ## The dense form -/

/-- `payload[byte]` and `payload[byte + 1]` for one register; `none` is the panic of an access out of bounds. -/
def unpackSlot (payload : Bytes) (i : Nat) : Option UInt8 := do
  let start := i * 6
  let byte := start / 8
  let off := start % 8
  let b ← payload[byte]?
  let v := b.toNat >>> off
  let v ← (if 2 < off then (payload[byte + 1]?).map fun c => v ||| c.toNat <<< (8 - off) else some v)
  return .ofNat (v &&& 63)

/-- Registers as words, with zeros behind the last. -/
def registerWord (r : Registers) (i : Nat) : Nat := if h : i < HLL_REGISTERS then (r ⟨i, h⟩).toNat else 0

/-- Bytes as words, with zeros behind the last. -/
def byteWord (payload : Bytes) (k : Nat) : Nat := (payload.getD k 0).toNat

/-- Register `i` in the bits `6 * i` to `6 * i + 5` of a stream, which is cut into bytes. -/
def packRedisDense (r : Registers) : Bytes :=
  List.ofFn fun k : Fin REDIS_HLL_DENSE_BYTES => .ofNat (BitStream.words 8 (bits 6 (registerWord r)) k)

theorem length_packRedisDense (r : Registers) : (packRedisDense r).length = REDIS_HLL_DENSE_BYTES := List.length_ofFn

theorem byteWord_lt (payload : Bytes) (k : Nat) : byteWord payload k < 2 ^ 8 := UInt8.toNat_lt _

/-- No access is out of bounds, for the last register neither. -/
theorem unpackSlot_eq {payload : Bytes} (full : payload.length = REDIS_HLL_DENSE_BYTES) (i : Fin HLL_REGISTERS) :
    unpackSlot payload i = some (unpackRedisDense payload full i) := by
  have inside : i.val < 16384 := i.isLt
  have size : payload.length = 12288 := full
  unfold unpackSlot unpackRedisDense
  dsimp only
  rw [List.getElem?_eq_getElem (show i.val * 6 / 8 < payload.length by omega)]
  by_cases spill : 2 < i.val * 6 % 8
  · rw [List.getElem?_eq_getElem (show i.val * 6 / 8 + 1 < payload.length by omega)]
    simp [spill]
  · simp [spill]

/-- A register is six bits of the stream of bytes. -/
theorem toNat_unpackRedisDense {payload : Bytes} (full : payload.length = REDIS_HLL_DENSE_BYTES)
    (i : Fin HLL_REGISTERS) : (unpackRedisDense payload full i).toNat = BitStream.words 6 (bits 8 (byteWord payload)) i := by
  have inside : i.val < 16384 := i.isLt
  have size : payload.length = 12288 := full
  have byte (k : Nat) (h : k < payload.length) : (payload.get ⟨k, h⟩).toNat = byteWord payload k := by
    rw [byteWord, List.getD_eq_getElem _ _ h]
    rfl
  have small (v : Nat) : (UInt8.ofNat (v &&& 63)).toNat = v &&& 63 := by
    have bound : v &&& 63 ≤ 63 := Nat.and_le_right
    rw [UInt8.toNat_ofNat']
    omega
  refine Nat.eq_of_testBit_eq fun t => ?_
  unfold unpackRedisDense
  dsimp only
  rw [small, byte, testBit_words, bits, Nat.testBit_and, show (63 : Nat) = 2 ^ 6 - 1 by rfl,
    Nat.testBit_two_pow_sub_one, Bool.and_comm]
  by_cases low : t < 6
  · rw [decide_eq_true low, Bool.true_and, Bool.true_and]
    have first : (byteWord payload (i.val * 6 / 8) >>> (i.val * 6 % 8)).testBit t =
        (byteWord payload (i.val * 6 / 8)).testBit (i.val * 6 % 8 + t) := Nat.testBit_shiftRight _
    by_cases here : i.val * 6 % 8 + t < 8
    · -- the bit is in the first byte
      have place : (6 * i.val + t) / 8 = i.val * 6 / 8 ∧ (6 * i.val + t) % 8 = i.val * 6 % 8 + t := by omega
      rw [place.1, place.2]
      split
      · rename_i spill
        have above : ¬8 - i.val * 6 % 8 ≤ t := by omega
        rw [byte, Nat.testBit_or, Nat.testBit_shiftLeft, first]
        simp [above]
      · exact first
    · -- it spilled into the next one
      have place : (6 * i.val + t) / 8 = i.val * 6 / 8 + 1 ∧ (6 * i.val + t) % 8 = t - (8 - i.val * 6 % 8) := by omega
      have past : (byteWord payload (i.val * 6 / 8)).testBit (i.val * 6 % 8 + t) = false :=
        Nat.testBit_lt_two_pow ((byteWord_lt _ _).trans_le (Nat.pow_le_pow_right (by omega) (by omega)))
      have spill : 2 < i.val * 6 % 8 := by omega
      have above : 8 - i.val * 6 % 8 ≤ t := by omega
      rw [place.1, place.2, dif_pos spill, byte, Nat.testBit_or, Nat.testBit_shiftLeft, first, past]
      simp [above]
  · simp [low]

theorem byteWord_packRedisDense (r : Registers) {k : Nat} (inside : k < REDIS_HLL_DENSE_BYTES) :
    byteWord (packRedisDense r) k = BitStream.words 8 (bits 6 (registerWord r)) k := by
  have below : k < (packRedisDense r).length := by rwa [length_packRedisDense]
  have small : BitStream.words 8 (bits 6 (registerWord r)) k < 2 ^ 8 := words_lt _ _ _
  have cell : (packRedisDense r)[k] = .ofNat (BitStream.words 8 (bits 6 (registerWord r)) k) := List.getElem_ofFn below
  rw [byteWord, List.getD_eq_getElem _ _ below, cell, UInt8.toNat_ofNat', Nat.mod_eq_of_lt small]

theorem unpack_pack {r : Registers} (small : ∀ i, r i < 64) :
    unpackRedisDense (packRedisDense r) (length_packRedisDense r) = r := by
  funext i
  have inside : i.val < 16384 := i.isLt
  have word : registerWord r i = (r i).toNat := by rw [registerWord, dif_pos i.isLt]
  have fits : registerWord r i < 2 ^ 6 := by
    rw [word]
    exact UInt8.lt_iff_toNat_lt.1 (small i)
  rw [← UInt8.toNat_inj, toNat_unpackRedisDense, ← word, ← words_bits fits]
  refine words_congr fun t low => ?_
  have cell : (6 * i.val + t) / 8 < REDIS_HLL_DENSE_BYTES := by
    show _ < 12288
    omega
  rw [← bits_words (show 0 < 8 by decide) (bits 6 (registerWord r)), bits, bits, byteWord_packRedisDense r cell]

theorem pack_unpack {payload : Bytes} (full : payload.length = REDIS_HLL_DENSE_BYTES) :
    packRedisDense (unpackRedisDense payload full) = payload := by
  refine List.ext_getElem (by rw [length_packRedisDense, full]) fun k inside inside' => ?_
  have size : k < 12288 := by rwa [full] at inside'
  have fits : byteWord payload k < 2 ^ 8 := byteWord_lt payload k
  have packed : byteWord (packRedisDense (unpackRedisDense payload full)) k = byteWord payload k := by
    rw [byteWord_packRedisDense _ size, ← words_bits fits]
    refine words_congr fun t low => ?_
    have cell : (8 * k + t) / 6 < HLL_REGISTERS := by
      show _ < 16384
      omega
    have register : registerWord (unpackRedisDense payload full) ((8 * k + t) / 6) =
        BitStream.words 6 (bits 8 (byteWord payload)) ((8 * k + t) / 6) := by
      rw [registerWord, dif_pos cell, toNat_unpackRedisDense]
    rw [← bits_words (show 0 < 6 by decide) (bits 8 (byteWord payload)), bits, bits, register]
  rw [byteWord, byteWord, List.getD_eq_getElem _ _ inside, List.getD_eq_getElem _ _ inside'] at packed
  exact UInt8.toNat_inj.1 packed

/-- A header of the dense form. -/
structure DenseHeader (header : Bytes) : Prop where
  length : header.length = REDIS_HLL_HEADER
  magic : header.take 4 = REDIS_HLL_MAGIC
  encoding : header[4]? = some 0

theorem decode_pack {header payload : Bytes} (dense : DenseHeader header) (full : payload.length = REDIS_HLL_DENSE_BYTES) :
    decodeRedisHll (header ++ payload) = .ok (unpackRedisDense payload full) := by
  obtain ⟨length, magic, encoding⟩ := dense
  have sixteen : header.length = 16 := length
  have enough : ¬((header ++ payload).length < REDIS_HLL_HEADER ∨ (header ++ payload).take 4 ≠ REDIS_HLL_MAGIC) := by
    rw [List.take_append_of_le_length (by omega), List.length_append, length]
    simp [magic]
  have isDense : (header ++ payload).getD 4 0 = 0 := by
    rw [List.getD_eq_getElem?_getD, List.getElem?_append_left (by omega), encoding, Option.getD_some]
  have rest : (header ++ payload).drop REDIS_HLL_HEADER = payload := by rw [← length, List.drop_left]
  unfold decodeRedisHll
  rw [if_neg enough]
  dsimp only
  rw [if_pos isDense, dif_pos (by rw [rest, full])]
  exact congrArg Except.ok (unpackRedisDense_congr rest _ _)

/-- **Packing and unpacking the dense form are inverse**, and unpacking stays within the payload. A register has six
bits, so four of them are three bytes, and a register may lie in two of them. -/
theorem unpack_redis_dense_inverse :
    (∀ r : Registers, (∀ i, r i < 64) → unpackRedisDense (packRedisDense r) (length_packRedisDense r) = r) ∧
    (∀ (payload : Bytes) (full : payload.length = REDIS_HLL_DENSE_BYTES),
      packRedisDense (unpackRedisDense payload full) = payload ∧
      (∀ i : Fin HLL_REGISTERS, unpackSlot payload i = some (unpackRedisDense payload full i)) ∧
      ∀ header, DenseHeader header → decodeRedisHll (header ++ payload) = .ok (unpackRedisDense payload full)) :=
  ⟨fun _ small => unpack_pack small,
    fun _ full => ⟨pack_unpack full, unpackSlot_eq full, fun _ dense => decode_pack dense full⟩⟩

/-- All registers at 63. -/
theorem unpack_redis_dense_top :
    unpackRedisDense (packRedisDense fun _ => 63) (length_packRedisDense fun _ => 63) = fun _ => 63 :=
  unpack_redis_dense_inverse.1 _ fun _ => by decide

end Hll

end NexradeCache
