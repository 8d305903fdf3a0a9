import NexradeCache.Command.SetAlgebra
import NexradeCache.Lib.Bits

/-!
# Bitmaps (`nexrade-core/src/command/bit.rs`)

SETBIT, GETBIT, BITCOUNT, BITPOS and BITOP on strings, integers and bitmaps. The value of a key is one bit vector
(`Lib/Bits`), and `bitmaps_iff` says for each command when it agrees with it. A start behind the last position is
clamped where positions are bits, and in BITPOS everywhere; and BITPOS looks at the positions of a byte from the last
to the first.
-/

namespace NexradeCache

/-- `BitError`, by its text. -/
def NexradeError.bitError : NexradeError := .generic "bit offset is not an integer or out of range"

namespace Bitmaps

open Bits Positions

/-! ## The code -/

/-- The text of an integer is its bytes. -/
def getBitmapBytes : DataType → Result Bytes
  | .string v => .ok v
  | .bitmap v => .ok v
  | .int cell => .ok (putI64 cell.value)
  | _ => .error .wrongType

/-- `normalize_signed`: a negative index counts from the end, and stops at the first position. -/
def normalizeSigned (idx : Int) (len : Nat) : Nat := if idx < 0 then (len + idx).toNat else idx.toNat

/-- An integer becomes the string of its text, with what that adds to the payload. -/
def demote (v : DataType) : DataType × Int :=
  match v with
  | .int cell => (.string (putI64 cell.value), ((putI64 cell.value).length : Int) - 8)
  | v => (v, 0)

/-- `(b >> pos) & 1 == 1`. -/
def readsOne (b : UInt8) (pos : Nat) : Bool := (b >>> UInt8.ofNat pos) &&& 1 == 1

/-- An edit of the bytes in place, with what the payload grew by. -/
def bytesEdit {A : Type} (edit : Bytes → Bytes × A) (e : Entry) : DataType × Result (A × Int) :=
  let grown (bits old : Bytes) : Int := (bits.length : Int) - old.length
  match e.value with
  | .string s => let (bits, a) := edit s; (.string bits, .ok (a, grown bits s))
  | .bitmap v => let (bits, a) := edit v; (.bitmap bits, .ok (a, grown bits v))
  | value => (value, .error .wrongType)

/-- What SETBIT and BITFIELD do under the lock of the shard: an integer is demoted, the bytes are edited, and a missing
key may get a bitmap. -/
def editBits {A : Type} (now : Nat) (key : Bytes) (edit : Bytes → Bytes × A) (fresh : Option Bytes) (missing : A)
    (s : Database) : Database × Result A :=
  let (s, demoted) := s.getMutWith now key fun e => demote e.value
  match s.getMutWith now key (bytesEdit edit) with
  | (s, some (.error e)) => (s, .error e)
  | (s, some (.ok (a, grown))) => (s.adjustLiveBytes (demoted.getD 0 + grown), .ok a)
  | (s, none) =>
    let s := match fresh with
      | some bits => s.insert key (.new (.bitmap bits))
      | none => s
    (s.adjustLiveBytes (demoted.getD 0), .ok missing)

/-- The byte of a bit after `ensure_bitmap`, and the write to it. -/
def setBit (bits : Bytes) (offset : Nat) (value : Bool) : Bytes × Bool :=
  let grown := grow bits (offset / 8 + 1)
  let b := grown.getD (offset / 8) 0
  let bitPos := 7 - offset % 8
  (grown.set (offset / 8) (withBit b bitPos value), readsOne b bitPos)

/-- The arguments of SETBIT. The offset is limited to 2^32 - 1, which bounds what SETBIT can allocate; GETBIT has no
such limit. -/
def setbitCall (args : List Resp) : Result (Bytes × Nat × Bool) := do
  if args.length ≠ 4 then throw (.wrongArity "setbit")
  let key ← bytesArg "setbit" args[1]?
  let offset ← i64Arg "setbit" args[2]?
  let value ← i64Arg "setbit" args[3]?
  if offset < 0 ∨ 4294967295 < offset then throw .bitError
  if value ≠ 0 ∧ value ≠ 1 then throw (.generic "bit is not an integer or out of range")
  return (key, offset.toInt.toNat, value == 1)

/-- The reply for a bit. -/
def bitReply (b : Bool) : Resp := .integer (if b then 1 else 0)

/-- SETBIT. The bytes are edited in place; a missing key gets a bitmap of its own. -/
def cmdSetbit (now : Nat) (args : List Resp) (db : ShardedDatabase) : ShardedDatabase × Result Resp :=
  match setbitCall args with
  | .error e => (db, .error e)
  | .ok (key, offset, value) =>
    let edit (bits : Bytes) : Bytes × Bool := setBit bits offset value
    let (db, old) := db.writeFor key (editBits now key edit (some (edit []).1) false)
    (db, old.map bitReply)

/-- The arguments of GETBIT. -/
def getbitCall (args : List Resp) : Result (Bytes × Nat) := do
  if args.length ≠ 3 then throw (.wrongArity "getbit")
  let key ← bytesArg "getbit" args[1]?
  let offset ← i64Arg "getbit" args[2]?
  if offset < 0 then throw .bitError
  return (key, offset.toInt.toNat)

/-- The bit at an offset, 0 behind the last byte. -/
def getBit (bytes : Bytes) (offset : Nat) : Bool :=
  match bytes[offset / 8]? with
  | none => false
  | some b => readsOne b (7 - offset % 8)

/-- GETBIT reads the bit and changes nothing but what is expired. -/
def cmdGetbit (now : Nat) (args : List Resp) (db : ShardedDatabase) : ShardedDatabase × Result Resp :=
  match getbitCall args with
  | .error e => (db, .error e)
  | .ok (key, offset) => match db.readKey now key with
    | (db, none) => (db, .ok (bitReply false))
    | (db, some e) => (db, (getBitmapBytes e.value).map fun bytes => bitReply (getBit bytes offset))

/-- A start, an end, and whether they are positions of bits. -/
structure BitRange where
  start : Int
  stop : Int
  bitUnit : Bool
deriving DecidableEq

/-- The range of BITCOUNT. A start without an end is no range: the count is of all bits then. -/
def bitcountRange (toUppercase : String → String) (args : List Resp) : Result (Option BitRange) := do
  if args.length < 4 then return none
  let start ← i64Arg "bitcount" args[2]?
  let stop ← i64Arg "bitcount" args[3]?
  if args.length < 5 then return some ⟨start.toInt, stop.toInt, false⟩
  let unit := toUppercase (← strArg "bitcount" args[4]?)
  return some ⟨start.toInt, stop.toInt, unit == "BIT"⟩

/-- The loop over the bits of a range; an index outside panics. -/
def countBits (bytes : Bytes) (bits : List Nat) : Option Nat :=
  bits.foldlM (fun count i => do
    let b ← bytes[i / 8]?
    return if readsOne b (7 - i % 8) then count + 1 else count) 0

/-- The count. Where positions are bits both ends are clamped to the last bit; of bytes only the end is. -/
def bitcount (bytes : Bytes) (range : Option BitRange) : Option Nat :=
  match range with
  | none => some (bytes.map countOnes).sum
  | some r =>
    if bytes.isEmpty then some 0
    else if r.bitUnit then
      let maxBit := bytes.length * 8 - 1
      let s := min (normalizeSigned r.start (bytes.length * 8)) maxBit
      let e := min (normalizeSigned r.stop (bytes.length * 8)) maxBit
      if e < s then some 0 else countBits bytes (List.range' s (e + 1 - s))
    else
      let s := normalizeSigned r.start bytes.length
      let e := min (normalizeSigned r.stop bytes.length) (bytes.length - 1)
      if e < s then some 0 else (Bytes.slice bytes s (e + 1)).map fun bytes => (bytes.map countOnes).sum

/-- BITCOUNT. The range is read behind the value, so a missing key answers 0 whatever follows it. -/
def cmdBitcount (toUppercase : String → String) (now : Nat) (args : List Resp) (db : ShardedDatabase) :
    ShardedDatabase × Option (Result Resp) :=
  if args.length < 2 then (db, some (.error (.wrongArity "bitcount")))
  else match bytesArg "bitcount" args[1]? with
    | .error e => (db, some (.error e))
    | .ok key => match db.readKey now key with
      | (db, none) => (db, some (.ok (.integer 0)))
      | (db, some e) => match getBitmapBytes e.value, bitcountRange toUppercase args with
        | .error e, _ => (db, some (.error e))
        | .ok _, .error e => (db, some (.error e))
        | .ok bytes, .ok range => (db, (bitcount bytes range).map fun n => .ok (.integer (.ofNat n)))

/-- What follows the bit: a start, perhaps an end, and the unit. -/
structure PosRange where
  start : Int64
  stop : Option Int64
  bitUnit : Bool
deriving DecidableEq

/-- The range of BITPOS. The unit is read before the end is. -/
def bitposRange (toUppercase : String → String) (args : List Resp) : Result (Option PosRange) := do
  if args.length < 4 then return none
  let start ← i64Arg "bitpos" args[3]?
  let bitUnit ← (if args.length < 6 then return false
    else do return toUppercase (← strArg "bitpos" args[5]?) == "BIT" : Result Bool)
  if args.length < 5 then return some ⟨start, none, bitUnit⟩
  return some ⟨start, some (← i64Arg "bitpos" args[4]?), bitUnit⟩

/-- The loop over the bits of a range, up to the first hit. -/
def firstBit (bytes : Bytes) (target : Bool) : (bits : List Nat) → Option (Option Nat)
  | [] => some none
  | i :: bits => do
    let b ← bytes[i / 8]?
    if readsOne b (7 - i % 8) = target then return some i
    firstBit bytes target bits

/-- `(0..8).rev()`, with the place `7 - bit_i`. -/
def hitInByte (b : UInt8) (target : Bool) : Option Nat :=
  (List.range 8).reverse.find? fun bitI => readsOne b (7 - bitI) = target

/-- The loop over the bytes of a range, the first of them at `byteIdx`. -/
def scanBytes (target : Bool) : Bytes → (byteIdx : Nat) → Option Nat
  | [], _ => none
  | b :: bytes, byteIdx => match hitInByte b target with
    | some bitI => some (byteIdx * 8 + bitI)
    | none => scanBytes target bytes (byteIdx + 1)

/-- The position found, if any. -/
def bitpos (bytes : Bytes) (target : Bool) (range : Option PosRange) : Option (Option Nat) :=
  let n := bytes.length
  let (start, stop, useBitUnit) : Nat × Nat × Bool :=
    match range with
    | none => (0, n - 1, false)
    | some r =>
      let len := if r.bitUnit then n * 8 else n
      let e : Int := (r.stop.map Int64.toInt).getD ((len : Int) - 1)
      (normalizeSigned r.start.toInt len, normalizeSigned e len, r.bitUnit)
  if bytes.isEmpty then some none
  else if useBitUnit then
    let s := min start (n * 8 - 1)
    let e := min stop (n * 8 - 1)
    if e < s then some none else firstBit bytes target (List.range' s (e + 1 - s))
  else
    let s := min start (n - 1)
    let e := min stop (n - 1)
    if e < s then some none else (Bytes.slice bytes s (e + 1)).map fun part => scanBytes target part s

/-- The reply for a position, -1 for none. -/
def posReply (p : Option Nat) : Resp := .integer ((p.map Int64.ofNat).getD (-1))

/-- BITPOS. -/
def cmdBitpos (toUppercase : String → String) (now : Nat) (args : List Resp) (db : ShardedDatabase) :
    ShardedDatabase × Option (Result Resp) :=
  if args.length < 3 then (db, some (.error (.wrongArity "bitpos")))
  else match bytesArg "bitpos" args[1]?, i64Arg "bitpos" args[2]? with
    | .error e, _ => (db, some (.error e))
    | .ok _, .error e => (db, some (.error e))
    | .ok key, .ok bit =>
      if bit ≠ 0 ∧ bit ≠ 1 then (db, some (.error (.generic "bit argument must be 0 or 1")))
      else match db.readKey now key with
        | (db, none) => (db, some (.ok (.integer (if bit = 1 then -1 else 0))))
        | (db, some e) => match getBitmapBytes e.value, bitposRange toUppercase args with
          | .error e, _ => (db, some (.error e))
          | .ok _, .error e => (db, some (.error e))
          | .ok bytes, .ok range => (db, (bitpos bytes (bit == 1) range).map fun p => .ok (posReply p))

/-! ### BITOP -/

/-- The four operations. -/
inductive BitOp where
  | and
  | or
  | xor
  | not
deriving DecidableEq

/-- One source into the result, byte by byte. -/
def combine (f : UInt8 → UInt8 → UInt8) (result src : Bytes) : Bytes := result.mapIdx fun i b => f b (src.getD i 0)

/-- The result of BITOP: the sources are combined from left to right, and the result is as long as the longest of
them. NOT reads the first only. -/
def bitopResult (op : BitOp) (sources : List Bytes) : Bytes :=
  let maxLen := (sources.map List.length).foldl max 0
  let zeros := List.replicate maxLen 0
  match op with
  | .and => sources.foldl (combine fun b c => b &&& c) (List.replicate maxLen 0xFF)
  | .or => sources.foldl (combine fun b c => b ||| c) zeros
  | .xor => sources.foldl (combine fun b c => b ^^^ c) zeros
  | .not => combine (fun _ c => ~~~c) zeros (sources.headD [])

/-- The operation of a name that is in capitals. -/
def opOf (op : String) : Result BitOp :=
  if op = "AND" then .ok .and
  else if op = "OR" then .ok .or
  else if op = "XOR" then .ok .xor
  else if op = "NOT" then .ok .not
  else .error (.generic ("unknown BITOP operation: " ++ op))

/-- The loop that collects the sources; a missing key has no bytes. -/
def gatherBitmaps (now : Nat) : (keys : List Bytes) → (sources : List Bytes) → ShardedDatabase →
    ShardedDatabase × Result (List Bytes)
  | [], sources, db => (db, .ok sources)
  | key :: keys, sources, db => match db.readKey now key with
    | (db, none) => gatherBitmaps now keys (sources ++ [[]]) db
    | (db, some e) => match getBitmapBytes e.value with
      | .error e => (db, .error e)
      | .ok bytes => gatherBitmaps now keys (sources ++ [bytes]) db

/-- What BITOP is called with. -/
structure BitopCall where
  op : String
  destkey : Bytes
  keys : List Bytes
deriving DecidableEq

/-- The arguments of BITOP. More than one source is refused for NOT before any is read. -/
def bitopCall (toUppercase : String → String) (args : List Resp) : Result BitopCall := do
  if args.length < 4 then throw (.wrongArity "bitop")
  let op := toUppercase (← strArg "bitop" args[1]?)
  let destkey ← bytesArg "bitop" args[2]?
  if op = "NOT" ∧ args.length ≠ 4 then throw (.generic "BITOP NOT must be called with a single source key")
  let keys ← (args.drop 3).mapM fun a => bytesArg "bitop" (some a)
  return ⟨op, destkey, keys⟩

/-- BITOP. The operation is looked at behind the sources, and its result is stored even when it is empty. -/
def cmdBitop (toUppercase : String → String) (now : Nat) (args : List Resp) (db : ShardedDatabase) :
    ShardedDatabase × Result Resp :=
  match bitopCall toUppercase args with
  | .error e => (db, .error e)
  | .ok c => match gatherBitmaps now c.keys [] db with
    | (db, .error e) => (db, .error e)
    | (db, .ok sources) => match opOf c.op with
      | .error e => (db, .error e)
      | .ok op =>
        let result := bitopResult op sources
        let (db, ()) := db.writeFor c.destkey fun s => (s.insert c.destkey (.new (.bitmap result)), ())
        (db, .ok (.integer (.ofNat result.length)))

/-! ## Ranges of positions -/

variable {bytes : Bytes} {r : BitRange} {target : Bool}

/-- A position in the range: not before its start, not behind its end, and not behind the last. -/
def InRange (bytes : Bytes) (r : BitRange) (i : Nat) : Prop :=
  if r.bitUnit then clamped (8 * bytes.length) r.start ≤ i ∧ i ≤ clamped (8 * bytes.length) r.stop
  else clamped bytes.length r.start ≤ i / 8 ∧ i / 8 ≤ clamped bytes.length r.stop

instance (bytes : Bytes) (r : BitRange) (i : Nat) : Decidable (InRange bytes r i) :=
  inferInstanceAs (Decidable (if r.bitUnit then clamped (8 * bytes.length) r.start ≤ i ∧ i ≤ clamped (8 * bytes.length) r.stop
    else clamped bytes.length r.start ≤ i / 8 ∧ i / 8 ≤ clamped bytes.length r.stop))

/-- The positions of a range, in their order. -/
def positions (bytes : Bytes) (r : BitRange) : List Nat :=
  (List.range (8 * bytes.length)).filter fun i => InRange bytes r i

/-- How many bits of the range are set. -/
def ones (bytes : Bytes) (r : BitRange) : Nat := (positions bytes r).countP (bitAt bytes)

/-- The smallest position of the range whose bit is the target. -/
def firstHit (bytes : Bytes) (r : BitRange) (target : Bool) : Option Nat :=
  (positions bytes r).find? fun i => bitAt bytes i = target

theorem filter_range (lo hi N : Nat) :
    (List.range N).filter (fun i => lo ≤ i ∧ i < hi) = List.range' lo (min hi N - lo) := by
  induction N with
  | zero => simp
  | succ N ih =>
    rw [List.range_succ, List.filter_append, ih]
    by_cases inside : lo ≤ N ∧ N < hi
    · have more : min hi (N + 1) - lo = (min hi N - lo) + 1 := by omega
      have last : lo + (min hi N - lo) = N := by omega
      rw [more, List.range'_1_concat, last]
      simp [inside]
    · have same : min hi (N + 1) - lo = min hi N - lo := by omega
      rw [same]
      simp [inside]

/-- Where positions are bits the ends are clamped to the bits. -/
theorem positions_bits (unit : r.bitUnit = true) :
    positions bytes r = List.range' (clamped (8 * bytes.length) r.start)
      (min (clamped (8 * bytes.length) r.stop + 1) (8 * bytes.length) - clamped (8 * bytes.length) r.start) := by
  rw [← filter_range, positions]
  refine List.filter_congr fun i _ => ?_
  rw [decide_eq_decide, InRange, if_pos unit, Nat.lt_succ_iff]

/-- Where they are bytes, to the bytes: all eight bits of a byte are in the range, or none. -/
theorem positions_bytes (unit : r.bitUnit = false) :
    positions bytes r = List.range' (8 * clamped bytes.length r.start)
      (8 * (min (clamped bytes.length r.stop + 1) bytes.length - clamped bytes.length r.start)) := by
  have size : 8 * (min (clamped bytes.length r.stop + 1) bytes.length - clamped bytes.length r.start) =
      min (8 * (clamped bytes.length r.stop + 1)) (8 * bytes.length) - 8 * clamped bytes.length r.start := by omega
  rw [size, ← filter_range, positions]
  refine List.filter_congr fun i _ => ?_
  rw [decide_eq_decide, InRange, unit, if_neg Bool.false_ne_true]
  omega

/-- The index of the code is the clamped index. -/
theorem normalizeSigned_eq (i : Int) (n : Nat) : normalizeSigned i n = clamped n i := by
  unfold normalizeSigned clamped denoted
  split <;> rfl

/-! ## Single bits -/

theorem readsOne_eq (b : UInt8) {pos : Nat} (inside : pos < 8) : readsOne b pos = bitOf b pos := shift_and_one b inside

theorem getBit_eq (bytes : Bytes) (offset : Nat) : getBit bytes offset = bitAt bytes offset := by
  unfold getBit
  cases here : bytes[offset / 8]? with
  | none => exact (bitAt_of_length_le (by have := List.getElem?_eq_none_iff.1 here; omega)).symm
  | some b =>
    dsimp only
    rw [readsOne_eq b (by omega), bitAt_eq_of_getElem? here]

/-- The bytes that SETBIT leaves, and the old bit. -/
theorem setBit_eq (bits : Bytes) (offset : Nat) (value : Bool) :
    setBit bits offset value = (write (grow bits (offset / 8 + 1)) offset value, bitAt bits offset) := by
  unfold setBit
  dsimp only
  rw [readsOne_eq _ (by omega), ← bitAt_grow bits (offset / 8 + 1)]
  rfl

/-- SETBIT writes one bit and leaves the others. -/
theorem bitAt_setBit (bits : Bytes) (offset : Nat) (value : Bool) (j : Nat) :
    bitAt (setBit bits offset value).1 j = if j = offset then value else bitAt bits j := by
  rw [setBit_eq]
  dsimp only
  rw [bitAt_write (by rw [length_grow]; omega), bitAt_grow]

/-! ## BITCOUNT -/

theorem byte_of_inside {i : Nat} (inside : i < 8 * bytes.length) :
    ∃ b, bytes[i / 8]? = some b ∧ readsOne b (7 - i % 8) = bitAt bytes i := by
  have byte : bytes[i / 8]? = some bytes[i / 8] := List.getElem?_eq_getElem (by omega)
  exact ⟨_, byte, by rw [readsOne_eq _ (by omega), bitAt_eq_of_getElem? byte]⟩

/-- The loop counts the ones, if no position is outside. -/
theorem countBits_eq {bits : List Nat} (inside : ∀ i ∈ bits, i < 8 * bytes.length) :
    countBits bytes bits = some (bits.countP (bitAt bytes)) := by
  have run (bits : List Nat) (inside : ∀ i ∈ bits, i < 8 * bytes.length) (count : Nat) :
      bits.foldlM (fun count i => do
        let b ← bytes[i / 8]?
        return if readsOne b (7 - i % 8) then count + 1 else count) count = some (count + bits.countP (bitAt bytes)) := by
    induction bits generalizing count with
    | nil => rfl
    | cons i bits ih =>
      obtain ⟨here, rest⟩ := List.forall_mem_cons.1 inside
      obtain ⟨b, byte, reads⟩ := byte_of_inside here
      rw [List.foldlM_cons, byte, List.countP_cons]
      show List.foldlM _ (if readsOne b (7 - i % 8) then count + 1 else count) bits = _
      rw [ih rest, reads]
      split
      · simp
        omega
      · simp
  rw [countBits, run bits inside, Nat.zero_add]

/-- The start lies behind the last bit, the end does not lie before it, and the last bit is the target. -/
structure PastBits (bytes : Bytes) (r : BitRange) (target : Bool) : Prop where
  nonempty : bytes ≠ []
  start : 8 * bytes.length ≤ clamped (8 * bytes.length) r.start
  stop : 8 * bytes.length ≤ clamped (8 * bytes.length) r.stop + 1
  last : bitAt bytes (8 * bytes.length - 1) = target

/-- What a loop over bits walks: the positions of the range, or the last one instead. -/
theorem walked_bits {A : Type} (walk : List Nat → A) (unit : r.bitUnit = true) (nonempty : bytes ≠ []) :
    (if min (normalizeSigned r.stop (bytes.length * 8)) (bytes.length * 8 - 1) <
        min (normalizeSigned r.start (bytes.length * 8)) (bytes.length * 8 - 1) then walk []
      else walk (List.range' (min (normalizeSigned r.start (bytes.length * 8)) (bytes.length * 8 - 1))
        (min (normalizeSigned r.stop (bytes.length * 8)) (bytes.length * 8 - 1) + 1 -
          min (normalizeSigned r.start (bytes.length * 8)) (bytes.length * 8 - 1)))) =
      walk (if 8 * bytes.length ≤ clamped (8 * bytes.length) r.start ∧
        8 * bytes.length ≤ clamped (8 * bytes.length) r.stop + 1 then [8 * bytes.length - 1] else positions bytes r) := by
  have length : 0 < bytes.length := List.length_pos_iff.2 nonempty
  rw [normalizeSigned_eq, normalizeSigned_eq, Nat.mul_comm, positions_bits unit]
  generalize clamped (8 * bytes.length) r.start = start
  generalize clamped (8 * bytes.length) r.stop = stop
  by_cases past : 8 * bytes.length ≤ start ∧ 8 * bytes.length ≤ stop + 1
  · have first : min start (8 * bytes.length - 1) = 8 * bytes.length - 1 := by omega
    have last : min stop (8 * bytes.length - 1) = 8 * bytes.length - 1 := by omega
    rw [if_pos past, first, last, if_neg (by omega), Nat.add_sub_cancel_left]
    rfl
  · rw [if_neg past]
    split
    · rename_i before
      have zero : min (stop + 1) (8 * bytes.length) - start = 0 := by omega
      rw [zero]
      rfl
    · rename_i after
      have first : min start (8 * bytes.length - 1) = start := by omega
      have many : min stop (8 * bytes.length - 1) + 1 - start = min (stop + 1) (8 * bytes.length) - start := by omega
      rw [first, many]

/-- A start behind the last bit leaves no position. -/
theorem positions_past (unit : r.bitUnit = true) (past : 8 * bytes.length ≤ clamped (8 * bytes.length) r.start) :
    positions bytes r = [] := by
  have zero : min (clamped (8 * bytes.length) r.stop + 1) (8 * bytes.length) - clamped (8 * bytes.length) r.start = 0 := by
    omega
  rw [positions_bits unit, zero]
  rfl

theorem positions_inside {i : Nat} (mem : i ∈ positions bytes r) : i < 8 * bytes.length :=
  List.mem_range.1 (List.mem_filter.1 mem).1

/-- Without a range, all bits. -/
def countRange (range : Option BitRange) : BitRange := range.getD ⟨0, -1, false⟩

theorem sum_ones_eq (bytes : Bytes) : (bytes.map countOnes).sum = ones bytes ⟨0, -1, false⟩ := by
  have all := sum_countOnes bytes 0 bytes.length (by omega)
  have size : min (clamped bytes.length (-1) + 1) bytes.length - clamped bytes.length 0 = bytes.length := by
    simp only [clamped, denoted]
    omega
  rw [ones, positions_bytes rfl, size]
  simpa [clamped, denoted] using all

/-- **BITCOUNT over bits is right just if** no start behind the last bit is clamped to a last bit that is set, which
is counted then although the range is empty. -/
theorem bitcount_bits (unit : r.bitUnit = true) :
    ∃ n, bitcount bytes (some r) = some n ∧ (n = ones bytes r ↔ ¬PastBits bytes r true) := by
  unfold bitcount
  dsimp only
  by_cases empty : bytes = []
  · subst empty
    exact ⟨0, rfl, iff_of_true rfl fun past => past.nonempty rfl⟩
  rw [if_neg (by simpa using empty), if_pos unit]
  have loop := walked_bits (countBits bytes) unit empty
  rw [show countBits bytes [] = some 0 from rfl] at loop
  rw [loop]
  split
  · rename_i past
    have length : 0 < bytes.length := List.length_pos_iff.2 empty
    refine ⟨_, countBits_eq fun i mem => ?_, ?_⟩
    · rw [List.mem_singleton.1 mem]
      omega
    · rw [ones, positions_past unit past.1]
      constructor
      · intro zero last
        simp [last.last] at zero
      · intro notLast
        have clear : bitAt bytes (8 * bytes.length - 1) ≠ true := fun last => notLast ⟨empty, past.1, past.2, last⟩
        simp [clear]
  · rename_i inside
    exact ⟨_, countBits_eq fun i mem => positions_inside mem,
      iff_of_true rfl fun past => inside ⟨past.start, past.stop⟩⟩

theorem slice_eq {lo hi : Nat} (h : lo ≤ hi) (h' : hi ≤ bytes.length) :
    Bytes.slice bytes lo hi = some ((bytes.drop lo).take (hi - lo)) := by
  rw [Bytes.slice, if_pos ⟨h, h'⟩, List.drop_take]

theorem bitcount_bytes (unit : r.bitUnit = false) : bitcount bytes (some r) = some (ones bytes r) := by
  unfold bitcount
  dsimp only
  rw [ones, positions_bytes unit, unit, if_neg Bool.false_ne_true, normalizeSigned_eq, normalizeSigned_eq]
  generalize clamped bytes.length r.start = start
  generalize clamped bytes.length r.stop = stop
  by_cases empty : bytes = []
  · subst empty
    simp
  have length : 0 < bytes.length := List.length_pos_iff.2 empty
  rw [if_neg (by simpa using empty)]
  split
  · rename_i before
    have none : min (stop + 1) bytes.length - start = 0 := by omega
    rw [none]
    rfl
  · rename_i after
    have many : min stop (bytes.length - 1) + 1 - start = min (stop + 1) bytes.length - start := by omega
    rw [slice_eq (by omega) (by omega), Option.map_some, sum_countOnes _ _ _ (by omega), many]

/-- BITCOUNT is right unless the units are bits and its start lies behind a last bit that is set. -/
theorem bitcount_iff (bytes : Bytes) (range : Option BitRange) :
    ∃ n, bitcount bytes range = some n ∧
      (n = ones bytes (countRange range) ↔
        ((countRange range).bitUnit = true → ¬PastBits bytes (countRange range) true)) := by
  cases range with
  | none => exact ⟨_, rfl, by simp [countRange, sum_ones_eq]⟩
  | some r =>
    show ∃ n, bitcount bytes (some r) = some n ∧ (n = ones bytes r ↔ (r.bitUnit = true → ¬PastBits bytes r true))
    cases unit : r.bitUnit with
    | true =>
      obtain ⟨n, counts, right⟩ := @bitcount_bits bytes r unit
      exact ⟨n, counts, by simpa using right⟩
    | false => exact ⟨_, bitcount_bytes unit, by simp⟩

/-! ## BITPOS -/

theorem firstBit_eq {bits : List Nat} (inside : ∀ i ∈ bits, i < 8 * bytes.length) :
    firstBit bytes target bits = some (bits.find? fun i => bitAt bytes i = target) := by
  induction bits with
  | nil => rfl
  | cons i bits ih =>
    obtain ⟨here, rest⟩ := List.forall_mem_cons.1 inside
    obtain ⟨b, byte, reads⟩ := byte_of_inside here
    rw [firstBit, byte, List.find?_cons]
    show (if readsOne b (7 - i % 8) = target then some (some i) else firstBit bytes target bits) = _
    rw [ih rest, reads]
    by_cases hit : bitAt bytes i = target <;> simp [hit]

/-- A byte is searched from its last position. -/
theorem find?_reverse_range (p : Nat → Bool) (n : Nat) :
    (∃ k, (List.range n).reverse.find? p = some k ∧ k < n ∧ p k = true ∧ ∀ j, j < n → p j = true → j ≤ k) ∨
      (List.range n).reverse.find? p = none ∧ ∀ j, j < n → p j = false := by
  induction n with
  | zero => exact .inr ⟨rfl, fun j below => absurd below (Nat.not_lt_zero j)⟩
  | succ n ih =>
    rw [List.range_succ, List.reverse_append, List.reverse_singleton, List.singleton_append, List.find?_cons]
    cases last : p n with
    | true => exact .inl ⟨n, rfl, Nat.lt_succ_self n, last, fun j below _ => Nat.le_of_lt_succ below⟩
    | false =>
      have below {j : Nat} (h : j < n + 1) (ne : j ≠ n) : j < n := by omega
      obtain ⟨k, finds, inside, hit, greatest⟩ | ⟨misses, clear⟩ := ih
      · refine .inl ⟨k, finds, by omega, hit, fun j h hitJ => greatest j (below h ?_) hitJ⟩
        rintro rfl
        simp [last] at hitJ
      · refine .inr ⟨misses, fun j h => ?_⟩
        by_cases same : j = n
        · rw [same, last]
        · exact clear j (below h same)

/-- What the loop over bytes finds, by the first hit that there is: the last hit of the same byte. -/
inductive Scanned (bytes : Bytes) (target : Bool) : (first found : Option Nat) → Prop
  | missed : Scanned bytes target none none
  | hit {p x : Nat} : x / 8 = p / 8 → bitAt bytes p = target → bitAt bytes x = target →
      (∀ y, y / 8 = p / 8 → bitAt bytes y = target → p ≤ y ∧ y ≤ x) → Scanned bytes target (some p) (some x)

/-- The loop stops at the first byte with a hit, and takes the last hit in it, not the first. -/
theorem scanBytes_scanned (bytes : Bytes) (target : Bool) (q m : Nat) (inside : q + m ≤ bytes.length) :
    Scanned bytes target ((List.range' (8 * q) (8 * m)).find? fun i => bitAt bytes i = target)
      (scanBytes target ((bytes.drop q).take m) q) := by
  induction m generalizing q with
  | zero => simpa [scanBytes] using Scanned.missed
  | succ m ih =>
    have byte : bytes[q]? = some bytes[q] := List.getElem?_eq_getElem (by omega)
    have bit (k : Nat) (low : k < 8) : readsOne bytes[q] (7 - k) = bitAt bytes (8 * q + k) := by
      have here : (8 * q + k) / 8 = q := by omega
      have place : (8 * q + k) % 8 = k := by omega
      rw [readsOne_eq _ (by omega), bitAt_eq_of_getElem? (by rw [here]; exact byte), place]
    have more : List.range' (8 * q) (8 * (m + 1)) = List.range' (8 * q) 8 ++ List.range' (8 * (q + 1)) (8 * m) := by
      rw [Nat.mul_succ, Nat.mul_succ, Nat.add_comm (8 * m), List.range'_append_1]
    have here : (bytes.drop q).take (m + 1) = bytes[q] :: (bytes.drop (q + 1)).take m := by
      rw [List.drop_eq_getElem_cons (by omega), List.take_succ_cons]
    rw [more, here, List.find?_append, scanBytes, hitInByte]
    obtain ⟨k, finds, low, hit, greatest⟩ | ⟨misses, clear⟩ :=
      find?_reverse_range (fun k => readsOne bytes[q] (7 - k) = target) 8
    · have hit : bitAt bytes (8 * q + k) = target := by simpa [bit k low] using hit
      cases first : (List.range' (8 * q) 8).find? (fun i => bitAt bytes i = target) with
      | none =>
        have clear := List.find?_eq_none.1 first (8 * q + k) (List.mem_range'_1.2 ⟨by omega, by omega⟩)
        exact absurd hit (by simpa using clear)
      | some p =>
        obtain ⟨hitP, memP, smallest⟩ := List.find?_range'_eq_some.1 first
        have memP := List.mem_range'_1.1 memP
        rw [finds, Option.some_or, Nat.mul_comm q]
        refine .hit (by omega) (by simpa using hitP) hit fun y same hitY => ?_
        have within : y = 8 * q + (y - 8 * q) := by omega
        have upper := greatest (y - 8 * q) (by omega) (by rw [bit _ (by omega), ← within, hitY]; simp)
        refine ⟨Nat.le_of_not_lt fun below => ?_, by omega⟩
        have off := smallest y (by omega) below
        simp [hitY] at off
    · have none : (List.range' (8 * q) 8).find? (fun i => bitAt bytes i = target) = none := by
        rw [List.find?_eq_none]
        intro i mem
        obtain ⟨k, low, rfl⟩ := List.mem_range'.1 mem
        have off := clear k low
        rw [bit k low] at off
        simpa using off
      rw [misses, none]
      exact ih (q + 1) (by omega)

/-- The range that BITPOS is asked for. -/
def searched (range : Option PosRange) : BitRange :=
  match range with
  | none => ⟨0, -1, false⟩
  | some r => ⟨r.start.toInt, (r.stop.map Int64.toInt).getD (-1), r.bitUnit⟩

/-- The last position, by its index or as -1. -/
theorem normalizeSigned_last {n : Nat} (h : 0 < n) : normalizeSigned ((n : Int) - 1) n = normalizeSigned (-1) n := by
  unfold normalizeSigned
  rw [if_neg (by omega), if_pos (by omega)]
  omega

theorem bitpos_nil (target : Bool) (range : Option PosRange) : bitpos [] target range = some none := by
  unfold bitpos
  cases range <;> rfl

theorem bitpos_eq {range : Option PosRange} (nonempty : bytes ≠ []) (asked : searched range = r) :
    bitpos bytes target range =
      if r.bitUnit then
        if min (normalizeSigned r.stop (bytes.length * 8)) (bytes.length * 8 - 1) <
            min (normalizeSigned r.start (bytes.length * 8)) (bytes.length * 8 - 1) then some none
        else firstBit bytes target (List.range' (min (normalizeSigned r.start (bytes.length * 8)) (bytes.length * 8 - 1))
          (min (normalizeSigned r.stop (bytes.length * 8)) (bytes.length * 8 - 1) + 1 -
            min (normalizeSigned r.start (bytes.length * 8)) (bytes.length * 8 - 1)))
      else
        if min (normalizeSigned r.stop bytes.length) (bytes.length - 1) <
            min (normalizeSigned r.start bytes.length) (bytes.length - 1) then some none
        else (Bytes.slice bytes (min (normalizeSigned r.start bytes.length) (bytes.length - 1))
          (min (normalizeSigned r.stop bytes.length) (bytes.length - 1) + 1)).map fun part =>
            scanBytes target part (min (normalizeSigned r.start bytes.length) (bytes.length - 1)) := by
  have length : 0 < bytes.length := List.length_pos_iff.2 nonempty
  have notEmpty : bytes.isEmpty = false := by simpa using nonempty
  subst asked
  unfold bitpos
  cases range with
  | none =>
    have zero : normalizeSigned 0 bytes.length = 0 := rfl
    have last : normalizeSigned (-1) bytes.length = bytes.length - 1 := by
      rw [← normalizeSigned_last length, normalizeSigned, if_neg (by omega)]
      omega
    simp only [searched, notEmpty, zero, last]
    rfl
  | some r =>
    obtain ⟨start, stop, unit⟩ := r
    cases stop with
    | none =>
      cases unit with
      | true =>
        have last := @normalizeSigned_last (bytes.length * 8) (by omega)
        simp only [searched, notEmpty, Option.map_none, Option.getD_none, if_true, last]
        rfl
      | false =>
        have last := normalizeSigned_last length
        simp only [searched, notEmpty, Option.map_none, Option.getD_none, Bool.false_eq_true, if_false, last]
        rfl
    | some stop => cases unit <;> simp only [searched, notEmpty, Option.map_some, Option.getD_some, if_true] <;> rfl

/-- The start lies behind the last byte, the end does not lie before it, and the last byte has a bit that is the
target. -/
structure PastBytes (bytes : Bytes) (r : BitRange) (target : Bool) : Prop where
  nonempty : bytes ≠ []
  start : bytes.length ≤ clamped bytes.length r.start
  stop : bytes.length ≤ clamped bytes.length r.stop + 1
  last : ∃ p, p / 8 = bytes.length - 1 ∧ bitAt bytes p = target

/-- The byte of the first hit has another one. -/
def Crowded (bytes : Bytes) (r : BitRange) (target : Bool) : Prop :=
  ∃ p p', firstHit bytes r target = some p ∧ p' ≠ p ∧ p' / 8 = p / 8 ∧ bitAt bytes p' = target

theorem firstHit_nil (h : positions bytes r = []) : firstHit bytes r target = none := by
  rw [firstHit, h]
  rfl

theorem not_crowded_of_nil (h : positions bytes r = []) : ¬Crowded bytes r target := by
  rintro ⟨p, p', first, -⟩
  rw [firstHit_nil h] at first
  cases first

/-- What a scan of bytes finds is the first hit just if the byte of the first hit has one hit only. -/
theorem not_crowded_iff {found : Option Nat} (scanned : Scanned bytes target (firstHit bytes r target) found) :
    found = firstHit bytes r target ↔ ¬Crowded bytes r target := by
  generalize first : firstHit bytes r target = hit at scanned
  cases scanned with
  | missed =>
    refine iff_of_true rfl ?_
    rintro ⟨p, p', here, -⟩
    rw [first] at here
    cases here
  | @hit p x same hitP hitX between =>
    constructor
    · rintro eq ⟨q, p', here, ne, same', hit'⟩
      obtain rfl := Option.some.inj eq
      obtain rfl := Option.some.inj (first.symm.trans here)
      have := between p' same' hit'
      omega
    · intro alone
      refine congrArg some (Decidable.byContradiction fun ne => alone ⟨p, x, first, ne, same, hitX⟩)

/-- **BITPOS over bits is right just if** no start behind the last bit is clamped to a last bit that is a hit. -/
theorem bitpos_bits {range : Option PosRange} (asked : searched range = r) (unit : r.bitUnit = true) :
    ∃ p, bitpos bytes target range = some p ∧ (p = firstHit bytes r target ↔ ¬PastBits bytes r target) := by
  by_cases empty : bytes = []
  · subst empty
    exact ⟨none, bitpos_nil target range, iff_of_true (firstHit_nil rfl).symm fun past => past.nonempty rfl⟩
  have loop := walked_bits (firstBit bytes target) unit empty
  rw [show firstBit bytes target [] = some none from rfl] at loop
  rw [bitpos_eq empty asked, if_pos unit, loop]
  split
  · rename_i past
    have length : 0 < bytes.length := List.length_pos_iff.2 empty
    refine ⟨_, firstBit_eq fun i mem => ?_, ?_⟩
    · rw [List.mem_singleton.1 mem]
      omega
    · rw [firstHit_nil (positions_past unit past.1), List.find?_eq_none]
      constructor
      · intro none last
        exact none _ (.head _) (by simpa using last.last)
      · intro notLast i mem hit
        rw [List.mem_singleton.1 mem] at hit
        exact notLast ⟨empty, past.1, past.2, by simpa using hit⟩
  · rename_i inside
    exact ⟨_, firstBit_eq fun i mem => positions_inside mem,
      iff_of_true rfl fun past => inside ⟨past.start, past.stop⟩⟩

/-- **BITPOS over bytes is right just if** no start behind the last byte is clamped to a last byte with a hit, and
the byte of the first hit has no other hit. -/
theorem bitpos_bytes {range : Option PosRange} (asked : searched range = r) (unit : r.bitUnit = false) :
    ∃ p, bitpos bytes target range = some p ∧
      (p = firstHit bytes r target ↔ ¬PastBytes bytes r target ∧ ¬Crowded bytes r target) := by
  have walk := @positions_bytes bytes r unit
  by_cases empty : bytes = []
  · subst empty
    exact ⟨none, bitpos_nil target range,
      iff_of_true (firstHit_nil rfl).symm ⟨fun past => past.nonempty rfl, not_crowded_of_nil rfl⟩⟩
  have length : 0 < bytes.length := List.length_pos_iff.2 empty
  rw [bitpos_eq empty asked, unit, if_neg Bool.false_ne_true, normalizeSigned_eq, normalizeSigned_eq]
  by_cases past : bytes.length ≤ clamped bytes.length r.start ∧ bytes.length ≤ clamped bytes.length r.stop + 1
  · have first : min (clamped bytes.length r.start) (bytes.length - 1) = bytes.length - 1 := by omega
    have last : min (clamped bytes.length r.stop) (bytes.length - 1) = bytes.length - 1 := by omega
    have nothing : positions bytes r = [] := by
      rw [walk, Nat.sub_eq_zero_of_le (by omega)]
      rfl
    have scanned := scanBytes_scanned bytes target (bytes.length - 1) 1 (by omega)
    rw [first, last, if_neg (Nat.lt_irrefl _), slice_eq (by omega) (by omega), Nat.add_sub_cancel_left]
    refine ⟨scanBytes target ((bytes.drop (bytes.length - 1)).take 1) (bytes.length - 1), rfl, ?_⟩
    rw [firstHit_nil nothing]
    generalize found : (List.range' (8 * (bytes.length - 1)) (8 * 1)).find? (fun i => bitAt bytes i = target) = hit
      at scanned
    generalize scanBytes target _ _ = x at scanned ⊢
    cases scanned with
    | missed =>
      refine iff_of_true rfl ⟨?_, not_crowded_of_nil nothing⟩
      rintro ⟨-, -, -, p, here, hit⟩
      exact List.find?_eq_none.1 found p (List.mem_range'_1.2 ⟨by omega, by omega⟩) (by simpa using hit)
    | @hit p x same hitP hitX between =>
      have mem := List.mem_range'_1.1 (List.mem_of_find?_eq_some found)
      exact iff_of_false nofun fun fine => fine.1 ⟨empty, past.1, past.2, p, by omega, hitP⟩
  · have notPast : ¬PastBytes bytes r target := fun h => past ⟨h.start, h.stop⟩
    split
    · rename_i before
      have nothing : positions bytes r = [] := by
        rw [walk, Nat.sub_eq_zero_of_le (by omega)]
        rfl
      exact ⟨_, rfl, iff_of_true (firstHit_nil nothing).symm ⟨notPast, not_crowded_of_nil nothing⟩⟩
    · rename_i after
      have first : min (clamped bytes.length r.start) (bytes.length - 1) = clamped bytes.length r.start := by omega
      have many : min (clamped bytes.length r.stop) (bytes.length - 1) + 1 - clamped bytes.length r.start =
          min (clamped bytes.length r.stop + 1) bytes.length - clamped bytes.length r.start := by omega
      rw [first, slice_eq (by omega) (by omega), Option.map_some, many]
      have scanned := scanBytes_scanned bytes target (clamped bytes.length r.start)
        (min (clamped bytes.length r.stop + 1) bytes.length - clamped bytes.length r.start) (by omega)
      rw [← walk] at scanned
      exact ⟨_, rfl, (not_crowded_iff scanned).trans (and_iff_right notPast).symm⟩

/-- BITPOS is right unless its start lies behind a last place that has the target, or its units are bytes and the byte
of the first hit has another one. -/
theorem bitpos_iff (bytes : Bytes) (target : Bool) (range : Option PosRange) :
    ∃ p, bitpos bytes target range = some p ∧
      (p = firstHit bytes (searched range) target ↔
        if (searched range).bitUnit then ¬PastBits bytes (searched range) target
        else ¬PastBytes bytes (searched range) target ∧ ¬Crowded bytes (searched range) target) := by
  split
  · rename_i unit
    exact bitpos_bits rfl unit
  · rename_i unit
    exact bitpos_bytes rfl (Bool.not_eq_true _ ▸ unit)

/-! ## BITOP -/

/-- What an operation makes of the bits at one position. -/
def BitOp.meaning : BitOp → (bits : List Bool) → Bool
  | .and, bits => bits.foldl (fun b c => b && c) true
  | .or, bits => bits.foldl (fun b c => b || c) false
  | .xor, bits => bits.foldl Bool.xor false
  | .not, bits => !bits.headD false

/-- The result is as long as the longest source, and its bits are what the operation makes of theirs. -/
structure Combined (op : BitOp) (sources : List Bytes) (result : Bytes) : Prop where
  longest : ∀ s ∈ sources, s.length ≤ result.length
  attained : result = [] ∨ ∃ s ∈ sources, s.length = result.length
  bits : ∀ i < 8 * result.length, bitAt result i = op.meaning (sources.map fun s => bitAt s i)

@[simp] theorem length_combine (f : UInt8 → UInt8 → UInt8) (result src : Bytes) :
    (combine f result src).length = result.length := List.length_mapIdx

/-- What an operation does to bytes it does to each bit, with zeros behind the end of a source. -/
theorem bitAt_combine {f : UInt8 → UInt8 → UInt8} {g : Bool → Bool → Bool}
    (bitwise : ∀ b c k, k < 8 → bitOf (f b c) k = g (bitOf b k) (bitOf c k)) {result : Bytes} {i : Nat}
    (inside : i < 8 * result.length) (src : Bytes) :
    bitAt (combine f result src) i = g (bitAt result i) (bitAt src i) := by
  have byte : result[i / 8]? = some result[i / 8] := List.getElem?_eq_getElem (by omega)
  have here : (combine f result src)[i / 8]? = some (f result[i / 8] (src.getD (i / 8) 0)) := by
    rw [combine, List.getElem?_mapIdx, byte, Option.map_some]
  rw [bitAt_eq_of_getElem? here, bitwise _ _ _ (by omega), bitAt_eq_of_getElem? byte]
  rfl

theorem length_foldl_combine (f : UInt8 → UInt8 → UInt8) (sources : List Bytes) (result : Bytes) :
    (sources.foldl (combine f) result).length = result.length := by
  induction sources generalizing result with
  | nil => rfl
  | cons src sources ih => rw [List.foldl_cons, ih, length_combine]

/-- Many sources are combined bit by bit, from left to right. -/
theorem bitAt_foldl_combine {f : UInt8 → UInt8 → UInt8} {g : Bool → Bool → Bool}
    (bitwise : ∀ b c k, k < 8 → bitOf (f b c) k = g (bitOf b k) (bitOf c k)) {result : Bytes} {i : Nat}
    (inside : i < 8 * result.length) (sources : List Bytes) :
    bitAt (sources.foldl (combine f) result) i = (sources.map fun s => bitAt s i).foldl g (bitAt result i) := by
  induction sources generalizing result with
  | nil => rfl
  | cons src sources ih =>
    rw [List.foldl_cons, List.map_cons, List.foldl_cons, ih (by rwa [length_combine]), bitAt_combine bitwise inside]

theorem bitOf_and (b c : UInt8) (k : Nat) : bitOf (b &&& c) k = (bitOf b k && bitOf c k) := by
  rw [bitOf, UInt8.toBitVec_and, BitVec.getLsbD_and]
  rfl

theorem bitOf_or (b c : UInt8) (k : Nat) : bitOf (b ||| c) k = (bitOf b k || bitOf c k) := by
  rw [bitOf, UInt8.toBitVec_or, BitVec.getLsbD_or]
  rfl

theorem bitOf_xor (b c : UInt8) (k : Nat) : bitOf (b ^^^ c) k = (bitOf b k).xor (bitOf c k) := by
  rw [bitOf, UInt8.toBitVec_xor, BitVec.getLsbD_xor]
  rfl

theorem bitOf_not (b : UInt8) {k : Nat} (low : k < 8) : bitOf (~~~b) k = !bitOf b k := by
  rw [bitOf, UInt8.toBitVec_not, BitVec.getLsbD_not]
  simp [low, bitOf]

theorem bitAt_replicate_ones {n i : Nat} (inside : i < 8 * n) : bitAt (List.replicate n 0xFF) i = true := by
  have byte : (List.replicate n (0xFF : UInt8))[i / 8]? = some 0xFF := by
    rw [List.getElem?_replicate, if_pos (by omega)]
  have ones : ∀ k < 8, bitOf 0xFF k = true := by decide
  rw [bitAt_eq_of_getElem? byte, ones _ (by omega)]

/-- The result is as long as the longest source. -/
theorem length_bitopResult (op : BitOp) (sources : List Bytes) :
    (bitopResult op sources).length = (sources.map List.length).foldl max 0 := by
  cases op <;> simp [bitopResult, length_foldl_combine]

/-- The maximum is one of the list, and none is above it. -/
theorem foldl_max (l : List Nat) (m : Nat) :
    m ≤ l.foldl max m ∧ (∀ n ∈ l, n ≤ l.foldl max m) ∧ (l.foldl max m = m ∨ l.foldl max m ∈ l) := by
  induction l generalizing m with
  | nil => exact ⟨le_rfl, fun n mem => absurd mem List.not_mem_nil, .inl rfl⟩
  | cons a l ih =>
    rw [List.foldl_cons]
    obtain ⟨least, upper, attained⟩ := ih (max m a)
    refine ⟨by omega, fun n mem => ?_, ?_⟩
    · obtain rfl | mem := List.mem_cons.1 mem
      · omega
      · exact upper n mem
    · obtain same | mem := attained
      · rw [same]
        obtain left | right := Nat.le_total a m
        · exact .inl (Nat.max_eq_left left)
        · rw [Nat.max_eq_right right]
          exact .inr (.head _)
      · exact .inr (.tail _ mem)

/-- **The result is the operation on each position**, up to the end of the longest source. -/
theorem bitopResult_combined (op : BitOp) (sources : List Bytes) : Combined op sources (bitopResult op sources) := by
  have length := length_bitopResult op sources
  obtain ⟨-, upper, attained⟩ := foldl_max (sources.map List.length) 0
  rw [← length] at upper attained
  refine ⟨fun s mem => upper _ (List.mem_map_of_mem mem), ?_, fun i inside => ?_⟩
  · obtain none | mem := attained
    · exact .inl (List.length_eq_zero_iff.1 none)
    · obtain ⟨s, mem, same⟩ := List.mem_map.1 mem
      exact .inr ⟨s, mem, same⟩
  · rw [length] at inside
    cases op with
    | and =>
      rw [bitopResult, bitAt_foldl_combine (fun b c k _ => bitOf_and b c k) (by rwa [List.length_replicate]),
        bitAt_replicate_ones inside]
      rfl
    | or =>
      rw [bitopResult, bitAt_foldl_combine (fun b c k _ => bitOf_or b c k) (by rwa [List.length_replicate]),
        bitAt_replicate_zero]
      rfl
    | xor =>
      rw [bitopResult, bitAt_foldl_combine (fun b c k _ => bitOf_xor b c k) (by rwa [List.length_replicate]),
        bitAt_replicate_zero]
      rfl
    | not =>
      have negates : ∀ b c : UInt8, ∀ k < 8, bitOf (~~~c) k = (fun _ c => !c) (bitOf b k) (bitOf c k) :=
        fun _ c k low => bitOf_not c low
      rw [bitopResult, bitAt_combine (g := fun _ c => !c) negates (by rwa [List.length_replicate]), BitOp.meaning]
      cases sources with
      | nil => exact congrArg Bool.not (bitAt_replicate_zero 0 i)
      | cons src sources => rfl

/-! ## Keys -/

variable {now : Nat} {db : ShardedDatabase} {key : Bytes} {offset : Nat} {value : Bool}

/-- The key holds a string, an integer or a bitmap with these bytes. -/
def Holds (now : Nat) (db : ShardedDatabase) (key bytes : Bytes) : Prop :=
  ∃ v, db.valueAt now key = some v ∧ getBitmapBytes v = .ok bytes

/-- A missing key has no bytes. -/
def Source (now : Nat) (db : ShardedDatabase) (key bytes : Bytes) : Prop :=
  (db.valueAt now key = none ∧ bytes = []) ∨ Holds now db key bytes

/-- A read finds the bytes of the key, and leaves every key as it is. -/
theorem readKey_holds (holds : Holds now db key bytes) :
    ∃ db' e, db.readKey now key = (db', some e) ∧ getBitmapBytes e.value = .ok bytes ∧
      ShardedDatabase.Untouched now db db' := by
  obtain ⟨v, here, isBytes⟩ := holds
  obtain ⟨answer, same⟩ := ShardedDatabase.readKey_spec now db key
  rw [here] at answer
  obtain ⟨e, found, rfl⟩ := Option.map_eq_some_iff.1 answer
  exact ⟨_, e, Prod.ext rfl found, isBytes, same⟩

/-- What the keys hold is the same after a read. -/
theorem Source.untouched {db' : ShardedDatabase} (source : Source now db key bytes)
    (same : ShardedDatabase.Untouched now db db') :
    Source now db' key bytes := by
  unfold Source Holds
  rwa [same.valueAt key]

/-- The sources are read one by one, each in what the reads before it have left. -/
theorem gatherBitmaps_sources {keys : List Bytes} {found : List Bytes} {sources : List Bytes}
    (given : List.Forall₂ (Source now db) keys sources) :
    ∃ db', gatherBitmaps now keys found db = (db', .ok (found ++ sources)) ∧ ShardedDatabase.Untouched now db db' := by
  induction keys generalizing found sources db with
  | nil =>
    cases given
    exact ⟨db, by rw [gatherBitmaps, List.append_nil], .refl _ _⟩
  | cons key keys ih =>
    cases given with
    | @cons _ bytes _ sources source given =>
      rw [gatherBitmaps]
      have later {db' : ShardedDatabase} (same : ShardedDatabase.Untouched now db db') :
          ∃ db'', gatherBitmaps now keys (found ++ [bytes]) db' = (db'', .ok (found ++ bytes :: sources)) ∧
            ShardedDatabase.Untouched now db db'' := by
        obtain ⟨db'', gathers, same'⟩ := @ih db' (found ++ [bytes]) sources
          (given.imp fun _ _ source => Source.untouched source same)
        exact ⟨db'', by rw [gathers, List.append_assoc]; rfl, same.trans same'⟩
      obtain ⟨gone, rfl⟩ | holds := source
      · obtain ⟨answer, same⟩ := ShardedDatabase.readKey_spec now db key
        rw [gone, Option.map_eq_none_iff] at answer
        have read : db.readKey now key = ((db.readKey now key).1, none) := Prod.ext rfl answer
        rw [read]
        exact later same
      · obtain ⟨db', e, read, isBytes, same⟩ := readKey_holds holds
        rw [read]
        dsimp only
        rw [isBytes]
        exact later same

/-- The destination holds the result as a fresh bitmap, and nothing else changes. -/
structure BitopRight (now : Nat) (db : ShardedDatabase) (dest : Bytes) (op : BitOp) (sources : List Bytes)
    (out : ShardedDatabase × Result Resp) : Prop where
  stores : ∃ result, Combined op sources result ∧ out.2 = .ok (.integer (.ofNat result.length)) ∧
    out.1.held now dest = some (.bitmap result, none)
  others : ∀ x, x ≠ dest → out.1.held now x = db.held now x

/-- BITOP stores the combined bits under its destination and nothing else. -/
theorem cmdBitop_right {toUppercase : String → String} {args : List Resp} {c : BitopCall} {op : BitOp}
    {sources : List Bytes} (call : bitopCall toUppercase args = .ok c) (isOp : opOf c.op = .ok op)
    (given : List.Forall₂ (Source now db) c.keys sources) :
    BitopRight now db c.destkey op sources (cmdBitop toUppercase now args db) := by
  obtain ⟨db', gathers, same⟩ := @gatherBitmaps_sources _ _ _ [] _ given
  obtain ⟨-, after⟩ := ShardedDatabase.Acts.writeFor
    (Database.acts_insert now c.destkey (.new (.bitmap (bitopResult op sources)))) db'
  unfold cmdBitop
  rw [call]
  dsimp only
  rw [gathers]
  dsimp only
  rw [isOp]
  refine ⟨⟨_, bitopResult_combined op sources, rfl, ?_⟩, fun x other => ?_⟩
  · rw [ShardedDatabase.held]
    refine (congrArg (Option.map _) (after c.destkey)).trans ?_
    rw [if_pos rfl]
    rfl
  · rw [ShardedDatabase.held]
    refine (congrArg (Option.map _) (after x)).trans ?_
    rw [if_neg other]
    exact same x

/-! ## Edits -/

section

variable {A : Type} {edit : Bytes → Bytes × A} {fresh : Option Bytes} {missing : A}

/-- A missing key gets what the edit makes of nothing. -/
theorem editBits_of_none {s : Database} (gone : s.getRo now key = none) :
    ∃ s', editBits now key edit fresh missing s = (s', .ok missing) ∧ ∀ x, s'.getRo now x =
      if x = key then fresh.map fun bits => .new (.bitmap bits) else s.getRo now x := by
  have first := Database.acts_getMutWith now key fun e => demote e.value
  have second := Database.acts_getMutWith now key (bytesEdit edit)
  unfold editBits
  have answer := first.answer s
  have after := first.getRo s
  rw [gone] at answer after
  generalize s.getMutWith now key (fun e => demote e.value) = r at answer after ⊢
  obtain ⟨s₁, demoted⟩ := r
  have gone₁ : s₁.getRo now key = none := by simpa using after key
  have answer' := second.answer s₁
  have after' := second.getRo s₁
  rw [gone₁] at answer' after'
  dsimp only
  generalize s₁.getMutWith now key (bytesEdit edit) = r at answer' after' ⊢
  obtain ⟨s₂, edited⟩ := r
  obtain rfl : edited = none := answer'
  have before (x : Bytes) : s₂.getRo now x = if x = key then none else s.getRo now x := by
    refine (after' x).trans ?_
    split
    · rfl
    · rename_i other
      exact (after x).trans (if_neg other)
  refine ⟨_, rfl, fun x => ?_⟩
  cases fresh with
  | none => exact before x
  | some bits =>
    refine ((Database.acts_insert now key (.new (.bitmap bits))).getRo s₂ x).trans ?_
    split
    · rfl
    · rename_i other
      exact (before x).trans (if_neg other)

/-- An integer that is demoted has the same bytes. -/
theorem demoted_bytes {v : DataType} {bytes : Bytes} (isBytes : getBitmapBytes v = .ok bytes) :
    (demote v).1 = .string bytes ∨ (demote v).1 = .bitmap bytes := by
  cases v with
  | string s => exact .inl (congrArg DataType.string (Except.ok.inj isBytes))
  | bitmap s => exact .inr (congrArg DataType.bitmap (Except.ok.inj isBytes))
  | int cell => exact .inl (congrArg DataType.string (Except.ok.inj isBytes))
  | _ => cases isBytes

/-- An edit changes the bytes of one key and keeps its deadline. -/
theorem editBits_of_some {s : Database} {e : Entry} (found : s.getRo now key = some e)
    (isBytes : getBitmapBytes e.value = .ok bytes) :
    ∃ s' v, editBits now key edit fresh missing s = (s', .ok (edit bytes).2) ∧ getBitmapBytes v = .ok (edit bytes).1 ∧
      ∀ x, s'.getRo now x = if x = key then some { e with value := v } else s.getRo now x := by
  obtain ⟨v, grown, edits, leaves⟩ : ∃ v grown,
      bytesEdit edit { e with value := (demote e.value).1 } = (v, .ok ((edit bytes).2, grown)) ∧
        getBitmapBytes v = .ok (edit bytes).1 := by
    unfold bytesEdit
    obtain demoted | demoted := demoted_bytes isBytes <;> rw [demoted]
    · exact ⟨_, _, rfl, rfl⟩
    · exact ⟨_, _, rfl, rfl⟩
  have first := Database.acts_getMutWith now key fun e => demote e.value
  have second := Database.acts_getMutWith now key (bytesEdit edit)
  unfold editBits
  have answer := first.answer s
  have after := first.getRo s
  rw [found] at answer after
  generalize s.getMutWith now key (fun e => demote e.value) = r at answer after ⊢
  obtain ⟨s₁, demoted⟩ := r
  have found₁ : s₁.getRo now key = some { e with value := (demote e.value).1 } := by simpa using after key
  have answer' := second.answer s₁
  have after' := second.getRo s₁
  rw [found₁, Option.map_some, edits] at answer' after'
  dsimp only
  generalize s₁.getMutWith now key (bytesEdit edit) = r at answer' after' ⊢
  obtain ⟨s₂, edited⟩ := r
  obtain rfl : edited = some (.ok ((edit bytes).2, grown)) := answer'
  refine ⟨_, v, rfl, leaves, fun x => ?_⟩
  refine (after' x).trans ?_
  split
  · rfl
  · rename_i other
    exact (after x).trans (if_neg other)

/-- What an edit answers and leaves: by a missing key, or by the bytes there are. -/
inductive Edited (now : Nat) (db : ShardedDatabase) (key bytes : Bytes) (edit : Bytes → Bytes × A) (fresh : Option Bytes)
    (missing : A) (out : ShardedDatabase × Result A) : Prop
  | missing : db.valueAt now key = none → bytes = [] → out.2 = .ok missing →
      out.1.valueAt now key = fresh.map .bitmap → Edited now db key bytes edit fresh missing out
  | bytes : Holds now db key bytes → out.2 = .ok (edit bytes).2 → Holds now out.1 key (edit bytes).1 →
      Edited now db key bytes edit fresh missing out

/-- **An edit under the lock does to the bit vector what it does to the bytes**, and to no other key anything. -/
theorem editBits_edited (source : Source now db key bytes) (edit : Bytes → Bytes × A) (fresh : Option Bytes)
    (missing : A) :
    Edited now db key bytes edit fresh missing (db.writeFor key (editBits now key edit fresh missing)) ∧
      ∀ x, x ≠ key → (db.writeFor key (editBits now key edit fresh missing)).1.held now x = db.held now x := by
  have split {s' : Database} {r : Result A} {c : Option Entry}
      (does : editBits now key edit fresh missing (db.shardFor key) = (s', r))
      (after : ∀ x, s'.getRo now x = if x = key then c else (db.shardFor key).getRo now x) (x : Bytes) :
      (db.writeFor key (editBits now key edit fresh missing)).1.getRo now x = if x = key then c else db.getRo now x :=
    ShardedDatabase.getRo_writeFor (by rw [does]; exact after) x
  have others {c : Option Entry} (seen : ∀ x, (db.writeFor key (editBits now key edit fresh missing)).1.getRo now x =
      if x = key then c else db.getRo now x) (x : Bytes) (other : x ≠ key) :
      (db.writeFor key (editBits now key edit fresh missing)).1.held now x = db.held now x := by
    rw [ShardedDatabase.held, seen, if_neg other]
    rfl
  obtain ⟨gone, rfl⟩ | ⟨v, here, isBytes⟩ := source
  · obtain ⟨s', does, after⟩ := @editBits_of_none now key A edit fresh missing _ (Option.map_eq_none_iff.1 gone)
    have seen := split does after
    refine ⟨.missing gone rfl (congrArg Prod.snd does) ?_, others seen⟩
    rw [ShardedDatabase.valueAt, seen, if_pos rfl]
    cases fresh <;> rfl
  · obtain ⟨e, found, rfl⟩ := Option.map_eq_some_iff.1 here
    obtain ⟨s', v', does, leaves, after⟩ := @editBits_of_some bytes now key A edit fresh missing _ e found isBytes
    have seen := split does after
    refine ⟨.bytes ⟨_, here, isBytes⟩ (congrArg Prod.snd does) ⟨v', ?_, leaves⟩, others seen⟩
    rw [ShardedDatabase.valueAt, seen, if_pos rfl]
    rfl

end

/-- The old bit is the answer, the bit is written, all others and all other keys are as they were. -/
structure SetbitRight (now : Nat) (db : ShardedDatabase) (key bytes : Bytes) (offset : Nat) (value : Bool)
    (out : ShardedDatabase × Result Resp) : Prop where
  answer : out.2 = .ok (bitReply (bitAt bytes offset))
  writes : ∃ bytes', Holds now out.1 key bytes' ∧ bytes'.length = max bytes.length (offset / 8 + 1) ∧
    ∀ i, bitAt bytes' i = if i = offset then value else bitAt bytes i
  others : ∀ x, x ≠ key → out.1.held now x = db.held now x

/-- SETBIT sets its bit and answers the old one. -/
theorem cmdSetbit_right {args : List Resp} (call : setbitCall args = .ok (key, offset, value))
    (source : Source now db key bytes) : SetbitRight now db key bytes offset value (cmdSetbit now args db) := by
  have length : (setBit bytes offset value).1.length = max bytes.length (offset / 8 + 1) := by
    rw [setBit_eq, length_write, length_grow]
  have old : (setBit bytes offset value).2 = bitAt bytes offset := by rw [setBit_eq]
  obtain ⟨edited, others⟩ := editBits_edited source (fun bits => setBit bits offset value)
    (some (setBit [] offset value).1) false
  unfold cmdSetbit
  rw [call]
  cases edited with
  | missing gone empty answer leaves =>
    subst empty
    refine ⟨?_, ⟨_, ⟨_, leaves, rfl⟩, length, bitAt_setBit [] offset value⟩, others⟩
    rw [bitAt_of_length_le (Nat.zero_le _)]
    exact congrArg (Except.map bitReply) answer
  | bytes holds answer leaves =>
    refine ⟨?_, ⟨_, leaves, length, bitAt_setBit bytes offset value⟩, others⟩
    rw [← old]
    exact congrArg (Except.map bitReply) answer

/-! ## The commands -/

theorem cmdGetbit_holds {args : List Resp} (call : getbitCall args = .ok (key, offset)) (holds : Holds now db key bytes) :
    (cmdGetbit now args db).2 = .ok (bitReply (bitAt bytes offset)) ∧
      ShardedDatabase.Untouched now db (cmdGetbit now args db).1 := by
  obtain ⟨db', e, read, isBytes, same⟩ := readKey_holds holds
  unfold cmdGetbit
  rw [call]
  dsimp only
  rw [read]
  dsimp only
  rw [isBytes]
  exact ⟨by rw [← getBit_eq]; rfl, same⟩

/-- The arguments of BITCOUNT: a key and perhaps a range. -/
structure CountArgs (toUppercase : String → String) (args : List Resp) (key : Bytes) (range : Option BitRange) : Prop where
  arity : 2 ≤ args.length
  isKey : bytesArg "bitcount" args[1]? = .ok key
  isRange : bitcountRange toUppercase args = .ok range

/-- The arguments of BITPOS: a key, a bit and perhaps a range. -/
structure PosArgs (toUppercase : String → String) (args : List Resp) (key : Bytes) (bit : Int64)
    (range : Option PosRange) : Prop where
  arity : 3 ≤ args.length
  isKey : bytesArg "bitpos" args[1]? = .ok key
  isInt : i64Arg "bitpos" args[2]? = .ok bit
  isBit : bit = 0 ∨ bit = 1
  isRange : bitposRange toUppercase args = .ok range

/-- A number made of the value, and no change. -/
structure Reads {A : Type} (now : Nat) (db : ShardedDatabase) (reply : A → Resp) (a : A)
    (out : ShardedDatabase × Option (Result Resp)) : Prop where
  answer : out.2 = some (.ok (reply a))
  untouched : ShardedDatabase.Untouched now db out.1

variable {toUppercase : String → String} {args : List Resp}

theorem cmdBitcount_holds {range : Option BitRange} (call : CountArgs toUppercase args key range)
    (holds : Holds now db key bytes) {n : Nat} (counts : bitcount bytes range = some n) :
    Reads now db (fun n => .integer (.ofNat n)) n (cmdBitcount toUppercase now args db) := by
  obtain ⟨db', e, read, isBytes, same⟩ := readKey_holds holds
  unfold cmdBitcount
  rw [if_neg (Nat.not_lt.2 call.arity), call.isKey]
  dsimp only
  rw [read]
  dsimp only
  rw [isBytes, call.isRange]
  dsimp only
  rw [counts]
  exact ⟨rfl, same⟩

theorem cmdBitpos_holds {bit : Int64} {range : Option PosRange} (call : PosArgs toUppercase args key bit range)
    (holds : Holds now db key bytes) {p : Option Nat} (finds : bitpos bytes (bit == 1) range = some p) :
    Reads now db posReply p (cmdBitpos toUppercase now args db) := by
  obtain ⟨db', e, read, isBytes, same⟩ := readKey_holds holds
  have isBit : ¬(bit ≠ 0 ∧ bit ≠ 1) := fun neither => call.isBit.elim neither.1 neither.2
  unfold cmdBitpos
  rw [if_neg (Nat.not_lt.2 call.arity), call.isKey, call.isInt]
  dsimp only
  rw [if_neg isBit, read]
  dsimp only
  rw [isBytes, call.isRange]
  dsimp only
  rw [finds]
  exact ⟨rfl, same⟩

/-- **The commands agree on one bit vector, but for BITCOUNT where the start lies behind a last bit that is set, and for
BITPOS there and where the byte of the first hit has another one.** -/
theorem bitmaps_iff (toUppercase : String → String) (now : Nat) (db : ShardedDatabase) :
    (∀ args key offset value bytes, setbitCall args = .ok (key, offset, value) → Source now db key bytes →
      SetbitRight now db key bytes offset value (cmdSetbit now args db)) ∧
    (∀ args key offset bytes, getbitCall args = .ok (key, offset) → Holds now db key bytes →
      (cmdGetbit now args db).2 = .ok (bitReply (bitAt bytes offset)) ∧
        ShardedDatabase.Untouched now db (cmdGetbit now args db).1) ∧
    (∀ args key range bytes, CountArgs toUppercase args key range → Holds now db key bytes →
      ∃ n, Reads now db (fun n => .integer (.ofNat n)) n (cmdBitcount toUppercase now args db) ∧
        (n = ones bytes (countRange range) ↔
          ((countRange range).bitUnit = true → ¬PastBits bytes (countRange range) true))) ∧
    (∀ args key bit range bytes, PosArgs toUppercase args key bit range → Holds now db key bytes →
      ∃ p, Reads now db posReply p (cmdBitpos toUppercase now args db) ∧
        (p = firstHit bytes (searched range) (bit == 1) ↔
          if (searched range).bitUnit then ¬PastBits bytes (searched range) (bit == 1)
          else ¬PastBytes bytes (searched range) (bit == 1) ∧ ¬Crowded bytes (searched range) (bit == 1))) ∧
    ∀ args c op sources, bitopCall toUppercase args = .ok c → opOf c.op = .ok op →
      List.Forall₂ (Source now db) c.keys sources →
      BitopRight now db c.destkey op sources (cmdBitop toUppercase now args db) := by
  refine ⟨fun args key offset value bytes call source => cmdSetbit_right call source,
    fun args key offset bytes call holds => cmdGetbit_holds call holds, fun args key range bytes call holds => ?_, fun args key bit range bytes call holds => ?_,
    fun args c op sources call isOp given => cmdBitop_right call isOp given⟩
  · obtain ⟨n, counts, right⟩ := bitcount_iff bytes range
    exact ⟨n, cmdBitcount_holds call holds counts, right⟩
  · obtain ⟨p, finds, right⟩ := bitpos_iff bytes (bit == 1) range
    exact ⟨p, cmdBitpos_holds call holds finds, right⟩

/-- A byte of ones under k. -/
def fullByte : ShardedDatabase := .holding [107] (.bitmap [255])

theorem holds_k : Holds 0 fullByte [107] [255] := ⟨.bitmap [255], ShardedDatabase.valueAt_holding _ _ _, rfl⟩

open ListIndex (words)

theorem countArgs_bit : CountArgs id (words ["BITCOUNT", "k", "8", "8", "BIT"]) [107] (some ⟨8, 8, true⟩) :=
  ⟨by decide, by decide +kernel, by decide +kernel⟩

theorem posArgs_one : PosArgs id (words ["BITPOS", "k", "1"]) [107] 1 none :=
  ⟨by decide, by decide +kernel, by decide +kernel, .inr rfl, by decide +kernel⟩

/-- All five on one byte of ones, inside and behind its end. -/
theorem bitmaps_of_ones :
    SetbitRight 0 fullByte [107] [255] 3 false (cmdSetbit 0 (words ["SETBIT", "k", "3", "0"]) fullByte) ∧
    (cmdGetbit 0 (words ["GETBIT", "k", "8"]) fullByte).2 = .ok (bitReply (bitAt [255] 8)) ∧
    (∃ n, Reads 0 fullByte (fun n => .integer (.ofNat n)) n (cmdBitcount id 0 (words ["BITCOUNT", "k"]) fullByte) ∧
      n = ones [255] ⟨0, -1, false⟩) ∧
    (∃ p, Reads 0 fullByte posReply p (cmdBitpos id 0 (words ["BITPOS", "k", "0"]) fullByte) ∧
      p = firstHit [255] ⟨0, -1, false⟩ false) ∧
    BitopRight 0 fullByte [100] .not [[255]] (cmdBitop id 0 (words ["BITOP", "NOT", "d", "k"]) fullByte) := by
  obtain ⟨setbit, getbit, bitcount, bitpos, bitop⟩ := bitmaps_iff id 0 fullByte
  refine ⟨setbit _ _ _ _ _ (by decide +kernel) (.inr holds_k), (getbit _ _ _ _ (by decide +kernel) holds_k).1, ?_, ?_,
    bitop _ ⟨"NOT", [100], [[107]]⟩ _ _ (by decide +kernel) (by decide +kernel) (.cons (.inr holds_k) .nil)⟩
  · obtain ⟨n, reads, right⟩ := bitcount (words ["BITCOUNT", "k"]) [107] none [255]
      ⟨by decide, by decide +kernel, by decide +kernel⟩ holds_k
    exact ⟨n, reads, right.2 nofun⟩
  · obtain ⟨p, reads, right⟩ := bitpos (words ["BITPOS", "k", "0"]) [107] 0 none [255]
      ⟨by decide, by decide +kernel, by decide +kernel, .inl rfl, by decide +kernel⟩ holds_k
    refine ⟨p, reads, right.2 ⟨fun past => ?_, fun crowded => ?_⟩⟩
    · exact absurd past.start (by decide)
    · obtain ⟨p, -, first, -⟩ := crowded
      have nothing : firstHit [255] (searched none) (0 == (1 : Int64)) = none := by decide
      rw [nothing] at first
      cases first

/-- The first bit of a byte of ones is found last, and one bit is counted behind the last one. -/
theorem bitpos_finds_the_last :
    (cmdBitpos id 0 (words ["BITPOS", "k", "1"]) fullByte).2 = some (.ok (.integer 7)) ∧
    firstHit [255] (searched none) true = some 0 ∧
    (cmdBitcount id 0 (words ["BITCOUNT", "k", "8", "8", "BIT"]) fullByte).2 = some (.ok (.integer 1)) ∧
    positions [255] ⟨8, 8, true⟩ = [] :=
  ⟨(cmdBitpos_holds posArgs_one holds_k (by decide : bitpos [255] true none = some (some 7))).answer, by decide,
    (cmdBitcount_holds countArgs_bit holds_k (by decide : bitcount [255] (some ⟨8, 8, true⟩) = some 1)).answer, by decide⟩

end Bitmaps

end NexradeCache
