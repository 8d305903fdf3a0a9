import NexradeCache.Command.SetAlgebra
import Mathlib.Data.Finset.Lattice.Fold
import Mathlib.Order.Lattice

/-!
# HyperLogLog (`nexrade-core/src/command/hll.rs`, `nexrade-core/src/types.rs`)

PFADD, PFCOUNT and PFMERGE over register arrays, which form a semilattice: an addition and a merge are both the
pointwise maximum. Registers are stored natively, as a string of their bytes, or as a dense blob of Redis. All reads
go through `hllRegistersFrom`, except that PFMERGE has a test of its own for its destination. `hll_iff` says where
the two differ.
-/

namespace NexradeCache

/-- The smallest register is 0. -/
instance orderBotUInt8 : OrderBot UInt8 where
  bot := 0
  bot_le _ := UInt8.le_iff_toNat_le.2 (Nat.zero_le _)

namespace Hll

/-! ## Registers -/

/-- `HLL_PRECISION`: the bits of a hash that choose a register. -/
def HLL_PRECISION : Nat := 14

/-- `HLL_REGISTERS`. -/
def HLL_REGISTERS : Nat := 2 ^ HLL_PRECISION

/-- What the six bits of a register hold at most. -/
def HLL_REGISTER_MAX : UInt8 := 63

/-- An array of registers. -/
abbrev Registers := Fin HLL_REGISTERS → UInt8

/-- `empty_registers`. -/
def emptyRegisters : Registers := fun _ => 0

/-- FNV-1a with a finalizer. -/
def fnv1a64 (bytes : Bytes) : UInt64 :=
  let h : UInt64 := bytes.foldl (fun h b => (h ^^^ b.toUInt64) * 0x100000001b3) 0xcbf29ce484222325
  let h := h ^^^ (h >>> 33)
  let h := h * 0xff51afd7ed558ccd
  let h := h ^^^ (h >>> 33)
  let h := h * 0xc4ceb9fe1a85ec53
  h ^^^ (h >>> 33)

/-- The register of an element: the high bits of its hash. -/
def indexOf (element : Bytes) : Fin HLL_REGISTERS :=
  ⟨(fnv1a64 element).toNat / 2 ^ (64 - HLL_PRECISION), by
    have bound := (fnv1a64 element).toNat_lt
    simp only [HLL_REGISTERS, HLL_PRECISION]
    omega⟩

/-- The position of the first bit in the rest. -/
def rankOf (element : Bytes) : UInt8 :=
  let rest := (fnv1a64 element).toNat % 2 ^ (64 - HLL_PRECISION)
  let rank : Nat := if rest = 0 then 64 - HLL_PRECISION + 1 else rest.log2 + 1
  min (.ofNat rank) HLL_REGISTER_MAX

/-- `hll_add`: the register of an element is raised to its rank; the flag says whether that changed it. -/
def hllAdd (registers : Registers) (element : Bytes) : Registers × Bool :=
  if registers (indexOf element) < rankOf element then
    (Function.update registers (indexOf element) (rankOf element), true)
  else (registers, false)

/-- `hll_merge_into`: the larger of both, register by register. -/
def hllMergeInto (dest other : Registers) : Registers := fun i => if dest i < other i then other i else dest i

/-! ## The encodings -/

/-- `HYLL`. -/
def REDIS_HLL_MAGIC : Bytes := [72, 89, 76, 76]

/-- The length of the header of a HYLL value of Redis. -/
def REDIS_HLL_HEADER : Nat := 16

/-- The length of its registers when they are dense. -/
def REDIS_HLL_DENSE_BYTES : Nat := HLL_REGISTERS * 6 / 8

/-- Six bits for each register, the low ones first. -/
def unpackRedisDense (payload : Bytes) (full : payload.length = REDIS_HLL_DENSE_BYTES) : Registers := fun i =>
  have inside : i.val < 16384 := i.isLt
  have size : payload.length = 12288 := full
  let low := (payload.get ⟨i.val * 6 / 8, by omega⟩).toNat >>> (i.val * 6 % 8)
  let v :=
    if spill : 2 < i.val * 6 % 8 then
      low ||| (payload.get ⟨i.val * 6 / 8 + 1, by omega⟩).toNat <<< (8 - i.val * 6 % 8)
    else low
  .ofNat (v &&& 63)

/-- The error for a value that is no HyperLogLog, with the reason. -/
def notHll (why : String) : NexradeError := .generic ("WRONGTYPE Key is not a valid HyperLogLog value" ++ why)

/-- `decode_redis_hll`: the registers of a HYLL value with a dense payload. A sparse one and one of the wrong length
are refused. -/
def decodeRedisHll (bytes : Bytes) : Result Registers :=
  if bytes.length < REDIS_HLL_HEADER ∨ bytes.take 4 ≠ REDIS_HLL_MAGIC then
    .error (notHll (" (expected 16384 bytes, got " ++ toString bytes.length ++ ")"))
  else
    let encoding := bytes.getD 4 0
    if encoding = 0 then
      let payload := bytes.drop REDIS_HLL_HEADER
      if full : payload.length = REDIS_HLL_DENSE_BYTES then .ok (unpackRedisDense payload full)
      else
        .error (notHll
          (" (Redis dense header with " ++ toString payload.length ++ " register bytes, expected 12288)"))
    else if encoding = 1 then
      .error (notHll (" (Redis sparse encoding). Migrate it with scripts/migrate_from_redis.py, or " ++
        "rebuild the key with PFADD."))
    else .error (notHll (" (unknown Redis encoding " ++ toString encoding.toNat ++ ")"))

/-- The bytes of a native or a string value. -/
def registerBytes (bytes : Bytes) : Result Registers :=
  if full : bytes.length = HLL_REGISTERS then
    if bytes.any (HLL_REGISTER_MAX < ·) then .error (notHll "") else .ok fun i => bytes.get (i.cast full.symm)
  else decodeRedisHll bytes

/-- `hll_registers_from`: a HyperLogLog, and a string with a HYLL header or as many bytes as there are registers. -/
def hllRegistersFrom (value : DataType) : Result Registers :=
  match value with
  | .hyperLogLog v => registerBytes v
  | .string v => registerBytes v
  | _ => .error .wrongType

/-! ## The handlers -/

/-- One pass of the loop over the elements, with the number of changes. -/
def addOne (acc : Registers × Nat) (el : Bytes) : Registers × Nat :=
  let out := hllAdd acc.1 el
  (out.1, if out.2 then acc.2 + 1 else acc.2)

/-- The loop of PFADD, with the number of elements that changed a register. -/
def addAll (registers : Registers) (elements : List Bytes) : Registers × Nat := elements.foldl addOne (registers, 0)

/-- PFADD under the lock of the shard. -/
def pfadd (now : Nat) (key : Bytes) (elements : List Bytes) (s : Database) : Database × Result Resp :=
  let (s, found) := s.get now key
  match (found.map fun e => hllRegistersFrom e.value).getD (.ok emptyRegisters) with
  | .error e => (s, .error e)
  | .ok registers =>
    let (registers, changed) := addAll registers elements
    -- the key is looked up again only if nothing changed
    let (s, writes) := if 0 < changed then (s, true) else let (s, e) := s.get now key; (s, e.isNone)
    if writes then
      let (s, e) := s.get now key
      let s := s.insert key (.new (.hyperLogLog (List.ofFn registers)))
      match e.bind Entry.expiry with
      | some expiry => (s.setExpiry key (some expiry), .ok (.integer 1))
      | none => (s, .ok (.integer 1))
    else (s, .ok (.integer 0))

/-- PFADD. -/
def cmdPfadd (now : Nat) (args : List Resp) (db : ShardedDatabase) : ShardedDatabase × Result Resp :=
  if args.length < 2 then (db, .error (.wrongArity "pfadd"))
  else match (args.drop 1).mapM fun a => bytesArg "pfadd" (some a) with
    | .error e => (db, .error e)
    | .ok [] => (db, .error (.wrongArity "pfadd"))
    | .ok (key :: elements) => db.writeFor key (pfadd now key elements)

/-- The loops that merge the registers of several keys, and whether one of them exists. -/
def mergeKeys (now : Nat) (db : ShardedDatabase) : (keys : List Bytes) → (accum : Registers) → (anyData : Bool) →
    Result (Registers × Bool)
  | [], accum, anyData => .ok (accum, anyData)
  | key :: keys, accum, anyData => match db.getRo now key with
    | none => mergeKeys now db keys accum anyData
    | some e => match hllRegistersFrom e.value with
      | .error e => .error e
      | .ok regs => mergeKeys now db keys (hllMergeInto accum regs) true

/-- `hll_count` is a parameter. -/
def pfcount (hllCount : Registers → UInt64) (now : Nat) (db : ShardedDatabase) (keys : List Bytes) : Result Resp :=
  match keys with
  | [key] => match db.getRo now key with
    | none => .ok (.integer 0)
    | some e => (hllRegistersFrom e.value).map fun regs => .integer (hllCount regs).toInt64
  | keys => (mergeKeys now db keys emptyRegisters false).map fun r =>
      if !r.2 then .integer 0 else .integer (hllCount r.1).toInt64

/-- PFCOUNT. The estimate from the registers is a parameter, since it is a sum of doubles. -/
def cmdPfcount (hllCount : Registers → UInt64) (now : Nat) (args : List Resp) (db : ShardedDatabase) : Result Resp := do
  if args.length < 2 then throw (.wrongArity "pfcount")
  let keys ← (args.drop 1).mapM fun a => bytesArg "pfcount" (some a)
  pfcount hllCount now db keys

/-- The bytes of the destination, raised to the registers of the sources. -/
def raised (v : Bytes) (full : v.length = HLL_REGISTERS) (accum : Registers) : Registers :=
  hllMergeInto (fun i => v.get (i.cast full.symm)) accum

/-- PFMERGE at a destination that exists. -/
def mergeEdit (accum : Registers) (e : Entry) : DataType × Result Unit :=
  let refused : DataType × Result Unit :=
    (e.value, .error (.generic "Key is not a valid HyperLogLog string value."))
  match e.value with
  | .hyperLogLog v =>
    if full : v.length = HLL_REGISTERS then (.hyperLogLog (List.ofFn (raised v full accum)), .ok ()) else refused
  | .string v =>
    if full : v.length = HLL_REGISTERS then (.hyperLogLog (List.ofFn (raised v full accum)), .ok ()) else refused
  | .bitmap _ => refused
  | _ => (e.value, .error .wrongType)

/-- PFMERGE under the lock of the destination. -/
def mergeInto (now : Nat) (dest : Bytes) (accum : Registers) (s : Database) : Database × Result Resp :=
  match s.getMutWith now dest (mergeEdit accum) with
  | (s, some r) => (s, r.map fun _ => .simpleString "OK")
  | (s, none) => (s.insert dest (.new (.hyperLogLog (List.ofFn accum))), .ok (.simpleString "OK"))

/-- PFMERGE. The sources are read first; their maximum goes into the destination under the lock of its shard. -/
def cmdPfmerge (now : Nat) (args : List Resp) (db : ShardedDatabase) : ShardedDatabase × Result Resp :=
  if args.length < 2 then (db, .error (.wrongArity "pfmerge"))
  else match (args.drop 1).mapM fun a => bytesArg "pfmerge" (some a) with
    | .error e => (db, .error e)
    | .ok [] => (db, .error (.wrongArity "pfmerge"))
    | .ok (dest :: sources) => match mergeKeys now db sources emptyRegisters false with
      | .error e => (db, .error e)
      | .ok (accum, _) => db.writeFor dest (mergeInto now dest accum)

/-! ## The semilattice -/

/-- The registers of one element. -/
def mark (element : Bytes) : Registers := fun i => if i = indexOf element then rankOf element else 0

theorem emptyRegisters_eq : emptyRegisters = ⊥ := rfl

/-- **A merge is a maximum.** -/
theorem hllMergeInto_eq (dest other : Registers) : hllMergeInto dest other = dest ⊔ other := by
  funext i
  rw [hllMergeInto, Pi.sup_apply]
  split
  · rename_i less
    exact (sup_eq_right.2 less.le).symm
  · rename_i not
    exact (sup_eq_left.2 (not_lt.1 not)).symm

/-- An element raises the registers to its own. -/
theorem hllAdd_eq (registers : Registers) (element : Bytes) : (hllAdd registers element).1 = registers ⊔ mark element := by
  funext i
  rw [hllAdd, Pi.sup_apply, mark]
  by_cases here : i = indexOf element
  · subst here
    rw [if_pos rfl]
    split
    · rename_i less
      dsimp only
      rw [Function.update_self]
      exact (sup_eq_right.2 less.le).symm
    · rename_i not
      exact (sup_eq_left.2 (not_lt.1 not)).symm
  · rw [if_neg here]
    have nothing : registers i ⊔ 0 = registers i := sup_bot_eq _
    rw [nothing]
    split
    · dsimp only
      rw [Function.update_of_ne here]
    · rfl

theorem hllAdd_unchanged {registers : Registers} {element : Bytes} (h : (hllAdd registers element).2 = false) :
    (hllAdd registers element).1 = registers := by
  unfold hllAdd at h ⊢
  split at h
  · cases h
  · rename_i not
    rw [if_neg not]

/-- The registers of a set of elements. -/
def registersOf (elements : Finset Bytes) : Registers := elements.sup mark

/-- The registers of a union are the maximum of those of its parts. -/
theorem registersOf_union (s t : Finset Bytes) : registersOf (s ∪ t) = registersOf s ⊔ registersOf t := Finset.sup_union

/-- The loop raises the registers to those of all its elements; the count does not fall, and if it stays nothing has
changed. -/
theorem foldl_addOne (registers : Registers) (changed : Nat) (elements : List Bytes) :
    (elements.foldl addOne (registers, changed)).1 = registers ⊔ registersOf elements.toFinset ∧
      changed ≤ (elements.foldl addOne (registers, changed)).2 ∧
      ((elements.foldl addOne (registers, changed)).2 = changed →
        (elements.foldl addOne (registers, changed)).1 = registers) := by
  induction elements generalizing registers changed with
  | nil =>
    have nothing : registersOf (([] : List Bytes).toFinset) = ⊥ := Finset.sup_empty
    rw [nothing, sup_bot_eq]
    exact ⟨rfl, le_rfl, fun _ => rfl⟩
  | cons el elements ih =>
    have more : registersOf (el :: elements).toFinset = mark el ⊔ registersOf elements.toFinset := by
      rw [List.toFinset_cons, registersOf, Finset.sup_insert]
      rfl
    rw [List.foldl_cons, addOne, more, ← sup_assoc, ← hllAdd_eq]
    dsimp only
    cases did : (hllAdd registers el).2 with
    | true =>
      obtain ⟨here, grows, -⟩ := ih (hllAdd registers el).1 (changed + 1)
      refine ⟨here, Nat.le_of_succ_le grows, fun same => ?_⟩
      rw [if_pos rfl] at same
      omega
    | false =>
      obtain ⟨here, grows, same⟩ := ih (hllAdd registers el).1 changed
      refine ⟨here, grows, fun still => (same still).trans (hllAdd_unchanged did)⟩

/-- PFADD raises the registers to those of its elements. -/
theorem addAll_eq (registers : Registers) (elements : List Bytes) :
    (addAll registers elements).1 = registers ⊔ registersOf elements.toFinset :=
  (foldl_addOne registers 0 elements).1

/-- When it has counted nothing, it has changed nothing. -/
theorem addAll_unchanged {registers : Registers} {elements : List Bytes} (same : (addAll registers elements).2 = 0) :
    (addAll registers elements).1 = registers :=
  (foldl_addOne registers 0 elements).2.2 same

/-! ## Registers in range -/

/-- No register exceeds six bits. -/
def Valid (r : Registers) : Prop := r ≤ fun _ => HLL_REGISTER_MAX

/-- No register is above the maximum when all are 0. -/
theorem valid_bot : Valid ⊥ := bot_le

theorem Valid.sup {r r' : Registers} (h : Valid r) (h' : Valid r') : Valid (r ⊔ r') := sup_le h h'

theorem valid_mark (element : Bytes) : Valid (mark element) := by
  intro i
  rw [mark]
  split
  · exact min_le_right _ _
  · exact bot_le

theorem valid_registersOf (elements : Finset Bytes) : Valid (registersOf elements) :=
  Finset.sup_le fun el _ => valid_mark el

theorem valid_unpack {payload : Bytes} (full : payload.length = REDIS_HLL_DENSE_BYTES) :
    Valid (unpackRedisDense payload full) := by
  intro i
  show unpackRedisDense payload full i ≤ 63
  rw [unpackRedisDense]
  generalize (if spill : 2 < i.val * 6 % 8 then _ else _ : Nat) = v
  have bound : v &&& 63 ≤ 63 := Nat.and_le_right
  rw [UInt8.le_iff_toNat_le, UInt8.toNat_ofNat']
  show (v &&& 63) % 256 ≤ 63
  omega

/-- Bytes are accepted only if each fits a register. -/
theorem valid_of_registerBytes {bytes : Bytes} {r : Registers} (h : registerBytes bytes = .ok r) : Valid r := by
  unfold registerBytes at h
  split at h
  · split at h
    · cases h
    · rename_i full small
      obtain rfl := Except.ok.inj h
      intro i
      by_contra big
      refine small (List.any_eq_true.2 ⟨_, List.get_mem bytes (i.cast full.symm), ?_⟩)
      simpa using big
  · unfold decodeRedisHll at h
    split at h
    · cases h
    · dsimp only at h
      split at h
      · split at h
        · obtain rfl := Except.ok.inj h
          exact valid_unpack _
        · cases h
      · split at h <;> cases h

theorem valid_of_hllRegistersFrom {v : DataType} {r : Registers} (h : hllRegistersFrom v = .ok r) : Valid r := by
  cases v with
  | hyperLogLog v => exact valid_of_registerBytes h
  | string v => exact valid_of_registerBytes h
  | _ => cases h

/-- Registers that are written as a list and read back. -/
theorem get_ofFn_cast {n : Nat} (r : Fin n → UInt8) (full : (List.ofFn r).length = n) :
    (fun i : Fin n => (List.ofFn r).get (i.cast full.symm)) = r := by
  funext i
  rw [List.get_ofFn]
  rfl

/-- Valid registers are read as they were stored. -/
theorem registerBytes_ofFn {r : Registers} (valid : Valid r) : registerBytes (List.ofFn r) = .ok r := by
  have full : (List.ofFn r).length = HLL_REGISTERS := List.length_ofFn
  have small : ¬(List.ofFn r).any (HLL_REGISTER_MAX < ·) = true := by
    intro big
    obtain ⟨b, mem, large⟩ := List.any_eq_true.1 big
    obtain ⟨i, rfl⟩ := List.mem_ofFn.1 mem
    exact absurd (valid i) (not_le.2 (by simpa using large))
  unfold registerBytes
  rw [dif_pos full, if_neg small, get_ofFn_cast r full]

/-- A HyperLogLog of valid registers reads as these. -/
theorem hllRegistersFrom_ofFn {r : Registers} (valid : Valid r) :
    hllRegistersFrom (.hyperLogLog (List.ofFn r)) = .ok r := registerBytes_ofFn valid

/-! ## PFADD -/

variable {now : Nat} {key dest : Bytes} {r : Registers} {s : Database} {elements : List Bytes}

/-- A key holds native registers, and no deadline. -/
def Keeps (key : Bytes) (r : Registers) (s : Database) : Prop :=
  ∃ lru, (s.view key).entry = some ⟨.hyperLogLog (List.ofFn r), none, lru⟩

theorem Keeps.getRo (h : Keeps key r s) (now : Nat) :
    ∃ lru, s.getRo now key = some ⟨.hyperLogLog (List.ofFn r), none, lru⟩ := by
  obtain ⟨lru, entry⟩ := h
  exact ⟨lru, by rw [Database.getRo_eq, entry, seen_dateless]⟩

theorem Keeps.get (h : Keeps key r s) (now : Nat) :
    Keeps key r (s.get now key).1 ∧ ∃ lru, (s.get now key).2 = some ⟨.hyperLogLog (List.ofFn r), none, lru⟩ := by
  constructor
  · obtain ⟨lru, entry⟩ := h
    have after := ((Database.moves_get now key).here s).entry
    rw [entry] at after
    exact ⟨s.lruClock, after⟩
  · obtain ⟨lru, live⟩ := h.getRo now
    refine ⟨s.lruClock, ?_⟩
    rw [(Database.acts_get now key).answer, live]
    rfl

theorem keeps_insert (key : Bytes) (r : Registers) (s : Database) :
    Keeps key r (s.insert key (.new (.hyperLogLog (List.ofFn r)))) :=
  ⟨0, by
    rw [((Database.moves_insert key (.new (.hyperLogLog (List.ofFn r)))).here s).entry]
    unfold View.inserted
    split <;> rfl⟩

/-- PFADD on a HyperLogLog raises its registers to those of the elements, whether it writes or not. -/
theorem pfadd_of_keeps (now : Nat) (elements : List Bytes) (valid : Valid r) (h : Keeps key r s) :
    Keeps key (r ⊔ registersOf elements.toFinset) (pfadd now key elements s).1 := by
  obtain ⟨keeps, lru, found⟩ := h.get now
  have read : ((s.get now key).2.map fun e => hllRegistersFrom e.value).getD (.ok emptyRegisters) = .ok r := by
    rw [found, Option.map_some, Option.getD_some, hllRegistersFrom_ofFn valid]
  unfold pfadd
  dsimp only
  rw [read, ← addAll_eq]
  dsimp only
  generalize (s.get now key).1 = s at keeps
  by_cases changed : 0 < (addAll r elements).2
  · obtain ⟨-, lru, found⟩ := keeps.get now
    rw [if_pos changed]
    dsimp only
    rw [if_pos rfl, found]
    exact keeps_insert _ _ _
  · obtain ⟨keeps', lru, found⟩ := keeps.get now
    have same := addAll_unchanged (Nat.eq_zero_of_not_pos changed)
    rw [if_neg changed]
    dsimp only
    rw [found, same]
    exact keeps'

/-- The first PFADD on a key that is not there. -/
theorem pfadd_of_missing (elements : List Bytes) (fresh : s.getRo now key = none) :
    Keeps key (registersOf elements.toFinset) (pfadd now key elements s).1 := by
  have nothing (s : Database) (fresh : s.getRo now key = none) :
      (s.get now key).2 = none ∧ (s.get now key).1.getRo now key = none := by
    have acts := Database.acts_get now key
    refine ⟨?_, ?_⟩
    · rw [acts.answer, fresh]
      rfl
    · rw [acts.getRo, if_pos rfl, fresh]
      rfl
  obtain ⟨gone, fresh'⟩ := nothing s fresh
  have read : ((s.get now key).2.map fun e => hllRegistersFrom e.value).getD (.ok emptyRegisters) =
      .ok emptyRegisters := by
    rw [gone]
    rfl
  have all : registersOf elements.toFinset = (addAll emptyRegisters elements).1 := by
    rw [addAll_eq, emptyRegisters_eq, bot_sup_eq]
  unfold pfadd
  dsimp only
  rw [read, all]
  dsimp only
  generalize (s.get now key).1 = s at fresh'
  by_cases changed : 0 < (addAll emptyRegisters elements).2
  · rw [if_pos changed]
    dsimp only
    rw [if_pos rfl, (nothing s fresh').1]
    exact keeps_insert _ _ _
  · obtain ⟨gone', fresh''⟩ := nothing s fresh'
    rw [if_neg changed]
    dsimp only
    rw [gone', Option.isNone_none, if_pos rfl, (nothing _ fresh'').1]
    exact keeps_insert _ _ _

/-- These keys behind the name of the command. -/
def KeyArgs (args : List Resp) (keys : List Bytes) : Prop := (args.drop 1).map Resp.toBytesVec = keys.map some

theorem mapM_bytesArg (cmd : String) {l : List Resp} {keys : List Bytes}
    (h : l.map Resp.toBytesVec = keys.map some) : l.mapM (fun a => bytesArg cmd (some a)) = .ok keys := by
  induction l generalizing keys with
  | nil =>
    rw [List.map_nil, eq_comm, List.map_eq_nil_iff] at h
    subst h
    rfl
  | cons a l ih =>
    cases keys with
    | nil => cases h
    | cons key keys =>
      rw [List.map_cons, List.map_cons, List.cons.injEq] at h
      rw [List.mapM_cons, SetAlgebra.bytesArg_eq h.1, ih h.2]
      rfl

theorem KeyArgs.arity {args : List Resp} {keys : List Bytes} (h : KeyArgs args (key :: keys)) : ¬args.length < 2 := by
  have length := congrArg List.length h
  simp at length
  omega

variable {args : List Resp} {db : ShardedDatabase}

/-- PFADD is one edit under the lock of its shard. -/
theorem cmdPfadd_eq (now : Nat) (given : KeyArgs args (key :: elements)) (db : ShardedDatabase) :
    cmdPfadd now args db = db.writeFor key (pfadd now key elements) := by
  unfold cmdPfadd
  rw [if_neg given.arity, mapM_bytesArg "pfadd" given]

/-- PFADDs one after the other, each at its time. -/
def pfadds (calls : List (Nat × List Resp)) (db : ShardedDatabase) : ShardedDatabase :=
  calls.foldl (fun db c => (cmdPfadd c.1 c.2 db).1) db

/-- **Any PFADDs in a row leave the registers of all their elements**, in whatever order and with whatever
repetitions. -/
theorem pfadds_of_keeps {calls : List (Nat × List Resp)} {added : List (List Bytes)} (valid : Valid r)
    (given : List.Forall₂ (fun c els => KeyArgs c.2 (key :: els)) calls added) (h : Keeps key r (db.shardFor key)) :
    Keeps key (r ⊔ registersOf added.flatten.toFinset) ((pfadds calls db).shardFor key) := by
  induction given generalizing r db with
  | nil =>
    have nothing : registersOf (([] : List (List Bytes)).flatten.toFinset) = ⊥ := Finset.sup_empty
    rw [nothing, sup_bot_eq]
    exact h
  | @cons c els calls added first given ih =>
    have next : Keeps key (r ⊔ registersOf els.toFinset) ((cmdPfadd c.1 c.2 db).1.shardFor key) := by
      rw [cmdPfadd_eq c.1 first, ShardedDatabase.shardFor_writeFor_self]
      exact pfadd_of_keeps c.1 els valid h
    have rest := ih (valid.sup (valid_registersOf _)) next
    rw [sup_assoc, ← registersOf_union, ← List.toFinset_append] at rest
    exact rest

/-- **After any PFADDs to a fresh key its registers are those of the set of the elements.** -/
theorem pfadds_fresh {calls : List (Nat × List Resp)} {added : List (List Bytes)} {els : List Bytes}
    (fresh : db.getRo now key = none) (first : KeyArgs args (key :: els))
    (given : List.Forall₂ (fun c els => KeyArgs c.2 (key :: els)) calls added) (t : Nat) :
    (pfadds ((now, args) :: calls) db).held t key =
      some (.hyperLogLog (List.ofFn (registersOf (els ++ added.flatten).toFinset)), none) := by
  have start : Keeps key (registersOf els.toFinset) ((cmdPfadd now args db).1.shardFor key) := by
    rw [cmdPfadd_eq now first, ShardedDatabase.shardFor_writeFor_self]
    exact pfadd_of_missing els fresh
  have run := pfadds_of_keeps (valid_registersOf _) given start
  rw [← registersOf_union, ← List.toFinset_append] at run
  obtain ⟨lru, live⟩ := run.getRo t
  rw [ShardedDatabase.held, ShardedDatabase.getRo]
  show (Database.getRo t ((pfadds calls (cmdPfadd now args db).1).shardFor key) key).map _ = _
  rw [live, Option.map_some]

/-! ## PFCOUNT -/

/-- The value is one that PFCOUNT reads. -/
def Accepted (v : DataType) : Prop := ∃ r, hllRegistersFrom v = .ok r

/-- The registers of a key, none where nothing is read. -/
def registersAt (now : Nat) (db : ShardedDatabase) (key : Bytes) : Registers :=
  match (db.valueAt now key).map hllRegistersFrom with
  | some (.ok r) => r
  | _ => ⊥

/-- The pointwise maximum over several keys. -/
def pooled (now : Nat) (db : ShardedDatabase) (keys : List Bytes) : Registers :=
  keys.foldr (fun key acc => registersAt now db key ⊔ acc) ⊥

/-- Each of the keys is missing, or its value is one that PFCOUNT reads. -/
def AllAccepted (now : Nat) (db : ShardedDatabase) (keys : List Bytes) : Prop :=
  ∀ key ∈ keys, ∀ v, db.valueAt now key = some v → Accepted v

/-- None of the keys exists. -/
def Absent (now : Nat) (db : ShardedDatabase) (keys : List Bytes) : Prop := ∀ key ∈ keys, db.valueAt now key = none

instance (keys : List Bytes) : Decidable (Absent now db keys) :=
  decidable_of_iff (∀ key ∈ keys, (db.valueAt now key).isNone = true) (by simp [Absent])

variable {keys : List Bytes}

theorem absent_cons : Absent now db (key :: keys) ↔ db.valueAt now key = none ∧ Absent now db keys :=
  List.forall_mem_cons

theorem allAccepted_cons : AllAccepted now db (key :: keys) ↔
    (∀ v, db.valueAt now key = some v → Accepted v) ∧ AllAccepted now db keys := List.forall_mem_cons

/-- **The loop over the keys takes the maximum of what they hold**, if it accepts all of them. -/
theorem mergeKeys_eq (accum : Registers) (anyData : Bool) (accepted : AllAccepted now db keys) :
    mergeKeys now db keys accum anyData = .ok (accum ⊔ pooled now db keys, anyData || !decide (Absent now db keys)) := by
  induction keys generalizing accum anyData with
  | nil => simp [mergeKeys, pooled, Absent]
  | cons key keys ih =>
    obtain ⟨first, rest⟩ := allAccepted_cons.1 accepted
    rw [mergeKeys]
    have pool : pooled now db (key :: keys) = registersAt now db key ⊔ pooled now db keys := rfl
    rw [pool]
    cases found : db.getRo now key with
    | none =>
      have gone : db.valueAt now key = none := by rw [ShardedDatabase.valueAt, found, Option.map_none]
      have nothing : registersAt now db key = ⊥ := by
        rw [registersAt, gone]
        rfl
      dsimp only
      rw [ih accum anyData rest, nothing, bot_sup_eq]
      simp [absent_cons, gone]
    | some e =>
      have here : db.valueAt now key = some e.value := by rw [ShardedDatabase.valueAt, found, Option.map_some]
      obtain ⟨r, read⟩ := first _ here
      have regs : registersAt now db key = r := by
        rw [registersAt, here, Option.map_some, read]
      dsimp only
      rw [read]
      dsimp only
      rw [ih _ true rest, hllMergeInto_eq, regs, sup_assoc]
      simp [absent_cons, here]

/-- And fails at one that it does not accept. -/
theorem mergeKeys_refused {accum : Registers} {anyData : Bool} (not : ¬AllAccepted now db keys) :
    ∃ e, mergeKeys now db keys accum anyData = .error e := by
  induction keys generalizing accum anyData with
  | nil => exact (not (by simp [AllAccepted])).elim
  | cons key keys ih =>
    rw [allAccepted_cons] at not
    rw [mergeKeys]
    cases found : db.getRo now key with
    | none =>
      have gone : db.valueAt now key = none := by rw [ShardedDatabase.valueAt, found, Option.map_none]
      exact ih fun rest => not ⟨by simp [gone], rest⟩
    | some e =>
      have here : db.valueAt now key = some e.value := by rw [ShardedDatabase.valueAt, found, Option.map_some]
      dsimp only
      cases read : hllRegistersFrom e.value with
      | error err => exact ⟨err, rfl⟩
      | ok r =>
        refine ih fun rest => not ⟨fun v h => ?_, rest⟩
        rw [here] at h
        obtain rfl := Option.some.inj h
        exact ⟨r, read⟩

/-- PFCOUNT answers the estimate of the pointwise maximum, or 0 if no key exists. -/
theorem cmdPfcount_eq (hllCount : Registers → UInt64) (given : KeyArgs args (key :: keys))
    (accepted : AllAccepted now db (key :: keys)) : cmdPfcount hllCount now args db =
      .ok (.integer (if Absent now db (key :: keys) then 0 else (hllCount (pooled now db (key :: keys))).toInt64)) := by
  unfold cmdPfcount
  rw [if_neg given.arity, mapM_bytesArg "pfcount" given]
  show pfcount hllCount now db (key :: keys) = _
  cases keys with
  | nil =>
    have pool : pooled now db [key] = registersAt now db key := sup_bot_eq _
    rw [pool, pfcount]
    cases found : db.getRo now key with
    | none =>
      have gone : Absent now db [key] := by simp [Absent, ShardedDatabase.valueAt, found]
      rw [if_pos gone]
    | some e =>
      have here : db.valueAt now key = some e.value := by rw [ShardedDatabase.valueAt, found, Option.map_some]
      have there : ¬Absent now db [key] := by simp [Absent, here]
      obtain ⟨r, read⟩ := accepted key (.head _) _ here
      have regs : registersAt now db key = r := by
        rw [registersAt, here, Option.map_some, read]
      rw [if_neg there, regs]
      dsimp only
      rw [read]
      rfl
  | cons key' keys =>
    rw [pfcount, mergeKeys_eq emptyRegisters false accepted, emptyRegisters_eq, bot_sup_eq]
    · simp only [Except.map, Bool.false_or, Bool.not_not, decide_eq_true_eq]
      split <;> rfl
    · intro only is
      cases is

/-! ## PFMERGE -/

/-- The bytes of a value that may hold registers. -/
def BytesOf (v : DataType) (bytes : Bytes) : Prop := v = .hyperLogLog bytes ∨ v = .string bytes

/-- As many bytes as there are registers, and one of them out of range. -/
def Overfull (v : DataType) : Prop :=
  ∃ bytes, BytesOf v bytes ∧ bytes.length = HLL_REGISTERS ∧ ∃ b ∈ bytes, HLL_REGISTER_MAX < b

/-- A dense blob of Redis. -/
def DenseBlob (v : DataType) : Prop :=
  ∃ bytes r, BytesOf v bytes ∧ bytes.length ≠ HLL_REGISTERS ∧ decodeRedisHll bytes = .ok r

/-- What PFMERGE makes of a destination with this value. -/
def Takes (v : DataType) (accum merged : Registers) : Prop :=
  ∀ e : Entry, e.value = v → mergeEdit accum e = (.hyperLogLog (List.ofFn merged), .ok ())

/-- The destination is refused and stays as it is. -/
def Refuses (v : DataType) (accum : Registers) : Prop :=
  ∀ e : Entry, e.value = v → ∃ err, mergeEdit accum e = (v, .error err)

/-- How a value is judged by PFCOUNT and as a destination of PFMERGE. -/
inductive Judged (v : DataType) (accum : Registers) : Prop
  | accepted {r : Registers} : hllRegistersFrom v = .ok r → ¬Overfull v → ¬DenseBlob v → Takes v accum (r ⊔ accum) →
      Judged v accum
  | refused : ¬Accepted v → ¬Overfull v → ¬DenseBlob v → Refuses v accum → Judged v accum
  | overfull {merged : Registers} : ¬Accepted v → Overfull v → Takes v accum merged → Judged v accum
  | dense : Accepted v → DenseBlob v → Refuses v accum → Judged v accum

theorem bytesOf_unique {v : DataType} {bytes bytes' : Bytes} (h : BytesOf v bytes) (h' : BytesOf v bytes') :
    bytes' = bytes := by
  rcases h with rfl | rfl <;> rcases h' with h' | h' <;> cases h' <;> rfl

/-- A value of bytes is taken as registers, or refused by its length. -/
theorem judged_bytes {v : DataType} {bytes : Bytes} (accum : Registers) (h : BytesOf v bytes)
    (reads : hllRegistersFrom v = registerBytes bytes)
    (takes : ∀ full : bytes.length = HLL_REGISTERS, Takes v accum (raised bytes full accum))
    (refuses : bytes.length ≠ HLL_REGISTERS → Refuses v accum) : Judged v accum := by
  by_cases full : bytes.length = HLL_REGISTERS
  · have notDense : ¬DenseBlob v := by
      rintro ⟨bytes', r, h', other, -⟩
      exact other (bytesOf_unique h h' ▸ full)
    unfold registerBytes at reads
    rw [dif_pos full] at reads
    by_cases big : bytes.any (HLL_REGISTER_MAX < ·) = true
    · rw [if_pos big] at reads
      refine .overfull ?_ ⟨bytes, h, full, by simpa using big⟩ (takes full)
      rintro ⟨r, read⟩
      rw [reads] at read
      cases read
    · rw [if_neg big] at reads
      refine .accepted reads ?_ notDense ?_
      · rintro ⟨bytes', h', -, exceeds⟩
        rw [bytesOf_unique h h'] at exceeds
        exact big (by simpa using exceeds)
      · rw [← hllMergeInto_eq]
        exact takes full
  · have notOver : ¬Overfull v := by
      rintro ⟨bytes', h', full', -⟩
      exact full (bytesOf_unique h h' ▸ full')
    unfold registerBytes at reads
    rw [dif_neg full] at reads
    cases decoded : decodeRedisHll bytes with
    | ok r =>
      rw [decoded] at reads
      exact .dense ⟨r, reads⟩ ⟨bytes, r, h, full, decoded⟩ (refuses full)
    | error err =>
      rw [decoded] at reads
      refine .refused ?_ notOver ?_ (refuses full)
      · rintro ⟨r, read⟩
        rw [reads] at read
        cases read
      · rintro ⟨bytes', r, h', -, decoded'⟩
        rw [bytesOf_unique h h', decoded] at decoded'
        cases decoded'

theorem judged_other {v : DataType} {accum : Registers} (not : ∀ bytes, ¬BytesOf v bytes)
    (reads : hllRegistersFrom v = .error .wrongType) (refuses : Refuses v accum) : Judged v accum := by
  refine .refused ?_ ?_ ?_ refuses
  · rintro ⟨r, read⟩
    rw [reads] at read
    cases read
  · rintro ⟨bytes, h, -⟩
    exact not bytes h
  · rintro ⟨bytes, r, h, -⟩
    exact not bytes h

/-- **What PFMERGE makes of any destination**: it takes it, refuses it, or is wrong about it (`Overfull`,
`DenseBlob`). -/
theorem judged (v : DataType) (accum : Registers) : Judged v accum := by
  cases v with
  | hyperLogLog bytes =>
    refine judged_bytes accum (.inl rfl) rfl (fun full e h => ?_) fun other e h => ?_
    · unfold mergeEdit
      rw [h]
      dsimp only
      rw [dif_pos full]
    · unfold mergeEdit
      rw [h]
      dsimp only
      rw [dif_neg other]
      exact ⟨_, rfl⟩
  | string bytes =>
    refine judged_bytes accum (.inr rfl) rfl (fun full e h => ?_) fun other e h => ?_
    · unfold mergeEdit
      rw [h]
      dsimp only
      rw [dif_pos full]
    · unfold mergeEdit
      rw [h]
      dsimp only
      rw [dif_neg other]
      exact ⟨_, rfl⟩
  | _ =>
    refine judged_other (by simp [BytesOf]) rfl fun e h => ?_
    unfold mergeEdit
    rw [h]
    exact ⟨_, rfl⟩

/-- What PFMERGE does to the shard of its destination. -/
theorem acts_mergeInto (now : Nat) (dest : Bytes) (accum : Registers) : Database.Acts now (mergeInto now dest accum) dest
    (fun _ c => ((c.map fun e => (mergeEdit accum e).2).getD (.ok ())).map fun _ => .simpleString "OK")
    fun _ c => some ((c.map fun e => { e with value := (mergeEdit accum e).1 }).getD
      (.new (.hyperLogLog (List.ofFn accum)))) := by
  have acts := Database.acts_getMutWith now dest (mergeEdit accum)
  have inserts := Database.acts_insert now dest (.new (.hyperLogLog (List.ofFn accum)))
  have split (s : Database) : (s.getRo now dest = none ∧
      mergeInto now dest accum s = (((s.getMutWith now dest (mergeEdit accum)).1.insert dest
        (.new (.hyperLogLog (List.ofFn accum)))), .ok (.simpleString "OK"))) ∨
      ∃ e, s.getRo now dest = some e ∧ mergeInto now dest accum s =
        ((s.getMutWith now dest (mergeEdit accum)).1, (mergeEdit accum e).2.map fun _ => .simpleString "OK") := by
    have answer := acts.answer s
    unfold mergeInto
    cases found : s.getRo now dest with
    | none =>
      rw [found, Option.map_none] at answer
      refine .inl ⟨rfl, ?_⟩
      generalize s.getMutWith now dest (mergeEdit accum) = r at answer
      obtain ⟨s', a⟩ := r
      obtain rfl : a = none := answer
      rfl
    | some e =>
      rw [found, Option.map_some] at answer
      refine .inr ⟨e, rfl, ?_⟩
      generalize s.getMutWith now dest (mergeEdit accum) = r at answer
      obtain ⟨s', a⟩ := r
      obtain rfl : a = some (mergeEdit accum e).2 := answer
      rfl
  constructor
  · intro s
    obtain ⟨-, does⟩ | ⟨e, -, does⟩ := split s
    · rw [does]
      exact (inserts.clock _).trans (acts.clock s)
    · rw [does]
      exact acts.clock s
  · intro s
    obtain ⟨found, does⟩ | ⟨e, found, does⟩ := split s <;> rw [does, found] <;> rfl
  · intro s x
    obtain ⟨found, does⟩ | ⟨e, found, does⟩ := split s
    · rw [does, found]
      have after := inserts.getRo (s.getMutWith now dest (mergeEdit accum)).1 x
      refine after.trans ?_
      split
      · rfl
      · rename_i other
        rw [acts.getRo, if_neg other]
    · rw [does, found]
      have after := acts.getRo s x
      rw [found] at after
      exact after

variable {sources : List Bytes} {hllCount : Registers → UInt64}

/-- PFMERGE is a loop over its sources and one edit of the destination. -/
theorem cmdPfmerge_eq (now : Nat) (given : KeyArgs args (dest :: sources)) (db : ShardedDatabase) :
    cmdPfmerge now args db = match mergeKeys now db sources emptyRegisters false with
      | .error e => (db, .error e)
      | .ok (accum, _) => db.writeFor dest (mergeInto now dest accum) := by
  unfold cmdPfmerge
  rw [if_neg given.arity, mapM_bytesArg "pfmerge" given]

/-- The destination holds these registers natively, under the deadline it had. -/
structure Merged (now : Nat) (db : ShardedDatabase) (dest : Bytes) (r : Registers)
    (out : ShardedDatabase × Result Resp) : Prop where
  answer : out.2 = .ok (.simpleString "OK")
  holds : out.1.held now dest = some (.hyperLogLog (List.ofFn r), (db.held now dest).bind Prod.snd)
  others : ∀ x, x ≠ dest → out.1.held now x = db.held now x

/-- An error, and no change. -/
structure Refused (now : Nat) (db : ShardedDatabase) (out : ShardedDatabase × Result Resp) : Prop where
  answer : ∃ e, out.2 = .error e
  untouched : ShardedDatabase.Untouched now db out.1

theorem mergeInto_missing {accum : Registers} (gone : db.valueAt now dest = none) :
    Merged now db dest accum (db.writeFor dest (mergeInto now dest accum)) := by
  obtain ⟨answer, after⟩ := ShardedDatabase.Acts.writeFor (acts_mergeInto now dest accum) db
  have gone : db.getRo now dest = none := Option.map_eq_none_iff.1 gone
  rw [gone] at answer after
  refine ⟨answer, ?_, fun x other => ?_⟩
  · rw [ShardedDatabase.held, after, if_pos rfl, ShardedDatabase.held, gone]
    rfl
  · rw [ShardedDatabase.held, after, if_neg other]
    rfl

/-- A destination that is taken gets the maximum with what it has. -/
theorem mergeInto_takes {accum merged : Registers} {v : DataType} (here : db.valueAt now dest = some v)
    (takes : Takes v accum merged) : Merged now db dest merged (db.writeFor dest (mergeInto now dest accum)) := by
  obtain ⟨answer, after⟩ := ShardedDatabase.Acts.writeFor (acts_mergeInto now dest accum) db
  obtain ⟨e, found, isValue⟩ := Option.map_eq_some_iff.1 here
  rw [found, Option.map_some, Option.getD_some, takes e isValue] at answer
  rw [found, Option.map_some, Option.getD_some, takes e isValue] at after
  refine ⟨answer, ?_, fun x other => ?_⟩
  · rw [ShardedDatabase.held, after, if_pos rfl, ShardedDatabase.held, found]
    rfl
  · rw [ShardedDatabase.held, after, if_neg other]
    rfl

/-- One that is refused leaves the store as it is. -/
theorem mergeInto_refuses {accum : Registers} {v : DataType} (here : db.valueAt now dest = some v)
    (refuses : Refuses v accum) : Refused now db (db.writeFor dest (mergeInto now dest accum)) := by
  obtain ⟨answer, after⟩ := ShardedDatabase.Acts.writeFor (acts_mergeInto now dest accum) db
  obtain ⟨e, found, isValue⟩ := Option.map_eq_some_iff.1 here
  obtain ⟨err, edits⟩ := refuses e isValue
  rw [found, Option.map_some, Option.getD_some, edits] at answer
  rw [found, Option.map_some, Option.getD_some, edits] at after
  refine ⟨⟨err, answer⟩, fun x => ?_⟩
  rw [ShardedDatabase.held, after]
  split
  · rename_i same
    rw [same, ShardedDatabase.held, found, ← isValue]
  · rfl

/-! ## PFMERGE, against PFCOUNT -/

/-- PFMERGE merges all registers if PFCOUNT would read every key, and PFCOUNT then answers of the destination what it
answered of all the keys; else it changes nothing. -/
structure PfmergeRight (hllCount : Registers → UInt64) (now : Nat) (db : ShardedDatabase) (dest : Bytes)
    (sources : List Bytes) (out : ShardedDatabase × Result Resp) : Prop where
  merged : AllAccepted now db (dest :: sources) → Merged now db dest (pooled now db (dest :: sources)) out
  counted : AllAccepted now db (dest :: sources) → ∀ all one, KeyArgs all (dest :: sources) → KeyArgs one [dest] →
    cmdPfcount hllCount now one out.1 = cmdPfcount hllCount now all db
  refused : ¬AllAccepted now db (dest :: sources) → Refused now db out

theorem valid_registersAt (now : Nat) (db : ShardedDatabase) (key : Bytes) : Valid (registersAt now db key) := by
  unfold registersAt
  split
  · rename_i r read
    obtain ⟨v, -, reads⟩ := Option.map_eq_some_iff.1 read
    exact valid_of_hllRegistersFrom reads
  · exact valid_bot

theorem valid_pooled (now : Nat) (db : ShardedDatabase) (keys : List Bytes) : Valid (pooled now db keys) := by
  induction keys with
  | nil => exact valid_bot
  | cons key keys ih => exact (valid_registersAt now db key).sup ih

theorem pooled_absent (absent : Absent now db keys) : pooled now db keys = ⊥ := by
  induction keys with
  | nil => rfl
  | cons key keys ih =>
    obtain ⟨gone, rest⟩ := absent_cons.1 absent
    have nothing : registersAt now db key = ⊥ := by
      rw [registersAt, gone]
      rfl
    have pool : pooled now db (key :: keys) = registersAt now db key ⊔ pooled now db keys := rfl
    rw [pool, nothing, ih rest, bot_sup_eq]

/-- PFCOUNT of the destination after a merge. -/
theorem cmdPfcount_merged {out : ShardedDatabase × Result Resp} {one : List Resp} (valid : Valid r)
    (merged : Merged now db dest r out) (given : KeyArgs one [dest]) :
    cmdPfcount hllCount now one out.1 = .ok (.integer (hllCount r).toInt64) := by
  have here : out.1.valueAt now dest = some (.hyperLogLog (List.ofFn r)) := by
    have value := congrArg (Option.map Prod.fst) merged.holds
    rw [ShardedDatabase.held, Option.map_map, Option.map_some] at value
    exact value
  have accepted : AllAccepted now out.1 [dest] := by
    intro key mem v h
    obtain rfl := List.mem_singleton.1 mem
    rw [here] at h
    obtain rfl := Option.some.inj h
    exact ⟨r, hllRegistersFrom_ofFn valid⟩
  have there : ¬Absent now out.1 [dest] := by simp [Absent, here]
  have pool : pooled now out.1 [dest] = r := by
    have regs : registersAt now out.1 dest = r := by
      rw [registersAt, here, Option.map_some, hllRegistersFrom_ofFn valid]
    exact (sup_bot_eq _).trans regs
  rw [cmdPfcount_eq hllCount given accepted, if_neg there, pool]

/-- A count that is written as an integer is 0 only if it is 0. -/
theorem toInt64_eq_zero_iff (x : UInt64) : x.toInt64 = 0 ↔ x = 0 := by
  constructor
  · intro zero
    exact (UInt64.toUInt64_toInt64 x).symm.trans (congrArg Int64.toUInt64 zero)
  · rintro rfl
    rfl

section

variable {out : ShardedDatabase × Result Resp}

/-- A merge that has taken place is right just if empty registers are estimated at 0 where no key is there. -/
theorem right_iff_of_merged (given : KeyArgs args (dest :: sources)) (accepted : AllAccepted now db (dest :: sources))
    (merged : Merged now db dest (pooled now db (dest :: sources)) out) :
    PfmergeRight hllCount now db dest sources out ↔ (Absent now db (dest :: sources) → hllCount emptyRegisters = 0) := by
  have counts {all one : List Resp} (isAll : KeyArgs all (dest :: sources)) (isOne : KeyArgs one [dest]) :
      cmdPfcount hllCount now one out.1 = cmdPfcount hllCount now all db ↔
        (Absent now db (dest :: sources) → hllCount emptyRegisters = 0) := by
    rw [cmdPfcount_merged (valid_pooled _ _ _) merged isOne, cmdPfcount_eq hllCount isAll accepted]
    by_cases absent : Absent now db (dest :: sources)
    · rw [if_pos absent, pooled_absent absent, ← toInt64_eq_zero_iff, emptyRegisters_eq]
      simp [absent]
    · simp [absent]
  constructor
  · intro right
    have one : KeyArgs [.null, .bulkString (some dest)] [dest] := rfl
    exact (counts given one).1 (right.counted accepted _ _ given one)
  · intro zero
    exact ⟨fun _ => merged, fun _ _ _ isAll isOne => (counts isAll isOne).2 zero, fun not => (not accepted).elim⟩

/-- Where a key is no HyperLogLog, to refuse is right. -/
theorem right_of_refused (not : ¬AllAccepted now db (dest :: sources)) (refused : Refused now db out) :
    PfmergeRight hllCount now db dest sources out :=
  ⟨fun accepted => (not accepted).elim, fun accepted => (not accepted).elim, fun _ => refused⟩

theorem Merged.not_refused (merged : Merged now db dest r out) (refused : Refused now db out) : False := by
  obtain ⟨e, answer⟩ := refused.answer
  rw [merged.answer] at answer
  cases answer

end

/-- PFMERGE is right unless its destination is a value that it and PFCOUNT judge in different ways, or no key exists
and the estimate of no registers is not 0. -/
theorem pfmerge_iff (given : KeyArgs args (dest :: sources)) :
    PfmergeRight hllCount now db dest sources (cmdPfmerge now args db) ↔
      (AllAccepted now db sources →
        (∀ v, db.valueAt now dest = some v → ¬Overfull v ∧ ¬DenseBlob v) ∧
          (Absent now db (dest :: sources) → hllCount emptyRegisters = 0)) := by
  rw [cmdPfmerge_eq now given]
  by_cases sourcesFine : AllAccepted now db sources
  · rw [mergeKeys_eq emptyRegisters false sourcesFine, emptyRegisters_eq, bot_sup_eq]
    dsimp only
    have pool : pooled now db (dest :: sources) = registersAt now db dest ⊔ pooled now db sources := rfl
    cases here : db.valueAt now dest with
    | none =>
      have nothing : registersAt now db dest = ⊥ := by
        rw [registersAt, here]
        rfl
      rw [nothing, bot_sup_eq] at pool
      rw [← pool, right_iff_of_merged given (allAccepted_cons.2 ⟨by simp [here], sourcesFine⟩) (mergeInto_missing here)]
      simp [sourcesFine, emptyRegisters_eq]
    | some v =>
      have there : ¬Absent now db (dest :: sources) := fun absent => by
        rw [(absent_cons.1 absent).1] at here
        cases here
      have accepted_iff : AllAccepted now db (dest :: sources) ↔ Accepted v := by
        rw [allAccepted_cons, here]
        simp [sourcesFine]
      cases judged v (pooled now db sources) with
      | @accepted r reads notOver notDense takes =>
        have regs : registersAt now db dest = r := by
          rw [registersAt, here, Option.map_some, reads]
        have merged := mergeInto_takes here takes
        rw [← regs, ← pool] at merged
        rw [right_iff_of_merged given (accepted_iff.2 ⟨r, reads⟩) merged]
        simp [there, notOver, notDense]
      | refused not notOver notDense refuses =>
        have right : PfmergeRight hllCount now db dest sources _ :=
          right_of_refused (fun all => not (accepted_iff.1 all)) (mergeInto_refuses here refuses)
        simp [right, there, notOver, notDense]
      | overfull not above takes =>
        have merged := mergeInto_takes here takes
        constructor
        · intro right
          exact (merged.not_refused (right.refused fun all => not (accepted_iff.1 all))).elim
        · intro fine
          exact ((fine sourcesFine).1 v rfl).1 above |>.elim
      | dense accepted dense refuses =>
        have refused := mergeInto_refuses here refuses
        constructor
        · intro right
          exact ((right.merged (accepted_iff.2 accepted)).not_refused refused).elim
        · intro fine
          exact ((fine sourcesFine).1 v rfl).2 dense |>.elim
  · obtain ⟨e, fails⟩ : ∃ e, mergeKeys now db sources emptyRegisters false = .error e := mergeKeys_refused sourcesFine
    rw [fails]
    have right : PfmergeRight hllCount now db dest sources (db, .error e) :=
      right_of_refused (fun all => sourcesFine (allAccepted_cons.1 all).2) ⟨⟨e, rfl⟩, .refl _ _⟩
    simp [right, sourcesFine]

/-- **After any PFADDs to a fresh key its registers are those of the set of the elements, and PFMERGE is right unless
its destination is a value that it and PFCOUNT judge in different ways, or no key exists and the estimate of no
registers is not 0.** -/
theorem hll_iff (hllCount : Registers → UInt64) (now : Nat) (db : ShardedDatabase) :
    (∀ key els calls added args, db.getRo now key = none → KeyArgs args (key :: els) →
      List.Forall₂ (fun c els => KeyArgs c.2 (key :: els)) calls added →
      ∀ t, (pfadds ((now, args) :: calls) db).held t key =
        some (.hyperLogLog (List.ofFn (registersOf (els ++ added.flatten).toFinset)), none)) ∧
    ∀ dest sources args, KeyArgs args (dest :: sources) →
      (PfmergeRight hllCount now db dest sources (cmdPfmerge now args db) ↔
        (AllAccepted now db sources →
          (∀ v, db.valueAt now dest = some v → ¬Overfull v ∧ ¬DenseBlob v) ∧
            (Absent now db (dest :: sources) → hllCount emptyRegisters = 0))) :=
  ⟨fun _ _ _ _ _ fresh first given t => pfadds_fresh fresh first given t, fun _ _ _ given => pfmerge_iff given⟩

/-- A string with as many bytes as there are registers, all out of range. -/
def overfull : Bytes := List.replicate HLL_REGISTERS 64

/-- The dense blob of no element. -/
def denseBlob : Bytes := (REDIS_HLL_MAGIC ++ List.replicate 12 0) ++ List.replicate REDIS_HLL_DENSE_BYTES 0

/-- A store with this string under d. -/
def storeOf (v : Bytes) : ShardedDatabase := ⟨[Database.new.insert [100] (.new (.string v))], by simp⟩

open ListIndex (words)

/-- As many bytes as there are registers, one of them too large. -/
theorem overfull_isOverfull : Overfull (.string overfull) := by
  refine ⟨overfull, .inr rfl, List.length_replicate, 64, ?_, by decide⟩
  exact List.mem_replicate.2 ⟨by simp [HLL_REGISTERS], rfl⟩

theorem denseBlob_isDense : DenseBlob (.string denseBlob) := by
  have length : denseBlob.length = 12304 := by
    rw [denseBlob, List.length_append, List.length_replicate]
    rfl
  have payload : denseBlob.drop REDIS_HLL_HEADER = List.replicate REDIS_HLL_DENSE_BYTES 0 :=
    List.drop_left' (by rfl)
  have full : (denseBlob.drop REDIS_HLL_HEADER).length = REDIS_HLL_DENSE_BYTES := by
    rw [payload, List.length_replicate]
  have magic : ¬(denseBlob.length < REDIS_HLL_HEADER ∨ denseBlob.take 4 ≠ REDIS_HLL_MAGIC) := by
    rw [length]
    simp [REDIS_HLL_HEADER, denseBlob, REDIS_HLL_MAGIC]
  have encoding : denseBlob.getD 4 0 = 0 := rfl
  refine ⟨denseBlob, unpackRedisDense _ full, .inr rfl, ?_, ?_⟩
  · rw [length]
    simp [HLL_REGISTERS, HLL_PRECISION]
  · unfold decodeRedisHll
    rw [if_neg magic]
    dsimp only
    rw [if_pos encoding, dif_pos full]

theorem keyArgs_d : KeyArgs (words ["PFMERGE", "d"]) [[100]] := by
  show _ = _
  decide +kernel

theorem valueAt_d (v : Bytes) : (storeOf v).valueAt 0 [100] = some (.string v) :=
  ShardedDatabase.valueAt_holding 0 [100] (.string v)

/-! ### Three encodings -/

/-- SET. -/
def put (db : ShardedDatabase) (key : Bytes) (v : DataType) : ShardedDatabase :=
  (db.writeFor key fun s => (s.insert key (.new v), ())).1

theorem valueAt_put (now : Nat) (db : ShardedDatabase) (key x : Bytes) (v : DataType) :
    (put db key v).valueAt now x = if x = key then some v else db.valueAt now x := by
  obtain ⟨-, after⟩ := ShardedDatabase.Acts.writeFor (Database.acts_insert now key (.new v)) db
  rw [put, ShardedDatabase.valueAt, after]
  split
  · rfl
  · rfl

/-- Registers of Redis: the first is 5. -/
def densePayload : Bytes := 5 :: List.replicate 12287 0

theorem densePayload_full : densePayload.length = REDIS_HLL_DENSE_BYTES := by
  rw [densePayload, List.length_cons, List.length_replicate]
  rfl

/-- A dense HYLL value whose first register is 5. -/
def denseFive : Bytes := (REDIS_HLL_MAGIC ++ List.replicate 12 0) ++ densePayload

/-- The registers of the blob. -/
def five : Registers := unpackRedisDense densePayload densePayload_full

theorem unpackRedisDense_congr {p q : Bytes} (same : p = q) (full : p.length = REDIS_HLL_DENSE_BYTES)
    (full' : q.length = REDIS_HLL_DENSE_BYTES) : unpackRedisDense p full = unpackRedisDense q full' := by
  subst same
  rfl

theorem hllRegistersFrom_denseFive : hllRegistersFrom (.string denseFive) = .ok five := by
  have length : denseFive.length = 12304 := by
    rw [denseFive, List.length_append, densePayload_full]
    rfl
  have payload : denseFive.drop REDIS_HLL_HEADER = densePayload := List.drop_left' (by rfl)
  have full : (denseFive.drop REDIS_HLL_HEADER).length = REDIS_HLL_DENSE_BYTES := by
    rw [payload, densePayload_full]
  have magic : ¬(denseFive.length < REDIS_HLL_HEADER ∨ denseFive.take 4 ≠ REDIS_HLL_MAGIC) := by
    rw [length]
    simp [REDIS_HLL_HEADER, denseFive, REDIS_HLL_MAGIC]
  have encoding : denseFive.getD 4 0 = 0 := rfl
  have other : ¬denseFive.length = HLL_REGISTERS := by
    rw [length]
    simp [HLL_REGISTERS, HLL_PRECISION]
  unfold hllRegistersFrom registerBytes decodeRedisHll
  dsimp only
  rw [dif_neg other, if_neg magic, if_pos encoding, dif_pos full,
    unpackRedisDense_congr payload full densePayload_full, five]

/-- PFADD s a b; PFADD s b c. -/
def added : ShardedDatabase :=
  pfadds ((0, words ["PFADD", "s", "a", "b"]) :: [(7, words ["PFADD", "s", "b", "c"])]) (.new 1 Nat.one_pos)

/-- What the three encodings under s, d and e give PFMERGE to read. -/
theorem three_encodings {now : Nat} {db : ShardedDatabase} {s d e bytes : Bytes} {rs rd re : Registers}
    (validS : Valid rs) (validD : Valid rd) (atS : db.valueAt now s = some (.hyperLogLog (List.ofFn rs)))
    (atD : db.valueAt now d = some (.string (List.ofFn rd))) (atE : db.valueAt now e = some (.string bytes))
    (read : hllRegistersFrom (.string bytes) = .ok re) :
    AllAccepted now db [d, s, e] ∧ pooled now db [d, s, e] = rd ⊔ (rs ⊔ re) ∧
      ∀ v, db.valueAt now d = some v → ¬Overfull v ∧ ¬DenseBlob v := by
  have readS : hllRegistersFrom (.hyperLogLog (List.ofFn rs)) = .ok rs := hllRegistersFrom_ofFn validS
  have readD : hllRegistersFrom (.string (List.ofFn rd)) = .ok rd := registerBytes_ofFn validD
  refine ⟨?_, ?_, ?_⟩
  · refine allAccepted_cons.2 ⟨fun v here => ?_, allAccepted_cons.2 ⟨fun v here => ?_,
      allAccepted_cons.2 ⟨fun v here => ?_, by simp [AllAccepted]⟩⟩⟩
    · rw [atD] at here
      obtain rfl := Option.some.inj here
      exact ⟨rd, readD⟩
    · rw [atS] at here
      obtain rfl := Option.some.inj here
      exact ⟨rs, readS⟩
    · rw [atE] at here
      obtain rfl := Option.some.inj here
      exact ⟨re, read⟩
  · simp only [pooled, List.foldr_cons, List.foldr_nil, registersAt, atD, atS, atE, Option.map_some, readD, readS,
      read, sup_bot_eq]
  · intro v here
    rw [atD] at here
    obtain rfl := Option.some.inj here
    constructor
    · rintro ⟨own, is, -, b, mem, large⟩
      obtain rfl := bytesOf_unique is (.inr rfl)
      obtain ⟨i, rfl⟩ := List.mem_ofFn.1 mem
      exact absurd (validD i) (not_le.2 large)
    · rintro ⟨own, r, is, other, -⟩
      obtain rfl := bytesOf_unique is (.inr rfl)
      exact other List.length_ofFn

/-- What a, b and c come to. -/
def abc : Registers :=
  registersOf (([[97], [98]] : List Bytes) ++ ([[[98], [99]]] : List (List Bytes)).flatten).toFinset

theorem valueAt_of_held {now : Nat} {db : ShardedDatabase} {key : Bytes} {v : DataType} {deadline : Option Nat}
    (h : db.held now key = some (v, deadline)) : db.valueAt now key = some v := by
  have value := congrArg (Option.map Prod.fst) h
  rw [ShardedDatabase.held, Option.map_map] at value
  exact value

/-- Native registers under s, the registers of x as a string under d, and a blob of Redis under e. -/
def three : ShardedDatabase := put (put added [100] (.string (List.ofFn (mark [120])))) [101] (.string denseFive)

theorem valueAt_three_s (h : added.valueAt 9 [115] = some v) : three.valueAt 9 [115] = some v := by
  rw [three, valueAt_put, if_neg (by decide), valueAt_put, if_neg (by decide), h]

theorem valueAt_three_d : three.valueAt 9 [100] = some (.string (List.ofFn (mark [120]))) := by
  rw [three, valueAt_put, if_neg (by decide), valueAt_put, if_pos rfl]

theorem valueAt_three_e : three.valueAt 9 [101] = some (.string denseFive) := by
  rw [three, valueAt_put, if_pos rfl]

theorem keyArgs_three : KeyArgs (words ["PFMERGE", "d", "s", "e"]) ([100] :: [[115], [101]]) := by
  show _ = _
  decide +kernel

theorem keyArgs_ab : KeyArgs (words ["PFADD", "s", "a", "b"]) ([115] :: [[97], [98]]) := by
  show _ = _
  decide +kernel

theorem keyArgs_bc : KeyArgs (words ["PFADD", "s", "b", "c"]) ([115] :: [[98], [99]]) := by
  show _ = _
  decide +kernel

theorem absent_three : ¬Absent 9 three [[100], [115], [101]] := fun absent => by
  have gone := absent [100] (List.mem_cons_self ..)
  rw [valueAt_three_d] at gone
  exact Option.some_ne_none _ gone

/-- PFMERGE d s e after PFADD s a b and PFADD s b c: a string takes over native registers and a blob of Redis. -/
theorem hll_of_three : (∀ t, added.held t [115] = some (.hyperLogLog (List.ofFn abc), none)) ∧
    (∀ hllCount, PfmergeRight hllCount 9 three [100] [[115], [101]]
      (cmdPfmerge 9 (words ["PFMERGE", "d", "s", "e"]) three)) ∧
    Merged 9 three [100] (mark [120] ⊔ (abc ⊔ five)) (cmdPfmerge 9 (words ["PFMERGE", "d", "s", "e"]) three) := by
  have native : ∀ t, added.held t [115] = some (.hyperLogLog (List.ofFn abc), none) :=
    (hll_iff (fun _ => 0) 0 (.new 1 Nat.one_pos)).1 [115] [[97], [98]] [(7, words ["PFADD", "s", "b", "c"])]
      [[[98], [99]]] (words ["PFADD", "s", "a", "b"]) rfl keyArgs_ab (.cons keyArgs_bc .nil)
  obtain ⟨accepted, pool, fine⟩ := three_encodings (valid_registersOf _) (valid_mark [120])
    (valueAt_three_s (valueAt_of_held (native 9))) valueAt_three_d valueAt_three_e hllRegistersFrom_denseFive
  have right (hllCount : Registers → UInt64) : PfmergeRight hllCount 9 three [100] [[115], [101]]
      (cmdPfmerge 9 (words ["PFMERGE", "d", "s", "e"]) three) :=
    ((hll_iff hllCount 9 three).2 [100] [[115], [101]] _ keyArgs_three).2
      fun _ => ⟨fine, fun absent => absurd absent absent_three⟩
  have merged := (right fun _ => 0).merged accepted
  rw [pool] at merged
  exact ⟨native, right, merged⟩

/-- PFMERGE takes a destination that PFCOUNT does not read, and refuses one that it reads. -/
theorem pfmerge_misjudges :
    ¬PfmergeRight (fun _ => 0) 0 (storeOf overfull) [100] [] (cmdPfmerge 0 (words ["PFMERGE", "d"]) (storeOf overfull)) ∧
      ¬PfmergeRight (fun _ => 0) 0 (storeOf denseBlob) [100] []
        (cmdPfmerge 0 (words ["PFMERGE", "d"]) (storeOf denseBlob)) := by
  constructor
  · intro right
    exact (((pfmerge_iff keyArgs_d).1 right (by simp [AllAccepted])).1 _ (valueAt_d _)).1 overfull_isOverfull
  · intro right
    exact (((pfmerge_iff keyArgs_d).1 right (by simp [AllAccepted])).1 _ (valueAt_d _)).2 denseBlob_isDense

end Hll

end NexradeCache
