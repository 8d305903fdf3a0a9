import NexradeCache.Command.Streams
import NexradeCache.Data.WireValues

/-!
# RESTORE (`cmd_restore` of `nexrade-core/src/command/generic.rs`)

A payload is a magic, a version and an entry encoded with bincode. RESTORE looks at the first two and stores
what the third decodes to. A client writes the payload, so the fields of the value are the client's: the
value is sound exactly if the fields are those a recount gives (`restore_keeps_encoding`). The decoder is the
argument `decode`, and `to_uppercase` is `toUppercase`.
-/

namespace NexradeCache

namespace Restore

/-- The entry a payload decodes to. -/
structure WireEntry where
  value : WireValue
  expiry : Option Nat
  lruClock : Nat

def WireEntry.load (w : WireEntry) : Entry := ⟨w.value.load, w.expiry, w.lruClock⟩

/-- The readings of the clock: for the deadline, for the check of the deadline, and when the key is looked up. -/
structure Clock where
  deadline : Nat
  check : Nat
  lookup : Nat

def DUMP_MAGIC : Bytes := [78, 69, 88, 68]

def DUMP_VERSION : UInt8 := 1

def notADump : NexradeError :=
  .generic "DUMP payload version or checksum are wrong — nexrade DUMP uses a custom NEXD format, not Redis RDB"

def invalidTtl : NexradeError := .generic "Invalid TTL value, must be >= 0"

section

variable (decode : Bytes → Except String WireEntry) (toUppercase : String → String)

/-- Whether REPLACE and ABSTTL are given; IDLETIME and FREQ are passed over with their argument. -/
def options : (rest : List Resp) → (replace absttl : Bool) → Result (Bool × Bool)
  | [], replace, absttl => return (replace, absttl)
  | a :: rest, replace, absttl => do
    let opt := toUppercase (← strArg "restore" (some a))
    if opt = "REPLACE" then options rest true absttl
    else if opt = "ABSTTL" then options rest replace true
    else if opt = "IDLETIME" ∨ opt = "FREQ" then match rest with
      | [] => return (replace, absttl)
      | _ :: rest => options rest replace absttl
    else throw (.generic "syntax error")

def readPayload (payload : Bytes) : Result WireEntry := do
  if payload.length < 5 ∨ payload.take 4 ≠ DUMP_MAGIC then throw notADump
  let version := payload.getD 4 0
  if version ≠ DUMP_VERSION then throw (.generic ("ERR unsupported DUMP version " ++ toString version.toNat))
  match decode (payload.drop 5) with
  | .ok w => return w
  | .error e => throw (.generic ("DUMP payload is corrupt: " ++ e))

/-- The expiry time of the new entry; that of the payload is not used. -/
def expiry (clock : Clock) (ttl : Int64) (absttl : Bool) : Result (Option Nat) := do
  if ttl < 0 then throw invalidTtl
  if ttl = 0 ∧ !absttl then return none
  let deadline := if absttl then ttl.toInt.toNat else clock.deadline + ttl.toInt.toNat
  if deadline ≤ clock.check then throw invalidTtl
  return some (deadline % 2 ^ 64)

def payloadArg (a : Option Resp) : Result Bytes :=
  match a with
  | some (.bulkString (some b)) => .ok b
  | _ => .error (.generic "RESTORE payload must be a bulk string")

/-- What a call asks for: the key, the payload, the entry to store, and whether it may replace one. -/
structure Call where
  key : Bytes
  payload : Bytes
  entry : Entry
  replace : Bool

def parse (clock : Clock) (args : List Resp) : Result Call := do
  if args.length < 4 then throw (.wrongArity "restore")
  let key ← bytesArg "restore" args[1]?
  let ttl ← i64Arg "restore" args[2]?
  let payload ← payloadArg args[3]?
  let (replace, absttl) ← options toUppercase (args.drop 4) false false
  let wire ← readPayload decode payload
  let expiry ← expiry clock ttl absttl
  return ⟨key, payload, { wire.load with expiry }, replace⟩

def cmdRestore (clock : Clock) (args : List Resp) (db : Database) : Database × Result Resp :=
  match parse decode toUppercase clock args with
  | .error e => (db, .error e)
  | .ok call =>
    if call.replace then (db.insert call.key call.entry, .ok (.simpleString "OK"))
    else match db.get clock.lookup call.key with
      | (db, some _) => (db, .error (.generic "BUSYKEY Target key name already exists."))
      | (db, none) => (db.insert call.key call.entry, .ok (.simpleString "OK"))

end

variable {decode : Bytes → Except String WireEntry} {toUppercase : String → String} {clock : Clock} {args : List Resp}

/-- The entry of an accepted call holds what its payload decodes to. -/
theorem parse_ok {call : Call} (parsed : parse decode toUppercase clock args = .ok call) :
    args[3]? = some (.bulkString (some call.payload)) ∧ bytesArg "restore" args[1]? = .ok call.key ∧
      ∃ wire, readPayload decode call.payload = .ok wire ∧ call.entry.value = wire.value.load := by
  unfold parse at parsed
  split at parsed
  · cases parsed
  obtain ⟨key, named, parsed⟩ := exists_of_bind_ok parsed
  obtain ⟨ttl, -, parsed⟩ := exists_of_bind_ok parsed
  obtain ⟨payload, bulk, parsed⟩ := exists_of_bind_ok parsed
  obtain ⟨⟨replace, absttl⟩, -, parsed⟩ := exists_of_bind_ok parsed
  obtain ⟨wire, decoded, parsed⟩ := exists_of_bind_ok parsed
  obtain ⟨expiry, -, parsed⟩ := exists_of_bind_ok parsed
  cases parsed
  refine ⟨?_, named, wire, decoded, rfl⟩
  unfold payloadArg at bulk
  split at bulk
  · rename_i b given
    cases bulk
    exact given
  · cases bulk

theorem lookup_insert (db : Database) (key : Bytes) (e : Entry) : (db.insert key e).entries.lookup key = some e := by
  unfold Database.insert
  split <;> exact AList.lookup_insert _

theorem stored {db db' : Database} {reply : Resp}
    (accepted : cmdRestore decode toUppercase clock args db = (db', .ok reply)) :
    ∃ call, parse decode toUppercase clock args = .ok call ∧ db'.entries.lookup call.key = some call.entry := by
  unfold cmdRestore at accepted
  rcases parsed : parse decode toUppercase clock args with e | call <;> rw [parsed] at accepted
  · cases accepted
  refine ⟨call, rfl, ?_⟩
  dsimp only at accepted
  split at accepted
  · cases accepted
    exact lookup_insert db _ _
  · split at accepted
    · cases accepted
    · cases accepted
      exact lookup_insert _ _ _

/-- An accepted value satisfies the invariant of its type, and no run of operations on it then breaks off, exactly if
its fields pass the recount. -/
theorem restore_keeps_encoding {db db' : Database} {reply : Resp}
    (accepted : cmdRestore decode toUppercase clock args db = (db', .ok reply)) :
    ∃ key payload wire e, bytesArg "restore" args[1]? = .ok key ∧ args[3]? = some (.bulkString (some payload)) ∧
      readPayload decode payload = .ok wire ∧ db'.entries.lookup key = some e ∧
      (e.value.Sound ∧ e.value.Safe ↔ wire.value.check = true) := by
  obtain ⟨call, parsed, found⟩ := stored accepted
  obtain ⟨given, named, wire, decoded, value⟩ := parse_ok parsed
  refine ⟨call.key, call.payload, wire, call.entry, named, given, decoded, found, ?_⟩
  rw [value, WireValue.check_iff]
  exact ⟨And.left, fun sound => ⟨sound, sound.safe⟩⟩

/-! ## Two payloads -/

/-- What DUMP writes for a list of the one element `a`. -/
def dumpedList : Bytes := [78, 69, 88, 68, 1, 2, 0, 5, 1, 0, 0, 0, 97, 0, 1, 1, 1, 0, 0, 0, 0]

def dumpedWire : WireEntry := ⟨.list (.compact ⟨[1, 0, 0, 0, 97], 0, 1, 1, [0], 0⟩), none, 0⟩

/-- A list of length one without a buffer. -/
def emptyBuffer : Bytes := [78, 69, 88, 68, 1, 2, 0, 0, 0, 1, 0, 0, 0, 0, 0]

def emptyBufferWire : WireEntry := ⟨.list (.compact ⟨[], 0, 1, 0, [], 0⟩), none, 0⟩

/-- The decoder, on the two payloads. -/
def decodeTwo (body : Bytes) : Except String WireEntry :=
  if body = dumpedList.drop 5 then .ok dumpedWire
  else if body = emptyBuffer.drop 5 then .ok emptyBufferWire
  else .error "UnexpectedEnd"

def restoreArgs (payload : Bytes) : List Resp :=
  [.bulkString (some [82, 69, 83, 84, 79, 82, 69]), .bulkString (some [107]), .bulkString (some [48]),
    .bulkString (some payload)]

def upper (s : String) : String := .ofList (s.toList.map Char.toUpper)

/-- The dumped list of one element is accepted and stored. -/
theorem restore_keeps_encoding_dumped :
    ∃ (db' : Database) (key payload : Bytes) (wire : WireEntry) (e : Entry),
      bytesArg "restore" (restoreArgs dumpedList)[1]? = .ok key ∧
      (restoreArgs dumpedList)[3]? = some (.bulkString (some payload)) ∧
      readPayload decodeTwo payload = .ok wire ∧ db'.entries.lookup key = some e ∧
      (e.value.Sound ∧ e.value.Safe ↔ wire.value.check = true) := by
  have accepted : cmdRestore decodeTwo upper ⟨0, 0, 0⟩ (restoreArgs dumpedList) .new =
      ((cmdRestore decodeTwo upper ⟨0, 0, 0⟩ (restoreArgs dumpedList) .new).1, .ok (.simpleString "OK")) := by
    rfl
  exact ⟨_, restore_keeps_encoding accepted⟩

/-- A list without its buffer is accepted, and LPOP on it indexes out of bounds. -/
theorem restore_admits_broken_list :
    ∃ (db' : Database) (d : ListData),
      cmdRestore decodeTwo upper ⟨0, 0, 0⟩ (restoreArgs emptyBuffer) .new = (db', .ok (.simpleString "OK")) ∧
      db'.entries.lookup [107] = some ⟨.list d, none, 0⟩ ∧ ¬(DataType.list d).Sound ∧
      d.popFront ListThresholds.default = none := by
  refine ⟨_, .compact ⟨[], 0, 1, 0, [], 0⟩, rfl, rfl, fun sound => ?_, rfl⟩
  have checked : emptyBufferWire.value.check = true := WireValue.check_iff.2 sound
  cases checked

end Restore

end NexradeCache
