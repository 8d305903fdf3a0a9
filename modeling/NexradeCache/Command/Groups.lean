import Mathlib.Data.String.Basic
import NexradeCache.Acl.Manager
import NexradeCache.Command.Streams
import NexradeCache.Lib.Ordered

/-!
# Consumer groups (XGROUP, XREADGROUP, XACK, XCLAIM and XAUTOCLAIM of `nexrade-core/src/command/stream.rs`)

Who has to acknowledge an entry is stored twice: `pending` says it by entry, `pending_ids` by consumer. The
commands on one key are modelled as in `Streams.lean`; XREADGROUP reads several keys one after the other
and is a function on all of them. A blocked XREADGROUP reads again after each wake-up; each of these reads
is a `readOnce` of its own.
-/

namespace NexradeCache

open Utf8

/-! ## The group -/

namespace ConsumerGroup

def new (name : Bytes) (lastId : String) : ConsumerGroup := ⟨name, lastId, [], ∅⟩

/-- `consumers.entry(consumer).or_insert_with(..)`. -/
def ensureConsumer (g : ConsumerGroup) (consumer : Bytes) : ConsumerGroup :=
  match g.consumers.lookup consumer with
  | some _ => g
  | none => { g with consumers := g.consumers.insert consumer ⟨consumer, []⟩ }

/-- `pending_ids.retain(|pid| pid != id)` of a consumer that is known. -/
def retainOthers (g : ConsumerGroup) (consumer : Bytes) (id : String) : ConsumerGroup :=
  match g.consumers.lookup consumer with
  | some c => { g with consumers := g.consumers.insert consumer { c with pendingIds := c.pendingIds.filter (· ≠ id) } }
  | none => g

/-- Push the id on the list of a consumer that is known, unless it is there. -/
def pushId (g : ConsumerGroup) (consumer : Bytes) (id : String) : ConsumerGroup :=
  match g.consumers.lookup consumer with
  | some c =>
    if id ∈ c.pendingIds then g
    else { g with consumers := g.consumers.insert consumer { c with pendingIds := c.pendingIds ++ [id] } }
  | none => g

/-- `pending.get(id)`; `pending` is a `BTreeMap`, a list in the order of its keys. -/
def pendingFor (g : ConsumerGroup) (id : String) : Option PendingEntry := List.lookup id g.pending

def removePending (g : ConsumerGroup) (id : String) : ConsumerGroup :=
  { g with pending := g.pending.filter (·.1 ≠ id) }

def insertPending (g : ConsumerGroup) (id : String) (p : PendingEntry) : ConsumerGroup :=
  { g with pending := (g.removePending id).pending.insertBy Prod.fst (id, p) }

/-- Remove a pending entry, from the list of its consumer too. -/
def dropPending (g : ConsumerGroup) (id : String) (p : PendingEntry) : ConsumerGroup :=
  (g.removePending id).retainOthers p.consumer id

end ConsumerGroup

/-! ## XGROUP -/

/-- `$` is the last entry in the stream. -/
def resolveGroupId (s : StreamData) (id : String) : String :=
  if id = "$" then (s.entries.getLast?.map (·.id)).getD "0-0" else id

def noGroup : NexradeError := .generic "-NOGROUP No such consumer group"

/-- The key, the group and one more argument of a subcommand. -/
def groupArgs {A : Type} (cmd lower : String) (third : String → Option Resp → Result A) (args : List Resp) :
    Result (Bytes × Bytes × A) := do
  if args.length < 5 then throw (.wrongArity cmd)
  let key ← bytesArg lower args[2]?
  let group ← bytesArg lower args[3]?
  let arg ← third lower args[4]?
  return (key, group, arg)

/-- The stream of a key and one of its groups are there. -/
def withGroup (group : Bytes) (missingKey missingGroup : Result Resp) (cell : Option DataType)
    (body : StreamData → ConsumerGroup → ConsumerGroup × Result Resp) : Option DataType × Result Resp :=
  match cell with
  | none => (cell, missingKey)
  | some (.stream s) => match s.groups.lookup group with
    | none => (cell, missingGroup)
    | some g =>
      let (g, reply) := body s g
      (some (.stream { s with groups := s.groups.insert group g }), reply)
  | some _ => (cell, .error .wrongType)

/-- An error found in the arguments changes nothing. -/
def onArgs {A : Type} (parsed : Result A) (cell : Option DataType)
    (body : A → Option DataType × Result Resp) : Option DataType × Result Resp :=
  match parsed with
  | .error e => (cell, .error e)
  | .ok a => body a

def xgroupCreate (args : List Resp) (cell : Option DataType) : Option DataType × Result Resp :=
  onArgs (groupArgs "XGROUP CREATE" "xgroup create" strArg args) cell fun (_key, group, lastId) =>
    let mkstream := args.any fun a => (a.asStr.map (eqIgnoreAsciiCase · "MKSTREAM")).getD false
    let create (s : StreamData) (cell : Option DataType) : Option DataType × Result Resp :=
      if (s.groups.lookup group).isSome then
        (cell, .error (.generic "BUSYGROUP Consumer Group name already exists"))
      else
        let groups := s.groups.insert group (.new group (resolveGroupId s lastId))
        (some (.stream { s with groups }), .ok (.simpleString "OK"))
    match cell with
    | none =>
      if mkstream then create .new (some (.stream .new))
      else (cell, .error (.generic "The XGROUP subcommand requires the key to exist"))
    | some (.stream s) => create s cell
    | some _ => (cell, .error .wrongType)

def xgroupSetid (args : List Resp) (cell : Option DataType) : Option DataType × Result Resp :=
  onArgs (groupArgs "XGROUP SETID" "xgroup setid" strArg args) cell fun (_key, group, lastId) =>
    withGroup group (.error .noKey) (.error noGroup) cell fun s g =>
      ({ g with lastDeliveredId := resolveGroupId s lastId }, .ok (.simpleString "OK"))

def xgroupDestroy (args : List Resp) (cell : Option DataType) : Option DataType × Result Resp :=
  let parsed : Result (Bytes × Bytes) := do
    if args.length < 4 then throw (.wrongArity "XGROUP DESTROY")
    let key ← bytesArg "xgroup destroy" args[2]?
    let group ← bytesArg "xgroup destroy" args[3]?
    return (key, group)
  onArgs parsed cell fun (_key, group) =>
    match cell with
    | none => (cell, .ok (.integer 0))
    | some (.stream s) =>
      (some (.stream { s with groups := s.groups.erase group }),
        .ok (.integer (if (s.groups.lookup group).isSome then 1 else 0)))
    | some _ => (cell, .error .wrongType)

def xgroupCreateconsumer (args : List Resp) (cell : Option DataType) : Option DataType × Result Resp :=
  onArgs (groupArgs "XGROUP CREATECONSUMER" "xgroup createconsumer" bytesArg args) cell fun (_key, group, consumer) =>
    withGroup group (.error .noKey) (.error noGroup) cell fun _ g =>
      (g.ensureConsumer consumer, .ok (.integer (if (g.consumers.lookup consumer).isNone then 1 else 0)))

/-- Remove a consumer and the pending entries of its list. -/
def ConsumerGroup.removeConsumer (g : ConsumerGroup) (consumer : Bytes) : ConsumerGroup :=
  match g.consumers.lookup consumer with
  | none => g
  | some c => c.pendingIds.foldl removePending { g with consumers := g.consumers.erase consumer }

def xgroupDelconsumer (args : List Resp) (cell : Option DataType) : Option DataType × Result Resp :=
  onArgs (groupArgs "XGROUP DELCONSUMER" "xgroup delconsumer" bytesArg args) cell fun (_key, group, consumer) =>
    withGroup group (.ok (.integer 0)) (.error noGroup) cell fun _ g =>
      (g.removeConsumer consumer,
        .ok (.integer (.ofNat (((g.consumers.lookup consumer).map (·.pendingIds.length)).getD 0))))

def cmdXgroup (toUppercase : String → String) (args : List Resp) (cell : Option DataType) :
    Option DataType × Result Resp :=
  let sub : Result String := do
    if args.length < 2 then throw (.wrongArity "xgroup")
    return toUppercase (← strArg "xgroup" args[1]?)
  onArgs sub cell fun
    | "CREATE" => xgroupCreate args cell
    | "SETID" => xgroupSetid args cell
    | "DESTROY" => xgroupDestroy args cell
    | "CREATECONSUMER" => xgroupCreateconsumer args cell
    | "DELCONSUMER" => xgroupDelconsumer args cell
    | sub => (cell, .error (.generic ("unknown XGROUP subcommand '" ++ sub ++ "'")))

/-! ## XREADGROUP -/

def formatStreamEntry (e : StreamEntry) : Resp :=
  .array (some [.bulkString (some (asBytes e.id)),
    .array (some (e.fields.flatMap fun f => [.bulkString (some f.1), .bulkString (some f.2)]))])

/-- An XREADGROUP that was read. -/
structure ReadGroupCall where
  group : Bytes
  consumer : Bytes
  count : Option Nat
  noack : Bool
  blockMs : Option Nat
  specs : List (Bytes × String)
deriving DecidableEq

/-- The options in front of STREAMS. -/
structure ReadGroupOptions where
  count : Option Nat
  noack : Bool
  blockMs : Option Nat

/-- The options in front of STREAMS; one that is not known is passed over. -/
def readGroupOptions (toUppercase : String → String) (o : ReadGroupOptions) :
    List Resp → Result (ReadGroupOptions × List Resp)
  | [] => return (o, [])
  | a :: rest => do
    let opt ← strArg "xreadgroup" a
    match toUppercase opt, rest with
    | "COUNT", [] => throw (.wrongArity "xreadgroup")
    | "COUNT", n :: rest =>
      let n ← i64Arg "xreadgroup" n
      readGroupOptions toUppercase { o with count := some n.toUInt64.toNat } rest
    | "BLOCK", [] => throw (.wrongArity "xreadgroup")
    | "BLOCK", n :: rest =>
      let ms ← i64Arg "xreadgroup" n
      if ms < 0 then throw (.generic "value is out of range")
      readGroupOptions toUppercase { o with blockMs := some (if ms = 0 then 2 ^ 64 - 1 else ms.toInt.toNat) } rest
    | "NOACK", rest => readGroupOptions toUppercase { o with noack := true } rest
    | "STREAMS", rest => return (o, rest)
    | _, rest => readGroupOptions toUppercase o rest

/-- The keys and the ids behind STREAMS. -/
def readGroupSpecs : List (Resp × Resp) → Result (List (Bytes × String))
  | [] => return []
  | (key, id) :: rest => do
    let key ← bytesArg "xreadgroup" key
    let id ← strArg "xreadgroup" id
    return (key, id) :: (← readGroupSpecs rest)

def parseXreadgroup (toUppercase : String → String) (args : List Resp) : Result ReadGroupCall := do
  if args.length < 7 then throw (.wrongArity "xreadgroup")
  let word ← strArg "xreadgroup" args[1]?
  if toUppercase word ≠ "GROUP" then throw .syntaxError
  let group ← bytesArg "xreadgroup" args[2]?
  let consumer ← bytesArg "xreadgroup" args[3]?
  let (o, rest) ← readGroupOptions toUppercase ⟨none, false, none⟩ (args.drop 4)
  if rest.length = 0 ∨ rest.length % 2 ≠ 0 then throw (.wrongArity "xreadgroup")
  let half := rest.length / 2
  let specs ← readGroupSpecs ((rest.take half).zip (rest.drop half))
  return ⟨group, consumer, o.count, o.noack, o.blockMs, specs⟩

def takeCount {A : Type} (count : Option Nat) (l : List A) : List A :=
  match count with
  | some n => l.take n
  | none => l

namespace ConsumerGroup

def lastDelivered (g : ConsumerGroup) : StreamId := (StreamId.parse g.lastDeliveredId).getD .MIN

/-- The entries behind the last-delivered id, for an id `>`. -/
def newEntries (g : ConsumerGroup) (entries : List StreamEntry) (count : Option Nat) : List StreamEntry :=
  takeCount count (entries.filter fun e => (StreamId.parse e.id).any (g.lastDelivered < ·))

/-- Move the last-delivered id to the last of these entries. -/
def advanceTo (g : ConsumerGroup) (delivered : List StreamEntry) : ConsumerGroup :=
  match delivered.getLast? with
  | some e => { g with lastDeliveredId := e.id }
  | none => g

/-- The entries that are pending for the consumer behind `id`. -/
def historyEntries (g : ConsumerGroup) (consumer : Bytes) (id : String) (entries : List StreamEntry)
    (count : Option Nat) : List StreamEntry :=
  let cursor := (StreamId.parse id).getD .MIN
  let pending := match g.consumers.lookup consumer with
    | some c => c.pendingIds.filter fun pid => (StreamId.parse pid).any (cursor < ·)
    | none => []
  takeCount count (entries.filter fun e => e.id ∈ pending)

/-- Note the delivery of an entry: its consumer, and how often. -/
def deliver (now : Nat) (consumer : Bytes) (g : ConsumerGroup) (e : StreamEntry) : ConsumerGroup :=
  let deliveryCount := match g.pendingFor e.id with
    | some p => wrappingSucc p.deliveryCount
    | none => 1
  (g.insertPending e.id ⟨consumer, now, deliveryCount⟩).pushId consumer e.id

/-- What a read of one stream delivers, and the group behind it without the pending entries. -/
def select (g : ConsumerGroup) (c : ReadGroupCall) (id : String) (entries : List StreamEntry) :
    ConsumerGroup × List StreamEntry :=
  let g := g.ensureConsumer c.consumer
  if id = ">" then
    let delivered := g.newEntries entries c.count
    (g.advanceTo delivered, delivered)
  else (g, g.historyEntries c.consumer id entries c.count)

/-- One read of one stream. -/
def read (g : ConsumerGroup) (now : Nat) (c : ReadGroupCall) (id : String) (entries : List StreamEntry) :
    ConsumerGroup × List StreamEntry :=
  let (g, delivered) := g.select c id entries
  (if c.noack then g else delivered.foldl (deliver now c.consumer) g, delivered)

end ConsumerGroup

/-- The live values of the keys of a database. -/
abbrev Cells := Bytes → Option DataType

/-- One key of the closure `read_once`. -/
def readStream (now : Nat) (c : ReadGroupCall) (id : String) (cell : Option DataType) :
    Option DataType × Result (List StreamEntry) :=
  match cell with
  | none => (cell, .ok [])
  | some (.stream s) => match s.groups.lookup c.group with
    | none => (cell, .error (.prefixed "NOGROUP No such consumer group"))
    | some g =>
      let (g, delivered) := g.read now c id s.entries
      (some (.stream { s with groups := s.groups.insert c.group g }), .ok delivered)
  | some _ => (cell, .error .wrongType)

/-- The closure `read_once`: the keys one after the other; an error ends the call and undoes nothing. -/
def readOnce (now : Nat) (c : ReadGroupCall) : List (Bytes × String) → Cells → Cells × Result (List (Bytes × List StreamEntry))
  | [], cells => (cells, .ok [])
  | (key, id) :: specs, cells =>
    let (cell, read) := readStream now c id (cells key)
    let cells := Function.update cells key cell
    match read with
    | .error e => (cells, .error e)
    | .ok delivered =>
      let (cells, rest) := readOnce now c specs cells
      (cells, rest.map ((key, delivered) :: ·))

/-! ## XACK -/

/-- Acknowledge one id. -/
def ConsumerGroup.ack (acc : ConsumerGroup × Nat) (id : String) : ConsumerGroup × Nat :=
  match acc.1.pendingFor id with
  | none => acc
  | some p => (acc.1.dropPending id p, acc.2 + 1)

def cmdXack (args : List Resp) (cell : Option DataType) : Option DataType × Result Resp :=
  let parsed : Result (Bytes × Bytes) := do
    if args.length < 4 then throw (.wrongArity "xack")
    let key ← bytesArg "xack" args[1]?
    let group ← bytesArg "xack" args[2]?
    return (key, group)
  onArgs parsed cell fun (_key, group) =>
    withGroup group (.ok (.integer 0)) (.ok (.integer 0)) cell fun _ g =>
      let (g, acked) := ((args.drop 3).filterMap Resp.asStr).foldl ConsumerGroup.ack (g, 0)
      (g, .ok (.integer (.ofNat acked)))

/-! ## XCLAIM -/

def nogroupError (key group : Bytes) : NexradeError :=
  .generic ("NOGROUP No such consumer group '" ++ fromUtf8Lossy group ++ "' for key name '" ++ fromUtf8Lossy key ++ "'")

/-- An XCLAIM that was read. -/
structure ClaimCall where
  key : Bytes
  group : Bytes
  consumer : Bytes
  minIdle : Nat
  ids : List String
  idle : Option Nat
  time : Option Nat
  retry : Option Nat
  force : Bool
  justid : Bool

/-- `get_i64(..)?.max(0) as u64`. -/
def u64OfMax (cmd : String) (a : Option Resp) : Result Nat := do return (← i64Arg cmd a).toInt.toNat

/-- The ids up to the first argument that is none. -/
def claimIds : List Resp → Result (List String × List Resp)
  | [] => return ([], [])
  | a :: rest => do
    let s ← strArg "xclaim" a
    if (StreamId.parse s).isSome then
      let (ids, rest) ← claimIds rest
      return (s :: ids, rest)
    else return ([], a :: rest)

def claimOptions (toUppercase : String → String) (c : ClaimCall) : List Resp → Result ClaimCall
  | [] => return c
  | a :: rest => do
    let opt ← strArg "xclaim" a
    match toUppercase opt, rest with
    | "IDLE", n :: rest => claimOptions toUppercase { c with idle := some (← u64OfMax "xclaim" n) } rest
    | "TIME", n :: rest => claimOptions toUppercase { c with time := some (← u64OfMax "xclaim" n) } rest
    | "RETRYCOUNT", n :: rest => claimOptions toUppercase { c with retry := some (← u64OfMax "xclaim" n) } rest
    | "IDLE", [] => throw (.wrongArity "xclaim")
    | "TIME", [] => throw (.wrongArity "xclaim")
    | "RETRYCOUNT", [] => throw (.wrongArity "xclaim")
    | "FORCE", rest => claimOptions toUppercase { c with force := true } rest
    | "JUSTID", rest => claimOptions toUppercase { c with justid := true } rest
    | "LASTID", [] => return c
    | "LASTID", _ :: rest => claimOptions toUppercase c rest
    | _, _ => throw .syntaxError

def parseXclaim (toUppercase : String → String) (args : List Resp) : Result ClaimCall := do
  if args.length < 6 then throw (.wrongArity "xclaim")
  let key ← bytesArg "xclaim" args[1]?
  let group ← bytesArg "xclaim" args[2]?
  let consumer ← bytesArg "xclaim" args[3]?
  let minIdle ← u64OfMax "xclaim" args[4]?
  let (ids, rest) ← claimIds (args.drop 5)
  claimOptions toUppercase ⟨key, group, consumer, minIdle, ids, none, none, none, false, false⟩ rest

namespace ConsumerGroup

/-- Give a pending entry to a consumer, whoever had it. -/
def reassign (g : ConsumerGroup) (id : String) (prev : Option PendingEntry) (p : PendingEntry) : ConsumerGroup :=
  let g := match prev with
    | some q => g.retainOthers q.consumer id
    | none => g
  (g.insertPending id p).pushId p.consumer id

/-- The reply to a claim of one entry. -/
def claimReply (justid : Bool) (entries : List StreamEntry) (id : String) : List Resp :=
  if justid then [.bulkString (some (asBytes id))]
  else match entries.reverse.find? (·.id = id) with
    | some e => [formatStreamEntry e]
    | none => []

/-- One id of XCLAIM. -/
def claim (now : Nat) (c : ClaimCall) (entries : List StreamEntry) (acc : ConsumerGroup × List Resp) (id : String) :
    ConsumerGroup × List Resp :=
  let (g, claimed) := acc
  let prev := g.pendingFor id
  let stored := entries.any (·.id = id)
  if prev.isNone && !c.force then acc
  else if prev.isNone && !stored then acc
  else if !stored then
    match prev with
    | some p => (g.dropPending id p, claimed)
    | none => acc
  else if prev.any fun p => now - p.deliveryTimeMs < c.minIdle then acc
  else
    let deliveryTimeMs := match c.time, c.idle with
      | some t, _ => t
      | none, some i => now - i
      | none, none => now
    let baseRetry := (prev.map (·.deliveryCount)).getD 0
    let deliveryCount := match c.retry with
      | some r => r
      | none => if c.justid then baseRetry else wrappingSucc baseRetry
    (g.reassign id prev ⟨c.consumer, deliveryTimeMs, deliveryCount⟩, claimed ++ claimReply c.justid entries id)

end ConsumerGroup

def cmdXclaim (toUppercase : String → String) (now : Nat) (args : List Resp) (cell : Option DataType) :
    Option DataType × Result Resp :=
  onArgs (parseXclaim toUppercase args) cell fun c =>
    let missing := .error (nogroupError c.key c.group)
    withGroup c.group missing missing cell fun s g =>
      let (g, claimed) := c.ids.foldl (ConsumerGroup.claim now c s.entries) (g.ensureConsumer c.consumer, [])
      (g, .ok (.array (some claimed)))

/-! ## XAUTOCLAIM -/

/-- An XAUTOCLAIM that was read; COUNT is 100 by default. -/
structure AutoclaimCall where
  key : Bytes
  group : Bytes
  consumer : Bytes
  minIdle : Nat
  start : StreamId
  count : Nat
  justid : Bool

def autoclaimOptions (toUppercase : String → String) (c : AutoclaimCall) : List Resp → Result AutoclaimCall
  | [] => return c
  | a :: rest => do
    let opt ← strArg "xautoclaim" a
    match toUppercase opt, rest with
    | "COUNT", [] => throw (.wrongArity "xautoclaim")
    | "COUNT", n :: rest =>
      let n ← i64Arg "xautoclaim" n
      autoclaimOptions toUppercase { c with count := max n.toInt.toNat 1 } rest
    | "JUSTID", rest => autoclaimOptions toUppercase { c with justid := true } rest
    | _, _ => throw .syntaxError

def parseXautoclaim (toUppercase : String → String) (args : List Resp) : Result AutoclaimCall := do
  if args.length < 6 then throw (.wrongArity "xautoclaim")
  let key ← bytesArg "xautoclaim" args[1]?
  let group ← bytesArg "xautoclaim" args[2]?
  let consumer ← bytesArg "xautoclaim" args[3]?
  let minIdle ← u64OfMax "xautoclaim" args[4]?
  let startStr ← strArg "xautoclaim" args[5]?
  let start ← (if startStr = "-" ∨ startStr = "0" then .ok StreamId.MIN else idOfStr startStr)
  autoclaimOptions toUppercase ⟨key, group, consumer, minIdle, start, 100, false⟩ (args.drop 6)

/-- The group, the claimed entries, the deleted ids and the cursor. -/
structure Autoclaimed where
  group : ConsumerGroup
  claimed : List Resp
  deleted : List Resp
  cursor : String

namespace ConsumerGroup

/-- The ids of XAUTOCLAIM, in id order from `start`. -/
def autoclaimIds (g : ConsumerGroup) (start : StreamId) : List String :=
  ((g.pending.map Prod.fst).filter fun id => (StreamId.parse id).any (start ≤ ·)).mergeSort
    fun a b => (StreamId.parse a).getD .MIN ≤ (StreamId.parse b).getD .MIN

/-- The loop of XAUTOCLAIM. -/
def autoclaim (now : Nat) (c : AutoclaimCall) (entries : List StreamEntry) : List String → Autoclaimed → Autoclaimed
  | [], acc => acc
  | id :: ids, acc =>
    if c.count ≤ acc.claimed.length then { acc with cursor := id }
    else match acc.group.pendingFor id with
      | none => autoclaim now c entries ids acc
      | some p =>
        if !entries.any (·.id = id) then
          autoclaim now c entries ids { acc with
            group := (acc.group.retainOthers p.consumer id).removePending id
            deleted := acc.deleted ++ [.bulkString (some (asBytes id))] }
        else if now - p.deliveryTimeMs < c.minIdle then autoclaim now c entries ids acc
        else
          let deliveryCount := if c.justid then p.deliveryCount else wrappingSucc p.deliveryCount
          autoclaim now c entries ids { acc with
            group := acc.group.reassign id (some p) ⟨c.consumer, now, deliveryCount⟩
            claimed := acc.claimed ++ claimReply c.justid entries id }

end ConsumerGroup

def cmdXautoclaim (toUppercase : String → String) (now : Nat) (args : List Resp) (cell : Option DataType) :
    Option DataType × Result Resp :=
  onArgs (parseXautoclaim toUppercase args) cell fun c =>
    let missing := .error (nogroupError c.key c.group)
    withGroup c.group missing missing cell fun s g =>
      let g := g.ensureConsumer c.consumer
      let done := ConsumerGroup.autoclaim now c s.entries (g.autoclaimIds c.start)
        ⟨g, [], [], StreamId.MIN.toWire⟩
      (done.group, .ok (.array (some [.bulkString (some (asBytes done.cursor)), .array (some done.claimed),
        .array (some done.deleted)])))

/-! ## Runs on the keys of a database -/

/-- A command, with the clock as it finds it. XREADGROUP stands for one read of it. -/
inductive GroupEvent where
  | xadd (now : UInt64) (args : List Resp)
  | xdel (args : List Resp)
  | xtrim (args : List Resp)
  | xgroup (args : List Resp)
  | xreadgroup (now : UInt64) (args : List Resp)
  | xack (args : List Resp)
  | xclaim (now : UInt64) (args : List Resp)
  | xautoclaim (now : UInt64) (args : List Resp)

/-- A command on the key that is argument `i`. -/
def onKey (args : List Resp) (i : Nat) (op : Option DataType → Option DataType × Result Resp) (cells : Cells) : Cells :=
  match getBytesVec args i with
  | none => cells
  | some key => Function.update cells key (op (cells key)).1

def GroupEvent.step (toUppercase : String → String) (e : GroupEvent) (cells : Cells) : Cells :=
  match e with
  | .xadd now args => onKey args 1 (cmdXadd toUppercase now args) cells
  | .xdel args => onKey args 1 (cmdXdel args) cells
  | .xtrim args => onKey args 1 (cmdXtrim toUppercase args) cells
  | .xgroup args => onKey args 2 (cmdXgroup toUppercase args) cells
  | .xreadgroup now args => match parseXreadgroup toUppercase args with
    | .error _ => cells
    | .ok c => (readOnce now.toNat c c.specs cells).1
  | .xack args => onKey args 1 (cmdXack args) cells
  | .xclaim now args => onKey args 1 (cmdXclaim toUppercase now.toNat args) cells
  | .xautoclaim now args => onKey args 1 (cmdXautoclaim toUppercase now.toNat args) cells

/-! ## What a command on a group can do -/

theorem onArgs_cases {A : Type} (parsed : Result A) (cell : Option DataType)
    (body : A → Option DataType × Result Resp) :
    (onArgs parsed cell body).1 = cell ∨ ∃ a, onArgs parsed cell body = body a := by
  cases parsed with
  | error e => exact .inl rfl
  | ok a => exact .inr ⟨a, rfl⟩

theorem withGroup_cases (group : Bytes) (missingKey missingGroup : Result Resp) (cell : Option DataType)
    (body : StreamData → ConsumerGroup → ConsumerGroup × Result Resp) :
    (withGroup group missingKey missingGroup cell body).1 = cell ∨ ∃ s g, cell = some (.stream s) ∧
      s.groups.lookup group = some g ∧ (withGroup group missingKey missingGroup cell body).1 =
        some (.stream { s with groups := s.groups.insert group (body s g).1 }) := by
  unfold withGroup
  split
  · exact .inl rfl
  · rename_i s
    cases found : s.groups.lookup group with
    | none => exact .inl rfl
    | some g => exact .inr ⟨s, g, rfl, found, rfl⟩
  · exact .inl rfl

end NexradeCache
