import NexradeCache.Command.Dispatch

/-!
# The connection loop (`nexrade-server/src/connection.rs`)

One client's requests, each handled by the first branch of `Connection::run` that takes it. `Db`
is the state that all connections share. `Host` stands for what is open here: the handlers of the
dispatcher and what they do besides the store, eviction, the Lua interpreter, digests and the formats
of function libraries.

Left out are the append-only file, statistics, the slow log, the lines of MONITOR and the pushes of CLIENT
TRACKING, and the RESP3 shapes of replies. Of the permits of the dispatcher there is the refusal: whether a
write waits for one in vain is up to `Host`.
-/

namespace NexradeCache

/-! ## State -/

/-- `Transaction` with its queue of raw requests. -/
structure RawTransaction where
  active : Bool
  queue : List (List Resp)
  error : Bool
  watchKeys : List (Bytes × Nat)

namespace RawTransaction

def new : RawTransaction := ⟨false, [], false, []⟩

def begin (tx : RawTransaction) : RawTransaction := { tx with active := true, queue := [], error := false }

def discard (_ : RawTransaction) : RawTransaction := new

def enqueue (tx : RawTransaction) (args : List Resp) : RawTransaction := { tx with queue := tx.queue ++ [args] }

def unwatch (tx : RawTransaction) : RawTransaction := { tx with watchKeys := [] }

def MAX_WATCH_KEYS : Nat := 4096

end RawTransaction

/-- Which loop reads the requests of the connection. -/
inductive Mode where
  | commands
  | subscribe
  | monitor
  | psync
  | closed
deriving DecidableEq, Repr

/-- The fields of `Connection` that a request reads or changes. -/
structure Connection where
  dbIndex : Nat
  authenticated : Bool
  authenticatedUser : String
  transaction : RawTransaction
  subscriptions : List Bytes
  patternSubscriptions : List Bytes
  respVersion : Nat
  clientId : Nat
  mode : Mode

/-- The options of CLIENT TRACKING ON. -/
structure TrackingOptions where
  bcast : Bool
  optin : Bool
  optout : Bool
  noloop : Bool
  redirect : Option Nat
  prefixes : List Bytes

def TrackingOptions.off : TrackingOptions := ⟨false, false, false, false, none, []⟩

/-- What the registry has of a client: its options, and what CLIENT CACHING said about the next command. -/
structure TrackedClient where
  enabled : Bool
  opts : TrackingOptions
  cachingOverride : Option Bool

/-- A library FUNCTION LOAD registered: its source, and the functions the source registers. -/
structure FunctionLibrary where
  name : String
  source : String
  functions : List String

/-- What the dispatcher has besides the store. -/
structure Shared where
  requirepass : Option String
  acl : AclManager
  isReplica : Bool
  paused : Bool
  aofFailed : Bool
  notify : Bool
  /-- The subscriptions, of patterns (`true`) and of channels. -/
  pubsub : List (Bool × Bytes)
  tracking : AList fun _ : Nat => TrackedClient
  /-- The clients that stream from this server, and what was sent to them. -/
  replicas : List Nat
  propagated : List (List Resp)
  monitors : List Nat

/-- The script cache by SHA1 and the libraries, which the dispatcher has no access to. -/
structure Scripting where
  scripts : AList fun _ : String => String
  functions : List FunctionLibrary

/-- What all connections share: the databases, the state besides them, and the caches of scripts and functions. -/
structure Db where
  store : Store
  shared : Shared
  scripting : Scripting

/-- A script under way: its reply, or the next `redis.call`. -/
inductive LuaRun where
  | ret (reply : Resp)
  | call (args : List Resp) (next : Resp → LuaRun)

/-- What is not in the crates or not fixed by a request: the clock, the interpreter, the replies and the effects of
handlers besides the store. -/
structure Host where
  env : Env
  text : AclText
  /-- What a command does besides the store. -/
  effect : (cmd user : String) → (clientId : Nat) → (args : List Resp) → Shared → Shared
  /-- `evict_if_needed` with the limit and the policy of the server. -/
  evict : Store → Store
  /-- A quiesce outlasts the wait of the write for its permit. -/
  quiesces : (dispatched : Nat) → Bool
  /-- The time at an access of a dispatched command. -/
  clock : (dispatched access : Nat) → Nat
  eval : (script : String) → (keys argv : List Bytes) → LuaRun
  call : (source func : String) → (keys argv : List Bytes) → LuaRun
  sha1Hex : String → String
  parseLibrary : (source : String) → Except Resp (String × List String)
  parseDump : Bytes → Except Resp (List FunctionLibrary)
  functionReply : (subcmd : String) → List FunctionLibrary → Resp
  trackinginfo : Option TrackedClient → Resp
  helloReply : (version clientId : Nat) → Resp
  fullresync : Shared → Resp

/-! ## Texts -/

def toAsciiUppercase (s : String) : String := .ofList (s.toList.map Char.toUpper)

/-- The name of the command, empty if it is no text. -/
def cmdName (args : List Resp) : String := ((args[0]?.bind Resp.asStr).map toAsciiUppercase).getD ""

def ok : Resp := .simpleString "OK"

def Resp.isError : Resp → Bool
  | .error _ => true
  | _ => false

/-! ## Dispatch -/

variable (host : Host)

def isFlush (cmd : String) : Bool := cmd = "FLUSHALL" || cmd = "FLUSHDB"

/-- The keys that are extracted; nobody looks at them if the ACL is open, nobody tracks keys and
notifications are off. -/
def touchedKeys (shared : Shared) (cmd : String) (args : List Resp) : List Bytes :=
  if !isFlush cmd && (!shared.acl.isOpen || shared.tracking.entries.any (fun c => c.2.enabled) || shared.notify) then
    extractKeys cmd args
  else []

/-- The user may run the command. -/
def permitted (shared : Shared) (user cmd : String) (args : List Resp) : Bool :=
  !args.isEmpty && (shared.acl.checkPermission user cmd (touchedKeys shared cmd args)).isOk

/-- The front of `dispatch_tracked`: the error of a write that is not let in. -/
def refuseWrite (dispatched : Nat) (cmd : String) (shared : Shared) : Option Resp :=
  let isWrite := isWriteCommand cmd
  if isWrite && shared.paused then some (.error "PAUSE Write pause in effect, please retry later")
  else if isWrite && shared.aofFailed then
    some (.error "MISCONF AOF persistence is in an error state; writes are disabled until operator recovery")
  else if isWrite && !isBlockingWriteCommand cmd && host.quiesces dispatched then
    some (.error "MISCONF persistence is quiescing; writes are temporarily disabled")
  else none

/-- `dispatch_tracked`. Under `maxmemory` a write evicts before it asks for permission, and once more
when it has succeeded. -/
def dispatchTracked (dispatched db : Nat) (user : String) (clientId : Nat) (cmd : String) (args : List Resp)
    (srv : Db) : Db × Resp :=
  match refuseWrite host dispatched cmd srv.shared with
  | some error => (srv, error)
  | none =>
    let isWrite := isWriteCommand cmd
    let store := if isWrite then host.evict srv.store else srv.store
    let handler := dispatchInner host.env srv.shared.acl user (touchedKeys srv.shared cmd args) cmd db args
    let (store, reply) := handler.exec (host.clock dispatched) 0 store
    let shared :=
      if permitted srv.shared user cmd args then host.effect cmd user clientId args srv.shared else srv.shared
    (⟨if isWrite && !reply.isError then host.evict store else store, shared, srv.scripting⟩, reply)

section
variable {host} {dispatched : Nat} {cmd : String} {shared : Shared}

/-- Writes are off: they are paused, the AOF has failed, or a quiesce outlasts the wait of this one. -/
def WritesOff (host : Host) (dispatched : Nat) (cmd : String) (shared : Shared) : Prop :=
  shared.paused = true ∨ shared.aofFailed = true ∨ isBlockingWriteCommand cmd = false ∧ host.quiesces dispatched = true

instance : Decidable (WritesOff host dispatched cmd shared) := inferInstanceAs (Decidable (_ ∨ _ ∨ _ ∧ _))

/-- A write that is refused is answered with an error. -/
theorem refuseWrite_off (write : isWriteCommand cmd = true) (off : WritesOff host dispatched cmd shared) :
    ∃ text, refuseWrite host dispatched cmd shared = some (.error text) := by
  unfold refuseWrite
  dsimp only
  split
  · exact ⟨_, rfl⟩
  · rename_i running
    split
    · exact ⟨_, rfl⟩
    · rename_i working
      split
      · exact ⟨_, rfl⟩
      · rename_i admitted
        rcases off with paused | failed | ⟨blocking, quiesces⟩
        · simp [write, paused] at running
        · simp [write, failed] at working
        · simp [write, blocking, quiesces] at admitted

theorem refuseWrite_on (on : isWriteCommand cmd = true → ¬WritesOff host dispatched cmd shared) :
    refuseWrite host dispatched cmd shared = none := by
  unfold refuseWrite
  cases write : isWriteCommand cmd with
  | false => simp
  | true =>
    have on := on write
    simp only [WritesOff, not_or, not_and, Bool.not_eq_true] at on
    obtain ⟨paused, failed, quiesces⟩ := on
    cases blocking : isBlockingWriteCommand cmd with
    | true => simp [paused, failed]
    | false => simp [paused, failed, quiesces blocking]

@[simp] theorem refuseWrite_read (read : isWriteCommand cmd = false) : refuseWrite host dispatched cmd shared = none :=
  refuseWrite_on fun write => by
    rw [read] at write
    cases write

end

/-- `dispatch_with_user`, for queued commands and scripts. -/
def dispatchWithUser (dispatched db : Nat) (user : String) (args : List Resp) (srv : Db) : Db × Resp :=
  match args[0]?.bind Resp.asStr with
  | none => (srv, .error "ERR Protocol error: empty command")
  | some name => dispatchTracked host dispatched db user 0 (toAsciiUppercase name) args srv

/-! ## Authentication -/

def setAuthenticated (conn : Connection) (user : String) : Connection :=
  { conn with authenticated := true, authenticatedUser := user }

def wrongPass : Resp := .error "WRONGPASS invalid username-password pair or user is disabled"

/-- `requirepass` decides for `default` when it is set, the user table otherwise. -/
def authenticateAs (shared : Shared) (conn : Connection) (user pass : String) : Connection × Resp :=
  match (if user = "default" then shared.requirepass else none) with
  | some expected => if pass = expected then (setAuthenticated conn "default", ok) else (conn, wrongPass)
  | none =>
    match shared.acl.authenticate host.text user pass with
    | .ok () => (setAuthenticated conn user, ok)
    | .error _ =>
      if shared.requirepass.isNone && (shared.acl.users.lookup user).isNone then
        (conn, .error "ERR Client sent AUTH, but no password is set")
      else (conn, wrongPass)

/-- The user and the password that AUTH presents. -/
def authArgs (args : List Resp) : Option (String × String) :=
  if 3 ≤ args.length then some ((getStr args 1).getD "default", (getStr args 2).getD "")
  else if args.length = 2 then some ("default", (getStr args 1).getD "")
  else none

def handleAuth (shared : Shared) (conn : Connection) (args : List Resp) : Connection × Resp :=
  match authArgs args with
  | some (user, pass) => authenticateAs host shared conn user pass
  | none => (conn, .error "ERR wrong number of arguments for 'auth' command")

/-- The options of HELLO from the second argument on; an AUTH that fails ends them. -/
def helloOptions (shared : Shared) : (rest : List Resp) → Connection → Connection × Option Resp
  | [], conn => (conn, none)
  | a :: rest, conn =>
    match a.asStr with
    | none => helloOptions shared rest conn
    | some opt =>
      if eqIgnoreAsciiCase opt "AUTH" then
        let (conn', reply) := authenticateAs host shared conn ((getStr rest 0).getD "default") ((getStr rest 1).getD "")
        if reply.isError then (conn', some reply)
        else match rest with
          | _ :: _ :: rest => helloOptions shared rest conn'
          | _ => (conn', none)
      else if eqIgnoreAsciiCase opt "SETNAME" then
        match rest with
        | _ :: rest => helloOptions shared rest conn
        | [] => (conn, none)
      else helloOptions shared rest conn

def handleHello (shared : Shared) (conn : Connection) (args : List Resp) : Connection × Resp :=
  let version := (((getStr args 1).bind Decimal.parseUsize).filter (· < 256)).getD conn.respVersion
  if version ≠ 2 && version ≠ 3 then (conn, .error "NOPROTO unsupported protocol version")
  else match helloOptions host shared (args.drop 2) conn with
    | (conn', some error) => (conn', error)
    | (conn', none) => ({ conn' with respVersion := version }, host.helloReply version conn.clientId)

/-- RESET. Whether it leaves the connection authenticated depends on `requirepass` alone. -/
def handleReset (shared : Shared) (conn : Connection) : Shared × Connection × Resp :=
  let tracking := shared.tracking.lookup conn.clientId
  let off : TrackedClient := ⟨false, .off, tracking.bind TrackedClient.cachingOverride⟩
  let left := (conn.subscriptions.map ((false, ·)) ++ conn.patternSubscriptions.map ((true, ·))).foldl List.erase
    shared.pubsub
  ({ shared with
      tracking := if tracking.isSome then shared.tracking.insert conn.clientId off else shared.tracking
      pubsub := left },
    { conn with
      transaction := .new, dbIndex := 0, subscriptions := [], patternSubscriptions := []
      authenticated := shared.requirepass.isNone, authenticatedUser := "default" },
    .simpleString "RESET")

/-- `Connection::new`. -/
def Connection.new (shared : Shared) (clientId : Nat) : Connection where
  dbIndex := 0
  authenticated := shared.requirepass.isNone
  authenticatedUser := "default"
  transaction := .new
  subscriptions := []
  patternSubscriptions := []
  respVersion := 2
  clientId := clientId
  mode := .commands

/-! ## SELECT and CLIENT -/

def handleSelect (store : Store) (conn : Connection) (args : List Resp) : Connection × Resp :=
  match Decimal.parseUsize ((getStr args 1).getD "0") with
  | some idx =>
    if idx < store.dbs.length then ({ conn with dbIndex := idx }, ok)
    else (conn, .error "ERR DB index is out of range")
  | none => (conn, .error "ERR value is not an integer or out of range")

def syntaxErr : Resp := .error "ERR syntax error"

/-- The options behind CLIENT TRACKING ON. -/
def trackingOptions (clients : AList fun _ : Nat => TrackedClient) :
    (rest : List Resp) → TrackingOptions → Except Resp TrackingOptions
  | [], opts => .ok opts
  | a :: rest, opts =>
    match a.asStr.map toAsciiUppercase with
    | none => .error syntaxErr
    | some opt =>
      if opt = "BCAST" then trackingOptions clients rest { opts with bcast := true }
      else if opt = "OPTIN" then trackingOptions clients rest { opts with optin := true }
      else if opt = "OPTOUT" then trackingOptions clients rest { opts with optout := true }
      else if opt = "NOLOOP" then trackingOptions clients rest { opts with noloop := true }
      else if opt = "REDIRECT" then
        match rest with
        | [] => .error syntaxErr
        | v :: rest =>
          match v.asStr.bind Decimal.parseUsize with
          | none => .error syntaxErr
          | some 0 => trackingOptions clients rest opts
          | some id =>
            if (clients.lookup id).isNone then .error (.error "ERR The client ID you want redirect to does not exist")
            else trackingOptions clients rest { opts with redirect := some id }
      else if opt = "PREFIX" then
        match rest with
        | [] => .error syntaxErr
        | v :: rest =>
          match v.asBytes with
          | none => .error syntaxErr
          | some p => trackingOptions clients rest { opts with prefixes := opts.prefixes ++ [p] }
      else .error syntaxErr

def handleClientTracking (shared : Shared) (conn : Connection) (args : List Resp) : Shared × Resp :=
  let own := shared.tracking.lookup conn.clientId
  let set := fun (c : TrackedClient) => { shared with tracking := shared.tracking.insert conn.clientId c }
  match (getStr args 2).map toAsciiUppercase with
  | none => (shared, .error "ERR wrong number of arguments for 'client|tracking'")
  | some mode =>
    if mode = "OFF" then
      match own with
      | some c => (set { c with enabled := false, opts := .off }, ok)
      | none => (shared, ok)
    else if mode = "ON" then
      match trackingOptions shared.tracking (args.drop 3) .off with
      | .error e => (shared, e)
      | .ok opts =>
        if opts.optin && opts.optout then
          (shared, .error "ERR You can't specify both OPTIN mode and OPTOUT mode")
        else if !opts.prefixes.isEmpty && !opts.bcast then
          (shared, .error "ERR PREFIX option requires BCAST mode to be enabled")
        else match own with
          | some c => (set { c with enabled := true, opts := opts }, ok)
          | none => (shared, .error "ERR client not registered")
    else (shared, syntaxErr)

def notCaching : Resp := .error ("ERR CLIENT CACHING can be called only when the client is in tracking mode with " ++
  "OPTIN or OPTOUT mode enabled")

def handleClientCaching (shared : Shared) (conn : Connection) (args : List Resp) : Shared × Resp :=
  match (shared.tracking.lookup conn.clientId).filter TrackedClient.enabled with
  | none => (shared, notCaching)
  | some c =>
    if !c.opts.optin && !c.opts.optout then (shared, notCaching)
    else
      let yes := ((getStr args 2).map (eqIgnoreAsciiCase · "YES")).getD false
      let no := ((getStr args 2).map (eqIgnoreAsciiCase · "NO")).getD false
      if !yes && !no then (shared, syntaxErr)
      else if (c.opts.optin && !yes) || (c.opts.optout && yes) then
        (shared, .error "ERR CLIENT CACHING YES is only valid when tracking is enabled in OPTIN mode.")
      else
        ({ shared with tracking := shared.tracking.insert conn.clientId { c with cachingOverride := some yes } }, ok)

/-- Only three subcommands are for the connection itself. -/
def handleClient (conn : Connection) (args : List Resp) (srv : Db) : Db × Resp :=
  let sub := toAsciiUppercase ((getStr args 1).getD "")
  if sub = "TRACKING" then
    let (shared, reply) := handleClientTracking srv.shared conn args
    ({ srv with shared }, reply)
  else if sub = "CACHING" then
    let (shared, reply) := handleClientCaching srv.shared conn args
    ({ srv with shared }, reply)
  else if sub = "TRACKINGINFO" then
    (srv, host.trackinginfo ((srv.shared.tracking.lookup conn.clientId).filter TrackedClient.enabled))
  else dispatchTracked host 0 conn.dbIndex conn.authenticatedUser conn.clientId "CLIENT" args srv

/-! ## Transactions -/

def handleMulti (conn : Connection) : Connection × Resp :=
  if conn.transaction.active then (conn, .error "ERR MULTI calls can not be nested")
  else ({ conn with transaction := conn.transaction.begin }, ok)

/-- The queued commands, one after the other. -/
def runQueue (db : Nat) (user : String) : (dispatched : Nat) → List (List Resp) → Db → Db × List Resp
  | _, [], srv => (srv, [])
  | dispatched, args :: queue, srv =>
    let (srv, reply) := dispatchWithUser host dispatched db user args srv
    let (srv, replies) := runQueue db user (dispatched + 1) queue srv
    (srv, reply :: replies)

/-- A watched key has another version in the selected database. -/
def watchDirty (srv : Db) (conn : Connection) : Bool :=
  conn.transaction.watchKeys.any fun (key, version) =>
    ((srv.store.db conn.dbIndex).shardFor key).keyVersion (host.clock 0 0) key ≠ version

def handleExec (srv : Db) (conn : Connection) : Db × Connection × Resp :=
  let reset := { conn with transaction := conn.transaction.discard }
  if !conn.transaction.active then (srv, conn, .error "ERR EXEC without MULTI")
  else if conn.transaction.error then
    (srv, reset, .error "EXECABORT Transaction discarded because of previous errors")
  else if watchDirty host srv conn then (srv, reset, .array none)
  else
    let (srv, replies) := runQueue host conn.dbIndex conn.authenticatedUser 0 conn.transaction.queue srv
    (srv, reset, .array (some replies))

def handleDiscard (conn : Connection) : Connection × Resp :=
  if !conn.transaction.active then (conn, .error "ERR DISCARD without MULTI")
  else ({ conn with transaction := conn.transaction.discard }, ok)

/-- The versions of the keys in the selected database, until there are too many. -/
def watchAll (version : Bytes → Nat) : List Resp → RawTransaction → RawTransaction × Resp
  | [], tx => (tx, ok)
  | a :: rest, tx =>
    match a.asBytes with
    | none => watchAll version rest tx
    | some key =>
      if tx.watchKeys.length ≥ RawTransaction.MAX_WATCH_KEYS then (tx, .error "ERR too many watched keys")
      else watchAll version rest { tx with watchKeys := tx.watchKeys ++ [(key, version key)] }

def handleWatch (srv : Db) (conn : Connection) (args : List Resp) : Connection × Resp :=
  if conn.transaction.active then (conn, .error "ERR WATCH inside MULTI is not allowed")
  else if args.length < 2 then (conn, wrongArity "watch")
  else
    let version := fun key => ((srv.store.db conn.dbIndex).shardFor key).keyVersion (host.clock 0 0) key
    let (transaction, reply) := watchAll version (args.drop 1) conn.transaction
    ({ conn with transaction }, reply)

def handleUnwatch (conn : Connection) : Connection × Resp :=
  ({ conn with transaction := conn.transaction.unwatch }, ok)

/-! ## Scripts and functions -/

/-- Each `redis.call` is dispatched as the user of the connection. -/
def LuaRun.exec (db : Nat) (user : String) : (dispatched : Nat) → LuaRun → Db → Db × Resp
  | _, .ret reply, srv => (srv, reply)
  | dispatched, .call args next, srv =>
    let (srv, reply) := dispatchWithUser host dispatched db user args srv
    (next reply).exec db user (dispatched + 1) srv

/-- The text, the keys and the arguments of EVAL, EVALSHA and FCALL. -/
def scriptArgs (name what : String) (args : List Resp) : Except Resp (String × List Bytes × List Bytes) :=
  if args.length < 3 then .error (wrongArity name)
  else match getStr args 1 with
    | none => .error (.error ("ERR " ++ what ++ " must be a string"))
    | some text =>
      match (getStr args 2).bind Decimal.parseUsize with
      | none => .error (.error "ERR numkeys must be a non-negative integer")
      | some numkeys =>
        .ok (text, ((args.drop 3).take numkeys).filterMap Resp.asBytes, (args.drop (3 + numkeys)).filterMap Resp.asBytes)

/-- What a request runs, or its error. -/
def evalRun (args : List Resp) : LuaRun :=
  match scriptArgs "EVAL" "script" args with
  | .error e => .ret e
  | .ok (script, keys, argv) => host.eval script keys argv

def evalshaRun (reg : Scripting) (args : List Resp) : LuaRun :=
  match scriptArgs "EVALSHA" "sha1" args with
  | .error e => .ret e
  | .ok (sha, keys, argv) =>
    match reg.scripts.lookup sha with
    | none => .ret (.error "NOSCRIPT No matching script. Please use EVAL.")
    | some script => host.eval script keys argv

def fcallRun (reg : Scripting) (args : List Resp) : LuaRun :=
  match scriptArgs "FCALL" "function name" args with
  | .error e => .ret e
  | .ok (func, keys, argv) =>
    match reg.functions.find? fun l => l.functions.contains func with
    | none => .ret (.error "ERR Function not found")
    | some library => host.call library.source func keys argv

def handleScript (reg : Scripting) (args : List Resp) : Scripting × Resp :=
  let subcmd := toAsciiUppercase ((getStr args 1).getD "")
  if subcmd = "LOAD" then
    match getStr args 2 with
    | none => (reg, .error "ERR wrong number of arguments for 'SCRIPT|LOAD'")
    | some script =>
      let sha := host.sha1Hex script
      ({ reg with scripts := reg.scripts.insert sha script }, .bulkString (some (Utf8.asBytes sha)))
  else if subcmd = "EXISTS" then
    let found := ((args.drop 2).filterMap Resp.asStr).map fun sha => (reg.scripts.lookup sha).isSome
    (reg, .array (some (found.map fun b => .integer (if b then 1 else 0))))
  else if subcmd = "FLUSH" then ({ reg with scripts := ∅ }, ok)
  else (reg, .error ("ERR unknown SCRIPT subcommand '" ++ subcmd ++ "'"))

def insertLibrary (library : FunctionLibrary) (libs : List FunctionLibrary) : List FunctionLibrary :=
  libs.filter (·.name ≠ library.name) ++ [library]

/-- FUNCTION RESTORE; without FLUSH and REPLACE a library that exists ends it, and the ones before it
stay restored. -/
def restoreLibraries (append : Bool) : (parsed libs : List FunctionLibrary) → List FunctionLibrary × Resp
  | [], libs => (libs, ok)
  | library :: parsed, libs =>
    if append && libs.any (·.name = library.name) then
      (libs, .error ("ERR ERR Library '" ++ library.name ++ "' already exists"))
    else restoreLibraries append parsed (insertLibrary library libs)

def handleFunction (reg : Scripting) (args : List Resp) : Scripting × Resp :=
  let subcmd := toAsciiUppercase ((getStr args 1).getD "")
  let arity := Resp.error ("ERR wrong number of arguments for 'FUNCTION|" ++ subcmd ++ "' command")
  if subcmd = "LOAD" then
    let replace := ((getStr args 2).map (eqIgnoreAsciiCase · "REPLACE")).getD false
    match getStr args (if replace then 3 else 2) with
    | none => (reg, arity)
    | some source =>
      match host.parseLibrary source with
      | .error e => (reg, e)
      | .ok (name, functions) =>
        if reg.functions.any (·.name = name) && !replace then
          (reg, .error ("ERR ERR Library '" ++ name ++ "' already exists"))
        else
          ({ reg with functions := insertLibrary ⟨name, source, functions⟩ reg.functions },
            .bulkString (some (Utf8.asBytes name)))
  else if subcmd = "DELETE" then
    match getStr args 2 with
    | none => (reg, arity)
    | some name =>
      if reg.functions.any (·.name = name) then
        ({ reg with functions := reg.functions.filter (·.name ≠ name) }, ok)
      else (reg, .error "ERR Library not found")
  else if subcmd = "FLUSH" then ({ reg with functions := [] }, ok)
  else if subcmd = "RESTORE" then
    match args[2]?.bind Resp.asBytes with
    | none => (reg, arity)
    | some payload =>
      let is := fun policy => ((getStr args 3).map (eqIgnoreAsciiCase · policy)).getD false
      let append := (getStr args 3).isNone || is "APPEND"
      if !append && !is "FLUSH" && !is "REPLACE" then (reg, .error "ERR unsupported FUNCTION RESTORE policy")
      else match host.parseDump payload with
        | .error e => (reg, e)
        | .ok parsed =>
          let (functions, reply) := restoreLibraries append parsed (if is "FLUSH" then [] else reg.functions)
          ({ reg with functions }, reply)
  else if ["LIST", "DUMP", "STATS", "HELP"].contains subcmd then
    (reg, host.functionReply subcmd reg.functions)
  else (reg, .error ("ERR unknown FUNCTION subcommand '" ++ subcmd ++ "'"))

/-! ## Publish and subscribe -/

def Connection.channels (conn : Connection) (isPattern : Bool) : List Bytes :=
  if isPattern then conn.patternSubscriptions else conn.subscriptions

def Connection.setChannels (conn : Connection) (isPattern : Bool) (channels : List Bytes) : Connection :=
  if isPattern then { conn with patternSubscriptions := channels } else { conn with subscriptions := channels }

/-- The frame of a subscription; RESP3 sends it as a push. -/
def subscriptionFrame (conn : Connection) (kind : String) (channel : Bytes) (count : Nat) : Resp :=
  let payload := [.bulkString (some (Utf8.asBytes kind)), .bulkString (some channel), .integer (.ofNat count)]
  if conn.respVersion ≥ 3 then .push payload else .array (some payload)

def subscribeAll (isPattern : Bool) : List Resp → Shared → Connection → Shared × Connection × List Resp
  | [], shared, conn => (shared, conn, [])
  | a :: rest, shared, conn =>
    match a.toBytesVec with
    | none => subscribeAll isPattern rest shared conn
    | some channel =>
      let fresh := !(conn.channels isPattern).contains channel
      let shared := if fresh then { shared with pubsub := shared.pubsub ++ [(isPattern, channel)] } else shared
      let conn := if fresh then conn.setChannels isPattern (conn.channels isPattern ++ [channel]) else conn
      let kind := if isPattern then "psubscribe" else "subscribe"
      let frame := subscriptionFrame conn kind channel (conn.channels isPattern).length
      let (shared, conn, frames) := subscribeAll isPattern rest shared conn
      (shared, conn, frame :: frames)

def doSubscribe (isPattern : Bool) (args : List Resp) (shared : Shared) (conn : Connection) :
    Shared × Connection × List Resp :=
  if args.length < 2 then (shared, conn, [wrongArity (if isPattern then "psubscribe" else "subscribe")])
  else subscribeAll isPattern (args.drop 1) shared conn

def unsubscribeAll (isPattern : Bool) : List Bytes → Shared → Connection → Shared × Connection × List Resp
  | [], shared, conn => (shared, conn, [])
  | channel :: rest, shared, conn =>
    let conn := conn.setChannels isPattern ((conn.channels isPattern).filter (· ≠ channel))
    let shared := { shared with pubsub := shared.pubsub.erase (isPattern, channel) }
    let kind := if isPattern then "punsubscribe" else "unsubscribe"
    let frame := subscriptionFrame conn kind channel (conn.channels isPattern).length
    let (shared, conn, frames) := unsubscribeAll isPattern rest shared conn
    (shared, conn, frame :: frames)

def doUnsubscribe (isPattern : Bool) (args : List Resp) (shared : Shared) (conn : Connection) :
    Shared × Connection × List Resp :=
  let channels := if args.length ≤ 1 then conn.channels isPattern else (args.drop 1).filterMap Resp.toBytesVec
  unsubscribeAll isPattern channels shared conn

/-! ## Requests -/

/-- What a request leaves, and its replies. -/
structure Served where
  srv : Db
  conn : Connection
  replies : List Resp

/-- The branches of `Connection::run`. -/
inductive Route where
  | subscribe (isPattern : Bool)
  | monitor
  | psync
  | auth
  | noauth
  | readonly
  | select
  | client
  | unsubscribe
  | hello
  | watch
  | unwatch
  | multi
  | exec
  | discard
  | quit
  | reset
  | eval
  | evalsha
  | script
  | function
  | fcall
  | queue
  | dispatch
deriving DecidableEq, Repr

/-- The branches that are chosen by the name of the command. -/
def namedRoutes : List (String × Route) :=
  [("SELECT", .select), ("CLIENT", .client), ("UNSUBSCRIBE", .unsubscribe), ("PUNSUBSCRIBE", .unsubscribe),
   ("HELLO", .hello), ("WATCH", .watch), ("UNWATCH", .unwatch), ("MULTI", .multi), ("EXEC", .exec),
   ("DISCARD", .discard), ("QUIT", .quit), ("RESET", .reset), ("EVAL", .eval), ("EVALSHA", .evalsha),
   ("SCRIPT", .script), ("FUNCTION", .function), ("FCALL", .fcall), ("FCALL_RO", .fcall)]

/-- The first branch that takes a command. -/
def route (conn : Connection) (isReplica : Bool) (cmd : String) : Route :=
  if conn.authenticated && (cmd = "SUBSCRIBE" || cmd = "PSUBSCRIBE" || cmd = "SSUBSCRIBE") then
    .subscribe (cmd = "PSUBSCRIBE")
  else if conn.authenticated && cmd = "MONITOR" then .monitor
  else if conn.authenticated && cmd = "PSYNC" then .psync
  else if cmd = "AUTH" then .auth
  else if !conn.authenticated then .noauth
  else if isReplica && isWriteCommand cmd then .readonly
  else match namedRoutes.lookup cmd with
    | some branch => branch
    | none => if conn.transaction.active then .queue else .dispatch

/-- What a command was sent to a branch for. -/
inductive Routed (conn : Connection) (isReplica : Bool) (cmd : String) : Route → Prop where
  | subscribe (login : conn.authenticated = true)
      (name : cmd = "SUBSCRIBE" ∨ cmd = "PSUBSCRIBE" ∨ cmd = "SSUBSCRIBE") :
      Routed conn isReplica cmd (.subscribe (cmd = "PSUBSCRIBE"))
  | monitor (login : conn.authenticated = true) (name : cmd = "MONITOR") : Routed conn isReplica cmd .monitor
  | psync (login : conn.authenticated = true) (name : cmd = "PSYNC") : Routed conn isReplica cmd .psync
  | auth (name : cmd = "AUTH") : Routed conn isReplica cmd .auth
  | noauth (login : conn.authenticated = false) (other : cmd ≠ "AUTH") : Routed conn isReplica cmd .noauth
  | readonly (login : conn.authenticated = true) (replica : isReplica = true) (write : isWriteCommand cmd = true) :
      Routed conn isReplica cmd .readonly
  | named {branch : Route} (login : conn.authenticated = true) (mem : (cmd, branch) ∈ namedRoutes) :
      Routed conn isReplica cmd branch
  | queue (login : conn.authenticated = true) (writable : (isReplica && isWriteCommand cmd) = false)
      (active : conn.transaction.active = true) : Routed conn isReplica cmd .queue
  | dispatch (login : conn.authenticated = true) (writable : (isReplica && isWriteCommand cmd) = false)
      (inactive : conn.transaction.active = false) : Routed conn isReplica cmd .dispatch

theorem routed (conn : Connection) (isReplica : Bool) (cmd : String) :
    Routed conn isReplica cmd (route conn isReplica cmd) := by
  unfold route
  split
  · rename_i h
    simp only [Bool.and_eq_true, Bool.or_eq_true, decide_eq_true_eq] at h
    exact .subscribe h.1 (by tauto)
  · split
    · rename_i h
      simp only [Bool.and_eq_true, decide_eq_true_eq] at h
      exact .monitor h.1 h.2
    · split
      · rename_i h
        simp only [Bool.and_eq_true, decide_eq_true_eq] at h
        exact .psync h.1 h.2
      · split
        · rename_i h
          exact .auth h
        · rename_i other
          split
          · rename_i h
            exact .noauth (by simpa using h) other
          · rename_i h
            have login : conn.authenticated = true := by simpa using h
            split
            · rename_i h
              simp only [Bool.and_eq_true] at h
              exact .readonly login h.1 h.2
            · rename_i writable
              rw [Bool.not_eq_true] at writable
              split
              · rename_i branch found
                obtain ⟨before, after, table, -⟩ := List.lookup_eq_some_iff.1 found
                exact .named login (by simp [table])
              · split
                · rename_i active
                  exact .queue login writable active
                · rename_i inactive
                  exact .dispatch login writable (by simpa using inactive)

/-- An ordinary command; a write that succeeds goes to the replicas. -/
def handleDispatch (cmd : String) (args : List Resp) (srv : Db) (conn : Connection) : Db × Resp :=
  let (srv', reply) := dispatchTracked host 0 conn.dbIndex conn.authenticatedUser conn.clientId cmd args srv
  if !srv.shared.replicas.isEmpty && isWriteCommand cmd && !reply.isError then
    ({ srv' with shared := { srv'.shared with propagated := srv'.shared.propagated ++ [args] } }, reply)
  else (srv', reply)

/-- The reply of a handler that changes neither the store nor what is shared. -/
def Served.conn' (srv : Db) (done : Connection × Resp) : Served := ⟨srv, done.1, [done.2]⟩

/-- The reply of a handler that leaves the connection as it is. -/
def Served.srv' (conn : Connection) (done : Db × Resp) : Served := ⟨done.1, conn, [done.2]⟩

def handleRoute (branch : Route) (cmd : String) (args : List Resp) (srv : Db) (conn : Connection) : Served :=
  match branch with
  | .subscribe isPattern =>
    let (shared, conn, frames) := doSubscribe isPattern args srv.shared conn
    ⟨{ srv with shared }, { conn with mode := .subscribe }, frames⟩
  | .monitor =>
    ⟨{ srv with shared := { srv.shared with monitors := conn.clientId :: srv.shared.monitors } },
      { conn with mode := .monitor }, [ok]⟩
  | .psync =>
    ⟨{ srv with shared := { srv.shared with replicas := conn.clientId :: srv.shared.replicas } },
      { conn with mode := .psync }, [host.fullresync srv.shared]⟩
  | .auth => .conn' srv (handleAuth host srv.shared conn args)
  | .noauth => ⟨srv, conn, [.error "NOAUTH Authentication required"]⟩
  | .readonly => ⟨srv, conn, [.error "READONLY You can't write against a read only replica"]⟩
  | .select => .conn' srv (handleSelect srv.store conn args)
  | .client => .srv' conn (handleClient host conn args srv)
  | .unsubscribe =>
    ⟨srv, conn, [.array (some [.bulkString (some (Utf8.asBytes "unsubscribe")), .bulkString none, .integer 0])]⟩
  | .hello => .conn' srv (handleHello host srv.shared conn args)
  | .watch => .conn' srv (handleWatch host srv conn args)
  | .unwatch => .conn' srv (handleUnwatch conn)
  | .multi => .conn' srv (handleMulti conn)
  | .exec =>
    let (srv, conn, reply) := handleExec host srv conn
    ⟨srv, conn, [reply]⟩
  | .discard => .conn' srv (handleDiscard conn)
  | .quit => ⟨srv, { conn with mode := .closed }, [ok]⟩
  | .reset =>
    let (shared, conn, reply) := handleReset srv.shared conn
    ⟨{ srv with shared }, conn, [reply]⟩
  | .eval => .srv' conn ((evalRun host args).exec host conn.dbIndex conn.authenticatedUser 0 srv)
  | .evalsha => .srv' conn ((evalshaRun host srv.scripting args).exec host conn.dbIndex conn.authenticatedUser 0 srv)
  | .script =>
    let (scripting, reply) := handleScript host srv.scripting args
    ⟨{ srv with scripting }, conn, [reply]⟩
  | .function =>
    let (scripting, reply) := handleFunction host srv.scripting args
    ⟨{ srv with scripting }, conn, [reply]⟩
  | .fcall => .srv' conn ((fcallRun host srv.scripting args).exec host conn.dbIndex conn.authenticatedUser 0 srv)
  | .queue => ⟨srv, { conn with transaction := conn.transaction.enqueue args }, [.simpleString "QUEUED"]⟩
  | .dispatch => .srv' conn (handleDispatch host cmd args srv conn)

/-- `run_subscribe_mode`, which nothing but the end of the connection leaves. -/
def subscribeMode (cmd : String) (args : List Resp) (srv : Db) (conn : Connection) : Served :=
  if ["SUBSCRIBE", "PSUBSCRIBE", "SSUBSCRIBE"].contains cmd then
    let (shared, conn, frames) := doSubscribe (cmd = "PSUBSCRIBE") args srv.shared conn
    ⟨{ srv with shared }, conn, frames⟩
  else if ["UNSUBSCRIBE", "PUNSUBSCRIBE", "SUNSUBSCRIBE"].contains cmd then
    let (shared, conn, frames) := doUnsubscribe (cmd = "PUNSUBSCRIBE") args srv.shared conn
    ⟨{ srv with shared }, if conn.subscriptions.isEmpty then { conn with mode := .closed } else conn, frames⟩
  else if cmd = "PING" then
    let inner := [.bulkString (some (Utf8.asBytes "pong")), args[1]?.getD (.bulkString (some []))]
    ⟨srv, conn, [if conn.respVersion ≥ 3 then .push inner else .array (some inner)]⟩
  else if cmd = "QUIT" || cmd = "RESET" then ⟨srv, { conn with mode := .closed }, [ok]⟩
  else ⟨srv, conn, [.error "ERR Command not allowed in subscribe mode"]⟩

/-- One request, in the loop that reads it. -/
def request (args : List Resp) (srv : Db) (conn : Connection) : Served :=
  let cmd := cmdName args
  if args.isEmpty then ⟨srv, conn, []⟩
  else match conn.mode with
    | .commands => handleRoute host (route conn srv.shared.isReplica cmd) cmd args srv conn
    | .subscribe => subscribeMode cmd args srv conn
    | .monitor => if cmd = "QUIT" || cmd = "RESET" then ⟨srv, { conn with mode := .closed }, [ok]⟩ else ⟨srv, conn, []⟩
    | .psync =>
      if cmd = "REPLCONF" then ⟨(dispatchWithUser host 0 0 conn.authenticatedUser args srv).1, conn, []⟩
      else ⟨srv, conn, []⟩
    | .closed => ⟨srv, conn, []⟩

/-! ## A small server -/

/-- SET without options, next to the handlers of `getEnv`. -/
def setEnv : Env :=
  { getEnv with
    write := fun name db args =>
      match name, getBytesVec args 1, getBytesVec args 2 with
      | "SET", some key, some value => .call db ⟨.setPlain key value, StoreOp.client_setPlain key value⟩ fun _ => .done ok
      | _, _, _ => .done (wrongArity "set") }

/-- A host on which scripts call one command. -/
def callHost (args : List Resp) : Host where
  env := setEnv
  text := ⟨id, id⟩
  effect _ _ _ _ shared := shared
  evict store := store
  quiesces _ := false
  clock _ _ := 0
  eval _ _ _ := .call args .ret
  call _ _ _ _ := .call args .ret
  sha1Hex := id
  parseLibrary source := .ok (source, [source])
  parseDump _ := .ok []
  functionReply _ _ := .array (some [])
  trackinginfo _ := .array (some [])
  helloReply _ _ := .array (some [])
  fullresync _ := .simpleString "FULLRESYNC"

def bulk (s : String) : Resp := .bulkString (some (Utf8.asBytes s))

/-- A server with one empty database and nothing configured. -/
def freshDb (isReplica : Bool) : Db :=
  ⟨⟨[.new 1 Nat.one_pos]⟩, ⟨none, .new, isReplica, false, false, false, [], ∅, [], [], []⟩, ⟨∅, []⟩⟩

end NexradeCache
