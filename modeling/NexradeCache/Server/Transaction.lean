import NexradeCache.Command.Args
import NexradeCache.Lib.Serial
import NexradeCache.Store.Keyspace

/-!
# MULTI, EXEC and WATCH (`nexrade-core/src/transaction.rs`, `nexrade-server/src/connection.rs`)

Any number of clients share the databases of the server. A client's handler runs in atomic steps,
and between two of them any other client may run: `handle_watch` reads the version of one key under
that key's read lock at a time, `handle_exec` compares the watched versions one at a time and then
dispatches the queued commands, one critical section at a time. A `Turn` of the server is one such
step, with the reading of the clock it makes.

`Transaction::watch_keys` has a key and a version, and no database: the version is read in the
database that is selected at the WATCH and compared in the one that is selected at the EXEC.

A command is a program of store operations: a `Command` if it runs in one critical section of one
database, a `Program` if it takes locks again and again, as MGET, MSET and MOVE do. What a command
does outside the keyspace (the append-only file, invalidation messages, statistics) is not modelled.
The fields `log`, `execs` and `writes` of the server and `served`, `guard` and `taken` of a client
record the history; no step depends on them.
-/

namespace NexradeCache

/-! ## Commands -/

def DataType.asStringBytes : DataType → Option Bytes
  | .string v => some v
  | .int cell => some (putI64 cell.value)
  | .bitmap v => some v
  | _ => none

/-- A command, as the store operations it makes and what it does with their answers. -/
inductive Command where
  | done (reply : Resp)
  /-- `get_ro`, under the read lock. -/
  | read (key : Bytes) (next : Option Content → Command)
  | call (op : ClientOp) (next : Answer → Command)

namespace Command

/-- What the command does to the keyspace, and its reply. -/
def apply (now : Nat) (K : Keyspace) : Command → Keyspace × Resp
  | .done reply => (K, reply)
  | .read key next => (next (Content.live now (K key))).apply now K
  | .call op next => (next (op.apply now K).2).apply now (op.apply now K).1

/-- GET. -/
def cmdGet (key : Bytes) : Command :=
  .read key fun
    | none => .done (.bulkString none)
    | some c =>
      match c.1.asStringBytes with
      | some v => .done (.bulkString (some v))
      | none => .done (.error "WRONGTYPE Operation against a key holding the wrong kind of value")

/-- SET without options. -/
def cmdSet (key value : Bytes) : Command :=
  .call ⟨.setPlain key value, StoreOp.client_setPlain key value⟩ fun _ => .done (.simpleString "OK")

end Command

/-! ## Databases -/

/-- The databases of the server, under one clock. -/
structure Stores (dbCount : Nat) where
  now : Nat
  db : Fin dbCount → ShardedDatabase

/-- What clients see of all databases. -/
abbrev Spaces (dbCount : Nat) := Fin dbCount → Keyspace

namespace Stores

variable {dbCount : Nat}

def new (dbCount numShards : Nat) (positive : 0 < numShards) (now : Nat) : Stores dbCount :=
  ⟨now, fun _ => .new numShards positive⟩

/-- One database, with the clock. -/
def world (w : Stores dbCount) (i : Fin dbCount) : World := ⟨w.now, w.db i⟩

def tick (w : Stores dbCount) (now : Nat) : Stores dbCount := { w with now }

def step (w : Stores dbCount) (op : Fin dbCount × ClientOp) : Stores dbCount :=
  { w with db := Function.update w.db op.1 ((w.world op.1).step op.2.1).db }

def run (w : Stores dbCount) (ops : List (Fin dbCount × ClientOp)) : Stores dbCount := ops.foldl step w

def spaces (w : Stores dbCount) : Spaces dbCount := fun i => (w.world i).keyspace

/-- The operations in one of the databases. -/
def inDb (i : Fin dbCount) (ops : List (Fin dbCount × ClientOp)) : List StoreOp :=
  (ops.filter fun op => op.1 = i).map fun op => op.2.1

theorem world_step_self (w : Stores dbCount) (op : Fin dbCount × ClientOp) :
    (w.step op).world op.1 = (w.world op.1).step op.2.1 := by
  have clock : ((w.world op.1).step op.2.1).now = w.now := (w.world op.1).now_step op.2
  rw [world, step]
  simp only [Function.update_self, ← clock]

theorem world_step_of_ne (w : Stores dbCount) {op : Fin dbCount × ClientOp} {i : Fin dbCount} (ne : i ≠ op.1) :
    (w.step op).world i = w.world i := by
  show (⟨w.now, Function.update w.db op.1 _ i⟩ : World) = ⟨w.now, w.db i⟩
  rw [Function.update_of_ne ne]

/-- **Each database runs its own operations.** -/
theorem world_run (w : Stores dbCount) (ops : List (Fin dbCount × ClientOp)) (i : Fin dbCount) :
    (w.run ops).world i = (w.world i).run (inDb i ops) := by
  induction ops generalizing w with
  | nil => rfl
  | cons op ops ih =>
    by_cases here : op.1 = i
    · have split : inDb i (op :: ops) = op.2.1 :: inDb i ops := by simp [inDb, here]
      have rest := ih (w.step op)
      rw [← here, world_step_self, here] at rest
      rw [split]
      exact rest
    · have split : inDb i (op :: ops) = inDb i ops := by simp [inDb, here]
      have rest := ih (w.step op)
      rw [world_step_of_ne w (Ne.symm here)] at rest
      rw [split]
      exact rest

theorem spaces_step (w : Stores dbCount) (op : Fin dbCount × ClientOp) :
    (w.step op).spaces = Function.update w.spaces op.1 ((w.world op.1).step op.2.1).keyspace := by
  funext i
  by_cases here : i = op.1
  · rw [here, Function.update_self, spaces, world_step_self]
  · rw [Function.update_of_ne here, spaces, world_step_of_ne w here]
    rfl

end Stores

/-! ## Programs -/

/-- A command, as the store operations it makes in its databases and what it does with their
answers, one critical section after the other. -/
inductive Program (dbCount : Nat) where
  | done (reply : Resp)
  /-- `get_ro`, under the read lock. -/
  | read (db : Fin dbCount) (key : Bytes) (next : Option Content → Program dbCount)
  | call (db : Fin dbCount) (op : ClientOp) (next : Answer → Program dbCount)
  /-- The locks are released, and others may run before the next section. -/
  | release (next : Program dbCount)

/-- A command of one critical section, in a database. -/
def Command.inDb {dbCount : Nat} (db : Fin dbCount) : Command → Program dbCount
  | .done reply => .done reply
  | .read key next => .read db key fun v => (next v).inDb db
  | .call op next => .call db op fun a => (next a).inDb db

namespace Program

variable {dbCount : Nat}

/-- Run one critical section: it ends the command with a reply, or leaves the rest of it. -/
def exec (w : Stores dbCount) : Program dbCount → Stores dbCount × (Resp ⊕ Program dbCount)
  | .done reply => (w, .inl reply)
  | .read db key next => (next (((w.world db).db.shardFor key).getRo w.now key |>.map Entry.content)).exec w
  | .call db op next => (next ((w.world db).answer op)).exec (w.step (db, op))
  | .release next => (w, .inr next)

/-- The operations the section makes. -/
def ops (w : Stores dbCount) : Program dbCount → List (Fin dbCount × ClientOp)
  | .done _ => []
  | .read db key next => (next (((w.world db).db.shardFor key).getRo w.now key |>.map Entry.content)).ops w
  | .call db op next => (db, op) :: (next ((w.world db).answer op)).ops (w.step (db, op))
  | .release _ => []

/-- What the section does to the keyspaces, and how it ends. -/
def apply (now : Nat) (K : Spaces dbCount) : Program dbCount → Spaces dbCount × (Resp ⊕ Program dbCount)
  | .done reply => (K, .inl reply)
  | .read db key next => (next (Content.live now (K db key))).apply now K
  | .call db op next =>
    (next (op.apply now (K db)).2).apply now (Function.update K db (op.apply now (K db)).1)
  | .release next => (K, .inr next)

/-- **A section refines its effect on the keyspaces.** -/
theorem exec_refines (program : Program dbCount) (w : Stores dbCount) :
    (program.exec w).1.spaces = (program.apply w.now w.spaces).1 ∧
      (program.exec w).2 = (program.apply w.now w.spaces).2 := by
  induction program generalizing w with
  | done reply => exact ⟨rfl, rfl⟩
  | release next => exact ⟨rfl, rfl⟩
  | read db key next ih =>
    rw [exec, apply, ShardedDatabase.getRo_content]
    exact ih _ w
  | call db op next ih =>
    obtain ⟨state, ans⟩ := (w.world db).keyspace_step op
    have rest := ih ((w.world db).answer op) (w.step (db, op))
    rw [w.spaces_step (db, op), state, ans] at rest
    rw [exec, apply, ans]
    exact rest

theorem exec_eq_run (program : Program dbCount) (w : Stores dbCount) :
    (program.exec w).1 = w.run (program.ops w) := by
  induction program generalizing w with
  | done reply => rfl
  | release next => rfl
  | read db key next ih => exact ih _ w
  | call db op next ih => exact ih ((w.world db).answer op) (w.step (db, op))

/-- MGET takes a read lock for each key. -/
def cmdMget (db : Fin dbCount) : (keys : List Bytes) → (results : List Resp) → Program dbCount
  | [], results => .done (.array (some results))
  | key :: keys, results => .read db key fun c =>
    .release (cmdMget db keys (results ++ [.bulkString (c.bind fun c => c.1.asStringBytes)]))

end Program

/-! ## Transactions -/

section

variable {dbCount : Nat}

/-- A command as it is sent and queued: what it does depends on the database that is selected when it
is dispatched. -/
abbrev Sent (dbCount : Nat) := Fin dbCount → Program dbCount

/-- The state of MULTI on a connection. A watched key is kept with its version at the WATCH, and without its
database. -/
structure Transaction (dbCount : Nat) where
  active : Bool
  queue : List (Sent dbCount)
  error : Bool
  watchKeys : List (Bytes × Nat)

namespace Transaction

def new : Transaction dbCount := ⟨false, [], false, []⟩

/-- MULTI; watched keys stay watched. -/
def begin (tx : Transaction dbCount) : Transaction dbCount := { tx with active := true, queue := [], error := false }

def discard (_ : Transaction dbCount) : Transaction dbCount := ⟨false, [], false, []⟩

def enqueue (tx : Transaction dbCount) (cmd : Sent dbCount) : Transaction dbCount :=
  { tx with queue := tx.queue ++ [cmd] }

def MAX_WATCH_KEYS : Nat := 4096

def watch (tx : Transaction dbCount) (key : Bytes) (version : Nat) : Option (Transaction dbCount) :=
  if tx.watchKeys.length ≥ MAX_WATCH_KEYS then none
  else some { tx with watchKeys := tx.watchKeys ++ [(key, version)] }

def unwatch (tx : Transaction dbCount) : Transaction dbCount := { tx with watchKeys := [] }

end Transaction

/-! ## Clients -/

/-- A request of a client, as the branches of `Connection::run` tell them apart. -/
inductive Request (dbCount : Nat) where
  | select (args : List Resp)
  | reset
  | watch (args : List Resp)
  | unwatch
  | multi
  | exec
  | discard
  /-- EVAL, EVALSHA and FCALL, which are never queued. -/
  | script (calls : Sent dbCount)
  | command (cmd : Sent dbCount)

/-- Where the handler of a client is. -/
inductive Pc (dbCount : Nat) where
  | idle
  /-- In `handle_watch`, with the keys it has still to read. -/
  | watch (rest : List Bytes)
  /-- In `handle_exec`, with so many watched keys compared. -/
  | check (compared : Nat)
  /-- In `handle_exec`, with what is left of the command under way, the commands behind it and the
  results so far. -/
  | run (cmd : Program dbCount) (rest : List (Program dbCount)) (results : List Resp)
  /-- Between two sections of a command that was sent by itself. -/
  | command (cmd : Program dbCount)

/-- A watched key, with the database and the length of the log at its WATCH. -/
structure WatchEntry (dbCount : Nat) where
  db : Fin dbCount
  key : Bytes
  start : Nat

/-- A connection with the place its request is at. `guard` and `taken` are history: no step looks at them. -/
structure Client (dbCount : Nat) where
  transaction : Transaction dbCount
  dbIndex : Fin dbCount
  pc : Pc dbCount
  /-- The number of requests so far. -/
  served : Nat
  /-- The watched keys, also while their EXEC runs. -/
  guard : List (WatchEntry dbCount)
  /-- What the last EXEC took from the queue. -/
  taken : List (Program dbCount)

/-- What an EXEC that replied with an array ran, what it answered and what it watched. -/
structure Answered (dbCount : Nat) where
  taken : List (Program dbCount)
  results : List Resp
  guard : List (WatchEntry dbCount)

/-- What a step leaves of the client and what it replies; an EXEC that ends with an array also
leaves a record of it. -/
structure Reaction (dbCount : Nat) where
  client : Client dbCount
  reply : Option Resp
  executed : Option (Answered dbCount)

namespace Client

/-- A new connection, in database 0. -/
def new [NeZero dbCount] : Client dbCount := ⟨.new, 0, .idle, 0, [], []⟩

def answers (c : Client dbCount) (r : Resp) : Reaction dbCount := ⟨{ c with pc := .idle }, some r, none⟩

def goesOn (c : Client dbCount) (pc : Pc dbCount) : Reaction dbCount := ⟨{ c with pc }, none, none⟩

/-- EXEC replies with the results. -/
def finish (c : Client dbCount) (results : List Resp) : Reaction dbCount :=
  ⟨{ c with pc := .idle, guard := [] }, some (.array (some results)), some ⟨c.taken, results, c.guard⟩⟩

/-- EXEC dispatches the next command. -/
def dispatchNext (c : Client dbCount) (results : List Resp) : List (Program dbCount) → Reaction dbCount
  | [] => c.finish results
  | cmd :: rest => c.goesOn (.run cmd rest results)

/-- EXEC after its checks: take the queue, reset the transaction and start to dispatch. -/
def startDispatch (c : Client dbCount) : Reaction dbCount :=
  let cmds := c.transaction.queue.map fun cmd => cmd c.dbIndex
  dispatchNext { c with transaction := c.transaction.discard, taken := cmds } [] cmds

/-- Reset the transaction and reply. -/
def abort (c : Client dbCount) (r : Resp) : Reaction dbCount :=
  answers { c with transaction := c.transaction.discard, guard := [] } r

/-- `str::parse::<usize>` of the argument, and a test of the range. -/
def handleSelect (c : Client dbCount) (args : List Resp) : Reaction dbCount :=
  match Decimal.parseUsize ((getStr args 0).getD "0") with
  | some idx =>
    if inside : idx < dbCount then answers { c with dbIndex := ⟨idx, inside⟩ } (.simpleString "OK")
    else c.answers (.error "ERR DB index is out of range")
  | none => c.answers (.error "ERR value is not an integer or out of range")

/-- RESET: no transaction, no watched key, and database 0. -/
def handleReset [NeZero dbCount] (c : Client dbCount) : Reaction dbCount :=
  abort { c with dbIndex := 0 } (.simpleString "RESET")

def handleMulti (c : Client dbCount) : Reaction dbCount :=
  if c.transaction.active then c.answers (.error "ERR MULTI calls can not be nested")
  else answers { c with transaction := c.transaction.begin } (.simpleString "OK")

def handleExec (c : Client dbCount) : Reaction dbCount :=
  if !c.transaction.active then c.answers (.error "ERR EXEC without MULTI")
  else if c.transaction.error then
    c.abort (.error "EXECABORT Transaction discarded because of previous errors")
  else if c.transaction.watchKeys.isEmpty then c.startDispatch
  else c.goesOn (.check 0)

def handleDiscard (c : Client dbCount) : Reaction dbCount :=
  if !c.transaction.active then c.answers (.error "ERR DISCARD without MULTI")
  else c.abort (.simpleString "OK")

def handleWatch (c : Client dbCount) (args : List Resp) : Reaction dbCount :=
  if c.transaction.active then c.answers (.error "ERR WATCH inside MULTI is not allowed")
  else if args.isEmpty then c.answers (.error "ERR wrong number of arguments for 'watch' command")
  else c.goesOn (.watch (args.filterMap Resp.asBytes))

def handleUnwatch (c : Client dbCount) : Reaction dbCount :=
  answers { c with transaction := c.transaction.unwatch, guard := [] } (.simpleString "OK")

/-- `handle_watch` reads the version of the next key, in the database that is selected. -/
def watchNext (c : Client dbCount) (version : Bytes → Nat) (position : Nat) : List Bytes → Reaction dbCount
  | [] => c.answers (.simpleString "OK")
  | key :: rest =>
    match c.transaction.watch key (version key) with
    | none => c.answers (.error "ERR too many watched keys")
    | some transaction =>
      let new : WatchEntry dbCount := ⟨c.dbIndex, key, position⟩
      let c := { c with transaction, guard := c.guard ++ [new] }
      if rest.isEmpty then c.answers (.simpleString "OK") else c.goesOn (.watch rest)

/-- `handle_exec` compares the next watched key, in the database that is selected. -/
def checkNext (c : Client dbCount) (version : Bytes → Nat) (compared : Nat) : Reaction dbCount :=
  match c.transaction.watchKeys[compared]? with
  | none => c.startDispatch
  | some (key, watched) =>
    if version key ≠ watched then c.abort (.array none)
    else if compared + 1 < c.transaction.watchKeys.length then c.goesOn (.check (compared + 1))
    else c.startDispatch

/-- A request of an idle client counts. -/
def arrive (c : Client dbCount) : Client dbCount :=
  match c.pc with
  | .idle => { c with served := c.served + 1 }
  | _ => c

/-- The next step of a client: the section it runs, or what a step without one leaves. -/
def next [NeZero dbCount] (c : Client dbCount) (request : Request dbCount) (version : Bytes → Nat)
    (position : Nat) : Program dbCount ⊕ Reaction dbCount :=
  match c.pc with
  | .idle =>
    match request with
    | .select args => .inr (c.handleSelect args)
    | .reset => .inr c.handleReset
    | .watch args => .inr (c.handleWatch args)
    | .unwatch => .inr c.handleUnwatch
    | .multi => .inr c.handleMulti
    | .exec => .inr c.handleExec
    | .discard => .inr c.handleDiscard
    | .script calls => .inl (calls c.dbIndex)
    | .command cmd =>
      if c.transaction.active then
        .inr (answers { c with transaction := c.transaction.enqueue cmd } (.simpleString "QUEUED"))
      else .inl (cmd c.dbIndex)
  | .watch rest => .inr (c.watchNext version position rest)
  | .check compared => .inr (c.checkNext version compared)
  | .run cmd _ _ => .inl cmd
  | .command cmd => .inl cmd

/-- What a section leaves: its command goes on, or it is over. -/
def receive (c : Client dbCount) (ending : Resp ⊕ Program dbCount) : Reaction dbCount :=
  match c.pc, ending with
  | .run _ rest results, .inl r => c.dispatchNext (results ++ [r]) rest
  | .run _ rest results, .inr cmd => c.goesOn (.run cmd rest results)
  | _, .inl r => c.answers r
  | _, .inr cmd => c.goesOn (.command cmd)

end Client

/-! ## The server -/

/-- One step of a client: the reading of the clock, and the client's request if it is idle. -/
structure Turn (dbCount : Nat) where
  client : Nat
  now : Nat
  request : Request dbCount

/-- A section with the clock it was run at. -/
structure Dispatch (dbCount : Nat) where
  now : Nat
  cmd : Program dbCount

def Dispatch.apply (d : Dispatch dbCount) (K : Spaces dbCount) : Spaces dbCount × (Resp ⊕ Program dbCount) :=
  d.cmd.apply d.now K

section

variable {i j : Fin dbCount} {a b : Bytes}

end

/-- The sections of one request are one unit: those of an EXEC, or those of a single command. -/
abbrev Ran (dbCount : Nat) := Serial.Entry (Nat × Nat) (Dispatch dbCount) (Resp ⊕ Program dbCount)

/-- An EXEC that replied with an array. -/
structure Executed (dbCount : Nat) extends Answered dbCount where
  client : Nat
  request : Nat
  finish : Nat

/-- The keyspaces and the clients. `log`, `replies`, `execs` and `writes` are history. -/
structure Server (dbCount : Nat) where
  store : Stores dbCount
  clients : Nat → Client dbCount
  /-- The sections run so far. -/
  log : List (Ran dbCount)
  replies : List (Nat × Resp)
  execs : List (Executed dbCount)
  /-- The number of store operations so far. -/
  writes : Nat

namespace Server

def new [NeZero dbCount] (numShards : Nat) (positive : 0 < numShards) (now : Nat) : Server dbCount :=
  ⟨.new dbCount numShards positive now, fun _ => .new, [], [], [], 0⟩

/-- Keep what a step left of its client. -/
def react (s : Server dbCount) (id : Nat) (r : Reaction dbCount) : Server dbCount :=
  { s with
    clients := Function.update s.clients id r.client
    replies := s.replies ++ (r.reply.map fun resp => (id, resp)).toList
    execs := s.execs ++
      (r.executed.map fun x => (⟨x, id, r.client.served, s.log.length⟩ : Executed dbCount)).toList }

/-- The next step of a client at a time: versions are those of the database it has selected. -/
def nextOf [NeZero dbCount] (s : Server dbCount) (t : Turn dbCount) : Program dbCount ⊕ Reaction dbCount :=
  let c := (s.clients t.client).arrive
  c.next t.request (fun k => ((s.store.tick t.now).world c.dbIndex).keyVersion k) s.log.length

def turn [NeZero dbCount] (s : Server dbCount) (t : Turn dbCount) : Server dbCount :=
  let c := (s.clients t.client).arrive
  let w := s.store.tick t.now
  match s.nextOf t with
  | .inl cmd =>
    let (w', ending) := cmd.exec w
    react { s with
      store := w'
      log := s.log ++ [⟨(t.client, c.served), ⟨t.now, cmd⟩, ending⟩]
      writes := s.writes + (cmd.ops w).length } t.client (c.receive ending)
  | .inr reaction => react { s with store := w } t.client reaction

def run [NeZero dbCount] (s : Server dbCount) (turns : List (Turn dbCount)) : Server dbCount := turns.foldl turn s

end Server

end

end NexradeCache
