import NexradeCache.Command.Dispatch
import NexradeCache.Lib.Replay
import NexradeCache.Persistence.Coordinator

/-!
# The append-only file and its rewrite (`dispatch_tracked` of `nexrade-core/src/command/mod.rs`,
`cmd_bgrewriteaof` of `server.rs`)

Clients that dispatch write commands and any number of BGREWRITEAOF, as tasks over the coordinator of
mutations. An ordinary write holds its permit from before the handler until behind the append. A
blocking one (BLPOP and the like) takes a permit for one attempt only, most of them make their first
attempt without one, and all append without one. The rewrite holds the guard of the coordinator while
the writer is out of its slot.

What a handler can do, what replaying a command does and what commands stand for a keyspace is open
here. No file operation fails.
-/

namespace NexradeCache

open Interleave Replay

namespace Persistence

/-! ## Writes -/

/-- A write command, with the database that is selected for it. -/
structure Write where
  db : Nat
  cmd : String
  args : List Resp

/-- The handler makes an attempt before it waits, without a permit of its own. -/
def hasFastPath (cmd : String) : Bool := !(["BLPOP", "BRPOP"].contains cmd)

/-- How an attempt of a handler ends: with a reply, with an error, or with nothing to take. -/
inductive Outcome where
  | reply
  | error
  | nothing
deriving DecidableEq, Repr

/-- What the commands mean for a keyspace. -/
structure Commands (K : Type) where
  empty : K
  /-- What an attempt of the handler can do, with the evictions around it. -/
  attempt : Write → K → List (K × Outcome)
  /-- What replaying the command does. -/
  replay : Write → K → K
  /-- The commands of a rewritten file. -/
  rewrite : K → List Write

/-- What the client is told. The last two are errors of the file, while it is being written and from then on. -/
inductive Answer where
  | reply
  | error
  | quiescing
  | appendFailed
  | disabled
deriving DecidableEq, Repr

def Answer.aofError : Answer → Bool
  | .appendFailed => true
  | .disabled => true
  | _ => false

/-! ## State -/

/-- A command of the file, and the mutation it was appended for. -/
structure Appended where
  origin : Option Nat
  write : Write

/-- What BGREWRITEAOF and the writers share: the coordinator, the store, the slot of the writer and the file. -/
structure Aof (K : Type) where
  coordinator : Coordinator
  store : K
  /-- There is a writer in its slot. -/
  writer : Bool
  file : List Appended
  aofFailed : Bool
  rewriteInProgress : Bool
  /-- History: the number of mutations, those that are on their way to the file, those whose effect is in
  the rewritten part of the file, and those that were acknowledged. -/
  mutations : Nat
  pending : List (Pending Write)
  base : List Nat
  acknowledged : List Nat

/-- What a blocking write does when it has dropped its permit. -/
inductive After where
  | wait
  | append (id : Nat)
  | answer (a : Answer)

/-- The next atomic access of a client or of a rewrite. A field `t` is where the call of the coordinator is. -/
inductive Phase (K : Type) where
  | dispatch (w : Write)
  /-- An ordinary write: get the permit, run the handler, append, drop the permit. -/
  | acquire (w : Write) (t : Task)
  | commit (w : Write) (id : Nat)
  | leave (a : Answer) (t : Task)
  /-- A blocking write: an attempt without permit, or with a permit that is dropped behind it. -/
  | fast (w : Write)
  | enter (w : Write) (t : Task)
  | drop (w : Write) (after : After) (t : Task)
  | wait (w : Write)
  | append (w : Write) (id : Nat)
  | answered (a : Answer)
  /-- BGREWRITEAOF: the flag, the guard, the writer, the snapshot, the file, the new writer, the flag. -/
  | swap
  | quiesce (t : Task)
  | snapshot
  | rewrite (dbs : K) (mutations : Nat)
  | reopen
  | finish
  | release (t : Task)
  | done

variable {K : Type}

/-- The call of the coordinator that a task is in. -/
def Phase.task : Phase K → Task
  | .acquire _ t | .leave _ t | .enter _ t | .drop _ _ t | .quiesce t | .release t => t
  | .commit _ _ => .permit
  | .snapshot | .rewrite _ _ | .reopen | .finish => .guard
  | .dispatch _ | .fast _ | .wait _ | .append _ _ | .answered _ | .swap | .done => .done

/-- A step of the coordinator. -/
def Aof.coordinate (s : Aof K) (t : Task) (phase : Task → Phase K) : List (Aof K × Phase K) :=
  (Persistence.next s.coordinator t).map fun (c, t') => ({ s with coordinator := c }, phase t')

/-- A mutation that goes to the file. -/
def Aof.mutate (s : Aof K) (w : Write) (store : K) : Aof K :=
  { s with store, mutations := s.mutations + 1, pending := s.pending ++ [⟨s.mutations, w⟩] }

/-- The append, with its answer. Without a writer it is an error that disables writes. -/
def Aof.append (s : Aof K) (w : Write) (id : Nat) : Aof K × Answer :=
  if s.writer then
    ({ s with
        file := s.file ++ [⟨some id, w⟩], pending := settle s.pending id
        acknowledged := s.acknowledged ++ [id] }, .reply)
  else ({ s with aofFailed := true }, .appendFailed)

/-- An attempt of a blocking handler, and how the write goes on after it. -/
def Aof.attempt (cmds : Commands K) (s : Aof K) (w : Write) : List (Aof K × After) :=
  (cmds.attempt w s.store).map fun (store, outcome) =>
    match outcome with
    | .reply => (s.mutate w store, .append s.mutations)
    | .error => ({ s with store }, .answer .error)
    | .nothing => ({ s with store }, .wait)

def After.phase (w : Write) : After → Phase K
  | .wait => .wait w
  | .append id => .append w id
  | .answer a => .answered a

def Aof.next (cmds : Commands K) (s : Aof K) : Phase K → List (Aof K × Phase K)
  | .dispatch w =>
    if s.aofFailed then [(s, .answered .disabled)]
    else if !isBlockingWriteCommand w.cmd then [(s, .acquire w (.load .fast))]
    else if hasFastPath w.cmd then [(s, .fast w)]
    else [(s, .enter w (.load .once))]
  | .acquire w .permit =>
    (cmds.attempt w s.store).map fun (store, outcome) =>
      match outcome with
      | .reply => (s.mutate w store, .commit w s.mutations)
      | _ => ({ s with store }, .leave .error .permit)
  | .acquire _ .done => [(s, .answered .quiescing)]
  | .acquire w t => s.coordinate t (.acquire w)
  | .commit w id => let (s, a) := s.append w id; [(s, .leave a .permit)]
  | .leave a .done => [(s, .answered a)]
  | .leave a t => s.coordinate t (.leave a)
  | .fast w =>
    (s.attempt cmds w).map fun (s, after) =>
      (s, match after with | .wait => .enter w (.load .once) | after => after.phase w)
  | .enter w .permit => (s.attempt cmds w).map fun (s, after) => (s, .drop w after .permit)
  | .enter _ .done => [(s, .answered .quiescing)]
  | .enter w t => s.coordinate t (.enter w)
  | .drop w after .done => [(s, after.phase w)]
  | .drop w after t => s.coordinate t (.drop w after)
  /- Woken up, or timed out: then the reply is a null, and the command goes to the file as well. -/
  | .wait w => [(s, .enter w (.load .once)), (s.mutate w s.store, .append w s.mutations)]
  | .append w id => let (s, a) := s.append w id; [(s, .answered a)]
  | .answered _ => []
  | .swap => if s.rewriteInProgress then [(s, .done)] else [({ s with rewriteInProgress := true }, .quiesce .lock)]
  | .quiesce .guard => [({ s with writer := false }, .snapshot)]
  | .quiesce t => s.coordinate t .quiesce
  | .snapshot => [(s, .rewrite s.store s.mutations)]
  | .rewrite dbs mutations =>
    [({ s with file := (cmds.rewrite dbs).map (Appended.mk none), base := List.range mutations }, .reopen)]
  | .reopen => [({ s with writer := true }, .finish)]
  | .finish => [({ s with rewriteInProgress := false }, .release .guard)]
  | .release .done => [(s, .done)]
  | .release t => s.coordinate t .release
  | .done => []

/-- The requests there are. -/
def Phase.entry : Phase K → Bool
  | .dispatch w => isWriteCommand w.cmd
  | .swap => true
  | _ => false

end Persistence

end NexradeCache
