import NexradeCache.Lib.Interleave
import NexradeCache.Lib.Text
import NexradeCache.Store.Sharded

/-!
# A primary and its replicas (`nexrade-core/src/replication.rs`, `Connection::run` and
`run_psync_mode` of `nexrade-server/src/connection.rs`, `connect_to_primary` of
`nexrade-server/src/listener.rs`, `cmd_wait` of `nexrade-core/src/command/server.rs`)

Any number of clients, replica sessions and WAIT calls of one primary are tasks of a `Pool`; a task
steps from one access of shared state to the next. A client's write tests whether anyone is
subscribed, mutates its shard, sends its bytes on the broadcast channel and then counts them into
`replication_offset`. A session copies the store shard by shard, registers, subscribes and streams.

A write is known by its place in the order of the mutations. The fields `mutated`, `sent`,
`acknowledged`, `waits` and `returned` of the primary and `asked` of a replica record the history;
of these only `mutated` is read by a step, as the content of the shards.
-/

namespace NexradeCache

open Interleave Utf8

namespace Replication

/-- The databases and shards a store is made with. -/
structure Layout where
  dbCount : Nat
  numShards : Nat
  positive : 0 < numShards

variable {l : Layout}

/-- How many shards `snapshot_dbs` copies. -/
def Layout.units (l : Layout) : Nat := l.dbCount * l.numShards

/-- A write command on one key. `bytes` is what the connection serialised for the replicas. -/
structure Write (l : Layout) where
  id : Nat
  db : Fin l.dbCount
  key : Bytes
  bytes : Bytes
  nonempty : bytes ≠ []
deriving DecidableEq

namespace Write

/-- The place of its shard in the order `snapshot_dbs` copies them. -/
def unit (w : Write l) : Nat := w.db * l.numShards + (fnv1a w.key &&& (l.numShards - 1))

def size (w : Write l) : Nat := w.bytes.length

/-- Both write the same key. -/
def Conflicts (w w' : Write l) : Prop := w.db = w'.db ∧ w.key = w'.key

instance (w w' : Write l) : Decidable (w.Conflicts w') := inferInstanceAs (Decidable (_ ∧ _))

theorem size_pos (w : Write l) : 0 < w.size := List.length_pos_iff.2 w.nonempty

theorem unit_lt (w : Write l) : w.unit < l.units := by
  have inside : (fnv1a w.key &&& (l.numShards - 1)) ≤ l.numShards - 1 := Nat.and_le_right
  have positive := l.positive
  have row : (w.db + 1) * l.numShards ≤ l.dbCount * l.numShards := Nat.mul_le_mul_right _ w.db.isLt
  rw [Nat.add_mul] at row
  unfold unit Layout.units
  omega

theorem Conflicts.unit_eq {w w' : Write l} (h : w.Conflicts w') : w.unit = w'.unit := by
  rw [unit, unit, h.1, h.2]

end Write

/-- The bytes of `request_acks`. -/
def GETACK : Bytes := asBytes "*3\r\n$8\r\nREPLCONF\r\n$6\r\nGETACK\r\n$1\r\n*\r\n"

/-- What goes through the broadcast channel. -/
inductive Message (l : Layout) where
  | write (w : Write l)
  | getack
deriving DecidableEq

namespace Message

def size : Message l → Nat
  | .write w => w.size
  | .getack => GETACK.length

def write? : Message l → Option (Write l)
  | .write w => some w
  | .getack => none

end Message

/-- The writes among the messages. -/
def writes (ms : List (Message l)) : List (Write l) := ms.filterMap Message.write?

/-- The bytes of some writes. -/
def total (ws : List (Write l)) : Nat := (ws.map Write.size).sum

/-- Where `run_psync_mode` is. -/
inductive Phase where
  /-- The next shard to copy. -/
  | snapshot (unit : Nat)
  | register
  | subscribe
  | stream
  | closed
deriving DecidableEq, Repr

/-- A replica session: the primary's end, the connection and the replica itself. -/
structure Replica (l : Layout) where
  phase : Phase
  /-- The offset of the FULLRESYNC line. -/
  base : Nat
  snapshot : List (Write l)
  /-- The snapshot was sent. -/
  rdb : Bool
  /-- The offset in its `ReplicaInfo`, while it is registered. -/
  info : Option Nat
  /-- What its receiver of the channel holds. -/
  queue : List (Message l)
  /-- What was written to the connection, less what the replica has parsed, and how much of the
  first message it has read. -/
  wire : List (Message l)
  read : Nat
  /-- The replica loaded the snapshot; its own `replication_offset`; what it applied since. -/
  loaded : Bool
  offset : Nat
  applied : List (Write l)
  /-- The REPLCONF ACKs on their way back. -/
  acks : List Nat
  /-- How many GETACKs it has parsed. -/
  asked : Nat
deriving DecidableEq

/-- The primary's side of the replication: the counters and the sessions. The lists of writes, `waits` and
`returned` are history, and no step depends on them. -/
structure Primary (l : Layout) where
  mutated : List (Write l)
  sent : List (Write l)
  acknowledged : List (Write l)
  replicationOffset : Nat
  propagateSubscribers : Nat
  replicas : List (Replica l)
  /-- What WAIT calls loaded as their target, with what had been sent then. -/
  waits : List (Nat × List (Write l))
  /-- What WAIT calls returned, with what had been sent when they began. -/
  returned : List (List (Write l) × Nat)

def Primary.new : Primary l := ⟨[], [], [], 0, 0, [], [], []⟩

/-- The capacity of the broadcast channel. -/
def CHANNEL : Nat := 1024

namespace Replica

def new (base : Nat) : Replica l := ⟨.snapshot 0, base, [], false, none, [], [], 0, false, 0, [], [], 0⟩

/-- It holds a receiver of the channel. -/
def subscribed (r : Replica l) : Bool := r.phase = .stream

/-- A message is sent on the channel. -/
def push (m : Message l) (r : Replica l) : Replica l :=
  if r.subscribed then { r with queue := r.queue ++ [m] } else r

@[simp] theorem phase_push (m : Message l) (r : Replica l) : (r.push m).phase = r.phase := by
  unfold push
  split <;> rfl

/-- The parser's work on `n` more bytes, `read` bytes of the first message being there already: the
messages that are complete, what of the next one is read, and what is left. -/
def consume : (n read : Nat) → List (Message l) → List (Message l) × Nat × List (Message l)
  | _, _, [] => ([], 0, [])
  | n, read, m :: rest =>
    if read + n < m.size then ([], read + n, m :: rest)
    else
      let (done, read', rest') := consume (n - (m.size - read)) 0 rest
      (m :: done, read', rest')

/-- One `read_buf` of the replica: each GETACK is answered with the offset before these bytes. -/
def receive (r : Replica l) (n : Nat) : Replica l :=
  let (done, read, wire) := consume n r.read r.wire
  let asked := done.countP fun m => m.write?.isNone
  { r with
    wire, read
    applied := r.applied ++ writes done
    acks := r.acks ++ List.replicate asked r.offset
    asked := r.asked + asked
    offset := r.offset + n }

/-- `update_replica_offset`. -/
def updateOffset (r : Replica l) (offset : Nat) : Replica l :=
  { r with info := r.info.map fun known => if offset > known then offset else known }

/-- The writes the replica holds. -/
def holds (r : Replica l) : List (Write l) := (if r.loaded then r.snapshot else []) ++ r.applied

/-- What was delivered on the stream or is on its way. -/
def stream (r : Replica l) : List (Write l) := r.applied ++ writes r.wire ++ writes r.queue

/-- The session is past the shard of the write. -/
def copied (r : Replica l) (w : Write l) : Bool :=
  match r.phase with
  | .snapshot unit => w.unit < unit
  | _ => true

end Replica

/-- The next step of a task. -/
inductive Task (l : Layout) where
  /-- A write of a client: test for subscribers, dispatch, send, count. -/
  | test (db : Fin l.dbCount) (key bytes : Bytes) (nonempty : bytes ≠ [])
  | dispatch (db : Fin l.dbCount) (key bytes : Bytes) (nonempty : bytes ≠ []) (propagate : Bool)
  | send (w : Write l) (propagate : Bool)
  | count (w : Write l)
  /-- `run_psync_mode`, the other end of its connection, and the loss of that. -/
  | psync
  | session (r : Nat)
  | replica (r : Nat)
  | disconnect (r : Nat)
  /-- `cmd_wait`: load the target; compare; look for subscribers; compare again after each wake. -/
  | wait (num : Nat)
  | compare (target num : Nat) (before : List (Write l))
  | lookup (target num : Nat) (before : List (Write l))
  | awaits (target num : Nat) (before : List (Write l))
  | done

namespace Primary

variable (s : Primary l)

def putReplica (r : Nat) (x : Replica l) : Primary l := { s with replicas := s.replicas.set r x }

/-- `propagate_tx.send`. -/
def broadcast (m : Message l) : Primary l := { s with replicas := s.replicas.map (Replica.push m) }

def replicasAtOrBeyond (target : Nat) : Nat := s.replicas.countP fun r => r.info.any (target ≤ ·)

/-- How many replicas hold these writes. -/
def holders (ws : List (Write l)) : Nat := s.replicas.countP fun r => ws ⊆ r.holds

/-- One step of `run_psync_mode`. -/
def sessionStep (r : Nat) (x : Replica l) : List (Primary l) :=
  match x.phase with
  | .snapshot unit =>
    if unit < l.units then
      [s.putReplica r { x with
        phase := .snapshot (unit + 1)
        snapshot := x.snapshot ++ s.mutated.filter fun w => w.unit = unit }]
    else [s.putReplica r { x with phase := .register, rdb := true }]
  | .register =>
    [{ s.putReplica r { x with phase := .subscribe, info := some x.base } with
      propagateSubscribers := s.propagateSubscribers + 1 }]
  | .subscribe => [s.putReplica r { x with phase := .stream }]
  | .stream =>
    -- A receiver that is behind by more than the capacity has lost the oldest messages.
    (if x.queue.length > CHANNEL then
        [s.putReplica r { x with queue := x.queue.drop (x.queue.length - CHANNEL) }]
      else match x.queue with
      | [] => []
      | m :: queue => [s.putReplica r { x with queue, wire := x.wire ++ [m] }]) ++
    match x.acks with
    | [] => []
    | offset :: acks => [s.putReplica r ({ x with acks }.updateOffset offset)]
  | .closed => []

/-- One step of the replica. -/
def replicaStep (r : Nat) (x : Replica l) : List (Primary l) :=
  if x.loaded then
    (List.range ((x.wire.map Message.size).sum - x.read)).map fun n => s.putReplica r (x.receive (n + 1))
  else if x.rdb then [s.putReplica r { x with loaded := true, offset := x.base }]
  else []

/-- The connection of a session is lost: its receiver is dropped, and it is unregistered. -/
def disconnectStep (r : Nat) (x : Replica l) : Primary l :=
  { s.putReplica r { x with phase := .closed, info := none, queue := [] } with
    propagateSubscribers := s.propagateSubscribers - x.info.isSome.toNat }

end Primary

open Primary in
/-- The next atomic step. -/
def next (s : Primary l) : Task l → List (Primary l × Task l)
  | .test db key bytes nonempty =>
    [(s, .dispatch db key bytes nonempty (s.propagateSubscribers > 0))]
  | .dispatch db key bytes nonempty propagate =>
    let w : Write l := ⟨s.mutated.length, db, key, bytes, nonempty⟩
    -- Or the reply is an error.
    [({ s with mutated := s.mutated ++ [w] }, .send w propagate), (s, .done)]
  | .send w propagate =>
    if propagate && s.replicas.any Replica.subscribed then
      [({ s.broadcast (.write w) with sent := s.sent ++ [w] }, .count w)]
    else [({ s with acknowledged := s.acknowledged ++ [w] }, .done)]
  | .count w =>
    [({ s with
        replicationOffset := s.replicationOffset + w.size
        acknowledged := s.acknowledged ++ [w] }, .done)]
  | .psync =>
    [({ s with replicas := s.replicas ++ [.new s.replicationOffset] }, .session s.replicas.length)]
  | .session r => (s.replicas[r]?.elim [] (s.sessionStep r)).map (·, .session r)
  | .replica r => (s.replicas[r]?.elim [] (s.replicaStep r)).map (·, .replica r)
  | .disconnect r => (s.replicas[r]?.elim [] fun x => [s.disconnectStep r x]).map (·, .done)
  | .wait num =>
    [({ s with waits := s.waits ++ [(s.replicationOffset, s.sent)] },
      .compare s.replicationOffset num s.sent)]
  | .compare target num before =>
    let acked := s.replicasAtOrBeyond target
    if num = 0 || acked ≥ num then [({ s with returned := s.returned ++ [(before, acked)] }, .done)]
    else [(s, .lookup target num before)]
  | .lookup target num before =>
    if s.propagateSubscribers = 0 then [({ s with returned := s.returned ++ [(before, 0)] }, .done)]
    else [(s.broadcast .getack, .awaits target num before)]
  | .awaits target num before =>
    let acked := s.replicasAtOrBeyond target
    if acked ≥ num then [({ s with returned := s.returned ++ [(before, acked)] }, .done)]
    else
      -- The deadline has passed, or the replicas are asked again.
      [({ s with returned := s.returned ++ [(before, acked)] }, .done),
        (s.broadcast .getack, .awaits target num before)]
  | .done => []

/-- What can begin: a write, a session, a replica's end of a connection, its loss, a WAIT. -/
def entry : Task l → Bool
  | .test .. | .psync | .replica _ | .disconnect _ | .wait _ => true
  | _ => false

/-- A store of one shard, for runs on fixed inputs. -/
def oneShard : Layout := ⟨1, 1, Nat.one_pos⟩

/-- `SET a 1`. -/
def setA : Task oneShard :=
  .test ⟨0, Nat.one_pos⟩ [97] (Utf8.asBytes "*3\r\n$3\r\nSET\r\n$1\r\na\r\n$1\r\n1\r\n") (by decide)

/-- The write a task has still to send. -/
def Task.sending : Task l → Option (Write l)
  | .send w _ => some w
  | _ => none

/-- The write a task has still to count. -/
def Task.counting : Task l → Option (Write l)
  | .count w => some w
  | _ => none

/-- No receiver is full. -/
def Primary.Room (s : Primary l) : Prop :=
  ∀ r ∈ s.replicas, r.subscribed = true → r.queue.length < CHANNEL

instance (s : Primary l) : Decidable s.Room :=
  inferInstanceAs (Decidable (∀ r ∈ s.replicas, r.subscribed = true → r.queue.length < CHANNEL))

theorem Replica.copied_of_subscribed {r : Replica l} (h : r.subscribed = true) (w : Write l) :
    r.copied w = true := by
  rw [Replica.copied, of_decide_eq_true h]

/-! ## What the steps of a session do -/

/-- What `run_psync_mode` does to its session. -/
inductive SessionStep (mutated : List (Write l)) (x : Replica l) : Replica l → Prop where
  | copy {unit : Nat} (here : x.phase = .snapshot unit) (more : unit < l.units) :
    SessionStep mutated x { x with
      phase := .snapshot (unit + 1)
      snapshot := x.snapshot ++ mutated.filter fun w => w.unit = unit }
  | copied {unit : Nat} (here : x.phase = .snapshot unit) (all : l.units ≤ unit) :
    SessionStep mutated x { x with phase := .register, rdb := true }
  | register (here : x.phase = .register) :
    SessionStep mutated x { x with phase := .subscribe, info := some x.base }
  | subscribe (here : x.phase = .subscribe) : SessionStep mutated x { x with phase := .stream }
  | lag (here : x.phase = .stream) (full : x.queue.length > CHANNEL) :
    SessionStep mutated x { x with queue := x.queue.drop (x.queue.length - CHANNEL) }
  | recv {m : Message l} {queue : List (Message l)} (here : x.phase = .stream) (head : x.queue = m :: queue) :
    SessionStep mutated x { x with queue, wire := x.wire ++ [m] }
  | ack {offset : Nat} {acks : List Nat} (here : x.phase = .stream) (head : x.acks = offset :: acks) :
    SessionStep mutated x ({ x with acks }.updateOffset offset)

variable {s s' : Primary l} {r : Nat} {x : Replica l}

theorem sessionStep_cases (h : s' ∈ s.sessionStep r x) :
    ∃ x' n, s' = { s with replicas := s.replicas.set r x', propagateSubscribers := n } ∧
      SessionStep s.mutated x x' := by
  unfold Primary.sessionStep at h
  split at h
  case h_1 unit here =>
    split at h
    · rw [List.mem_singleton.1 h]
      exact ⟨_, _, rfl, .copy here ‹_›⟩
    · rw [List.mem_singleton.1 h]
      exact ⟨_, _, rfl, .copied here (Nat.le_of_not_lt ‹_›)⟩
  case h_2 here =>
    rw [List.mem_singleton.1 h]
    exact ⟨_, _, rfl, .register here⟩
  case h_3 here =>
    rw [List.mem_singleton.1 h]
    exact ⟨_, _, rfl, .subscribe here⟩
  case h_4 here =>
    rcases List.mem_append.1 h with h | h
    · split at h
      · rw [List.mem_singleton.1 h]
        exact ⟨_, _, rfl, .lag here ‹_›⟩
      · split at h
        · cases h
        · rename_i head
          rw [List.mem_singleton.1 h]
          exact ⟨_, _, rfl, .recv here head⟩
    · split at h
      · cases h
      · rename_i head
        rw [List.mem_singleton.1 h]
        exact ⟨_, _, rfl, .ack here head⟩
  case h_5 => cases h

theorem replicaStep_cases (h : s' ∈ s.replicaStep r x) :
    (x.loaded = true ∧ ∃ n, n < (x.wire.map Message.size).sum - x.read ∧ s' = s.putReplica r (x.receive (n + 1))) ∨
      x.loaded = false ∧ x.rdb = true ∧ s' = s.putReplica r { x with loaded := true, offset := x.base } := by
  unfold Primary.replicaStep at h
  split at h
  · obtain ⟨n, inside, rfl⟩ := List.mem_map.1 h
    exact .inl ⟨‹_›, n, List.mem_range.1 inside, rfl⟩
  · split at h
    · exact .inr ⟨Bool.eq_false_of_not_eq_true ‹_›, ‹_›, List.mem_singleton.1 h⟩
    · cases h

/-- What a task can do in one step. -/
inductive Step (s : Primary l) : Task l → Primary l → Task l → Prop where
  | test {db key bytes nonempty} :
    Step s (.test db key bytes nonempty) s (.dispatch db key bytes nonempty (s.propagateSubscribers > 0))
  | mutate {db key bytes nonempty propagate} :
    Step s (.dispatch db key bytes nonempty propagate)
      { s with mutated := s.mutated ++ [⟨s.mutated.length, db, key, bytes, nonempty⟩] }
      (.send ⟨s.mutated.length, db, key, bytes, nonempty⟩ propagate)
  | fail {db key bytes nonempty propagate} : Step s (.dispatch db key bytes nonempty propagate) s .done
  | send {w} (somebody : s.replicas.any Replica.subscribed = true) :
    Step s (.send w true) { s.broadcast (.write w) with sent := s.sent ++ [w] } (.count w)
  | skip {w propagate} (nobody : ∀ r ∈ s.replicas, (propagate && r.subscribed) = false) :
    Step s (.send w propagate) { s with acknowledged := s.acknowledged ++ [w] } .done
  | count {w} : Step s (.count w)
    { s with replicationOffset := s.replicationOffset + w.size, acknowledged := s.acknowledged ++ [w] } .done
  | psync : Step s .psync { s with replicas := s.replicas ++ [.new s.replicationOffset] }
    (.session s.replicas.length)
  | session {i y y' n} (found : s.replicas[i]? = some y) (step : SessionStep s.mutated y y') :
    Step s (.session i) { s with replicas := s.replicas.set i y', propagateSubscribers := n } (.session i)
  | load {i y} (found : s.replicas[i]? = some y) (rdb : y.rdb = true) (first : y.loaded = false) :
    Step s (.replica i) (s.putReplica i { y with loaded := true, offset := y.base }) (.replica i)
  | receive {i y n} (found : s.replicas[i]? = some y) (loaded : y.loaded = true)
    (there : n < (y.wire.map Message.size).sum - y.read) :
    Step s (.replica i) (s.putReplica i (y.receive (n + 1))) (.replica i)
  | disconnect {i y} (found : s.replicas[i]? = some y) : Step s (.disconnect i) (s.disconnectStep i y) .done
  | wait {num} : Step s (.wait num) { s with waits := s.waits ++ [(s.replicationOffset, s.sent)] }
    (.compare s.replicationOffset num s.sent)
  | compared {target num before} : Step s (.compare target num before)
    { s with returned := s.returned ++ [(before, s.replicasAtOrBeyond target)] } .done
  | short {target num before} : Step s (.compare target num before) s (.lookup target num before)
  | alone {target num before} : Step s (.lookup target num before)
    { s with returned := s.returned ++ [(before, 0)] } .done
  | ask {target num before} :
    Step s (.lookup target num before) (s.broadcast .getack) (.awaits target num before)
  | woken {target num before} : Step s (.awaits target num before)
    { s with returned := s.returned ++ [(before, s.replicasAtOrBeyond target)] } .done
  | askAgain {target num before} :
    Step s (.awaits target num before) (s.broadcast .getack) (.awaits target num before)

/-- A step of one of the tasks that act on one replica. -/
theorem mem_next_replica {step : Replica l → List (Primary l)} {t t' : Task l}
    (h : (s', t') ∈ (s.replicas[r]?.elim [] step).map (·, t)) :
    ∃ x, s.replicas[r]? = some x ∧ s' ∈ step x ∧ t' = t := by
  obtain ⟨q, mem, same⟩ := List.mem_map.1 h
  cases same
  cases found : s.replicas[r]? with
  | none =>
    rw [found] at mem
    cases mem
  | some x =>
    rw [found] at mem
    exact ⟨x, rfl, mem, rfl⟩

theorem step_of_mem_next {t t' : Task l} (mem : (s', t') ∈ next s t) : Step s t s' t' := by
  cases t with
  | test db key bytes nonempty =>
    cases List.mem_singleton.1 mem
    exact .test
  | dispatch db key bytes nonempty propagate =>
    rcases List.mem_cons.1 mem with same | mem
    · cases same
      exact .mutate
    · cases List.mem_singleton.1 mem
      exact .fail
  | send w propagate =>
    simp only [next] at mem
    split at mem
    · rename_i delivered
      obtain ⟨rfl, somebody⟩ := Bool.and_eq_true_iff.1 delivered
      cases List.mem_singleton.1 mem
      exact .send somebody
    · rename_i nobody
      cases List.mem_singleton.1 mem
      refine .skip fun r hr => ?_
      rw [Bool.not_eq_true, Bool.and_eq_false_iff, List.any_eq_false] at nobody
      rw [Bool.and_eq_false_iff]
      exact nobody.imp id fun off => Bool.eq_false_of_not_eq_true (off r hr)
  | count w =>
    cases List.mem_singleton.1 mem
    exact .count
  | psync =>
    cases List.mem_singleton.1 mem
    exact .psync
  | session r =>
    obtain ⟨x, found, step, rfl⟩ := mem_next_replica mem
    obtain ⟨x', n, rfl, session⟩ := sessionStep_cases step
    exact .session found session
  | replica r =>
    obtain ⟨x, found, step, rfl⟩ := mem_next_replica mem
    rcases replicaStep_cases step with ⟨loaded, n, there, rfl⟩ | ⟨first, rdb, rfl⟩
    · exact .receive found loaded there
    · exact .load found rdb first
  | disconnect r =>
    obtain ⟨x, found, step, rfl⟩ := mem_next_replica mem
    cases List.mem_singleton.1 step
    exact .disconnect found
  | wait num =>
    cases List.mem_singleton.1 mem
    exact .wait
  | compare target num before =>
    simp only [next] at mem
    split at mem
    · cases List.mem_singleton.1 mem
      exact .compared
    · cases List.mem_singleton.1 mem
      exact .short
  | lookup target num before =>
    simp only [next] at mem
    split at mem
    · cases List.mem_singleton.1 mem
      exact .alone
    · cases List.mem_singleton.1 mem
      exact .ask
  | awaits target num before =>
    simp only [next] at mem
    split at mem
    · cases List.mem_singleton.1 mem
      exact .woken
    · rcases List.mem_cons.1 mem with same | mem
      · cases same
        exact .woken
      · cases List.mem_singleton.1 mem
        exact .askAgain
  | done => cases mem

theorem forall_mem_set {P : Replica l → Prop} {rs : List (Replica l)} (h : ∀ y ∈ rs, P y) (x : Replica l)
    (hx : P x) : ∀ y ∈ rs.set r x, P y := by
  intro y hy
  rcases List.mem_or_eq_of_mem_set hy with old | rfl
  · exact h y old
  · exact hx

/-! ## What the parser does -/

theorem Replica.consume_append (n read : Nat) (wire : List (Message l)) :
    (consume n read wire).1 ++ (consume n read wire).2.2 = wire := by
  induction wire generalizing n read with
  | nil => rfl
  | cons m rest ih =>
    unfold consume
    split
    · rfl
    · exact congrArg (m :: ·) (ih _ 0)

theorem writes_append (ms ms' : List (Message l)) : writes (ms ++ ms') = writes ms ++ writes ms' :=
  List.filterMap_append

theorem Replica.stream_receive (x : Replica l) (n : Nat) : (x.receive n).stream = x.stream := by
  have parts : writes x.wire = writes (consume n x.read x.wire).1 ++ writes (consume n x.read x.wire).2.2 := by
    rw [← writes_append, consume_append]
  unfold stream
  rw [parts]
  simp only [receive, List.append_assoc]

end Replication

end NexradeCache
