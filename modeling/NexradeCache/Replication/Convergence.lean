import Mathlib.Data.Finset.Basic
import Mathlib.Data.Finset.Lattice.Lemmas
import NexradeCache.Lib.Replay
import NexradeCache.Replication.Primary
import NexradeCache.Server.Connection

/-!
# When a replica has what its primary has (`Connection::run` and `run_psync_mode` of
`nexrade-server/src/connection.rs`, `connect_to_primary` of `nexrade-server/src/listener.rs`)

One primary with its clients, and one replica with any keyspace of its own. A command that a client
sends is dispatched and, if it is a write and has no error, sent on; what EXEC and scripts dispatch is
not. The replica inserts the snapshot into what it has and applies every command of the stream in
database 0. Messages are delivered in order and none is dropped.

What a command does is open, except that it depends on the store and the arguments only. So the keyspaces
have no time: a key counts as there until a command deletes it, and `Content.live` says what is seen of
it. The fields `mutations` and `pending` record the history; no step depends on them.
-/

namespace NexradeCache

open Interleave Replay Trace

namespace Replication

variable {l : Layout}

/-! ## State -/

/-- The shard of a key. -/
def shardOf (l : Layout) (key : Bytes) : Nat := fnv1a key &&& (l.numShards - 1)

/-- The entries of a database: finitely many keys have one. -/
structure Entries where
  entry : Keyspace
  keys : Finset Bytes
  complete : ∀ key, key ∈ keys ↔ (entry key).isSome = true

namespace Entries

@[ext] theorem ext {a b : Entries} (same : ∀ key, a.entry key = b.entry key) : a = b := by
  obtain ⟨entry, keys, complete⟩ := a
  obtain ⟨entry', keys', complete'⟩ := b
  obtain rfl : entry = entry' := funext same
  obtain rfl : keys = keys' := Finset.ext fun key => (complete key).trans (complete' key).symm
  rfl

def empty : Entries := ⟨fun _ => none, ∅, by simp⟩

/-- Each entry of `new` is inserted. -/
def insertAll (new old : Entries) : Entries where
  entry key := (new.entry key).or (old.entry key)
  keys := new.keys ∪ old.keys
  complete key := by simp [new.complete, old.complete]

/-- The entries of one shard. -/
def shard (l : Layout) (i : Nat) (db : Entries) : Entries where
  entry key := if shardOf l key = i then db.entry key else none
  keys := db.keys.filter (shardOf l · = i)
  complete key := by
    rw [Finset.mem_filter, db.complete]
    split <;> simp_all

@[simp] theorem insertAll_entry (new old : Entries) (key : Bytes) :
    (new.insertAll old).entry key = (new.entry key).or (old.entry key) := rfl

@[simp] theorem shard_entry (l : Layout) (i : Nat) (db : Entries) (key : Bytes) :
    (db.shard l i).entry key = if shardOf l key = i then db.entry key else none := rfl

theorem insertAll_eq {new old : Entries} (known : old.keys ⊆ new.keys) : new.insertAll old = new := by
  ext1 key
  rw [insertAll_entry]
  cases found : new.entry key with
  | some c => rfl
  | none =>
    cases own : old.entry key with
    | none => rfl
    | some c =>
      have inside := known ((old.complete key).2 (by rw [own]; rfl))
      rw [new.complete, found] at inside
      cases inside

theorem entry_of_bare {i : Nat} {db : Entries} {key : Bytes} (bare : (db.shard l i).keys = ∅)
    (place : shardOf l key = i) : db.entry key = none := by
  have outside : key ∉ (db.shard l i).keys := by rw [bare]; exact Finset.notMem_empty key
  rw [(db.shard l i).complete, shard_entry, if_pos place] at outside
  simpa using outside

end Entries

abbrev Keyspaces (l : Layout) := Fin l.dbCount → Entries

/-- What the commands do. -/
structure Commands (l : Layout) where
  positive : 0 < l.dbCount
  exec : Fin l.dbCount → List Resp → Keyspaces l → Keyspaces l × Resp

/-- A command of the stream, on the replica. -/
def Commands.apply (cmds : Commands l) (args : List Resp) (k : Keyspaces l) : Keyspaces l :=
  (cmds.exec ⟨0, cmds.positive⟩ args k).1

/-- Where `run_psync_mode` is, if the replica has come. -/
inductive Sync where
  | idle
  /-- `is_empty` of a database: the next shard to look at. -/
  | scan (db shard : Nat)
  /-- `snapshot` of a database: the next shard to copy. -/
  | copy (db shard : Nat)
  | register
  | subscribe
  | stream
deriving DecidableEq, Repr

/-- The primary counts a subscriber. -/
def Sync.registered : Sync → Bool
  | .subscribe | .stream => true
  | _ => false

/-- The snapshot was sent. -/
def Sync.sent : Sync → Bool
  | .register | .subscribe | .stream => true
  | _ => false

/-- A primary and its replica, with what is on its way between them. -/
structure Pair (l : Layout) where
  primary : Keyspaces l
  replica : Keyspaces l
  sync : Sync
  /-- What is copied of the snapshot. -/
  rdb : Keyspaces l
  loaded : Bool
  /-- The commands on their way to the replica. -/
  stream : List (List Resp)
  mutations : Nat
  pending : List (Pending (List Resp))

/-- The replica comes with what it has. -/
def Pair.start (primary replica : Keyspaces l) : Pair l :=
  ⟨primary, replica, .idle, fun _ => .empty, false, [], 0, []⟩

/-! ## Steps -/

/-- The next step of a task. -/
inductive Client (l : Layout) where
  /-- A command of a client: test for subscribers, dispatch, send. -/
  | test (db : Fin l.dbCount) (args : List Resp)
  | dispatch (db : Fin l.dbCount) (args : List Resp) (propagate : Bool)
  | send (args : List Resp) (id : Nat)
  /-- The commands that an EXEC has left to dispatch. -/
  | queue (db : Fin l.dbCount) (cmds : List (List Resp))
  /-- A script of EVAL, EVALSHA or FCALL. -/
  | script (db : Fin l.dbCount) (run : LuaRun)
  /-- `run_psync_mode`, and the replica. -/
  | psync
  | done

/-- One step of `run_psync_mode`. A database that `is_empty` finds empty is not copied. -/
def Pair.sessionStep (s : Pair l) : List (Pair l) :=
  match s.sync with
  | .idle => [{ s with sync := .scan 0 0, rdb := fun _ => .empty }]
  | .scan db shard =>
    if inside : db < l.dbCount then
      if shard < l.numShards then
        if ((s.primary ⟨db, inside⟩).shard l shard).keys = ∅ then [{ s with sync := .scan db (shard + 1) }]
        else [{ s with sync := .copy db 0 }]
      else [{ s with sync := .scan (db + 1) 0 }]
    else [{ s with sync := .register }]
  | .copy db shard =>
    if shard < l.numShards then
      [{ s with
          sync := .copy db (shard + 1)
          rdb := fun i => if i = db then ((s.primary i).shard l shard).insertAll (s.rdb i) else s.rdb i }]
    else [{ s with sync := .scan (db + 1) 0 }]
  | .register => [{ s with sync := .subscribe }]
  | .subscribe => [{ s with sync := .stream }]
  | .stream => []

/-- One step of the replica. -/
def Pair.replicaStep (cmds : Commands l) (s : Pair l) : List (Pair l) :=
  if s.loaded then
    match s.stream with
    | [] => []
    | args :: stream => [{ s with replica := cmds.apply args s.replica, stream }]
  else if s.sync.sent then [{ s with replica := fun db => (s.rdb db).insertAll (s.replica db), loaded := true }]
  else []

def Pair.next (cmds : Commands l) (s : Pair l) : Client l → List (Pair l × Client l)
  | .test db args => [(s, .dispatch db args (s.sync.registered && isWriteCommand (cmdName args)))]
  | .dispatch db args propagate =>
    let (primary, reply) := cmds.exec db args s.primary
    if propagate && !reply.isError then
      [({ s with primary, mutations := s.mutations + 1, pending := s.pending ++ [⟨s.mutations, args⟩] },
        .send args s.mutations)]
    else [({ s with primary }, .done)]
  | .send args id =>
    -- Without a receiver the command is lost.
    let stream := if s.sync = .stream then s.stream ++ [args] else s.stream
    [({ s with stream, pending := settle s.pending id }, .done)]
  | .queue _ [] => [(s, .done)]
  | .queue db (args :: rest) => [({ s with primary := (cmds.exec db args s.primary).1 }, .queue db rest)]
  | .script _ (.ret _) => [(s, .done)]
  | .script db (.call args next) =>
    let (primary, reply) := cmds.exec db args s.primary
    [({ s with primary }, .script db (next reply))]
  | .psync => (s.sessionStep ++ s.replicaStep cmds).map (·, .psync)
  | .done => []

def Client.entry : Client l → Bool
  | .test _ _ | .queue _ _ | .script _ _ | .psync => true
  | _ => false

/-! ## Convergence -/

/-- Nothing is left to do for a client. -/
def Client.finished : Client l → Bool
  | .psync | .done => true
  | _ => false

/-- Both sides are at rest. -/
structure AtRest (p : Pool (Pair l) (Client l)) : Prop where
  clients : ∀ t ∈ p.tasks, t.finished = true
  sync : p.shared.sync = .stream
  loaded : p.shared.loaded = true
  stream : p.shared.stream = []

/-- At rest the replica has the live keyspace of the primary. -/
def Converged (p : Pool (Pair l) (Client l)) : Prop :=
  AtRest p → ∀ now db key,
    Content.live now ((p.shared.replica db).entry key) = Content.live now ((p.shared.primary db).entry key)

/-- The place of its shard in the order `snapshot_dbs` copies them. -/
def unitOf (db : Fin l.dbCount) (key : Bytes) : Nat := db * l.numShards + shardOf l key

variable (l) in
/-- The session has yet to look at the shard. -/
def Sync.ahead : Sync → Nat → Bool
  | .idle, _ => true
  | .scan db shard, unit | .copy db shard, unit => db * l.numShards + shard ≤ unit
  | _, _ => false

/-- A command that is not sent on changes only what the session has yet to look at. -/
def Unsent (cmds : Commands l) (s : Pair l) (db : Fin l.dbCount) (args : List Resp) : Prop :=
  ∀ i key, ((cmds.exec db args s.primary).1 i).entry key = (s.primary i).entry key ∨
    s.sync.ahead l (unitOf i key) = true

def Fits (cmds : Commands l) (p : Pool (Pair l) (Client l)) (t : Client l) (s' : Pair l) (_ : Client l) : Prop :=
  match t with
  | .dispatch db args propagate =>
    -- The replica applies it in database 0.
    if propagate && !(cmds.exec db args p.shared.primary).2.isError then
      (cmds.exec db args p.shared.primary).1 = cmds.apply args p.shared.primary
    else Unsent cmds p.shared db args
  | .queue db (args :: _) => Unsent cmds p.shared db args
  | .script db (.call args _) => Unsent cmds p.shared db args
  | .send args id => p.shared.sync = .stream ∧ InOrder cmds.apply p.shared.pending ⟨id, args⟩
  | .psync =>
    p.shared.loaded = false → s'.loaded = true →
      ∀ db, (p.shared.replica db).keys ⊆ (p.shared.rdb db).keys
  | _ => True

/-! ## The invariant -/

/-- The command a task has on its way to the replica. -/
def Client.pending : Client l → Option (Pending (List Resp))
  | .send args id => some ⟨id, args⟩
  | _ => none

/-- The task will send what it dispatches. -/
def Client.propagates : Client l → Bool
  | .dispatch _ _ true => true
  | _ => false

/-- What the stream goes on from. -/
def Pair.base (s : Pair l) : Keyspaces l := if s.loaded then s.replica else s.rdb

variable (l) in
/-- The snapshot has nothing of the shard. -/
def Sync.blank : Sync → Nat → Bool
  | .scan db _, unit => db * l.numShards ≤ unit
  | .copy db shard, unit => db * l.numShards + shard ≤ unit || (db + 1) * l.numShards ≤ unit
  | _, _ => false

/-- **The invariant.** What is sent or still to be sent makes the replica's keyspaces those of the primary. -/
structure Follows (cmds : Commands l) (p : Pool (Pair l) (Client l)) : Prop where
  held : (p.tasks.filterMap Client.pending).Perm p.shared.pending
  distinct : (p.shared.pending.map Pending.id).Nodup
  fresh : ∀ e ∈ p.shared.pending, e.id < p.shared.mutations
  told : (∃ t ∈ p.tasks, t.propagates = true) → p.shared.sync.registered = true
  early : p.shared.sync.registered = false → p.shared.pending = []
  quiet : p.shared.sync ≠ .stream → p.shared.stream = []
  unloaded : p.shared.sync.sent = false → p.shared.loaded = false
  copied : p.shared.sync.sent = false → ∀ db key, p.shared.sync.ahead l (unitOf db key) = false →
    (p.shared.rdb db).entry key = (p.shared.primary db).entry key
  blank : ∀ db key, p.shared.sync.blank l (unitOf db key) = true → (p.shared.rdb db).entry key = none
  /-- What is on its way makes up for what the replica misses. -/
  synced : p.shared.sync.sent = true →
    all cmds.apply (p.shared.stream ++ p.shared.pending.map Pending.op) p.shared.base = p.shared.primary

section
variable {cmds : Commands l} {s s' : Pair l} {t t' : Client l} {before after : List (Client l)}

theorem shardOf_lt (l : Layout) (key : Bytes) : shardOf l key < l.numShards := by
  have inside : (fnv1a key &&& (l.numShards - 1)) ≤ l.numShards - 1 := Nat.and_le_right
  have positive := l.positive
  unfold shardOf
  omega

theorem unitOf_lt (db : Fin l.dbCount) (key : Bytes) : unitOf db key < l.dbCount * l.numShards := by
  have row : (db + 1) * l.numShards ≤ l.dbCount * l.numShards := Nat.mul_le_mul_right _ db.isLt
  have inside := shardOf_lt l key
  rw [Nat.add_mul] at row
  unfold unitOf
  omega

theorem unitOf_eq {db shard : Nat} (inside : shard < l.numShards) (i : Fin l.dbCount) (key : Bytes) :
    unitOf i key = db * l.numShards + shard ↔ i = db ∧ shardOf l key = shard := by
  have row (a b : Nat) (lt : b < l.numShards) : (a * l.numShards + b) / l.numShards = a := by
    rw [Nat.add_comm, Nat.add_mul_div_right _ _ l.positive, Nat.div_eq_of_lt lt, Nat.zero_add]
  constructor
  · intro same
    have rows := congrArg (· / l.numShards) same
    dsimp only [unitOf] at rows
    rw [row _ _ (shardOf_lt l key), row _ _ inside] at rows
    refine ⟨rows, ?_⟩
    rw [unitOf, rows] at same
    exact Nat.add_left_cancel same
  · rintro ⟨rfl, rfl⟩
    rfl

theorem propagates_cut (quiet : t'.propagates = false) (told : ∃ x ∈ before ++ t' :: after, x.propagates = true) :
    ∃ x ∈ before ++ t :: after, x.propagates = true := by
  obtain ⟨x, mem, is⟩ := told
  rcases mem_of_cut mem with rfl | old
  · rw [quiet] at is
    cases is
  · exact ⟨x, old, is⟩

theorem Sync.ahead_of_sent {sync : Sync} (sent : sync.sent = true) (unit : Nat) : sync.ahead l unit = false := by
  cases sync with
  | idle => cases sent
  | scan db shard => cases sent
  | copy db shard => cases sent
  | _ => rfl

theorem Sync.sent_of_registered {sync : Sync} (registered : sync.registered = true) : sync.sent = true := by
  cases sync with
  | subscribe => rfl
  | stream => rfl
  | _ => cases registered

/-- A step that sends nothing on and changes neither side. -/
theorem Follows.move (h : Follows cmds ⟨s, before ++ t :: after⟩) (pending : t'.pending = t.pending)
    (told : t'.propagates = true → s.sync.registered = true) : Follows cmds ⟨s, before ++ t' :: after⟩ where
  held := by
    refine (filterMap_cut Client.pending before after t').trans ?_
    rw [pending]
    exact (filterMap_cut Client.pending before after t).symm.trans h.held
  distinct := h.distinct
  fresh := h.fresh
  told some := by
    cases is : t'.propagates with
    | true => exact told is
    | false => exact h.told (propagates_cut is some)
  early := h.early
  quiet := h.quiet
  unloaded := h.unloaded
  copied := h.copied
  blank := h.blank
  synced := h.synced

theorem Follows.unsent {db : Fin l.dbCount} {args : List Resp} (h : Follows cmds ⟨s, before ++ t :: after⟩)
    (unsent : Unsent cmds s db args) (pending : t'.pending = t.pending) (quiet : t'.propagates = false) :
    Follows cmds ⟨{ s with primary := (cmds.exec db args s.primary).1 }, before ++ t' :: after⟩ := by
  have moved : Follows cmds ⟨s, before ++ t' :: after⟩ := h.move pending fun told => by rw [quiet] at told; cases told
  refine ⟨moved.held, moved.distinct, moved.fresh, moved.told, moved.early, moved.quiet, moved.unloaded, ?_, moved.blank, ?_⟩
  · intro unsent' i key behind
    rcases unsent i key with same | ahead
    · rw [same]
      exact moved.copied unsent' i key behind
    · have behind : s.sync.ahead l (unitOf i key) = false := behind
      rw [ahead] at behind
      cases behind
  · intro sent
    have sent : s.sync.sent = true := sent
    have same : (cmds.exec db args s.primary).1 = s.primary := by
      funext i
      refine Entries.ext fun key => (unsent i key).resolve_right ?_
      rw [Sync.ahead_of_sent sent]
      exact Bool.false_ne_true
    rw [same]
    exact moved.synced sent

/-- A write of database 0 that is to be sent. -/
theorem Follows.dispatch {args : List Resp} (h : Follows cmds ⟨s, before ++ t :: after⟩) (registered : s.sync.registered = true)
    (none : t.pending = none) :
    Follows cmds ⟨{ s with
      primary := cmds.apply args s.primary, mutations := s.mutations + 1
      pending := s.pending ++ [⟨s.mutations, args⟩] }, before ++ .send args s.mutations :: after⟩ := by
  have held := (filterMap_cut Client.pending before after t).symm.trans h.held
  rw [none] at held
  constructor
  · refine (filterMap_cut Client.pending before after (.send args s.mutations)).trans ?_
    exact (List.Perm.cons _ held).trans (List.perm_append_singleton _ _).symm
  · dsimp only
    rw [List.map_append, List.map_cons, List.map_nil]
    refine List.nodup_append.2 ⟨h.distinct, List.nodup_singleton _, ?_⟩
    intro id old id' new same
    obtain ⟨e, mem, rfl⟩ := List.mem_map.1 old
    have lt := h.fresh e mem
    rw [same, List.mem_singleton.1 new] at lt
    exact absurd lt (Nat.lt_irrefl _)
  · intro e mem
    rcases List.mem_append.1 mem with old | new
    · exact Nat.lt_succ_of_lt (h.fresh e old)
    · rw [List.mem_singleton.1 new]
      exact Nat.lt_succ_self _
  · exact fun _ => registered
  · intro unregistered
    have unregistered : s.sync.registered = false := unregistered
    rw [registered] at unregistered
    cases unregistered
  · exact h.quiet
  · exact h.unloaded
  · intro unsent
    have unsent : s.sync.sent = false := unsent
    rw [Sync.sent_of_registered registered] at unsent
    cases unsent
  · exact h.blank
  · intro sent
    have synced := h.synced sent
    show all cmds.apply (s.stream ++ (s.pending ++ [Pending.mk s.mutations args]).map Pending.op) s.base =
      cmds.apply args s.primary
    rw [List.map_append, ← List.append_assoc, all_append, synced]
    rfl

theorem Follows.send {args : List Resp} {id : Nat} (h : Follows cmds ⟨s, before ++ .send args id :: after⟩)
    (subscribed : s.sync = .stream) (order : InOrder cmds.apply s.pending ⟨id, args⟩) :
    Follows cmds ⟨{ s with stream := s.stream ++ [args], pending := settle s.pending id },
      before ++ .done :: after⟩ := by
  have held := (filterMap_cut Client.pending before after (.send args id)).symm.trans h.held
  have mem : Pending.mk id args ∈ s.pending := held.subset (.head _)
  obtain ⟨logged, settled⟩ := all_settle s.stream mem h.distinct order s.base
  have sub : ∀ e ∈ settle s.pending id, e ∈ s.pending := fun e inside => settled.symm.subset (.tail _ inside)
  constructor
  · refine (filterMap_cut Client.pending before after .done).trans ?_
    exact List.Perm.cons_inv (held.trans settled)
  · have ids := settled.map Pending.id
    exact (List.nodup_cons.1 (ids.nodup_iff.1 h.distinct)).2
  · exact fun e inside => h.fresh e (sub e inside)
  · exact fun told => h.told (propagates_cut rfl told)
  · intro unregistered
    have unregistered : s.sync.registered = false := unregistered
    rw [subscribed] at unregistered
    cases unregistered
  · exact fun off => absurd subscribed off
  · exact h.unloaded
  · exact h.copied
  · exact h.blank
  · intro sent
    show all cmds.apply (s.stream ++ [args] ++ (settle s.pending id).map Pending.op) s.base = s.primary
    rw [logged]
    exact h.synced sent

theorem Follows.snapshot {tasks : List (Client l)} {sync : Sync} {rdb : Keyspaces l} (h : Follows cmds ⟨s, tasks⟩)
    (before : s.sync.sent = false) (after : sync.sent = false)
    (copied : ∀ db key, sync.ahead l (unitOf db key) = false → (rdb db).entry key = (s.primary db).entry key)
    (blank : ∀ db key, sync.blank l (unitOf db key) = true → (rdb db).entry key = none) :
    Follows cmds ⟨{ s with sync, rdb }, tasks⟩ := by
  have off : s.sync.registered = false := by
    cases on : s.sync.registered with
    | false => rfl
    | true =>
      rw [Sync.sent_of_registered on] at before
      cases before
  refine ⟨h.held, h.distinct, h.fresh, ?_, fun _ => h.early off, ?_, fun _ => h.unloaded before, fun _ => copied, blank, ?_⟩
  · intro told
    have on : s.sync.registered = true := h.told told
    rw [off] at on
    cases on
  · intro _
    refine h.quiet ?_
    intro streaming
    have streaming : s.sync = .stream := streaming
    rw [streaming] at before
    cases before
  · intro sent
    have sent : sync.sent = true := sent
    rw [after] at sent
    cases sent

/-- `is_empty` of the databases, shard by shard. -/
theorem Follows.scan {tasks : List (Client l)} {db shard : Nat} (h : Follows cmds ⟨s, tasks⟩)
    (scanning : s.sync = .scan db shard) (step : s' ∈ s.sessionStep) : Follows cmds ⟨s', tasks⟩ := by
  have unsent : s.sync.sent = false := by rw [scanning]; rfl
  have copied (i : Fin l.dbCount) (key : Bytes) (lt : unitOf i key < db * l.numShards + shard) :
      (s.rdb i).entry key = (s.primary i).entry key := by
    refine h.copied unsent i key ?_
    show s.sync.ahead l (unitOf i key) = false
    rw [scanning]
    simpa [Sync.ahead] using lt
  have blank (i : Fin l.dbCount) (key : Bytes) (le : db * l.numShards ≤ unitOf i key) :
      (s.rdb i).entry key = none := by
    refine h.blank i key ?_
    show s.sync.blank l (unitOf i key) = true
    rw [scanning]
    simpa [Sync.blank] using le
  have row : (db + 1) * l.numShards = db * l.numShards + l.numShards := Nat.succ_mul _ _
  simp only [Pair.sessionStep, scanning] at step
  split at step
  · rename_i inside
    split at step
    · rename_i more
      split at step
      · -- The shard is empty, and so is its part of the snapshot.
        rename_i bare
        obtain rfl := List.mem_singleton.1 step
        refine h.snapshot unsent rfl ?_ ?_
        · intro i key behind
          have behind : unitOf i key < db * l.numShards + (shard + 1) := by simpa [Sync.ahead] using behind
          by_cases here : unitOf i key = db * l.numShards + shard
          · obtain ⟨same, place⟩ := (unitOf_eq more i key).1 here
            obtain rfl : i = ⟨db, inside⟩ := Fin.ext same
            rw [blank _ key (by omega)]
            exact (Entries.entry_of_bare bare place).symm
          · exact copied i key (by omega)
        · intro i key le
          exact blank i key (by simpa [Sync.blank] using le)
      · obtain rfl := List.mem_singleton.1 step
        refine h.snapshot unsent rfl ?_ ?_
        · intro i key behind
          have behind : unitOf i key < db * l.numShards := by simpa [Sync.ahead] using behind
          exact copied i key (by omega)
        · intro i key le
          have le : db * l.numShards ≤ unitOf i key ∨ (db + 1) * l.numShards ≤ unitOf i key := by
            simpa [Sync.blank] using le
          exact blank i key (by omega)
    · obtain rfl := List.mem_singleton.1 step
      refine h.snapshot unsent rfl ?_ ?_
      · intro i key behind
        have behind : unitOf i key < (db + 1) * l.numShards := by simpa [Sync.ahead] using behind
        exact copied i key (by omega)
      · intro i key le
        have le : (db + 1) * l.numShards ≤ unitOf i key := by simpa [Sync.blank] using le
        exact blank i key (by omega)
  · -- All databases are copied.
    rename_i done
    obtain rfl := List.mem_singleton.1 step
    have off : s.sync.registered = false := by rw [scanning]; rfl
    have early : s.pending = [] := h.early off
    have quiet : s.stream = [] := h.quiet (by simp [scanning])
    have unloaded : s.loaded = false := h.unloaded unsent
    refine ⟨h.held, h.distinct, h.fresh, ?_, fun _ => early, fun _ => quiet, ?_, ?_, ?_, ?_⟩
    · intro told
      have on : s.sync.registered = true := h.told told
      rw [off] at on
      cases on
    · intro unsent
      cases unsent
    · intro unsent
      cases unsent
    · intro _ _ blank
      cases blank
    · intro _
      show all cmds.apply (s.stream ++ s.pending.map Pending.op) s.base = s.primary
      rw [quiet, early, Pair.base, if_neg (by simp [unloaded])]
      funext i
      refine Entries.ext fun key => copied i key ?_
      have lt := unitOf_lt i key
      have rows : l.dbCount * l.numShards ≤ db * l.numShards := Nat.mul_le_mul_right _ (Nat.le_of_not_lt done)
      omega

/-- `snapshot` of a database, shard by shard. -/
theorem Follows.copy {tasks : List (Client l)} {db shard : Nat} (h : Follows cmds ⟨s, tasks⟩)
    (copying : s.sync = .copy db shard) (step : s' ∈ s.sessionStep) : Follows cmds ⟨s', tasks⟩ := by
  have unsent : s.sync.sent = false := by rw [copying]; rfl
  have copied (i : Fin l.dbCount) (key : Bytes) (lt : unitOf i key < db * l.numShards + shard) :
      (s.rdb i).entry key = (s.primary i).entry key := by
    refine h.copied unsent i key ?_
    show s.sync.ahead l (unitOf i key) = false
    rw [copying]
    simpa [Sync.ahead] using lt
  have blank (i : Fin l.dbCount) (key : Bytes)
      (le : db * l.numShards + shard ≤ unitOf i key ∨ (db + 1) * l.numShards ≤ unitOf i key) :
      (s.rdb i).entry key = none := by
    refine h.blank i key ?_
    show s.sync.blank l (unitOf i key) = true
    rw [copying]
    simpa [Sync.blank] using le
  have row : (db + 1) * l.numShards = db * l.numShards + l.numShards := Nat.succ_mul _ _
  simp only [Pair.sessionStep, copying] at step
  split at step
  · rename_i more
    obtain rfl := List.mem_singleton.1 step
    have taken (i : Fin l.dbCount) (key : Bytes) :
        (if i.val = db then ((s.primary i).shard l shard).insertAll (s.rdb i) else s.rdb i).entry key =
          if unitOf i key = db * l.numShards + shard then ((s.primary i).entry key).or ((s.rdb i).entry key)
          else (s.rdb i).entry key := by
      have here : unitOf i key = db * l.numShards + shard ↔ _ := unitOf_eq more i key
      by_cases same : i.val = db
      · rw [if_pos same, Entries.insertAll_entry, Entries.shard_entry]
        by_cases place : shardOf l key = shard
        · rw [if_pos (here.2 ⟨same, place⟩), if_pos place]
        · rw [if_neg fun unit => place (here.1 unit).2, if_neg place]
          rfl
      · rw [if_neg same, if_neg fun unit => same (here.1 unit).1]
    refine h.snapshot unsent rfl ?_ ?_
    · intro i key behind
      have behind : unitOf i key < db * l.numShards + (shard + 1) := by simpa [Sync.ahead] using behind
      rw [taken]
      split
      · rename_i here
        rw [blank i key (by omega), Option.or_none]
      · exact copied i key (by omega)
    · intro i key le
      have le : db * l.numShards + (shard + 1) ≤ unitOf i key ∨ (db + 1) * l.numShards ≤ unitOf i key := by
        simpa [Sync.blank] using le
      rw [taken, if_neg (by omega)]
      exact blank i key (by omega)
  · obtain rfl := List.mem_singleton.1 step
    refine h.snapshot unsent rfl ?_ ?_
    · intro i key behind
      have behind : unitOf i key < (db + 1) * l.numShards := by simpa [Sync.ahead] using behind
      exact copied i key (by omega)
    · intro i key le
      have le : (db + 1) * l.numShards ≤ unitOf i key := by simpa [Sync.blank] using le
      exact blank i key (.inr le)

theorem Follows.session {tasks : List (Client l)} (h : Follows cmds ⟨s, tasks⟩) (step : s' ∈ s.sessionStep) :
    Follows cmds ⟨s', tasks⟩ := by
  cases at_ : s.sync with
  | idle =>
    simp only [Pair.sessionStep, at_] at step
    obtain rfl := List.mem_singleton.1 step
    refine h.snapshot (by rw [at_]; rfl) rfl ?_ ?_
    · intro i key behind
      simp [Sync.ahead] at behind
    · exact fun _ _ _ => rfl
  | scan db shard => exact h.scan at_ step
  | copy db shard => exact h.copy at_ step
  | register =>
    simp only [Pair.sessionStep, at_] at step
    obtain rfl := List.mem_singleton.1 step
    have early : s.pending = [] := h.early (by simp [at_, Sync.registered])
    have quiet : s.stream = [] := h.quiet (by simp [at_])
    refine ⟨h.held, h.distinct, h.fresh, fun _ => rfl, fun _ => early, fun _ => quiet, ?_, ?_, ?_, ?_⟩
    · intro unsent
      cases unsent
    · intro unsent
      cases unsent
    · intro _ _ blank
      cases blank
    · exact fun _ => h.synced (by rw [at_]; rfl)
  | subscribe =>
    simp only [Pair.sessionStep, at_] at step
    obtain rfl := List.mem_singleton.1 step
    refine ⟨h.held, h.distinct, h.fresh, fun _ => rfl, ?_, fun off => absurd rfl off, ?_, ?_, ?_, ?_⟩
    · intro off
      cases off
    · intro unsent
      cases unsent
    · intro unsent
      cases unsent
    · intro _ _ blank
      cases blank
    · exact fun _ => h.synced (by rw [at_]; rfl)
  | stream =>
    simp only [Pair.sessionStep, at_] at step
    cases step

theorem Follows.replica {tasks : List (Client l)} (h : Follows cmds ⟨s, tasks⟩) (step : s' ∈ s.replicaStep cmds)
    (known : s.loaded = false → s'.loaded = true → ∀ db, (s.replica db).keys ⊆ (s.rdb db).keys) :
    Follows cmds ⟨s', tasks⟩ := by
  unfold Pair.replicaStep at step
  split at step
  · rename_i loaded
    split at step
    · cases step
    · rename_i args stream next
      obtain rfl := List.mem_singleton.1 step
      refine ⟨h.held, h.distinct, h.fresh, h.told, h.early, ?_, h.unloaded, h.copied, h.blank, ?_⟩
      · intro off
        have quiet : s.stream = [] := h.quiet off
        rw [quiet] at next
        cases next
      · intro sent
        have synced := h.synced sent
        dsimp only at synced
        rw [next, Pair.base, if_pos loaded] at synced
        show all cmds.apply (stream ++ s.pending.map Pending.op)
          (if s.loaded then cmds.apply args s.replica else s.rdb) = s.primary
        rw [if_pos loaded]
        exact synced
  · rename_i unloaded
    have unloaded : s.loaded = false := by simpa using unloaded
    split at step
    · rename_i sent
      obtain rfl := List.mem_singleton.1 step
      refine ⟨h.held, h.distinct, h.fresh, h.told, h.early, h.quiet, ?_, h.copied, h.blank, ?_⟩
      · intro off
        have off : s.sync.sent = false := off
        rw [sent] at off
        cases off
      · intro _
        have synced := h.synced sent
        dsimp only at synced
        rw [Pair.base, if_neg (by simp [unloaded])] at synced
        have same : (fun db => (s.rdb db).insertAll (s.replica db)) = s.rdb :=
          funext fun db => Entries.insertAll_eq (known unloaded rfl db)
        show all cmds.apply (s.stream ++ s.pending.map Pending.op) (fun db => (s.rdb db).insertAll (s.replica db)) =
          s.primary
        rw [same]
        exact synced
    · cases step

theorem start_follows (primary replica : Keyspaces l) : Follows cmds ⟨.start primary replica, []⟩ where
  held := List.Perm.refl _
  distinct := List.nodup_nil
  fresh := by
    intro e mem
    cases mem
  told := by
    rintro ⟨t, mem, _⟩
    cases mem
  early _ := rfl
  quiet _ := rfl
  unloaded _ := rfl
  copied := by
    intro _ db key behind
    cases behind
  blank := by
    intro db key blank
    cases blank
  synced := by
    intro sent
    cases sent

theorem Follows.spawn {tasks : List (Client l)} (h : Follows cmds ⟨s, tasks⟩) (begins : t.entry = true) :
    Follows cmds ⟨s, tasks ++ [t]⟩ := by
  obtain ⟨pending, quiet⟩ : t.pending = none ∧ t.propagates = false := by
    cases t with
    | dispatch db args propagate => cases begins
    | send args id => cases begins
    | done => cases begins
    | _ => exact ⟨rfl, rfl⟩
  refine ⟨?_, h.distinct, h.fresh, ?_, h.early, h.quiet, h.unloaded, h.copied, h.blank, h.synced⟩
  · rw [List.filterMap_append, List.filterMap_cons, pending, List.filterMap_nil, List.append_nil]
    exact h.held
  · rintro ⟨x, mem, is⟩
    rcases List.mem_append.1 mem with old | new
    · exact h.told ⟨x, old, is⟩
    · rw [List.mem_singleton.1 new, quiet] at is
      cases is

theorem Follows.step (h : Follows cmds ⟨s, before ++ t :: after⟩) (mem : (s', t') ∈ s.next cmds t)
    (fits : Fits cmds ⟨s, before ++ t :: after⟩ t s' t') : Follows cmds ⟨s', before ++ t' :: after⟩ := by
  cases t with
  | test db args =>
    cases List.mem_singleton.1 mem
    refine h.move rfl ?_
    intro told
    cases on : s.sync.registered with
    | true => rfl
    | false =>
      rw [on] at told
      cases told
  | dispatch db args propagate =>
    simp only [Pair.next] at mem
    simp only [Fits] at fits
    split at mem
    · rename_i sends
      rw [if_pos sends] at fits
      cases List.mem_singleton.1 mem
      have told : propagate = true := (Bool.and_eq_true_iff.1 sends).1
      rw [fits]
      refine h.dispatch (h.told ⟨.dispatch db args propagate, by simp, ?_⟩) rfl
      rw [told]
      rfl
    · rename_i silent
      rw [if_neg silent] at fits
      cases List.mem_singleton.1 mem
      exact h.unsent fits rfl rfl
  | send args id =>
    obtain ⟨subscribed, order⟩ := fits
    have subscribed : s.sync = .stream := subscribed
    simp only [Pair.next, if_pos subscribed] at mem
    cases List.mem_singleton.1 mem
    exact h.send subscribed order
  | queue db rest =>
    cases rest with
    | nil =>
      cases List.mem_singleton.1 mem
      exact h.move rfl fun told => by cases told
    | cons args rest =>
      cases List.mem_singleton.1 mem
      exact h.unsent fits rfl rfl
  | script db run =>
    cases run with
    | ret reply =>
      cases List.mem_singleton.1 mem
      exact h.move rfl fun told => by cases told
    | call args next =>
      cases List.mem_singleton.1 mem
      exact h.unsent fits rfl rfl
  | psync =>
    obtain ⟨s'', moved, same⟩ := List.mem_map.1 mem
    cases same
    rcases List.mem_append.1 moved with session | replica
    · exact h.session session
    · exact h.replica replica fits
  | done => cases mem

theorem Follows.converged {p : Pool (Pair l) (Client l)} (h : Follows cmds p) : Converged p := by
  intro rest now db key
  have nothing : p.tasks.filterMap Client.pending = [] := by
    refine List.filterMap_eq_nil_iff.2 fun t mem => ?_
    cases t with
    | psync => rfl
    | done => rfl
    | _ => cases rest.clients _ mem
  have held := h.held
  rw [nothing] at held
  have synced := h.synced (by rw [rest.sync]; rfl)
  rw [rest.stream, held.nil_eq.symm, Pair.base, if_pos rest.loaded] at synced
  have same : p.shared.replica = p.shared.primary := synced
  rw [same]

end

/-- **Replication converges** in every schedule whose steps fit. At rest the replica has what the primary has, in
every database: the snapshot it has loaded, the stream behind it and the writes that are still on their way lead to
the store of the primary at every moment, and at rest nothing is on its way. -/
theorem converges {cmds : Commands l} {primary replica : Keyspaces l} {turns : List (Interleave.Turn (Client l))}
    (meets : Always (Pool.advance (Pair.next cmds) Client.entry) (fun t p => p.Meets (Pair.next cmds) (Fits cmds) t) turns
      ⟨.start primary replica, []⟩) :
    Converged (run (Pool.advance (Pair.next cmds) Client.entry) turns ⟨.start primary replica, []⟩) :=
  (advance_invariant meets (start_follows primary replica) Follows.spawn Follows.step).converged

/-! ## A transaction that is not sent on -/

def Entries.single (key : Bytes) (c : Content) : Entries where
  entry x := if x = key then some c else none
  keys := {key}
  complete x := by
    rw [Finset.mem_singleton]
    split <;> simp_all

def twoDatabases : Layout := ⟨2, 1, by decide⟩

def firstDatabase : Fin twoDatabases.dbCount := ⟨0, by decide⟩

/-- SET of a key without options. -/
def onlySet : Commands twoDatabases where
  positive := by decide
  exec db args k :=
    match args with
    | [_, .bulkString (some key), .bulkString (some value)] =>
      (fun i => if i = db then (Entries.single key (.string value, none)).insertAll (k i) else k i, ok)
    | _ => (k, .error "ERR syntax error")

def keyText : Bytes := Utf8.asBytes "k"

def setText : List Resp :=
  [.bulkString (some (Utf8.asBytes "SET")), .bulkString (some keyText), .bulkString (some (Utf8.asBytes "v"))]

/-- One key in database 0. -/
def oneEntry : Keyspaces twoDatabases := fun db =>
  if db.val = 0 then .single keyText (.string (Utf8.asBytes "u"), none) else .empty

/-- The replica comes, syncs and loads the snapshot. -/
def attach : List (Interleave.Turn (Client twoDatabases)) := .start .psync :: List.replicate 10 (.step 0 0)

/-- A replica with an old value of the key, and a SET of a client behind it. -/
theorem converges_set :
    AtRest (run (Pool.advance (Pair.next onlySet) Client.entry)
        (attach ++ [.start (.test firstDatabase setText), .step 1 0, .step 1 0, .step 1 0, .step 0 0])
        ⟨.start oneEntry oneEntry, []⟩) ∧
      Converged (run (Pool.advance (Pair.next onlySet) Client.entry)
        (attach ++ [.start (.test firstDatabase setText), .step 1 0, .step 1 0, .step 1 0, .step 0 0])
        ⟨.start oneEntry oneEntry, []⟩) := by
  refine ⟨⟨by decide, by decide, by decide, by decide⟩, converges ⟨trivial, ?_, ?_, ?_, ?_, ?_, ?_, ?_, ?_, ?_,
    ?load, trivial, ?_, ?dispatch, ?send, ?applied, trivial⟩⟩
  case load =>
    intro t s' t' task chosen
    cases task
    cases chosen
    intro _ _
    decide
  case dispatch =>
    intro t s' t' task chosen
    cases task
    unfold Fits
    dsimp only
    split
    · rfl
    · rename_i silent
      exact absurd (by decide) silent
  case send =>
    intro t s' t' task chosen
    cases task
    exact ⟨rfl, InOrder.alone _⟩
  case applied =>
    intro t s' t' task chosen
    cases task
    intro unloaded
    cases unloaded
  all_goals
    intro t s' t' task chosen
    cases task
    cases chosen
    first | exact trivial | exact fun _ loaded => by cases loaded

/-- The replica never sees the SET of an EXEC. -/
theorem exec_unsent :
    ¬ ∀ (turns : List (Interleave.Turn (Client twoDatabases))) (primary replica : Keyspaces twoDatabases),
      Converged (run (Pool.advance (Pair.next onlySet) Client.entry) turns ⟨.start primary replica, []⟩) := by
  intro converged
  have same := converged (attach ++ [.start (.queue firstDatabase [setText]), .step 1 0, .step 1 0])
    (fun _ => .empty) (fun _ => .empty) ⟨by decide, by decide, by decide, by decide⟩ 0 firstDatabase keyText
  replace same := congrArg Option.isSome same
  revert same
  decide

end Replication

end NexradeCache
