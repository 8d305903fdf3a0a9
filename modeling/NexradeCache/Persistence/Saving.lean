import NexradeCache.Persistence.Aof
import NexradeCache.Replication.Convergence

/-!
# Snapshots and the dirty counter (`cmd_save` and `cmd_bgsave` of `nexrade-core/src/command/server.rs`, the save
rules of `nexrade-server/src/listener.rs`, `dirty_keys` in `dispatch_tracked`)

Any number of write commands, SAVE, BGSAVE, automatic saves and full syncs of a replica, as tasks over the
coordinator of mutations. What a write handler does is open: it is a program of accesses to the store, each of
which may change a key. Commands that are no writes change nothing but by expiry (`dispatchInner_sameLive`).

A save reads the counter, copies the store shard by shard, writes the file, which may fail, and then takes what
it has read off the counter. `saved` and `captured` are history: the dataset of the last file and the one of the
running save, less what expiry and eviction have dropped since.
-/

namespace NexradeCache

open Interleave

namespace Saving

open Persistence (Coordinator Task Write Outcome hasFastPath)
open Replication (Layout Entries Keyspaces unitOf)

variable {l : Layout} {H : Type}

/-! ## The store -/

/-- The entry of a key is set or removed. -/
def putEntry (key : Bytes) (value : Option Content) (db : Entries) : Entries where
  entry := Function.update db.entry key value
  keys := if value.isSome then insert key db.keys else db.keys.erase key
  complete other := by
    by_cases same : other = key
    · subst same
      cases value <;> simp
    · cases value <;> simp [same, db.complete]

variable (l) in
/-- One key of one database, and what it holds afterwards. -/
structure Change where
  db : Fin l.dbCount
  key : Bytes
  value : Option Content

def Change.apply (c : Change l) (k : Keyspaces l) : Keyspaces l :=
  Function.update k c.db (putEntry c.key c.value (k c.db))

variable (l H) in
/-- The write handlers: what an access changes, and how the handler goes on or ends. -/
structure Handlers where
  start : Write → H
  access : H → Keyspaces l → List (Option (Change l) × (H ⊕ Outcome))

/-- Where `snapshot_dbs` is: `is_empty` of a database, or `snapshot` of it. -/
inductive Cursor where
  | scan (db shard : Nat)
  | copy (db shard : Nat)
  | complete
deriving DecidableEq, Repr

/-- Which of the three saves it is. -/
inductive Kind where
  | save
  | bgsave
  | auto
deriving DecidableEq, Repr

variable (l) in
/-- The store with the counter of unsaved changes, and the last snapshot. `captured` is what a save under way has
copied. -/
structure Server where
  coordinator : Coordinator
  store : Keyspaces l
  dirtyKeys : Nat
  rdbSaveJob : Bool
  bgsaveInProgress : Bool
  saved : Keyspaces l
  captured : Keyspaces l

/-- A server that has loaded its file. -/
def Server.start (store : Keyspaces l) : Server l := ⟨.new, store, 0, false, false, store, store⟩

/-! ## Tasks -/

/-- How a handler runs: under a permit that is kept, without one, or under one for the attempt. -/
inductive Mode where
  | ordinary
  | fast
  | attempt
deriving DecidableEq, Repr

/-- What a blocking write does when it has dropped its permit. -/
inductive After where
  | wait
  | count (changed : Bool)
  | answer
deriving DecidableEq, Repr

variable (l H) in
/-- The next atomic access of a task. A field `t` is where the call of the coordinator is, `changed` tells
whether the handler has changed a key, and `read` is what a save has read of the counter. -/
inductive Phase where
  | dispatch (w : Write)
  | acquire (w : Write) (t : Task)
  | handle (w : Write) (mode : Mode) (h : H) (changed : Bool)
  | count (permit changed : Bool)
  | leave (t : Task)
  | enter (w : Write) (t : Task)
  | drop (w : Write) (after : After) (t : Task)
  | wait (w : Write)
  | begin (k : Kind)
  | swap (k : Kind)
  | lock (k : Kind)
  | giveUp
  | quiesce (k : Kind) (t : Task)
  | load (k : Kind)
  | snapshot (k : Kind) (read : Nat) (at_ : Cursor)
  | release (k : Kind) (read : Option Nat) (t : Task)
  | write (k : Kind) (read : Nat)
  | subtract (k : Kind) (read : Nat)
  | clear (k : Kind)
  | unlock
  /-- The entries of a full sync that are still to be inserted. -/
  | insert (entries : List (Fin l.dbCount × Bytes × Content))
  /-- Expiry or eviction of a key. -/
  | expire (db : Fin l.dbCount) (key : Bytes)
  | done

/-- How a write goes on when its handler has ended. -/
def Mode.ended (w : Write) (outcome : Outcome) (changed : Bool) : Mode → Phase l H
  | .ordinary => if outcome = .reply then .count true changed else .leave .permit
  | .fast =>
    match outcome with
    | .reply => .count false changed
    | .error => .done
    | .nothing => .enter w (.load .once)
  | .attempt =>
    match outcome with
    | .reply => .drop w (.count changed) .permit
    | .error => .drop w .answer .permit
    | .nothing => .drop w .wait .permit

def After.phase (w : Write) : After → Phase l H
  | .wait => .wait w
  | .count changed => .count false changed
  | .answer => .done

namespace Server

/-- A step of the coordinator. -/
def coordinate (s : Server l) (t : Task) (phase : Task → Phase l H) : List (Server l × Phase l H) :=
  (Persistence.next s.coordinator t).map fun (c, t') => ({ s with coordinator := c }, phase t')

/-- A step of `snapshot_dbs`. A database that `is_empty` finds empty is not copied. -/
def copyStep (s : Server l) : Cursor → Server l × Cursor
  | .scan db shard =>
    if inside : db < l.dbCount then
      if shard < l.numShards then
        if ((s.store ⟨db, inside⟩).shard l shard).keys = ∅ then (s, .scan db (shard + 1)) else (s, .copy db 0)
      else (s, .scan (db + 1) 0)
    else (s, .complete)
  | .copy db shard =>
    if shard < l.numShards then
      ({ s with
          captured := fun i => if i = db then ((s.store i).shard l shard).insertAll (s.captured i) else s.captured i },
        .copy db (shard + 1))
    else (s, .scan (db + 1) 0)
  | .complete => (s, .complete)

/-- The key is dropped, and nothing else is different from the files for it. -/
def expire (s : Server l) (db : Fin l.dbCount) (key : Bytes) : Server l :=
  let drop := (Change.mk db key none).apply
  { s with store := drop s.store, saved := drop s.saved, captured := drop s.captured }

def next (handlers : Handlers l H) (s : Server l) : Phase l H → List (Server l × Phase l H)
  /- The write may be refused: writes are paused, or the AOF has failed. -/
  | .dispatch w =>
    [(s, .done),
      (s,
        if !isBlockingWriteCommand w.cmd then .acquire w (.load .fast)
        else if hasFastPath w.cmd then .handle w .fast (handlers.start w) false
        else .enter w (.load .once))]
  | .acquire w .permit => [(s, .handle w .ordinary (handlers.start w) false)]
  | .acquire _ .done => [(s, .done)]
  | .acquire w t => s.coordinate t (.acquire w)
  | .handle w mode h changed =>
    (handlers.access h s.store).map fun (change, rest) =>
      let changed := changed || change.isSome
      ({ s with store := change.elim s.store fun c => c.apply s.store },
        match rest with
        | .inl h => .handle w mode h changed
        | .inr outcome => mode.ended w outcome changed)
  | .count permit _ =>
    [({ s with dirtyKeys := (s.dirtyKeys + 1) % 2 ^ 64 }, if permit then .leave .permit else .done)]
  | .leave .done => [(s, .done)]
  | .leave t => s.coordinate t .leave
  | .enter w .permit => [(s, .handle w .attempt (handlers.start w) false)]
  | .enter _ .done => [(s, .done)]
  | .enter w t => s.coordinate t (.enter w)
  | .drop w after .done => [(s, after.phase w)]
  | .drop w after t => s.coordinate t (.drop w after)
  /- Woken up, or timed out: then the reply is a null, which is counted as well. -/
  | .wait w => [(s, .enter w (.load .once)), (s, .count false false)]
  | .begin .save => [(s, .lock .save)]
  | .begin .bgsave => [(s, .swap .bgsave)]
  /- No rule may match, and there may be no path. -/
  | .begin .auto => (s, .done) :: if s.dirtyKeys = 0 then [] else [(s, .swap .auto)]
  | .swap k => if s.bgsaveInProgress then [(s, .done)] else [({ s with bgsaveInProgress := true }, .lock k)]
  | .lock k =>
    if s.rdbSaveJob then [(s, if k = .save then .done else .giveUp)]
    else
      let s := { s with rdbSaveJob := true }
      -- BGSAVE asks for the path here.
      (s, .quiesce k .lock) :: if k = .bgsave then [(s, .clear k)] else []
  | .giveUp => [({ s with bgsaveInProgress := false }, .done)]
  /- SAVE asks for the path under the guard. -/
  | .quiesce k .guard => (s, .load k) :: if k = .save then [(s, .release k none .guard)] else []
  | .quiesce k t => s.coordinate t (.quiesce k)
  | .load k => [({ s with captured := fun _ => .empty }, .snapshot k s.dirtyKeys (.scan 0 0))]
  | .snapshot k read .complete => [(s, .release k (some read) .guard)]
  | .snapshot k read at_ => [((s.copyStep at_).1, .snapshot k read (s.copyStep at_).2)]
  | .release k read .done => [(s, match read with | some read => .write k read | none => .clear k)]
  | .release k read t => s.coordinate t (.release k read)
  | .write k read => [({ s with saved := s.captured }, .subtract k read), (s, .clear k)]
  | .subtract k read => [({ s with dirtyKeys := s.dirtyKeys - read }, .clear k)]
  | .clear k => [({ s with bgsaveInProgress := s.bgsaveInProgress && k = .save }, .unlock)]
  | .unlock => [({ s with rdbSaveJob := false }, .done)]
  | .insert [] => [(s, .done)]
  | .insert ((db, key, c) :: rest) => [({ s with store := (Change.mk db key (some c)).apply s.store }, .insert rest)]
  | .expire db key => [(s.expire db key, .done)]
  | .done => []

end Server

def Phase.entry : Phase l H → Bool
  | .dispatch w => isWriteCommand w.cmd
  | .begin _ => true
  | .insert _ => true
  | .expire _ _ => true
  | _ => false

/-! ## Soundness of the counter -/

/-- The task is between a change and the update of the counter. -/
def Phase.uncounted : Phase l H → Bool
  | .handle _ _ _ changed => changed
  | .count _ changed => changed
  | .drop _ (.count changed) _ => changed
  | _ => false

/-- What is not in the file is in the counter. -/
def Sound (p : Pool (Server l) (Phase l H)) : Prop :=
  p.count Phase.uncounted = 0 → p.shared.store ≠ p.shared.saved → 0 < p.shared.dirtyKeys

/-- A handler that ends without a reply has changed nothing, a full sync brings nothing that is not there, and
the counter does not wrap. -/
def Fits (p : Pool (Server l) (Phase l H)) (t : Phase l H) (s' : Server l) (t' : Phase l H) : Prop :=
  match t with
  | .handle _ _ _ changed =>
    match t' with
    | .handle _ _ _ _ | .count _ _ | .drop _ (.count _) _ => True
    | _ => changed = false ∧ s'.store = p.shared.store
  | .count _ _ => p.shared.dirtyKeys + 1 < 2 ^ 64
  | .insert ((db, key, c) :: _) => (p.shared.store db).entry key = some c
  | _ => True

end Saving

end NexradeCache
