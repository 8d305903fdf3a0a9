import NexradeCache.Server.Connection
import NexradeCache.Store.Lost

/-!
# Events of expiry and eviction (`nexrade-core/src/notify.rs`, `dispatch_tracked`, `run_background_tasks`)

A run is a list of actions on the store: what handlers do under the locks of shards, the evictions and notifications
of `dispatch_tracked` around them (`Command.actions`), and the expiry cycle of the background task. A `Ledger` has the
events that were published and those that were owed, one for each entry that was removed because it had expired or was
evicted, in its own database.

The background cycle pays what it owes. A handler that finds an expired entry removes it and says nothing, so does the
cycle that `evict_if_needed` runs first, and the events of an eviction go to the database of the command that runs
(`key_events_exact_iff`).
-/

namespace NexradeCache

namespace KeyEvents

/-- The letters of `notify-keyspace-events` for classes of events. -/
inductive NotifyClass where
  | generic
  | string
  | list
  | hash
  | zset
  | expired
  | evicted
  | stream
deriving DecidableEq

/-- The classes that are on, and the prefixes `K` and `E`. -/
structure NotifyFlags where
  classes : List NotifyClass
  keyspace : Bool
  keyevent : Bool

/-- The commands of a class and the name of their event. -/
def commandEvents : List (List String × NotifyClass × String) := [
  (["DEL", "UNLINK"], .generic, "del"),
  (["EXPIRE", "PEXPIRE", "EXPIREAT", "PEXPIREAT"], .generic, "expire"),
  (["PERSIST"], .generic, "persist"),
  (["RENAME", "RENAMENX"], .generic, "rename"),
  (["COPY"], .generic, "copy"),
  (["FLUSHDB", "FLUSHALL"], .generic, "flushdb"),
  (["SET", "SETNX", "SETEX", "PSETEX", "MSET", "MSETNX"], .string, "set"),
  (["GETSET"], .string, "getset"),
  (["GETDEL", "GETEX"], .string, "getdel"),
  (["INCR", "INCRBY", "INCRBYFLOAT", "DECR", "DECRBY"], .string, "incr"),
  (["APPEND", "SETRANGE"], .string, "append"),
  (["LPUSH", "LPUSHX"], .list, "lpush"),
  (["RPUSH", "RPUSHX"], .list, "rpush"),
  (["LPOP"], .list, "lpop"),
  (["RPOP"], .list, "rpop"),
  (["LSET"], .list, "lset"),
  (["LREM"], .list, "lrem"),
  (["LTRIM"], .list, "ltrim"),
  (["LINSERT"], .list, "linsert"),
  (["LMOVE", "RPOPLPUSH"], .list, "lmove"),
  (["HSET", "HSETNX", "HMSET"], .hash, "hset"),
  (["HDEL"], .hash, "hdel"),
  (["HINCRBY", "HINCRBYFLOAT"], .hash, "hincrby"),
  (["ZADD"], .zset, "zadd"),
  (["ZINCRBY"], .zset, "zincrby"),
  (["ZREM"], .zset, "zrem"),
  (["ZREMRANGEBYSCORE"], .zset, "zremrangebyscore"),
  (["ZREMRANGEBYRANK"], .zset, "zremrangebyrank"),
  (["ZUNIONSTORE", "ZINTERSTORE", "ZDIFFSTORE"], .zset, "zunionstore"),
  (["XADD"], .stream, "xadd"),
  (["XDEL"], .stream, "xdel"),
  (["XTRIM"], .stream, "xtrim"),
  (["XREADGROUP"], .stream, "xreadgroup"),
  (["XACK"], .stream, "xack"),
  (["XCLAIM"], .stream, "xclaim"),
  (["XAUTOCLAIM"], .stream, "xautoclaim"),
  (["XSETID"], .stream, "xsetid"),
  (["XGROUP"], .stream, "xgroup")]

def classify (cmd : String) : Option (NotifyClass × String) :=
  (commandEvents.find? fun row => row.1.contains cmd).map Prod.snd

/-- What goes to the channels `__keyspace@<db>__:<key>` and `__keyevent@<db>__:<event>` of a database. -/
structure Event where
  db : Nat
  event : String
  key : Bytes
deriving DecidableEq

def notifyKeyspaceEvent (flags : NotifyFlags) (db : Nat) (event : String) (key : Bytes) : List Event :=
  if flags.keyspace || flags.keyevent then [⟨db, event, key⟩] else []

def notifyCommandKeys (flags : NotifyFlags) (db : Nat) (cmd : String) (keys : List Bytes) : List Event :=
  match classify cmd with
  | none => []
  | some (bit, event) =>
    if bit ∈ flags.classes then keys.flatMap (notifyKeyspaceEvent flags db event) else []

/-! ## What handlers do -/

end KeyEvents

namespace ShardOp

/-- The expiry cycle and the evictions belong to others. -/
def byHandler : ShardOp → Bool
  | .expireBatch _ | .expireCycle | .evictOne _ _ | .refreshLruClock _ => false
  | _ => true

/-- The keys whose entries the operation finds expired and removes. `set_plain` and `insert` leave an entry under their
key, whether the one before was expired or not; `remove` and `flush` take entries away without a look at the clock. -/
def lazilyExpired (clock : Nat → Nat) (s : Database) : ShardOp → List Bytes
  | .get key | .getMut key _ | .getOrInsertWith key _ _ | .incrInt key _ =>
    if (s.entries.lookup key).any (Entry.isExpired (clock 0)) then [key] else []
  | .keysMatching _ => s.expiredKeys (clock 0)
  | _ => []

end ShardOp

namespace KeyEvents

/-- An operation of a handler under the lock of a shard of a database, with its readings of the clock. -/
structure Access where
  db : Nat
  shard : Nat
  clock : Nat → Nat
  op : ShardOp
  handled : op.byHandler = true

/-- What an eviction meets. -/
structure Eviction where
  cycleClock : Nat → Nat → Nat → Nat
  orders : Nat → IterOrder (Bytes × Entry)
  clock : Nat → Nat
  fuel : Nat

/-- A locked operation that can change the keyspace or publish an event. -/
inductive Action where
  | access (a : Access)
  /-- The increment under the read lock, where there is a live integer. -/
  | increment (db now : Nat) (key : Bytes) (delta : Int64)
  /-- `evict_if_needed` and its events, for a command on a database. -/
  | evict (db : Nat) (policy : MaxMemoryPolicy) (limitBytes : Nat) (e : Eviction)
  | notify (db : Nat) (cmd : String) (keys : List Bytes)
  /-- The expiry cycle of the background task. -/
  | cycle (clock : Nat → Nat → Nat → Nat)

/-- A command that `dispatch_tracked` lets through. The handler of a script has the actions of other commands in it. -/
structure Command where
  db : Nat
  cmd : String
  keys : List Bytes
  policy : MaxMemoryPolicy
  limitBytes : Nat
  pre : Eviction
  post : Eviction
  handler : List Action
  succeeded : Bool

def Command.actions (c : Command) : List Action :=
  let maxmem (e : Eviction) : List Action :=
    if isWriteCommand c.cmd ∧ 0 < c.limitBytes then [.evict c.db c.policy c.limitBytes e] else []
  let notify : List Action := if isWriteCommand c.cmd ∧ ¬ isFlush c.cmd then [.notify c.db c.cmd c.keys] else []
  maxmem c.pre ++ c.handler ++ if c.succeeded then maxmem c.post ++ notify else []

/-! ## Runs -/

/-- The store with the events that were published and those its changes call for. -/
structure Ledger where
  store : Store
  published : List Event
  owed : List Event

def expired (p : Nat × Bytes) : Event := ⟨p.1, "expired", p.2⟩

def evicted (p : Nat × Bytes) : Event := ⟨p.1, "evicted", p.2⟩

/-- What an eviction owes: for what its cycle drains, and for what its loop takes. -/
def owedByEviction (policy : MaxMemoryPolicy) (limitBytes : Nat) (e : Eviction) (s s' : Store) : List Event :=
  if policy = .noEviction ∨ limitBytes = 0 then []
  else
    let drained := (s.activeExpireCycle e.cycleClock).1
    (s.lost drained).map expired ++ (drained.lost s').map evicted

def shardOf (s : Store) (db shard : Nat) : Database := (s.db db).shards[shard]?.getD .new

def step (flags : NotifyFlags) (l : Ledger) : Action → Option Ledger
  | .access a => some
    { l with
      store := l.store.setDb a.db ((l.store.db a.db).shardWrite a.shard fun s => a.op.run a.clock s)
      owed := l.owed ++ (a.op.lazilyExpired a.clock (shardOf l.store a.db a.shard)).map fun key =>
        expired (a.db % l.store.dbs.length, key) }
  | .increment db now key delta =>
    match (l.store.db db).incrIntFast now key delta with
    | some (d, _) => some { l with store := l.store.setDb db d }
    | none => some l
  | .evict db policy limitBytes e => do
    let (s', log) ← l.store.evictIfNeeded policy limitBytes e.cycleClock e.orders e.clock e.fuel
    return {
      store := s'
      published := l.published ++ if .evicted ∈ flags.classes then
        (Store.evictedKeys log).flatMap (notifyKeyspaceEvent flags db "evicted") else []
      owed := l.owed ++ owedByEviction policy limitBytes e l.store s' }
  | .notify db cmd keys => some { l with published := l.published ++ notifyCommandKeys flags db cmd keys }
  | .cycle clock =>
    let (s', keys) := l.store.activeExpireCycle clock
    some {
      store := s'
      published := l.published ++ if .expired ∈ flags.classes then
        keys.flatMap fun p => notifyKeyspaceEvent flags p.1 "expired" p.2 else []
      owed := l.owed ++ (l.store.lost s').map expired }

def run (flags : NotifyFlags) (actions : List Action) (l : Ledger) : Option Ledger := actions.foldlM (step flags) l

/-- An empty server. -/
def start (databases numShards : Nat) (positive : 0 < numShards) : Ledger :=
  ⟨⟨List.replicate databases (.new numShards positive)⟩, [], []⟩

/-! ## What is promised -/

def Event.ofRemoval (e : Event) : Bool := e.event = "expired" || e.event = "evicted"

/-- The events of expiry and eviction are those that are owed. -/
def Exact (l : Ledger) : Prop := (l.published.filter Event.ofRemoval).Perm l.owed

instance (l : Ledger) : Decidable (Exact l) := inferInstanceAs (Decidable (List.Perm _ _))

/-- An access finds nothing expired, and an eviction has nothing to drain and takes from the database of the command. -/
def Quiet (s : Store) : Action → Prop
  | .access a => a.op.lazilyExpired a.clock (shardOf s a.db a.shard) = []
  | .evict db policy limitBytes e => policy = .noEviction ∨ limitBytes = 0 ∨ s.Settled e.cycleClock ∧
      ∀ s' log, s.evictIfNeeded policy limitBytes e.cycleClock e.orders e.clock e.fuel = some (s', log) →
        ∀ p ∈ s.lost s', p.1 = db
  | _ => True

/-- All actions of the run that come to their end are quiet. -/
def QuietRun (flags : NotifyFlags) : Ledger → List Action → Prop
  | _, [] => True
  | l, a :: actions => ∀ l', step flags l a = some l' → Quiet l.store a ∧ QuietRun flags l' actions

/-! ## What an access takes away -/

end KeyEvents

namespace ShardOp

open Database

variable {s : Database} {k key : Bytes} {clock : Nat → Nat}

theorem of_mem_lost_moves {α : Type} {f : Database → Database × α} {t : Database → View → View}
    (moves : Moves f key t) (mem : k ∈ s.lost (f s).1) :
    k = key ∧ (∃ e, (s.view k).entry = some e) ∧ (t s (s.view k)).entry = none := by
  obtain ⟨here, gone⟩ := mem_lost.1 mem
  by_cases same : k = key
  · subst same
    refine ⟨rfl, Option.ne_none_iff_exists'.1 here, ?_⟩
    rw [← (moves.here s).entry]
    exact gone
  · have kept : ((f s).1.view k).entry = (s.view k).entry := (moves.other s same).entry
    exact absurd (kept.symm.trans gone) here

theorem mem_looked {e : Entry} (found : (s.view k).entry = some e) (passed : e.isExpired (clock 0) = true) :
    k ∈ if (s.entries.lookup k).any (Entry.isExpired (clock 0)) then [k] else [] := by
  have lookup : s.entries.lookup k = some e := found
  rw [lookup, Option.any_some, passed, if_pos rfl]
  exact List.mem_singleton_self k

/-- **What a handler's operation takes away** had expired when the operation looked at it, or is deleted by `remove`
or `flush`. -/
theorem of_mem_lost (op : ShardOp) (handled : op.byHandler = true) (mem : k ∈ s.lost (op.run clock s)) :
    k ∈ op.lazilyExpired clock s ∨ op = .remove k ∨ op = .flush := by
  cases op with
  | get key =>
    obtain ⟨rfl, ⟨e, found⟩, gone⟩ := of_mem_lost_moves (moves_get (clock 0) key) mem
    rw [found] at gone
    cases passed : e.isExpired (clock 0) with
    | true => exact .inl (mem_looked found passed)
    | false => simp [passed] at gone
  | insert key entry =>
    obtain ⟨rfl, ⟨e, found⟩, gone⟩ := of_mem_lost_moves (moves_insert key entry) mem
    simp [View.inserted, found] at gone
  | setPlain key value =>
    obtain ⟨rfl, ⟨e, found⟩, gone⟩ := of_mem_lost_moves (moves_setPlain (clock 0) key value) mem
    rw [found] at gone
    cases passed : e.isExpired (clock 0) <;> simp [passed, View.inserted, View.written, found] at gone
  | getMut key edit =>
    obtain ⟨rfl, ⟨e, found⟩, gone⟩ := of_mem_lost_moves (moves_getMut (clock 0) key edit) mem
    rw [found] at gone
    cases passed : e.isExpired (clock 0) with
    | true => exact .inl (mem_looked found passed)
    | false => simp [passed, View.written] at gone
  | getOrInsertWith key fresh edit =>
    obtain ⟨rfl, ⟨e, found⟩, gone⟩ := of_mem_lost_moves (moves_getOrInsertWith (clock 0) key fresh edit) mem
    rw [found] at gone
    cases passed : e.isExpired (clock 0) <;> simp [passed, View.written] at gone
  | incrInt key delta =>
    obtain ⟨rfl, ⟨e, found⟩, gone⟩ := of_mem_lost_moves (moves_incrInt (clock 0) key delta) mem
    rw [found] at gone
    cases passed : e.isExpired (clock 0) with
    | true => exact .inl (mem_looked found passed)
    | false =>
      simp only [passed, Bool.false_eq_true, if_false] at gone
      split at gone
      · simp [View.written] at gone
      · rw [found] at gone
        cases gone
  | remove key =>
    obtain ⟨rfl, -, -⟩ := of_mem_lost_moves (moves_remove key) mem
    exact .inr (.inl rfl)
  | setExpiry key expiry =>
    obtain ⟨rfl, ⟨e, found⟩, gone⟩ := of_mem_lost_moves (moves_setExpiry key expiry) mem
    rw [found] at gone
    simp [View.written] at gone
  | keysMatching pattern =>
    obtain ⟨here, gone⟩ := mem_lost.1 mem
    rw [ShardOp.run, keysMatching_entries, KeyMap.lookup_filterKeys] at gone
    refine .inl ?_
    by_contra live
    exact here (by simpa [show k ∉ s.expiredKeys (clock 0) from live] using gone)
  | flush => exact .inr (.inr rfl)
  | expireBatch _ => cases handled
  | expireCycle => cases handled
  | evictOne _ _ => cases handled
  | refreshLruClock _ => cases handled

end ShardOp

namespace KeyEvents

/-! ## Steps -/

theorem classify_event {cmd event : String} {bit : NotifyClass} (known : classify cmd = some (bit, event)) (db : Nat)
    (key : Bytes) : Event.ofRemoval ⟨db, event, key⟩ = false := by
  have others : ∀ row ∈ commandEvents, row.2.2 ≠ "expired" ∧ row.2.2 ≠ "evicted" := by decide +kernel
  obtain ⟨row, found, same⟩ := Option.map_eq_some_iff.1 known
  obtain ⟨notExpired, notEvicted⟩ := others row (List.mem_of_find?_eq_some found)
  rw [same] at notExpired notEvicted
  simp [Event.ofRemoval, notExpired, notEvicted]

theorem notifyCommandKeys_ofRemoval (flags : NotifyFlags) (db : Nat) (cmd : String) (keys : List Bytes) :
    (notifyCommandKeys flags db cmd keys).filter Event.ofRemoval = [] := by
  refine List.filter_eq_nil_iff.2 fun e mem => ?_
  unfold notifyCommandKeys at mem
  split at mem
  · cases mem
  · rename_i bit event known
    split_ifs at mem
    · obtain ⟨key, -, here⟩ := List.mem_flatMap.1 mem
      unfold notifyKeyspaceEvent at here
      split_ifs at here
      · rw [List.mem_singleton.1 here, classify_event known]
        exact Bool.false_ne_true
      · cases here
    · cases mem

/-- The classes `x` and `e` are on, and events are published at all. -/
structure NotifyFlags.On (flags : NotifyFlags) : Prop where
  expired : .expired ∈ flags.classes
  evicted : .evicted ∈ flags.classes
  channel : (flags.keyspace || flags.keyevent) = true

variable {flags : NotifyFlags} {l l' : Ledger}

theorem indexed_setDb {s : Store} (indexed : s.Indexed) (index : Nat) {d : ShardedDatabase} (inner : d.Indexed) :
    (s.setDb index d).Indexed := by
  intro t there
  obtain ⟨db, mem, inside⟩ := List.mem_flatMap.1 there
  rcases List.mem_or_eq_of_mem_set mem with old | same
  · exact indexed t (List.mem_flatMap.2 ⟨db, old, inside⟩)
  · exact inner t (same ▸ inside)

theorem indexed_db {s : Store} (indexed : s.Indexed) (index : Nat) : (s.db index).Indexed := by
  intro t there
  unfold Store.db at there
  cases found : s.dbs[index % s.dbs.length]? with
  | some db =>
    rw [found] at there
    exact indexed t (List.mem_flatMap.2 ⟨db, List.mem_of_getElem? found, there⟩)
  | none =>
    rw [found] at there
    exact ShardedDatabase.indexed_new 1 Nat.one_pos t there

theorem notify_eq (on : flags.On) (db : Nat) (event : String) (key : Bytes) :
    notifyKeyspaceEvent flags db event key = [⟨db, event, key⟩] := if_pos on.channel

/-- What an action publishes, what it owes, and when the two are the same. -/
structure Pays (l l' : Ledger) (quiet : Prop) : Prop where
  indexed : l'.store.Indexed
  paid : ∃ pub owed, l'.published = l.published ++ pub ∧ l'.owed = l.owed ++ owed ∧
    ((pub.filter Event.ofRemoval).Perm owed ↔ quiet)

/-- An eviction pays what it owes if it drains nothing and takes from one database. -/
theorem evicted_perm_iff {keys : List Bytes} {drained taken : List (Nat × Bytes)}
    (named : (taken.map Prod.snd).Perm keys) (db : Nat) :
    ((keys.map fun key => evicted (db, key)).filter Event.ofRemoval).Perm (drained.map expired ++ taken.map evicted) ↔
      drained = [] ∧ ∀ p ∈ taken, p.1 = db := by
  have all : (keys.map fun key => evicted (db, key)).filter Event.ofRemoval = keys.map fun key => evicted (db, key) := by
    refine List.filter_eq_self.2 fun e mem => ?_
    obtain ⟨key, -, rfl⟩ := List.mem_map.1 mem
    rfl
  rw [all]
  constructor
  · intro same
    have published {e : Event} (mem : e ∈ drained.map expired ++ taken.map evicted) : ∃ key, evicted (db, key) = e := by
      obtain ⟨key, -, here⟩ := List.mem_map.1 (same.mem_iff.2 mem)
      exact ⟨key, here⟩
    constructor
    · refine List.eq_nil_iff_forall_not_mem.2 fun p mem => ?_
      obtain ⟨key, here⟩ := published (List.mem_append_left _ (List.mem_map_of_mem mem))
      have name : "evicted" = "expired" := congrArg Event.event here
      exact absurd name (by decide)
    · intro p mem
      obtain ⟨key, here⟩ := published (List.mem_append_right _ (List.mem_map_of_mem mem))
      exact (congrArg Event.db here).symm
  · rintro ⟨rfl, own⟩
    have same : taken.map evicted = (taken.map Prod.snd).map fun key => evicted (db, key) := by
      rw [List.map_map]
      refine List.map_congr_left fun p mem => ?_
      rw [Function.comp_apply, ← own p mem]
    rw [List.map_nil, List.nil_append, same]
    exact (named.map _).symm

theorem pays_evict (on : flags.On) (indexed : l.store.Indexed) (db : Nat) (policy : MaxMemoryPolicy) (limitBytes : Nat)
    (e : Eviction) (taken : step flags l (.evict db policy limitBytes e) = some l') :
    Pays l l' (Quiet l.store (.evict db policy limitBytes e)) := by
  rw [step] at taken
  obtain ⟨⟨s', log⟩, ran, same⟩ := Option.bind_eq_some_iff.1 taken
  cases same
  have each : notifyKeyspaceEvent flags db "evicted" = fun key => [evicted (db, key)] :=
    funext fun key => notify_eq on db "evicted" key
  by_cases idle : policy = .noEviction ∨ limitBytes = 0
  · rw [Store.evictIfNeeded, if_pos idle] at ran
    cases ran
    refine ⟨indexed, _, _, rfl, rfl, ?_⟩
    have quiet : Quiet l.store (.evict db policy limitBytes e) := idle.imp_right .inl
    simp [owedByEviction, idle, Store.evictedKeys, quiet]
  · obtain ⟨named, shrinks, kept⟩ := Store.lost_evictIfNeeded indexed idle ran
    have whole := Store.lost_trans (Store.lost_cycle indexed e.cycleClock).2 shrinks
    refine ⟨kept, _, _, rfl, rfl, ?_⟩
    rw [if_pos on.evicted, each, ← List.map_eq_flatMap, owedByEviction, if_neg idle, evicted_perm_iff named,
      Store.lost_cycle_eq_nil_iff indexed]
    constructor
    · rintro ⟨settled, own⟩
      refine .inr (.inr ⟨settled, fun s₁ log₁ ran₁ p mem => ?_⟩)
      rw [ran] at ran₁
      cases ran₁
      rw [(Store.lost_cycle_eq_nil_iff indexed e.cycleClock).2 settled, List.nil_append] at whole
      exact own p (whole.mem_iff.1 mem)
    · intro quiet
      rw [not_or] at idle
      obtain ⟨settled, own⟩ := (quiet.resolve_left idle.1).resolve_left idle.2
      exact ⟨settled, fun p mem => own s' log ran p (whole.mem_iff.2 (List.mem_append_right _ mem))⟩

theorem pays_cycle (on : flags.On) (indexed : l.store.Indexed) (clock : Nat → Nat → Nat → Nat)
    (taken : step flags l (.cycle clock) = some l') : Pays l l' True := by
  cases taken
  have each : (fun p : Nat × Bytes => notifyKeyspaceEvent flags p.1 "expired" p.2) = fun p => [expired p] :=
    funext fun p => notify_eq on p.1 "expired" p.2
  refine ⟨indexed.activeExpireCycle clock, (l.store.activeExpireCycle clock).2.map expired, _, ?_, rfl,
    iff_of_true ?_ trivial⟩
  · show l.published ++ (if NotifyClass.expired ∈ flags.classes then (l.store.activeExpireCycle clock).2.flatMap
      fun p => notifyKeyspaceEvent flags p.1 "expired" p.2 else []) = _
    rw [if_pos on.expired, each, ← List.map_eq_flatMap]
  · have all : ((l.store.activeExpireCycle clock).2.map expired).filter Event.ofRemoval =
        (l.store.activeExpireCycle clock).2.map expired := by
      refine List.filter_eq_self.2 fun e mem => ?_
      obtain ⟨p, -, rfl⟩ := List.mem_map.1 mem
      rfl
    rw [all]
    exact ((Store.lost_cycle indexed clock).1.map expired).symm

/-- **One action**: it publishes what it owes exactly if it is quiet. -/
theorem pays_step (on : flags.On) (indexed : l.store.Indexed) (a : Action) (taken : step flags l a = some l') :
    Pays l l' (Quiet l.store a) := by
  cases a with
  | access a =>
    cases taken
    have inner : ((l.store.db a.db).shardWrite a.shard fun s => a.op.run a.clock s).Indexed :=
      (indexed_db indexed a.db).shardWrite a.shard fun here => a.op.indexed_run here a.clock
    refine ⟨indexed_setDb indexed a.db inner, [], _, (List.append_nil _).symm, rfl, ?_⟩
    rw [List.filter_nil, List.nil_perm, List.map_eq_nil_iff]
    rfl
  | increment db now key delta =>
    rw [step] at taken
    split at taken
    · rename_i d answer fast
      cases taken
      have inner := (indexed_db indexed db).incrInt now key delta
      rw [ShardedDatabase.incrInt, fast] at inner
      refine ⟨indexed_setDb indexed db inner, [], [], (List.append_nil _).symm, (List.append_nil _).symm, ?_⟩
      exact iff_of_true (.refl _) trivial
    · cases taken
      refine ⟨indexed, [], [], (List.append_nil _).symm, (List.append_nil _).symm, ?_⟩
      exact iff_of_true (.refl _) trivial
  | evict db policy limitBytes e => exact pays_evict on indexed db policy limitBytes e taken
  | notify db cmd keys =>
    cases taken
    refine ⟨indexed, _, [], rfl, (List.append_nil _).symm, iff_of_true ?_ trivial⟩
    rw [notifyCommandKeys_ofRemoval]
  | cycle clock => exact pays_cycle on indexed clock taken

/-! ## Runs -/

theorem run_cons (a : Action) (actions : List Action) :
    run flags (a :: actions) l = (step flags l a).bind (run flags actions) := rfl

/-- From a ledger that is exact, all that follow are exact if and only if the run is quiet. -/
theorem exact_iff_quietRun (on : flags.On) (actions : List Action) (indexed : l.store.Indexed) (exact₀ : Exact l) :
    (∀ before r, before <+: actions → run flags before l = some r → Exact r) ↔ QuietRun flags l actions := by
  induction actions generalizing l with
  | nil =>
    refine iff_of_true (fun before r isPrefix ran => ?_) trivial
    rw [List.prefix_nil.1 isPrefix] at ran
    cases ran
    exact exact₀
  | cons a actions ih =>
    -- exact before and after the step: it pays what it owes
    have pays {l' : Ledger} (taken : step flags l a = some l') :
        l'.store.Indexed ∧ (Exact l' ↔ Quiet l.store a) := by
      obtain ⟨kept, pub, owed, published, owes, paid⟩ := pays_step on indexed a taken
      refine ⟨kept, ?_⟩
      rw [← paid, Exact, published, owes, List.filter_append]
      constructor
      · intro both
        exact (List.perm_append_left_iff _).1 (both.trans (exact₀.symm.append_right owed))
      · intro more
        exact exact₀.append more
    constructor
    · intro all l' taken
      have here : Exact l' := by
        refine all [a] l' (List.cons_prefix_cons.2 ⟨rfl, List.nil_prefix⟩) ?_
        rw [run_cons, taken]
        rfl
      refine ⟨(pays taken).2.1 here, (ih (pays taken).1 here).1 fun before r isPrefix ran => ?_⟩
      refine all (a :: before) r (List.cons_prefix_cons.2 ⟨rfl, isPrefix⟩) ?_
      rw [run_cons, taken]
      exact ran
    · intro quiet before r isPrefix ran
      cases before with
      | nil =>
        cases ran
        exact exact₀
      | cons b before =>
        obtain ⟨rfl, rest⟩ := List.cons_prefix_cons.1 isPrefix
        rw [run_cons] at ran
        obtain ⟨l', taken, ran⟩ := Option.bind_eq_some_iff.1 ran
        obtain ⟨still, later⟩ := quiet l' taken
        exact (ih (pays taken).1 ((pays taken).2.2 still)).2 later before r rest ran

theorem indexed_start (databases numShards : Nat) (positive : 0 < numShards) :
    (start databases numShards positive).store.Indexed := by
  intro t there
  obtain ⟨db, mem, inside⟩ := List.mem_flatMap.1 there
  rw [List.eq_of_mem_replicate mem] at inside
  exact ShardedDatabase.indexed_new numShards positive t inside

/-- **When the events are exact.** In every state that a run of the server leads to, the events of expiry and
eviction are one for each entry that had expired or was evicted and is gone, in its database, if and only if no
access finds an expired entry, no eviction finds one to drain, and every eviction takes from the database of its
command. `owed` is the record of what is to be announced, which no step looks at. -/
theorem key_events_exact_iff (flags : NotifyFlags) (on : flags.On) (databases numShards : Nat) (positive : 0 < numShards)
    (actions : List Action) :
    (∀ before r, before <+: actions → run flags before (start databases numShards positive) = some r → Exact r) ↔
      QuietRun flags (start databases numShards positive) actions :=
  exact_iff_quietRun on actions (indexed_start databases numShards positive) (.refl _)

def allOn : NotifyFlags := ⟨[.expired, .evicted], false, true⟩

theorem allOn_on : allOn.On := ⟨by decide, by decide, rfl⟩

/-- A key of database 0 that expires at 5. -/
def setExpiring : Action := .access ⟨0, 0, fun _ => 0, .insert [1] ⟨.string [7], some 5, 0⟩, rfl⟩

def atOnce : Eviction := ⟨fun _ _ _ => 0, fun _ => .asStored, fun _ => 0, 9⟩

/-- A write in database 1 that does not fit. -/
def setElsewhere : Command where
  db := 1
  cmd := "SET"
  keys := [[2]]
  policy := .allKeysRandom
  limitBytes := 70
  pre := atOnce
  post := atOnce
  handler := [.access ⟨1, 0, fun _ => 0, .insert [2] ⟨.string [7], none, 0⟩, rfl⟩]
  succeeded := true

/-- A key whose deadline passes and which the cycle finds. -/
theorem key_events_exact_cycle :
    (∀ before r, before <+: [setExpiring, .cycle fun _ _ _ => 9] →
      run allOn before (start 2 1 Nat.one_pos) = some r → Exact r) ∧
    (run allOn [setExpiring, .cycle fun _ _ _ => 9] (start 2 1 Nat.one_pos)).map Ledger.published =
      some [⟨0, "expired", [1]⟩] :=
  ⟨(key_events_exact_iff allOn allOn_on 2 1 Nat.one_pos [setExpiring, .cycle fun _ _ _ => 9]).2
    fun _ _ => ⟨rfl, fun _ _ => ⟨trivial, trivial⟩⟩, by decide +kernel⟩

/-- A read finds the key expired and no event is published; a write in database 1 evicts it, and the event is one of
database 1. -/
theorem key_events_lost :
    (run allOn [setExpiring, .access ⟨0, 0, fun _ => 9, .get [1], rfl⟩] (start 2 1 Nat.one_pos)).map
      (fun r => (r.published, r.owed, decide (Exact r))) = some ([], [⟨0, "expired", [1]⟩], false) ∧
    (run allOn (setExpiring :: setElsewhere.actions) (start 2 1 Nat.one_pos)).map
      (fun r => (r.published, r.owed, decide (Exact r))) =
        some ([⟨1, "evicted", [1]⟩], [⟨0, "evicted", [1]⟩], false) := by
  decide +kernel

end KeyEvents

end NexradeCache
