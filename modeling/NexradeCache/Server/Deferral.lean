import NexradeCache.Server.Authentication

/-!
# What MULTI defers

One connection, its requests, and what others do to the server between them. Queueing is the last
branch of the connection loop, so what SELECT, UNWATCH, EVAL, EVALSHA, SCRIPT, FUNCTION and FCALL do in
a transaction they do at once; and EXEC compares the watched keys in the database that is selected then.
`Quiet` is what such a request must not do. In a run of quiet requests a transaction changes nothing
before EXEC, and EXEC does what the requests that were queued and the keys that were watched say.

The fields `queued` and `watched` of a session record its history; no step depends on them.
-/

namespace NexradeCache

open Trace

/-! ## Sessions -/

/-- A key, its version, and the database it was watched in. -/
structure Watched where
  db : Nat
  entry : Bytes × Nat

/-- The server and one connection, with what MULTI and WATCH promised as a history. -/
structure TxSession where
  srv : Db
  conn : Connection
  /-- The requests that were queued since the last MULTI. -/
  queued : List (List Resp)
  watched : List Watched

/-- The connection starts. -/
def TxSession.start (srv : Db) (clientId : Nat) : TxSession := ⟨srv, .new srv.shared clientId, [], []⟩

/-- The branch of the loop of commands that takes a request. -/
def TxSession.branch (s : TxSession) (args : List Resp) : Option Route :=
  if !args.isEmpty && s.conn.mode = .commands then some (route s.conn s.srv.shared.isReplica (cmdName args)) else none

/-- What is queued after a request. -/
def TxSession.noteQueued (s : TxSession) (args : List Resp) : List (List Resp) :=
  match s.branch args with
  | some .queue => s.queued ++ [args]
  | some .multi => if s.conn.transaction.active then s.queued else []
  | _ => s.queued

/-- What is watched after a request: the keys it added were watched in the database selected before. -/
def TxSession.noteWatched (s : TxSession) (conn' : Connection) : List Watched :=
  if conn'.transaction.watchKeys = [] then []
  else
    let added := conn'.transaction.watchKeys.drop s.conn.transaction.watchKeys.length
    s.watched ++ added.map (Watched.mk s.conn.dbIndex)

def TxSession.step (t : SessionTurn) (s : TxSession) : TxSession :=
  match t.event with
  | .request args =>
    let done := request t.host args s.srv s.conn
    ⟨done.srv, done.conn, s.noteQueued args, s.noteWatched done.conn⟩
  | .others act => { s with srv := act s.srv }

/-! ## What a transaction promises -/

/-- A watched key has another version, in the database it was watched in. -/
def Watched.dirty (host : Host) (store : Store) (w : Watched) : Bool :=
  ((store.db w.db).shardFor w.entry.1).keyVersion (host.clock 0 0) w.entry.1 ≠ w.entry.2

/-- What EXEC is to answer: one reply for each queued request, in order, unless a watched key has changed. -/
def TxSession.execReply (host : Host) (s : TxSession) : Resp :=
  if s.watched.any (Watched.dirty host s.srv.store) then .array none
  else .array (some (runQueue host s.conn.dbIndex s.conn.authenticatedUser 0 s.queued s.srv).2)

/-- What stays as it is between two states, for the clients that look at the store at a time. -/
structure TxSession.Unchanged (now : Nat) (s s' : TxSession) : Prop where
  keyspace : Store.SameLive now s.srv.store s'.srv.store
  scripting : s'.srv.scripting = s.srv.scripting
  selected : s'.conn.dbIndex = s.conn.dbIndex

/-- A request in a transaction. RESET ends the transaction and is no part of it. -/
structure TxSession.Deferred (host : Host) (args : List Resp) (s s' : TxSession) : Prop where
  unchanged : s.branch args ≠ some .exec → s.branch args ≠ some .reset →
    ∀ now, (∀ dispatched access, host.clock dispatched access ≤ now) → s.Unchanged now s'
  watched : s.branch args ∉ [some .exec, some .discard, some .reset] →
    s'.conn.transaction.watchKeys = s.conn.transaction.watchKeys
  exec : s.branch args = some .exec → (request host args s.srv s.conn).replies = [s.execReply host]
  length : s.branch args = some .exec → ∀ replies, s.execReply host = .array (some replies) →
    replies.length = s.queued.length

/-- A request of the connection in a transaction, which may be the DISCARD that ends it. -/
def SessionTurn.Undone (now : Nat) (t : SessionTurn) (s : TxSession) : Prop :=
  ∃ args, t.event = .request args ∧ s.conn.transaction.active = true ∧
    s.branch args ≠ some .exec ∧ s.branch args ≠ some .reset ∧
    ∀ dispatched access, t.host.clock dispatched access ≤ now

/-- Requests in a transaction are deferred. -/
def SessionTurn.Defers (t : SessionTurn) (s : TxSession) : Prop :=
  ∀ args, t.event = .request args → s.conn.transaction.active = true →
    s.Deferred t.host args (s.step t)

/-! ## What a request must not do -/

/-- What the connection loop does at once, without a look at the transaction, leaves alone what a
transaction defers. A SELECT of another database is also one too many while keys are watched. -/
def TxSession.QuietRequest (host : Host) (args : List Resp) (s : TxSession) : Prop :=
  let tx := s.conn.transaction
  let sub := toAsciiUppercase ((getStr args 1).getD "")
  let quiet := fun (script : LuaRun) => script.NoWrites host s.conn.dbIndex s.conn.authenticatedUser 0 s.srv
  match s.branch args with
  | some .select => tx.active = true ∨ tx.watchKeys ≠ [] →
      ∀ idx, Decimal.parseUsize ((getStr args 1).getD "0") = some idx → idx < s.srv.store.dbs.length →
        idx = s.conn.dbIndex
  | some .unwatch => tx.active = true → tx.watchKeys = []
  | some .eval => tx.active = true → quiet (evalRun host args)
  | some .evalsha => tx.active = true → quiet (evalshaRun host s.srv.scripting args)
  | some .fcall => tx.active = true → quiet (fcallRun host s.srv.scripting args)
  | some .script => tx.active = true → sub ≠ "LOAD" ∧ sub ≠ "FLUSH"
  | some .function => tx.active = true → sub ≠ "LOAD" ∧ sub ≠ "DELETE" ∧ sub ≠ "FLUSH" ∧ sub ≠ "RESTORE"
  | _ => True

def SessionTurn.Quiet (t : SessionTurn) (s : TxSession) : Prop :=
  ∀ args, t.event = .request args → s.QuietRequest t.host args

/-! ## Branches that leave the transaction alone -/

section
variable {host : Host} {args : List Resp} {s : TxSession}

/-- The commands of a transaction. -/
def Route.transactional : Route → Bool
  | .select | .watch | .unwatch | .multi | .exec | .discard | .reset | .queue => true
  | _ => false

theorem handleRoute_place {branch : Route} (other : branch.transactional = false) (cmd : String) (args : List Resp)
    (srv : Db) (conn : Connection) : (handleRoute host branch cmd args srv conn).conn.place = conn.place := by
  cases branch with
  | subscribe isPattern => exact place_of_core (doSubscribe_core isPattern args srv.shared conn)
  | auth => exact handleAuth_place srv.shared conn args
  | hello => exact handleHello_place srv.shared conn args
  | select | watch | unwatch | multi | exec | discard | reset | queue => cases other
  | _ => rfl

theorem handleSelect_place (store : Store) (conn : Connection) (args : List Resp)
    (same : ∀ idx, Decimal.parseUsize ((getStr args 1).getD "0") = some idx → idx < store.dbs.length →
      idx = conn.dbIndex) :
    (handleSelect store conn args).1.place = conn.place := by
  unfold handleSelect
  split
  · rename_i idx parsed
    split
    · rename_i inRange
      rw [same idx parsed inRange]
    · rfl
  · rfl

theorem handleSelect_transaction (store : Store) (conn : Connection) (args : List Resp) :
    (handleSelect store conn args).1.transaction = conn.transaction := by
  unfold handleSelect
  split
  · split <;> rfl
  · rfl

theorem watchAll_eq (version : Bytes → Nat) (args : List Resp) (tx : RawTransaction) :
    ∃ added, (watchAll version args tx).1 = { tx with watchKeys := tx.watchKeys ++ added } := by
  induction args generalizing tx with
  | nil => exact ⟨[], by simp [watchAll]⟩
  | cons a rest ih =>
    unfold watchAll
    split
    · exact ih tx
    · rename_i key found
      split
      · exact ⟨[], by simp⟩
      · obtain ⟨added, eq⟩ := ih { tx with watchKeys := tx.watchKeys ++ [(key, version key)] }
        exact ⟨(key, version key) :: added, by rw [eq]; simp⟩

/-! ## What one request does to the transaction -/

/-- The watched keys are dropped, or they stay where they were watched and others are added. -/
def Connection.Keeps (conn conn' : Connection) : Prop :=
  conn'.transaction.watchKeys = [] ∨
    (conn'.dbIndex = conn.dbIndex ∧
      ∃ added, conn'.transaction.watchKeys = conn.transaction.watchKeys ++ added)

theorem Connection.Keeps.of_place {conn conn' : Connection} (h : conn'.place = conn.place) : conn.Keeps conn' := by
  obtain ⟨db, tx⟩ := Prod.mk.inj h
  exact .inr ⟨db, [], by rw [tx]; simp⟩

variable (host) in
theorem request_of_branch {b : Route} (h : s.branch args = some b) :
    request host args s.srv s.conn = handleRoute host b (cmdName args) args s.srv s.conn ∧
      Routed s.conn s.srv.shared.isReplica (cmdName args) b := by
  unfold TxSession.branch at h
  split at h
  · rename_i reads
    cases h
    simp only [Bool.and_eq_true, Bool.not_eq_true', decide_eq_true_eq, List.isEmpty_eq_false_iff] at reads
    exact ⟨request_commands host reads.1 s.srv reads.2, routed _ _ _⟩
  · cases h

variable (host) in
/-- The other loops know nothing of the transaction. -/
theorem request_of_none (h : s.branch args = none) :
    (request host args s.srv s.conn).conn.place = s.conn.place ∧
      (request host args s.srv s.conn).srv.scripting = s.srv.scripting ∧
      ∀ now, (∀ dispatched access, host.clock dispatched access ≤ now) →
        Store.SameLive now s.srv.store (request host args s.srv s.conn).srv.store := by
  unfold request
  dsimp only
  split
  · exact ⟨rfl, rfl, fun now _ => .refl now _⟩
  · rename_i nonempty
    split
    · rename_i commands
      simp [TxSession.branch, nonempty, commands] at h
    · refine ⟨place_of_core (subscribeMode_core _ _ _ _), subscribeMode_scripting _ _ _ _, fun now _ => ?_⟩
      rw [subscribeMode_store]
      exact .refl now _
    · split <;> exact ⟨rfl, rfl, fun now _ => .refl now _⟩
    · split
      · rename_i replconf
        have read : NoWrite args := by
          unfold NoWrite
          rw [replconf]
          decide
        exact ⟨rfl, dispatchWithUser_scripting _ _ _ _ _, fun now later =>
          dispatchWithUser_sameLive read (later 0) 0 s.conn.authenticatedUser s.srv⟩
      · exact ⟨rfl, rfl, fun now _ => .refl now _⟩
    · exact ⟨rfl, rfl, fun now _ => .refl now _⟩

theorem request_keeps (quiet : s.QuietRequest host args) : s.conn.Keeps (request host args s.srv s.conn).conn := by
  cases b : s.branch args with
  | none => exact .of_place (request_of_none host b).1
  | some branch =>
    obtain ⟨eq, -⟩ := request_of_branch host b
    rw [eq]
    unfold TxSession.QuietRequest at quiet
    simp only [b] at quiet
    cases branch with
    | select =>
      by_cases watching : s.conn.transaction.watchKeys = []
      · refine .inl ?_
        show (handleSelect s.srv.store s.conn args).1.transaction.watchKeys = []
        rw [handleSelect_transaction, watching]
      · exact .of_place (handleSelect_place s.srv.store s.conn args (quiet (.inr watching)))
    | watch =>
      show s.conn.Keeps (handleWatch host s.srv s.conn args).1
      unfold handleWatch
      split
      · exact .of_place rfl
      · split
        · exact .of_place rfl
        · obtain ⟨added, tx⟩ := watchAll_eq
            (fun key => ((s.srv.store.db s.conn.dbIndex).shardFor key).keyVersion (host.clock 0 0) key) (args.drop 1)
            s.conn.transaction
          exact .inr ⟨rfl, added, congrArg RawTransaction.watchKeys tx⟩
    | unwatch => exact .inl rfl
    | multi =>
      show s.conn.Keeps (handleMulti s.conn).1
      unfold handleMulti
      split
      · exact .of_place rfl
      · exact .inr ⟨rfl, [], by simp [RawTransaction.begin]⟩
    | exec =>
      show s.conn.Keeps (handleExec host s.srv s.conn).2.1
      cases active : s.conn.transaction.active with
      | true => exact .inl (by rw [handleExec_transaction active]; rfl)
      | false => exact .of_place (by rw [handleExec_inactive active])
    | discard =>
      show s.conn.Keeps (handleDiscard s.conn).1
      unfold handleDiscard
      split
      · exact .of_place rfl
      · exact .inl rfl
    | reset => exact .inl rfl
    | queue => exact .inr ⟨rfl, [], by simp [handleRoute, RawTransaction.enqueue]⟩
    | _ => exact .of_place (handleRoute_place rfl _ _ _ _)

/-- An open transaction has these requests in its queue, and it is not marked as failed. -/
def RawTransaction.Queues (tx : RawTransaction) (queued : List (List Resp)) : Prop :=
  tx.error = false ∧ (tx.active = true → tx.queue = queued)

theorem RawTransaction.new_queues (queued : List (List Resp)) : RawTransaction.new.Queues queued :=
  ⟨rfl, fun active => by cases active⟩

/-- What the history says of the transaction. -/
structure TxSession.Recorded (s : TxSession) : Prop where
  queue : s.conn.transaction.Queues s.queued
  watch : s.watched.map Watched.entry = s.conn.transaction.watchKeys
  place : ∀ w ∈ s.watched, w.db = s.conn.dbIndex

theorem TxSession.Recorded.noteWatched {conn' : Connection} (h : s.Recorded) (keeps : s.conn.Keeps conn') :
    (s.noteWatched conn').map Watched.entry = conn'.transaction.watchKeys ∧
      ∀ w ∈ s.noteWatched conn', w.db = conn'.dbIndex := by
  unfold TxSession.noteWatched
  split
  · rename_i none
    simp [none]
  · rename_i some
    rcases keeps with none | ⟨db, added, keys⟩
    · exact absurd none some
    · rw [keys, List.drop_left, db]
      constructor
      · have entries : added.map (Watched.entry ∘ Watched.mk s.conn.dbIndex) = added := List.map_id added
        rw [List.map_append, h.watch, List.map_map, entries]
      · intro w mem
        rcases List.mem_append.1 mem with old | new
        · exact h.place w old
        · obtain ⟨entry, -, rfl⟩ := List.mem_map.1 new
          rfl

theorem request_queues (h : s.conn.transaction.Queues s.queued) :
    (request host args s.srv s.conn).conn.transaction.Queues (s.noteQueued args) := by
  have same {tx : RawTransaction} (queued : s.noteQueued args = s.queued) (eq : tx = s.conn.transaction) :
      tx.Queues (s.noteQueued args) := by
    rw [eq, queued]
    exact h
  cases b : s.branch args with
  | none => exact same (by simp [TxSession.noteQueued, b]) (Prod.mk.inj (request_of_none host b).1).2
  | some branch =>
    obtain ⟨eq, sent⟩ := request_of_branch host b
    rw [eq]
    cases branch with
    | select => exact same (by simp [TxSession.noteQueued, b]) (handleSelect_transaction s.srv.store s.conn args)
    | watch =>
      have queued : s.noteQueued args = s.queued := by simp [TxSession.noteQueued, b]
      show (handleWatch host s.srv s.conn args).1.transaction.Queues (s.noteQueued args)
      unfold handleWatch
      split
      · exact same queued rfl
      · split
        · exact same queued rfl
        · obtain ⟨added, tx⟩ := watchAll_eq
            (fun key => ((s.srv.store.db s.conn.dbIndex).shardFor key).keyVersion (host.clock 0 0) key) (args.drop 1)
            s.conn.transaction
          dsimp only
          rw [tx, queued]
          exact h
    | unwatch =>
      have queued : s.noteQueued args = s.queued := by simp [TxSession.noteQueued, b]
      rw [queued]
      exact h
    | multi =>
      show (handleMulti s.conn).1.transaction.Queues (s.noteQueued args)
      unfold handleMulti TxSession.noteQueued
      rw [b]
      dsimp only
      split
      · exact h
      · exact ⟨rfl, fun _ => rfl⟩
    | exec =>
      show (handleExec host s.srv s.conn).2.1.transaction.Queues (s.noteQueued args)
      cases active : s.conn.transaction.active with
      | true =>
        rw [handleExec_transaction active]
        exact RawTransaction.new_queues _
      | false => exact same (by simp [TxSession.noteQueued, b]) (by rw [handleExec_inactive active])
    | discard =>
      show (handleDiscard s.conn).1.transaction.Queues (s.noteQueued args)
      unfold handleDiscard
      split
      · exact same (by simp [TxSession.noteQueued, b]) rfl
      · exact RawTransaction.new_queues _
    | reset => exact RawTransaction.new_queues _
    | queue =>
      have active : s.conn.transaction.active = true := by
        cases sent with
        | named login mem => simp [namedRoutes] at mem
        | queue login writable active => exact active
      have queued : s.noteQueued args = s.queued ++ [args] := by simp [TxSession.noteQueued, b]
      rw [queued]
      exact ⟨h.1, fun _ => congrArg (· ++ [args]) (h.2 active)⟩
    | _ => exact same (by simp [TxSession.noteQueued, b]) (Prod.mk.inj (handleRoute_place rfl _ _ _ _)).2

theorem start_recorded (srv : Db) (clientId : Nat) : (TxSession.start srv clientId).Recorded where
  queue := RawTransaction.new_queues _
  watch := rfl
  place _ mem := by cases mem

theorem step_recorded {t : SessionTurn} (h : s.Recorded) (quiet : t.Quiet s) : (s.step t).Recorded := by
  unfold TxSession.step
  split
  · rename_i args event
    obtain ⟨watch, place⟩ := h.noteWatched (request_keeps (quiet args event))
    exact ⟨request_queues h.queue, watch, place⟩
  · exact ⟨h.queue, h.watch, h.place⟩

/-! ## What one request in a transaction does -/

theorem handleScript_eq {reg : Scripting} {sub : String} (is : toAsciiUppercase ((getStr args 1).getD "") = sub)
    (load : sub ≠ "LOAD") (flush : sub ≠ "FLUSH") : (handleScript host reg args).1 = reg := by
  unfold handleScript
  simp only [is, load, flush, if_false]
  split <;> rfl

theorem handleFunction_eq {reg : Scripting} {sub : String} (is : toAsciiUppercase ((getStr args 1).getD "") = sub)
    (load : sub ≠ "LOAD") (delete : sub ≠ "DELETE") (flush : sub ≠ "FLUSH") (restore : sub ≠ "RESTORE") :
    (handleFunction host reg args).1 = reg := by
  unfold handleFunction
  simp only [is, load, delete, flush, restore, if_false]
  split <;> rfl

theorem branch_ne_dispatch (active : s.conn.transaction.active = true) : s.branch args ≠ some .dispatch := by
  intro b
  obtain ⟨-, sent⟩ := request_of_branch (callHost []) b
  cases sent with
  | named login mem => simp [namedRoutes] at mem
  | dispatch login writable inactive => rw [active] at inactive; cases inactive

theorem request_keyspace (active : s.conn.transaction.active = true) (quiet : s.QuietRequest host args)
    (exec : s.branch args ≠ some .exec) {now : Nat} (later : ∀ dispatched access, host.clock dispatched access ≤ now) :
    Store.SameLive now s.srv.store (request host args s.srv s.conn).srv.store := by
  cases b : s.branch args with
  | none => exact (request_of_none host b).2.2 now later
  | some branch =>
    obtain ⟨eq, -⟩ := request_of_branch host b
    rw [eq]
    unfold TxSession.QuietRequest at quiet
    simp only [b] at quiet
    cases branch with
    | exec => exact absurd b exec
    | dispatch => exact absurd b (branch_ne_dispatch active)
    | client => exact handleClient_sameLive later args s.srv s.conn
    | eval => exact LuaRun.exec_sameLive later _ _ (quiet active)
    | evalsha => exact LuaRun.exec_sameLive later _ _ (quiet active)
    | fcall => exact LuaRun.exec_sameLive later _ _ (quiet active)
    | _ => exact .refl now s.srv.store

theorem request_scripting (active : s.conn.transaction.active = true) (quiet : s.QuietRequest host args)
    (exec : s.branch args ≠ some .exec) :
    (request host args s.srv s.conn).srv.scripting = s.srv.scripting := by
  cases b : s.branch args with
  | none => exact (request_of_none host b).2.1
  | some branch =>
    obtain ⟨eq, -⟩ := request_of_branch host b
    rw [eq]
    unfold TxSession.QuietRequest at quiet
    simp only [b] at quiet
    cases branch with
    | exec => exact absurd b exec
    | dispatch => exact absurd b (branch_ne_dispatch active)
    | client => exact handleClient_scripting args s.srv s.conn
    | eval => exact LuaRun.exec_scripting _ _ _ _ _
    | evalsha => exact LuaRun.exec_scripting _ _ _ _ _
    | fcall => exact LuaRun.exec_scripting _ _ _ _ _
    | script =>
      obtain ⟨load, flush⟩ := quiet active
      exact handleScript_eq rfl load flush
    | function =>
      obtain ⟨load, delete, flush, restore⟩ := quiet active
      exact handleFunction_eq rfl load delete flush restore
    | _ => rfl

/-- The selected database and the watched keys, while the transaction stays open. -/
theorem request_watched (active : s.conn.transaction.active = true) (quiet : s.QuietRequest host args)
    (stays : s.branch args ∉ [some .exec, some .discard, some .reset]) :
    (request host args s.srv s.conn).conn.dbIndex = s.conn.dbIndex ∧
      (request host args s.srv s.conn).conn.transaction.watchKeys = s.conn.transaction.watchKeys := by
  have same {conn' : Connection} (place : conn'.place = s.conn.place) :
      conn'.dbIndex = s.conn.dbIndex ∧ conn'.transaction.watchKeys = s.conn.transaction.watchKeys := by
    obtain ⟨db, tx⟩ := Prod.mk.inj place
    exact ⟨db, congrArg RawTransaction.watchKeys tx⟩
  cases b : s.branch args with
  | none => exact same (request_of_none host b).1
  | some branch =>
    obtain ⟨eq, -⟩ := request_of_branch host b
    rw [eq]
    unfold TxSession.QuietRequest at quiet
    simp only [b] at quiet
    cases branch with
    | exec | discard | reset => simp [b] at stays
    | select => exact same (handleSelect_place s.srv.store s.conn args (quiet (.inl active)))
    | watch => exact same (by simp [handleRoute, handleWatch, active, Served.conn'])
    | unwatch => exact ⟨rfl, (quiet active).symm⟩
    | multi => exact same (by simp [handleRoute, handleMulti, active, Served.conn'])
    | queue => exact ⟨rfl, rfl⟩
    | _ => exact same (handleRoute_place rfl _ _ _ _)

theorem request_discard (b : s.branch args = some .discard) :
    (request host args s.srv s.conn).conn.dbIndex = s.conn.dbIndex := by
  rw [(request_of_branch host b).1]
  show (handleDiscard s.conn).1.dbIndex = s.conn.dbIndex
  unfold handleDiscard
  split <;> rfl

theorem runQueue_length (db : Nat) (user : String) (dispatched : Nat) (queue : List (List Resp)) (srv : Db) :
    (runQueue host db user dispatched queue srv).2.length = queue.length := by
  induction queue generalizing dispatched srv with
  | nil => rfl
  | cons args queue ih => exact congrArg Nat.succ (ih _ _)

theorem TxSession.Recorded.watchDirty (h : s.Recorded) :
    watchDirty host s.srv s.conn = s.watched.any (Watched.dirty host s.srv.store) := by
  unfold NexradeCache.watchDirty
  rw [← h.watch, List.any_map, Bool.eq_iff_iff, List.any_eq_true, List.any_eq_true]
  refine exists_congr fun w => and_congr_right fun mem => ?_
  simp only [Function.comp, Watched.dirty, h.place w mem]

theorem request_exec (h : s.Recorded) (active : s.conn.transaction.active = true)
    (b : s.branch args = some .exec) :
    (request host args s.srv s.conn).replies = [s.execReply host] := by
  rw [(request_of_branch host b).1]
  show [(handleExec host s.srv s.conn).2.2] = _
  unfold handleExec TxSession.execReply
  rw [h.watchDirty]
  simp only [active, h.queue.1, h.queue.2 active, Bool.not_true, Bool.false_eq_true, if_false]
  split <;> rfl

theorem execReply_length {replies : List Resp} (reply : s.execReply host = .array (some replies)) :
    replies.length = s.queued.length := by
  unfold TxSession.execReply at reply
  split at reply
  · cases reply
  · cases reply
    exact runQueue_length _ _ _ _ _

theorem defers_of_quiet {t : SessionTurn} (h : s.Recorded) (quiet : t.Quiet s) : t.Defers s := by
  intro args event active
  have done : s.step t =
      ⟨(request t.host args s.srv s.conn).srv, (request t.host args s.srv s.conn).conn, s.noteQueued args,
        s.noteWatched (request t.host args s.srv s.conn).conn⟩ := by
    unfold TxSession.step
    rw [event]
  have noWrite := quiet args event
  rw [done]
  refine ⟨fun exec reset now later => ?_, fun stays => (request_watched active noWrite stays).2,
    request_exec h active, fun _ _ => execReply_length⟩
  refine ⟨request_keyspace active noWrite exec later, request_scripting active noWrite exec, ?_⟩
  by_cases discard : s.branch args = some .discard
  · exact request_discard discard
  · exact (request_watched active noWrite (by simp [exec, reset, discard])).1

end

/-! ## Runs -/

theorem TxSession.Unchanged.trans {now : Nat} {s s' s'' : TxSession} (h : s.Unchanged now s')
    (h' : s'.Unchanged now s'') : s.Unchanged now s'' where
  keyspace := h.keyspace.trans h'.keyspace
  scripting := h'.scripting.trans h.scripting
  selected := h'.selected.trans h.selected

/-- The requests of a transaction up to its DISCARD leave everything as it is. -/
theorem unchanged_of_undone {now : Nat} {turns : List SessionTurn} {s : TxSession}
    (defers : Always TxSession.step SessionTurn.Defers turns s)
    (undone : Always TxSession.step (SessionTurn.Undone now) turns s) :
    s.Unchanged now (run TxSession.step turns s) := by
  induction turns generalizing s with
  | nil => exact ⟨.refl now _, rfl, rfl⟩
  | cons t turns ih =>
    obtain ⟨⟨args, event, active, exec, reset, later⟩, undone⟩ := undone
    obtain ⟨deferred, defers⟩ := defers
    exact ((deferred args event active).unchanged exec reset now later).trans (ih defers undone)

/-- **MULTI defers** what follows it in every run of quiet requests: up to EXEC a transaction changes
neither the keyspace nor the scripts and functions nor the selected database, and neither does a whole
transaction that is discarded; EXEC answers for the requests that were queued, and it looks at each
watched key where it was watched. -/
theorem multi_defers {srv : Db} {clientId : Nat} {turns : List SessionTurn}
    (quiet : Always TxSession.step SessionTurn.Quiet turns (.start srv clientId)) :
    Always TxSession.step SessionTurn.Defers turns (.start srv clientId) ∧
      ∀ before block after now, turns = before ++ block ++ after →
        Always TxSession.step (SessionTurn.Undone now) block (run TxSession.step before (.start srv clientId)) →
          (run TxSession.step before (.start srv clientId)).Unchanged now
            (run TxSession.step (before ++ block) (.start srv clientId)) := by
  have defers : Always TxSession.step SessionTurn.Defers turns (.start srv clientId) :=
    (quiet.of_invariant (start_recorded srv clientId) (fun _ _ => step_recorded) fun _ _ => defers_of_quiet).1
  refine ⟨defers, fun before block after now parts undone => ?_⟩
  rw [parts, Always.append, Always.append] at defers
  rw [run_append]
  exact unchanged_of_undone defers.1.2 undone

/-! ## A transaction that does not wait -/

def txRequest (args : List String) : SessionTurn :=
  ⟨callHost [bulk "SET", bulk "k", bulk "v"], .request (args.map bulk)⟩

/-- A GET in a transaction. -/
theorem multi_defers_get :
    let turns := [txRequest ["MULTI"], txRequest ["GET", "k"], txRequest ["EXEC"]]
    Always TxSession.step SessionTurn.Quiet turns (.start (freshDb false) 1) ∧
      Always TxSession.step SessionTurn.Defers turns (.start (freshDb false) 1) := by
  have quiet : Always TxSession.step SessionTurn.Quiet
      [txRequest ["MULTI"], txRequest ["GET", "k"], txRequest ["EXEC"]] (.start (freshDb false) 1) := by
    refine ⟨?_, ?_, ?_, trivial⟩ <;> intro args event <;> cases event <;> exact trivial
  exact ⟨quiet, (multi_defers quiet).1⟩

/-- EVAL after MULTI writes at once. -/
theorem multi_eval_set :
    ¬ ∀ turns srv clientId, Always TxSession.step SessionTurn.Defers turns (.start srv clientId) := by
  intro defers
  have deferred := (defers [txRequest ["MULTI"], txRequest ["EVAL", "return redis.call('SET', 'k', 'v')", "0"]]
    (freshDb false) 1).2.1 _ rfl rfl
  have unchanged := deferred.unchanged (by decide) (by decide) 0 (fun _ _ => Nat.le_refl 0)
  have seen := congrArg Option.isSome (unchanged.keyspace 0 (Utf8.asBytes "k"))
  revert seen
  decide

end NexradeCache
