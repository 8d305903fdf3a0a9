import NexradeCache.Server.Connection

/-!
# What requests leave as they are

The live keyspace, as long as no write is dispatched; the script cache and the libraries, which the
dispatcher has no access to; and the fields of the connection that a handler has nothing to do with.
-/

namespace NexradeCache

variable {host : Host} {now : Nat}

/-- A request that is read as a command goes the way `route` finds for it. -/
theorem request_commands (host : Host) {args : List Resp} (nonempty : args ≠ []) (srv : Db) {conn : Connection}
    (commands : conn.mode = .commands) :
    request host args srv conn =
      handleRoute host (route conn srv.shared.isReplica (cmdName args)) (cmdName args) args srv conn := by
  unfold request
  simp [nonempty, commands]

/-! ## What dispatching reads leaves as it is -/

/-- A command that is no write keeps the live keyspace, whoever sends it. -/
theorem dispatchTracked_sameLive {cmd : String} (read : isWriteCommand cmd = false) {dispatched : Nat}
    (later : ∀ i, host.clock dispatched i ≤ now) (db : Nat) (user : String) (clientId : Nat) (args : List Resp)
    (srv : Db) :
    Store.SameLive now srv.store (dispatchTracked host dispatched db user clientId cmd args srv).1.store := by
  unfold dispatchTracked
  rw [refuseWrite_read read]
  simp only [read, Bool.false_and, Bool.false_eq_true, if_false]
  exact Handler.exec_sameLive (dispatchInner_readonly read srv.shared.acl user _ db args) later 0 srv.store

/-- A request is no write by its name. -/
def NoWrite (args : List Resp) : Prop := isWriteCommand (cmdName args) = false

/-- A script's command that is no write keeps the live keyspace. -/
theorem dispatchWithUser_sameLive {args : List Resp} (reads : NoWrite args) {dispatched : Nat}
    (later : ∀ i, host.clock dispatched i ≤ now) (db : Nat) (user : String) (srv : Db) :
    Store.SameLive now srv.store (dispatchWithUser host dispatched db user args srv).1.store := by
  unfold NoWrite cmdName at reads
  unfold dispatchWithUser
  split
  · exact .refl now srv.store
  · rename_i name found
    rw [found, Option.map_some, Option.getD_some] at reads
    exact dispatchTracked_sameLive reads later db user 0 args srv

variable (later : ∀ dispatched i, host.clock dispatched i ≤ now)

include later

/-- A transaction without writes keeps the live keyspace. -/
theorem runQueue_sameLive (db : Nat) (user : String) {queue : List (List Resp)} (reads : ∀ args ∈ queue, NoWrite args)
    (dispatched : Nat) (srv : Db) :
    Store.SameLive now srv.store (runQueue host db user dispatched queue srv).1.store := by
  induction queue generalizing dispatched srv with
  | nil => exact .refl now srv.store
  | cons args queue ih =>
    have first := dispatchWithUser_sameLive (reads args (.head _)) (later dispatched) db user srv
    have rest := ih (fun a mem => reads a (.tail _ mem)) (dispatched + 1)
      (dispatchWithUser host dispatched db user args srv).1
    exact first.trans rest

omit later in
/-- The commands the script calls are no writes, in the run it makes from this state. -/
def LuaRun.NoWrites (host : Host) (db : Nat) (user : String) : (dispatched : Nat) → LuaRun → Db → Prop
  | _, .ret _, _ => True
  | dispatched, .call args next, srv =>
    let done := dispatchWithUser host dispatched db user args srv
    NoWrite args ∧ (next done.2).NoWrites host db user (dispatched + 1) done.1

/-- A script whose commands are no writes keeps the live keyspace. -/
theorem LuaRun.exec_sameLive (db : Nat) (user : String) {script : LuaRun} {dispatched : Nat} {srv : Db}
    (reads : script.NoWrites host db user dispatched srv) :
    Store.SameLive now srv.store (script.exec host db user dispatched srv).1.store := by
  induction script generalizing dispatched srv with
  | ret reply => exact .refl now srv.store
  | call args next ih =>
    obtain ⟨here, rest⟩ := reads
    exact (dispatchWithUser_sameLive here (later dispatched) db user srv).trans (ih _ rest)

/-- CLIENT is answered by the connection; what reaches the store is no write. -/
theorem handleClient_sameLive (args : List Resp) (srv : Db) (conn : Connection) :
    Store.SameLive now srv.store (handleClient host conn args srv).1.store := by
  unfold handleClient
  dsimp only
  split
  · exact .refl now srv.store
  · split
    · exact .refl now srv.store
    · split
      · exact .refl now srv.store
      · exact dispatchTracked_sameLive (by decide) (later 0) _ _ _ args srv

omit later

/-- In subscribe mode nothing reaches the store. -/
theorem subscribeMode_store (cmd : String) (args : List Resp) (srv : Db) (conn : Connection) :
    (subscribeMode cmd args srv conn).srv.store = srv.store := by
  unfold subscribeMode
  split
  · rfl
  · split
    · rfl
    · split
      · rfl
      · split <;> rfl

/-! ## The connection -/

/-- The connection but for its subscriptions and its mode. -/
def Connection.core (conn : Connection) : Connection :=
  { conn with subscriptions := [], patternSubscriptions := [], mode := .commands }

/-- The channels of a connection are no part of its core. -/
theorem core_setChannels (conn : Connection) (isPattern : Bool) (channels : List Bytes) :
    (conn.setChannels isPattern channels).core = conn.core := by
  unfold Connection.setChannels
  split <;> rfl

/-- SUBSCRIBE and PSUBSCRIBE touch the channels only. -/
theorem subscribeAll_core (isPattern : Bool) (args : List Resp) (shared : Shared) (conn : Connection) :
    (subscribeAll isPattern args shared conn).2.1.core = conn.core := by
  induction args generalizing shared conn with
  | nil => rfl
  | cons a rest ih =>
    unfold subscribeAll
    split
    · exact ih shared conn
    · dsimp only
      rw [ih]
      split
      · exact core_setChannels _ _ _
      · rfl

/-- UNSUBSCRIBE and PUNSUBSCRIBE touch the channels only. -/
theorem unsubscribeAll_core (isPattern : Bool) (channels : List Bytes) (shared : Shared) (conn : Connection) :
    (unsubscribeAll isPattern channels shared conn).2.1.core = conn.core := by
  induction channels generalizing shared conn with
  | nil => rfl
  | cons channel rest ih =>
    unfold unsubscribeAll
    dsimp only
    rw [ih]
    exact core_setChannels _ _ _

/-- The command behind both, with its arity check. -/
theorem doSubscribe_core (isPattern : Bool) (args : List Resp) (shared : Shared) (conn : Connection) :
    (doSubscribe isPattern args shared conn).2.1.core = conn.core := by
  unfold doSubscribe
  split
  · rfl
  · exact subscribeAll_core _ _ _ _

/-- In subscribe mode the core of the connection stays as it is. -/
theorem subscribeMode_core (cmd : String) (args : List Resp) (srv : Db) (conn : Connection) :
    (subscribeMode cmd args srv conn).conn.core = conn.core := by
  unfold subscribeMode
  split
  · exact doSubscribe_core _ _ _ _
  · split
    · dsimp only
      have same : (doUnsubscribe (cmd = "PUNSUBSCRIBE") args srv.shared conn).2.1.core = conn.core :=
        unsubscribeAll_core _ _ _ _
      split <;> exact same
    · split
      · rfl
      · split <;> rfl

/-- The selected database and the transaction. -/
def Connection.place (conn : Connection) : Nat × RawTransaction := (conn.dbIndex, conn.transaction)

/-- The place, the database and the transaction, is part of the core. -/
theorem place_of_core {conn conn' : Connection} (h : conn'.core = conn.core) : conn'.place = conn.place := by
  have same : conn'.core.place = conn.core.place := by rw [h]
  exact same

/-- A login changes the user, not the place. -/
theorem authenticateAs_place (shared : Shared) (conn : Connection) (user pass : String) :
    (authenticateAs host shared conn user pass).1.place = conn.place := by
  unfold authenticateAs
  split
  · split <;> rfl
  · split
    · rfl
    · split <;> rfl

/-- AUTH, in both forms, keeps the place. -/
theorem handleAuth_place (shared : Shared) (conn : Connection) (args : List Resp) :
    (handleAuth host shared conn args).1.place = conn.place := by
  unfold handleAuth
  split
  · exact authenticateAs_place _ _ _ _
  · rfl

/-- The options of HELLO keep the place, a login among them. -/
theorem helloOptions_place (shared : Shared) (rest : List Resp) (conn : Connection) :
    (helloOptions host shared rest conn).1.place = conn.place := by
  have tried {conn conn' : Connection} {reply : Resp} {user pass : String}
      (h : authenticateAs host shared conn user pass = (conn', reply)) : conn'.place = conn.place := by
    have same : (authenticateAs host shared conn user pass).1.place = conn.place := authenticateAs_place _ _ _ _
    rw [h] at same
    exact same
  fun_induction helloOptions host shared rest conn with
  | case1 conn => rfl
  | case2 a rest conn noText ih => exact ih
  | case3 a rest conn opt found auth conn' reply done failed => exact tried done
  | case4 a conn opt found auth conn' reply failed x y rest done ih => exact ih.trans (tried done)
  | case5 a rest conn opt found auth conn' reply done failed short => exact tried done
  | case6 a conn opt found auth setname x rest ih => exact ih
  | case7 a conn opt found auth setname => rfl
  | case8 a rest conn opt found auth setname ih => exact ih

theorem handleHello_place (shared : Shared) (conn : Connection) (args : List Resp) :
    (handleHello host shared conn args).1.place = conn.place := by
  have options : (helloOptions host shared (args.drop 2) conn).1.place = conn.place := helloOptions_place _ _ _
  unfold handleHello
  dsimp only
  split
  · rfl
  · split
    · rename_i conn' error done
      rw [done] at options
      exact options
    · rename_i conn' done
      rw [done] at options
      exact options

/-- EXEC ends the transaction, also when it refuses to run it. -/
theorem handleExec_transaction {srv : Db} {conn : Connection} (active : conn.transaction.active = true) :
    (handleExec host srv conn).2.1.transaction = .new := by
  unfold handleExec
  simp only [active, Bool.not_true, Bool.false_eq_true, if_false]
  split
  · rfl
  · split <;> rfl

/-- Without a transaction EXEC leaves the connection as it is. -/
theorem handleExec_inactive {srv : Db} {conn : Connection} (inactive : conn.transaction.active = false) :
    (handleExec host srv conn).2.1 = conn := by
  unfold handleExec
  simp [inactive]

/-! ## Scripts and libraries -/

/-- A command leaves the scripts and libraries of the server alone. -/
theorem dispatchTracked_scripting (dispatched db : Nat) (user : String) (clientId : Nat) (cmd : String)
    (args : List Resp) (srv : Db) :
    (dispatchTracked host dispatched db user clientId cmd args srv).1.scripting = srv.scripting := by
  unfold dispatchTracked
  split
  · rfl
  · rfl

theorem dispatchWithUser_scripting (dispatched db : Nat) (user : String) (args : List Resp) (srv : Db) :
    (dispatchWithUser host dispatched db user args srv).1.scripting = srv.scripting := by
  unfold dispatchWithUser
  split
  · rfl
  · exact dispatchTracked_scripting _ _ _ _ _ _ _

/-- So does a script as a whole, command after command. -/
theorem LuaRun.exec_scripting (db : Nat) (user : String) (script : LuaRun) (dispatched : Nat) (srv : Db) :
    (script.exec host db user dispatched srv).1.scripting = srv.scripting := by
  induction script generalizing dispatched srv with
  | ret reply => rfl
  | call args next ih => exact (ih _ _ _).trans (dispatchWithUser_scripting dispatched db user args srv)

theorem handleClient_scripting (args : List Resp) (srv : Db) (conn : Connection) :
    (handleClient host conn args srv).1.scripting = srv.scripting := by
  unfold handleClient
  dsimp only
  split
  · rfl
  · split
    · rfl
    · split
      · rfl
      · exact dispatchTracked_scripting _ _ _ _ _ _ _

/-- So does every request in subscribe mode. -/
theorem subscribeMode_scripting (cmd : String) (args : List Resp) (srv : Db) (conn : Connection) :
    (subscribeMode cmd args srv conn).srv.scripting = srv.scripting := by
  unfold subscribeMode
  split
  · rfl
  · split
    · rfl
    · split
      · rfl
      · split <;> rfl

end NexradeCache
