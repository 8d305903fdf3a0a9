import NexradeCache.Server.Frames

/-!
# What a user without permission can do

The permission of a command is checked in `dispatch_inner`. The branches of the connection loop that
answer by themselves do not check it, and neither does queueing, so the rules of a user bind only the
commands that are dispatched at once. `Checked` says which requests are refused for whatever arguments:
those that get to the check, and those that their branch refuses to everybody. A write that is denied
has evicted before.
-/

namespace NexradeCache

/-! ## Confinement -/

/-- The user of the connection has no permission for the command, and the command needs one. -/
structure Restricted (srv : Db) (conn : Connection) (cmd : String) : Prop where
  login : conn.authenticated = true
  reads : conn.mode ≠ .closed
  denied : ∃ u, srv.shared.acl.users.lookup conn.authenticatedUser = some u ∧ u.commandAllowed cmd = false
  needed : cmd ∉ ["AUTH", "HELLO", "QUIT", "RESET"]

def Shared.replication (shared : Shared) : Bool × List Nat × List (List Resp) :=
  (shared.isReplica, shared.replicas, shared.propagated)

/-- A request is answered with an error and has no effect. -/
structure Confined (host : Host) (args : List Resp) (srv : Db) (conn : Connection) : Prop where
  refused : ∃ text, (request host args srv conn).replies = [.error text]
  keyspace : ∀ now, (∀ dispatched access, host.clock dispatched access ≤ now) →
    Store.SameLive now srv.store (request host args srv conn).srv.store
  pubsub : (request host args srv conn).srv.shared.pubsub = srv.shared.pubsub
  scripting : (request host args srv conn).srv.scripting = srv.scripting
  replication : (request host args srv conn).srv.shared.replication = srv.shared.replication
  same : (request host args srv conn).conn = conn

/-- Every request of the command, whatever its arguments and the scripts and functions there are. -/
def CommandConfined (host : Host) (cmd : String) (srv : Db) (conn : Connection) : Prop :=
  ∀ args scripting, args ≠ [] → cmdName args = cmd → Confined host args { srv with scripting } conn

/-- Eviction finds nothing to drop. -/
def EvictsNothing (host : Host) (store : Store) : Prop :=
  ∀ now, (∀ dispatched access, host.clock dispatched access ≤ now) → Store.SameLive now store (host.evict store)

/-- The commands that the loop of subscriptions answers. -/
def subscribeModeCommands : List String :=
  ["SUBSCRIBE", "PSUBSCRIBE", "SSUBSCRIBE", "UNSUBSCRIBE", "PUNSUBSCRIBE", "SUNSUBSCRIBE", "PING"]

/-- The flag for an unrestricted `default` does not vouch for the user. -/
def NoFastPath (srv : Db) (conn : Connection) : Prop :=
  ¬ (srv.shared.acl.isOpen = true ∧ conn.authenticatedUser = "default")

/-- The command gets to the check of permissions, or its branch refuses it to everybody. -/
def Checked (host : Host) (cmd : String) (srv : Db) (conn : Connection) : Prop :=
  match conn.mode with
  | .commands =>
    match route conn srv.shared.isReplica cmd with
    | .readonly => True
    | .select => srv.store.dbs = []
    | .watch | .multi => conn.transaction.active = true
    | .exec | .discard => conn.transaction.active = false
    | .dispatch =>
      isWriteCommand cmd = true ∧ WritesOff host 0 cmd srv.shared ∨
        NoFastPath srv conn ∧ (isWriteCommand cmd = true → EvictsNothing host srv.store)
    | _ => False
  | .subscribe => cmd ∉ subscribeModeCommands
  | _ => False

/-! ## The check -/

section
variable {host : Host} {cmd : String} {srv : Db} {conn : Connection}

theorem checkPermission_denied (h : Restricted srv conn cmd) (flag : NoFastPath srv conn) (keys : List Bytes) :
    ∃ e, srv.shared.acl.checkPermission conn.authenticatedUser cmd keys = .error e := by
  obtain ⟨u, found, denied⟩ := h.denied
  cases result : srv.shared.acl.checkPermission conn.authenticatedUser cmd keys with
  | error e => exact ⟨e, rfl⟩
  | ok _ =>
    rcases AclManager.checkPermission_ok result with fast | ⟨u', found', -, allowed, -⟩
    · exact absurd fast flag
    · rw [found] at found'
      cases found'
      rw [denied] at allowed
      cases allowed

/-- The handler of a denied command does not run. -/
theorem dispatchInner_denied (host : Host) (h : Restricted srv conn cmd) (flag : NoFastPath srv conn)
    (args : List Resp) :
    ∃ text, dispatchInner host.env srv.shared.acl conn.authenticatedUser (touchedKeys srv.shared cmd args)
      cmd conn.dbIndex args = .done (.error text) := by
  obtain ⟨e, denied⟩ := checkPermission_denied h flag (touchedKeys srv.shared cmd args)
  unfold dispatchInner
  split
  · exact ⟨_, rfl⟩
  · rw [denied]
    exact ⟨_, rfl⟩

/-- A denied command that is let in is answered with an error; all it does is to evict, if it is a write. -/
theorem handleDispatch_denied (host : Host) (h : Restricted srv conn cmd) (flag : NoFastPath srv conn)
    (on : isWriteCommand cmd = true → ¬WritesOff host 0 cmd srv.shared) (args : List Resp) :
    ∃ text, handleDispatch host cmd args srv conn =
      ({ srv with store := if isWriteCommand cmd then host.evict srv.store else srv.store }, .error text) := by
  obtain ⟨e, denied⟩ := checkPermission_denied h flag (touchedKeys srv.shared cmd args)
  have noEffect : permitted srv.shared conn.authenticatedUser cmd args = false := by
    unfold permitted
    rw [denied]
    exact Bool.and_false _
  obtain ⟨text, refused⟩ := dispatchInner_denied host h flag args
  refine ⟨text, ?_⟩
  unfold handleDispatch dispatchTracked
  rw [refuseWrite_on on, refused, noEffect]
  simp [Handler.exec, Resp.isError]

/-- A write that is not let in does nothing, whoever sends it. -/
theorem handleDispatch_off (host : Host) (srv : Db) (conn : Connection) (write : isWriteCommand cmd = true)
    (off : WritesOff host 0 cmd srv.shared) (args : List Resp) :
    ∃ text, handleDispatch host cmd args srv conn = (srv, .error text) := by
  obtain ⟨text, refused⟩ := refuseWrite_off write off
  refine ⟨text, ?_⟩
  unfold handleDispatch dispatchTracked
  rw [refused]
  simp [Resp.isError]

/-! ## Who is confined -/

theorem Confined.of_request {args : List Resp} {store : Store} {text : String}
    (eq : request host args srv conn = ⟨{ srv with store }, conn, [.error text]⟩)
    (keyspace : ∀ now, (∀ dispatched access, host.clock dispatched access ≤ now) → Store.SameLive now srv.store store) :
    Confined host args srv conn where
  refused := ⟨text, congrArg Served.replies eq⟩
  keyspace := by rw [eq]; exact keyspace
  pubsub := by rw [eq]
  scripting := by rw [eq]
  replication := by rw [eq]
  same := by rw [eq]

theorem Confined.of_refused {args : List Resp} {text : String}
    (eq : request host args srv conn = ⟨srv, conn, [.error text]⟩) : Confined host args srv conn :=
  .of_request eq fun now _ => .refl now srv.store

theorem confined_of_off {args : List Resp}
    (eq : request host args srv conn = .srv' conn (handleDispatch host cmd args srv conn))
    (write : isWriteCommand cmd = true) (off : WritesOff host 0 cmd srv.shared) : Confined host args srv conn := by
  obtain ⟨text, refused⟩ := handleDispatch_off host srv conn write off args
  rw [refused] at eq
  exact .of_refused eq

theorem confined_of_denied (h : Restricted srv conn cmd) (flag : NoFastPath srv conn) {args : List Resp}
    (eq : request host args srv conn = .srv' conn (handleDispatch host cmd args srv conn))
    (on : isWriteCommand cmd = true → ¬WritesOff host 0 cmd srv.shared)
    (quiet : isWriteCommand cmd = true → EvictsNothing host srv.store) : Confined host args srv conn := by
  obtain ⟨text, denied⟩ := handleDispatch_denied host h flag on args
  rw [denied] at eq
  refine .of_request eq fun now later => ?_
  split
  · rename_i write
    exact quiet write now later
  · exact .refl now srv.store

theorem handleSelect_noDatabase {store : Store} (none : store.dbs = []) (conn : Connection) (args : List Resp) :
    ∃ text, handleSelect store conn args = (conn, .error text) := by
  unfold handleSelect
  split
  · simp [none]
  · exact ⟨_, rfl⟩

theorem commandConfined_of_checked (h : Restricted srv conn cmd) (checked : Checked host cmd srv conn) :
    CommandConfined host cmd srv conn := by
  intro args scripting nonempty name
  unfold Checked at checked
  cases mode : conn.mode with
  | commands =>
    have eq := request_commands host nonempty { srv with scripting } mode
    rw [name] at eq
    simp only [mode] at checked eq
    generalize route conn srv.shared.isReplica cmd = branch at checked eq
    cases branch with
    | readonly => exact .of_refused eq
    | select =>
      obtain ⟨text, refused⟩ := handleSelect_noDatabase checked conn args
      simp only [handleRoute, refused] at eq
      exact .of_refused eq
    | watch =>
      simp only [handleRoute, handleWatch, checked, if_true] at eq
      exact .of_refused eq
    | multi =>
      simp only [handleRoute, handleMulti, checked, if_true] at eq
      exact .of_refused eq
    | exec =>
      simp only [handleRoute, handleExec, checked, Bool.not_false, if_true] at eq
      exact .of_refused eq
    | discard =>
      simp only [handleRoute, handleDiscard, checked, Bool.not_false, if_true] at eq
      exact .of_refused eq
    | dispatch =>
      by_cases off : isWriteCommand cmd = true ∧ WritesOff host 0 cmd srv.shared
      · exact confined_of_off eq off.1 off.2
      · have h' : Restricted { srv with scripting } conn cmd := ⟨h.login, h.reads, h.denied, h.needed⟩
        obtain ⟨flag, quiet⟩ := checked.resolve_left off
        exact confined_of_denied h' flag eq (fun write isOff => off ⟨write, isOff⟩) quiet
    | _ => exact absurd checked id
  | subscribe =>
    have needed := h.needed
    simp only [mode, subscribeModeCommands, List.mem_cons, List.not_mem_nil, or_false, not_or] at checked needed
    have eq : request host args { srv with scripting } conn =
        ⟨{ srv with scripting }, conn, [.error "ERR Command not allowed in subscribe mode"]⟩ := by
      unfold request subscribeMode
      simp [nonempty, mode, name, checked, needed]
    exact .of_refused eq
  | monitor | psync | closed => simp [mode] at checked

/-! ## Who is not -/

theorem Confined.isError {args : List Resp} {reply : Resp} (confined : Confined host args srv conn)
    (eq : (request host args srv conn).replies = [reply]) : reply.isError = true := by
  obtain ⟨text, refused⟩ := confined.refused
  rw [eq] at refused
  cases refused
  rfl

/-- Some request of the command gets an answer that is no error. -/
def Answers (host : Host) (branch : Route) (cmd : String) (srv : Db) (conn : Connection) : Prop :=
  ∃ args scripting reply, args ≠ [] ∧ cmdName args = cmd ∧ reply.isError = false ∧
    (handleRoute host branch cmd args { srv with scripting } conn).replies = [reply]

theorem not_answers_of_confined (confined : CommandConfined host cmd srv conn) (commands : conn.mode = .commands)
    {branch : Route} (sent : route conn srv.shared.isReplica cmd = branch) : ¬ Answers host branch cmd srv conn := by
  rintro ⟨args, scripting, reply, nonempty, name, noError, answer⟩
  have error : reply.isError = true := by
    refine (confined args scripting nonempty name).isError ?_
    rw [request_commands host nonempty _ commands, name, sent, answer]
  rw [noError] at error
  cases error

theorem same_of_confined (confined : CommandConfined host cmd srv conn) (commands : conn.mode = .commands)
    {branch : Route} (sent : route conn srv.shared.isReplica cmd = branch) {args : List Resp} (nonempty : args ≠ [])
    (name : cmdName args = cmd) : (handleRoute host branch cmd args srv conn).conn = conn := by
  have same := (confined args srv.scripting nonempty name).same
  rw [request_commands host nonempty _ commands, name, sent] at same
  exact same

/-- Some script, and some function, returns something that is no error. -/
structure Host.Returns (host : Host) : Prop where
  eval : ∃ script reply, host.eval script [] [] = .ret reply ∧ reply.isError = false
  call : ∃ source func reply, host.call source func [] [] = .ret reply ∧ reply.isError = false

@[simp] theorem asStr_bulk (s : String) : (bulk s).asStr = some s := Utf8.fromUtf8_asBytes s

theorem cmdName_bulk (s : String) (args : List Resp) : cmdName (bulk s :: args) = toAsciiUppercase s := by
  simp [cmdName]

theorem select_answers (some : srv.store.dbs ≠ []) : Answers host .select "SELECT" srv conn := by
  have inRange : 0 < srv.store.dbs.length := List.length_pos_iff.2 some
  have zero : Decimal.parseUsize ((getStr [bulk "SELECT"] 1).getD "0") = .some 0 := by decide
  refine ⟨[bulk "SELECT"], srv.scripting, ok, by simp, by decide, rfl, ?_⟩
  simp [handleRoute, handleSelect, zero, inRange, Served.conn']

theorem client_answers : Answers host .client "CLIENT" srv conn := by
  refine ⟨[bulk "CLIENT", bulk "TRACKING", bulk "OFF"], srv.scripting, ok, by simp, by decide, rfl, ?_⟩
  have tracking : toAsciiUppercase "TRACKING" = "TRACKING" := by decide
  have off : toAsciiUppercase "OFF" = "OFF" := by decide
  simp only [handleRoute, handleClient, handleClientTracking, Served.srv', getStr, List.getElem?_cons_succ,
    List.getElem?_cons_zero, Option.bind_some, asStr_bulk, Option.getD_some, Option.map_some, tracking, off, if_true]
  split <;> rfl

theorem watch_answers (inactive : conn.transaction.active = false) : Answers host .watch "WATCH" srv conn := by
  refine ⟨[bulk "WATCH", .null], srv.scripting, ok, by simp, by decide, rfl, ?_⟩
  simp [handleRoute, handleWatch, inactive, watchAll, Resp.asBytes, Served.conn']

theorem scriptArgs_bulk (name what head text : String) :
    scriptArgs name what [bulk head, bulk text, bulk "0"] = .ok (text, [], []) := by
  have zero : Decimal.parseUsize "0" = some 0 := by decide
  simp [scriptArgs, getStr, zero]

theorem eval_answers (lua : host.Returns) : Answers host .eval "EVAL" srv conn := by
  obtain ⟨script, reply, run, noError⟩ := lua.eval
  refine ⟨[bulk "EVAL", bulk script, bulk "0"], srv.scripting, reply, by simp, ?_, noError, ?_⟩
  · rw [cmdName_bulk]
    decide
  · simp [handleRoute, evalRun, scriptArgs_bulk, run, LuaRun.exec, Served.srv']

theorem evalsha_answers (lua : host.Returns) : Answers host .evalsha "EVALSHA" srv conn := by
  obtain ⟨script, reply, run, noError⟩ := lua.eval
  have cached : (AList.insert "" script ∅ : AList fun _ : String => String).lookup "" = some script :=
    AList.lookup_insert _
  refine ⟨[bulk "EVALSHA", bulk "", bulk "0"], ⟨AList.insert "" script ∅, []⟩, reply, by simp, by decide, noError, ?_⟩
  simp only [handleRoute, evalshaRun, scriptArgs_bulk, cached, run, LuaRun.exec, Served.srv']

theorem fcall_answers (lua : host.Returns) (is : cmd = "FCALL" ∨ cmd = "FCALL_RO") :
    Answers host .fcall cmd srv conn := by
  obtain ⟨source, func, reply, run, noError⟩ := lua.call
  refine ⟨[bulk cmd, bulk func, bulk "0"], ⟨∅, [⟨"", source, [func]⟩]⟩, reply, by simp, ?_, noError, ?_⟩
  · rw [cmdName_bulk]
    rcases is with rfl | rfl <;> decide
  · simp [handleRoute, fcallRun, scriptArgs_bulk, run, LuaRun.exec, Served.srv']

theorem script_answers : Answers host .script "SCRIPT" srv conn :=
  ⟨[bulk "SCRIPT", bulk "FLUSH"], srv.scripting, ok, by simp, by decide, rfl, rfl⟩

theorem function_answers : Answers host .function "FUNCTION" srv conn :=
  ⟨[bulk "FUNCTION", bulk "FLUSH"], srv.scripting, ok, by simp, by decide, rfl, rfl⟩

/-- The name of a command that is routed by its name. -/
theorem Routed.mem_namedRoutes {isReplica : Bool} {branch : Route} (sent : Routed conn isReplica cmd branch)
    (other : branch ∈ namedRoutes.map Prod.snd) : (cmd, branch) ∈ namedRoutes := by
  cases sent with
  | named login mem => exact mem
  | _ => simp [namedRoutes] at other

/-! Branch by branch: what is left of a branch whose commands are confined. -/

/-- The branches that lead to another loop change the connection. -/
theorem not_loop_of_confined (confined : CommandConfined host cmd srv conn) (commands : conn.mode = .commands)
    {branch : Route} (sent : route conn srv.shared.isReplica cmd = branch) {args : List Resp} (nonempty : args ≠ [])
    (name : cmdName args = cmd) (isPattern : Bool) :
    branch ≠ .subscribe isPattern ∧ branch ≠ .monitor ∧ branch ≠ .psync := by
  have same := same_of_confined confined commands sent nonempty name
  have mode := congrArg Connection.mode same
  rw [commands] at mode
  refine ⟨?_, ?_, ?_⟩ <;> rintro rfl <;> cases mode

/-- The branches of the commands that need no permission. -/
theorem not_exempt_of_restricted (h : Restricted srv conn cmd) {isReplica : Bool} {branch : Route}
    (routed : Routed conn isReplica cmd branch) :
    branch ≠ .auth ∧ branch ≠ .noauth ∧ branch ≠ .hello ∧ branch ≠ .quit ∧ branch ≠ .reset := by
  have needed := h.needed
  have login := h.login
  refine ⟨?_, ?_, ?_, ?_, ?_⟩ <;> rintro rfl
  · cases routed with
    | auth is => simp [is] at needed
    | named _ mem => simp [namedRoutes] at mem
  · cases routed with
    | noauth out _ => simp [login] at out
    | named _ mem => simp [namedRoutes] at mem
  all_goals
    have is := routed.mem_namedRoutes (by simp [namedRoutes])
    simp [namedRoutes] at is
    simp [is] at needed

/-- The branches that answer whatever the state is. -/
theorem unchecked_answers (lua : host.Returns) {args : List Resp} (nonempty : args ≠ []) (name : cmdName args = cmd)
    {isReplica : Bool} {branch : Route} (routed : Routed conn isReplica cmd branch)
    (unchecked : branch ∈ [.client, .unsubscribe, .unwatch, .eval, .evalsha, .script, .function, .fcall, .queue]) :
    Answers host branch cmd srv conn := by
  have named := routed.mem_namedRoutes
  simp only [List.mem_cons, List.not_mem_nil, or_false] at unchecked
  rcases unchecked with rfl | rfl | rfl | rfl | rfl | rfl | rfl | rfl | rfl
  · have is : cmd = "CLIENT" := by simpa [namedRoutes] using named
    exact is ▸ client_answers
  · exact ⟨args, srv.scripting, _, nonempty, name, rfl, rfl⟩
  · exact ⟨args, srv.scripting, ok, nonempty, name, rfl, rfl⟩
  · have is : cmd = "EVAL" := by simpa [namedRoutes] using named
    exact is ▸ eval_answers lua
  · have is : cmd = "EVALSHA" := by simpa [namedRoutes] using named
    exact is ▸ evalsha_answers lua
  · have is : cmd = "SCRIPT" := by simpa [namedRoutes] using named
    exact is ▸ script_answers
  · have is : cmd = "FUNCTION" := by simpa [namedRoutes] using named
    exact is ▸ function_answers
  · have is : cmd = "FCALL" ∨ cmd = "FCALL_RO" := by simpa [namedRoutes] using named
    exact fcall_answers lua is
  · exact ⟨args, srv.scripting, _, nonempty, name, rfl, rfl⟩

theorem noDatabase_of_confined (confined : CommandConfined host cmd srv conn) (commands : conn.mode = .commands)
    (sent : route conn srv.shared.isReplica cmd = .select) : srv.store.dbs = [] := by
  have named := (routed conn srv.shared.isReplica cmd).mem_namedRoutes
  rw [sent] at named
  have is : cmd = "SELECT" := by simpa [namedRoutes] using named
  have silent := not_answers_of_confined confined commands sent
  rw [is] at silent
  exact by_contra fun some => silent (select_answers some)

theorem active_of_confined (confined : CommandConfined host cmd srv conn) (commands : conn.mode = .commands)
    (sent : route conn srv.shared.isReplica cmd = .watch ∨ route conn srv.shared.isReplica cmd = .multi)
    {args : List Resp} (nonempty : args ≠ []) (name : cmdName args = cmd) : conn.transaction.active = true := by
  refine by_contra fun inactive => ?_
  rw [Bool.not_eq_true] at inactive
  rcases sent with sent | sent
  · have named := (routed conn srv.shared.isReplica cmd).mem_namedRoutes
    rw [sent] at named
    have is : cmd = "WATCH" := by simpa [namedRoutes] using named
    have silent := not_answers_of_confined confined commands sent
    rw [is] at silent
    exact silent (watch_answers inactive)
  · refine not_answers_of_confined confined commands sent ⟨args, srv.scripting, ok, nonempty, name, rfl, ?_⟩
    simp [handleRoute, handleMulti, inactive, Served.conn']

theorem inactive_of_confined (confined : CommandConfined host cmd srv conn) (commands : conn.mode = .commands)
    (sent : route conn srv.shared.isReplica cmd = .exec ∨ route conn srv.shared.isReplica cmd = .discard)
    {args : List Resp} (nonempty : args ≠ []) (name : cmdName args = cmd) : conn.transaction.active = false := by
  cases active : conn.transaction.active with
  | false => rfl
  | true =>
    rcases sent with sent | sent
    · have ended : (handleExec host srv conn).2.1.transaction = .new := handleExec_transaction active
      have kept : (handleExec host srv conn).2.1 = conn := same_of_confined confined commands sent nonempty name
      rw [kept] at ended
      rw [ended] at active
      cases active
    · refine absurd ⟨args, srv.scripting, ok, nonempty, name, rfl, ?_⟩ (not_answers_of_confined confined commands sent)
      simp [handleRoute, handleDiscard, active, Served.conn']

theorem evictsNothing_of_confined (h : Restricted srv conn cmd) (flag : NoFastPath srv conn)
    (confined : CommandConfined host cmd srv conn) (commands : conn.mode = .commands)
    (sent : route conn srv.shared.isReplica cmd = .dispatch) {args : List Resp} (nonempty : args ≠ [])
    (name : cmdName args = cmd) (write : isWriteCommand cmd = true) (on : ¬WritesOff host 0 cmd srv.shared) :
    EvictsNothing host srv.store := by
  intro now later
  have keyspace := (confined args srv.scripting nonempty name).keyspace now later
  rw [request_commands host nonempty _ commands, name, sent] at keyspace
  obtain ⟨text, denied⟩ := handleDispatch_denied host h flag (fun _ => on) args
  simpa only [handleRoute, denied, Served.srv', write, if_true] using keyspace

theorem checked_of_route (h : Restricted srv conn cmd) (lua : host.Returns)
    {args : List Resp} (nonempty : args ≠ []) (name : cmdName args = cmd)
    (confined : CommandConfined host cmd srv conn) (commands : conn.mode = .commands)
    (flag : route conn srv.shared.isReplica cmd = .dispatch → NoFastPath srv conn) : Checked host cmd srv conn := by
  have routed := routed conn srv.shared.isReplica cmd
  obtain ⟨auth, noauth, hello, quit, reset⟩ := not_exempt_of_restricted h routed
  have loops := not_loop_of_confined confined commands rfl nonempty name
  have answered : route conn srv.shared.isReplica cmd ∉
      [.client, .unsubscribe, .unwatch, .eval, .evalsha, .script, .function, .fcall, .queue] := fun unchecked =>
    not_answers_of_confined confined commands rfl (unchecked_answers lua nonempty name routed unchecked)
  unfold Checked
  rw [commands]
  dsimp only
  cases sent : route conn srv.shared.isReplica cmd with
  | readonly => trivial
  | select => exact noDatabase_of_confined confined commands sent
  | watch => exact active_of_confined confined commands (.inl sent) nonempty name
  | multi => exact active_of_confined confined commands (.inr sent) nonempty name
  | exec => exact inactive_of_confined confined commands (.inl sent) nonempty name
  | discard => exact inactive_of_confined confined commands (.inr sent) nonempty name
  | dispatch =>
    by_cases off : isWriteCommand cmd = true ∧ WritesOff host 0 cmd srv.shared
    · exact .inl off
    · exact .inr ⟨flag sent, fun write =>
        evictsNothing_of_confined h (flag sent) confined commands sent nonempty name write fun isOff => off ⟨write, isOff⟩⟩
  | subscribe isPattern => exact absurd sent (loops isPattern).1
  | monitor => exact absurd sent (loops true).2.1
  | psync => exact absurd sent (loops true).2.2
  | auth => exact absurd sent auth
  | noauth => exact absurd sent noauth
  | hello => exact absurd sent hello
  | quit => exact absurd sent quit
  | reset => exact absurd sent reset
  | _ => simp [sent] at answered

theorem subscriptionFrame_isError (conn : Connection) (kind : String) (channel : Bytes) (count : Nat) :
    (subscriptionFrame conn kind channel count).isError = false := by
  unfold subscriptionFrame
  dsimp only
  split <;> rfl

/-- The loop of subscriptions answers its commands. -/
theorem subscribeMode_answers (mem : cmd ∈ subscribeModeCommands) (srv : Db) (conn : Connection) :
    ∃ reply, reply.isError = false ∧ (subscribeMode cmd [bulk cmd, bulk ""] srv conn).replies = [reply] := by
  have subscribes (isPattern : Bool) : ∃ reply, reply.isError = false ∧
      (doSubscribe isPattern [bulk cmd, bulk ""] srv.shared conn).2.2 = [reply] :=
    ⟨_, subscriptionFrame_isError _ _ _ _, rfl⟩
  have unsubscribes (isPattern : Bool) : ∃ reply, reply.isError = false ∧
      (doUnsubscribe isPattern [bulk cmd, bulk ""] srv.shared conn).2.2 = [reply] :=
    ⟨_, subscriptionFrame_isError _ _ _ _, rfl⟩
  simp only [subscribeModeCommands, List.mem_cons, List.not_mem_nil, or_false] at mem
  rcases mem with rfl | rfl | rfl | rfl | rfl | rfl | rfl
  · exact subscribes _
  · exact subscribes _
  · exact subscribes _
  · exact unsubscribes _
  · exact unsubscribes _
  · exact unsubscribes _
  · refine ⟨_, ?_, rfl⟩
    split <;> rfl

theorem checked_of_subscribe (confined : CommandConfined host cmd srv conn) (mode : conn.mode = .subscribe) :
    cmd ∉ subscribeModeCommands := by
  intro mem
  obtain ⟨reply, noError, answer⟩ := subscribeMode_answers mem srv conn
  have name : cmdName [bulk cmd, bulk ""] = cmd := by
    simp only [subscribeModeCommands, List.mem_cons, List.not_mem_nil, or_false] at mem
    rcases mem with rfl | rfl | rfl | rfl | rfl | rfl | rfl <;> decide
  have error := (confined [bulk cmd, bulk ""] srv.scripting (by simp) name).isError (by
    unfold request
    rw [name, mode]
    exact answer)
  rw [noError] at error
  cases error

/-- The other loops do not answer with errors. -/
theorem not_refused_of_mode (mode : conn.mode = .monitor ∨ conn.mode = .psync) (args : List Resp) (text : String) :
    (request host args srv conn).replies ≠ [.error text] := by
  unfold request
  rcases mode with mode | mode <;> rw [mode] <;> dsimp only <;> split
  · simp
  · split <;> simp [ok]
  · simp
  · split <;> simp

/-- **The rules of a user bind exactly the commands that are checked**: all requests of a command that
the user has no permission for are refused without an effect, if the command gets to the check or its
branch refuses it anyway, and only then. Where the flag of an unrestricted `default` is out of date and the
command is dispatched, its handler decides: there only the first half is claimed. -/
theorem commandConfined_iff_checked (h : Restricted srv conn cmd) (lua : host.Returns)
    {args : List Resp} (nonempty : args ≠ []) (name : cmdName args = cmd) :
    (Checked host cmd srv conn → CommandConfined host cmd srv conn) ∧
      ((conn.mode = .commands → route conn srv.shared.isReplica cmd = .dispatch → NoFastPath srv conn) →
        CommandConfined host cmd srv conn → Checked host cmd srv conn) := by
  refine ⟨commandConfined_of_checked h, fun flag confined => ?_⟩
  cases mode : conn.mode with
  | commands => exact checked_of_route h lua nonempty name confined mode (flag mode)
  | subscribe =>
    unfold Checked
    rw [mode]
    exact checked_of_subscribe confined mode
  | monitor | psync =>
    obtain ⟨text, refused⟩ := (confined args srv.scripting nonempty name).refused
    exact absurd refused (not_refused_of_mode (by simp [mode]) args text)
  | closed => exact absurd mode h.reads

end

/-! ## A user without permissions -/

/-- A host on which scripts return at once. -/
def returnHost : Host := { callHost [] with eval := fun _ _ _ => .ret ok, call := fun _ _ _ _ => .ret ok }

/-- ACL SETUSER guest on nopass -@all. -/
def guestDb : Db :=
  let db := freshDb false
  { db with shared := { db.shared with acl := (db.shared.acl.setuser ⟨id, id⟩ "guest" ["on", "nopass", "-@all"]).1 } }

/-- AUTH guest. -/
def guestConnection : Connection := setAuthenticated (.new guestDb.shared 1) "guest"

/-- GET is refused. -/
theorem commandConfined_get :
    Restricted guestDb guestConnection "GET" ∧ CommandConfined returnHost "GET" guestDb guestConnection := by
  have restricted : Restricted guestDb guestConnection "GET" := ⟨rfl, by decide, ⟨_, rfl, by decide⟩, by decide⟩
  have flag : NoFastPath guestDb guestConnection := by
    unfold NoFastPath
    decide
  have lua : returnHost.Returns := ⟨⟨"", ok, rfl, rfl⟩, ⟨"", "", ok, rfl, rfl⟩⟩
  have checked : Checked returnHost "GET" guestDb guestConnection :=
    .inr ⟨flag, fun write => absurd write (by decide)⟩
  have nonempty : [bulk "GET"] ≠ [] := by simp
  exact ⟨restricted, (commandConfined_iff_checked restricted lua nonempty (by decide)).1 checked⟩

/-- SUBSCRIBE is not. -/
theorem subscribe_not_confined :
    ¬ ∀ host args srv conn, args ≠ [] → Restricted srv conn (cmdName args) → Confined host args srv conn := by
  intro confined
  have restricted : Restricted guestDb guestConnection (cmdName [bulk "SUBSCRIBE", bulk "news"]) :=
    ⟨rfl, by decide, ⟨_, rfl, by decide⟩, by decide⟩
  have here := confined returnHost [bulk "SUBSCRIBE", bulk "news"] guestDb guestConnection (by simp) restricted
  have same := here.pubsub
  revert same
  decide

end NexradeCache
