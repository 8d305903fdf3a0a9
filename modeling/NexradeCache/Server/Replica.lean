import NexradeCache.Lib.Trace
import NexradeCache.Server.Frames

/-!
# What clients can change on a replica

A node with its clients: requests, new connections, changes of the role, and the two ways in which the
replication stream changes the store. A request is looked at once, when it arrives, and then runs step by
step: a command is dispatched, and its handler makes one access of the store after the other. Between two
steps of a request anything may happen, in particular to a BLPOP that is parked.

The check for writes sits in one branch of the connection loop. EXEC, EVAL, EVALSHA and FCALL dispatch
commands of their own behind it, and a write that got past it on a primary may still be under way when
the node has become a replica. A replica is read-only as long as there is neither.
-/

namespace NexradeCache

open Trace

variable {host : Host} {now : Nat} (later : ∀ dispatched i, host.clock dispatched i ≤ now)

include later

/-! ## Requests -/

omit later in
/-- The commands that the request dispatches on its own are no writes. -/
def DispatchesNoWrites (host : Host) (args : List Resp) (srv : Db) (conn : Connection) : Prop :=
  match route conn srv.shared.isReplica (cmdName args) with
  | .exec =>
    conn.transaction.active = true → conn.transaction.error = false → watchDirty host srv conn = false →
      ∀ queued ∈ conn.transaction.queue, NoWrite queued
  | .eval => (evalRun host args).NoWrites host conn.dbIndex conn.authenticatedUser 0 srv
  | .evalsha => (evalshaRun host srv.scripting args).NoWrites host conn.dbIndex conn.authenticatedUser 0 srv
  | .fcall => (fcallRun host srv.scripting args).NoWrites host conn.dbIndex conn.authenticatedUser 0 srv
  | _ => True

theorem handleExec_sameLive {srv : Db} {conn : Connection}
    (reads : conn.transaction.active = true → conn.transaction.error = false → watchDirty host srv conn = false →
      ∀ queued ∈ conn.transaction.queue, NoWrite queued) :
    Store.SameLive now srv.store (handleExec host srv conn).1.store := by
  unfold handleExec
  split
  · exact .refl now srv.store
  · rename_i active
    split
    · exact .refl now srv.store
    · rename_i error
      split
      · exact .refl now srv.store
      · rename_i clean
        have queue := reads (by simpa using active) (by simpa using error) (by simpa using clean)
        exact runQueue_sameLive later conn.dbIndex conn.authenticatedUser queue 0 srv

omit later in
theorem route_replica {conn : Connection} {cmd : String} (h : route conn true cmd = .dispatch) :
    isWriteCommand cmd = false := by
  have branch := routed conn true cmd
  rw [h] at branch
  cases branch with
  | named login mem => simp [namedRoutes] at mem
  | dispatch login writable inactive => simpa using writable

theorem handleDispatch_sameLive {cmd : String} (read : isWriteCommand cmd = false) (args : List Resp) (srv : Db)
    (conn : Connection) : Store.SameLive now srv.store (handleDispatch host cmd args srv conn).1.store := by
  unfold handleDispatch
  have same : Store.SameLive now srv.store
      (dispatchTracked host 0 conn.dbIndex conn.authenticatedUser conn.clientId cmd args srv).1.store :=
    dispatchTracked_sameLive read (later 0) conn.dbIndex conn.authenticatedUser conn.clientId args srv
  simpa [read] using same

theorem handleRoute_sameLive {args : List Resp} {srv : Db} {conn : Connection} (replica : srv.shared.isReplica = true)
    (reads : DispatchesNoWrites host args srv conn) :
    Store.SameLive now srv.store
      (handleRoute host (route conn srv.shared.isReplica (cmdName args)) (cmdName args) args srv conn).srv.store := by
  have ordinary : route conn srv.shared.isReplica (cmdName args) = .dispatch → isWriteCommand (cmdName args) = false := by
    intro h
    rw [replica] at h
    exact route_replica h
  unfold DispatchesNoWrites at reads
  generalize route conn srv.shared.isReplica (cmdName args) = branch at reads ordinary ⊢
  cases branch with
  | exec => exact handleExec_sameLive later reads
  | client => exact handleClient_sameLive later args srv conn
  | eval => exact LuaRun.exec_sameLive later _ _ reads
  | evalsha => exact LuaRun.exec_sameLive later _ _ reads
  | fcall => exact LuaRun.exec_sameLive later _ _ reads
  | dispatch => exact handleDispatch_sameLive later (ordinary rfl) args srv conn
  | _ => exact .refl now srv.store

/-- **A request on a replica that dispatches no write leaves the live keyspace as it is.** -/
theorem request_sameLive {args : List Resp} {srv : Db} {conn : Connection} (replica : srv.shared.isReplica = true)
    (reads : conn.mode = .commands → DispatchesNoWrites host args srv conn) :
    Store.SameLive now srv.store (request host args srv conn).srv.store := by
  unfold request
  dsimp only
  split
  · exact .refl now srv.store
  · split
    · rename_i commands
      exact handleRoute_sameLive later replica (reads commands)
    · rw [subscribeMode_store]
      exact .refl now srv.store
    · split <;> exact .refl now srv.store
    · split
      · rename_i replconf
        have read : NoWrite args := by
          unfold NoWrite
          rw [replconf]
          decide
        exact dispatchWithUser_sameLive read (later 0) 0 conn.authenticatedUser srv
      · exact .refl now srv.store
    · exact .refl now srv.store

omit later

/-! ## Requests under way -/

/-- A dispatched command in its handler, which only looks unless the command is a write. -/
structure Handling where
  clientId : Nat
  cmd : String
  args : List Resp
  /-- The user may run the command. -/
  permitted : Bool
  handler : Handler
  looks : isWriteCommand cmd = false → handler.Readonly

/-- How far a request is: before the front of `dispatch_tracked`, or inside the handler. -/
inductive Stage where
  /-- The command is to be dispatched next. -/
  | dispatch (clientId : Nat) (cmd : String) (args : List Resp)
  | handle (h : Handling)

/-- What follows the command under way. -/
inductive Rest where
  /-- Nothing; a command that was sent by itself goes on to the replicas there were when it arrived. -/
  | direct (propagates : Bool)
  | queue (rest : List (List Resp))
  | script (next : Resp → LuaRun)

/-- A request that was let in: the command it is at, and what it does with the reply of it. -/
structure Underway where
  stage : Stage
  rest : Rest

namespace Underway

/-- The first command of a queue that has a name; `dispatch_with_user` answers the others at once. -/
def ofQueue : List (List Resp) → Option Underway
  | [] => none
  | args :: rest =>
    match args[0]?.bind Resp.asStr with
    | none => ofQueue rest
    | some name => some ⟨.dispatch 0 (toAsciiUppercase name) args, .queue rest⟩

/-- The first command that a script calls by a name. -/
def ofScript : LuaRun → Option Underway
  | .ret _ => none
  | .call args next =>
    match args[0]?.bind Resp.asStr with
    | none => ofScript (next (.error "ERR Protocol error: empty command"))
    | some name => some ⟨.dispatch 0 (toAsciiUppercase name) args, .script next⟩

end Underway

/-- What is left of the request when the command is answered. -/
def Rest.next (reply : Resp) : Rest → Option Underway
  | .direct _ => none
  | .queue rest => Underway.ofQueue rest
  | .script next => Underway.ofScript (next reply)

/-- The command goes to the replicas. -/
def Rest.send (args : List Resp) (reply : Resp) (shared : Shared) : Rest → Shared
  | .direct true => if reply.isError then shared else { shared with propagated := shared.propagated ++ [args] }
  | _ => shared

namespace Handling

/-- One access of the handler. -/
def access (now : Nat) (s : Store) (h : Handling) : Store × Handling :=
  ((h.handler.access now s).1,
    { h with
      handler := (h.handler.access now s).2
      looks := fun read => Handler.readonly_access (h.looks read) now s })

theorem handler_access (now : Nat) (s : Store) (h : Handling) :
    (h.access now s).2.handler = (h.handler.access now s).2 := rfl

/-- The end of the command: a write evicts once more, and what it does besides the store is done. -/
def finish (host : Host) (user : String) (srv : Db) (h : Handling) (rest : Rest) (reply : Resp) : Db :=
  let shared := if h.permitted then host.effect h.cmd user h.clientId h.args srv.shared else srv.shared
  ⟨if isWriteCommand h.cmd && !reply.isError then host.evict srv.store else srv.store,
    rest.send h.args reply shared, srv.scripting⟩

end Handling

namespace Underway

/-- One step of a request: the front of `dispatch_tracked`, an access of the handler, or its end. -/
def step (host : Host) (conn : Connection) (srv : Db) (u : Underway) : Db × Option Underway :=
  match u.stage with
  | .dispatch clientId cmd args =>
    match refuseWrite host 0 cmd srv.shared with
    | some error => (srv, u.rest.next error)
    | none =>
      let user := conn.authenticatedUser
      let keys := touchedKeys srv.shared cmd args
      ({ srv with store := if isWriteCommand cmd then host.evict srv.store else srv.store },
        some ⟨.handle {
          clientId, cmd, args
          permitted := permitted srv.shared user cmd args
          handler := dispatchInner host.env srv.shared.acl user keys cmd conn.dbIndex args
          looks := fun read => dispatchInner_readonly read srv.shared.acl user keys conn.dbIndex args }, u.rest⟩)
  | .handle h =>
    match h.handler with
    | .done reply => (h.finish host conn.authenticatedUser srv u.rest reply, u.rest.next reply)
    | _ =>
      let (store, left) := h.access (host.clock 0 0) srv.store
      ({ srv with store }, some ⟨.handle left, u.rest⟩)

/-- So many steps with nothing in between. -/
def steps (host : Host) (conn : Connection) : Nat → Db × Option Underway → Db × Option Underway
  | 0, state => state
  | _ + 1, (srv, none) => (srv, none)
  | n + 1, (srv, some u) => steps host conn n (u.step host conn srv)

end Underway

/-- A request arrives: an EXEC compares its versions and takes the queue, a script is looked up, and what is
not for the dispatcher is done at once. -/
def arrive (host : Host) (args : List Resp) (srv : Db) (conn : Connection) : Db × Connection × Option Underway :=
  let done := request host args srv conn
  if args.isEmpty || conn.mode ≠ .commands then (done.srv, done.conn, none)
  else match route conn srv.shared.isReplica (cmdName args) with
    | .exec =>
      if conn.transaction.active && !conn.transaction.error && !watchDirty host srv conn then
        (srv, { conn with transaction := conn.transaction.discard }, Underway.ofQueue conn.transaction.queue)
      else (done.srv, done.conn, none)
    | .eval => (srv, conn, Underway.ofScript (evalRun host args))
    | .evalsha => (srv, conn, Underway.ofScript (evalshaRun host srv.scripting args))
    | .fcall => (srv, conn, Underway.ofScript (fcallRun host srv.scripting args))
    | .dispatch =>
      (srv, conn, some ⟨.dispatch conn.clientId (cmdName args) args,
        .direct (!srv.shared.replicas.isEmpty && isWriteCommand (cmdName args))⟩)
    | _ => (done.srv, done.conn, none)

/-! ## A request that is left alone -/

section Alone

/-- The clock stands, and a quiesce lasts. -/
structure Still (host : Host) : Prop where
  clock : ∀ dispatched i, host.clock dispatched i = host.clock 0 0
  quiesces : ∀ dispatched, host.quiesces dispatched = host.quiesces 0

namespace Underway

variable {conn : Connection}

theorem steps_none (n : Nat) (srv : Db) : steps host conn n (srv, none) = (srv, none) := by
  cases n <;> rfl

theorem steps_add (n m : Nat) (state : Db × Option Underway) :
    steps host conn (n + m) state = steps host conn m (steps host conn n state) := by
  induction n generalizing state with
  | zero => rw [Nat.zero_add]; rfl
  | succ n ih =>
    obtain ⟨srv, u⟩ := state
    rw [Nat.succ_add]
    cases u with
    | none => rw [steps, steps, steps_none]
    | some u => exact ih (u.step host conn srv)

/-- The steps lead from one state to the other, some number of them. -/
def Leads (host : Host) (conn : Connection) (state state' : Db × Option Underway) : Prop :=
  ∃ n, steps host conn n state = state'

theorem Leads.refl (state : Db × Option Underway) : Leads host conn state state := ⟨0, rfl⟩

theorem Leads.trans {a b c : Db × Option Underway} (h : Leads host conn a b) (h' : Leads host conn b c) :
    Leads host conn a c := by
  obtain ⟨n, rfl⟩ := h
  obtain ⟨m, rfl⟩ := h'
  exact ⟨n + m, steps_add n m a⟩

theorem Leads.step (srv : Db) (u : Underway) : Leads host conn (srv, some u) (u.step host conn srv) := ⟨1, rfl⟩

/-- What a handler and the end of its command come to. -/
def ended (host : Host) (conn : Connection) (i : Nat) (h : Handling) (rest : Rest) (srv : Db) : Db × Option Underway :=
  let (store, reply) := h.handler.exec (host.clock 0) i srv.store
  (h.finish host conn.authenticatedUser { srv with store } rest reply, rest.next reply)

theorem leads_access (still : Still host) {h : Handling} (goesOn : ∀ reply, h.handler ≠ .done reply) {rest : Rest}
    {i : Nat} {srv : Db}
    (left : Leads host conn
      ({ srv with store := (h.access (host.clock 0 0) srv.store).1 },
        some ⟨.handle (h.access (host.clock 0 0) srv.store).2, rest⟩)
      (ended host conn (i + 1) (h.access (host.clock 0 0) srv.store).2 rest
        { srv with store := (h.access (host.clock 0 0) srv.store).1 })) :
    Leads host conn (srv, some ⟨.handle h, rest⟩) (ended host conn i h rest srv) := by
  have one : (⟨.handle h, rest⟩ : Underway).step host conn srv =
      ({ srv with store := (h.access (host.clock 0 0) srv.store).1 },
        some ⟨.handle (h.access (host.clock 0 0) srv.store).2, rest⟩) := by
    unfold step
    dsimp only
    split
    · exact absurd ‹_› (goesOn _)
    · rfl
  have same : ended host conn i h rest srv =
      ended host conn (i + 1) (h.access (host.clock 0 0) srv.store).2 rest
        { srv with store := (h.access (host.clock 0 0) srv.store).1 } := by
    unfold ended
    rw [Handler.exec_access, still.clock 0 i]
    rfl
  rw [same]
  exact (one ▸ Leads.step srv ⟨.handle h, rest⟩).trans left

theorem leads_handle (still : Still host) {handler : Handler} {h : Handling} (same : h.handler = handler) (rest : Rest)
    (i : Nat) (srv : Db) :
    Leads host conn (srv, some ⟨.handle h, rest⟩) (ended host conn i h rest srv) := by
  induction handler generalizing h i srv with
  | done reply =>
    refine ⟨1, ?_⟩
    rw [steps, steps, step, ended]
    simp only [same, Handler.exec]
  | lookup lock db key next ih =>
    refine leads_access still (by simp [same]) ?_
    cases lock <;> exact ih _ (by rw [Handling.handler_access, same]; rfl) (i + 1) _
  | keysMatching db pattern next ih =>
    exact leads_access still (by simp [same]) (ih _ (by rw [Handling.handler_access, same]; rfl) (i + 1) _)
  | look next ih =>
    exact leads_access still (by simp [same]) (ih _ (by rw [Handling.handler_access, same]; rfl) (i + 1) _)
  | call db op next ih =>
    exact leads_access still (by simp [same]) (ih _ (by rw [Handling.handler_access, same]; rfl) (i + 1) _)

theorem refuseWrite_isError {dispatched : Nat} {cmd : String} {shared : Shared} {error : Resp}
    (h : refuseWrite host dispatched cmd shared = some error) : error.isError = true := by
  unfold refuseWrite at h
  dsimp only at h
  split at h
  · cases h; rfl
  · split at h
    · cases h; rfl
    · split at h
      · cases h; rfl
      · cases h

theorem send_of_error {reply : Resp} (error : reply.isError = true) (rest : Rest) (args : List Resp) (shared : Shared) :
    rest.send args reply shared = shared := by
  unfold Rest.send
  split
  · rw [if_pos error]
  · rfl

/-- A dispatched command comes to what `dispatch_tracked` makes of it. -/
theorem leads_dispatch (conn : Connection) (still : Still host) (dispatched clientId : Nat) (cmd : String)
    (args : List Resp) (rest : Rest) (srv : Db) :
    let (srv', reply) := dispatchTracked host dispatched conn.dbIndex conn.authenticatedUser clientId cmd args srv
    Leads host conn (srv, some ⟨.dispatch clientId cmd args, rest⟩)
      ({ srv' with shared := rest.send args reply srv'.shared }, rest.next reply) := by
  have clock : host.clock dispatched = host.clock 0 :=
    funext fun i => (still.clock dispatched i).trans (still.clock 0 i).symm
  have front : refuseWrite host dispatched cmd srv.shared = refuseWrite host 0 cmd srv.shared := by
    unfold refuseWrite
    rw [still.quiesces dispatched]
  rw [dispatchTracked, clock, front]
  cases refused : refuseWrite host 0 cmd srv.shared with
  | some error =>
    refine ⟨1, ?_⟩
    rw [steps, steps, step]
    simp only [refused, send_of_error (refuseWrite_isError refused)]
  | none =>
    refine (Leads.step srv _).trans ?_
    rw [step]
    simp only [refused]
    exact leads_handle still rfl rest 0 _

theorem leads_queue (still : Still host) (queue : List (List Resp)) (dispatched : Nat) (srv : Db) :
    Leads host conn (srv, ofQueue queue)
      ((runQueue host conn.dbIndex conn.authenticatedUser dispatched queue srv).1, none) := by
  induction queue generalizing dispatched srv with
  | nil => exact .refl _
  | cons args queue ih =>
    rw [ofQueue, runQueue, dispatchWithUser]
    cases named : args[0]?.bind Resp.asStr with
    | none => exact ih (dispatched + 1) srv
    | some name =>
      have first := leads_dispatch conn still dispatched 0 (toAsciiUppercase name) args (.queue queue) srv
      exact first.trans (ih (dispatched + 1) _)

theorem leads_script (still : Still host) (script : LuaRun) (dispatched : Nat) (srv : Db) :
    Leads host conn (srv, ofScript script)
      ((script.exec host conn.dbIndex conn.authenticatedUser dispatched srv).1, none) := by
  induction script generalizing dispatched srv with
  | ret reply => exact .refl _
  | call args next ih =>
    rw [ofScript, LuaRun.exec, dispatchWithUser]
    cases named : args[0]?.bind Resp.asStr with
    | none => exact ih _ (dispatched + 1) srv
    | some name =>
      have first := leads_dispatch conn still dispatched 0 (toAsciiUppercase name) args (.script next) srv
      exact first.trans (ih _ (dispatched + 1) _)

theorem leads_direct (still : Still host) (cmd : String) (args : List Resp) (srv : Db) :
    Leads host conn
      (srv, some ⟨.dispatch conn.clientId cmd args, .direct (!srv.shared.replicas.isEmpty && isWriteCommand cmd)⟩)
      ((handleDispatch host cmd args srv conn).1, none) := by
  have runs := leads_dispatch conn still 0 conn.clientId cmd args
    (.direct (!srv.shared.replicas.isEmpty && isWriteCommand cmd)) srv
  unfold handleDispatch
  revert runs
  cases dispatchTracked host 0 conn.dbIndex conn.authenticatedUser conn.clientId cmd args srv with
  | mk srv' reply =>
    intro runs
    dsimp only at runs ⊢
    cases sends : !srv.shared.replicas.isEmpty && isWriteCommand cmd with
    | false =>
      rw [sends] at runs
      simpa [sends, Rest.send, Rest.next] using runs
    | true =>
      rw [sends] at runs
      cases error : reply.isError with
      | true => simpa [sends, error, Rest.send, Rest.next] using runs
      | false => simpa [sends, error, Rest.send, Rest.next] using runs

end Underway

/-- **Left alone, a request comes to what `request` makes of it.** -/
theorem arrive_leads (still : Still host) (args : List Resp) (srv : Db) (conn : Connection) :
    (arrive host args srv conn).2.1 = (request host args srv conn).conn ∧
      Underway.Leads host (arrive host args srv conn).2.1
        ((arrive host args srv conn).1, (arrive host args srv conn).2.2) ((request host args srv conn).srv, none) := by
  unfold arrive
  dsimp only
  split
  · exact ⟨rfl, .refl _⟩
  · rename_i commands
    simp only [Bool.or_eq_true, List.isEmpty_iff, decide_eq_true_eq, not_or, not_not] at commands
    have big := request_commands host commands.1 srv commands.2
    split
    · rename_i exec
      rw [exec, handleRoute] at big
      split
      · rename_i passes
        simp only [Bool.and_eq_true, Bool.not_eq_true'] at passes
        obtain ⟨⟨active, error⟩, clean⟩ := passes
        simp only [handleExec, active, error, clean, Bool.not_true, Bool.false_eq_true, if_false] at big
        rw [big]
        exact ⟨rfl, Underway.leads_queue still conn.transaction.queue 0 srv⟩
      · exact ⟨rfl, .refl _⟩
    · rename_i eval
      rw [eval, handleRoute] at big
      rw [big]
      exact ⟨rfl, Underway.leads_script still _ 0 srv⟩
    · rename_i evalsha
      rw [evalsha, handleRoute] at big
      rw [big]
      exact ⟨rfl, Underway.leads_script still _ 0 srv⟩
    · rename_i fcall
      rw [fcall, handleRoute] at big
      rw [big]
      exact ⟨rfl, Underway.leads_script still _ 0 srv⟩
    · rename_i dispatch
      rw [dispatch, handleRoute] at big
      rw [big]
      exact ⟨rfl, Underway.leads_direct still (cmdName args) args srv⟩
    · exact ⟨rfl, .refl _⟩

end Alone

/-! ## What is left as it is -/

theorem arrive_sameLive {host : Host} {now : Nat} (later : ∀ dispatched i, host.clock dispatched i ≤ now)
    {args : List Resp} {srv : Db} (conn : Connection) (replica : srv.shared.isReplica = true) :
    Store.SameLive now srv.store (arrive host args srv conn).1.store := by
  have atOnce (reads : conn.mode = .commands → DispatchesNoWrites host args srv conn) :
      Store.SameLive now srv.store (request host args srv conn).srv.store := request_sameLive later replica reads
  unfold arrive
  dsimp only
  split
  · rename_i other
    by_cases empty : args = []
    · unfold request
      rw [if_pos (by simp [empty])]
      exact .refl now srv.store
    · refine atOnce fun commands => ?_
      simp [empty, commands] at other
  · split
    · rename_i exec
      split
      · exact .refl now srv.store
      · rename_i stops
        refine atOnce fun _ => ?_
        unfold DispatchesNoWrites
        rw [exec]
        intro active error clean
        simp [active, error, clean] at stops
    · exact .refl now srv.store
    · exact .refl now srv.store
    · exact .refl now srv.store
    · exact .refl now srv.store
    · rename_i exec eval evalsha fcall dispatch
      refine atOnce fun _ => ?_
      unfold DispatchesNoWrites
      split
      · exact absurd ‹_› exec
      · exact absurd ‹_› eval
      · exact absurd ‹_› evalsha
      · exact absurd ‹_› fcall
      · trivial

/-- The step is no write: it dispatches none, and a write that was dispatched before makes no operation that
writes and ends without an eviction. -/
def Underway.Spares (host : Host) (srv : Db) (u : Underway) : Prop :=
  match u.stage with
  | .dispatch _ cmd _ => isWriteCommand cmd = false
  | .handle h => isWriteCommand h.cmd = true →
    match h.handler with
    | .call _ _ _ => False
    | .done reply => reply.isError = false → host.evict srv.store = srv.store
    | _ => True

theorem Underway.step_sameLive {host : Host} {now : Nat} (later : host.clock 0 0 ≤ now) (conn : Connection) {srv : Db}
    {u : Underway} (spares : u.Spares host srv) : Store.SameLive now srv.store (u.step host conn srv).1.store := by
  unfold Underway.Spares at spares
  unfold Underway.step
  split
  · rename_i clientId cmd args stage
    rw [stage] at spares
    replace spares : isWriteCommand cmd = false := spares
    rw [refuseWrite_read spares]
    simp only [spares, Bool.false_eq_true, if_false]
    exact .refl now srv.store
  · rename_i h stage
    rw [stage] at spares
    replace spares : isWriteCommand h.cmd = true → _ := spares
    split
    · rename_i reply ended
      rw [ended] at spares
      show Store.SameLive now srv.store
        (if isWriteCommand h.cmd && !reply.isError then host.evict srv.store else srv.store)
      split
      · rename_i evicts
        simp only [Bool.and_eq_true, Bool.not_eq_true'] at evicts
        rw [spares evicts.1 evicts.2]
        exact .refl now srv.store
      · exact .refl now srv.store
    · refine Handler.access_sameLive (fun db op next call => ?_) later srv.store
      cases write : isWriteCommand h.cmd with
      | true =>
        have no := spares write
        rw [call] at no
        exact no
      | false => exact (h.looks write).noCall db op next call

/-! ## Runs of a node -/

/-- A connection, with its request under way. -/
structure NodeSession where
  conn : Connection
  underway : Option Underway

/-- The server with its connections, each with the request it has under way. -/
structure Node where
  srv : Db
  sessions : List NodeSession

/-- What can happen next at the node, in any order. -/
inductive NodeEvent where
  | request (i : Nat) (args : List Resp)
  /-- The request of a connection goes on. -/
  | work (i : Nat)
  | connect (clientId : Nat)
  /-- The node becomes a replica, or a primary. -/
  | role (isReplica : Bool)
  /-- The snapshot of the primary is loaded. -/
  | load (store : Store)
  /-- A command of the replication stream. -/
  | stream (args : List Resp)

/-- An event of a client. -/
def NodeEvent.ofClient : NodeEvent → Bool
  | .request _ _ | .work _ => true
  | _ => false

/-- An event, with what is open as it is at its time. -/
structure NodeTurn where
  host : Host
  event : NodeEvent

namespace NodeTurn

/-- A connection reads no request while one is under way. -/
def step (t : NodeTurn) (n : Node) : Node :=
  match t.event with
  | .request i args =>
    match n.sessions[i]? with
    | some ⟨conn, none⟩ =>
      let (srv, conn, underway) := arrive t.host args n.srv conn
      ⟨srv, n.sessions.set i ⟨conn, underway⟩⟩
    | _ => n
  | .work i =>
    match n.sessions[i]? with
    | some ⟨conn, some u⟩ =>
      let (srv, underway) := u.step t.host conn n.srv
      ⟨srv, n.sessions.set i ⟨conn, underway⟩⟩
    | _ => n
  | .connect clientId => { n with sessions := n.sessions ++ [⟨.new n.srv.shared clientId, none⟩] }
  | .role isReplica => { n with srv.shared := { n.srv.shared with isReplica } }
  | .load store => { n with srv.store := store }
  | .stream args => { n with srv := (dispatchWithUser t.host 0 0 "default" args n.srv).1 }

/-- A client leaves the live keyspace of a replica as it is, at any time from its own accesses on. -/
def ReadOnly (t : NodeTurn) (n : Node) : Prop :=
  t.event.ofClient = true → n.srv.shared.isReplica = true →
    ∀ now, (∀ dispatched access, t.host.clock dispatched access ≤ now) →
      Store.SameLive now n.srv.store (t.step n).srv.store

/-- A request under way on a replica takes no step of a write. -/
def NoWriteUnderway (t : NodeTurn) (n : Node) : Prop :=
  ∀ i conn u, t.event = .work i → n.srv.shared.isReplica = true → n.sessions[i]? = some ⟨conn, some u⟩ →
    u.Spares t.host n.srv

theorem readOnly_of_noWriteUnderway {t : NodeTurn} {n : Node} (h : t.NoWriteUnderway n) : t.ReadOnly n := by
  intro client replica now later
  unfold step
  cases event : t.event with
  | request i args =>
    dsimp only
    split
    · exact arrive_sameLive later _ replica
    · exact .refl now n.srv.store
  | work i =>
    dsimp only
    split
    · rename_i conn u found
      exact Underway.step_sameLive (later 0 0) conn (h i conn u event replica found)
    · exact .refl now n.srv.store
  | connect clientId => simp [event, NodeEvent.ofClient] at client
  | role isReplica => simp [event, NodeEvent.ofClient] at client
  | load store => simp [event, NodeEvent.ofClient] at client
  | stream args => simp [event, NodeEvent.ofClient] at client

end NodeTurn

/-- **A replica is read-only for its clients** in every run in which no request under way on it takes a step of
a write: none that an EXEC, EVAL, EVALSHA or FCALL dispatches, and none that was let in on a primary. -/
theorem replica_readOnly {turns : List NodeTurn} {n : Node}
    (spares : Always NodeTurn.step NodeTurn.NoWriteUnderway turns n) :
    Always NodeTurn.step NodeTurn.ReadOnly turns n :=
  spares.mono fun _ _ ok => NodeTurn.readOnly_of_noWriteUnderway ok

/-! ## Writes that get past the check -/

/-- So many attempts of BLPOP, on a list that is linked. -/
def blpop (db : Nat) (key : Bytes) : (attempts : Nat) → Handler
  | 0 => .done (.array none)
  | attempts + 1 => .lookup .write db key fun
    | some (.list (.linked l), _) =>
      let reply : Resp := .array (some [.bulkString (some key), .bulkString l.popFront.2])
      match l.items with
      | [] => blpop db key attempts
      | [_] => .call db ⟨.remove key, StoreOp.client_remove key⟩ fun _ => .done reply
      | _ => .call db ⟨.getMut key (some ⟨.list (.linked l.popFront.1), rfl⟩), rfl⟩ fun _ => .done reply
    | _ => blpop db key attempts

/-- BLPOP with two attempts and RPUSH to a fresh key, next to the handlers of `setEnv`; scripts call one
command. -/
def listHost (calls : List Resp) : Host :=
  { callHost calls with
    env := { setEnv with
      write := fun name db args =>
        match name, getBytesVec args 1, getBytesVec args 2 with
        | "BLPOP", some key, _ => blpop db key 2
        | "RPUSH", some key, some v =>
          .call db ⟨.insert key ⟨.new (.list (.linked ⟨[v], v.length⟩)), rfl⟩, rfl⟩ fun _ => .done (.integer 1)
        | _, _, _ => setEnv.write name db args } }

def nodeTurn (event : NodeEvent) : NodeTurn := ⟨listHost [bulk "SET", bulk "k", bulk "v"], event⟩

/-- A primary with two clients. -/
def primaryNode : Node :=
  ⟨freshDb false, [⟨.new (freshDb false).shared 1, none⟩, ⟨.new (freshDb false).shared 2, none⟩]⟩

/-- A BLPOP of `k` makes its first attempt, the node becomes a replica, and the stream pushes to a key. -/
def parked (key : String) : List NodeTurn :=
  [nodeTurn (.request 0 [bulk "BLPOP", bulk "k", bulk "0"]), nodeTurn (.work 0), nodeTurn (.work 0),
    nodeTurn (.role true), nodeTurn (.stream [bulk "RPUSH", bulk key, bulk "v"]), nodeTurn (.work 0)]

/-- The BLPOP finds nothing and ends, and another client calls GET from a script. -/
theorem replica_readOnly_parked :
    let turns := parked "other" ++ [nodeTurn (.work 0),
      ⟨listHost [bulk "GET", bulk "k"], .request 1 [bulk "EVAL", bulk "return redis.call('GET', 'k')", bulk "0"]⟩,
      nodeTurn (.work 1), nodeTurn (.work 1), nodeTurn (.work 1)]
    Always NodeTurn.step NodeTurn.NoWriteUnderway turns primaryNode ∧
      Always NodeTurn.step NodeTurn.ReadOnly turns primaryNode := by
  intro turns
  have spares : Always NodeTurn.step NodeTurn.NoWriteUnderway turns primaryNode := by
    refine ⟨?_, ?_, ?_, ?_, ?_, ?_, ?_, ?_, ?_, ?_, ?_, trivial⟩
    · intro i conn u event
      cases event
    · intro i conn u event replica
      cases replica
    · intro i conn u event replica
      cases replica
    · intro i conn u event
      cases event
    · intro i conn u event
      cases event
    · intro i conn u event replica found
      cases event
      cases found
      exact fun _ => trivial
    · intro i conn u event replica found
      cases event
      cases found
      exact fun _ _ => rfl
    · intro i conn u event
      cases event
    · intro i conn u event replica found
      cases event
      cases found
      exact rfl
    · intro i conn u event replica found
      cases event
      cases found
      exact fun write => by cases write
    · intro i conn u event replica found
      cases event
      cases found
      exact fun write => by cases write
  exact ⟨spares, replica_readOnly spares⟩

/-- On a replica, EVAL of a script that calls SET; and a BLPOP that was parked on a primary, when the stream
pushes to its list. -/
theorem replica_writes :
    ¬Always NodeTurn.step NodeTurn.ReadOnly
      [nodeTurn (.role true), nodeTurn (.request 1 [bulk "EVAL", bulk "return redis.call('SET', 'k', 'v')", bulk "0"]),
        nodeTurn (.work 1), nodeTurn (.work 1)] primaryNode ∧
    ¬Always NodeTurn.step NodeTurn.ReadOnly (parked "k" ++ [nodeTurn (.work 0)]) primaryNode := by
  refine ⟨fun readOnly => ?_, fun readOnly => ?_⟩
  · have same := readOnly.2.2.2.1 rfl rfl 0 (fun _ _ => Nat.le_refl 0) 0 (Utf8.asBytes "k")
    exact absurd (congrArg Option.isSome same) (by decide)
  · have same := readOnly.2.2.2.2.2.2.1 rfl rfl 0 (fun _ _ => Nat.le_refl 0) 0 (Utf8.asBytes "k")
    exact absurd (congrArg Option.isSome same) (by decide)

end NexradeCache
