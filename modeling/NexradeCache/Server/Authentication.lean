import NexradeCache.Lib.Trace
import NexradeCache.Server.Frames

/-!
# Who a connection acts for

One connection, its requests, and what others do to the server between them. Four places decide for
whom the connection acts: its start and RESET look at `requirepass` only, AUTH and HELLO at
`requirepass` and the user table. `Grounds` is what a user name may rest on. The start and RESET give
it to `default` as long as the user table does not ask for a password of its own there.

The fields `opened` and `since` of a session record its history; no step depends on them.
-/

namespace NexradeCache

open Trace

/-! ## Sessions -/

/-- A request and what it met. -/
structure Moment where
  text : AclText
  shared : Shared
  args : List Resp

/-- The server and one connection, with a history that no step looks at. -/
structure Session where
  srv : Db
  conn : Connection
  /-- What the start of the connection met, or its last RESET. -/
  opened : Shared
  /-- The requests since then. -/
  since : List Moment

/-- What happens next: a request of the connection, or anything others do to the server. -/
inductive SessionEvent where
  | request (args : List Resp)
  /-- What other connections do: CONFIG SET requirepass, ACL SETUSER and DELUSER, and all the rest. -/
  | others (act : Db → Db)

/-- An event, with the readings of the clock and the scripts of that moment. -/
structure SessionTurn where
  host : Host
  event : SessionEvent

/-- The connection starts. -/
def Session.start (srv : Db) (clientId : Nat) : Session := ⟨srv, .new srv.shared clientId, srv.shared, []⟩

/-- The request is a RESET that is carried out. -/
def Session.resets (s : Session) (args : List Resp) : Bool :=
  !args.isEmpty && s.conn.mode = .commands && route s.conn s.srv.shared.isReplica (cmdName args) = .reset

def SessionTurn.step (t : SessionTurn) (s : Session) : Session :=
  match t.event with
  | .request args =>
    let done := request t.host args s.srv s.conn
    if s.resets args then ⟨done.srv, done.conn, s.srv.shared, []⟩
    else ⟨done.srv, done.conn, s.opened, s.since ++ [⟨t.host.text, s.srv.shared, args⟩]⟩
  | .others act => { s with srv := act s.srv }

/-- The user under whom a request is carried out, if it is one that needs a user. -/
def Session.executedAs (s : Session) (args : List Resp) : Option String :=
  match s.conn.mode with
  | .commands =>
    match route s.conn s.srv.shared.isReplica (cmdName args) with
    | .auth | .noauth | .hello | .reset | .quit => none
    | _ => some s.conn.authenticatedUser
  | .closed => none
  | _ => some s.conn.authenticatedUser

/-! ## What a user name rests on -/

/-- The AUTH options of HELLO. -/
def helloPairs : List Resp → List (String × String)
  | [] => []
  | a :: rest =>
    match a.asStr with
    | none => helloPairs rest
    | some opt =>
      if eqIgnoreAsciiCase opt "AUTH" then
        ((getStr rest 0).getD "default", (getStr rest 1).getD "") ::
          match rest with
          | _ :: _ :: rest => helloPairs rest
          | _ => []
      else if eqIgnoreAsciiCase opt "SETNAME" then
        match rest with
        | _ :: rest => helloPairs rest
        | [] => []
      else helloPairs rest

/-- The users and passwords an AUTH or a HELLO presents. -/
def presented (args : List Resp) : List (String × String) :=
  if cmdName args = "AUTH" then (authArgs args).toList
  else if cmdName args = "HELLO" then helloPairs (args.drop 2)
  else []

/-- A password is right for a user, by `requirepass` or by a user of the table that is enabled. -/
def Accepted (text : AclText) (shared : Shared) (user pass : String) : Prop :=
  (user = "default" ∧ shared.requirepass = some pass) ∨
    ∃ u, shared.acl.users.lookup user = some u ∧ u.enabled = true ∧
      (u.passwordHash = none ∨ u.passwordHash = some (text.hashPassword pass))

/-- Nothing asks for a password of `default`: no `requirepass`, and an entry that is enabled without
password. -/
def NoPassword (shared : Shared) : Prop :=
  shared.requirepass = none ∧
    ∃ u, shared.acl.users.lookup "default" = some u ∧ u.enabled = true ∧ u.passwordHash = none

/-- The connection may act for the user. -/
def Grounds (s : Session) (user : String) : Prop :=
  (∃ m ∈ s.since, ∃ pass, (user, pass) ∈ presented m.args ∧ Accepted m.text m.shared user pass) ∨
    (user = "default" ∧ NoPassword s.opened)

/-- Where the start and RESET look, the user table agrees with `requirepass`. -/
def Agrees (shared : Shared) : Prop := shared.requirepass = none → NoPassword shared

/-! ## Logging in -/

/-- For whom the connection acts. -/
def Connection.identity (conn : Connection) : Bool × String := (conn.authenticated, conn.authenticatedUser)

section
variable {host : Host} {shared : Shared} {conn : Connection}

/-- The connection acts for whom it did, or for a user whose password is among the pairs. -/
def LoggedIn (text : AclText) (shared : Shared) (pairs : List (String × String)) (conn conn' : Connection) : Prop :=
  conn'.identity = conn.identity ∨
    ∃ user pass, (user, pass) ∈ pairs ∧ Accepted text shared user pass ∧ conn'.identity = (true, user)

theorem LoggedIn.mono {text : AclText} {pairs pairs' : List (String × String)} {conn' : Connection}
    (h : LoggedIn text shared pairs conn conn') (sub : ∀ pair ∈ pairs, pair ∈ pairs') :
    LoggedIn text shared pairs' conn conn' := by
  rcases h with same | ⟨user, pass, mem, accepted, now⟩
  · exact .inl same
  · exact .inr ⟨user, pass, sub _ mem, accepted, now⟩

theorem LoggedIn.trans {text : AclText} {pairs : List (String × String)} {conn' conn'' : Connection}
    (h : LoggedIn text shared pairs conn conn') (h' : LoggedIn text shared pairs conn' conn'') :
    LoggedIn text shared pairs conn conn'' := by
  rcases h' with same | later
  · rw [LoggedIn, same]
    exact h
  · exact .inr later

theorem authenticateAs_loggedIn (user pass : String) :
    LoggedIn host.text shared [(user, pass)] conn (authenticateAs host shared conn user pass).1 := by
  unfold authenticateAs
  split
  · rename_i expected found
    split at found
    · rename_i default
      subst default
      split
      · rename_i same
        subst same
        exact .inr ⟨_, _, .head _, .inl ⟨rfl, found⟩, rfl⟩
      · exact .inl rfl
    · cases found
  · split
    · rename_i accepted
      exact .inr ⟨_, _, .head _, .inr (AclManager.authenticate_ok.1 accepted), rfl⟩
    · split <;> exact .inl rfl

theorem handleAuth_loggedIn (args : List Resp) :
    LoggedIn host.text shared (authArgs args).toList conn (handleAuth host shared conn args).1 := by
  unfold handleAuth
  split
  · rename_i user pass pair
    rw [pair]
    exact authenticateAs_loggedIn user pass
  · exact .inl rfl

/-- The last AUTH that is accepted counts, also when a later one fails. -/
theorem helloOptions_loggedIn (rest : List Resp) (conn : Connection) :
    LoggedIn host.text shared (helloPairs rest) conn (helloOptions host shared rest conn).1 := by
  have first {conn conn' : Connection} {reply : Resp} {user pass : String}
      (tried : authenticateAs host shared conn user pass = (conn', reply)) (more : List (String × String)) :
      LoggedIn host.text shared ((user, pass) :: more) conn conn' := by
    have logged : LoggedIn host.text shared [(user, pass)] conn (authenticateAs host shared conn user pass).1 :=
      authenticateAs_loggedIn user pass
    rw [tried] at logged
    exact logged.mono (by simp)
  fun_induction helloOptions host shared rest conn with
  | case1 conn => exact .inl rfl
  | case2 a rest conn noText ih =>
    unfold helloPairs
    simpa only [noText] using ih
  | case3 a rest conn opt found auth conn' reply tried failed =>
    unfold helloPairs
    simp only [found, auth, if_true]
    exact first tried _
  | case4 a conn opt found auth conn' reply failed x y rest tried ih =>
    unfold helloPairs
    simp only [found, auth, if_true]
    exact (first tried _).trans (ih.mono fun _ mem => .tail _ mem)
  | case5 a rest conn opt found auth conn' reply tried failed short =>
    unfold helloPairs
    simp only [found, auth, if_true]
    exact first tried _
  | case6 a conn opt found auth setname x rest ih =>
    unfold helloPairs
    simp only [found, auth, setname, Bool.false_eq_true, if_true, if_false]
    exact ih
  | case7 a conn opt found auth setname => exact .inl rfl
  | case8 a rest conn opt found auth setname ih =>
    unfold helloPairs
    simp only [found, auth, setname, Bool.false_eq_true, if_false]
    exact ih

theorem handleHello_loggedIn (args : List Resp) :
    LoggedIn host.text shared (helloPairs (args.drop 2)) conn (handleHello host shared conn args).1 := by
  have options : LoggedIn host.text shared (helloPairs (args.drop 2)) conn
      (helloOptions host shared (args.drop 2) conn).1 := helloOptions_loggedIn _ _
  unfold handleHello
  dsimp only
  split
  · exact .inl rfl
  · split
    · rename_i conn' error done
      rw [done] at options
      exact options
    · rename_i conn' done
      rw [done] at options
      exact options

end

/-! ## What keeps the user -/

theorem identity_of_core {conn conn' : Connection} (h : conn'.core = conn.core) : conn'.identity = conn.identity := by
  have same : conn'.core.identity = conn.core.identity := by rw [h]
  exact same

theorem handleExec_identity (host : Host) (srv : Db) (conn : Connection) :
    (handleExec host srv conn).2.1.identity = conn.identity := by
  unfold handleExec
  split
  · rfl
  · split
    · rfl
    · split <;> rfl

/-- Only AUTH, HELLO and RESET change for whom the connection acts. -/
theorem handleRoute_identity (host : Host) {branch : Route} (auth : branch ≠ .auth) (hello : branch ≠ .hello)
    (reset : branch ≠ .reset) (cmd : String) (args : List Resp) (srv : Db) (conn : Connection) :
    (handleRoute host branch cmd args srv conn).conn.identity = conn.identity := by
  cases branch with
  | auth => exact absurd rfl auth
  | hello => exact absurd rfl hello
  | reset => exact absurd rfl reset
  | subscribe isPattern => exact identity_of_core (doSubscribe_core isPattern args srv.shared conn)
  | select =>
    show (handleSelect srv.store conn args).1.identity = conn.identity
    unfold handleSelect
    split
    · split <;> rfl
    · rfl
  | watch =>
    show (handleWatch host srv conn args).1.identity = conn.identity
    unfold handleWatch
    split
    · rfl
    · split <;> rfl
  | multi =>
    show (handleMulti conn).1.identity = conn.identity
    unfold handleMulti
    split <;> rfl
  | exec => exact handleExec_identity host srv conn
  | discard =>
    show (handleDiscard conn).1.identity = conn.identity
    unfold handleDiscard
    split <;> rfl
  | _ => rfl

theorem route_unauthenticated {conn : Connection} (h : conn.authenticated = false) (isReplica : Bool) (cmd : String) :
    route conn isReplica cmd = if cmd = "AUTH" then .auth else .noauth := by
  unfold route
  simp [h]

/-- Without RESET the connection acts for whom it did, or somebody logs in. -/
theorem handleRoute_loggedIn {host : Host} {branch : Route} {args : List Resp} {srv : Db} {conn : Connection}
    (sent : Routed conn srv.shared.isReplica (cmdName args) branch) (reset : branch ≠ .reset) :
    LoggedIn host.text srv.shared (presented args) conn
      (handleRoute host branch (cmdName args) args srv conn).conn := by
  by_cases auth : branch = .auth
  · subst auth
    have name : cmdName args = "AUTH" := by
      cases sent with
      | auth name => exact name
      | named login mem => simp [namedRoutes] at mem
    have login : LoggedIn host.text srv.shared (authArgs args).toList conn (handleAuth host srv.shared conn args).1 :=
      handleAuth_loggedIn args
    exact login.mono (by simp [presented, name])
  · by_cases hello : branch = .hello
    · subst hello
      have name : cmdName args = "HELLO" := by
        cases sent with
        | named login mem => simpa [namedRoutes] using mem
      have login : LoggedIn host.text srv.shared (helloPairs (args.drop 2)) conn
          (handleHello host srv.shared conn args).1 := handleHello_loggedIn args
      exact login.mono (by simp [presented, name])
    · exact .inl (handleRoute_identity host auth hello reset (cmdName args) args srv conn)

theorem request_loggedIn (host : Host) {args : List Resp} {s : Session} (stays : s.resets args = false) :
    LoggedIn host.text s.srv.shared (presented args) s.conn (request host args s.srv s.conn).conn := by
  unfold request
  dsimp only
  split
  · exact .inl rfl
  · rename_i nonempty
    split
    · rename_i commands
      refine handleRoute_loggedIn (routed s.conn s.srv.shared.isReplica (cmdName args)) fun reset => ?_
      simp [Session.resets, commands, reset, nonempty] at stays
    · exact .inl (identity_of_core (subscribeMode_core _ _ _ _))
    · split <;> exact .inl rfl
    · split <;> exact .inl rfl
    · exact .inl rfl

/-! ## The invariant -/

/-- A connection that counts as logged in has its grounds, and only one that is logged in is in another
mode. -/
structure Session.Grounded (s : Session) : Prop where
  user : s.conn.authenticated = true → Grounds s s.conn.authenticatedUser
  mode : s.conn.authenticated = false → s.conn.mode = .commands ∨ s.conn.mode = .closed

/-- A RESET meets a user table that agrees with `requirepass`. -/
def SessionTurn.ResetAgrees (t : SessionTurn) (s : Session) : Prop :=
  ∀ args, t.event = .request args → s.resets args = true → Agrees s.srv.shared

/-- Nobody gets anything carried out for a user without grounds. -/
def SessionTurn.Authentic (t : SessionTurn) (s : Session) : Prop :=
  ∀ args user, t.event = .request args → s.executedAs args = some user → Grounds s user

theorem Session.start_grounded {srv : Db} (agrees : Agrees srv.shared) (clientId : Nat) :
    (Session.start srv clientId).Grounded where
  user h := by
    have unset : srv.shared.requirepass = none := by simpa [Session.start, Connection.new] using h
    exact .inr ⟨rfl, agrees unset⟩
  mode _ := .inl rfl

theorem handleAuth_mode (host : Host) (shared : Shared) (conn : Connection) (args : List Resp) :
    (handleAuth host shared conn args).1.mode = conn.mode := by
  unfold handleAuth authenticateAs
  split
  · split
    · split <;> rfl
    · split
      · rfl
      · split <;> rfl
  · rfl

/-- Who is not logged in stays in the mode of commands. -/
theorem request_mode (host : Host) (args : List Resp) (srv : Db) {conn : Connection}
    (out : conn.authenticated = false) (mode : conn.mode = .commands ∨ conn.mode = .closed) :
    (request host args srv conn).conn.mode = conn.mode := by
  unfold request
  dsimp only
  split
  · rfl
  · split
    · rw [route_unauthenticated out]
      split
      · exact handleAuth_mode host srv.shared conn args
      · rfl
    · rename_i other
      simp [other] at mode
    · rename_i other
      simp [other] at mode
    · rename_i other
      simp [other] at mode
    · rfl

theorem request_grounded {host : Host} {args : List Resp} {s : Session} (h : s.Grounded)
    (stays : s.resets args = false) :
    (Session.mk (request host args s.srv s.conn).srv (request host args s.srv s.conn).conn s.opened
      (s.since ++ [⟨host.text, s.srv.shared, args⟩])).Grounded := by
  have login := request_loggedIn host stays
  constructor
  · intro auth
    rcases login with same | ⟨user, pass, mem, accepted, now⟩
    · obtain ⟨sameAuth, sameUser⟩ := Prod.mk.inj same
      rw [sameUser]
      rcases h.user (sameAuth.symm.trans auth) with ⟨m, mem, pass, pair, accepted⟩ | free
      · exact .inl ⟨m, List.mem_append_left _ mem, pass, pair, accepted⟩
      · exact .inr free
    · obtain ⟨-, is⟩ := Prod.mk.inj now
      rw [is]
      exact .inl ⟨_, List.mem_append_right _ (.head _), pass, mem, accepted⟩
  · intro out
    rcases login with same | ⟨user, pass, mem, accepted, now⟩
    · obtain ⟨sameAuth, -⟩ := Prod.mk.inj same
      have before : s.conn.authenticated = false := sameAuth.symm.trans out
      have mode := request_mode host args s.srv before (h.mode before)
      rw [mode]
      exact h.mode before
    · obtain ⟨isAuth, -⟩ := Prod.mk.inj now
      rw [out] at isAuth
      cases isAuth

theorem reset_grounded {host : Host} {args : List Resp} {s : Session} (resets : s.resets args = true)
    (agrees : Agrees s.srv.shared) :
    (Session.mk (request host args s.srv s.conn).srv (request host args s.srv s.conn).conn s.srv.shared []).Grounded := by
  simp only [Session.resets, Bool.and_eq_true, decide_eq_true_eq, Bool.not_eq_true'] at resets
  obtain ⟨⟨nonempty, commands⟩, reset⟩ := resets
  have done : (request host args s.srv s.conn).conn = (handleReset s.srv.shared s.conn).2.1 := by
    unfold request
    simp [nonempty, commands, reset, handleRoute]
  rw [done]
  constructor
  · intro auth
    have unset : s.srv.shared.requirepass = none := by simpa [handleReset] using auth
    exact .inr ⟨rfl, agrees unset⟩
  · intro _
    exact .inl commands

theorem step_grounded {t : SessionTurn} {s : Session} (h : s.Grounded) (agrees : t.ResetAgrees s) :
    (t.step s).Grounded := by
  unfold SessionTurn.step
  split
  · rename_i args event
    dsimp only
    split
    · rename_i resets
      exact reset_grounded resets (agrees args event resets)
    · rename_i stays
      exact request_grounded h (by simpa using stays)
  · exact ⟨h.user, h.mode⟩

theorem Session.Grounded.authentic {s : Session} (h : s.Grounded) (t : SessionTurn) : t.Authentic s := by
  intro args user _ executed
  have login : s.conn.authenticated = true := by
    by_contra out
    rw [Bool.not_eq_true] at out
    unfold Session.executedAs at executed
    rcases h.mode out with commands | closed
    · rw [commands, route_unauthenticated out] at executed
      by_cases name : cmdName args = "AUTH" <;> simp [name] at executed
    · rw [closed] at executed
      cases executed
  have same : user = s.conn.authenticatedUser := by
    unfold Session.executedAs at executed
    split at executed
    · split at executed <;> cases executed
      rfl
    · cases executed
    · cases executed
      rfl
  rw [same]
  exact h.user login

/-- **Authentication is sound** in every run whose start and RESETs meet a user table that agrees with
`requirepass`: whatever a connection gets carried out for a user rests on a password that was right for
that user, or on a `default` that needed none. -/
theorem authentication_sound {srv : Db} {clientId : Nat} {turns : List SessionTurn} (start : Agrees srv.shared)
    (resets : Always SessionTurn.step SessionTurn.ResetAgrees turns (.start srv clientId)) :
    Always SessionTurn.step SessionTurn.Authentic turns (.start srv clientId) :=
  (resets.of_invariant (Session.start_grounded start clientId) (fun _ _ => step_grounded)
    fun t _ h _ => h.authentic t).1

/-! ## A password that is not asked for -/

def sessionHost : Host := callHost []

def asking (words : List String) : SessionTurn := ⟨sessionHost, .request (words.map bulk)⟩

/-- CONFIG SET requirepass by somebody else. -/
def setRequirepass (pass : String) : SessionTurn :=
  ⟨sessionHost, .others fun srv => { srv with shared.requirepass := some pass }⟩

/-- A password is set while the connection is open; it logs in and reads. -/
theorem authentication_sound_login :
    Agrees (freshDb false).shared ∧
      Always SessionTurn.step SessionTurn.ResetAgrees [setRequirepass "pw", asking ["AUTH", "pw"], asking ["GET", "k"]]
        (.start (freshDb false) 1) ∧
      Always SessionTurn.step SessionTurn.Authentic [setRequirepass "pw", asking ["AUTH", "pw"], asking ["GET", "k"]]
        (.start (freshDb false) 1) := by
  have start : Agrees (freshDb false).shared := fun _ => ⟨rfl, .defaultUser, rfl, rfl, rfl⟩
  have resets : Always SessionTurn.step SessionTurn.ResetAgrees
      [setRequirepass "pw", asking ["AUTH", "pw"], asking ["GET", "k"]] (.start (freshDb false) 1) := by
    refine ⟨?_, ?_, ?_, trivial⟩ <;> intro args event resets <;> cases event <;> exact absurd resets (by decide)
  exact ⟨start, resets, authentication_sound start resets⟩

/-- `default` has a password in the user table, set with ACL SETUSER. -/
def passwordDb : Db :=
  { freshDb false with shared.acl := (AclManager.new.setuser ⟨id, id⟩ "default" [">pw"]).1 }

/-- A new connection reads without a password. -/
theorem authentication_bypass :
    ¬ ∀ srv clientId turns, Always SessionTurn.step SessionTurn.Authentic turns (.start srv clientId) := by
  intro sound
  have first := (sound passwordDb 1 [asking ["GET", "k"]]).1
  rcases first _ "default" rfl (by decide) with ⟨m, mem, -⟩ | ⟨-, -, u, found, -, free⟩
  · cases mem
  · have entry : passwordDb.shared.acl.users.lookup "default" =
        some { AclUser.defaultUser with passwordHash := some "pw" } := rfl
    cases found.symm.trans entry
    cases free

end NexradeCache
