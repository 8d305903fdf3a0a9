import NexradeCache.Server.Transaction

/-!
# EVAL, EVALSHA and FCALL (`nexrade-lua/src/engine.rs`, `nexrade-lua/src/function.rs`)

A script runs on a blocking thread of its own, and each `redis.call` goes through the ordinary
dispatcher, with its own locks. So between any two store accesses of a script other clients run. A
`ScriptTurn` is one access of one client under the lock of its shard, with the reading of the clock
it makes, or a step that touches no shared state.

`Lua` is the interpreter, which is outside the crates: it turns a source text with its keys and
arguments into the calls the script makes. `Atomic` is what scripts are for, and `ScriptServer.Fair`
the condition under which the server provides it. The fields `log` and `finished` of the server and
`served` of a client record the history; no step depends on them.
-/

namespace NexradeCache

open Serial

/-! ## Scripts -/

/-- A script, as the commands it calls and what it does with their replies. -/
inductive Script where
  | ret (reply : Resp)
  | call (cmd : Command) (next : Resp → Script)

/-- The command, and what goes on with its reply. -/
def Command.andThen (f : Resp → Command) : Command → Command
  | .done reply => f reply
  | .read key next => .read key fun v => (next v).andThen f
  | .call op next => .call op fun a => (next a).andThen f

/-- All store accesses of a script. -/
def Script.program : Script → Command
  | .ret reply => .done reply
  | .call cmd next => cmd.andThen fun r => (next r).program

/-- The interpreter: what EVAL runs, and what FCALL runs of a library. -/
structure Lua where
  eval : (script : String) → (keys argv : List Bytes) → Script
  call : (source func : String) → (keys argv : List Bytes) → Script

/-- The script cache by SHA1, and the source of the library that registers a function. -/
structure Registries where
  scripts : String → Option String
  library : String → Option String

/-- What a client sends; the three forms of scripts differ in where the source comes from. -/
inductive ScriptRequest where
  | command (cmd : Command)
  | eval (script : String) (keys argv : List Bytes)
  | evalsha (sha : String) (keys argv : List Bytes)
  | fcall (func : String) (keys argv : List Bytes)

/-- What a request runs. -/
def ScriptRequest.program (lua : Lua) (reg : Registries) : ScriptRequest → Command
  | .command cmd => cmd
  | .eval script keys argv => (lua.eval script keys argv).program
  | .evalsha sha keys argv =>
    match reg.scripts sha with
    | none => .done (.error "NOSCRIPT No matching script. Please use EVAL.")
    | some script => (lua.eval script keys argv).program
  | .fcall func keys argv =>
    match reg.library func with
    | none => .done (.error "ERR Function not found")
    | some source => (lua.call source func keys argv).program

/-! ## Accesses -/

/-- What a command does under one lock. -/
inductive Access where
  | read (key : Bytes)
  | call (op : ClientOp)

/-- An access of the store and the time the clock showed. -/
structure TimedAccess where
  now : Nat
  access : Access

/-- What the access does to the keyspace, and its answer. -/
def TimedAccess.apply (a : TimedAccess) (K : Keyspace) : Keyspace × Answer :=
  match a.access with
  | .read key => (K, .value (Content.live a.now (K key)))
  | .call op => op.apply a.now K

/-- The access in the store. -/
def Access.exec (w : World) : Access → World × Answer
  | .read key => (w, .value (((w.db.shardFor key).getRo w.now key).map Entry.content))
  | .call op => (w.step op.1, w.answer op)

/-- The reply of a program, or its next access and what goes on with the answer. -/
def Command.next : Command → Resp ⊕ (Access × (Answer → Command))
  | .done reply => .inl reply
  | .read key next => .inr (.read key, fun
    | .value v => next v
    | _ => next none)
  | .call op next => .inr (.call op, next)

theorem Access.exec_refines (a : Access) (w : World) :
    (a.exec w).1.keyspace = (TimedAccess.apply ⟨w.now, a⟩ w.keyspace).1 ∧
      (a.exec w).2 = (TimedAccess.apply ⟨w.now, a⟩ w.keyspace).2 := by
  cases a with
  | read key => exact ⟨rfl, congrArg Answer.value (ShardedDatabase.getRo_content w.now w.db key)⟩
  | call op => exact w.keyspace_step op

theorem local_read (now : Nat) (key : Bytes) : Local TimedAccess.apply ⟨now, .read key⟩ {key} where
  frame _ _ _ := rfl
  change s s' same := by
    have here : s key = s' key := same key rfl
    refine ⟨same, ?_⟩
    show Answer.value (Content.live now (s key)) = Answer.value (Content.live now (s' key))
    rw [here]

theorem local_call (now : Nat) (op : ClientOp) :
    Local TimedAccess.apply ⟨now, .call op⟩ op.1.keys where
  frame s k other := (op.local_apply now).frame s k other
  change s s' same := (op.local_apply now).change s s' same

/-- The keys an access is about. -/
def Access.keys : Access → Set Bytes
  | .read key => {key}
  | .call op => op.1.keys

theorem Access.commute {a b : Access} (now now' : Nat) (apart : ∀ k ∈ a.keys, k ∉ b.keys) :
    Commute TimedAccess.apply ⟨now, a⟩ ⟨now', b⟩ := by
  have within (now : Nat) (a : Access) : Local TimedAccess.apply ⟨now, a⟩ a.keys := by
    cases a with
    | read key => exact local_read now key
    | call op => exact local_call now op
  exact (within now a).commute (within now' b) apart

/-! ## The server -/

/-- A client with a request under way: the program of the request and the rest of it. -/
structure ScriptClient where
  running : Option (Command × Command)
  served : Nat

abbrev Accessed := Serial.Entry (Nat × Nat) TimedAccess Answer

/-- A request that was answered. -/
structure Finished where
  client : Nat
  request : Nat
  program : Command
  reply : Resp

/-- The database, the clients with what they have left to run, and the history. -/
structure ScriptServer where
  world : World
  clients : Nat → ScriptClient
  log : List Accessed
  finished : List Finished

/-- One step of one client. The request counts only when the client has none under way. -/
structure ScriptTurn where
  client : Nat
  now : Nat
  request : ScriptRequest

namespace ScriptServer

def new (numShards : Nat) (positive : 0 < numShards) (now : Nat) : ScriptServer :=
  ⟨.new numShards positive now, fun _ => ⟨none, 0⟩, [], []⟩

variable (lua : Lua) (reg : Registries)

def turn (s : ScriptServer) (t : ScriptTurn) : ScriptServer :=
  let c := s.clients t.client
  match c.running with
  | none =>
    let program := t.request.program lua reg
    { s with clients := Function.update s.clients t.client ⟨some (program, program), c.served + 1⟩ }
  | some (program, rest) =>
    match rest.next with
    | .inl reply =>
      { s with
        clients := Function.update s.clients t.client ⟨none, c.served⟩
        finished := s.finished ++ [⟨t.client, c.served, program, reply⟩] }
    | .inr (access, next) =>
      let (world, answer) := access.exec (s.world.step (.tick t.now))
      { s with
        world
        clients := Function.update s.clients t.client ⟨some (program, next answer), c.served⟩
        log := s.log ++ [⟨(t.client, c.served), ⟨t.now, access⟩, answer⟩] }

def run (s : ScriptServer) (turns : List ScriptTurn) : ScriptServer := turns.foldl (turn lua reg) s

end ScriptServer

/-! ## Atomicity -/

/-- From `program` the accesses lead, with their answers, to `rest`. -/
def Traces : Command → List Accessed → Command → Prop
  | program, [], rest => program = rest
  | program, e :: log, rest => ∃ next, program.next = .inr (e.op.access, next) ∧ Traces (next e.reply) log rest

namespace ScriptServer

/-- **Atomicity.** The answers and the keyspace are those of some order of the requests in which all
accesses of each, so of all `redis.call`s of a script, run back to back; and a request was answered
as its program answers with these accesses. -/
structure Atomic (s : ScriptServer) : Prop where
  serial : ∃ order : List (Nat × Nat), order.Nodup ∧ (∀ u, u ∈ order ↔ ∃ e ∈ s.log, e.unit = u) ∧
    Explains TimedAccess.apply (fun _ => none) (order.flatMap (block s.log)) s.world.keyspace
  replies : ∀ x ∈ s.finished, Traces x.program (block s.log (x.client, x.request)) (.done x.reply)

/-- The access a turn makes, if it makes one. -/
def accessed (s : ScriptServer) (t : ScriptTurn) : Option Access :=
  match (s.clients t.client).running with
  | none => none
  | some (_, rest) => rest.next.getRight?.map Prod.fst

/-- **A turn that does no harm.** An access made while another client's request is under way
commutes with the accesses of that request. -/
def Fair (s : ScriptServer) (t : ScriptTurn) : Prop :=
  ∀ access, s.accessed t = some access → ∀ c, c ≠ t.client → (s.clients c).running.isSome →
    ∀ e ∈ block s.log (c, (s.clients c).served), Commute TimedAccess.apply e.op ⟨t.now, access⟩

/-! ## The invariant -/

/-- A request under way. -/
structure RequestInv (log : List Accessed) (id served : Nat) (program rest : Command) : Prop where
  going : Open TimedAccess.apply log (id, served)
  traces : Traces program (block log (id, served)) rest

/-- **The invariant of all runs.** The log explains the keyspace, the accesses of a script can be moved together,
and the replies are those of the programs that ran. -/
structure Inv (s : ScriptServer) : Prop where
  explains : Explains TimedAccess.apply (fun _ => none) s.log s.world.keyspace
  old : ∀ e ∈ s.log, e.unit.2 ≤ (s.clients e.unit.1).served
  separable : Separable TimedAccess.apply s.log
  request : ∀ c program rest, (s.clients c).running = some (program, rest) →
    RequestInv s.log c (s.clients c).served program rest
  replies : ∀ x ∈ s.finished, Traces x.program (block s.log (x.client, x.request)) (.done x.reply) ∧
    (x.request < (s.clients x.client).served ∨
      x.request = (s.clients x.client).served ∧ (s.clients x.client).running = none)

variable {lua : Lua} {reg : Registries} {s : ScriptServer} {t : ScriptTurn}

theorem Traces.snoc {program rest : Command} {log : List Accessed} {e : Accessed} {next : Answer → Command}
    (h : Traces program log rest) (here : rest.next = .inr (e.op.access, next)) :
    Traces program (log ++ [e]) (next e.reply) := by
  induction log generalizing program with
  | nil =>
    cases h
    exact ⟨next, here, rfl⟩
  | cons e' log ih =>
    obtain ⟨next', there, later⟩ := h
    exact ⟨next', there, ih later⟩

theorem done_of_next {rest : Command} {reply : Resp} (h : rest.next = .inl reply) : rest = .done reply := by
  cases rest with
  | done r =>
    cases h
    rfl
  | _ => cases h

theorem Inv.new (numShards : Nat) (positive : 0 < numShards) (now : Nat) :
    (ScriptServer.new numShards positive now).Inv where
  explains := by
    funext k
    exact (congrArg View.content (ShardedDatabase.view_new numShards positive k)).symm
  old e he := by cases he
  separable x y z sub := by cases sub
  request c program rest h := by cases h
  replies x hx := by cases hx

theorem Inv.start (inv : s.Inv) {id : Nat} (idle : (s.clients id).running = none) (program : Command) :
    ({ s with clients := Function.update s.clients id ⟨some (program, program), (s.clients id).served + 1⟩ } :
      ScriptServer).Inv := by
  have fresh : ∀ e ∈ s.log, e.unit ≠ (id, (s.clients id).served + 1) := by
    intro e he same
    have old := inv.old e he
    rw [same] at old
    exact absurd old (Nat.not_succ_le_self _)
  refine ⟨inv.explains, fun e he => ?_, inv.separable, fun c p rest h => ?_, fun x hx => ?_⟩
  · have old := inv.old e he
    by_cases here : e.unit.1 = id
    · rw [here] at old
      show e.unit.2 ≤ (Function.update s.clients id _ e.unit.1).served
      rw [here, Function.update_self]
      exact old.trans (Nat.le_succ _)
    · show e.unit.2 ≤ (Function.update s.clients id _ e.unit.1).served
      rwa [Function.update_of_ne here]
  · by_cases here : c = id
    · subst here
      simp only [Function.update_self, Option.some.injEq, Prod.mk.injEq] at h ⊢
      obtain ⟨rfl, rfl⟩ := h
      exact ⟨Open.of_unstarted fresh, by rw [block_eq_nil fresh]; rfl⟩
    · simp only [Function.update_of_ne here] at h ⊢
      exact inv.request c p rest h
  · obtain ⟨traces, ended⟩ := inv.replies x hx
    refine ⟨traces, ?_⟩
    by_cases here : x.client = id
    · rw [here] at ended
      left
      show x.request < (Function.update s.clients id _ x.client).served
      rw [here, Function.update_self]
      rcases ended with less | ⟨same, -⟩
      · exact less.trans (Nat.lt_succ_self _)
      · exact same ▸ Nat.lt_succ_self _
    · simp only [Function.update_of_ne here]
      exact ended

theorem served_update (clients : Nat → ScriptClient) (id : Nat) (running : Option (Command × Command)) (c : Nat) :
    (Function.update clients id ⟨running, (clients id).served⟩ c).served = (clients c).served := by
  by_cases here : c = id
  · subst here
    rw [Function.update_self]
  · rw [Function.update_of_ne here]

theorem Inv.finish (inv : s.Inv) {id : Nat} {program rest : Command} {reply : Resp}
    (busy : (s.clients id).running = some (program, rest)) (done : rest.next = .inl reply) :
    ({ s with
        clients := Function.update s.clients id ⟨none, (s.clients id).served⟩
        finished := s.finished ++ [⟨id, (s.clients id).served, program, reply⟩] } : ScriptServer).Inv := by
  refine ⟨inv.explains, fun e he => ?_, inv.separable, fun c p rest' h => ?_, fun x hx => ?_⟩
  · show e.unit.2 ≤ (Function.update s.clients id _ e.unit.1).served
    rw [served_update]
    exact inv.old e he
  · by_cases here : c = id
    · subst here
      simp only [Function.update_self] at h
      cases h
    · simp only [Function.update_of_ne here] at h ⊢
      exact inv.request c p rest' h
  · show _ ∧ (x.request < (Function.update s.clients id _ x.client).served ∨
      x.request = (Function.update s.clients id _ x.client).served ∧
        (Function.update s.clients id _ x.client).running = none)
    rw [served_update]
    rcases List.mem_append.1 hx with old | new
    · obtain ⟨traces, ended⟩ := inv.replies x old
      refine ⟨traces, ?_⟩
      by_cases here : x.client = id
      · rw [here] at ended ⊢
        rcases ended with less | ⟨-, idle⟩
        · exact .inl less
        · rw [busy] at idle
          cases idle
      · rw [Function.update_of_ne here]
        exact ended
    · rw [List.mem_singleton.1 new]
      have traces := (inv.request id program rest busy).traces
      rw [done_of_next done] at traces
      exact ⟨traces, .inr ⟨rfl, by rw [Function.update_self]⟩⟩

theorem Inv.access (inv : s.Inv) (fair : s.Fair t) {program rest : Command} {access : Access}
    {next : Answer → Command} (busy : (s.clients t.client).running = some (program, rest))
    (here : rest.next = .inr (access, next)) :
    ({ s with
        world := (access.exec (s.world.step (.tick t.now))).1
        clients := Function.update s.clients t.client
          ⟨some (program, next (access.exec (s.world.step (.tick t.now))).2), (s.clients t.client).served⟩
        log := s.log ++ [⟨(t.client, (s.clients t.client).served), ⟨t.now, access⟩,
          (access.exec (s.world.step (.tick t.now))).2⟩] } : ScriptServer).Inv := by
  obtain ⟨state, answer⟩ := access.exec_refines (s.world.step (.tick t.now))
  have mine := inv.request t.client program rest busy
  have makes : s.accessed t = some access := by
    rw [accessed, busy]
    simp [here]
  refine ⟨?_, fun e he => ?_, inv.separable.open_snoc mine.going, fun c p rest' h => ?_, fun x hx => ?_⟩
  · refine explains_append.2 ⟨_, inv.explains, answer.symm, ?_⟩
    exact state.symm
  · show e.unit.2 ≤ (Function.update s.clients t.client _ e.unit.1).served
    rw [served_update]
    rcases List.mem_append.1 he with old | new
    · exact inv.old e old
    · rw [List.mem_singleton.1 new]
  · by_cases eq : c = t.client
    · subst eq
      simp only [Function.update_self, Option.some.injEq, Prod.mk.injEq] at h ⊢
      obtain ⟨rfl, rfl⟩ := h
      refine ⟨mine.going.snoc fun other => absurd rfl other, ?_⟩
      rw [block_append_self rfl]
      exact Traces.snoc mine.traces here
    · simp only [Function.update_of_ne eq] at h ⊢
      have theirs := inv.request c p rest' h
      have other : (t.client, (s.clients t.client).served) ≠ (c, (s.clients c).served) :=
        fun same => eq (congrArg Prod.fst same).symm
      refine ⟨theirs.going.snoc fun _ x mem unit => ?_, ?_⟩
      · refine fair access makes c eq (by rw [h]; rfl) x ?_
        exact List.mem_filter.2 ⟨mem, by simpa using unit⟩
      · rw [block_append_other other]
        exact theirs.traces
  · obtain ⟨traces, ended⟩ := inv.replies x hx
    have other : (t.client, (s.clients t.client).served) ≠ (x.client, x.request) := by
      intro same
      rw [Prod.mk.injEq] at same
      rw [← same.1, busy] at ended
      rcases ended with less | ⟨-, idle⟩
      · omega
      · cases idle
    refine ⟨by rw [block_append_other other]; exact traces, ?_⟩
    show x.request < (Function.update s.clients t.client _ x.client).served ∨
      x.request = (Function.update s.clients t.client _ x.client).served ∧
        (Function.update s.clients t.client _ x.client).running = none
    rw [served_update]
    by_cases eq : x.client = t.client
    · rw [eq, busy] at ended
      rcases ended with less | ⟨-, idle⟩
      · exact .inl (by rw [eq]; exact less)
      · cases idle
    · rw [Function.update_of_ne eq]
      exact ended

theorem turn_clients_of_ne {c : Nat} (ne : c ≠ t.client) :
    (s.turn lua reg t).clients c = s.clients c := by
  unfold ScriptServer.turn
  dsimp only
  split
  · exact Function.update_of_ne ne _ _
  · split
    · exact Function.update_of_ne ne _ _
    · exact Function.update_of_ne ne _ _

/-- **One turn.** -/
theorem Inv.turn (inv : s.Inv) (fair : s.Fair t) : (s.turn lua reg t).Inv := by
  cases running : (s.clients t.client).running with
  | none =>
    simp only [ScriptServer.turn, running]
    exact inv.start running _
  | some going =>
    obtain ⟨program, rest⟩ := going
    cases next : rest.next with
    | inl reply =>
      simp only [ScriptServer.turn, running, next]
      exact inv.finish running next
    | inr step =>
      simp only [ScriptServer.turn, running, next]
      exact inv.access fair running next

/-- **A run.** -/
theorem Inv.run {turns : List ScriptTurn} (inv : s.Inv)
    (fair : Stamp.Along (ScriptServer.turn lua reg) ScriptServer.Fair s turns) : (s.run lua reg turns).Inv := by
  induction turns generalizing s with
  | nil => exact inv
  | cons t turns ih => exact ih (inv.turn fair.1) fair.2

theorem Inv.atomic (inv : s.Inv) : s.Atomic where
  serial := inv.separable.serial inv.explains
  replies x hx := (inv.replies x hx).1

end ScriptServer

/-- **Scripts.** In a run of fair turns, whatever their order, scripts are atomic: what they answer and leave is
what they do without others in between. A turn is fair if its store access commutes with the accesses that other
scripts and commands under way have already made. -/
theorem scripts_atomic (lua : Lua) (reg : Registries) (numShards : Nat) (positive : 0 < numShards) (now : Nat)
    (turns : List ScriptTurn)
    (fair : Stamp.Along (ScriptServer.turn lua reg) ScriptServer.Fair
      (ScriptServer.new numShards positive now) turns) :
    ((ScriptServer.new numShards positive now).run lua reg turns).Atomic :=
  ((ScriptServer.Inv.new numShards positive now).run fair).atomic

/-! ## Two clients take a lock -/

/-- `if not redis.call('GET', KEYS[1]) then return redis.call('SET', KEYS[1], ARGV[1]) end return 0` -/
def Script.setIfAbsent (key value : Bytes) : Script :=
  .call (.cmdGet key) fun
    | .bulkString none => .call (.cmdSet key value) .ret
    | _ => .ret (.integer 0)

/-- The interpreter on this script. -/
def Lua.setIfAbsent : Lua where
  eval _ keys argv := .setIfAbsent (keys.headD []) (argv.headD [])
  call _ _ keys argv := .setIfAbsent (keys.headD []) (argv.headD [])

/-- Two scripts take turns on different keys. -/
theorem scripts_atomic_interleaved :
    ((ScriptServer.new 64 (by decide) 0).run .setIfAbsent ⟨fun _ => none, fun _ => none⟩
      [⟨0, 0, .eval "" [[97]] [[49]]⟩, ⟨1, 0, .eval "" [[98]] [[50]]⟩, ⟨0, 0, .eval "" [] []⟩,
        ⟨1, 0, .eval "" [] []⟩, ⟨0, 0, .eval "" [] []⟩, ⟨1, 0, .eval "" [] []⟩, ⟨0, 0, .eval "" [] []⟩,
        ⟨1, 0, .eval "" [] []⟩]).Atomic := by
  refine scripts_atomic _ _ 64 (by decide) 0 _ ?_
  have apart : ∀ k ∈ ({[97]} : Set Bytes), k ∉ ({[98]} : Set Bytes) := by
    rintro k rfl
    decide
  have apart' : ∀ k ∈ ({[98]} : Set Bytes), k ∉ ({[97]} : Set Bytes) := by
    rintro k rfl
    decide
  refine ⟨fun _ h => (by cases h), fun _ h => (by cases h), fun access h c other busy e he => ?_,
    fun access h c other busy e he => ?_, fun access h c other busy e he => ?_,
    fun access h c other busy e he => ?_, fun _ h => (by cases h), fun _ h => (by cases h), trivial⟩
  · by_cases one : c = 1
    · subst one
      cases he
    · simp [ScriptServer.turn_clients_of_ne, ScriptServer.new, one, show c ≠ 0 from other] at busy
  · by_cases zero : c = 0
    · subst zero
      cases h
      rw [List.mem_singleton.1 he]
      exact Access.commute _ _ apart
    · simp [ScriptServer.turn_clients_of_ne, ScriptServer.new, zero, show c ≠ 1 from other] at busy
  · by_cases one : c = 1
    · subst one
      cases h
      rw [List.mem_singleton.1 he]
      exact Access.commute _ _ apart'
    · simp [ScriptServer.turn_clients_of_ne, ScriptServer.new, one, show c ≠ 0 from other] at busy
  · by_cases zero : c = 0
    · subst zero
      cases h
      rcases List.mem_cons.1 he with rfl | he
      · exact Access.commute _ _ apart
      · rw [List.mem_singleton.1 he]
        exact Access.commute _ _ apart
    · simp [ScriptServer.turn_clients_of_ne, ScriptServer.new, zero, show c ≠ 1 from other] at busy

/-- Both clients find the key absent and set it. -/
theorem scripts_not_atomic :
    let s := (ScriptServer.new 64 (by decide) 0).run .setIfAbsent ⟨fun _ => none, fun _ => none⟩
      [⟨0, 0, .eval "" [[97]] [[49]]⟩, ⟨1, 0, .eval "" [[97]] [[50]]⟩, ⟨0, 0, .eval "" [] []⟩,
        ⟨1, 0, .eval "" [] []⟩, ⟨0, 0, .eval "" [] []⟩, ⟨1, 0, .eval "" [] []⟩, ⟨0, 0, .eval "" [] []⟩,
        ⟨1, 0, .eval "" [] []⟩]
    s.finished.map Finished.reply = [.simpleString "OK", .simpleString "OK"] ∧ ¬s.Atomic := by
  intro s
  refine ⟨rfl, fun atomic => ?_⟩
  obtain ⟨order, nodup, units, serial⟩ := atomic.serial
  have log : s.log.map Entry.unit = [(0, 1), (1, 1), (0, 1), (1, 1)] := rfl
  have both : order.Perm [(0, 1), (1, 1)] := by
    refine (List.perm_ext_iff_of_nodup nodup (by decide)).2 fun u => ?_
    rw [units, ← List.mem_map, log]
    simp
    tauto
  have shapes : order = [(0, 1), (1, 1)] ∨ order = [(1, 1), (0, 1)] := by
    obtain ⟨x, y, rfl⟩ := List.length_eq_two.1 both.length_eq
    have hx := both.subset (by simp : x ∈ [x, y])
    have hy := both.subset (by simp : y ∈ [x, y])
    simp only [List.mem_cons, List.not_mem_nil, or_false] at hx hy
    rcases hx with rfl | rfl <;> rcases hy with rfl | rfl <;> simp at nodup ⊢
  rcases shapes with rfl | rfl
  · have second : Answer.value _ = Answer.value none := serial.2.2.1
    cases second
  · have second : Answer.value _ = Answer.value none := serial.2.2.1
    cases second

end NexradeCache
