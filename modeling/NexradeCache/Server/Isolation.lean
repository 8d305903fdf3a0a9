import NexradeCache.Server.Transaction

/-!
# When EXEC is isolated

`Isolated` is what optimistic transactions are for: the commands of an EXEC might as well have run
back to back, and no other client changed a watched key from its WATCH to the last of them. The
checks of `handle_exec` and the sections of its commands are separate critical sections, so this
depends on what other clients do in between, and on the client itself, which may select another
database between its WATCH and its EXEC: `Fair` says which steps do no harm.
-/

namespace NexradeCache

open Stamp Serial

variable {dbCount : Nat}

/-! ## Isolation -/

/-- The keyspaces after the first `i` sections of a log. -/
def spacesAt (log : List (Ran dbCount)) (i : Nat) : Spaces dbCount :=
  (log.take i).foldl (fun K e => (e.op.apply K).1) fun _ _ => none

/-- No other client than `client` changes the key `k` of a database from position `start` to position
`finish`. -/
def Untouched (log : List (Ran dbCount)) (client : Nat) (db : Fin dbCount) (k : Bytes) (start finish : Nat) : Prop :=
  ∀ i e, start ≤ i → i < finish → log[i]? = some e → e.unit.1 ≠ client →
    spacesAt log (i + 1) db k = spacesAt log i db k

/-- The sections of `log` are those of the commands `cmds`, up to what is left in `rest`, and
`results` are the replies of the commands that are over. -/
inductive Follows (cmds : List (Program dbCount)) :
    (log : List (Ran dbCount)) → (results : List Resp) → (rest : List (Program dbCount)) → Prop where
  | start : Follows cmds [] [] cmds
  | ends {log results rest} {e : Ran dbCount} {r : Resp} : Follows cmds log results (e.op.cmd :: rest) →
      e.reply = .inl r → Follows cmds (log ++ [e]) (results ++ [r]) rest
  | goesOn {log results rest} {e : Ran dbCount} {cmd : Program dbCount} :
      Follows cmds log results (e.op.cmd :: rest) → e.reply = .inr cmd →
      Follows cmds (log ++ [e]) results (cmd :: rest)

namespace Server

/-- The step keeps the version `v` of a watched key from coming back: it loses no counter of the
key, or for a key watched without a version it does not drop the version the key got since. -/
def Guarded (k : Bytes) (v : Nat) (w : World) (op : StoreOp) : Prop :=
  if v = 0 then (w.db.view k).slot.isSome → ((w.step op).db.view k).slot.isSome else op.Keeps k w

end Server

namespace Client

/-- The keys an EXEC under way relies on: those it has compared, and all once it dispatches. -/
def relied (c : Client dbCount) : List (WatchEntry dbCount) :=
  match c.pc with
  | .check compared => c.guard.take compared
  | .run _ _ _ => c.guard
  | _ => []

/-- Sections of the client's request were run, or may have been, and others are to come. -/
def dispatching (c : Client dbCount) : Bool :=
  match c.pc with
  | .run _ _ _ | .command _ => true
  | _ => false

end Client

namespace Server

variable [NeZero dbCount]

/-- The section a turn runs, if it runs one. -/
def dispatched (s : Server dbCount) (t : Turn dbCount) : Option (Program dbCount) := (s.nextOf t).getLeft?

/-- The store operations of a turn in one database. -/
def opsOf (s : Server dbCount) (t : Turn dbCount) (i : Fin dbCount) : List StoreOp :=
  .tick t.now :: Stores.inDb i (((s.dispatched t).map fun cmd => cmd.ops (s.store.tick t.now)).getD [])

/-- **A turn that does no harm.** A section that runs while another client's EXEC, or its command of
several sections, is under way commutes with the sections that one has run already, and changes no key
it relies on; no operation brings back a version that some client watches; and an EXEC finds a version
equal only in the database it was read in. -/
structure Fair (s : Server dbCount) (t : Turn dbCount) : Prop where
  commutes : ∀ cmd, s.dispatched t = some cmd → ∀ c, c ≠ t.client → (s.clients c).dispatching = true →
    ∀ e ∈ block s.log (c, (s.clients c).served), Commute Dispatch.apply e.op ⟨t.now, cmd⟩
  spares : ∀ cmd, s.dispatched t = some cmd → ∀ c, c ≠ t.client → ∀ g ∈ (s.clients c).relied,
    (cmd.apply t.now s.store.spaces).1 g.db g.key = s.store.spaces g.db g.key
  guards : ∀ c, ∀ p ∈ (s.clients c).transaction.watchKeys.zip (s.clients c).guard,
    Along World.step (Guarded p.1.1 p.1.2) (s.store.world p.2.db) (s.opsOf t p.2.db)
  selected : ∀ compared, (s.clients t.client).pc = .check compared →
    ∀ p ∈ ((s.clients t.client).transaction.watchKeys.zip (s.clients t.client).guard)[compared]?,
      ((s.store.tick t.now).world (s.clients t.client).dbIndex).keyVersion p.1.1 = p.1.2 →
        p.2.db = (s.clients t.client).dbIndex

end Server

/-! ## The log and the keyspaces -/

theorem Explains.foldl {K K' : Spaces dbCount} {log : List (Ran dbCount)} (h : Explains Dispatch.apply K log K') :
    log.foldl (fun K e => (e.op.apply K).1) K = K' := by
  induction log generalizing K with
  | nil => exact h
  | cons e log ih => exact ih h.2

theorem spacesAt_append {log : List (Ran dbCount)} (new : List (Ran dbCount)) {i : Nat} (le : i ≤ log.length) :
    spacesAt (log ++ new) i = spacesAt log i := by
  rw [spacesAt, spacesAt, List.take_append_of_le_length le]

theorem spacesAt_length {log : List (Ran dbCount)} {K : Spaces dbCount}
    (h : Explains Dispatch.apply (fun _ _ => none) log K) : spacesAt log log.length = K := by
  rw [spacesAt, List.take_length]
  exact Explains.foldl h

variable {log : List (Ran dbCount)} {client : Nat} {db : Fin dbCount} {k : Bytes}
  {start finish : Nat}

/-- What happened up to a position is settled. -/
theorem Untouched.append (h : Untouched log client db k start finish) (new : List (Ran dbCount))
    (le : finish ≤ log.length) : Untouched (log ++ new) client db k start finish := by
  intro i e low high at_ other
  rw [List.getElem?_append_left (by omega)] at at_
  rw [spacesAt_append new (by omega), spacesAt_append new (by omega)]
  exact h i e low high at_ other

/-- One more section: it is the client's own, or it leaves the key as it is. -/
theorem Untouched.snoc (h : Untouched log client db k start log.length) {e : Ran dbCount} {K : Spaces dbCount}
    (now : Explains Dispatch.apply (fun _ _ => none) log K)
    (spares : e.unit.1 ≠ client → (e.op.apply K).1 db k = K db k) :
    Untouched (log ++ [e]) client db k start (log ++ [e]).length := by
  intro i e' low high at_ other
  rw [List.length_append, List.length_singleton] at high
  rcases Nat.lt_or_eq_of_le (Nat.lt_succ_iff.1 high) with inside | rfl
  · exact h.append [e] le_rfl i e' low inside at_ other
  · rw [List.getElem?_concat_length] at at_
    cases at_
    have after : spacesAt (log ++ [e]) (log.length + 1) = (e.op.apply K).1 := by
      rw [spacesAt, show log.length + 1 = (log ++ [e]).length by simp, List.take_length, List.foldl_append,
        Explains.foldl now]
      rfl
    rw [after, spacesAt_append [e] le_rfl, spacesAt_length now]
    exact spares other

theorem Untouched.empty : Untouched log client db k log.length log.length :=
  fun i _ low high => absurd low (by omega)

/-! ## Watched versions -/

/-- The version of a watched key has moved away from `v`. -/
def World.Moved (w : World) (k : Bytes) (v : Nat) : Prop :=
  if v = 0 then (w.db.view k).slot.isSome = true else (v : WithTop Nat) < w.stamp k

section Watched

variable {w : World} {n v : Nat} {k : Bytes} {ops : List StoreOp}

theorem World.Sound.slot_of_entry (h : w.Sound n) (there : w.content k ≠ none) :
    (w.db.view k).slot.isSome = true := by
  obtain ⟨-, S, C, -, within⟩ := h
  refine Option.isSome_iff_ne_none.2 ((within k).slotted fun absent => there ?_)
  rw [World.content, View.content, absent, Option.map_none]

theorem World.Sound.mono {m : Nat} (h : w.Sound n) (le : n ≤ m) : w.Sound m := by
  obtain ⟨indexed, S, C, sum, within⟩ := h
  exact ⟨indexed, S, C, sum.trans le, within⟩

theorem slot_kept (guards : Along World.step (Server.Guarded k 0) w ops)
    (slot : (w.db.view k).slot.isSome = true) : ((w.run ops).db.view k).slot.isSome = true := by
  induction ops generalizing w with
  | nil => exact slot
  | cons op ops ih => exact ih guards.2 (by simpa [Server.Guarded] using guards.1 slot)

/-- Over guarded operations a version that moved stays away, and a change moves it. -/
theorem guarded_run (sound : w.Sound n) (few : n + World.writes ops < 2 ^ 64)
    (guards : Along World.step (Server.Guarded k v) w ops) (low : v ≠ 0 → (v : WithTop Nat) ≤ w.stamp k) :
    (v ≠ 0 → (v : WithTop Nat) ≤ (w.run ops).stamp k) ∧
      (w.Moved k v ∨ w.content k ≠ (w.run ops).content k → (w.run ops).Moved k v) := by
  by_cases zero : v = 0
  · subst zero
    refine ⟨fun h => absurd rfl h, ?_⟩
    rintro (moved | changed)
    · exact slot_kept guards moved
    · by_cases before : w.content k = none
      · rw [before] at changed
        exact (sound.run few).slot_of_entry changed.symm
      · exact slot_kept guards (sound.slot_of_entry before)
  · have keeps : Along World.step (fun w op => op.Keeps k w) w ops := by
      have same : Server.Guarded k v = fun w op => op.Keeps k w := by
        funext w op
        rw [Server.Guarded, if_neg zero]
      rwa [same] at guards
    have covers : Covers (World.stamp k) (World.content k) w (w.run ops) :=
      covers_run (fun w op h => h.2.choose_spec.1.covers_step h.2.choose_spec.2 h.1)
        (sound.along few keeps)
    refine ⟨fun _ => (low zero).trans covers.le, ?_⟩
    simp only [World.Moved, if_neg zero]
    rintro (moved | changed)
    · exact moved.trans_le covers.le
    · exact (low zero).trans_lt (covers.grows changed)

theorem low_of_keyVersion (sound : w.Sound n) (small : n < 2 ^ 64) (h : w.keyVersion k = v) :
    v ≠ 0 → (v : WithTop Nat) ≤ w.stamp k := by
  subst h
  rcases sound.keyVersion_eq small k with ⟨-, zero⟩ | ⟨same, -⟩
  · exact fun h => absurd zero h
  · exact fun _ => same.ge

/-- A version that compares equal has not moved. -/
theorem not_moved_of_keyVersion (sound : w.Sound n) (small : n < 2 ^ 64) (h : w.keyVersion k = v) :
    ¬w.Moved k v := by
  subst h
  rcases sound.keyVersion_eq small k with ⟨top, zero⟩ | ⟨same, pos⟩
  · rw [World.Moved, if_pos zero]
    intro slot
    obtain ⟨m, hm⟩ := Option.isSome_iff_exists.1 slot
    simp only [World.stamp, View.stamp, hm] at top
    cases top
  · rw [World.Moved, if_neg (by omega), same]
    exact lt_irrefl _

end Watched

/-! ## A turn, in two parts -/

theorem Stores.writes_inDb (i : Fin dbCount) (ops : List (Fin dbCount × ClientOp)) :
    World.writes (Stores.inDb i ops) ≤ ops.length := by
  induction ops with
  | nil => exact le_rfl
  | cons op ops ih =>
    have one : op.2.1.writes ≤ 1 := by cases op.2.1 <;> simp [StoreOp.writes]
    by_cases here : op.1 = i
    · have split : Stores.inDb i (op :: ops) = op.2.1 :: Stores.inDb i ops := by simp [Stores.inDb, here]
      rw [split, World.writes, List.map_cons, List.sum_cons, List.length_cons]
      rw [World.writes] at ih
      omega
    · have split : Stores.inDb i (op :: ops) = Stores.inDb i ops := by simp [Stores.inDb, here]
      rw [split, List.length_cons]
      omega

namespace Server

variable [NeZero dbCount]

/-- The part of a turn that is seen by all: the store and the log. -/
def advance (s : Server dbCount) (t : Turn dbCount) : Server dbCount :=
  let w := s.store.tick t.now
  match s.dispatched t with
  | some cmd =>
    { s with
      store := (cmd.exec w).1
      log := s.log ++ [⟨(t.client, (s.clients t.client).arrive.served), ⟨t.now, cmd⟩, (cmd.exec w).2⟩]
      writes := s.writes + (cmd.ops w).length }
  | none => { s with store := w }

/-- The part of a turn that is the client's own. -/
def reaction (s : Server dbCount) (t : Turn dbCount) : Reaction dbCount :=
  match s.nextOf t with
  | .inl cmd => (s.clients t.client).arrive.receive (cmd.exec (s.store.tick t.now)).2
  | .inr r => r

theorem turn_eq (s : Server dbCount) (t : Turn dbCount) : s.turn t = (s.advance t).react t.client (s.reaction t) := by
  unfold turn advance reaction dispatched
  cases s.nextOf t <;> rfl

theorem advance_world (s : Server dbCount) (t : Turn dbCount) (i : Fin dbCount) :
    (s.advance t).store.world i = (s.store.world i).run (s.opsOf t i) := by
  unfold advance opsOf
  cases h : s.dispatched t with
  | none => rfl
  | some cmd =>
    show (cmd.exec (s.store.tick t.now)).1.world i = _
    rw [cmd.exec_eq_run, Stores.world_run]
    rfl

/-- The writes of a turn in one database are among the writes of the turn. -/
theorem advance_writes (s : Server dbCount) (t : Turn dbCount) (i : Fin dbCount) :
    s.writes + World.writes (s.opsOf t i) ≤ (s.advance t).writes := by
  unfold advance opsOf
  cases h : s.dispatched t with
  | none => simp [World.writes, Stores.inDb, StoreOp.writes]
  | some cmd =>
    have few := Stores.writes_inDb i (cmd.ops (s.store.tick t.now))
    have tick : World.writes (.tick t.now :: Stores.inDb i (cmd.ops (s.store.tick t.now))) =
        World.writes (Stores.inDb i (cmd.ops (s.store.tick t.now))) := by simp [World.writes, StoreOp.writes]
    show s.writes + World.writes (.tick t.now :: Stores.inDb i (cmd.ops (s.store.tick t.now))) ≤
      s.writes + (cmd.ops (s.store.tick t.now)).length
    omega

theorem advance_writes_le (s : Server dbCount) (t : Turn dbCount) : s.writes ≤ (s.advance t).writes := by
  unfold advance
  cases s.dispatched t with
  | none => exact le_rfl
  | some cmd => exact Nat.le_add_right _ _

/-- The log grows by the section the turn ran, with what it left. -/
theorem advance_cases (s : Server dbCount) (t : Turn dbCount) :
    (s.dispatched t = none ∧ (s.advance t).log = s.log ∧
      (s.advance t).store.spaces = s.store.spaces) ∨
    ∃ cmd e, s.dispatched t = some cmd ∧ (s.advance t).log = s.log ++ [e] ∧
      e.unit = (t.client, (s.clients t.client).arrive.served) ∧ e.op = ⟨t.now, cmd⟩ ∧
      e.reply = (cmd.exec (s.store.tick t.now)).2 ∧
      (e.op.apply s.store.spaces).2 = e.reply ∧
      (s.advance t).store.spaces = (e.op.apply s.store.spaces).1 := by
  cases h : s.dispatched t with
  | none => exact .inl ⟨rfl, by simp only [advance, h], by simp only [advance, h]; rfl⟩
  | some cmd =>
    obtain ⟨state, ans⟩ := cmd.exec_refines (s.store.tick t.now)
    refine .inr ⟨cmd, ⟨(t.client, (s.clients t.client).arrive.served), ⟨t.now, cmd⟩, _⟩, rfl,
      by simp only [advance, h], rfl, rfl, rfl, ans.symm, ?_⟩
    simp only [advance, h]
    exact state

/-! ## The invariant -/

/-- A watched key, with the version read at its WATCH. -/
structure WatchInv (w : Stores dbCount) (log : List (Ran dbCount)) (id : Nat) (kv : Bytes × Nat)
    (g : WatchEntry dbCount) : Prop where
  key : g.key = kv.1
  start : g.start ≤ log.length
  low : kv.2 ≠ 0 → (kv.2 : WithTop Nat) ≤ (w.world g.db).stamp kv.1
  clean : Untouched log id g.db g.key g.start log.length ∨ (w.world g.db).Moved kv.1 kv.2

/-- No section of the client's current request was run. -/
def Unstarted (log : List (Ran dbCount)) (id served : Nat) : Prop := ∀ e ∈ log, e.unit ≠ (id, served)

def Watches (w : Stores dbCount) (log : List (Ran dbCount)) (id : Nat) (c : Client dbCount) : Prop :=
  List.Forall₂ (WatchInv w log id) c.transaction.watchKeys c.guard

def ClientInv (w : Stores dbCount) (log : List (Ran dbCount)) (id : Nat) (c : Client dbCount) : Prop :=
  match c.pc with
  | .idle | .command _ => Watches w log id c
  | .watch _ => Watches w log id c ∧ Unstarted log id c.served
  | .check compared => Watches w log id c ∧ Unstarted log id c.served ∧
      ∀ g ∈ c.guard.take compared, Untouched log id g.db g.key g.start log.length
  | .run cmd rest results => c.transaction.watchKeys = [] ∧
      (∀ g ∈ c.guard, Untouched log id g.db g.key g.start log.length) ∧
      Follows c.taken (block log (id, c.served)) results (cmd :: rest)

/-- An EXEC that is over. -/
structure ExecInv (s : Server dbCount) (x : Executed dbCount) : Prop where
  results : Follows x.taken (block s.log (x.client, x.request)) x.results []
  finish : x.finish ≤ s.log.length
  watched : ∀ g ∈ x.guard, Untouched s.log x.client g.db g.key g.start x.finish
  ended : x.request < (s.clients x.client).served ∨
    x.request = (s.clients x.client).served ∧ (s.clients x.client).pc = .idle

/-- **The invariant of all runs.** The log explains the keyspaces, what an EXEC has run can be moved up to its last
section, and nothing it relies on was changed. -/
structure Inv (s : Server dbCount) : Prop where
  sound : ∀ i, (s.store.world i).Sound s.writes
  explains : Explains Dispatch.apply (fun _ _ => none) s.log s.store.spaces
  old : ∀ e ∈ s.log, e.unit.2 ≤ (s.clients e.unit.1).served
  separable : Separable Dispatch.apply s.log
  behind : ∀ c, (s.clients c).dispatching = true → ∀ x y, [x, y].Sublist s.log →
    x.unit = (c, (s.clients c).served) → y.unit ≠ x.unit → Commute Dispatch.apply x.op y.op
  client : ∀ c, ClientInv s.store s.log c (s.clients c)
  execs : ∀ x ∈ s.execs, ExecInv s x

variable {s : Server dbCount} {t : Turn dbCount}

theorem Inv.sound_advance (inv : s.Inv) (few : (s.advance t).writes < 2 ^ 64) (i : Fin dbCount) :
    ((s.advance t).store.world i).Sound (s.advance t).writes := by
  have le := s.advance_writes t i
  rw [advance_world]
  exact ((inv.sound i).run (le.trans_lt few)).mono le

theorem Inv.explains_advance (inv : s.Inv) :
    Explains Dispatch.apply (fun _ _ => none) (s.advance t).log (s.advance t).store.spaces := by
  rcases s.advance_cases t with ⟨-, log, same⟩ | ⟨cmd, e, -, log, -, -, -, reply, state⟩
  · rw [log, same]
    exact inv.explains
  · rw [log, state]
    exact explains_append.2 ⟨_, inv.explains, reply, rfl⟩

/-- A stretch of the log in which a client's key is untouched grows by the turn, unless another
client's section changes the key. -/
theorem Inv.untouched_advance (inv : s.Inv) {id : Nat} {db : Fin dbCount} {k : Bytes} {start : Nat}
    (h : Untouched s.log id db k start s.log.length)
    (spares : t.client ≠ id → ∀ cmd, s.dispatched t = some cmd →
      (cmd.apply t.now s.store.spaces).1 db k = s.store.spaces db k) :
    Untouched (s.advance t).log id db k start (s.advance t).log.length := by
  rcases s.advance_cases t with ⟨-, log, -⟩ | ⟨cmd, e, runs, log, unit, op, -, -, -⟩
  · rwa [log]
  · rw [log]
    refine h.snoc inv.explains fun other => ?_
    rw [unit] at other
    rw [op]
    exact spares other cmd runs

theorem length_advance (s : Server dbCount) (t : Turn dbCount) : s.log.length ≤ (s.advance t).log.length := by
  rcases s.advance_cases t with ⟨-, log, -⟩ | ⟨cmd, e, -, log, -⟩ <;> simp [log]

/-- A watched key over a turn, for the client that takes it and for the others. -/
theorem Inv.watch_advance (inv : s.Inv) (few : (s.advance t).writes < 2 ^ 64) (fair : s.Fair t) {id : Nat}
    {kv : Bytes × Nat} {g : WatchEntry dbCount}
    (mem : (kv, g) ∈ (s.clients id).transaction.watchKeys.zip (s.clients id).guard)
    (h : WatchInv s.store s.log id kv g) : WatchInv (s.advance t).store (s.advance t).log id kv g := by
  have le := s.advance_writes t g.db
  obtain ⟨low, moved⟩ := guarded_run (inv.sound g.db) (le.trans_lt few) (fair.guards id (kv, g) mem) h.low
  rw [← advance_world] at low moved
  refine ⟨h.key, h.start.trans (s.length_advance t), low, ?_⟩
  rcases h.clean with clean | away
  · by_cases same : (s.store.world g.db).content kv.1 = ((s.advance t).store.world g.db).content kv.1
    · refine .inl (inv.untouched_advance clean fun _ cmd runs => ?_)
      rcases s.advance_cases t with ⟨idle, -, -⟩ | ⟨cmd', e, runs', -, -, op, -, -, state⟩
      · rw [idle] at runs
        cases runs
      · rw [runs] at runs'
        cases runs'
        rw [op] at state
        rw [h.key]
        exact (congrFun (congrFun state g.db) kv.1).symm.trans same.symm
    · exact .inr (moved (.inr same))
  · exact .inr (moved (.inl away))

theorem Inv.watches_advance (inv : s.Inv) (few : (s.advance t).writes < 2 ^ 64) (fair : s.Fair t) {id : Nat}
    (h : Watches s.store s.log id (s.clients id)) :
    Watches (s.advance t).store (s.advance t).log id (s.clients id) := by
  obtain ⟨length, each⟩ := List.forall₂_iff_zip.1 h
  exact List.forall₂_iff_zip.2 ⟨length, fun mem => inv.watch_advance few fair mem (each mem)⟩

/-- The sections of another request are no part of the new log entry. -/
theorem block_advance {u : Nat × Nat} (other : u ≠ (t.client, (s.clients t.client).arrive.served)) :
    block (s.advance t).log u = block s.log u := by
  rcases s.advance_cases t with ⟨-, log, -⟩ | ⟨cmd, e, -, log, unit, -⟩
  · rw [log]
  · rw [log]
    exact block_append_other (by rw [unit]; exact other.symm)

theorem Unstarted.advance {id served : Nat} (h : Unstarted s.log id served)
    (other : (id, served) ≠ (t.client, (s.clients t.client).arrive.served)) :
    Unstarted (s.advance t).log id served := by
  rcases s.advance_cases t with ⟨-, log, -⟩ | ⟨cmd, e, -, log, unit, -⟩
  · rwa [log]
  · rw [log]
    intro x hx
    rcases List.mem_append.1 hx with hx | hx
    · exact h x hx
    · rw [List.mem_singleton.1 hx, unit]
      exact other.symm

theorem Inv.client_advance (inv : s.Inv) (few : (s.advance t).writes < 2 ^ 64) (fair : s.Fair t) {id : Nat}
    (other : id ≠ t.client) : ClientInv (s.advance t).store (s.advance t).log id (s.clients id) := by
  have unit (n m : Nat) : (id, n) ≠ (t.client, m) := fun same => other (congrArg Prod.fst same)
  have spares {g : WatchEntry dbCount} (mem : g ∈ (s.clients id).relied) (cmd : Program dbCount)
      (runs : s.dispatched t = some cmd) :
      (cmd.apply t.now s.store.spaces).1 g.db g.key = s.store.spaces g.db g.key :=
    fair.spares cmd runs id other g mem
  have before := inv.client id
  unfold ClientInv at before ⊢
  unfold Client.relied at spares
  cases pc : (s.clients id).pc with
  | idle =>
    rw [pc] at before
    exact inv.watches_advance few fair before
  | command cmd =>
    rw [pc] at before
    exact inv.watches_advance few fair before
  | watch rest =>
    rw [pc] at before
    exact ⟨inv.watches_advance few fair before.1, before.2.advance (unit _ _)⟩
  | check compared =>
    rw [pc] at before spares
    obtain ⟨watches, unstarted, untouched⟩ := before
    refine ⟨inv.watches_advance few fair watches, unstarted.advance (unit _ _), fun g hg => ?_⟩
    exact inv.untouched_advance (untouched g hg) fun _ cmd runs => spares hg cmd runs
  | run cmd rest results =>
    rw [pc] at before spares
    obtain ⟨none, untouched, same⟩ := before
    refine ⟨none, fun g hg => ?_, by rw [block_advance (unit _ _)]; exact same⟩
    exact inv.untouched_advance (untouched g hg) fun _ cmd runs => spares hg cmd runs

/-! ## The client that takes the turn -/

/-- What a step may leave of its client; `started` says how it came to have sections behind it. -/
structure ReactionInv (w : Stores dbCount) (log : List (Ran dbCount)) (id served : Nat) (started : Prop)
    (r : Reaction dbCount) : Prop where
  client : ClientInv w log id r.client
  request : r.client.served = served
  started : r.client.dispatching = true → started
  executed : ∀ x, r.executed = some x → Follows x.taken (block log (id, served)) x.results [] ∧
    (∀ g ∈ x.guard, Untouched log id g.db g.key g.start log.length) ∧ r.client.pc = .idle

section Reactions

omit [NeZero dbCount]

variable {w : Stores dbCount} {log : List (Ran dbCount)} {id : Nat} {started : Prop} {c : Client dbCount}

theorem reactionInv_answers (h : Watches w log id c) (r : Resp) :
    ReactionInv w log id c.served started (c.answers r) where
  client := h
  request := rfl
  started h := by cases h
  executed _ h := by cases h

theorem reactionInv_watch (h : Watches w log id c) (unstarted : Unstarted log id c.served) (rest : List Bytes) :
    ReactionInv w log id c.served started (c.goesOn (.watch rest)) where
  client := ⟨h, unstarted⟩
  request := rfl
  started h := by cases h
  executed _ h := by cases h

theorem reactionInv_check (h : Watches w log id c) (unstarted : Unstarted log id c.served) {compared : Nat}
    (untouched : ∀ g ∈ c.guard.take compared, Untouched log id g.db g.key g.start log.length) :
    ReactionInv w log id c.served started (c.goesOn (.check compared)) where
  client := ⟨h, unstarted, untouched⟩
  request := rfl
  started h := by cases h
  executed _ h := by cases h

theorem reactionInv_abort (r : Resp) : ReactionInv w log id c.served started (c.abort r) where
  client := List.Forall₂.nil
  request := rfl
  started h := by cases h
  executed _ h := by cases h

/-- The commands so far are followed: EXEC goes on to the next one, or ends. -/
theorem reactionInv_dispatchNext (none : c.transaction.watchKeys = [])
    (untouched : ∀ g ∈ c.guard, Untouched log id g.db g.key g.start log.length)
    (here : started) {results : List Resp} {rest : List (Program dbCount)}
    (follows : Follows c.taken (block log (id, c.served)) results rest) :
    ReactionInv w log id c.served started (c.dispatchNext results rest) := by
  cases rest with
  | nil =>
    refine ⟨?_, rfl, fun h => (by cases h), fun x h => ?_⟩
    · show List.Forall₂ _ c.transaction.watchKeys []
      rw [none]
      exact .nil
    · cases h
      exact ⟨follows, untouched, rfl⟩
  | cons cmd rest => exact ⟨⟨none, untouched, follows⟩, rfl, fun _ => here, fun _ h => (by cases h)⟩

theorem reactionInv_startDispatch (untouched : ∀ g ∈ c.guard, Untouched log id g.db g.key g.start log.length)
    (unstarted : Unstarted log id c.served) :
    ReactionInv w log id c.served (c.dispatching = true ∨ Unstarted log id c.served) c.startDispatch := by
  refine reactionInv_dispatchNext (c := { c with
    transaction := c.transaction.discard, taken := c.transaction.queue.map fun cmd => cmd c.dbIndex })
    rfl untouched (.inr unstarted) ?_
  rw [block_eq_nil unstarted]
  exact .start

variable {n : Nat} (sound : ∀ i, (w.world i).Sound n) (small : n < 2 ^ 64)
include sound small

theorem reactionInv_watchNext (h : Watches w log id c) (unstarted : Unstarted log id c.served)
    (rest : List Bytes) : ReactionInv w log id c.served started
      (c.watchNext (fun k => (w.world c.dbIndex).keyVersion k) log.length rest) := by
  cases rest with
  | nil => exact reactionInv_answers h _
  | cons key rest =>
    rw [Client.watchNext]
    cases added : c.transaction.watch key ((w.world c.dbIndex).keyVersion key) with
    | none => exact reactionInv_answers h _
    | some transaction =>
      have keys : transaction.watchKeys =
          c.transaction.watchKeys ++ [(key, (w.world c.dbIndex).keyVersion key)] := by
        unfold Transaction.watch at added
        split at added
        · cases added
        · cases added
          rfl
      have new : WatchInv w log id (key, (w.world c.dbIndex).keyVersion key) ⟨c.dbIndex, key, log.length⟩ :=
        ⟨rfl, le_rfl, low_of_keyVersion (sound c.dbIndex) small rfl, .inl .empty⟩
      have watches : Watches w log id
          { c with transaction, guard := c.guard ++ [⟨c.dbIndex, key, log.length⟩] } := by
        unfold Watches
        rw [keys]
        exact List.rel_append h (.cons new .nil)
      dsimp only
      split
      · exact reactionInv_answers watches _
      · exact reactionInv_watch watches unstarted rest

/-- A key that compares equal in its own database was not touched; once all have, none was. -/
theorem reactionInv_checkNext (h : Watches w log id c) (unstarted : Unstarted log id c.served) {compared : Nat}
    (untouched : ∀ g ∈ c.guard.take compared, Untouched log id g.db g.key g.start log.length)
    (selected : ∀ p ∈ (c.transaction.watchKeys.zip c.guard)[compared]?,
      (w.world c.dbIndex).keyVersion p.1.1 = p.1.2 → p.2.db = c.dbIndex) :
    ReactionInv w log id c.served (c.dispatching = true ∨ Unstarted log id c.served)
      (c.checkNext (fun k => (w.world c.dbIndex).keyVersion k) compared) := by
  have length := h.length_eq
  unfold Client.checkNext
  cases at_ : c.transaction.watchKeys[compared]? with
  | none =>
    have all : c.guard.take compared = c.guard :=
      List.take_of_length_le (by rw [← length]; exact List.getElem?_eq_none_iff.1 at_)
    exact reactionInv_startDispatch (all ▸ untouched) unstarted
  | some kv =>
    obtain ⟨inside, rfl⟩ := List.getElem?_eq_some_iff.1 at_
    dsimp only
    split
    · exact reactionInv_abort _
    · rename_i equal
      have inside' : compared < c.guard.length := length ▸ inside
      have here : WatchInv w log id c.transaction.watchKeys[compared] c.guard[compared] := h.get inside inside'
      have same : c.guard[compared].db = c.dbIndex := by
        refine selected (c.transaction.watchKeys[compared], c.guard[compared]) ?_ (not_not.1 equal)
        exact List.getElem?_zip_eq_some.2 ⟨at_, List.getElem?_eq_getElem inside'⟩
      have clean := here.clean.resolve_right (by
        rw [same]
        exact not_moved_of_keyVersion (sound c.dbIndex) small (not_not.1 equal))
      have next : ∀ g ∈ c.guard.take (compared + 1), Untouched log id g.db g.key g.start log.length := by
        rw [List.take_succ_eq_append_getElem inside']
        intro g hg
        rcases List.mem_append.1 hg with hg | hg
        · exact untouched g hg
        · rw [List.mem_singleton.1 hg]
          exact clean
      split
      · exact reactionInv_check h unstarted next
      · rename_i last
        have all : c.guard.take (compared + 1) = c.guard := List.take_of_length_le (by omega)
        exact reactionInv_startDispatch (all ▸ next) unstarted

theorem reactionInv_next [NeZero dbCount] (h : ClientInv w log id c)
    (fresh : c.pc = .idle → Unstarted log id c.served)
    (selected : ∀ compared, c.pc = .check compared → ∀ p ∈ (c.transaction.watchKeys.zip c.guard)[compared]?,
      (w.world c.dbIndex).keyVersion p.1.1 = p.1.2 → p.2.db = c.dbIndex)
    {request : Request dbCount} {r : Reaction dbCount}
    (next : c.next request (fun k => (w.world c.dbIndex).keyVersion k) log.length = .inr r) :
    ReactionInv w log id c.served (c.dispatching = true ∨ Unstarted log id c.served) r := by
  unfold ClientInv at h
  unfold Client.next at next
  cases pc : c.pc with
  | idle =>
    rw [pc] at h next
    have unstarted := fresh pc
    cases request with
    | select args =>
      cases next
      unfold Client.handleSelect
      split
      · split
        · rename_i inside
          exact reactionInv_answers (c := { c with dbIndex := ⟨_, inside⟩ }) h _
        · exact reactionInv_answers h _
      · exact reactionInv_answers h _
    | reset =>
      cases next
      exact reactionInv_abort (c := { c with dbIndex := 0 }) _
    | watch args =>
      cases next
      unfold Client.handleWatch
      split
      · exact reactionInv_answers h _
      · split
        · exact reactionInv_answers h _
        · exact reactionInv_watch h unstarted _
    | unwatch =>
      cases next
      exact ⟨List.Forall₂.nil, rfl, fun h => (by cases h), fun _ h => (by cases h)⟩
    | multi =>
      cases next
      unfold Client.handleMulti
      split
      · exact reactionInv_answers h _
      · exact reactionInv_answers (c := { c with transaction := c.transaction.begin }) h _
    | exec =>
      cases next
      unfold Client.handleExec
      split
      · exact reactionInv_answers h _
      · split
        · exact reactionInv_abort _
        · split
          · rename_i empty
            have none : c.guard = [] := by
              have length := h.length_eq
              rw [List.isEmpty_iff.1 empty] at length
              exact List.length_eq_zero_iff.1 length.symm
            exact reactionInv_startDispatch (by simp [none]) unstarted
          · exact reactionInv_check h unstarted (by simp)
    | discard =>
      cases next
      unfold Client.handleDiscard
      split
      · exact reactionInv_answers h _
      · exact reactionInv_abort _
    | script calls => cases next
    | command cmd =>
      dsimp only at next
      split at next
      · cases next
        exact reactionInv_answers (c := { c with transaction := c.transaction.enqueue cmd }) h _
      · cases next
  | watch rest =>
    rw [pc] at h next
    cases next
    exact reactionInv_watchNext sound small h.1 h.2 rest
  | check compared =>
    rw [pc] at h next
    cases next
    exact reactionInv_checkNext sound small h.1 h.2.1 h.2.2 (selected compared pc)
  | run cmd rest results =>
    rw [pc] at next
    cases next
  | command cmd =>
    rw [pc] at next
    cases next

end Reactions

/-- A section is run for a request that has just arrived, or for one under way. -/
theorem next_cases {c : Client dbCount} {request : Request dbCount} {version : Bytes → Nat} {position : Nat}
    {cmd : Program dbCount} (h : c.next request version position = .inl cmd) :
    c.pc = .idle ∨ c.pc = .command cmd ∨ ∃ rest results, c.pc = .run cmd rest results := by
  unfold Client.next at h
  cases pc : c.pc with
  | idle => exact .inl rfl
  | run cmd' rest results =>
    rw [pc] at h
    cases h
    exact .inr (.inr ⟨rest, results, rfl⟩)
  | command cmd' =>
    rw [pc] at h
    cases h
    exact .inr (.inl rfl)
  | watch rest =>
    rw [pc] at h
    cases h
  | check compared =>
    rw [pc] at h
    cases h

omit [NeZero dbCount] in
theorem arrive_pc (c : Client dbCount) : c.arrive.pc = c.pc := by
  unfold Client.arrive
  split <;> rfl

omit [NeZero dbCount] in
theorem arrive_of_not_idle {c : Client dbCount} (h : c.pc ≠ .idle) : c.arrive = c := by
  unfold Client.arrive
  split
  · exact (h ‹_›).elim
  · rfl

omit [NeZero dbCount] in
theorem arrive_served (c : Client dbCount) : c.served ≤ c.arrive.served := by
  unfold Client.arrive
  split
  · exact Nat.le_succ _
  · exact le_rfl

omit [NeZero dbCount] in
/-- Nothing but the count changes when a request arrives. -/
theorem arrive_cases (c : Client dbCount) : c.arrive.transaction = c.transaction ∧ c.arrive.dbIndex = c.dbIndex ∧
    c.arrive.guard = c.guard ∧ c.arrive.dispatching = c.dispatching := by
  unfold Client.arrive
  split
  · exact ⟨rfl, rfl, rfl, rfl⟩
  · exact ⟨rfl, rfl, rfl, rfl⟩

omit [NeZero dbCount] in
/-- A request that has just arrived is a new one. -/
theorem Inv.unstarted_arrive (inv : s.Inv) {id : Nat} (idle : (s.clients id).pc = .idle) :
    Unstarted s.log id (s.clients id).arrive.served := by
  intro e he same
  have old := inv.old e he
  rw [same] at old
  simp only [Client.arrive, idle] at old
  omega

omit [NeZero dbCount] in
theorem ClientInv.arrive {w : Stores dbCount} {log : List (Ran dbCount)} {id : Nat} {c : Client dbCount}
    (h : ClientInv w log id c) : ClientInv w log id c.arrive := by
  cases pc : c.pc with
  | idle =>
    unfold ClientInv at h
    rw [pc] at h
    simp only [Client.arrive, pc]
    unfold ClientInv
    exact h
  | _ =>
    rw [arrive_of_not_idle (by rw [pc]; simp)]
    exact h

/-- A turn that runs no section leaves every client as well off. -/
theorem Inv.client_quiet (inv : s.Inv) (few : (s.advance t).writes < 2 ^ 64) (fair : s.Fair t)
    (quiet : s.dispatched t = none) (id : Nat) :
    ClientInv (s.advance t).store (s.advance t).log id (s.clients id) := by
  have log : (s.advance t).log = s.log := by simp only [advance, quiet]
  have watches (h : Watches s.store s.log id (s.clients id)) :
      Watches (s.advance t).store s.log id (s.clients id) := log ▸ inv.watches_advance few fair h
  have before := inv.client id
  rw [log]
  unfold ClientInv at before ⊢
  cases pc : (s.clients id).pc with
  | idle => rw [pc] at before; exact watches before
  | command cmd => rw [pc] at before; exact watches before
  | watch rest => rw [pc] at before; exact ⟨watches before.1, before.2⟩
  | check compared => rw [pc] at before; exact ⟨watches before.1, before.2⟩
  | run cmd rest results => rw [pc] at before; exact before

/-- The client that takes a turn without a section. -/
theorem Inv.reactionInv_quiet (inv : s.Inv) (few : (s.advance t).writes < 2 ^ 64) (fair : s.Fair t)
    (quiet : s.dispatched t = none) :
    ReactionInv (s.advance t).store (s.advance t).log t.client (s.clients t.client).arrive.served
      ((s.clients t.client).dispatching = true ∨ Unstarted s.log t.client (s.clients t.client).arrive.served)
      (s.reaction t) := by
  have kept := (inv.client_quiet few fair quiet t.client).arrive
  have sound := inv.sound_advance few
  have log : (s.advance t).log = s.log := by simp only [advance, quiet]
  have store : (s.advance t).store = s.store.tick t.now := by simp only [advance, quiet]
  obtain ⟨transaction, dbIndex, guard, dispatching⟩ := arrive_cases (s.clients t.client)
  have fresh (idle : (s.clients t.client).arrive.pc = .idle) :
      Unstarted (s.advance t).log t.client (s.clients t.client).arrive.served := by
    rw [arrive_pc] at idle
    rw [log]
    exact inv.unstarted_arrive idle
  obtain ⟨r, next⟩ : ∃ r, s.nextOf t = .inr r := by
    unfold dispatched at quiet
    cases h : s.nextOf t with
    | inl cmd =>
      rw [h] at quiet
      cases quiet
    | inr r => exact ⟨r, rfl⟩
  have react : s.reaction t = r := by simp only [reaction, next]
  have selected (compared : Nat) (pc : (s.clients t.client).arrive.pc = .check compared) :
      ∀ p ∈ ((s.clients t.client).arrive.transaction.watchKeys.zip (s.clients t.client).arrive.guard)[compared]?,
        ((s.advance t).store.world (s.clients t.client).arrive.dbIndex).keyVersion p.1.1 = p.1.2 →
          p.2.db = (s.clients t.client).arrive.dbIndex := by
    rw [arrive_pc] at pc
    rw [transaction, guard, dbIndex, store]
    exact fair.selected compared pc
  rw [nextOf, ← store, ← log] at next
  rw [react, ← log, ← dispatching]
  exact reactionInv_next sound few kept fresh selected next

omit [NeZero dbCount] in
/-- A section of a command that was sent by itself. -/
theorem reactionInv_single {w : Stores dbCount} {log : List (Ran dbCount)} {id : Nat} {started : Prop}
    {c : Client dbCount} (h : Watches w log id c) (here : started)
    (single : ∀ cmd rest results, c.pc ≠ .run cmd rest results) (ending : Resp ⊕ Program dbCount) :
    ReactionInv w log id c.served started (c.receive ending) := by
  unfold Client.receive
  split
  · exact absurd ‹_› (single _ _ _)
  · exact absurd ‹_› (single _ _ _)
  · exact reactionInv_answers h _
  · exact ⟨h, rfl, fun _ => here, fun _ h => (by cases h)⟩

/-- The client that takes a turn with a section. -/
theorem Inv.reactionInv_ran (inv : s.Inv) (few : (s.advance t).writes < 2 ^ 64) (fair : s.Fair t)
    {cmd : Program dbCount} {e : Ran dbCount} (runs : s.dispatched t = some cmd)
    (log : (s.advance t).log = s.log ++ [e]) (unit : e.unit = (t.client, (s.clients t.client).arrive.served))
    (op : e.op = ⟨t.now, cmd⟩) (reply : e.reply = (cmd.exec (s.store.tick t.now)).2) :
    ReactionInv (s.advance t).store (s.advance t).log t.client (s.clients t.client).arrive.served
      ((s.clients t.client).dispatching = true ∨ Unstarted s.log t.client (s.clients t.client).arrive.served)
      (s.reaction t) := by
  have next : s.nextOf t = .inl cmd := Sum.getLeft?_eq_some_iff.1 runs
  have react : s.reaction t = (s.clients t.client).arrive.receive e.reply := by
    simp only [reaction, next, reply]
  have before := inv.client t.client
  have arrived := before.arrive
  unfold ClientInv at before
  rw [react]
  rcases next_cases next with idle | single | ⟨rest, results, pc⟩
  · rw [arrive_pc] at idle
    rw [idle] at before
    have watches : Watches (s.advance t).store (s.advance t).log t.client (s.clients t.client).arrive := by
      simp only [Client.arrive, idle]
      exact inv.watches_advance few fair before
    refine reactionInv_single watches (.inr (inv.unstarted_arrive idle)) (fun _ _ _ h => ?_) e.reply
    rw [arrive_pc, idle] at h
    cases h
  · rw [arrive_pc] at single
    rw [single] at before
    have busy : (s.clients t.client).arrive = s.clients t.client := arrive_of_not_idle (by rw [single]; simp)
    have dispatching : (s.clients t.client).dispatching = true := by simp only [Client.dispatching, single]
    rw [busy]
    refine reactionInv_single (inv.watches_advance few fair before) (.inl dispatching) (fun _ _ _ h => ?_) e.reply
    rw [single] at h
    cases h
  · rw [arrive_pc] at pc
    rw [pc] at before
    obtain ⟨none, untouched, follows⟩ := before
    have busy : (s.clients t.client).arrive = s.clients t.client := arrive_of_not_idle (by rw [pc]; simp)
    rw [busy] at unit ⊢
    have dispatching : (s.clients t.client).dispatching = true := by simp only [Client.dispatching, pc]
    have untouched : ∀ g ∈ (s.clients t.client).guard,
        Untouched (s.advance t).log t.client g.db g.key g.start (s.advance t).log.length := fun g hg =>
      inv.untouched_advance (untouched g hg) fun other => absurd rfl other
    have grown : block (s.advance t).log (t.client, (s.clients t.client).served) =
        block s.log (t.client, (s.clients t.client).served) ++ [e] := by
      rw [log]
      exact block_append_self unit
    have same : e.op.cmd = cmd := by rw [op]
    rw [← same] at follows
    unfold Client.receive
    rw [pc]
    cases ending : e.reply with
    | inl r =>
      dsimp only
      refine reactionInv_dispatchNext none untouched (.inl dispatching) ?_
      rw [grown]
      exact follows.ends ending
    | inr left =>
      dsimp only
      refine ⟨⟨none, untouched, ?_⟩, rfl, fun _ => .inl dispatching, fun _ h => (by cases h)⟩
      show Follows _ (block _ (t.client, (s.clients t.client).served)) _ _
      rw [grown]
      exact follows.goesOn ending

theorem Inv.reactionInv (inv : s.Inv) (few : (s.advance t).writes < 2 ^ 64) (fair : s.Fair t) :
    ReactionInv (s.advance t).store (s.advance t).log t.client (s.clients t.client).arrive.served
      ((s.clients t.client).dispatching = true ∨ Unstarted s.log t.client (s.clients t.client).arrive.served)
      (s.reaction t) := by
  rcases s.advance_cases t with ⟨quiet, -⟩ | ⟨cmd, e, runs, log, unit, op, reply, -⟩
  · exact inv.reactionInv_quiet few fair quiet
  · exact inv.reactionInv_ran few fair runs log unit op reply

/-! ## Runs -/

theorem advance_clients (s : Server dbCount) (t : Turn dbCount) : (s.advance t).clients = s.clients := by
  unfold advance
  cases s.dispatched t <;> rfl

theorem advance_execs (s : Server dbCount) (t : Turn dbCount) : (s.advance t).execs = s.execs := by
  unfold advance
  cases s.dispatched t <;> rfl

/-- A section belongs to a new request, or to one that was under way. -/
theorem Inv.separable_advance (inv : s.Inv) : Separable Dispatch.apply (s.advance t).log := by
  rcases s.advance_cases t with ⟨-, log, -⟩ | ⟨cmd, e, runs, log, unit, -⟩
  · rw [log]
    exact inv.separable
  · rw [log]
    refine inv.separable.snoc fun x y sub same other => ?_
    rw [unit] at same
    by_cases idle : (s.clients t.client).pc = .idle
    · exact (inv.unstarted_arrive idle x (sub.subset (by simp)) same).elim
    · have dispatching : (s.clients t.client).dispatching = true := by
        rcases next_cases (Sum.getLeft?_eq_some_iff.1 runs) with pc | pc | ⟨rest, results, pc⟩
        · rw [arrive_pc] at pc
          exact (idle pc).elim
        · rw [arrive_pc] at pc
          simp only [Client.dispatching, pc]
        · rw [arrive_pc] at pc
          simp only [Client.dispatching, pc]
      rw [arrive_of_not_idle idle] at same
      exact inv.behind t.client dispatching x y sub same other

/-- The sections run behind those of a request under way. -/
theorem Inv.behind_advance (inv : s.Inv) (fair : s.Fair t) {id : Nat} (other : id ≠ t.client)
    (dispatching : (s.clients id).dispatching = true) {x y : Ran dbCount} (sub : [x, y].Sublist (s.advance t).log)
    (mine : x.unit = (id, (s.clients id).served)) (ne : y.unit ≠ x.unit) :
    Commute Dispatch.apply x.op y.op := by
  rcases s.advance_cases t with ⟨-, log, -⟩ | ⟨cmd, e, runs, log, unit, op, -⟩
  · rw [log] at sub
    exact inv.behind id dispatching x y sub mine ne
  · rw [log] at sub
    rcases sublist_snoc (l := [x]) sub with inside | ⟨rfl, inside⟩
    · exact inv.behind id dispatching x y inside mine ne
    · rw [op]
      refine fair.commutes cmd runs id other dispatching x ?_
      exact List.mem_filter.2 ⟨inside.subset (by simp), by simpa using mine⟩

omit [NeZero dbCount] in
theorem served_update (s : Server dbCount) (t : Turn dbCount) {r : Reaction dbCount}
    (same : r.client.served = (s.clients t.client).arrive.served) (id : Nat) :
    (s.clients id).served ≤ (Function.update s.clients t.client r.client id).served := by
  by_cases h : id = t.client
  · subst h
    rw [Function.update_self, same]
    exact arrive_served _
  · rw [Function.update_of_ne h]

theorem Inv.exec_advance (inv : s.Inv) {r : Reaction dbCount}
    (same : r.client.served = (s.clients t.client).arrive.served) {x : Executed dbCount} (mem : x ∈ s.execs) :
    ExecInv ((s.advance t).react t.client r) x := by
  have before := inv.execs x mem
  have later : x.client = t.client → x.request < (s.clients t.client).arrive.served := by
    intro mine
    rcases mine ▸ before.ended with less | ⟨equal, idle⟩
    · exact less.trans_le (arrive_served _)
    · simp only [Client.arrive, idle]
      omega
  have other : (x.client, x.request) ≠ (t.client, (s.clients t.client).arrive.served) := by
    intro h
    rw [Prod.mk.injEq] at h
    exact (later h.1).ne h.2
  refine ⟨?_, before.finish.trans (s.length_advance t), fun g hg => ?_, ?_⟩
  · show Follows _ (block (s.advance t).log _) _ _
    rw [block_advance other]
    exact before.results
  · show Untouched (s.advance t).log x.client g.db g.key g.start x.finish
    rcases s.advance_cases t with ⟨-, log, -⟩ | ⟨cmd, e, -, log, -⟩
    · rw [log]
      exact before.watched g hg
    · rw [log]
      exact (before.watched g hg).append [e] before.finish
  · show x.request < (Function.update (s.advance t).clients t.client r.client x.client).served ∨
      x.request = (Function.update (s.advance t).clients t.client r.client x.client).served ∧
        (Function.update (s.advance t).clients t.client r.client x.client).pc = .idle
    rw [advance_clients]
    by_cases mine : x.client = t.client
    · left
      rw [mine, Function.update_self, same]
      exact later mine
    · rw [Function.update_of_ne mine]
      exact before.ended

theorem exec_new {r : Reaction dbCount} {started : Prop}
    (own : ReactionInv (s.advance t).store (s.advance t).log t.client (s.clients t.client).arrive.served started r)
    {p : Answered dbCount} (ended : r.executed = some p) :
    ExecInv ((s.advance t).react t.client r) ⟨p, t.client, r.client.served, (s.advance t).log.length⟩ := by
  obtain ⟨results, untouched, idle⟩ := own.executed p ended
  have here : ((s.advance t).react t.client r).clients t.client = r.client := Function.update_self ..
  refine ⟨?_, le_rfl, untouched, .inr ?_⟩
  · rw [own.request]
    exact results
  · rw [here]
    exact ⟨rfl, idle⟩

/-- The sections behind those of the client that takes the turn. -/
theorem Inv.behind_own (inv : s.Inv) (few : (s.advance t).writes < 2 ^ 64) (fair : s.Fair t)
    (dispatching : (s.reaction t).client.dispatching = true) {x y : Ran dbCount}
    (sub : [x, y].Sublist (s.advance t).log)
    (mine : x.unit = (t.client, (s.reaction t).client.served)) (ne : y.unit ≠ x.unit) :
    Commute Dispatch.apply x.op y.op := by
  have own := inv.reactionInv few fair
  rw [own.request] at mine
  -- What stands behind a section of the client was run before this turn.
  have earlier : [x, y].Sublist s.log := by
    rcases s.advance_cases t with ⟨-, log, -⟩ | ⟨cmd, e, -, log, unit, -⟩
    · rwa [log] at sub
    · rw [log] at sub
      rcases sublist_snoc (l := [x]) sub with inside | ⟨rfl, -⟩
      · exact inside
      · exact (ne (unit.trans mine.symm)).elim
  rcases own.started dispatching with was | unstarted
  · have busy : (s.clients t.client).pc ≠ .idle := by
      intro idle
      simp [Client.dispatching, idle] at was
    rw [arrive_of_not_idle busy] at mine
    exact inv.behind t.client was x y earlier mine ne
  · exact (unstarted x (earlier.subset (by simp)) mine).elim

/-- **One turn.** -/
theorem Inv.turn (inv : s.Inv) (few : (s.turn t).writes < 2 ^ 64) (fair : s.Fair t) : (s.turn t).Inv := by
  rw [turn_eq] at few ⊢
  replace few : (s.advance t).writes < 2 ^ 64 := few
  have own := inv.reactionInv few fair
  have served := served_update s t own.request
  refine ⟨inv.sound_advance few, inv.explains_advance, fun e he => ?_, inv.separable_advance,
    fun c hc x y sub mine ne => ?_, fun c => ?_, fun x hx => ?_⟩
  · show e.unit.2 ≤ (Function.update (s.advance t).clients t.client (s.reaction t).client e.unit.1).served
    rw [advance_clients]
    replace he : e ∈ (s.advance t).log := he
    rcases s.advance_cases t with ⟨-, log, -⟩ | ⟨cmd, e', -, log, unit, -⟩
    · rw [log] at he
      exact (inv.old e he).trans (served e.unit.1)
    · rw [log] at he
      rcases List.mem_append.1 he with he | he
      · exact (inv.old e he).trans (served e.unit.1)
      · rw [List.mem_singleton.1 he, unit, Function.update_self, own.request]
  · simp only [react, advance_clients] at hc mine
    by_cases here : c = t.client
    · subst here
      rw [Function.update_self] at hc mine
      exact inv.behind_own few fair hc sub mine ne
    · rw [Function.update_of_ne here] at hc mine
      exact inv.behind_advance fair here hc sub mine ne
  · show ClientInv (s.advance t).store (s.advance t).log c
      (Function.update (s.advance t).clients t.client (s.reaction t).client c)
    rw [advance_clients]
    by_cases here : c = t.client
    · subst here
      rw [Function.update_self]
      exact own.client
    · rw [Function.update_of_ne here]
      exact inv.client_advance few fair here
  · simp only [react, advance_execs] at hx
    rcases List.mem_append.1 hx with old | new
    · exact inv.exec_advance own.request old
    · obtain ⟨p, ended, rfl⟩ := Option.map_eq_some_iff.1 (Option.mem_toList.1 new)
      exact exec_new own ended

theorem writes_turn (s : Server dbCount) (t : Turn dbCount) : s.writes ≤ (s.turn t).writes := by
  rw [turn_eq]
  exact s.advance_writes_le t

theorem writes_run (s : Server dbCount) (turns : List (Turn dbCount)) : s.writes ≤ (s.run turns).writes := by
  induction turns generalizing s with
  | nil => exact le_rfl
  | cons t turns ih => exact (s.writes_turn t).trans (ih (s.turn t))

/-- **A run.** -/
theorem Inv.run {turns : List (Turn dbCount)} (inv : s.Inv) (few : (s.run turns).writes < 2 ^ 64)
    (fair : Along Server.turn Server.Fair s turns) : (s.run turns).Inv := by
  induction turns generalizing s with
  | nil => exact inv
  | cons t turns ih =>
    have now : (s.turn t).writes < 2 ^ 64 := ((s.turn t).writes_run turns).trans_lt few
    exact ih (inv.turn now fair.1) few fair.2

end Server

section

variable [NeZero dbCount] {s : Server dbCount} {t : Turn dbCount}

theorem Server.turn_clients_of_ne (s : Server dbCount) {t : Turn dbCount} {c : Nat} (ne : c ≠ t.client) :
    (s.turn t).clients c = s.clients c := by
  rw [turn_eq]
  show Function.update (s.advance t).clients t.client _ c = _
  rw [Function.update_of_ne ne, advance_clients]

end

/-- SET and MGET, as they are sent. -/
def sendSet (key value : Bytes) : Request dbCount := .command fun db => (Command.cmdSet key value).inDb db

/-- No client but 0 has a request under way or a key watched. -/
def Server.OnlyZero (s : Server dbCount) : Prop :=
  ∀ c, c ≠ 0 → (s.clients c).pc = .idle ∧ (s.clients c).transaction.watchKeys = []

section

variable [NeZero dbCount] {s : Server dbCount}

theorem Server.OnlyZero.zero (h : s.OnlyZero) (request : Request dbCount) : (s.turn ⟨0, 0, request⟩).OnlyZero := by
  intro c ne
  rw [s.turn_clients_of_ne ne]
  exact h c ne

theorem Server.OnlyZero.one (h : s.OnlyZero) (request : Request dbCount)
    (idle : ((s.turn ⟨1, 0, request⟩).clients 1).pc = .idle)
    (unwatched : ((s.turn ⟨1, 0, request⟩).clients 1).transaction.watchKeys = []) :
    (s.turn ⟨1, 0, request⟩).OnlyZero := by
  intro c ne
  by_cases here : c = 1
  · subst here
    exact ⟨idle, unwatched⟩
  · rw [s.turn_clients_of_ne here]
    exact h c ne

omit [NeZero dbCount] in
theorem Server.OnlyZero.unwatched (h : s.OnlyZero) (zero : (s.clients 0).transaction.watchKeys = []) (c : Nat) :
    (s.clients c).transaction.watchKeys = [] := by
  by_cases here : c = 0
  · rwa [here]
  · exact (h c here).2

end

/-- GET, as it is sent. -/
def sendGet (key : Bytes) : Request dbCount := .command fun db => (Command.cmdGet key).inDb db

/-- Client 0 watches `a` and selects database 1, client 1 writes the `a` of database 0, and then comes the EXEC. -/
def elsewhere : List (Turn 2) :=
  [⟨0, 0, .watch [.bulkString (some [97])]⟩, ⟨0, 0, .unwatch⟩, ⟨0, 0, .select [.bulkString (some [49])]⟩,
    ⟨1, 0, sendSet [97] [49]⟩, ⟨0, 0, .multi⟩, ⟨0, 0, sendGet [97]⟩, ⟨0, 0, .exec⟩, ⟨0, 0, .exec⟩, ⟨0, 0, .exec⟩]

end NexradeCache
