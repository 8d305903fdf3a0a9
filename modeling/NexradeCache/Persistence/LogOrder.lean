import NexradeCache.Command.Collections
import NexradeCache.Lib.Interleave
import NexradeCache.Lib.Replay
import NexradeCache.Lib.Serial

/-!
# The order of the append-only log (`dispatch_tracked` of `nexrade-core/src/command/mod.rs`)

Clients that dispatch deterministic write commands while the append-only file is on. A write is two atomic
steps: its handler, under the locks of its shards, and the append, under the lock of the writer. Between the
two another client can do either. `logOrder_agrees` says that replaying the file leads to the store, if no
append overtakes a write to one of its keys that was applied before it and is still on its way;
`logOrder_two_sets` is a schedule in which one does.

There is one database here: the SELECT in front of each command takes the replay to its own.
-/

namespace NexradeCache.Logged

open Collections Interleave Replay Trace

/-! ## Deterministic write commands -/

abbrev Values := Bytes → Option Stored

/-- No key has a deadline. -/
def Undated (K : Values) : Prop := ∀ key e, K key = some e → e.expiry = none

theorem undated_empty : Undated fun _ => none := nofun

/-- A write command whose handler reads nothing but its keys, and the clock for their deadlines only. One that
fails changes nothing. -/
structure Mutation where
  keys : Set Bytes
  exec : (now : Nat) → Values → Values × Bool
  within : ∀ now, Serial.Local (fun (_ : Unit) => exec now) () keys
  timeless : ∀ now {K}, Undated K → exec now K = exec 0 K
  undated : ∀ now {K}, Undated K → Undated (exec now K).1
  harmless : ∀ now {K}, Undated K → (exec now K).2 = false → (exec now K).1 = K

/-- What a handler gets to see of the entry of its key. -/
def visible (now : Nat) (c : Option Stored) : Option Stored := c.filter fun e => !e.isExpired now

theorem visible_of_undated {now : Nat} {c : Option Stored} (undated : ∀ e, c = some e → e.expiry = none) :
    visible now c = c := by
  cases c with
  | none => rfl
  | some e => simp [visible, Stored.isExpired, undated e rfl]

/-- What a handler of one key does with its entry: it sets no deadline, and one that fails changes nothing. -/
structure Handles (f : Option Stored → Option Stored × Bool) : Prop where
  undated : ∀ {c}, (∀ e, c = some e → e.expiry = none) → ∀ e, (f c).1 = some e → e.expiry = none
  harmless : ∀ {c}, (f c).2 = false → (f c).1 = c

/-- A handler of one key. -/
def onKey (key : Bytes) (f : Option Stored → Option Stored × Bool) (handles : Handles f) : Mutation where
  keys := {key}
  exec now K :=
    let (c, succeeded) := f (visible now (K key))
    (Function.update K key c, succeeded)
  within now := by
    refine ⟨fun K k other => Function.update_of_ne other _ K, fun K K' same => ?_⟩
    have here : K key = K' key := same key rfl
    refine ⟨fun k mem => ?_, by dsimp only; rw [here]⟩
    rw [Set.mem_singleton_iff.1 mem]
    simp only [Function.update_self, here]
  timeless now K undated := by
    rw [visible_of_undated (undated key), visible_of_undated (undated key)]
  undated now K undated k e is := by
    rw [visible_of_undated (undated key)] at is
    dsimp only at is
    by_cases same : k = key
    · rw [same, Function.update_self] at is
      exact handles.undated (undated key) e is
    · rw [Function.update_of_ne same] at is
      exact undated k e is
  harmless now K undated failed := by
    rw [visible_of_undated (undated key)] at failed ⊢
    dsimp only at failed ⊢
    rw [handles.harmless failed, Function.update_eq_self]

/-- SET without options. -/
def setEntry (value : Bytes) (_ : Option Stored) : Option Stored × Bool := (some ⟨.plain (.string value), none⟩, true)

/-- The bytes APPEND writes over a value. -/
def appended (value : Bytes) : Value → Option Bytes
  | .plain (.string v) => some (v ++ value)
  | .plain (.int n) => some (putI64 n ++ value)
  | .plain (.bitmap v) => some (v ++ value)
  | _ => none

/-- APPEND. A value of another kind is an error. -/
def appendEntry (value : Bytes) : Option Stored → Option Stored × Bool
  | some e =>
    match appended value e.value with
    | some v => (some { e with value := .plain (.string v) }, true)
    | none => (some e, false)
  | none => (some ⟨.plain (.string value), none⟩, true)

/-- LPUSH and RPUSH. -/
def pushEntry (left : Bool) (values : List Bytes) : Option Stored → Option Stored × Bool
  | some e =>
    match e.value with
    | .list items => (some { e with value := .list (values.foldl (fun l v => pushOne left v l) items) }, true)
    | _ => (some e, false)
  | none => (some ⟨.list (values.foldl (fun l v => pushOne left v l) []), none⟩, true)

/-- The number INCR finds. -/
def current : Value → Option Int64
  | .plain (.int n) => some n
  | .plain (.string v) => Database.parseValue v
  | _ => none

/-- INCR and its family. -/
def incrEntry (delta : Int64) : Option Stored → Option Stored × Bool
  | some e =>
    match (current e.value).bind fun n => checkedAddI64 n delta with
    | some n => (some { e with value := .plain (.int n) }, true)
    | none => (some e, false)
  | none => (some ⟨.plain (.int delta), none⟩, true)

theorem handles_setEntry (value : Bytes) : Handles (setEntry value) where
  undated _ e is := by cases is; rfl
  harmless failed := by cases failed

/-- APPEND keeps the deadline, and refuses an entry that is no string. -/
theorem handles_appendEntry (value : Bytes) : Handles (appendEntry value) where
  undated {c} undated e is := by
    cases c with
    | none => cases is; rfl
    | some old =>
      have kept := undated old rfl
      rw [appendEntry] at is
      split at is <;> cases is <;> exact kept
  harmless {c} failed := by
    cases c with
    | none => cases failed
    | some old =>
      rw [appendEntry] at failed ⊢
      split at failed
      · cases failed
      · rfl

/-- A push keeps the deadline, and refuses an entry that is no list. -/
theorem handles_pushEntry (left : Bool) (values : List Bytes) : Handles (pushEntry left values) where
  undated {c} undated e is := by
    cases c with
    | none => cases is; rfl
    | some old =>
      have kept := undated old rfl
      rw [pushEntry] at is
      split at is <;> cases is <;> exact kept
  harmless {c} failed := by
    cases c with
    | none => cases failed
    | some old =>
      rw [pushEntry] at failed ⊢
      split at failed
      · cases failed
      · rfl

/-- INCR keeps the deadline, and refuses what is no number or would overflow. -/
theorem handles_incrEntry (delta : Int64) : Handles (incrEntry delta) where
  undated {c} undated e is := by
    cases c with
    | none => cases is; rfl
    | some old =>
      have kept := undated old rfl
      rw [incrEntry] at is
      split at is <;> cases is <;> exact kept
  harmless {c} failed := by
    cases c with
    | none => cases failed
    | some old =>
      rw [incrEntry] at failed ⊢
      split at failed
      · cases failed
      · rfl

/-- SET of one key. -/
def set (key value : Bytes) : Mutation := onKey key (setEntry value) (handles_setEntry value)

/-- APPEND of one key. -/
def append (key value : Bytes) : Mutation := onKey key (appendEntry value) (handles_appendEntry value)

/-- LPUSH of one key. -/
def lpush (key : Bytes) (values : List Bytes) : Mutation := onKey key (pushEntry true values) (handles_pushEntry true values)

/-- INCRBY of one key. -/
def incrBy (key : Bytes) (delta : Int64) : Mutation := onKey key (incrEntry delta) (handles_incrEntry delta)

/-! ## The replay of a file -/

/-- Command after command, each at its own reading of the clock; an error ends it. -/
def replay (clock : Nat → Nat) : (done : Nat) → List Mutation → Values → Option Values
  | _, [], K => some K
  | done, m :: file, K => if (m.exec (clock done) K).2 then replay clock (done + 1) file (m.exec (clock done) K).1 else none

/-- What one command does to a replay. -/
def Mutation.apply (m : Mutation) (K : Option Values) : Option Values :=
  K.bind fun K => if (m.exec 0 K).2 then some (m.exec 0 K).1 else none

/-- Writes of different keys replay in either order. -/
theorem Mutation.commute {v w : Mutation} (apart : ∀ k ∈ v.keys, k ∉ w.keys) : Commute Mutation.apply v w := by
  have commute : Serial.Commute (fun m : Mutation => m.exec 0) v w :=
    Serial.Local.commute (F := v.keys) (G := w.keys) ⟨(v.within 0).frame, (v.within 0).change⟩
      ⟨(w.within 0).frame, (w.within 0).change⟩ apart
  intro K
  cases K with
  | none => rfl
  | some K =>
    obtain ⟨state, first, second⟩ := commute K
    simp only [Mutation.apply, Option.bind_some]
    cases okV : (v.exec 0 K).2 <;> cases okW : (w.exec 0 K).2 <;>
      simp [okV, okW, first, second, state]

theorem all_none (file : List Mutation) : all Mutation.apply file none = none := by
  induction file with
  | nil => rfl
  | cons m file ih => exact ih

/-- The clock does not matter to the replay of deterministic commands. -/
theorem replay_eq (clock : Nat → Nat) (done : Nat) (file : List Mutation) {K : Values} (undated : Undated K) :
    replay clock done file K = all Mutation.apply file (some K) := by
  induction file generalizing done K with
  | nil => rfl
  | cons m file ih =>
    have step : all Mutation.apply (m :: file) (some K) = all Mutation.apply file (m.apply (some K)) := rfl
    rw [step, replay, Mutation.apply, Option.bind_some, m.timeless (clock done) undated]
    split
    · exact ih (done + 1) (m.undated 0 undated)
    · exact (all_none file).symm

/-! ## Clients -/

/-- The store, the file, and as history the number of writes and those on their way to the file, in the order
they were applied. -/
structure Log where
  now : Nat
  store : Values
  file : List Mutation
  applied : Nat
  pending : List (Pending Mutation)

/-- An empty store and an empty file. -/
def Log.new (now : Nat) : Log := ⟨now, fun _ => none, [], 0, []⟩

/-- What is left to do of a command. The system clock is another task, and may go back. -/
inductive Task where
  | dispatch (m : Mutation)
  | append (m : Mutation) (id : Nat)
  | clock (now : Nat)
  | done

/-- A handler in one step, the append to the file in the next. -/
def Task.next (s : Log) : Task → List (Log × Task)
  | .dispatch m =>
    let (store, succeeded) := m.exec s.now s.store
    if succeeded then
      [({ s with store, applied := s.applied + 1, pending := s.pending ++ [⟨s.applied, m⟩] }, .append m s.applied)]
    else [({ s with store }, .done)]
  | .append m id => [({ s with file := s.file ++ [m], pending := settle s.pending id }, .done)]
  | .clock now => [({ s with now }, .done)]
  | .done => []

/-- What a client or the clock starts with. -/
def Task.entry : Task → Bool
  | .dispatch _ | .clock _ => true
  | _ => false

/-- The write that is on its way to the file. -/
def Task.pending : Task → Option (Pending Mutation)
  | .append m id => some ⟨id, m⟩
  | _ => none

/-- Nothing is left to do. -/
def Task.finished : Task → Bool
  | .done => true
  | _ => false

/-- Replaying the file, at any time, leads to the store. -/
def Log.Agrees (s : Log) : Prop := ∀ clock, replay clock 0 s.file (fun _ => none) = some s.store

/-- When all clients are done, the file agrees with the store. -/
def Kept (p : Pool Log Task) : Prop := (∀ t ∈ p.tasks, t.finished = true) → p.shared.Agrees

/-- An append overtakes no write to one of its keys that was applied before it. -/
def InTurn (p : Pool Log Task) (t : Task) (_ : Log) (_ : Task) : Prop :=
  match t with
  | .append m id => ∀ earlier later, p.shared.pending = earlier ++ ⟨id, m⟩ :: later →
      ∀ v ∈ earlier, ∀ k ∈ v.op.keys, k ∉ m.keys
  | _ => True

/-- What holds in every schedule: the store is what the file and then the pending writes lead to. -/
structure Sound (p : Pool Log Task) : Prop where
  undated : Undated p.shared.store
  whole : all Mutation.apply (p.shared.file ++ p.shared.pending.map Pending.op) (some fun _ => none) =
    some p.shared.store
  held : (p.tasks.filterMap Task.pending).Perm p.shared.pending
  distinct : (p.shared.pending.map Pending.id).Nodup
  below : ∀ e ∈ p.shared.pending, e.id < p.shared.applied

section

variable {s : Log} {before after : List Task} {t : Task}

theorem Sound.quiet (h : Sound ⟨s, before ++ t :: after⟩) (none : t.pending = none) (now : Nat) :
    Sound ⟨{ s with now }, before ++ .done :: after⟩ where
  undated := h.undated
  whole := h.whole
  held := by
    have held := (filterMap_cut Task.pending before after t).symm.trans h.held
    rw [none] at held
    exact (filterMap_cut Task.pending before after .done).trans held
  distinct := h.distinct
  below := h.below

theorem Sound.mutate {m : Mutation} (h : Sound ⟨s, before ++ .dispatch m :: after⟩)
    (succeeded : (m.exec s.now s.store).2 = true) :
    Sound ⟨{ s with
        store := (m.exec s.now s.store).1, applied := s.applied + 1
        pending := s.pending ++ [⟨s.applied, m⟩] }, before ++ .append m s.applied :: after⟩ where
  undated := m.undated s.now h.undated
  whole := by
    have now := m.timeless s.now h.undated
    dsimp only
    rw [List.map_append, ← List.append_assoc, all_append, h.whole]
    show m.apply (some s.store) = _
    rw [Mutation.apply, Option.bind_some, ← now, if_pos succeeded]
  held := by
    have held := (filterMap_cut Task.pending before after (.dispatch m)).symm.trans h.held
    exact (filterMap_cut Task.pending before after (.append m s.applied)).trans
      ((List.Perm.cons _ held).trans (List.perm_append_singleton _ _).symm)
  distinct := by
    rw [List.map_append, List.map_singleton, List.nodup_append]
    refine ⟨h.distinct, List.nodup_singleton _, fun id old id' new => ?_⟩
    obtain ⟨e, mem, rfl⟩ := List.mem_map.1 old
    rw [List.mem_singleton.1 new]
    exact (h.below e mem).ne
  below e mem := by
    rcases List.mem_append.1 mem with old | new
    · exact Nat.lt_succ_of_lt (h.below e old)
    · rw [List.mem_singleton.1 new]
      exact Nat.lt_succ_self _

/-- The append of a write that nothing in front of it keeps apart. -/
theorem Sound.append {m : Mutation} {id : Nat} (h : Sound ⟨s, before ++ .append m id :: after⟩)
    (turn : ∀ earlier later, s.pending = earlier ++ ⟨id, m⟩ :: later → ∀ v ∈ earlier, ∀ k ∈ v.op.keys, k ∉ m.keys) :
    Sound ⟨{ s with file := s.file ++ [m], pending := settle s.pending id }, before ++ .done :: after⟩ := by
  have held := (filterMap_cut Task.pending before after (.append m id)).symm.trans h.held
  have mem : Pending.mk id m ∈ s.pending := held.subset (.head _)
  have order : InOrder Mutation.apply s.pending ⟨id, m⟩ := fun earlier later split v inside =>
    Mutation.commute (turn earlier later split v inside)
  obtain ⟨logged, settled⟩ := all_settle s.file mem h.distinct order (some fun _ => none)
  have part : (settle s.pending id).Sublist s.pending := List.filter_sublist
  constructor
  · exact h.undated
  · exact logged.trans h.whole
  · exact (filterMap_cut Task.pending before after .done).trans (List.Perm.cons_inv (held.trans settled))
  · exact h.distinct.sublist (part.map _)
  · exact fun e mem => h.below e (part.subset mem)

end

theorem start_sound (now : Nat) : Sound ⟨.new now, []⟩ where
  undated := undated_empty
  whole := rfl
  held := List.Perm.refl _
  distinct := List.nodup_nil
  below e mem := by cases mem

/-- When no write is on its way, the file is all there is. -/
theorem Sound.kept {p : Pool Log Task} (h : Sound p) : Kept p := by
  intro rest clock
  have nothing : p.tasks.filterMap Task.pending = [] := by
    refine List.filterMap_eq_nil_iff.2 fun t mem => ?_
    cases t with
    | append m id => cases rest _ mem
    | _ => rfl
  have held := h.held
  rw [nothing] at held
  have whole := h.whole
  rw [held.nil_eq.symm, List.map_nil, List.append_nil] at whole
  rw [replay_eq clock 0 _ undated_empty]
  exact whole

/-- **The file agrees with the store** when all clients are done, in every schedule in which no append overtakes an
earlier write to one of its keys. The file and behind it what is pending replay to the store at every moment; an
append takes a write out of the middle of what is pending, past writes on other keys only. -/
theorem logOrder_agrees (turns : List (Interleave.Turn Task)) (now : Nat)
    (meets : Always (Pool.advance Task.next Task.entry) (fun t p => p.Meets Task.next InTurn t) turns ⟨.new now, []⟩) :
    Kept (run (Pool.advance Task.next Task.entry) turns ⟨.new now, []⟩) := by
  refine Sound.kept (advance_invariant meets (start_sound now) ?_ ?_)
  · intro s tasks t sound request
    have fresh : t.pending = none := by
      cases t with
      | append m id => cases request
      | _ => rfl
    exact { sound with
      held := by
        rw [List.filterMap_append, List.filterMap_cons, fresh, List.filterMap_nil, List.append_nil]
        exact sound.held }
  · intro s before t after s' t' sound mem fits
    cases t with
    | dispatch m =>
      rw [Task.next] at mem
      cases succeeded : (m.exec s.now s.store).2 with
      | true =>
        simp only [succeeded, if_true, List.mem_singleton, Prod.mk.injEq] at mem
        obtain ⟨rfl, rfl⟩ := mem
        exact sound.mutate succeeded
      | false =>
        have same := m.harmless s.now sound.undated succeeded
        simp only [succeeded, same, Bool.false_eq_true, if_false, List.mem_singleton, Prod.mk.injEq] at mem
        obtain ⟨rfl, rfl⟩ := mem
        exact sound.quiet rfl s.now
    | append m id =>
      rw [Task.next, List.mem_singleton] at mem
      cases mem
      exact sound.append fits
    | clock now =>
      rw [Task.next, List.mem_singleton] at mem
      cases mem
      exact sound.quiet rfl now
    | done => cases mem

/-! ## Two clients -/

/-- The string of an entry. -/
def text : Option Stored → Option Bytes
  | some ⟨.plain (.string v), _⟩ => some v
  | _ => none

/-- Four clients on three keys. A push overtakes a SET of another key on the way to the file, and an INCR the APPEND
that follows this SET. -/
def otherKey : List (Interleave.Turn Task) :=
  [.start (.dispatch (set [107] [97])), .start (.dispatch (lpush [108] [[98]])), .start (.dispatch (append [107] [99])),
    .start (.dispatch (incrBy [110] 1)), .step 0 0, .step 1 0, .step 1 0, .step 0 0, .step 2 0, .step 3 0, .step 3 0,
    .step 2 0]

theorem eq_of_mem_front {A : Type} {a b : A} {earlier later : List A} {v : A} (split : [a, b] = earlier ++ b :: later)
    (mem : v ∈ earlier) : v = a := by
  rcases earlier with _ | ⟨x, _ | ⟨y, earlier⟩⟩
  · cases mem
  · cases split
    exact List.mem_singleton.1 mem
  · have long := congrArg List.length split
    simp only [List.length_cons, List.length_nil, List.length_append] at long
    omega

theorem not_mem_front {A : Type} {a : A} {earlier later : List A} {v : A} (split : [a] = earlier ++ a :: later) :
    v ∉ earlier := by
  have long := congrArg List.length split
  simp only [List.length_cons, List.length_nil, List.length_append] at long
  rw [List.eq_nil_of_length_eq_zero (show earlier.length = 0 by omega)]
  exact List.not_mem_nil

/-- The file of those four clients. -/
theorem logOrder_agrees_otherKey : Kept (run (Pool.advance Task.next Task.entry) otherKey ⟨.new 0, []⟩) := by
  refine logOrder_agrees otherKey 0
    ⟨trivial, trivial, trivial, trivial, ?_, ?_, ?push, ?set, ?_, ?_, ?incr, ?append, trivial⟩
  case push =>
    intro t s' t' task chosen
    cases task
    intro earlier later split v mem k inKeys inPush
    have first : v = Pending.mk 0 (set [107] [97]) := eq_of_mem_front split mem
    rw [first] at inKeys
    cases inPush.symm.trans inKeys
  case set =>
    intro t s' t' task chosen
    cases task
    intro earlier later split v mem
    have alone : [Pending.mk 0 (set [107] [97])] = earlier ++ ⟨0, set [107] [97]⟩ :: later := split
    exact (not_mem_front alone mem).elim
  case incr =>
    intro t s' t' task chosen
    cases task
    intro earlier later split v mem k inKeys inIncr
    have first : v = Pending.mk 2 (append [107] [99]) := eq_of_mem_front split mem
    rw [first] at inKeys
    cases inIncr.symm.trans inKeys
  case append =>
    intro t s' t' task chosen
    cases task
    intro earlier later split v mem
    have alone : [Pending.mk 2 (append [107] [99])] = earlier ++ ⟨2, append [107] [99]⟩ :: later := split
    exact (not_mem_front alone mem).elim
  all_goals
    intro t s' t' task chosen
    cases task
    exact trivial

/-- Two clients that set one key; the second is the first to append. -/
def oneKey : List (Interleave.Turn Task) :=
  [.start (.dispatch (set [107] [97])), .start (.dispatch (set [107] [98])), .step 0 0, .step 1 0, .step 1 0, .step 0 0]

/-- **The file may lead to another value** than the store has. -/
theorem logOrder_two_sets : ¬∀ turns now, Kept (run (Pool.advance Task.next Task.entry) turns ⟨.new now, []⟩) := by
  intro kept
  have agrees := kept oneKey 0 (by decide) fun _ => 0
  have values := congrArg (fun K => (K.map fun K => text (K [107]))) agrees
  revert values
  decide

end NexradeCache.Logged
