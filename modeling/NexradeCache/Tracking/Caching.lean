import NexradeCache.Lib.Interleave
import NexradeCache.Tracking.Registry

/-!
# Client-side caching (`dispatch_tracked` of `nexrade-core/src/command/mod.rs`, `handle_exec` of
`nexrade-server/src/connection.rs`)

Any number of clients dispatch commands, and one of them, `c`, tracks in the default mode. A command
extracts its keys, runs its handler and then does its bookkeeping with the registry, in one step each.
What EXEC and scripts dispatch runs under the client id 0.

What a handler does is open, and so is which keys' values the reply to a read shows. Each key shown is
recorded, with whether it was changed since and whether the client was told of it since.
-/

namespace NexradeCache

open Interleave Trace TrackingRegistry

namespace Caching

variable {V : Type}

/-! ## State -/

/-- The value at a key of a database. -/
abbrev Values (V : Type) := Nat → Bytes → Option V

/-- What the handlers answer, read and write is open. -/
structure Handlers (V : Type) where
  exec : (db : Nat) → List Resp → Values V → Values V × Resp
  /-- The keys whose values the reply to a read shows. -/
  shows : List Resp → List Bytes

/-- A key that a read has shown to a client. -/
structure Shown where
  client : Nat
  db : Nat
  key : Bytes
  /-- Which read. -/
  read : Nat
  changed : Bool
  told : Bool
deriving DecidableEq

/-- The values, the registry of tracking clients, and what clients have been shown; the last two fields are a record
of the history, which no step depends on. -/
structure Server (V : Type) where
  values : Values V
  registry : TrackingRegistry
  /-- The ACL or the notifications want the keys of a command. -/
  wanted : Bool
  shown : List Shown
  reads : Nat

/-- A server on which nobody has read anything yet. -/
def Server.start (values : Values V) (registry : TrackingRegistry) (wanted : Bool) : Server V :=
  ⟨values, registry, wanted, [], 0⟩

/-! ## Steps -/

/-- The next step of a task. -/
inductive Task where
  /-- A command of a client, on its own or inside EXEC or a script. -/
  | dispatch (client db : Nat) (inside : Bool) (args : List Resp)
  | handle (client id db : Nat) (args : List Resp) (keys : List Bytes)
  | book (d : Dispatched) (read : Nat)
  /-- A connection registers, goes, or changes its mode. -/
  | connection (e : Event)
  | done

/-- The push tells of the key. -/
def names (key : Bytes) : TrackingPush → Bool
  | .keys keys => keys.contains key
  | .flushAll => true

/-- A push to the client that names the key is noted. -/
def Shown.tell (pushes : List (Nat × TrackingPush)) (r : Shown) : Shown :=
  { r with told := r.told || pushes.any fun (client, push) => client = r.client && names r.key push }

/-- A change of the value that was shown is noted. -/
def Shown.note [DecidableEq V] (old new : Values V) (r : Shown) : Shown :=
  { r with changed := r.changed || decide (new r.db r.key ≠ old r.db r.key) }

/-- The command is a read that was answered. -/
def isRead (cmd : String) (reply : Resp) : Bool := !isWriteCommand cmd && !isFlush cmd && !reply.isError

/-- The steps of a dispatch: its keys are taken from the arguments, if anybody wants them; the handler runs on the
values; then the registry is told of what was read or written. Between two of them any other task may run. -/
def Server.next [DecidableEq V] (h : Handlers V) (s : Server V) : Task → List (Server V × Task)
  | .dispatch client db inside args =>
    let cmd := cmdName args
    let keys := if !isFlush cmd && (s.wanted || s.registry.enabledCount > 0) then extractKeys cmd args else []
    [(s, .handle client (if inside then 0 else client) db args keys)]
  | .handle client id db args keys =>
    let cmd := cmdName args
    let (values, reply) := h.exec db args s.values
    let seen := if isRead cmd reply then (h.shows args).map fun key => ⟨client, db, key, s.reads, false, false⟩ else []
    [({ s with values, shown := s.shown.map (Shown.note s.values values) ++ seen, reads := s.reads + 1 },
      .book ⟨id, isFlush cmd, isWriteCommand cmd, !reply.isError, keys⟩ s.reads)]
  | .book d _ =>
    let (registry, pushes) := s.registry.bookkeeping d
    [({ s with registry, shown := s.shown.map (Shown.tell pushes) }, .done)]
  | .connection e => [({ s with registry := step e s.registry }, .done)]
  | .done => []

/-- The client of an event of a connection. -/
def connectionOf : Event → Option Nat
  | .register id | .unregister id | .enable id _ | .disable id | .setCachingOverride id _ => some id
  | _ => none

/-- The tracking client stays as it is. -/
def Task.entry (c : Nat) : Task → Bool
  | .dispatch _ _ _ _ => true
  | .connection e => (connectionOf e).any (· ≠ c)
  | _ => false

/-! ## No stale entry -/

/-- Tracking is on in the default mode, without REDIRECT and NOLOOP. -/
def Tracking (c : Nat) (r : TrackingRegistry) : Prop :=
  ∃ x, r.clients.lookup c = some x ∧ x.enabled = true ∧ x.opts.bcast = false ∧ x.opts.optin = false ∧
    x.opts.optout = false ∧ x.opts.noloop = false ∧ x.opts.redirect = none

/-- Nothing is left to do. -/
def Task.finished : Task → Bool
  | .done => true
  | _ => false

/-- At rest the client was told of each key it was shown that has changed. -/
def Fresh (c : Nat) (p : Pool (Server V) Task) : Prop :=
  (∀ t ∈ p.tasks, t.finished = true) → ∀ r ∈ p.shared.shown, r.client = c → r.changed = false ∨ r.told = true

/-- The task has changed the key and is yet to tell of it. -/
def Task.owes (key : Bytes) : Task → Bool
  | .book d _ => d.succeeded && (d.isFlush || (d.isWrite && d.keys.contains key))
  | _ => false

/-- The condition of a step, on the state before it. -/
def Fits [DecidableEq V] (h : Handlers V) (c : Nat) (p : Pool (Server V) Task) (t : Task) (_ : Server V) (_ : Task) : Prop :=
  match t with
  | .handle client id db args keys =>
    -- What a command changes is among its keys, and it has no error.
    (∀ db' key, (h.exec db args p.shared.values).1 db' key ≠ p.shared.values db' key →
      (h.exec db args p.shared.values).2.isError = false ∧
        (isFlush (cmdName args) = true ∨ (isWriteCommand (cmdName args) = true ∧ key ∈ keys))) ∧
    -- A read of the client runs under its own id, and shows what is among its keys.
    (client = c → isRead (cmdName args) (h.exec db args p.shared.values).2 = true →
      id = c ∧ ∀ key ∈ h.shows args, key ∈ keys)
  | .book d read =>
    -- A change between the read and its registration was told, or is yet to be.
    d.isFlush = false → d.isWrite = false → ∀ r ∈ p.shared.shown, r.client = c → r.read = read →
      r.told = true ∨ r.changed = false ∨ ∃ t ∈ p.tasks, t.owes r.key = true
  | _ => True

/-! ## The client in the registry -/

section
variable {c : Nat} {r : TrackingRegistry}

/-- The client will hear of a write of the key. -/
def Armed (c : Nat) (r : TrackingRegistry) (key : Bytes) : Prop := ∃ ids, r.keyIndex key = some ids ∧ c ∈ ids

/-- No client with tracking on is left out of the count. -/
def Counted (r : TrackingRegistry) : Prop := r.enabledIds.card ≤ r.enabledCount

/-- A client that tracks makes the count positive, so the registry is asked for the keys of each command. -/
theorem Counted.pos (h : Counted r) (on : Tracking c r) : 0 < r.enabledCount := by
  obtain ⟨x, found, enabled, -⟩ := on
  have card := Finset.card_pos.2 ⟨c, mem_enabledIds.2 ⟨x, found, enabled⟩⟩
  exact Nat.lt_of_lt_of_le card h

theorem Counted.erase (h : Counted r) {id : Nat} {x : TrackedClient} (found : r.clients.lookup id = some x) :
    (r.enabledIds.erase id).card ≤ if x.enabled then r.enabledCount - 1 else r.enabledCount := by
  unfold Counted at h
  split
  · rename_i on
    rw [Finset.card_erase_of_mem (mem_enabledIds.2 ⟨x, found, on⟩)]
    omega
  · exact Nat.le_trans (Finset.card_erase_le) h

theorem Counted.trackRead (h : Counted r) (id : Nat) (keys : List Bytes) : Counted (r.trackRead id keys) := by
  unfold TrackingRegistry.trackRead
  split
  · exact h
  split
  · exact h
  rename_i x found
  split
  · exact h
  · unfold Counted
    rw [enabledIds_change { x with cachingOverride := none } _ _ found rfl]
    exact h

theorem Counted.onWrite (h : Counted r) (keys : List Bytes) (writer : Nat) : Counted (r.onWrite keys writer).1 := by
  unfold TrackingRegistry.onWrite
  split
  · exact h
  · exact h

theorem Counted.bookkeeping (h : Counted r) (d : Dispatched) : Counted (r.bookkeeping d).1 := by
  unfold TrackingRegistry.bookkeeping
  split
  · split
    · exact h
    split
    · exact h
    split
    · exact h.onWrite d.keys d.client
    · exact h.trackRead d.client d.keys
  · exact h

/-- **Every event keeps the count of tracking clients right.** -/
theorem Counted.step (h : Counted r) (e : Event) : Counted (step e r) := by
  have erased (id : Nat) : (r.enabledIds.erase id).card ≤ r.enabledCount := Nat.le_trans Finset.card_erase_le h
  cases e with
  | register id =>
    have same : (r.register id).enabledIds = r.enabledIds.erase id := enabledIds_insert _ _ _
    show (r.register id).enabledIds.card ≤ r.enabledCount
    rw [same]
    exact erased id
  | unregister id =>
    unfold Counted
    simp only [TrackingRegistry.step, unregister]
    rw [enabledIds_erase]
    cases found : r.clients.lookup id with
    | none => exact erased id
    | some x => exact h.erase found
  | enable id opts =>
    unfold Counted
    simp only [TrackingRegistry.step, enable]
    split
    · exact h
    · rename_i x found
      rw [enabledIds_insert, if_pos rfl]
      dsimp only
      split
      · rename_i on
        rw [Finset.insert_eq_self.2 (mem_enabledIds.2 ⟨x, found, on⟩)]
        exact h
      · exact Nat.le_trans (Finset.card_insert_le _ _) (Nat.succ_le_succ h)
  | disable id =>
    unfold Counted
    simp only [TrackingRegistry.step, disable]
    split
    · exact h
    · rename_i x found
      rw [enabledIds_insert]
      exact h.erase found
  | setCachingOverride id yes =>
    unfold Counted
    simp only [TrackingRegistry.step, setCachingOverride]
    split
    · exact h
    · rename_i x found
      rw [enabledIds_change { x with cachingOverride := some yes } _ _ found rfl]
      exact h
  | trackRead id keys => exact h.trackRead id keys
  | onWrite keys writer => exact h.onWrite keys writer
  | flushAll => exact h
  | dispatched d => exact h.bookkeeping d

theorem counted_run (events : List Event) : Counted (run step events .new) := by
  have keep : ∀ r, Counted r → Counted (run step events r) := by
    induction events with
    | nil => exact fun r h => h
    | cons e events ih => exact fun r h => ih _ (h.step e)
  have none : TrackingRegistry.new.enabledIds.card ≤ 0 := by decide
  exact keep .new none

/-! ### Events of other connections -/

/-- An event of another connection leaves the client's registration as it is. -/
theorem lookup_connection {e : Event} {id : Nat} (is : connectionOf e = some id) (other : id ≠ c) :
    (step e r).clients.lookup c = r.clients.lookup c := by
  cases e with
  | register id' =>
    cases is
    exact AList.lookup_insert_ne other.symm
  | unregister id' =>
    cases is
    exact AList.lookup_erase_ne other.symm
  | enable id' opts =>
    cases is
    simp only [step, enable]
    split
    · rfl
    · exact AList.lookup_insert_ne other.symm
  | disable id' =>
    cases is
    simp only [step, disable]
    split
    · rfl
    · exact AList.lookup_insert_ne other.symm
  | setCachingOverride id' yes =>
    cases is
    simp only [step, setCachingOverride]
    split
    · rfl
    · exact AList.lookup_insert_ne other.symm
  | _ => cases is

/-- What is forgotten of another client is not the client's. -/
theorem armed_forget {id : Nat} {key : Bytes} {clients : AList fun _ : Nat => TrackedClient} {count : Nat} (other : id ≠ c)
    (armed : Armed c r key) : Armed c ⟨clients, forget r.keyIndex id, count⟩ key := by
  obtain ⟨ids, found, mem⟩ := armed
  have kept : c ∈ ids.erase id := Finset.mem_erase.2 ⟨other.symm, mem⟩
  refine ⟨ids.erase id, ?_, kept⟩
  show forget r.keyIndex id key = _
  rw [forget, found, Option.map_some]
  exact Option.filter_eq_some_iff.2 ⟨rfl, by simpa using Finset.ne_empty_of_mem kept⟩

/-- An event of another connection leaves the client's keys armed. -/
theorem armed_connection {e : Event} {id : Nat} {key : Bytes} (is : connectionOf e = some id) (other : id ≠ c)
    (armed : Armed c r key) : Armed c (step e r) key := by
  cases e with
  | register id' => exact armed
  | unregister id' =>
    cases is
    exact armed_forget other armed
  | enable id' opts =>
    simp only [step, enable]
    split
    · exact armed
    · exact armed
  | disable id' =>
    cases is
    simp only [step, disable]
    split
    · exact armed_forget other armed
    · exact armed_forget other armed
  | setCachingOverride id' yes =>
    simp only [step, setCachingOverride]
    split
    · exact armed
    · exact armed
  | _ => cases is

/-! ### Bookkeeping -/

theorem tracking_trackRead (on : Tracking c r) (id : Nat) (keys : List Bytes) : Tracking c (r.trackRead id keys) := by
  unfold TrackingRegistry.trackRead
  split
  · exact on
  split
  · exact on
  rename_i x found
  split
  · exact on
  · obtain ⟨y, there, mode⟩ := on
    by_cases same : c = id
    · subst same
      rw [found] at there
      cases there
      exact ⟨_, AList.lookup_insert _, mode⟩
    · exact ⟨y, (AList.lookup_insert_ne same).trans there, mode⟩

/-- And its keys armed: they are added to the index, none is taken out. -/
theorem armed_trackRead {id : Nat} {keys : List Bytes} {key : Bytes} (armed : Armed c r key) :
    Armed c (r.trackRead id keys) key := by
  unfold TrackingRegistry.trackRead
  split
  · exact armed
  split
  · exact armed
  split
  · exact armed
  · obtain ⟨ids, found, mem⟩ := armed
    unfold Armed
    dsimp only
    split
    · refine ⟨_, rfl, ?_⟩
      rw [found]
      exact Finset.mem_insert_of_mem mem
    · exact ⟨ids, found, mem⟩

theorem trackRead_arms (on : Tracking c r) (counted : Counted r) {keys : List Bytes} {key : Bytes} (mem : key ∈ keys) :
    Armed c (r.trackRead c keys) key := by
  have pos := counted.pos on
  obtain ⟨x, found, enabled, bcast, optin, optout, -⟩ := on
  have some : keys ≠ [] := List.ne_nil_of_mem mem
  unfold TrackingRegistry.trackRead
  rw [if_neg (by simp [some]; omega), found]
  dsimp only
  rw [if_neg (by simp [enabled, bcast])]
  refine ⟨insert c ((r.keyIndex key).getD ∅), ?_, Finset.mem_insert_self _ _⟩
  exact if_pos (by simp [shouldTrack, optin, optout, mem])

/-- A client without REDIRECT gets the push itself. -/
theorem mem_destination {x : TrackedClient} {push : TrackingPush} (found : (r.clients.lookup c).isSome = true)
    (own : x.opts.redirect = none) : (c, push) ∈ r.destination c x push := by
  unfold destination
  dsimp only
  rw [own, Option.getD_none, if_pos found]
  exact List.mem_singleton_self _

/-- A write tells the client of a key that is armed. -/
theorem onWrite_tells (on : Tracking c r) (counted : Counted r) {keys : List Bytes} {key : Bytes} (writer : Nat)
    (mem : key ∈ keys) (armed : Armed c r key) : (c, TrackingPush.keys keys) ∈ (r.onWrite keys writer).2 := by
  have pos := counted.pos on
  obtain ⟨x, found, enabled, bcast, optin, optout, noloop, redirect⟩ := on
  obtain ⟨ids, indexed, inside⟩ := armed
  have some : keys ≠ [] := List.ne_nil_of_mem mem
  unfold TrackingRegistry.onWrite
  rw [if_neg (by simp [some]; omega)]
  refine List.mem_flatMap.2 ⟨⟨c, x⟩, AList.mem_lookup_iff.1 found, ?_⟩
  dsimp only
  have target : r.isTarget keys c x = true := by
    unfold isTarget
    rw [List.any_eq_true.2 ⟨key, mem, by simp [indexed, inside]⟩, Bool.true_or]
  rw [if_pos (by simp [target, noloop])]
  exact mem_destination (by rw [found]; rfl) redirect

/-- A write of other keys leaves the key armed. -/
theorem armed_onWrite {keys : List Bytes} {key : Bytes} (writer : Nat) (other : key ∉ keys) (armed : Armed c r key) :
    Armed c (r.onWrite keys writer).1 key := by
  unfold TrackingRegistry.onWrite
  split
  · exact armed
  · obtain ⟨ids, found, mem⟩ := armed
    exact ⟨ids, (if_neg (by simpa using other)).trans found, mem⟩

theorem flushAll_tells (on : Tracking c r) : (c, TrackingPush.flushAll) ∈ r.flushAll.2 := by
  obtain ⟨x, found, enabled, bcast, optin, optout, noloop, redirect⟩ := on
  unfold TrackingRegistry.flushAll
  refine List.mem_flatMap.2 ⟨⟨c, x⟩, AList.mem_lookup_iff.1 found, ?_⟩
  dsimp only
  rw [if_pos enabled, redirect]
  exact mem_destination (by rw [found]; rfl) rfl

/-- Writes leave the registrations as they are. -/
theorem clients_onWrite (keys : List Bytes) (writer : Nat) : (r.onWrite keys writer).1.clients = r.clients := by
  unfold TrackingRegistry.onWrite
  split <;> rfl

/-- What is done behind a command leaves the client tracking. -/
theorem tracking_bookkeeping (on : Tracking c r) (d : Dispatched) : Tracking c (r.bookkeeping d).1 := by
  unfold TrackingRegistry.bookkeeping
  split
  · split
    · exact on
    split
    · exact on
    split
    · obtain ⟨x, found, mode⟩ := on
      exact ⟨x, (congrArg (AList.lookup c) (clients_onWrite d.keys d.client)).trans found, mode⟩
    · exact tracking_trackRead on d.client d.keys
  · exact on

end

/-! ## The invariant -/

/-- The read that showed the key is yet to be registered. -/
def Task.registers (c : Nat) (r : Shown) : Task → Bool
  | .book d read => d.succeeded && !d.isFlush && !d.isWrite && d.client = c && d.keys.contains r.key && read = r.read
  | _ => false

/-- Why the client will not be left with an old value. -/
def Safe (c : Nat) (registry : TrackingRegistry) (tasks : List Task) (r : Shown) : Prop :=
  r.told = true ∨ (∃ t ∈ tasks, t.registers c r = true) ∨
    (Armed c registry r.key ∧ (r.changed = false ∨ ∃ t ∈ tasks, t.owes r.key = true))

/-- What holds in every schedule: the client tracks and is counted, connections act for other clients only, and
whatever the client was shown is safe. -/
structure Inv (c : Nat) (p : Pool (Server V) Task) : Prop where
  on : Tracking c p.shared.registry
  counted : Counted p.shared.registry
  others : ∀ e, Task.connection e ∈ p.tasks → ∃ id, connectionOf e = some id ∧ id ≠ c
  safe : ∀ r ∈ p.shared.shown, r.client = c → Safe c p.shared.registry p.tasks r

section
variable {c : Nat} {registry registry' : TrackingRegistry} {r : Shown} {before after : List Task} {t t' : Task}

theorem exists_of_cut {P : Task → Prop} (h : ∃ x ∈ before ++ t :: after, P x) :
    P t ∨ ∃ x ∈ before ++ t' :: after, P x := by
  obtain ⟨x, mem, is⟩ := h
  rcases mem_of_cut mem with rfl | old
  · exact .inl is
  · exact .inr ⟨x, old, is⟩

/-- No connection acts for the client after a step, either. -/
theorem connections_cut {s s' : Server V} (others : ∀ e, Task.connection e ∈ (Pool.mk s (before ++ t :: after)).tasks →
    ∃ id, connectionOf e = some id ∧ id ≠ c) (quiet : ∀ e, t' ≠ .connection e) :
    ∀ e, Task.connection e ∈ (Pool.mk s' (before ++ t' :: after)).tasks → ∃ id, connectionOf e = some id ∧ id ≠ c := by
  intro e mem
  rcases mem_of_cut mem with new | old
  · exact absurd new.symm (quiet e)
  · exact others e old

/-- A step of a task that neither registers nor owes, and leaves what is armed. -/
theorem Safe.pass (h : Safe c registry (before ++ t :: after) r) (registers : t.registers c r = false)
    (owes : t.owes r.key = false) (armed : Armed c registry r.key → Armed c registry' r.key) :
    Safe c registry' (before ++ t' :: after) r := by
  rcases h with told | read | ⟨here, quiet⟩
  · exact .inl told
  · refine .inr (.inl ((exists_of_cut read).resolve_left ?_))
    rw [registers]
    exact Bool.false_ne_true
  · refine .inr (.inr ⟨armed here, quiet.imp_right fun due => (exists_of_cut due).resolve_left ?_⟩)
    rw [owes]
    exact Bool.false_ne_true

theorem Safe.tell {tasks : List Task} (h : Safe c registry tasks r) (pushes : List (Nat × TrackingPush)) :
    Safe c registry tasks (r.tell pushes) := by
  rcases h with told | rest
  · exact .inl (by simp [Shown.tell, told])
  · exact .inr rest

theorem told_of_push {pushes : List (Nat × TrackingPush)} {push : TrackingPush} (own : r.client = c)
    (sent : (c, push) ∈ pushes) (tells : names r.key push = true) : (r.tell pushes).told = true := by
  have any : (pushes.any fun (client, push) => client = r.client && names r.key push) = true :=
    List.any_eq_true.2 ⟨(c, push), sent, by simp [own, tells]⟩
  show (r.told || pushes.any _) = true
  rw [any, Bool.or_true]

theorem Safe.book {d : Dispatched} {read : Nat} (h : Safe c registry (before ++ .book d read :: after) r)
    (on : Tracking c registry) (counted : Counted registry) (own : r.client = c)
    (fits : d.isFlush = false → d.isWrite = false → r.read = read →
      r.told = true ∨ r.changed = false ∨ ∃ t ∈ before ++ .book d read :: after, t.owes r.key = true) :
    Safe c (registry.bookkeeping d).1 (before ++ .done :: after) (r.tell (registry.bookkeeping d).2) := by
  unfold TrackingRegistry.bookkeeping
  cases succeeded : d.succeeded with
  | false =>
    exact (h.pass (by simp [Task.registers, succeeded]) (by simp [Task.owes, succeeded]) id).tell _
  | true =>
    rw [if_pos rfl]
    cases flush : d.isFlush with
    | true => exact .inl (told_of_push own (flushAll_tells on) rfl)
    | false =>
      rw [if_neg Bool.false_ne_true]
      by_cases none : d.keys = []
      · rw [if_pos none]
        exact (h.pass (by simp [Task.registers, none]) (by simp [Task.owes, none, flush]) id).tell _
      rw [if_neg none]
      cases write : d.isWrite with
      | true =>
        rw [if_pos rfl]
        have registers : (Task.book d read).registers c r = false := by simp [Task.registers, write]
        by_cases mem : r.key ∈ d.keys
        · rcases h with told | reading | ⟨armed, -⟩
          · exact Safe.tell (.inl told) _
          · refine Safe.tell (.inr (.inl ((exists_of_cut reading).resolve_left ?_))) _
            rw [registers]
            exact Bool.false_ne_true
          · exact .inl (told_of_push own (onWrite_tells on counted d.client mem armed) (by simpa [names] using mem))
        · exact (h.pass registers (by simp [Task.owes, flush, mem]) fun armed => armed_onWrite d.client mem armed).tell _
      | false =>
        rw [if_neg Bool.false_ne_true]
        have owes : (Task.book d read).owes r.key = false := by simp [Task.owes, flush, write]
        refine Safe.tell ?_ _
        by_cases registers : (Task.book d read).registers c r = true
        · -- The read is registered: what has changed since is told, or due.
          have mine : d.client = c ∧ r.key ∈ d.keys ∧ read = r.read := by
            simpa [Task.registers, succeeded, flush, write, and_assoc] using registers
          obtain ⟨client, mem, same⟩ := mine
          have armed : Armed c (registry.trackRead d.client d.keys) r.key := by
            rw [client]
            exact trackRead_arms on counted mem
          rcases fits flush write same.symm with told | unchanged | due
          · exact .inl told
          · exact .inr (.inr ⟨armed, .inl unchanged⟩)
          · refine .inr (.inr ⟨armed, .inr ((exists_of_cut due).resolve_left ?_)⟩)
            rw [owes]
            exact Bool.false_ne_true
        · exact h.pass (by simpa using registers) owes armed_trackRead

end

section
variable [DecidableEq V] {handlers : Handlers V} {c : Nat} {s s' : Server V} {before after : List Task} {t t' : Task}

/-- **The handler keeps the invariant**: the write that it leaves behind it is still to be told of. -/
theorem Inv.handle {client id db : Nat} {args : List Resp} {keys : List Bytes}
    (inv : Inv c ⟨s, before ++ .handle client id db args keys :: after⟩)
    (fits : Fits handlers c ⟨s, before ++ .handle client id db args keys :: after⟩ (.handle client id db args keys) s' t')
    (mem : (s', t') ∈ s.next handlers (.handle client id db args keys)) : Inv c ⟨s', before ++ t' :: after⟩ := by
  cases List.mem_singleton.1 mem
  obtain ⟨covered, reads⟩ := fits
  refine ⟨inv.on, inv.counted, connections_cut inv.others (by simp), ?_⟩
  intro r mem own
  rcases List.mem_append.1 mem with old | new
  · obtain ⟨r, there, rfl⟩ := List.mem_map.1 old
    have safe : Safe c s.registry (before ++ .book ⟨id, isFlush (cmdName args), isWriteCommand (cmdName args),
        !(handlers.exec db args s.values).2.isError, keys⟩ s.reads :: after) r :=
      (inv.safe r there own).pass rfl rfl fun armed => armed
    rcases safe with told | reading | ⟨armed, quiet⟩
    · exact .inl told
    · exact .inr (.inl reading)
    · refine .inr (.inr ⟨armed, ?_⟩)
      by_cases same : (handlers.exec db args s.values).1 r.db r.key = s.values r.db r.key
      · refine quiet.imp_left fun unchanged => ?_
        simp [Shown.note, unchanged, same]
      · obtain ⟨success, kind⟩ := covered r.db r.key same
        refine .inr ⟨_, List.mem_append_right _ (.head _), ?_⟩
        have success : (handlers.exec db args s.values).2.isError = false := success
        rcases kind with flush | ⟨write, inside⟩
        · simp [Task.owes, success, flush]
        · simp [Task.owes, Shown.note, success, write, inside]
  · have isRead : isRead (cmdName args) (handlers.exec db args s.values).2 = true := by
      by_contra other
      rw [if_neg other] at new
      cases new
    rw [if_pos isRead] at new
    obtain ⟨key, shown, rfl⟩ := List.mem_map.1 new
    obtain ⟨under, inside⟩ := reads own isRead
    have kind : isWriteCommand (cmdName args) = false ∧ isFlush (cmdName args) = false ∧
        (handlers.exec db args s.values).2.isError = false := by
      simpa [Caching.isRead, and_assoc] using isRead
    refine .inr (.inl ⟨_, List.mem_append_right _ (.head _), ?_⟩)
    simp [Task.registers, kind, under, inside key shown]

/-- **What is done behind a command keeps it**: a read arms its keys, a write tells of them. -/
theorem Inv.book {d : Dispatched} {read : Nat} (inv : Inv c ⟨s, before ++ .book d read :: after⟩)
    (fits : Fits handlers c ⟨s, before ++ .book d read :: after⟩ (.book d read) s' t')
    (mem : (s', t') ∈ s.next handlers (.book d read)) : Inv c ⟨s', before ++ t' :: after⟩ := by
  cases List.mem_singleton.1 mem
  refine ⟨tracking_bookkeeping inv.on d, inv.counted.bookkeeping d, connections_cut inv.others (by simp), ?_⟩
  intro r mem own
  obtain ⟨r, old, rfl⟩ := List.mem_map.1 mem
  exact (inv.safe r old own).book inv.on inv.counted own fun flush write same => fits flush write r old own same

theorem Inv.step (inv : Inv c ⟨s, before ++ t :: after⟩) (mem : (s', t') ∈ s.next handlers t)
    (fits : Fits handlers c ⟨s, before ++ t :: after⟩ t s' t') : Inv c ⟨s', before ++ t' :: after⟩ := by
  cases t with
  | dispatch client db inside args =>
    cases List.mem_singleton.1 mem
    exact ⟨inv.on, inv.counted, connections_cut inv.others (by simp), fun r mem own => (inv.safe r mem own).pass rfl rfl id⟩
  | handle client id db args keys => exact inv.handle fits mem
  | book d read => exact inv.book fits mem
  | connection e =>
    cases List.mem_singleton.1 mem
    obtain ⟨id, is, other⟩ := inv.others e (by simp)
    obtain ⟨x, found, mode⟩ := inv.on
    refine ⟨⟨x, (lookup_connection is other).trans found, mode⟩, inv.counted.step e, connections_cut inv.others (by simp), ?_⟩
    exact fun r mem own => (inv.safe r mem own).pass rfl rfl (armed_connection is other)
  | done => cases mem

omit [DecidableEq V] in
theorem Inv.spawn {tasks : List Task} (inv : Inv c ⟨s, tasks⟩) (begins : t.entry c = true) : Inv c ⟨s, tasks ++ [t]⟩ := by
  have more {P : Task → Prop} (h : ∃ x ∈ tasks, P x) : ∃ x ∈ tasks ++ [t], P x := by
    obtain ⟨x, mem, is⟩ := h
    exact ⟨x, List.mem_append_left _ mem, is⟩
  refine ⟨inv.on, inv.counted, ?_, ?_⟩
  · intro e mem
    rcases List.mem_append.1 mem with old | new
    · exact inv.others e old
    · rw [← List.mem_singleton.1 new, Task.entry, Option.any_eq_true] at begins
      obtain ⟨id, is, other⟩ := begins
      exact ⟨id, is, by simpa using other⟩
  · intro r mem own
    rcases inv.safe r mem own with told | reading | ⟨armed, quiet⟩
    · exact .inl told
    · exact .inr (.inl (more reading))
    · exact .inr (.inr ⟨armed, quiet.imp_right more⟩)

omit [DecidableEq V] in
/-- In a state with the invariant the client has nothing stale that it was not told of. -/
theorem Inv.fresh {p : Pool (Server V) Task} (inv : Inv c p) : Fresh c p := by
  intro rest r mem own
  have none {P : Task → Prop} (busy : ∀ t, P t → t.finished = false) : ¬ ∃ t ∈ p.tasks, P t := by
    rintro ⟨t, mem, is⟩
    have done := rest t mem
    rw [busy t is] at done
    cases done
  rcases inv.safe r mem own with told | reading | ⟨-, quiet⟩
  · exact .inr told
  · refine absurd reading (none fun t is => ?_)
    cases t with
    | book d read => rfl
    | _ => cases is
  · refine .inl (quiet.resolve_right (none fun t is => ?_))
    cases t with
    | book d read => rfl
    | _ => cases is

/-- **The tracking client is left with no old value** in every schedule whose steps fit: at rest it was told of
every key it has been shown that has changed since. In between each key shown is `Safe`: the client was told, or its
read is yet to be registered, or the key is armed and a change, if there is one, is yet to be told of. -/
theorem caching_fresh {events : List Event} {values : Values V} {wanted : Bool} {turns : List (Interleave.Turn Task)}
    (on : Tracking c (run step events .new))
    (meets : Always (Pool.advance (Server.next handlers) (Task.entry c))
      (fun t p => p.Meets (Server.next handlers) (Fits handlers c) t) turns
      ⟨.start values (run step events .new) wanted, []⟩) :
    Fresh c (run (Pool.advance (Server.next handlers) (Task.entry c)) turns
      ⟨.start values (run step events .new) wanted, []⟩) := by
  refine (advance_invariant meets ?_ Inv.spawn Inv.step).fresh
  refine ⟨on, counted_run events, ?_, ?_⟩
  · intro e mem
    cases mem
  · intro r mem
    cases mem

end

/-! ## A write between a read and its registration -/

/-- GET and SET of strings. -/
def strings : Handlers Bytes where
  exec db args values :=
    match args with
    | [_, .bulkString (some key), .bulkString (some v)] => (fun d k => if d = db ∧ k = key then some v else values d k, ok)
    | [_, .bulkString (some key)] => (values, .bulkString (values db key))
    | _ => (values, .error "ERR syntax error")
  shows args :=
    match args with
    | [_, .bulkString (some key)] => [key]
    | _ => []

/-- GET k. -/
def getKey : List Resp := [.bulkString (some (Utf8.asBytes "GET")), .bulkString (some [107])]

/-- SET k v. -/
def setKey : List Resp := [.bulkString (some (Utf8.asBytes "SET")), .bulkString (some [107]), .bulkString (some [118])]

/-- The client connects and turns tracking on. -/
def trackingOn : List Event := [.register 1, .enable 1 .off]

theorem tracking_trackingOn : Tracking 1 (run step trackingOn .new) :=
  ⟨⟨true, .off, none⟩, rfl, rfl, rfl, rfl, rfl, rfl, rfl⟩

/-- The read is registered before the write. -/
theorem caching_fresh_set :
    Fresh 1 (run (Pool.advance (Server.next strings) (Task.entry 1))
      (.start (.dispatch 1 0 false getKey) :: List.replicate 3 (.step 0 0) ++
        .start (.dispatch 2 0 false setKey) :: List.replicate 3 (.step 1 0))
      ⟨.start (fun _ _ => none) (run step trackingOn .new) false, []⟩) := by
  refine caching_fresh tracking_trackingOn ⟨trivial, ?_, ?get, ?registered, trivial, ?_, ?set, ?told, trivial⟩
  case get =>
    intro t s' t' task chosen
    cases task
    refine ⟨fun db key changed => absurd rfl changed, fun _ _ => ⟨rfl, ?_⟩⟩
    decide
  case registered =>
    intro t s' t' task chosen
    cases task
    intro _ _
    decide
  case set =>
    intro t s' t' task chosen
    cases task
    refine ⟨fun db key changed => ⟨rfl, .inr ⟨by decide, ?_⟩⟩, fun own => by cases own⟩
    have here : db = 0 ∧ key = [107] := by
      by_contra other
      exact changed (if_neg other)
    rw [here.2]
    decide
  case told =>
    intro t s' t' task chosen
    cases task
    intro _ write
    revert write
    decide
  all_goals
    intro t s' t' task chosen
    cases task
    exact trivial

/-- The write tells nobody, since the read is registered behind it. -/
theorem caching_stale :
    ¬ ∀ (turns : List (Interleave.Turn Task)), Fresh 1 (run (Pool.advance (Server.next strings) (Task.entry 1)) turns
      ⟨.start (fun _ _ => none) (run step trackingOn .new) false, []⟩) := by
  intro fresh
  have told := fresh (.start (.dispatch 1 0 false getKey) :: .start (.dispatch 2 0 false setKey) ::
    .step 0 0 :: .step 0 0 :: List.replicate 3 (.step 1 0) ++ [.step 0 0]) (by decide)
  revert told
  decide

end Caching

end NexradeCache
