import NexradeCache.Lib.Interleave

/-!
# Mutation admission for snapshots (`PersistenceCoordinator` of `nexrade-core/src/db.rs`)

Each call of `enter_mutation`, `enter_mutation_waiting` or `quiesce`, together with the permit or
guard it returns and the drop of that, is a task; a task steps from one atomic access to the next,
in sequentially consistent order. The async mutex is a flag that at most one task can take. A
`Notify` is the number of `notify_waiters` calls so far: a waiter remembers the number when it
enables its `Notified` and may go on once it has changed.

Writers check, count themselves and check again; a quiescing task closes admission, then waits for
the count to reach zero. `Inv` is what every partial step of this handshake keeps.
-/

namespace NexradeCache

open Interleave

namespace Persistence

def PERSISTENCE_RUNNING : UInt8 := 0

def PERSISTENCE_QUIESCING : UInt8 := 1

/-- The fields of `PersistenceCoordinator`. -/
structure Coordinator where
  state : UInt8
  activeMutations : Nat
  drained : Nat
  exclusive : Bool
deriving DecidableEq, Repr

def Coordinator.new : Coordinator := ⟨PERSISTENCE_RUNNING, 0, 0, false⟩

/-- Which call of `enter_mutation` this is: by itself, or in `enter_mutation_waiting` the fast path,
a retry with its notification enabled, or the one after the timeout. -/
inductive Attempt where
  | once
  | fast
  | retry (armed : Nat)
  | last
deriving DecidableEq, Repr

/-- The next atomic access of a task. -/
inductive Task where
  /-- `enter_mutation`: load the state, count, load it again, uncount, notify. -/
  | load (a : Attempt)
  | fetchAdd (a : Attempt)
  | reload (a : Attempt)
  | fetchSub (a : Attempt)
  | notify (a : Attempt)
  /-- `enter_mutation_waiting`: enable the notification, await it or the timeout. -/
  | enable
  | await (armed : Nat)
  /-- A live `PersistenceMutation`, and the notification of its drop. -/
  | permit
  | permitNotify
  /-- `quiesce`: lock, close admission, load the count, enable, load again, await. -/
  | lock
  | close
  | check
  | quiesceEnable
  | recheck (armed : Nat)
  | quiesceAwait (armed : Nat)
  /-- A returned `PersistenceQuiesce`; its drop reopens, notifies and unlocks. -/
  | guard
  | guardNotify
  | unlock
  | done
deriving DecidableEq, Repr

/-- `enter_mutation` returned `None`. -/
def Attempt.refused : Attempt → Task
  | .once => .done
  | .fast => .enable
  | .retry armed => .await armed
  | .last => .done

/-- The next atomic step. -/
def next (c : Coordinator) : Task → List (Coordinator × Task)
  | .load a => if c.state ≠ PERSISTENCE_RUNNING then [(c, a.refused)] else [(c, .fetchAdd a)]
  | .fetchAdd a => [({ c with activeMutations := c.activeMutations + 1 }, .reload a)]
  | .reload a => if c.state = PERSISTENCE_RUNNING then [(c, .permit)] else [(c, .fetchSub a)]
  | .fetchSub a =>
    [({ c with activeMutations := c.activeMutations - 1 },
      if c.activeMutations = 1 then .notify a else a.refused)]
  | .notify a => [({ c with drained := c.drained + 1 }, a.refused)]
  | .enable => [(c, .load (.retry c.drained))]
  | .await armed => (if c.drained ≠ armed then [(c, .enable)] else []) ++ [(c, .load .last)]
  | .permit =>
    [({ c with activeMutations := c.activeMutations - 1 },
      if c.activeMutations = 1 then .permitNotify else .done)]
  | .permitNotify => [({ c with drained := c.drained + 1 }, .done)]
  | .lock => if c.exclusive then [] else [({ c with exclusive := true }, .close)]
  | .close => [({ c with state := PERSISTENCE_QUIESCING }, .check)]
  | .check => if c.activeMutations = 0 then [(c, .guard)] else [(c, .quiesceEnable)]
  | .quiesceEnable => [(c, .recheck c.drained)]
  | .recheck armed => if c.activeMutations = 0 then [(c, .guard)] else [(c, .quiesceAwait armed)]
  | .quiesceAwait armed => if c.drained ≠ armed then [(c, .check)] else []
  | .guard => [({ c with state := PERSISTENCE_RUNNING }, .guardNotify)]
  | .guardNotify => [({ c with drained := c.drained + 1 }, .unlock)]
  | .unlock => [({ c with exclusive := false }, .done)]
  | .done => []

/-- The calls a client can make. -/
def entry : Task → Bool
  | .load .once => true
  | .load .fast => true
  | .lock => true
  | _ => false

namespace Task

def isPermit : Task → Bool
  | .permit => true
  | _ => false

def isGuard : Task → Bool
  | .guard => true
  | _ => false

/-- Behind its `fetch_add`, not yet behind its `fetch_sub` or returned with a permit. -/
def between : Task → Bool
  | .reload _ => true
  | .fetchSub _ => true
  | _ => false

/-- About to take one off the count. -/
def subtracts : Task → Bool
  | .fetchSub _ => true
  | .permit => true
  | _ => false

/-- Between the store of `quiesce` and the store of the guard's drop. -/
def closing : Task → Bool
  | .check => true
  | .quiesceEnable => true
  | .recheck _ => true
  | .quiesceAwait _ => true
  | .guard => true
  | _ => false

/-- Holding the mutex. -/
def locked : Task → Bool
  | .close => true
  | .guardNotify => true
  | .unlock => true
  | t => t.closing

/-- Where a task is counted. -/
def marks (t : Task) : Bool × Bool × Bool × Bool × Bool :=
  (t.isPermit, t.between, t.locked, t.closing, t.isGuard)

theorem marks_inj {t u : Task} (h : t.marks = u.marks) : t.isPermit = u.isPermit ∧
    t.between = u.between ∧ t.locked = u.locked ∧ t.closing = u.closing ∧ t.isGuard = u.isGuard := by
  simpa only [marks, Prod.mk.injEq] using h

end Task

/-- What holds between any two atomic steps. -/
structure Inv (p : Pool Coordinator Task) : Prop where
  active : p.shared.activeMutations = p.count Task.isPermit + p.count Task.between
  mutex : p.count Task.locked = if p.shared.exclusive then 1 else 0
  byte : p.shared.state = if p.count Task.closing = 0 then PERSISTENCE_RUNNING else PERSISTENCE_QUIESCING
  excluded : p.count Task.isGuard ≠ 0 → p.count Task.isPermit = 0

theorem Inv.new : Inv ⟨.new, []⟩ := by
  constructor <;> decide

/-- One more task, outside every counted region. -/
theorem Inv.add {c : Coordinator} {tasks : List Task} {t : Task} (inv : Inv ⟨c, tasks⟩)
    (outside : t.marks = Task.done.marks) : Inv ⟨c, tasks ++ [t]⟩ := by
  obtain ⟨permit, between, locked, closing, guard⟩ := Task.marks_inj outside
  obtain ⟨active, mutex, byte, excluded⟩ := inv
  refine ⟨?_, ?_, ?_, ?_⟩ <;>
    simpa only [Pool.count_start, permit, between, locked, closing, guard]

/-- A call starts outside every counted region. -/
theorem Inv.start {c : Coordinator} {tasks : List Task} {t : Task} (inv : Inv ⟨c, tasks⟩)
    (call : entry t = true) : Inv ⟨c, tasks ++ [t]⟩ := by
  refine inv.add ?_
  cases t with
  | load a => rfl
  | lock => rfl
  | _ => cases call

/-- The tasks that do not step, by number. A returned guard is closing, and closing tasks hold the
mutex. -/
structure Others where
  permits : Nat
  between : Nat
  locked : Nat
  closing : Nat
  guards : Nat
  guards_le : guards ≤ closing
  closing_le : closing ≤ locked

def Others.of (tasks : List Task) : Others where
  permits := tasks.countP Task.isPermit
  between := tasks.countP Task.between
  locked := tasks.countP Task.locked
  closing := tasks.countP Task.closing
  guards := tasks.countP Task.isGuard
  guards_le := List.countP_mono_left fun t _ => by cases t <;> simp [Task.isGuard, Task.closing]
  closing_le := List.countP_mono_left fun t _ => by cases t <;> simp [Task.closing, Task.locked]

/-- The invariant seen from one task. -/
structure Balance (c : Coordinator) (o : Others) (t : Task) : Prop where
  active : c.activeMutations = o.permits + t.isPermit.toNat + (o.between + t.between.toNat)
  mutex : o.locked + t.locked.toNat = if c.exclusive then 1 else 0
  byte : c.state = if o.closing + t.closing.toNat = 0 then PERSISTENCE_RUNNING else PERSISTENCE_QUIESCING
  excluded : o.guards + t.isGuard.toNat ≠ 0 → o.permits + t.isPermit.toNat = 0

theorem inv_iff_balance {c : Coordinator} {before after : List Task} {t : Task} :
    Inv ⟨c, before ++ t :: after⟩ ↔ Balance c (.of (before ++ after)) t := by
  constructor
  · rintro ⟨active, mutex, byte, excluded⟩
    simp only [Pool.count_cut] at active mutex byte excluded
    exact ⟨active, mutex, byte, excluded⟩
  · rintro ⟨active, mutex, byte, excluded⟩
    constructor <;> simp only [Pool.count_cut]
    · exact active
    · exact mutex
    · exact byte
    · exact excluded

/-- A refused attempt is in no counted region. -/
theorem Attempt.marks_refused (a : Attempt) : a.refused.marks = Task.done.marks := by
  cases a <;> rfl

/-- A step between two local states that are counted alike, without touching what is counted. -/
theorem Balance.move {c c' : Coordinator} {o : Others} {t t' : Task} (h : Balance c o t)
    (same : t'.marks = t.marks) (active : c'.activeMutations = c.activeMutations)
    (exclusive : c'.exclusive = c.exclusive) (state : c'.state = c.state) : Balance c' o t' := by
  obtain ⟨permit, between, locked, closing, guard⟩ := Task.marks_inj same
  constructor
  · rw [active, permit, between]; exact h.active
  · rw [locked, exclusive]; exact h.mutex
  · rw [state, closing]; exact h.byte
  · rw [guard, permit]; exact h.excluded

variable {c : Coordinator} {o : Others}

theorem Balance.fetchAdd {a : Attempt} (h : Balance c o (.fetchAdd a)) :
    Balance { c with activeMutations := c.activeMutations + 1 } o (.reload a) := by
  obtain ⟨active, mutex, byte, excluded⟩ := h
  refine ⟨?_, mutex, byte, excluded⟩
  simp only [Task.isPermit, Task.between, Bool.toNat_false, Bool.toNat_true] at active ⊢
  omega

/-- A counted writer that finds admission open: nobody is closing, so no guard is out. -/
theorem Balance.admit {a : Attempt} (h : Balance c o (.reload a)) (running : c.state = PERSISTENCE_RUNNING) :
    Balance c o .permit := by
  have noGuard : o.guards = 0 := by
    have le := o.guards_le
    have byte := h.byte
    rw [running] at byte
    split at byte
    · omega
    · cases byte
  obtain ⟨active, mutex, byte, excluded⟩ := h
  refine ⟨?_, mutex, byte, ?_⟩
  · simp only [Task.isPermit, Task.between, Bool.toNat_false, Bool.toNat_true] at active ⊢
    omega
  · intro guard
    exact absurd noGuard guard

/-- Leaving the count, from a refused attempt or a dropped permit. -/
theorem Balance.leave {t t' : Task} (h : Balance c o t) (subtracts : t.subtracts = true)
    (outside : t'.marks = Task.done.marks) :
    0 < c.activeMutations ∧ Balance { c with activeMutations := c.activeMutations - 1 } o t' := by
  obtain ⟨permit, between, locked, closing, guard⟩ := Task.marks_inj outside
  obtain ⟨active, mutex, byte, excluded⟩ := h
  cases t with
  | fetchSub a =>
    simp only [Task.isPermit, Task.between, Bool.toNat_false, Bool.toNat_true] at active excluded
    refine ⟨by omega, ?_, ?_, ?_, ?_⟩
    · rw [permit, between]
      simp only [Task.isPermit, Task.between, Bool.toNat_false]
      omega
    · rw [locked]; exact mutex
    · rw [closing]; exact byte
    · rw [guard, permit]; exact excluded
  | permit =>
    simp only [Task.isPermit, Task.between, Bool.toNat_false, Bool.toNat_true] at active excluded
    refine ⟨by omega, ?_, ?_, ?_, ?_⟩
    · rw [permit, between]
      simp only [Task.isPermit, Task.between, Bool.toNat_false]
      omega
    · rw [locked]; exact mutex
    · rw [closing]; exact byte
    · rw [guard, permit]
      intro out
      have none := excluded out
      omega
  | _ => cases subtracts

theorem Balance.lock (h : Balance c o .lock) (free : c.exclusive = false) :
    Balance { c with exclusive := true } o .close := by
  obtain ⟨active, mutex, byte, excluded⟩ := h
  refine ⟨active, ?_, byte, excluded⟩
  rw [free] at mutex
  simp only [Task.locked, Task.closing, Bool.toNat_false, Bool.toNat_true] at mutex ⊢
  simp only [if_true]
  simp at mutex
  omega

theorem Balance.close (h : Balance c o .close) :
    Balance { c with state := PERSISTENCE_QUIESCING } o .check :=
  ⟨h.active, h.mutex, by simp [Task.closing], h.excluded⟩

/-- The count is zero behind a closed gate: the guard goes out with no permit live. -/
theorem Balance.drained {t : Task} (h : Balance c o t) (same : t.marks = Task.check.marks)
    (zero : c.activeMutations = 0) : Balance c o .guard := by
  obtain ⟨permit, between, locked, closing, guard⟩ := Task.marks_inj same
  obtain ⟨active, mutex, byte, excluded⟩ := h
  rw [zero] at active
  refine ⟨?_, ?_, ?_, ?_⟩
  · rw [permit, between] at active; rw [zero]; exact active
  · rw [locked] at mutex; exact mutex
  · rw [closing] at byte; exact byte
  · intro _
    simp only [Task.isPermit, Bool.toNat_false]
    omega

/-- The guard reopens admission: it was the only task that kept it closed. -/
theorem Balance.reopen (h : Balance c o .guard) :
    Balance { c with state := PERSISTENCE_RUNNING } o .guardNotify := by
  have alone : o.closing = 0 := by
    have le := o.closing_le
    have mutex := h.mutex
    simp only [Task.locked, Task.closing, Bool.toNat_true] at mutex
    split at mutex <;> omega
  refine ⟨h.active, h.mutex, ?_, ?_⟩
  · simp [Task.closing, alone]
  · intro out
    have le := o.guards_le
    simp only [Task.isGuard, Bool.toNat_false] at out
    omega

theorem Balance.unlock (h : Balance c o .unlock) : Balance { c with exclusive := false } o .done := by
  obtain ⟨active, mutex, byte, excluded⟩ := h
  refine ⟨active, ?_, byte, excluded⟩
  simp only [Task.locked, Task.closing, Bool.toNat_false, Bool.toNat_true] at mutex ⊢
  split at mutex <;> simp <;> omega

theorem Balance.step {c' : Coordinator} {t t' : Task} (h : Balance c o t)
    (mem : (c', t') ∈ next c t) : Balance c' o t' := by
  cases t with
  | load a =>
    simp only [next] at mem
    split at mem <;> cases List.mem_singleton.1 mem
    · exact h.move a.marks_refused rfl rfl rfl
    · exact h.move rfl rfl rfl rfl
  | fetchAdd a =>
    cases List.mem_singleton.1 mem
    exact h.fetchAdd
  | reload a =>
    simp only [next] at mem
    split at mem <;> cases List.mem_singleton.1 mem
    · exact h.admit ‹_›
    · exact h.move rfl rfl rfl rfl
  | fetchSub a =>
    cases List.mem_singleton.1 mem
    refine (h.leave rfl ?_).2
    split
    · rfl
    · exact a.marks_refused
  | notify a =>
    cases List.mem_singleton.1 mem
    exact h.move a.marks_refused rfl rfl rfl
  | enable =>
    cases List.mem_singleton.1 mem
    exact h.move rfl rfl rfl rfl
  | await armed =>
    simp only [next, List.mem_append, List.mem_singleton] at mem
    rcases mem with mem | mem
    · split at mem
      · cases List.mem_singleton.1 mem
        exact h.move rfl rfl rfl rfl
      · cases mem
    · obtain ⟨rfl, rfl⟩ := Prod.mk.inj mem
      exact h.move rfl rfl rfl rfl
  | permit =>
    cases List.mem_singleton.1 mem
    refine (h.leave rfl ?_).2
    split <;> rfl
  | permitNotify =>
    cases List.mem_singleton.1 mem
    exact h.move rfl rfl rfl rfl
  | lock =>
    simp only [next] at mem
    split at mem
    · cases mem
    · cases List.mem_singleton.1 mem
      exact h.lock (by simpa using ‹¬ c.exclusive = true›)
  | close =>
    cases List.mem_singleton.1 mem
    exact h.close
  | check =>
    simp only [next] at mem
    split at mem <;> cases List.mem_singleton.1 mem
    · exact h.drained rfl ‹_›
    · exact h.move rfl rfl rfl rfl
  | quiesceEnable =>
    cases List.mem_singleton.1 mem
    exact h.move rfl rfl rfl rfl
  | recheck armed =>
    simp only [next] at mem
    split at mem <;> cases List.mem_singleton.1 mem
    · exact h.drained rfl ‹_›
    · exact h.move rfl rfl rfl rfl
  | quiesceAwait armed =>
    simp only [next] at mem
    split at mem
    · cases List.mem_singleton.1 mem
      exact h.move rfl rfl rfl rfl
    · cases mem
  | guard =>
    cases List.mem_singleton.1 mem
    exact h.reopen
  | guardNotify =>
    cases List.mem_singleton.1 mem
    exact h.move rfl rfl rfl rfl
  | unlock =>
    cases List.mem_singleton.1 mem
    exact h.unlock
  | done => cases mem

/-- The invariant holds in every interleaving. -/
theorem Inv.reachable {p : Pool Coordinator Task} (reach : Reachable next entry ⟨.new, []⟩ p) : Inv p :=
  reach.invariant Inv.new Inv.start fun inv mem =>
    inv_iff_balance.2 ((inv_iff_balance.1 inv).step mem)

/-- A task of a larger model takes a step of its call, or it stays where it is counted. -/
def Moved (c c' : Coordinator) (t t' : Task) : Prop := (c', t') ∈ next c t ∨ c' = c ∧ t'.marks = t.marks

theorem Inv.moved {L : Type} {task : L → Task} {c c' : Coordinator} {before after : List L} {l l' : L}
    (inv : Inv ⟨c, (before ++ l :: after).map task⟩) (step : Moved c c' (task l) (task l')) :
    Inv ⟨c', (before ++ l' :: after).map task⟩ := by
  rw [List.map_append, List.map_cons, inv_iff_balance] at inv ⊢
  rcases step with taken | ⟨rfl, marks⟩
  · exact inv.step taken
  · exact inv.move marks rfl rfl rfl

theorem Inv.noGuard {c : Coordinator} {tasks : List Task} (inv : Inv ⟨c, tasks⟩) (permit : .permit ∈ tasks) :
    .guard ∉ tasks := by
  intro guard
  have out : 0 < tasks.countP Task.isGuard := List.countP_pos_iff.2 ⟨.guard, guard, rfl⟩
  exact List.countP_eq_zero.1 (inv.excluded (Nat.pos_iff_ne_zero.1 out)) _ permit rfl

theorem count_subtracts_le (p : Pool Coordinator Task) :
    p.count Task.subtracts ≤ p.count Task.isPermit + p.count Task.between := by
  obtain ⟨c, tasks⟩ := p
  induction tasks with
  | nil => exact Nat.le_refl _
  | cons t tasks ih =>
    simp only [Pool.count, List.countP_cons] at ih ⊢
    cases t <;> simp [Task.subtracts, Task.isPermit, Task.between] <;> omega

end Persistence

open Persistence

/-- **Snapshot admission excludes writers**, in every interleaving of any number of calls: no permit is live while a
guard is out, the count is that of the live permits and the writers in between, every pending decrement is covered
by it, and admission is open when nobody is closing it. The invariant counts the tasks by where they stand, so a
step has to account for one task only. -/
theorem snapshot_excludes_writers {p : Pool Coordinator Task}
    (reach : Reachable next entry ⟨.new, []⟩ p) :
    ¬ (p.count Task.isPermit ≠ 0 ∧ p.count Task.isGuard ≠ 0) ∧
      p.shared.activeMutations = p.count Task.isPermit + p.count Task.between ∧
      p.count Task.subtracts ≤ p.shared.activeMutations ∧
      (p.count Task.closing = 0 → p.shared.state = PERSISTENCE_RUNNING) := by
  have inv := Inv.reachable reach
  refine ⟨?_, inv.active, ?_, ?_⟩
  · rintro ⟨permit, guard⟩
    exact permit (inv.excluded guard)
  · rw [inv.active]
    exact count_subtracts_le p
  · intro idle
    rw [inv.byte, if_pos idle]

/-- A guard that waited for a writer to drop its permit. -/
def drainedPool : Pool Coordinator Task := ⟨⟨PERSISTENCE_QUIESCING, 0, 1, true⟩, [.done, .guard]⟩

/-- The writer has left, and the guard is held. -/
theorem snapshot_excludes_writers_drained : Reachable next entry ⟨.new, []⟩ drainedPool ∧
    drainedPool.count Task.isGuard = 1 ∧
    ¬ (drainedPool.count Task.isPermit ≠ 0 ∧ drainedPool.count Task.isGuard ≠ 0) := by
  have reach : Reachable next entry ⟨.new, []⟩ drainedPool :=
    ⟨[.start (.load .once), .step 0 0, .step 0 0, .step 0 0, .start .lock, .step 1 0, .step 1 0,
      .step 1 0, .step 1 0, .step 1 0, .step 0 0, .step 0 0, .step 1 0, .step 1 0], rfl⟩
  exact ⟨reach, rfl, (snapshot_excludes_writers reach).1⟩

end NexradeCache
