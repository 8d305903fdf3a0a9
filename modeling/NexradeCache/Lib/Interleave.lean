import Mathlib.Data.List.TakeDrop
import NexradeCache.Lib.Trace

/-!
# Interleaved tasks over shared state

A `Pool` is shared state and the local states of any number of tasks. `next s l` lists what the
next atomic step of a task in local state `l` can do; a `Turn` of the scheduler starts a task or
picks a task and one of its possible steps. `Reachable` are the pools some schedule leads to.

`Reachable.invariant` is the rule for safety: a property that survives starting a task and every
single step holds in every interleaving. It shows a step with the stepping task cut out of the
pool, so that a property that counts tasks compares the same tasks `before` and `after` it.

`FairReachable` are the pools that schedules lead to whose steps all meet a condition on the shared
state, the other tasks and the step; `FairReachable.invariant` is the rule for them. Where the condition
is no Boolean, a schedule is a `Trace.run` of turns and the condition an `Always`;
`advance_invariant` is the rule for those.
-/

namespace Interleave

variable {S L : Type}

/-- What the tasks share, and the tasks, each with its local state. Any of them may go next. -/
structure Pool (S L : Type) where
  shared : S
  tasks : List L

/-- One decision of the scheduler. -/
inductive Turn (L : Type) where
  | start (l : L)
  | step (i choice : Nat)

namespace Pool

variable (next : S → L → List (S × L)) (entry : L → Bool)

def turn (c : Pool S L) : Turn L → Option (Pool S L)
  | .start l => if entry l then some { c with tasks := c.tasks ++ [l] } else none
  | .step i choice => do
    let l ← c.tasks[i]?
    let (s', l') ← (next c.shared l)[choice]?
    some ⟨s', c.tasks.set i l'⟩

def run (c : Pool S L) : List (Turn L) → Option (Pool S L)
  | [] => some c
  | t :: ts => (c.turn next entry t).bind fun c' => c'.run ts

/-- How many tasks are in a local state of this kind. -/
def count (c : Pool S L) (p : L → Bool) : Nat := c.tasks.countP p

theorem count_cut (s : S) (before after : List L) (l : L) (p : L → Bool) :
    (Pool.mk s (before ++ l :: after)).count p = (before ++ after).countP p + (p l).toNat := by
  simp only [count, List.countP_append, List.countP_cons]
  cases p l
  · simp
  · simp
    omega

theorem count_start (s : S) (tasks : List L) (l : L) (p : L → Bool) :
    (Pool.mk s (tasks ++ [l])).count p = tasks.countP p + (p l).toNat := by
  have cut := count_cut s tasks [] l p
  rwa [List.append_nil] at cut

end Pool

/-- A task is the one that stepped, or was there before. -/
theorem mem_of_cut {before after : List L} {l l' u : L} (h : u ∈ before ++ l' :: after) :
    u = l' ∨ u ∈ before ++ l :: after := by
  simp only [List.mem_append, List.mem_cons] at h ⊢
  tauto

/-- What the tasks hold, with one task cut out. -/
theorem filterMap_cut {A : Type} (hold : L → Option A) (before after : List L) (l : L) :
    ((before ++ l :: after).filterMap hold).Perm ((hold l).toList ++ (before ++ after).filterMap hold) := by
  rw [List.filterMap_append, List.filterMap_append, List.filterMap_cons]
  cases hold l with
  | none => exact List.Perm.refl _
  | some a => exact List.perm_middle

/-- What the tasks did, with one task cut out. -/
theorem flatMap_cut {A : Type} (made : L → List A) (before after : List L) (l : L) :
    ((before ++ l :: after).flatMap made).Perm (made l ++ (before ++ after).flatMap made) := by
  rw [List.flatMap_append, List.flatMap_append, List.flatMap_cons]
  exact List.perm_append_comm_assoc ..

/-- Some schedule leads from `c` to `c'`. -/
def Reachable (next : S → L → List (S × L)) (entry : L → Bool) (c c' : Pool S L) : Prop :=
  ∃ turns, c.run next entry turns = some c'

variable {next : S → L → List (S × L)} {entry : L → Bool}

theorem Reachable.turn {c d e : Pool S L} {t : Turn L} (reach : Reachable next entry c d)
    (last : d.turn next entry t = some e) : Reachable next entry c e := by
  obtain ⟨turns, run⟩ := reach
  refine ⟨turns ++ [t], ?_⟩
  induction turns generalizing c with
  | nil =>
    cases run
    simp [Pool.run, last]
  | cons t' ts ih =>
    obtain ⟨c', first, rest⟩ := Option.bind_eq_some_iff.1 run
    exact Option.bind_eq_some_iff.2 ⟨c', first, ih rest⟩

/-- A task that is alone, and has one step it can take, takes it. -/
theorem Reachable.alone {c : Pool S L} {s s' : S} {l l' : L} (reach : Reachable next entry c ⟨s, [l]⟩)
    (only : next s l = [(s', l')]) : Reachable next entry c ⟨s', [l']⟩ :=
  @Reachable.turn S L next entry c ⟨s, [l]⟩ _ (.step 0 0) reach (by simp [Pool.turn, only])

theorem turn_cases {c c' : Pool S L} {t : Turn L} (h : c.turn next entry t = some c') :
    (∃ l, entry l = true ∧ c' = ⟨c.shared, c.tasks ++ [l]⟩) ∨
      ∃ before l after s' l', c.tasks = before ++ l :: after ∧ (s', l') ∈ next c.shared l ∧
        c' = ⟨s', before ++ l' :: after⟩ := by
  cases t with
  | start l =>
    rw [Pool.turn] at h
    split at h
    · cases h
      exact .inl ⟨l, ‹_›, rfl⟩
    · cases h
  | step i choice =>
    obtain ⟨l, task, h⟩ := Option.bind_eq_some_iff.1 h
    obtain ⟨⟨s', l'⟩, chosen, h⟩ := Option.bind_eq_some_iff.1 h
    cases h
    obtain ⟨inside, rfl⟩ := List.getElem?_eq_some_iff.1 task
    refine .inr ⟨c.tasks.take i, c.tasks[i], c.tasks.drop (i + 1), s', l', ?_,
      List.mem_of_getElem? chosen, ?_⟩
    · rw [List.getElem_cons_drop, List.take_append_drop]
    · rw [List.set_eq_take_append_cons_drop, if_pos inside]

/-- **Safety over all interleavings.** -/
theorem Reachable.invariant {P : Pool S L → Prop} {c c' : Pool S L} (reach : Reachable next entry c c')
    (start : P c) (spawn : ∀ {s ts l}, P ⟨s, ts⟩ → entry l = true → P ⟨s, ts ++ [l]⟩)
    (step : ∀ {s before l after s' l'}, P ⟨s, before ++ l :: after⟩ → (s', l') ∈ next s l →
      P ⟨s', before ++ l' :: after⟩) : P c' := by
  obtain ⟨turns, run⟩ := reach
  induction turns generalizing c with
  | nil => cases run; exact start
  | cons t ts ih =>
    obtain ⟨d, first, rest⟩ := Option.bind_eq_some_iff.1 run
    refine ih ?_ rest
    obtain ⟨s, tasks⟩ := c
    rcases turn_cases first with ⟨l, begins, rfl⟩ | ⟨before, l, after, s', l', split, mem, rfl⟩
    · exact spawn start begins
    · dsimp only at split
      subst split
      exact step start mem

/-! ## Runs whose steps meet a condition -/

variable (next entry) (fair : S → List L → L → S → L → Bool)

/-- The turn, if its step meets the condition. -/
def Pool.fairTurn (c : Pool S L) : Turn L → Option (Pool S L)
  | .start l => c.turn next entry (.start l)
  | .step i choice => do
    let l ← c.tasks[i]?
    let (s', l') ← (next c.shared l)[choice]?
    if fair c.shared (c.tasks.eraseIdx i) l s' l' then some ⟨s', c.tasks.set i l'⟩ else none

def Pool.fairRun (c : Pool S L) : List (Turn L) → Option (Pool S L)
  | [] => some c
  | t :: ts => (c.fairTurn next entry fair t).bind fun c' => c'.fairRun ts

/-- Some schedule of steps that meet the condition leads from `c` to `c'`. -/
def FairReachable (c c' : Pool S L) : Prop := ∃ turns, c.fairRun next entry fair turns = some c'

variable {next entry fair}

theorem fairTurn_cases {c c' : Pool S L} {t : Turn L} (h : c.fairTurn next entry fair t = some c') :
    c.turn next entry t = some c' ∧ ((∃ l, entry l = true ∧ c' = ⟨c.shared, c.tasks ++ [l]⟩) ∨
      ∃ before l after s' l', c.tasks = before ++ l :: after ∧ (s', l') ∈ next c.shared l ∧
        fair c.shared (before ++ after) l s' l' = true ∧ c' = ⟨s', before ++ l' :: after⟩) := by
  cases t with
  | start l =>
    refine ⟨h, ?_⟩
    rw [Pool.fairTurn, Pool.turn] at h
    split at h
    · cases h
      exact .inl ⟨l, ‹_›, rfl⟩
    · cases h
  | step i choice =>
    obtain ⟨l, task, h⟩ := Option.bind_eq_some_iff.1 h
    obtain ⟨⟨s', l'⟩, chosen, h⟩ := Option.bind_eq_some_iff.1 h
    dsimp only at h
    split at h
    · rename_i meets
      cases h
      obtain ⟨inside, rfl⟩ := List.getElem?_eq_some_iff.1 task
      refine ⟨?_, .inr ⟨c.tasks.take i, c.tasks[i], c.tasks.drop (i + 1), s', l', ?_,
        List.mem_of_getElem? chosen, ?_, ?_⟩⟩
      · simp only [Pool.turn, task, bind, Option.bind_some, chosen]
      · rw [List.getElem_cons_drop, List.take_append_drop]
      · rwa [List.eraseIdx_eq_take_drop_succ] at meets
      · rw [List.set_eq_take_append_cons_drop, if_pos inside]
    · cases h

theorem FairReachable.reachable {c c' : Pool S L} (h : FairReachable next entry fair c c') :
    Reachable next entry c c' := by
  obtain ⟨turns, run⟩ := h
  refine ⟨turns, ?_⟩
  induction turns generalizing c with
  | nil => exact run
  | cons t ts ih =>
    obtain ⟨d, first, rest⟩ := Option.bind_eq_some_iff.1 run
    rw [Pool.run, (fairTurn_cases first).1]
    exact ih rest

/-- **Safety over the interleavings of fair steps.** -/
theorem FairReachable.invariant {P : Pool S L → Prop} {c c' : Pool S L}
    (reach : FairReachable next entry fair c c') (start : P c)
    (spawn : ∀ {s ts l}, P ⟨s, ts⟩ → entry l = true → P ⟨s, ts ++ [l]⟩)
    (step : ∀ {s before l after s' l'}, P ⟨s, before ++ l :: after⟩ → (s', l') ∈ next s l →
      fair s (before ++ after) l s' l' = true → P ⟨s', before ++ l' :: after⟩) : P c' := by
  obtain ⟨turns, run⟩ := reach
  induction turns generalizing c with
  | nil => cases run; exact start
  | cons t ts ih =>
    obtain ⟨d, first, rest⟩ := Option.bind_eq_some_iff.1 run
    refine ih ?_ rest
    obtain ⟨s, tasks⟩ := c
    rcases (fairTurn_cases first).2 with
      ⟨l, begins, rfl⟩ | ⟨before, l, after, s', l', split, mem, meets, rfl⟩
    · exact spawn start begins
    · dsimp only at split
      subst split
      exact step start mem meets

/-! ## Schedules as traces -/

variable (next entry) (fits : Pool S L → L → S → L → Prop)

/-- The turn; one that is not possible changes nothing. -/
def Pool.advance (t : Turn L) (c : Pool S L) : Pool S L := (c.turn next entry t).getD c

/-- The step that the turn takes meets the condition. -/
def Pool.Meets (t : Turn L) (c : Pool S L) : Prop :=
  match t with
  | .start _ => True
  | .step i choice => ∀ l s' l', c.tasks[i]? = some l → (next c.shared l)[choice]? = some (s', l') → fits c l s' l'

variable {next entry fits}

variable (entry) in
theorem advance_cases {c : Pool S L} {t : Turn L} (meets : c.Meets next fits t) :
    c.advance next entry t = c ∨ (∃ l, entry l = true ∧ c.advance next entry t = ⟨c.shared, c.tasks ++ [l]⟩) ∨
      ∃ before l after s' l', c.tasks = before ++ l :: after ∧ (s', l') ∈ next c.shared l ∧ fits c l s' l' ∧
        c.advance next entry t = ⟨s', before ++ l' :: after⟩ := by
  unfold Pool.advance
  cases done : c.turn next entry t with
  | none => exact .inl rfl
  | some c' =>
    cases t with
    | start l =>
      rw [Pool.turn] at done
      split at done
      · cases done
        exact .inr (.inl ⟨l, ‹_›, rfl⟩)
      · cases done
    | step i choice =>
      obtain ⟨l, task, rest⟩ := Option.bind_eq_some_iff.1 done
      obtain ⟨⟨s', l'⟩, chosen, rest⟩ := Option.bind_eq_some_iff.1 rest
      cases rest
      obtain ⟨inside, is⟩ := List.getElem?_eq_some_iff.1 task
      refine .inr (.inr ⟨c.tasks.take i, l, c.tasks.drop (i + 1), s', l', ?_, List.mem_of_getElem? chosen,
        meets l s' l' task chosen, ?_⟩)
      · rw [← is, List.getElem_cons_drop, List.take_append_drop]
      · rw [Option.getD_some, List.set_eq_take_append_cons_drop, if_pos inside]

/-- **Safety over the schedules whose steps meet a condition.** -/
theorem advance_invariant {P : Pool S L → Prop} {turns : List (Turn L)} {c : Pool S L}
    (meets : Trace.Always (Pool.advance next entry) (fun t c => c.Meets next fits t) turns c) (start : P c)
    (spawn : ∀ {s ts l}, P ⟨s, ts⟩ → entry l = true → P ⟨s, ts ++ [l]⟩)
    (step : ∀ {s before l after s' l'}, P ⟨s, before ++ l :: after⟩ → (s', l') ∈ next s l →
      fits ⟨s, before ++ l :: after⟩ l s' l' → P ⟨s', before ++ l' :: after⟩) :
    P (Trace.run (Pool.advance next entry) turns c) := by
  refine (meets.of_invariant (P := fun _ _ => True) start ?_ fun _ _ _ _ => trivial).2
  intro t c inv meets
  rcases advance_cases entry meets with
    same | ⟨l, begins, started⟩ | ⟨before, l, after, s', l', split, mem, meets, stepped⟩
  · rw [same]
    exact inv
  · rw [started]
    exact spawn inv begins
  · obtain ⟨s, tasks⟩ := c
    dsimp only at split
    subst split
    rw [stepped]
    exact step inv mem meets

end Interleave
