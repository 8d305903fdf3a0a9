import Mathlib.Data.List.Forall2
import Mathlib.Data.List.Infix

/-!
# Runs of operations and their refinement

A component is a partial step function on its states, indexed by the operations its
clients call; `none` is a step that panics. `run` executes a list of operations and
collects the answers. An abstract component is a total step function `spec`, with
`specRun` for its runs.

`run_refines` is the simulation rule every refinement proof of this development goes
through: one step lemma (from related states the concrete step returns, the answers
correspond, and the states stay related as long as the new state is `Ok`) gives the
same for whole runs. `Ok` is a side condition on the states a run visits, such as a
size bound that the representation needs; `Valid` one on the operations.
-/

namespace Run

variable {σ τ Op Ans Ans' : Type}

/-- Execute operations in order, collecting the answers. -/
def run (step : Op → σ → Option (σ × Ans)) : List Op → σ → Option (σ × List Ans)
  | [], s => some (s, [])
  | o :: os, s => do
    let (s', r) ← step o s
    let (s'', rs) ← run step os s'
    return (s'', r :: rs)

/-- The run of an abstract component. -/
def specRun (spec : Op → τ → τ × Ans') : List Op → τ → τ × List Ans'
  | [], t => (t, [])
  | o :: os, t =>
    let (t', r) := spec o t
    let (t'', rs) := specRun spec os t'
    (t'', r :: rs)

/-- Every state a run of `ops` visits satisfies `Ok`. -/
def Visits (step : Op → σ → Option (σ × Ans)) (Ok : σ → Prop) (ops : List Op) (s : σ) : Prop :=
  ∀ pre s' rs, pre <+: ops → run step pre s = some (s', rs) → Ok s'

theorem run_cons {step : Op → σ → Option (σ × Ans)} {o : Op} {os : List Op} {s s' s'' : σ} {r : Ans}
    {rs : List Ans} (h : step o s = some (s', r)) (hs : run step os s' = some (s'', rs)) :
    run step (o :: os) s = some (s'', r :: rs) := by
  simp [run, h, hs]

/-- After the first step the rest of the run still visits `Ok` states. -/
theorem Visits.tail {step : Op → σ → Option (σ × Ans)} {Ok : σ → Prop} {o : Op} {os : List Op}
    {s s' : σ} {r : Ans} (h : Visits step Ok (o :: os) s) (hs : step o s = some (s', r)) :
    Visits step Ok os s' := by
  intro pre t rs hpre ht
  exact h (o :: pre) t (r :: rs) (List.cons_prefix_cons.2 ⟨rfl, hpre⟩) (run_cons hs ht)

theorem Visits.head {step : Op → σ → Option (σ × Ans)} {Ok : σ → Prop} {o : Op} {os : List Op}
    {s s' : σ} {r : Ans} (h : Visits step Ok (o :: os) s) (hs : step o s = some (s', r)) : Ok s' :=
  h [o] s' [r] (List.cons_prefix_cons.2 ⟨rfl, List.nil_prefix⟩) (run_cons hs rfl)

/-- Decide `Visits` by executing the run. -/
def check (step : Op → σ → Option (σ × Ans)) (ok : σ → Bool) : List Op → σ → Bool
  | [], s => ok s
  | o :: os, s => ok s && match step o s with
    | some (s', _) => check step ok os s'
    | none => true

theorem visits_of_check {step : Op → σ → Option (σ × Ans)} {Ok : σ → Prop} [DecidablePred Ok]
    {ops : List Op} {s : σ} (h : check step (fun s => decide (Ok s)) ops s = true) :
    Visits step Ok ops s := by
  induction ops generalizing s with
  | nil =>
    intro pre s' rs hpre hrun
    rw [List.prefix_nil] at hpre
    subst hpre
    cases hrun
    simpa [check] using h
  | cons o os ih =>
    simp only [check, Bool.and_eq_true, decide_eq_true_eq] at h
    intro pre s' rs hpre hrun
    cases pre with
    | nil => cases hrun; exact h.1
    | cons p pre =>
      obtain ⟨rfl, hpre'⟩ := List.cons_prefix_cons.1 hpre
      cases hs : step p s with
      | none => simp [run, hs] at hrun
      | some next =>
        rw [hs] at h
        simp only [run, hs, Option.bind_eq_bind, Option.bind_some] at hrun
        obtain ⟨⟨t, ts⟩, hrest, e⟩ := Option.bind_eq_some_iff.1 hrun
        cases e
        exact ih h.2 pre t ts hpre' hrest

/-- **The simulation rule.** -/
theorem run_refines {step : Op → σ → Option (σ × Ans)} {spec : Op → τ → τ × Ans'}
    {R : σ → τ → Prop} {Q : Ans → Ans' → Prop} {Ok : σ → Prop} {Valid : Op → Prop}
    (one : ∀ o s t, Valid o → R s t →
      ∃ s' r, step o s = some (s', r) ∧ Q r (spec o t).2 ∧ (Ok s' → R s' (spec o t).1))
    {ops : List Op} {s : σ} {t : τ} (valid : ∀ o ∈ ops, Valid o) (visits : Visits step Ok ops s)
    (start : R s t) :
    ∃ s' rs, run step ops s = some (s', rs) ∧ List.Forall₂ Q rs (specRun spec ops t).2 ∧
      R s' (specRun spec ops t).1 := by
  induction ops generalizing s t with
  | nil => exact ⟨s, [], rfl, .nil, start⟩
  | cons o os ih =>
    obtain ⟨s', r, hs, hr, keep⟩ := one o s t (valid o (by simp)) start
    obtain ⟨s'', rs, hrun, hrs, rel⟩ :=
      ih (fun o' ho' => valid o' (by simp [ho'])) (visits.tail hs) (keep (visits.head hs))
    exact ⟨s'', r :: rs, run_cons hs hrun, .cons hr hrs, rel⟩

/-- The runs of a nondeterministic abstract component, with the answers it chose. -/
inductive Allows (spec : Op → τ → Ans → τ → Prop) : List Op → τ → List Ans → τ → Prop
  | nil (t : τ) : Allows spec [] t [] t
  | cons {o : Op} {os : List Op} {t t' t'' : τ} {r : Ans} {rs : List Ans} :
    spec o t r t' → Allows spec os t' rs t'' → Allows spec (o :: os) t (r :: rs) t''

/-- **The simulation rule** for a nondeterministic abstract component: the abstract run makes the
choices the concrete answers show. -/
theorem run_allowed {step : Op → σ → Option (σ × Ans)} {spec : Op → τ → Ans → τ → Prop}
    {R : σ → τ → Prop} {Valid : Op → Prop}
    (one : ∀ o s t, Valid o → R s t → ∃ s' r t', step o s = some (s', r) ∧ spec o t r t' ∧ R s' t')
    {ops : List Op} {s : σ} {t : τ} (valid : ∀ o ∈ ops, Valid o) (start : R s t) :
    ∃ s' rs t', run step ops s = some (s', rs) ∧ Allows spec ops t rs t' ∧ R s' t' := by
  induction ops generalizing s t with
  | nil => exact ⟨s, [], t, rfl, .nil t, start⟩
  | cons o os ih =>
    obtain ⟨s', r, t', hs, hr, rel⟩ := one o s t (valid o (by simp)) start
    obtain ⟨s'', rs, t'', hrun, hrs, rel'⟩ := ih (fun o' ho' => valid o' (by simp [ho'])) rel
    exact ⟨s'', r :: rs, t'', run_cons hs hrun, .cons hr hrs, rel'⟩

end Run
