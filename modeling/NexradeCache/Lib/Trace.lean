import Mathlib.Data.List.Induction

/-!
# Runs of a machine, event by event

A machine is a step function on its states, indexed by the events that happen to it. `Always` says
something about every step of a run, from the event and the state before it. A condition on the steps
of a run is an `Always`, and so is what a theorem concludes: `Always.of_invariant` leads from the one
to the other.
-/

namespace Trace

variable {S E : Type} {step : E → S → S}

/-- The state after the events. -/
def run (step : E → S → S) : List E → S → S
  | [], s => s
  | e :: es, s => run step es (step e s)

/-- `P` holds of every event of the run and the state it meets. -/
def Always (step : E → S → S) (P : E → S → Prop) : List E → S → Prop
  | [], _ => True
  | e :: es, s => P e s ∧ Always step P es (step e s)

theorem run_append (es es' : List E) (s : S) : run step (es ++ es') s = run step es' (run step es s) := by
  induction es generalizing s with
  | nil => rfl
  | cons e es ih => exact ih (step e s)

theorem Always.append {P : E → S → Prop} {es es' : List E} {s : S} :
    Always step P (es ++ es') s ↔ Always step P es s ∧ Always step P es' (run step es s) := by
  induction es generalizing s with
  | nil => simp [Always, run]
  | cons e es ih => simp [Always, run, ih, and_assoc]

theorem Always.mono {P Q : E → S → Prop} {es : List E} {s : S} (h : Always step P es s)
    (weaker : ∀ e s, P e s → Q e s) : Always step Q es s := by
  induction es generalizing s with
  | nil => exact trivial
  | cons e es ih => exact ⟨weaker e s h.1, ih h.2⟩

/-- An invariant that the steps of a run keep holds at its end, and what follows from it at each step
holds of each step. -/
theorem Always.of_invariant {ok P : E → S → Prop} {inv : S → Prop} {es : List E} {s : S}
    (meets : Always step ok es s) (start : inv s) (keep : ∀ e s, inv s → ok e s → inv (step e s))
    (gives : ∀ e s, inv s → ok e s → P e s) : Always step P es s ∧ inv (run step es s) := by
  induction es generalizing s with
  | nil => exact ⟨trivial, start⟩
  | cons e es ih =>
    obtain ⟨now, later⟩ := meets
    obtain ⟨rest, final⟩ := ih later (keep e s start now)
    exact ⟨⟨gives e s start now, rest⟩, final⟩

/-- What a state carries that the first one did not was born in some state of the run. -/
theorem Always.born {A : Type} {ok : E → S → Prop} {inv : S → Prop} (Carries Born : S → A → Prop) {es : List E}
    {s : S} (meets : Always step ok es s) (start : inv s) (keep : ∀ e s, inv s → ok e s → inv (step e s))
    (first : ∀ a, ¬Carries s a)
    (new : ∀ e s a, inv s → ok e s → Carries (step e s) a → Carries s a ∨ Born (step e s) a) {a : A}
    (carries : Carries (run step es s) a) :
    ∃ early late, es = early ++ late ∧ Born (run step early s) a := by
  -- on the end of the run: the last step either carries it on or bears it
  induction es using List.reverseRecOn with
  | nil => exact absurd carries (first a)
  | append_singleton es e ih =>
    obtain ⟨before, now, -⟩ := Always.append.1 meets
    have reached : inv (run step es s) :=
      (before.of_invariant (P := fun _ _ => True) start keep fun _ _ _ _ => trivial).2
    rw [run_append] at carries
    rcases new e _ a reached now carries with old | born
    · obtain ⟨early, late, rfl, born⟩ := ih before old
      exact ⟨early, late ++ [e], List.append_assoc _ _ _, born⟩
    · exact ⟨es ++ [e], [], (List.append_nil _).symm, by rw [run_append]; exact born⟩

/-- Two conditions that agree where an invariant holds agree on every run. -/
theorem Always.congr {P Q : E → S → Prop} {inv : S → Prop} {es : List E} {s : S} (start : inv s)
    (same : ∀ e s, inv s → (P e s ↔ Q e s)) (keep : ∀ e s, inv s → Q e s → inv (step e s)) :
    Always step P es s ↔ Always step Q es s := by
  induction es generalizing s with
  | nil => exact Iff.rfl
  | cons e es ih =>
    constructor
    · rintro ⟨now, later⟩
      have now := (same e s start).1 now
      exact ⟨now, (ih (keep e s start now)).1 later⟩
    · rintro ⟨now, later⟩
      exact ⟨(same e s start).2 now, (ih (keep e s start now)).2 later⟩

end Trace
