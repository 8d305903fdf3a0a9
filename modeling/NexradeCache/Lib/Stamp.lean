import Mathlib.Order.Basic

/-!
# Version stamps

A stamp detects changes of some content if it never goes back and grows with every step that
changes the content. Two equal stamps then witness that nothing happened in between, over any
number of steps: the rule behind optimistic locking.
-/

namespace Stamp

variable {S T C Op : Type} [Preorder T] {stamp : S → T} {content : S → C} {s s' s'' : S}

/-- From `s` to `s'` the stamp does not go back, and it grows if the content changes. -/
structure Covers (stamp : S → T) (content : S → C) (s s' : S) : Prop where
  le : stamp s ≤ stamp s'
  grows : content s ≠ content s' → stamp s < stamp s'

theorem Covers.refl (s : S) : Covers stamp content s s := ⟨le_rfl, fun h => (h rfl).elim⟩

theorem Covers.of_lt (h : stamp s < stamp s') : Covers stamp content s s' := ⟨h.le, fun _ => h⟩

theorem Covers.of_same (h : stamp s ≤ stamp s') (same : content s = content s') :
    Covers stamp content s s' :=
  ⟨h, fun changed => (changed same).elim⟩

theorem Covers.trans (h : Covers stamp content s s') (h' : Covers stamp content s' s'') :
    Covers stamp content s s'' := by
  refine ⟨h.le.trans h'.le, fun changed => ?_⟩
  by_cases first : content s = content s'
  · rw [first] at changed
    exact h.le.trans_lt (h'.grows changed)
  · exact (h.grows first).trans_le h'.le

variable (step : S → Op → S)

/-- Each operation satisfies `p` in the state it runs in. -/
def Along (p : S → Op → Prop) : S → List Op → Prop
  | _, [] => True
  | s, o :: os => p s o ∧ Along p (step s o) os

/-- Some operation of the run changes the content. -/
def Changes (content : S → C) : S → List Op → Prop
  | _, [] => False
  | s, o :: os => content s ≠ content (step s o) ∨ Changes content (step s o) os

variable {step}

theorem covers_run {p : S → Op → Prop} (one : ∀ s o, p s o → Covers stamp content s (step s o))
    {ops : List Op} (meets : Along step p s ops) : Covers stamp content s (ops.foldl step s) := by
  induction ops generalizing s with
  | nil => exact .refl s
  | cons o os ih => exact (one s o meets.1).trans (ih meets.2)

/-- A run that changes the content moves the stamp, also if the content is changed back. -/
theorem lt_of_changes {p : S → Op → Prop} (one : ∀ s o, p s o → Covers stamp content s (step s o))
    {ops : List Op} (meets : Along step p s ops) (changes : Changes step content s ops) :
    stamp s < stamp (ops.foldl step s) := by
  induction ops generalizing s with
  | nil => exact changes.elim
  | cons o os ih =>
    rcases changes with first | later
    · exact ((one s o meets.1).grows first).trans_le (covers_run one meets.2).le
    · exact (one s o meets.1).le.trans_lt (ih meets.2 later)

end Stamp
