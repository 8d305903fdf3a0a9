import Mathlib.Data.List.Forall2

/-!
# Operations that respect a relation between states

The relation says what two states have in common. An operation respects it if it answers the same in related
states and leads from them to related states; such operations compose. With a relation that ignores a part
of the state, this is that the part has no influence. Lists of states are related one by one, by `List.Forall₂`.
-/

namespace NexradeCache

variable {σ α β : Type}

/-- A function on states keeps a relation between two of them, and cannot tell them apart. -/
structure Respects (R : σ → σ → Prop) (f : σ → σ × α) : Prop where
  related : ∀ {s s'}, R s s' → (f s).2 = (f s').2 ∧ R (f s).1 (f s').1

namespace Respects

variable {R : σ → σ → Prop} {f : σ → σ × α}

/-- One after the other, the second by what the first has found. -/
theorem bind {g : α → σ → σ × β} (hf : Respects R f) (hg : ∀ a, Respects R (g a)) :
    Respects R fun s => g (f s).2 (f s).1 := by
  constructor
  intro s s' rel
  obtain ⟨same, after⟩ := hf.related rel
  rw [same]
  exact (hg _).related after

theorem map (hf : Respects R f) (g : α → β) : Respects R fun s => ((f s).1, g (f s).2) :=
  ⟨fun rel => ⟨congrArg g (hf.related rel).1, (hf.related rel).2⟩⟩

/-- A reader of what related states have in common. -/
theorem read {g : σ → α} (same : ∀ {s s'}, R s s' → g s = g s') : Respects R fun s => (s, g s) :=
  ⟨fun rel => ⟨same rel, rel⟩⟩

theorem pure (a : α) : Respects R fun s => (s, a) := read fun _ => rfl

theorem after_read {g : σ → α} {f : α → σ → σ × β} (same : ∀ {s s'}, R s s' → g s = g s')
    (hf : ∀ a, Respects R (f a)) : Respects R fun s => f (g s) s := by
  constructor
  intro s s' rel
  rw [same rel]
  exact (hf _).related rel

theorem foldl {ι : Type} {step : σ → ι → σ} (xs : List ι) (h : ∀ x ∈ xs, Respects R fun s => (step s x, ())) :
    Respects R fun s => (xs.foldl step s, ()) := by
  induction xs with
  | nil => exact pure ()
  | cons x xs ih =>
    rw [List.forall_mem_cons] at h
    exact h.1.bind fun _ => ih h.2

/-- Steps that commute up to the relation may be taken in any order. -/
theorem foldl_perm {ι : Type} (equiv : Equivalence R) {step : σ → ι → σ} (h : ∀ x, Respects R fun s => (step s x, ()))
    {xs ys : List ι} (perm : xs.Perm ys)
    (commute : ∀ x ∈ xs, ∀ y ∈ xs, ∀ s, R (step (step s x) y) (step (step s y) x)) (s : σ) :
    R (xs.foldl step s) (ys.foldl step s) := by
  induction perm generalizing s with
  | nil => exact equiv.refl s
  | cons x _ ih =>
    rw [List.forall_mem_cons] at commute
    exact ih (fun a ha b hb => commute.2 a ha b (List.mem_cons_of_mem x hb)) (step s x)
  | swap x y l => exact ((foldl l fun z _ => h z).related (commute y (by simp) x (by simp) s)).2
  | trans first _ ih ih' =>
    refine equiv.trans (ih commute s) (ih' (fun a ha b hb => ?_) s)
    exact commute a (first.mem_iff.2 ha) b (first.mem_iff.2 hb)

end Respects

/-! ## Lists of states -/

section

variable {γ : Type} {R : α → β → Prop} {l : List α} {l' : List β}

theorem forall₂_trans {S : β → γ → Prop} {T : α → γ → Prop} {l'' : List γ} (h : List.Forall₂ R l l')
    (h' : List.Forall₂ S l' l'') (trans : ∀ a b c, R a b → S b c → T a c) : List.Forall₂ T l l'' := by
  induction h generalizing l'' with
  | nil =>
    cases h'
    exact .nil
  | cons first _ ih =>
    cases h' with
    | cons second rest => exact .cons (trans _ _ _ first second) (ih rest)

theorem forall₂_set (h : List.Forall₂ R l l') (i : Nat) {a : α} {b : β} (here : R a b) :
    List.Forall₂ R (l.set i a) (l'.set i b) := by
  induction h generalizing i with
  | nil => exact .nil
  | cons first rest ih =>
    cases i with
    | zero => exact .cons here rest
    | succ i => exact .cons first (ih i)

theorem forall₂_getD (h : List.Forall₂ R l l') (i : Nat) {a : α} {b : β} (outside : R a b) :
    R (l[i]?.getD a) (l'[i]?.getD b) := by
  induction h generalizing i with
  | nil => exact outside
  | cons first _ ih =>
    cases i with
    | zero => exact first
    | succ i => exact ih i

/-- One element replaced by one that is related to it. -/
theorem forall₂_set_right {R : α → α → Prop} (refl : ∀ a, R a a) {l : List α} {i : Nat} {b : α}
    (here : ∀ a, l[i]? = some a → R a b) : List.Forall₂ R l (l.set i b) := by
  induction l generalizing i with
  | nil => exact .nil
  | cons a l ih =>
    have same : List.Forall₂ R l l := List.forall₂_same.2 fun a _ => refl a
    cases i with
    | zero => exact .cons (here a rfl) same
    | succ i => exact .cons (refl a) (ih here)

end

end NexradeCache
