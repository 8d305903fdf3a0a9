import Mathlib.Data.List.Basic

/-!
# Loops with a body that may exit

The body of a loop is given the number of the pass, so that it can depend on what the environment
answers in that pass. It exits or asks for another pass and says what it did. `run` has fuel;
`run_ends` and `run_never_ends` are the two rules: a measure that shrinks with every pass gives
enough fuel, an invariant under which the body never exits shows that no fuel is enough.
-/

namespace Loop

variable {σ α : Type}

/-- What the body of a loop does in one pass: it leaves the loop, or goes on with what it did. -/
inductive Outcome (σ α : Type) where
  | exit (s : σ)
  | again (s : σ) (did : α)

/-- Run the loop from pass `i`, with what each pass did. -/
def run (body : Nat → σ → Outcome σ α) : Nat → Nat → σ → Option (σ × List α)
  | 0, _, _ => none
  | fuel + 1, i, s =>
    match body i s with
    | .exit s' => some (s', [])
    | .again s' did => (run body fuel (i + 1) s').map fun r => (r.1, did :: r.2)

variable {body : Nat → σ → Outcome σ α} {I : σ → Prop}

/-- A shrinking measure ends the loop; what holds of every pass holds of the whole log. -/
theorem run_ends {Good : α → Prop} (measure : σ → Nat)
    (pass : ∀ i s, I s → (∃ s', body i s = .exit s') ∨
      ∃ s' did, body i s = .again s' did ∧ I s' ∧ measure s' < measure s ∧ Good did)
    {s : σ} (start : I s) (i : Nat) :
    ∃ fuel s' log, run body fuel i s = some (s', log) ∧ ∀ did ∈ log, Good did := by
  induction h : measure s using Nat.strongRecOn generalizing s i with
  | _ n ih =>
    subst h
    rcases pass i s start with ⟨s', exits⟩ | ⟨s', did, more, keeps, less, good⟩
    · exact ⟨1, s', [], by simp [run, exits], by simp⟩
    · obtain ⟨fuel, t, log, rest, all⟩ := ih _ less keeps (i + 1) rfl
      refine ⟨fuel + 1, t, did :: log, by simp [run, more, rest], ?_⟩
      intro d hd
      rcases List.mem_cons.1 hd with rfl | hd
      · exact good
      · exact all d hd

/-- An invariant that keeps the body from exiting. -/
theorem run_never_ends (pass : ∀ i s, I s → ∃ s' did, body i s = .again s' did ∧ I s') (fuel : Nat)
    {s : σ} (start : I s) (i : Nat) : run body fuel i s = none := by
  induction fuel generalizing s i with
  | zero => rfl
  | succ fuel ih =>
    obtain ⟨s', did, more, keeps⟩ := pass i s start
    simp [run, more, ih keeps]

end Loop

namespace List

/-- A loop over `1..=n` whose passes keep an invariant runs to its end. -/
theorem foldlM_range'_of_pass {σ : Type} {f : σ → Nat → Option σ} {I : Nat → σ → Prop} {n : Nat}
    (pass : ∀ k s, k < n → I k s → ∃ s', f s (k + 1) = some s' ∧ I (k + 1) s') {s : σ} (start : I 0 s) :
    ∃ s', (range' 1 n).foldlM f s = some s' ∧ I n s' := by
  induction n with
  | zero => exact ⟨s, rfl, start⟩
  | succ n ih =>
    obtain ⟨s₁, before, inv⟩ := ih fun k s less => pass k s (by omega)
    obtain ⟨s', last, inv'⟩ := pass n s₁ (by omega) inv
    refine ⟨s', ?_, inv'⟩
    rw [range'_1_concat, foldlM_append, before, Nat.add_comm 1 n]
    simp [last]

variable {α β : Type}

/-- Try the elements in order until one answers; it is replaced. -/
def firstHit (f : α → α × Option β) : List α → List α × Option β
  | [] => ([], none)
  | x :: l =>
    match f x with
    | (x', some b) => (x' :: l, some b)
    | (x', none) =>
      let (l', r) := firstHit f l
      (x' :: l', r)

@[simp] theorem length_firstHit (f : α → α × Option β) (l : List α) :
    (l.firstHit f).1.length = l.length := by
  induction l with
  | nil => rfl
  | cons x l ih =>
    rw [firstHit]
    split
    · rfl
    · simp [ih]

theorem firstHit_cases {f : α → α × Option β} (idle : ∀ x, (f x).2 = none → (f x).1 = x) (l : List α) :
    (∃ a x z b, l = a ++ x :: z ∧ (∀ y ∈ a, (f y).2 = none) ∧ (f x).2 = some b ∧
      l.firstHit f = (a ++ (f x).1 :: z, some b)) ∨
      ((∀ x ∈ l, (f x).2 = none) ∧ l.firstHit f = (l, none)) := by
  induction l with
  | nil => exact .inr ⟨by simp, rfl⟩
  | cons y l ih =>
    cases hy : (f y).2 with
    | some b =>
      refine .inl ⟨[], y, l, b, rfl, by simp, hy, ?_⟩
      rw [firstHit, ← Prod.eta (f y), hy]
      rfl
    | none =>
      have step : (y :: l).firstHit f = (y :: (l.firstHit f).1, (l.firstHit f).2) := by
        rw [firstHit, ← Prod.eta (f y), hy, idle y hy]
      rcases ih with ⟨a, x, z, b, rfl, before, hx, h⟩ | ⟨none, h⟩
      · exact .inl ⟨y :: a, x, z, b, rfl, List.forall_mem_cons.2 ⟨hy, before⟩, hx, by rw [step, h]; rfl⟩
      · refine .inr ⟨?_, by rw [step, h]⟩
        intro x hx
        rcases mem_cons.1 hx with rfl | hx
        · exact hy
        · exact none x hx

end List
