import Mathlib.Data.Finset.Card

/-!
# Operations on many sets

The operands of an operation are read one by one. One may be missing, or be of the wrong type. `union`, `inter` and
`diff` are meant over all of them, a missing one being the empty set. A loop that stops at the first operand that is
missing or wrong is `gather`, and `gather_eq_wrong_iff` says when it sees that one of them is wrong. `countUpTo`
counts the common elements from one of the sets, up to a limit.
-/

variable {α : Type}

/-- What a key holds, for a command on values of one kind: a value, nothing, or something of another kind. -/
inductive Operand (α : Type) where
  | missing
  | wrong
  | value (a : α)
deriving DecidableEq

namespace Operand

/-- A missing operand is the empty set. -/
def members : Operand (Finset α) → Finset α
  | value s => s
  | _ => ∅

@[simp] theorem members_value (s : Finset α) : (value s).members = s := rfl

@[simp] theorem members_missing : (missing : Operand (Finset α)).members = ∅ := rfl

section Finset

variable [DecidableEq α]

/-- Members of any operand. -/
def union (l : List (Operand (Finset α))) : Finset α := l.foldr (fun o r => o.members ∪ r) ∅

/-- Members of all operands. -/
def inter : List (Operand (Finset α)) → Finset α
  | [] => ∅
  | o :: l => o.members.filter fun m => ∀ o' ∈ l, m ∈ o'.members

/-- The first without the others. -/
def diff : List (Operand (Finset α)) → Finset α
  | [] => ∅
  | o :: l => o.members.filter fun m => ∀ o' ∈ l, m ∉ o'.members

variable {l l' : List (Operand (Finset α))} {m : α}

theorem mem_union : m ∈ union l ↔ ∃ o ∈ l, m ∈ o.members := by
  induction l with
  | nil => simp [union]
  | cons o l ih =>
    rw [union, List.foldr_cons, Finset.mem_union, ← union, ih]
    simp

/-- By membership, if there is an operand at all. -/
theorem mem_inter (nonempty : l ≠ []) : m ∈ inter l ↔ ∀ o ∈ l, m ∈ o.members := by
  cases l with
  | nil => exact (nonempty rfl).elim
  | cons o l => rw [inter, Finset.mem_filter, List.forall_mem_cons]

theorem inter_subset_union : inter l ⊆ union l := by
  intro m mem
  cases l with
  | nil => simp [inter] at mem
  | cons o l =>
    rw [inter, Finset.mem_filter] at mem
    exact mem_union.2 ⟨o, .head _, mem.1⟩

theorem diff_subset_union : diff l ⊆ union l := by
  intro m mem
  cases l with
  | nil => simp [diff] at mem
  | cons o l =>
    rw [diff, Finset.mem_filter] at mem
    exact mem_union.2 ⟨o, .head _, mem.1⟩

theorem union_perm (perm : l.Perm l') : union l = union l' := by
  ext m
  simp only [mem_union, perm.mem_iff]

theorem inter_perm (perm : l.Perm l') : inter l = inter l' := by
  by_cases empty : l = []
  · subst empty
    rw [perm.nil_eq]
  · have empty' : l' ≠ [] := fun nil => empty (List.perm_nil.1 (nil ▸ perm))
    ext m
    simp only [mem_inter empty, mem_inter empty', perm.mem_iff]

/-- A missing operand leaves nothing in common. -/
theorem inter_of_missing (there : missing ∈ l) : inter l = ∅ := by
  refine Finset.eq_empty_of_forall_notMem fun m mem => ?_
  have none := (mem_inter (List.ne_nil_of_mem there)).1 mem _ there
  simp at none

end Finset

/-! ## Reading up to the first that is missing or wrong -/

/-- What a loop over the operands ends with. -/
inductive Gathered (α : Type) where
  | all (l : List α)
  | missing
  | wrong

/-- Reads the operands one by one, and stops at the first that is missing or wrong. -/
def gather : List (Operand α) → Gathered α
  | [] => .all []
  | missing :: _ => .missing
  | wrong :: _ => .wrong
  | value a :: l => match gather l with
    | .all l => .all (a :: l)
    | .missing => .missing
    | .wrong => .wrong

/-- An operand of the wrong type stands behind a missing one, and none before it. -/
def Hidden (l : List (Operand α)) : Prop := ∃ a z, l = a ++ missing :: z ∧ wrong ∉ a ∧ wrong ∈ z

variable {l l' : List (Operand α)}

@[simp] theorem not_hidden_nil : ¬Hidden ([] : List (Operand α)) := by
  rintro ⟨a, z, split, -⟩
  simp at split

/-- A missing operand hides what is wrong behind it. -/
theorem hidden_missing : Hidden (missing :: l) ↔ wrong ∈ l := by
  constructor
  · rintro ⟨a, z, split, -, later⟩
    cases a with
    | nil =>
      cases split
      exact later
    | cons o a =>
      rw [List.cons_append, List.cons.injEq] at split
      rw [split.2]
      simp [later]
  · exact fun later => ⟨[], l, rfl, by simp, later⟩

theorem not_hidden_wrong : ¬Hidden (wrong :: l) := by
  rintro ⟨a, z, split, before, -⟩
  cases a with
  | nil => cases split
  | cons o a =>
    rw [List.cons_append, List.cons.injEq] at split
    rw [← split.1] at before
    simp at before

theorem hidden_value {a : α} : Hidden (value a :: l) ↔ Hidden l := by
  constructor
  · rintro ⟨b, z, split, before, later⟩
    cases b with
    | nil => cases split
    | cons o b =>
      rw [List.cons_append, List.cons.injEq] at split
      exact ⟨b, z, split.2, fun mem => before (List.mem_cons_of_mem _ mem), later⟩
  · rintro ⟨b, z, rfl, before, later⟩
    exact ⟨value a :: b, z, rfl, by simp [before], later⟩

theorem gather_eq_all {vs : List α} (all : gather l = .all vs) : l = vs.map value := by
  induction l generalizing vs with
  | nil =>
    cases all
    rfl
  | cons o l ih =>
    cases o with
    | missing => cases all
    | wrong => cases all
    | value a =>
      rw [gather] at all
      cases rest : gather l with
      | all ws =>
        rw [rest] at all
        cases all
        rw [ih rest, List.map_cons]
      | missing => simp [rest] at all
      | wrong => simp [rest] at all

/-- The reading stops at an operand that is there. -/
theorem missing_mem_of_gather (stops : gather l = .missing) : missing ∈ l := by
  induction l with
  | nil => cases stops
  | cons o l ih =>
    cases o with
    | missing => exact .head _
    | wrong => cases stops
    | value a =>
      rw [gather] at stops
      cases rest : gather l with
      | all ws => simp [rest] at stops
      | missing => exact .tail _ (ih rest)
      | wrong => simp [rest] at stops

/-- The loop sees that an operand is wrong unless it stops before. -/
theorem gather_eq_wrong_iff : gather l = .wrong ↔ wrong ∈ l ∧ ¬Hidden l := by
  induction l with
  | nil => simp [gather]
  | cons o l ih =>
    cases o with
    | missing => simp [gather, hidden_missing]
    | wrong => simp [gather, not_hidden_wrong]
    | value a =>
      rw [hidden_value, List.mem_cons, gather]
      cases rest : gather l <;> simp [rest] at ih ⊢ <;> exact ih

theorem Hidden.wrong_mem (hidden : Hidden l) : wrong ∈ l := by
  obtain ⟨a, z, rfl, -, later⟩ := hidden
  simp [later]

/-- It sees what there is unless a wrong operand is hidden. -/
theorem gather_eq_wrong_iff_mem_iff : (gather l = .wrong ↔ wrong ∈ l) ↔ ¬Hidden l := by
  rw [gather_eq_wrong_iff]
  constructor
  · exact fun sees hidden => (sees.2 hidden.wrong_mem).2 hidden
  · exact fun shown => ⟨And.left, fun there => ⟨there, shown⟩⟩

theorem wrong_notMem_of_all {vs : List α} (all : gather l = .all vs) : wrong ∉ l := by
  rw [gather_eq_all all]
  simp

/-- No wrong operand is hidden in any order, or there is none that is missing. -/
theorem not_hidden_perm_iff : (∀ l', l'.Perm l → ¬Hidden l') ↔ ¬(missing ∈ l ∧ wrong ∈ l) := by
  constructor
  · rintro shown ⟨gone, bad⟩
    obtain ⟨a, z, rfl⟩ := List.append_of_mem gone
    refine shown (missing :: (a ++ z)) List.perm_middle.symm (hidden_missing.2 ?_)
    simpa using bad
  · rintro not l' perm ⟨a, z, rfl, -, later⟩
    exact not ⟨perm.subset (by simp), perm.subset (by simp [later])⟩

/-! ## Counting up to a limit -/

/-- The loop that counts, and stops when the limit is reached. -/
def countUpTo (p : α → Bool) (limit : Option Nat) : List α → Nat → Nat
  | [], count => count
  | m :: rest, count =>
    if p m then
      match limit with
      | some lim => if lim ≤ count + 1 then count + 1 else countUpTo p limit rest (count + 1)
      | none => countUpTo p limit rest (count + 1)
    else countUpTo p limit rest count

theorem countUpTo_none (p : α → Bool) (l : List α) (count : Nat) : countUpTo p none l count = count + l.countP p := by
  induction l generalizing count with
  | nil => rfl
  | cons m l ih =>
    rw [countUpTo, List.countP_cons]
    split
    · rw [ih]
      omega
    · rw [ih, Nat.add_zero]

theorem countUpTo_some (p : α → Bool) {lim : Nat} (l : List α) {count : Nat} (below : count < lim) :
    countUpTo p (some lim) l count = min lim (count + l.countP p) := by
  induction l generalizing count with
  | nil =>
    rw [countUpTo, List.countP_nil]
    omega
  | cons m l ih =>
    rw [countUpTo, List.countP_cons]
    split
    · split
      · omega
      · rw [ih (by omega)]
        omega
    · rw [ih below, Nat.add_zero]

/-! ## The smallest first -/

/-- The index of the first of the smallest, as a loop that starts from `big` finds it. -/
def smallestIdx (big : Nat) (lens : List Nat) : Nat :=
  (lens.zipIdx.foldl (fun best x => if x.1 < best.1 then x else best) (big, 0)).2

/-- The place of a smallest operand is a place. -/
theorem smallestIdx_lt (big : Nat) {lens : List Nat} (nonempty : lens ≠ []) : smallestIdx big lens < lens.length := by
  have inside : ∀ (xs : List (Nat × Nat)) (best : Nat × Nat), best.2 < lens.length →
      (∀ x ∈ xs, x.2 < lens.length) → (xs.foldl (fun best x => if x.1 < best.1 then x else best) best).2 < lens.length := by
    intro xs
    induction xs with
    | nil => exact fun _ here _ => here
    | cons x xs ih =>
      intro best here all
      rw [List.forall_mem_cons] at all
      rw [List.foldl_cons]
      refine ih _ ?_ all.2
      split
      · exact all.1
      · exact here
  refine inside _ _ (List.length_pos_iff.2 nonempty) fun x mem => ?_
  obtain ⟨-, bound, -⟩ := List.mem_zipIdx mem
  simpa using bound

/-- The indices of the others. -/
def othersOf (idx n : Nat) : List Nat := (List.range n).filter (· ≠ idx)

variable [DecidableEq α]

/-- What the others have of one of the sets is what all have. -/
theorem filter_others {sets : List (Finset α)} {idx : Nat} (inside : idx < sets.length) :
    (sets[idx].filter fun m => ∀ i ∈ othersOf idx sets.length, m ∈ sets[i]?.getD ∅) = inter (sets.map value) := by
  ext m
  have nonempty : sets.map value ≠ [] := by
    rw [ne_eq, List.map_eq_nil_iff]
    exact List.ne_nil_of_length_pos (by omega)
  rw [Finset.mem_filter, mem_inter nonempty]
  constructor
  · rintro ⟨here, others⟩ o mem
    obtain ⟨s, there, rfl⟩ := List.mem_map.1 mem
    obtain ⟨i, bound, rfl⟩ := List.mem_iff_getElem.1 there
    by_cases same : i = idx
    · subst same
      exact here
    · have other := others i (List.mem_filter.2 ⟨List.mem_range.2 bound, by simpa using same⟩)
      simpa [bound] using other
  · intro all
    have each (i : Nat) (bound : i < sets.length) : m ∈ sets[i] :=
      all (value sets[i]) (List.mem_map.2 ⟨_, List.getElem_mem bound, rfl⟩)
    refine ⟨each idx inside, fun i mem => ?_⟩
    have bound := List.mem_range.1 (List.mem_filter.1 mem).1
    simpa [bound] using each i bound

end Operand
