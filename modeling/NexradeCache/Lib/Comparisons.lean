import Mathlib

/-!
# Sorting by comparison

A comparison orders the elements of a list if it is reflexive, total and transitive on them. Only then does a sort
promise an order; else it may come out with any permutation of the list, or with none.
-/

theorem cmp_isLE {K : Type} [LinearOrder K] {dec : DecidableLT K} {a b : K} : (@cmp K _ dec a b).isLE ↔ a ≤ b := by
  unfold cmp cmpUsing
  split
  · rename_i less
    simp [less.le]
  · rename_i notLess
    split <;> simp_all

variable {A B : Type} {cmp cmp' : A → A → Ordering} {l l' : List A}

/-- The comparison is a total preorder on the elements, and mirrored when they are swapped. -/
structure TotalPreorderOn (cmp : A → A → Ordering) (l : List A) : Prop where
  refl : ∀ a ∈ l, (cmp a a).isLE
  total : ∀ a ∈ l, ∀ b ∈ l, (cmp a b).isLE ∨ (cmp b a).isLE
  trans : ∀ a ∈ l, ∀ b ∈ l, ∀ c ∈ l, (cmp a b).isLE → (cmp b c).isLE → (cmp a c).isLE
  swap : ∀ a ∈ l, ∀ b ∈ l, cmp b a = (cmp a b).swap

namespace TotalPreorderOn

theorem of_swap_of_trans (swap : ∀ a ∈ l, ∀ b ∈ l, cmp b a = (cmp a b).swap)
    (trans : ∀ a ∈ l, ∀ b ∈ l, ∀ c ∈ l, (cmp a b).isLE → (cmp b c).isLE → (cmp a c).isLE) :
    TotalPreorderOn cmp l := by
  have total : ∀ a ∈ l, ∀ b ∈ l, (cmp a b).isLE ∨ (cmp b a).isLE := by
    intro a hA b hB
    rw [swap a hA b hB]
    cases cmp a b <;> decide
  exact ⟨fun a mem => or_self_iff.1 (total a mem a mem), total, trans, swap⟩

theorem congr (preorder : TotalPreorderOn cmp l) (same : ∀ a ∈ l, ∀ b ∈ l, cmp' a b = cmp a b) :
    TotalPreorderOn cmp' l := by
  refine of_swap_of_trans (fun a hA b hB => ?_) fun a hA b hB c hC => ?_
  · rw [same a hA b hB, same b hB a hA]
    exact preorder.swap a hA b hB
  · rw [same a hA b hB, same b hB c hC, same a hA c hC]
    exact preorder.trans a hA b hB c hC

theorem subset (preorder : TotalPreorderOn cmp l) (sub : l' ⊆ l) : TotalPreorderOn cmp l' :=
  of_swap_of_trans (fun a hA b hB => preorder.swap a (sub hA) b (sub hB))
    fun a hA b hB c hC => preorder.trans a (sub hA) b (sub hB) c (sub hC)

theorem reversed (preorder : TotalPreorderOn cmp l) : TotalPreorderOn (fun a b => (cmp a b).swap) l := by
  refine of_swap_of_trans (fun a hA b hB => congrArg _ (preorder.swap a hA b hB)) fun a hA b hB c hC => ?_
  rw [← preorder.swap a hA b hB, ← preorder.swap b hB c hC, ← preorder.swap a hA c hC]
  exact fun first second => preorder.trans c hC b hB a hA second first

theorem reversed_iff : TotalPreorderOn (fun a b => (cmp a b).swap) l ↔ TotalPreorderOn cmp l := by
  refine ⟨fun preorder => ?_, reversed⟩
  refine preorder.reversed.congr fun a _ b _ => ?_
  rw [Ordering.swap_swap]

theorem comap_iff {cmp : B → B → Ordering} (weight : A → B) :
    TotalPreorderOn (fun a b => cmp (weight a) (weight b)) l ↔ TotalPreorderOn cmp (l.map weight) := by
  constructor
  · intro preorder
    refine of_swap_of_trans ?_ ?_
    · simpa only [List.forall_mem_map] using preorder.swap
    · simpa only [List.forall_mem_map] using preorder.trans
  · intro preorder
    have weighed {a : A} (mem : a ∈ l) : weight a ∈ l.map weight := List.mem_map.2 ⟨a, mem, rfl⟩
    exact of_swap_of_trans (fun a hA b hB => preorder.swap _ (weighed hA) _ (weighed hB))
      fun a hA b hB c hC => preorder.trans _ (weighed hA) _ (weighed hB) _ (weighed hC)

end TotalPreorderOn

/-- All that a sort by comparison promises. -/
structure Sorter (A : Type) where
  sort : (A → A → Ordering) → List A → Option (List A)
  perm : ∀ cmp l l', sort cmp l = some l' → l'.Perm l
  sorts : ∀ cmp l, TotalPreorderOn cmp l → ∃ l', sort cmp l = some l' ∧ l'.Pairwise fun a b => (cmp a b).isLE

theorem pairwise_mergeSort_attach (preorder : TotalPreorderOn cmp l) :
    ((l.attach.mergeSort fun a b => (cmp a.1 b.1).isLE).map Subtype.val).Pairwise fun a b => (cmp a b).isLE := by
  rw [List.pairwise_map]
  refine List.pairwise_mergeSort (fun a b c => preorder.trans a.1 a.2 b.1 b.2 c.1 c.2) (fun a b => ?_) _
  rw [Bool.or_eq_true]
  exact preorder.total a.1 a.2 b.1 b.2

/-- The merge sort of the standard library is one. -/
def Sorter.merge (A : Type) : Sorter A where
  sort cmp l := some ((l.attach.mergeSort fun a b => (cmp a.1 b.1).isLE).map Subtype.val)
  perm cmp l l' sorted := by
    obtain rfl := Option.some.inj sorted
    have perm := (List.mergeSort_perm l.attach fun a b => (cmp a.1 b.1).isLE).map Subtype.val
    rwa [List.attach_map_subtype_val] at perm
  sorts _ _ preorder := ⟨_, rfl, pairwise_mergeSort_attach preorder⟩
