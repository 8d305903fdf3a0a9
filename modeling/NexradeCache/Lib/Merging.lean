import Mathlib.Data.List.Forall2
import Mathlib.Data.List.Perm.Basic

/-!
# Merging finite maps

Some of many finite maps have a value for a key. `union` reduces these values with an operation, in the order of the
maps; `inter` does where all maps have one, and `diff` keeps the value of the first where no other has one. A loop that
takes one map after the other has the union of those behind it (`union_concat`) or what they leave of the first
(`diff_cons_cons`), and one that follows a key through the
maps has its value in the intersection (`inter_cons`). The order of the maps does not matter if the operation is
commutative and associative, or if it becomes so under a function of the values (`union_map_perm`).
-/

variable {α β γ : Type}

namespace Merging

/-- One more value. -/
def join (f : β → β → β) (acc : Option β) (b : β) : β :=
  match acc with
  | none => b
  | some a => f a b

/-- One element for a list of them; none for the empty list. -/
def reduce (f : β → β → β) (l : List β) : Option β := l.foldl (fun acc b => some (join f acc b)) none

/-- The values that there are. -/
def values (l : List (α → Option β)) (x : α) : List β := l.filterMap fun m => m x

/-- What the maps have for a key, joined in their order. -/
def union (f : β → β → β) (l : List (α → Option β)) (x : α) : Option β := reduce f (values l x)

/-- The same, for a key that all maps have. -/
def inter (f : β → β → β) (l : List (α → Option β)) (x : α) : Option β :=
  if ∀ m ∈ l, (m x).isSome then reduce f (values l x) else none

/-- The first without the keys of the others. -/
def diff : List (α → Option β) → α → Option β
  | [], _ => none
  | m :: l, x => if ∀ m' ∈ l, m' x = none then m x else none

/-- A key through the maps, as long as they have it. -/
def along (f : β → β → β) : List (α → Option β) → α → β → Option β
  | [], _, acc => some acc
  | m :: l, x, acc => match m x with
    | none => none
    | some b => along f l x (f acc b)

variable {f : β → β → β} {l l' : List (α → Option β)} {m : α → Option β} {x : α}

theorem union_concat : union f (l ++ [m]) x =
    match m x with
    | none => union f l x
    | some b => some (join f (union f l x) b) := by
  unfold union reduce values
  rw [List.filterMap_append, List.foldl_append]
  cases there : m x <;> simp [there]

/-- Joining yields something as soon as there is something. -/
theorem foldl_isSome (l : List β) (acc : Option β) :
    (l.foldl (fun acc b => some (join f acc b)) acc).isSome ↔ acc.isSome ∨ l ≠ [] := by
  induction l generalizing acc with
  | nil => simp
  | cons b l ih => simp [ih]

/-- The keys of an intersection are in every map. -/
theorem inter_isSome (nonempty : l ≠ []) : (inter f l x).isSome ↔ ∀ m ∈ l, (m x).isSome := by
  unfold inter
  split
  · rename_i all
    obtain ⟨m, l, rfl⟩ := List.exists_cons_of_ne_nil nonempty
    obtain ⟨b, here⟩ := Option.isSome_iff_exists.1 (all m (.head _))
    have some_ : values (m :: l) x ≠ [] := by simp [values, here]
    rw [reduce, foldl_isSome]
    exact ⟨fun _ => all, fun _ => .inr some_⟩
  · rename_i none
    simpa using none

theorem inter_of_empty (there : (fun _ => none) ∈ l) : inter f l = fun _ => none := by
  funext x
  exact if_neg fun all => by simpa using all _ there

theorem reduce_cons (b : β) (l : List β) : reduce f (b :: l) = some (l.foldl f b) := by
  have run : ∀ a, l.foldl (fun acc b => some (join f acc b)) (some a) = some (l.foldl f a) := by
    induction l with
    | nil => exact fun _ => rfl
    | cons c l ih => exact fun a => ih (f a c)
  exact run b

/-- Going along the maps gives up at the first that lacks the key, and folds all values otherwise. -/
theorem along_eq (acc : β) : along f l x acc =
    if ∀ m ∈ l, (m x).isSome then some ((values l x).foldl f acc) else none := by
  induction l generalizing acc with
  | nil => simp [along, values]
  | cons m l ih =>
    rw [along]
    cases there : m x with
    | none => simp [there]
    | some b =>
      dsimp only
      rw [ih]
      simp [there, values]

theorem inter_cons : inter f (m :: l) x =
    match m x with
    | none => none
    | some a => along f l x a := by
  unfold inter
  cases there : m x with
  | none => simp [there]
  | some a =>
    dsimp only
    rw [along_eq]
    simp [there, values, reduce_cons]

theorem diff_singleton (m : α → Option β) : diff [m] = m := by
  funext x
  simp [diff]

theorem diff_cons_cons (m m' : α → Option β) (l : List (α → Option β)) :
    diff (m :: m' :: l) = diff ((fun x => if (m' x).isSome then none else m x) :: l) := by
  funext x
  simp only [diff, List.forall_mem_cons]
  cases m' x <;> simp

theorem diff_cons_empty (m : α → Option β) (l : List (α → Option β)) :
    diff (m :: (fun _ => none) :: l) = diff (m :: l) := by
  rw [diff_cons_cons]
  rfl

/-! ## The order of the maps -/

/-- The order of the elements does not matter to an operation that is commutative and associative. -/
theorem reduce_perm {l l' : List β} (comm : ∀ a b, f a b = f b a) (assoc : ∀ a b c, f (f a b) c = f a (f b c))
    (perm : l'.Perm l) : reduce f l' = reduce f l := by
  have swaps : RightCommutative fun (acc : Option β) b => some (join f acc b) := by
    refine ⟨fun acc b c => ?_⟩
    cases acc with
    | none => exact congrArg some (comm b c)
    | some a =>
      have swapped : f (f a b) c = f (f a c) b := by rw [assoc, comm b c, ← assoc]
      exact congrArg some swapped
  exact perm.foldl_eq _

theorem reduce_map {f' : γ → γ → γ} {g : β → γ} (hom : ∀ a b, g (f a b) = f' (g a) (g b)) (l : List β) :
    (reduce f l).map g = reduce f' (l.map g) := by
  cases l with
  | nil => rfl
  | cons b l =>
    rw [List.map_cons, reduce_cons, reduce_cons, Option.map_some]
    congr 1
    induction l generalizing b with
    | nil => rfl
    | cons c l ih => rw [List.map_cons, List.foldl_cons, List.foldl_cons, ih, hom]

/-- The values of a key come in the order of the maps. -/
theorem values_perm (perm : l'.Perm l) (x : α) : (values l' x).Perm (values l x) := perm.filterMap _

section Image

variable {f' : γ → γ → γ} {g : β → γ} (hom : ∀ a b, g (f a b) = f' (g a) (g b)) (comm : ∀ a b, f' a b = f' b a)
  (assoc : ∀ a b c, f' (f' a b) c = f' a (f' b c)) (perm : l'.Perm l)

include hom comm assoc perm

/-- What a view of the values commutes with does not depend on the order of the maps. -/
theorem reduce_values_map_perm (x : α) : (reduce f (values l' x)).map g = (reduce f (values l x)).map g := by
  rw [reduce_map hom, reduce_map hom]
  exact reduce_perm comm assoc ((values_perm perm x).map g)

theorem union_map_perm (x : α) : (union f l' x).map g = (union f l x).map g :=
  reduce_values_map_perm hom comm assoc perm x

theorem inter_map_perm (x : α) : (inter f l' x).map g = (inter f l x).map g := by
  unfold inter
  simp only [perm.mem_iff]
  split
  · exact reduce_values_map_perm hom comm assoc perm x
  · rfl

end Image

end Merging
