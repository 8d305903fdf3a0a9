import Mathlib.Data.List.Sort
import Mathlib.Data.List.TakeWhile
import Mathlib.Order.Basic

/-!
# Ordered sets by a key

`OrdSet key` is a list kept strictly increasing in `key`: the contents of a B-tree map
whose keys compare by `key`. Two elements of the same key are one element for the tree: `insert`
then keeps the stored one, `remove` takes it out. `List.insertBy` is the sorted insertion
shared by every container that keeps such a list.
-/

namespace List

variable {α κ : Type} [LinearOrder κ] (key : α → κ)

/-- Strictly increasing keys. -/
def Increasing (l : List α) : Prop := l.Pairwise fun a b => key a < key b

/-- Put `x` before the first element that is not below it. -/
def insertBy (x : α) (l : List α) : List α :=
  l.takeWhile (fun e => key e < key x) ++ x :: l.dropWhile (fun e => key e < key x)

variable {key} {l l' : List α} {x : α}

theorem insertBy_perm (key : α → κ) (x : α) (l : List α) : (insertBy key x l).Perm (x :: l) := by
  rw [insertBy]
  nth_rewrite 3 [← l.takeWhile_append_dropWhile (p := fun e => key e < key x)]
  exact List.perm_middle

/-- A part of an increasing list is increasing. -/
theorem Increasing.sublist (h : Increasing key l) (s : l'.Sublist l) : Increasing key l' :=
  Pairwise.sublist s h

/-- Behind the first element that is not below a key none is. -/
theorem Increasing.le_of_mem_dropWhile (h : Increasing key l) {e : α}
    (he : e ∈ l.dropWhile fun e => key e < key x) : key x ≤ key e := by
  induction l with
  | nil => simp at he
  | cons a l ih =>
    obtain ⟨below, rest⟩ := pairwise_cons.1 h
    rw [dropWhile_cons] at he
    split at he
    · exact ih rest he
    · rename_i ha
      have ha : key x ≤ key a := by simpa using ha
      rcases mem_cons.1 he with rfl | he
      · exact ha
      · exact ha.trans (below e he).le

/-- Of an increasing list, `takeWhile` misses no element of a set closed downwards. -/
theorem Increasing.mem_takeWhile (h : Increasing key l) {p : α → Bool}
    (down : ∀ {a b}, key a < key b → p b = true → p a = true) {e : α} (he : e ∈ l) (holds : p e = true) :
    e ∈ l.takeWhile p := by
  induction l with
  | nil => cases he
  | cons a l ih =>
    obtain ⟨below, rest⟩ := pairwise_cons.1 h
    rcases mem_cons.1 he with rfl | later
    · rw [takeWhile_cons_of_pos holds]
      exact mem_cons_self
    · rw [takeWhile_cons_of_pos (down (below e later) holds)]
      exact mem_cons_of_mem a (ih rest later)

theorem Increasing.insertBy (h : Increasing key l) (new : ∀ e ∈ l, key e ≠ key x) :
    Increasing key (l.insertBy key x) := by
  have above : ∀ e ∈ l.dropWhile (fun e => key e < key x), key x < key e := fun e he =>
    lt_of_le_of_ne (h.le_of_mem_dropWhile he) (new e ((dropWhile_sublist _).mem he)).symm
  have under : ∀ e ∈ l.takeWhile (fun e => key e < key x), key e < key x := fun e he => by
    simpa using mem_takeWhile_imp he
  rw [Increasing, List.insertBy, pairwise_append, pairwise_cons]
  refine ⟨h.sublist (takeWhile_sublist _), ⟨above, h.sublist (dropWhile_sublist _)⟩, ?_⟩
  intro a ha b hb
  rcases mem_cons.1 hb with rfl | hb
  · exact under a ha
  · exact (under a ha).trans (above b hb)

/-- An increasing list is determined by its elements. -/
theorem Increasing.eq_of_perm (h : Increasing key l) (h' : Increasing key l') (p : l.Perm l') :
    l = l' :=
  p.eq_of_pairwise (fun _ _ _ _ hab hba => absurd hab hba.asymm) h h'

theorem Increasing.nodup_keys (h : Increasing key l) : (l.map key).Nodup := by
  rw [Nodup, pairwise_map]
  exact Pairwise.imp (fun hab => hab.ne) h

theorem increasing_mergeSort (nodup : (l.map key).Nodup) :
    Increasing key (l.mergeSort fun a b => key a ≤ key b) := by
  have le : (l.mergeSort fun a b => key a ≤ key b).Pairwise fun a b => decide (key a ≤ key b) = true :=
    pairwise_mergeSort
      (fun a b c hab hbc => by
        rw [decide_eq_true_eq] at hab hbc ⊢
        exact hab.trans hbc)
      (fun a b => by simpa using le_total (key a) (key b)) l
  have distinct : (l.mergeSort fun a b => key a ≤ key b).Pairwise fun a b => key a ≠ key b := by
    rw [← pairwise_map]
    exact ((mergeSort_perm l _).map key).nodup_iff.2 nodup
  exact le.imp₂ (fun a b hle hne => lt_of_le_of_ne (of_decide_eq_true hle) hne) distinct

/-- An image is inserted by the key of the image. -/
theorem map_insertBy {β : Type} (f : β → α) (x : β) (l : List β) :
    (l.map f).insertBy key (f x) = (l.insertBy (key ∘ f) x).map f := by
  simp only [List.insertBy, map_append, map_cons, takeWhile_map, dropWhile_map]
  rfl

theorem insertBy_cons (a : α) (l : List α) :
    (a :: l).insertBy key x = if key a < key x then a :: l.insertBy key x else x :: a :: l := by
  by_cases below : key a < key x <;> simp [List.insertBy, below]

/-- Of the first `n` elements and one more, the first `n` are those of all elements and this one. -/
theorem take_insertBy_take (n : Nat) (l : List α) :
    ((l.take n).insertBy key x).take n = (l.insertBy key x).take n := by
  induction l generalizing n with
  | nil => simp
  | cons a l ih =>
    cases n with
    | zero => simp
    | succ n =>
      rw [take_succ_cons, insertBy_cons, insertBy_cons]
      split
      · rw [take_succ_cons, take_succ_cons, ih]
      · cases n with
        | zero => simp
        | succ n => simp [take_take]

theorem insertBy_of_above (above : ∀ e ∈ l, key e < key x) : l.insertBy key x = l ++ [x] := by
  have all : ∀ e ∈ l, decide (key e < key x) = true := fun e mem => decide_eq_true (above e mem)
  rw [List.insertBy, takeWhile_eq_self_iff.2 all, dropWhile_eq_nil_iff.2 all]

end List

/-- A set kept strictly increasing in `key`. -/
structure OrdSet {α κ : Type} [LinearOrder κ] (key : α → κ) where
  items : List α
  sorted : items.Increasing key

namespace OrdSet

variable {α κ : Type} [LinearOrder κ] {key : α → κ}

instance [DecidableEq α] : DecidableEq (OrdSet key) := fun s t =>
  decidable_of_iff (s.items = t.items) ⟨fun h => by cases s; cases t; simp_all, fun h => by rw [h]⟩

/-- No elements. -/
def empty : OrdSet key := ⟨[], .nil⟩

/-- `BTreeSet::contains`. -/
def contains (s : OrdSet key) (x : α) : Bool := s.items.any fun e => key e = key x

/-- `BTreeSet::insert`: an element whose key is there changes nothing. -/
def insert (s : OrdSet key) (x : α) : OrdSet key :=
  if h : ∀ e ∈ s.items, key e ≠ key x then ⟨s.items.insertBy key x, s.sorted.insertBy h⟩ else s

/-- `BTreeSet::remove`. -/
def remove (s : OrdSet key) (x : α) : OrdSet key :=
  ⟨s.items.filter fun e => key e ≠ key x, s.sorted.sublist List.filter_sublist⟩

theorem insert_items {s : OrdSet key} {x : α} (h : ∀ e ∈ s.items, key e ≠ key x) :
    (s.insert x).items = s.items.insertBy key x := by
  rw [insert, dif_pos h]

/-- Removing takes out the one element of the same key. -/
theorem remove_items {s : OrdSet key} {x y : α} {a z : List α} (h : s.items = a ++ y :: z)
    (hy : key y = key x) : (s.remove x).items = a ++ z := by
  have nodup := s.sorted.nodup_keys
  rw [h, List.map_append, List.map_cons, List.nodup_middle, List.nodup_cons, hy] at nodup
  have others : ∀ e ∈ a ++ z, key e ≠ key x := by
    intro e he same
    refine nodup.1 ?_
    rw [← List.map_append]
    exact List.mem_map.2 ⟨e, he, same⟩
  have keep : (a ++ z).filter (fun e => key e ≠ key x) = a ++ z :=
    List.filter_eq_self.2 fun e he => by simpa using others e he
  show s.items.filter _ = a ++ z
  rw [h]
  simpa [hy] using keep

theorem mem_remove {s : OrdSet key} {x e : α} :
    e ∈ (s.remove x).items ↔ e ∈ s.items ∧ key e ≠ key x := by
  simp [remove]

/-- When keys tell elements apart, one is added. -/
theorem mem_insert {s : OrdSet key} {x e : α} (inj : Function.Injective key) :
    e ∈ (s.insert x).items ↔ e = x ∨ e ∈ s.items := by
  rw [insert]
  split
  · show e ∈ s.items.insertBy key x ↔ _
    rw [(List.insertBy_perm key x s.items).mem_iff, List.mem_cons]
  · rename_i there
    push Not at there
    obtain ⟨y, hy, same⟩ := there
    refine ⟨.inr, ?_⟩
    rintro (rfl | h)
    · rwa [← inj same]
    · exact h

theorem mem_iff_contains {s : OrdSet key} {x : α} :
    s.contains x = true ↔ ∃ e ∈ s.items, key e = key x := by
  simp [contains]

end OrdSet
