import Mathlib.Algebra.BigOperators.Group.List.Basic
import Mathlib.Data.Finmap
import Mathlib.Logic.Function.Basic

/-!
# Hash maps and index sets

A hash map is an `AList` whose iteration order is not part of its value: code that
walks one is given an `IterOrder`, an arbitrary reordering. `ListsMap l m` says that the
list of pairs `l` holds the finite map `m` with one pair for each key; it is closed under
reordering, removal of a pair and adding a pair under a new key, so a container that keeps its
pairs in any order is related to the map it stands for by `ListsMap` alone.

`IndexSet` is a set kept in a vector: `insert` appends, `swapRemoveIndex` moves the last
element into the hole.
-/

/-- An iteration order: some reordering of every list. -/
structure IterOrder (α : Type) where
  order : List α → List α
  perm : ∀ l, (order l).Perm l

/-- Iterate in storage order. -/
def IterOrder.asStored {α : Type} : IterOrder α := ⟨id, fun _ => .refl _⟩

/-! ## Finite maps as lists of pairs -/

section ListsMap

variable {α β : Type} [DecidableEq α]

/-- `l` holds the finite map `m`, one pair for each key. -/
structure ListsMap (l : List (α × β)) (m : α → Option β) : Prop where
  nodup : (l.map Prod.fst).Nodup
  mem : ∀ k v, (k, v) ∈ l ↔ m k = some v

namespace ListsMap

variable {l l' a z : List (α × β)} {m : α → Option β} {k : α} {v : β}

omit [DecidableEq α] in
theorem nil : ListsMap ([] : List (α × β)) fun _ => none := ⟨by simp, by simp⟩

omit [DecidableEq α] in
theorem perm (h : ListsMap l m) (p : l'.Perm l) : ListsMap l' m :=
  ⟨(p.map Prod.fst).nodup_iff.2 h.nodup, fun k v => p.mem_iff.trans (h.mem k v)⟩

omit [DecidableEq α] in
/-- Two lists of one map differ in order only. -/
theorem perm_of (h : ListsMap l m) (h' : ListsMap l' m) : l.Perm l' :=
  (List.perm_ext_iff_of_nodup (.of_map _ h.nodup) (.of_map _ h'.nodup)).2
    fun e => (h.mem e.1 e.2).trans (h'.mem e.1 e.2).symm

omit [DecidableEq α] in
theorem map_unique {m' : α → Option β} (h : ListsMap l m) (h' : ListsMap l m') : m = m' := by
  funext k
  ext v
  rw [← h.mem, h'.mem]

omit [DecidableEq α] in
theorem absent (h : ListsMap l m) (hk : m k = none) : ∀ e ∈ l, e.1 ≠ k := by
  rintro ⟨k', v⟩ he rfl
  rw [h.mem, hk] at he
  cases he

omit [DecidableEq α] in
theorem split (h : ListsMap l m) (hk : m k = some v) :
    ∃ a z, l = a ++ (k, v) :: z ∧ (∀ e ∈ a, e.1 ≠ k) ∧ ∀ e ∈ z, e.1 ≠ k := by
  obtain ⟨a, z, rfl⟩ := List.append_of_mem ((h.mem k v).2 hk)
  have nodup := h.nodup
  rw [List.map_append, List.map_cons, List.nodup_middle, List.nodup_cons] at nodup
  refine ⟨a, z, rfl, ?_, ?_⟩
  · rintro e he rfl
    exact nodup.1 (List.mem_append_left _ (List.mem_map.2 ⟨e, he, rfl⟩))
  · rintro e he rfl
    exact nodup.1 (List.mem_append_right _ (List.mem_map.2 ⟨e, he, rfl⟩))

omit [DecidableEq α] in
theorem map_values {γ : Type} (h : ListsMap l m) (f : β → γ) :
    ListsMap (l.map fun e => (e.1, f e.2)) fun k => (m k).map f := by
  refine ⟨?_, fun k v => ?_⟩
  · rw [List.map_map]
    exact h.nodup
  · rw [List.mem_map, Option.map_eq_some_iff]
    constructor
    · rintro ⟨⟨k', w⟩, he, e⟩
      cases e
      exact ⟨w, (h.mem _ _).1 he, rfl⟩
    · rintro ⟨w, hw, rfl⟩
      exact ⟨(k, w), (h.mem _ _).2 hw, rfl⟩

omit [DecidableEq α] in
theorem of_nodup [BEq α] [LawfulBEq α] (nodup : (l.map Prod.fst).Nodup) : ListsMap l fun k => l.lookup k := by
  refine ⟨nodup, fun k v => ?_⟩
  induction l with
  | nil => simp
  | cons e l ih =>
    obtain ⟨x, w⟩ := e
    rw [List.map_cons, List.nodup_cons] at nodup
    rw [List.lookup_cons, List.mem_cons, Prod.mk.injEq]
    by_cases same : k = x
    · subst same
      have absent : (k, v) ∉ l := fun mem => nodup.1 (List.mem_map.2 ⟨(k, v), mem, rfl⟩)
      simp [absent, eq_comm]
    · have other : (k == x) = false := by simpa using same
      rw [other, ih nodup.2]
      simp [same]

theorem remove (h : ListsMap (a ++ (k, v) :: z) m) : ListsMap (a ++ z) (Function.update m k none) := by
  have hk : m k = some v := (h.mem k v).1 (by simp)
  have nodup := h.nodup
  rw [List.map_append, List.map_cons, List.nodup_middle, List.nodup_cons, ← List.map_append] at nodup
  refine ⟨nodup.2, fun k' v' => ?_⟩
  have whole := h.mem k' v'
  by_cases hkk : k' = k
  · subst hkk
    have gone : (k', v') ∉ a ++ z := fun he => nodup.1 (List.mem_map.2 ⟨_, he, rfl⟩)
    simpa using gone
  · rw [Function.update_of_ne hkk, ← whole]
    simp [hkk]

theorem append_new (h : ListsMap l m) (hk : m k = none) :
    ListsMap (l ++ [(k, v)]) (Function.update m k (some v)) := by
  have new : k ∉ l.map Prod.fst := by
    rw [List.mem_map]
    rintro ⟨e, he, rfl⟩
    exact h.absent hk e he rfl
  refine ⟨?_, fun k' v' => ?_⟩
  · rw [List.map_append, List.map_cons, List.map_nil, List.nodup_append_comm]
    exact List.nodup_cons.2 ⟨new, h.nodup⟩
  · rw [List.mem_append, List.mem_singleton, h.mem, Prod.mk.injEq]
    by_cases hkk : k' = k
    · subst hkk
      simp [hk, eq_comm]
    · simp [hkk]

/-- Replace the value of a key and move its pair to the end. -/
theorem replace_last (h : ListsMap (a ++ (k, v) :: z) m) (w : β) :
    ListsMap (a ++ z ++ [(k, w)]) (Function.update m k (some w)) := by
  have := h.remove.append_new (k := k) (v := w) (by simp)
  rwa [Function.update_idem] at this

theorem replace (h : ListsMap (a ++ (k, v) :: z) m) (w : β) :
    ListsMap (a ++ (k, w) :: z) (Function.update m k (some w)) := by
  refine (h.replace_last w).perm ?_
  rw [List.append_assoc]
  exact (List.perm_append_singleton (k, w) z).symm.append_left a

end ListsMap

end ListsMap

/-! ## Hash maps -/

namespace AList

variable {α β : Type} [DecidableEq α]

/-- The key-value pairs in storage order. -/
def pairs (m : AList fun _ : α => β) : List (α × β) := m.entries.map fun e => (e.1, e.2)

theorem lists_pairs (m : AList fun _ : α => β) : ListsMap m.pairs fun k => m.lookup k := by
  refine ⟨?_, fun k v => ?_⟩
  · rw [pairs, List.map_map]
    exact m.nodupKeys
  · rw [← Option.mem_def, mem_lookup_iff, pairs, List.mem_map]
    constructor
    · rintro ⟨⟨k', v'⟩, he, e⟩
      cases e
      exact he
    · exact fun he => ⟨⟨k, v⟩, he, rfl⟩

theorem lookup_insert_update (m : AList fun _ : α => β) (k : α) (v : β) :
    (fun k' => (m.insert k v).lookup k') = Function.update (fun k' => m.lookup k') k (some v) := by
  funext k'
  by_cases hk : k' = k
  · subst hk
    simp
  · rw [lookup_insert_ne hk, Function.update_of_ne hk]

theorem lookup_erase_update (m : AList fun _ : α => β) (k : α) :
    (fun k' => (m.erase k).lookup k') = Function.update (fun k' => m.lookup k') k none := by
  funext k'
  by_cases hk : k' = k
  · subst hk
    simp
  · rw [lookup_erase_ne hk, Function.update_of_ne hk]

theorem pairs_insert (m : AList fun _ : α => β) (k : α) (v : β) :
    (m.insert k v).pairs = (k, v) :: (m.erase k).pairs := by
  simp [pairs, entries_insert, erase]

theorem pairs_erase_of_absent {m : AList fun _ : α => β} {k : α} (h : m.lookup k = none) :
    (m.erase k).pairs = m.pairs := by
  have rest : (m.erase k).entries = m.entries := List.kerase_of_notMem_keys (lookup_eq_none.1 h)
  rw [pairs, rest, pairs]

/-- A stored pair is the one `erase` takes out. -/
theorem pairs_perm_erase {m : AList fun _ : α => β} {k : α} {v : β} (h : m.lookup k = some v) :
    m.pairs.Perm ((k, v) :: (m.erase k).pairs) := by
  have hk : k ∈ m.entries.keys := lookup_isSome.1 (by simp [h])
  obtain ⟨w, a, z, -, whole, (rest : (m.erase k).entries = a ++ z)⟩ := List.exists_of_kerase hk
  have hw : m.lookup k = some w := mem_lookup_iff.2 (by simp [whole])
  rw [h] at hw
  cases hw
  rw [pairs, whole, pairs, rest]
  simp

end AList

/-! ## Index sets -/

/-- A set kept in a vector, each element once. -/
structure IndexSet (α : Type) where
  items : List α
  nodup : items.Nodup
deriving DecidableEq

namespace List

variable {α : Type}

/-- `swap_remove`: the last element takes the place of the one at `i`. -/
def swapRemoveAt (l : List α) (i : Nat) : List α :=
  match l.getLast? with
  | none => []
  | some last => (l.set i last).dropLast

theorem perm_swapRemoveAt {l : List α} {i : Nat} {x : α} (h : l[i]? = some x) :
    l.Perm (x :: l.swapRemoveAt i) := by
  obtain ⟨hi, rfl⟩ := List.getElem?_eq_some_iff.1 h
  rcases List.eq_nil_or_concat' l with rfl | ⟨m, y, rfl⟩
  · simp at hi
  rw [swapRemoveAt, List.getLast?_concat]
  by_cases last : i = m.length
  · subst last
    simp
  · have him : i < m.length := by simp at hi; omega
    have hole : (m ++ [y]).set i y = m.set i y ++ [y] := List.set_append_left i y him
    simp only [hole, List.dropLast_concat, List.getElem_append_left him, List.set_eq_take_cons_drop y him]
    calc (m ++ [y]).Perm (y :: m) := List.perm_append_singleton y m
      _ = y :: (m.take i ++ m[i] :: m.drop (i + 1)) := by rw [← List.drop_eq_getElem_cons, List.take_append_drop]
      _ |>.Perm (y :: m[i] :: (m.take i ++ m.drop (i + 1))) := List.perm_middle.cons y
      _ |>.Perm (m[i] :: y :: (m.take i ++ m.drop (i + 1))) := .swap _ _ _
      _ |>.Perm (m[i] :: (m.take i ++ y :: m.drop (i + 1))) := List.perm_middle.symm.cons _

end List

namespace IndexSet

variable {α : Type} [DecidableEq α]

def empty : IndexSet α := ⟨[], .nil⟩

def contains (s : IndexSet α) (x : α) : Bool := x ∈ s.items

/-- Append a new element; whether it was new. -/
def insert (s : IndexSet α) (x : α) : IndexSet α × Bool :=
  if h : x ∈ s.items then (s, false)
  else (⟨s.items ++ [x], by
    rw [List.nodup_append_comm]
    exact List.nodup_cons.2 ⟨h, s.nodup⟩⟩, true)

omit [DecidableEq α] in
theorem nodup_swapRemoveAt (s : IndexSet α) (i : Nat) : (s.items.swapRemoveAt i).Nodup := by
  cases h : s.items[i]? with
  | some x =>
    exact (List.nodup_cons.1 ((List.perm_swapRemoveAt h).nodup_iff.1 s.nodup)).2
  | none =>
    rw [List.swapRemoveAt]
    split
    · exact .nil
    · rw [List.set_eq_of_length_le (List.getElem?_eq_none_iff.1 h)]
      exact s.nodup.sublist (List.dropLast_sublist _)

def swapRemoveIndex (s : IndexSet α) (i : Nat) : Option (IndexSet α × α) :=
  s.items[i]?.map fun x => (⟨s.items.swapRemoveAt i, s.nodup_swapRemoveAt i⟩, x)

/-- Take an element out; whether it was there. -/
def swapRemove (s : IndexSet α) (x : α) : IndexSet α × Bool :=
  match s.items.idxOf? x with
  | none => (s, false)
  | some i => (⟨s.items.swapRemoveAt i, s.nodup_swapRemoveAt i⟩, true)

theorem insert_new {s : IndexSet α} {x : α} (h : x ∉ s.items) :
    (s.insert x).1.items = s.items ++ [x] ∧ (s.insert x).2 = true := by
  rw [insert, dif_neg h]
  exact ⟨rfl, rfl⟩

theorem swapRemove_absent {s : IndexSet α} {x : α} (h : x ∉ s.items) :
    s.swapRemove x = (s, false) := by
  rw [swapRemove, List.idxOf?_eq_none_iff.2 h]

theorem swapRemove_of_mem {s : IndexSet α} {x : α} (h : x ∈ s.items) :
    s.items.Perm (x :: (s.swapRemove x).1.items) ∧ (s.swapRemove x).2 = true := by
  rw [swapRemove]
  split
  · rename_i hx
    exact absurd h (List.idxOf?_eq_none_iff.1 hx)
  · rename_i i hx
    obtain ⟨hi, at_i, -⟩ := List.idxOf?_eq_some_iff.1 hx
    exact ⟨List.perm_swapRemoveAt (List.getElem?_eq_some_iff.2 ⟨hi, by simpa using at_i⟩), rfl⟩

/-- Collecting new elements appends them in order. -/
theorem foldl_insert_items (l : List α) (s : IndexSet α) (nodup : l.Nodup) (new : ∀ x ∈ l, x ∉ s.items) :
    (l.foldl (fun t x => (t.insert x).1) s).items = s.items ++ l := by
  induction l generalizing s with
  | nil => simp
  | cons x l ih =>
    rw [List.nodup_cons] at nodup
    obtain ⟨items, -⟩ := insert_new (new x (by simp))
    rw [List.foldl_cons, ih _ nodup.2, items, List.append_assoc, List.singleton_append]
    intro y hy
    rw [items, List.mem_append, List.mem_singleton, not_or]
    exact ⟨new y (by simp [hy]), fun e => nodup.1 (e ▸ hy)⟩

end IndexSet
