import Mathlib.Data.List.Nodup
import Mathlib.Data.List.Perm.Subperm
import NexradeCache.Lib.Text
import NexradeCache.Lib.Float64

/-!
# Values of the scripting language

Scripts are written in Lua. A table is a finite map: storing nil under a key removes the key. The converters of the
crate fill a table from a list, item `i` under the key `i + 1`, and read a table back as a list by asking for the keys
1, 2, 3 until one is missing. `sequence_keyed` says what comes back: the items before the first nil.
-/

namespace NexradeCache

namespace Scripting

open Utf8

/-- What a table is indexed with; a table that is a key is the same as no other key. -/
inductive LuaKey where
  | integer (n : Int)
  | number (d : F64)
  | boolean (b : Bool)
  | string (s : Bytes)
  | table
  deriving DecidableEq

/-- A value of Lua, as far as scripts exchange it with the server. A table is the list of its entries. -/
inductive LuaValue where
  | nil
  | boolean (b : Bool)
  | integer (n : Int64)
  | number (d : F64)
  | string (s : Bytes)
  | table (entries : List (LuaKey × LuaValue))
  /-- Functions, threads and user data. -/
  | other

abbrev LuaTable := List (LuaKey × LuaValue)

/-- What the interpreter and Rust do with floating-point numbers. -/
structure LuaNumbers where
  /-- `f as i64`. -/
  toI64 : F64 → Int64
  /-- The integer under which a number is stored as a key. -/
  whole : F64 → Option Int
  /-- The text of a number where a string is asked for. -/
  text : F64 → Bytes
  /-- `f.to_string()`. -/
  display : F64 → String

/-- No number is ever stored as an integer key or shown. -/
def LuaNumbers.plain : LuaNumbers := ⟨fun _ => 0, fun _ => none, fun _ => [], fun _ => ""⟩

/-- Keys a table refuses. -/
inductive LuaError where
  | nilIndex
  | nanIndex

namespace LuaValue

def isNil : LuaValue → Bool
  | nil => true
  | _ => false

/-- A value where a string is asked for. -/
def toText (nums : LuaNumbers) : LuaValue → Option String
  | string s => fromUtf8 s
  | integer n => some (toString n.toInt)
  | number d => fromUtf8 (nums.text d)
  | _ => none

/-- A value as a key. -/
def toKey (nums : LuaNumbers) : LuaValue → Except LuaError LuaKey
  | nil => .error .nilIndex
  | boolean b => .ok (.boolean b)
  | integer n => .ok (.integer n.toInt)
  | number d => if d.isNaN then .error .nanIndex else .ok (((nums.whole d).map .integer).getD (.number d))
  | string s => .ok (.string s)
  | table _ => .ok .table
  | other => .ok .table

end LuaValue

namespace LuaTable

def get (t : LuaTable) (k : LuaKey) : LuaValue := (t.lookup k).getD .nil

def set (t : LuaTable) (k : LuaKey) (v : LuaValue) : LuaTable :=
  let rest := t.filter fun e => k = .table || e.1 ≠ k
  if v.isNil then rest else rest ++ [(k, v)]

end LuaTable

/-- The loop of the converters: what is under `i`, `i + 1` and so on, up to the first key that is missing. A table of
`n` entries ends it within `n + 1` passes. -/
def sequence {α : Type} (t : List (LuaKey × α)) : Nat → Nat → List α
  | 0, _ => []
  | fuel + 1, i =>
    match t.lookup (.integer i) with
    | none => []
    | some v => v :: sequence t fuel (i + 1)

/-- The list a table holds. -/
def readList {α : Type} (t : List (LuaKey × α)) : List α := sequence t (t.length + 1) 1

/-! ## A list in a table -/

section Keyed

variable {α β : Type}

/-- Item `j` of a list under the key `i + j + 1`, nothing for an item that is missing. -/
def keyed (i : Nat) : List (Option α) → List (LuaKey × α)
  | [] => []
  | none :: items => keyed (i + 1) items
  | some a :: items => (.integer ↑(i + 1), a) :: keyed (i + 1) items

/-- The items before the first that is missing. -/
def present : List (Option α) → List α
  | some a :: items => a :: present items
  | _ => []

theorem key_of_mem_keyed {i : Nat} {items : List (Option α)} {e : LuaKey × α} (mem : e ∈ keyed i items) :
    ∃ j, i < j ∧ e.1 = .integer j := by
  induction items generalizing i with
  | nil => cases mem
  | cons item items ih =>
    cases item with
    | none =>
      obtain ⟨j, less, key⟩ := ih mem
      exact ⟨j, by omega, key⟩
    | some a =>
      rcases List.mem_cons.1 mem with rfl | mem
      · exact ⟨i + 1, by omega, rfl⟩
      · obtain ⟨j, less, key⟩ := ih mem
        exact ⟨j, by omega, key⟩

theorem lookup_keyed_of_le {i j : Nat} (before : j ≤ i) (items : List (Option α)) :
    (keyed i items).lookup (.integer j) = none := by
  rw [List.lookup_eq_none_iff]
  intro e mem
  obtain ⟨k, less, key⟩ := key_of_mem_keyed mem
  rw [key, bne_iff_ne]
  intro same
  have eq := LuaKey.integer.inj same
  omega

theorem lookup_keyed_string (s : Bytes) (i : Nat) (items : List (Option α)) :
    (keyed i items).lookup (.string s) = none := by
  rw [List.lookup_eq_none_iff]
  intro e mem
  obtain ⟨k, -, key⟩ := key_of_mem_keyed mem
  rw [key]
  rfl

theorem lookup_keyed_succ (i : Nat) (item : Option α) (items : List (Option α)) :
    (keyed i (item :: items)).lookup (.integer ↑(i + 1)) = item := by
  cases item with
  | none => exact lookup_keyed_of_le le_rfl items
  | some a => rw [keyed, List.lookup_cons_self]

theorem lookup_keyed_later {i j : Nat} (later : i + 1 < j) (item : Option α) (items : List (Option α)) :
    (keyed i (item :: items)).lookup (.integer j) = (keyed (i + 1) items).lookup (.integer j) := by
  cases item with
  | none => rfl
  | some a =>
    have other : (LuaKey.integer j == LuaKey.integer ↑(i + 1)) = false := by
      rw [beq_eq_false_iff_ne]
      intro same
      have eq := LuaKey.integer.inj same
      omega
    rw [keyed, List.lookup_cons, other]

theorem length_present_le (i : Nat) (items : List (Option α)) : (present items).length ≤ (keyed i items).length := by
  induction items generalizing i with
  | nil => exact le_rfl
  | cons item items ih =>
    cases item with
    | none => exact Nat.zero_le _
    | some a => exact Nat.succ_le_succ (ih (i + 1))

/-- A table that agrees with a list from key `i + 1` on is read up to the first gap. -/
theorem sequence_eq_present {t : List (LuaKey × α)} {i : Nat} {items : List (Option α)}
    (agree : ∀ j, i < j → t.lookup (.integer j) = (keyed i items).lookup (.integer j)) {fuel : Nat}
    (enough : (present items).length < fuel) : sequence t fuel (i + 1) = present items := by
  induction items generalizing i fuel with
  | nil =>
    obtain ⟨fuel, rfl⟩ := Nat.exists_eq_succ_of_ne_zero (Nat.ne_zero_of_lt enough)
    rw [sequence, agree (i + 1) (by omega)]
    rfl
  | cons item items ih =>
    obtain ⟨fuel, rfl⟩ := Nat.exists_eq_succ_of_ne_zero (Nat.ne_zero_of_lt enough)
    rw [sequence, agree (i + 1) (by omega), lookup_keyed_succ]
    cases item with
    | none => rfl
    | some a =>
      have rest (j : Nat) (later : i + 1 < j) :
          t.lookup (.integer j) = (keyed (i + 1) items).lookup (.integer j) := by
        rw [agree j (by omega), lookup_keyed_later later]
      show a :: _ = a :: _
      rw [ih rest (Nat.lt_of_succ_lt_succ enough)]

/-- The list read from a table that was filled from a list. -/
theorem readList_keyed (items : List (Option α)) : readList (keyed 0 items) = present items :=
  sequence_eq_present (fun _ _ => rfl) (Nat.lt_succ_of_le (length_present_le 0 items))

/-- Converting the values does not move the keys. -/
theorem map_keyed (f : α → β) (i : Nat) (items : List (Option α)) :
    (keyed i items).map (fun e => (e.1, f e.2)) = keyed i (items.map (Option.map f)) := by
  induction items generalizing i with
  | nil => rfl
  | cons item items ih =>
    cases item with
    | none => exact ih (i + 1)
    | some a => exact congrArg (_ :: ·) (ih (i + 1))

theorem lookup_map (f : α → β) (t : List (LuaKey × α)) (k : LuaKey) :
    (t.map fun e => (e.1, f e.2)).lookup k = (t.lookup k).map f := by
  induction t with
  | nil => rfl
  | cons e t ih =>
    rw [List.map_cons, List.lookup_cons, List.lookup_cons, ih]
    cases k == e.1 <;> rfl

theorem readList_map (f : α → β) (t : List (LuaKey × α)) :
    readList (t.map fun e => (e.1, f e.2)) = (readList t).map f := by
  have passes (fuel i : Nat) :
      sequence (t.map fun e => (e.1, f e.2)) fuel i = (sequence t fuel i).map f := by
    induction fuel generalizing i with
    | zero => rfl
    | succ fuel ih =>
      rw [sequence, sequence, lookup_map]
      cases t.lookup (.integer i) with
      | none => rfl
      | some v => exact congrArg (f v :: ·) (ih (i + 1))
  rw [readList, readList, List.length_map, passes]

end Keyed

/-- A value as an item: nil is none. -/
def LuaValue.item (v : LuaValue) : Option LuaValue := if v.isNil then none else some v

/-- The keys of a table that is being filled. -/
def Filled (t : LuaTable) (i : Nat) : Prop := ∀ e ∈ t, ∃ j, j ≤ i ∧ e.1 = .integer ↑j

/-- One more item goes behind the items before it. -/
theorem LuaTable.set_next {t : LuaTable} {i : Nat} (filled : Filled t i) (v : LuaValue) : t.set (.integer ↑(i + 1)) v = t ++ keyed i [v.item] := by
  have kept : t.filter (fun e => LuaKey.integer ↑(i + 1) = .table || e.1 ≠ .integer ↑(i + 1)) = t := by
    rw [List.filter_eq_self]
    intro e mem
    obtain ⟨j, le, key⟩ := filled e mem
    have other : e.1 ≠ .integer ↑(i + 1) := by
      rw [key]
      intro same
      have eq := LuaKey.integer.inj same
      omega
    simpa using other
  unfold set
  dsimp only
  rw [kept, LuaValue.item]
  split
  · exact (List.append_nil t).symm
  · rfl

theorem Filled.next {t : LuaTable} {i : Nat} (filled : Filled t i) (v : LuaValue) :
    Filled (t ++ keyed i [v.item]) (i + 1) := by
  intro e mem
  rcases List.mem_append.1 mem with mem | mem
  · obtain ⟨j, le, key⟩ := filled e mem
    exact ⟨j, by omega, key⟩
  · rw [LuaValue.item] at mem
    split at mem
    · cases mem
    · exact ⟨i + 1, le_rfl, by rw [List.mem_singleton.1 mem]⟩

theorem keyed_cons (i : Nat) (item : Option LuaValue) (items : List (Option LuaValue)) :
    keyed i (item :: items) = keyed i [item] ++ keyed (i + 1) items := by
  cases item <;> rfl

/-! ## Tables as lists -/

section Lists

variable {α : Type} {t : List (LuaKey × α)} {items : List (Option α)}

theorem lookup_keyed_present (i : Nat) {j : Nat} (inside : j < (present items).length) :
    ((keyed i items).lookup (.integer ↑(i + j + 1))).isSome = true := by
  induction items generalizing i j with
  | nil => cases inside
  | cons item items ih =>
    cases item with
    | none => cases inside
    | some a =>
      cases j with
      | zero => rw [Nat.add_zero, lookup_keyed_succ]; rfl
      | succ j =>
        rw [lookup_keyed_later (by omega), show i + (j + 1) + 1 = i + 1 + j + 1 by omega]
        exact ih (i + 1) (Nat.lt_of_succ_lt_succ inside)

/-- A table that agrees with a list is read as the items before its first gap. -/
theorem readList_of_agree (agree : ∀ j : Nat, 0 < j → t.lookup (.integer ↑j) = (keyed 0 items).lookup (.integer ↑j)) :
    readList t = present items := by
  have found (j : Nat) (inside : j < (present items).length) : LuaKey.integer ↑(j + 1) ∈ t.map Prod.fst := by
    have here : ((keyed 0 items).lookup (.integer ↑(0 + j + 1))).isSome = true := lookup_keyed_present 0 inside
    rw [Nat.zero_add, ← agree (j + 1) (Nat.succ_pos j)] at here
    by_contra absent
    rw [List.lookup_eq_none_iff.2 fun e mem => ?_] at here
    · cases here
    · rw [bne_iff_ne]
      rintro same
      exact absent (same ▸ List.mem_map_of_mem mem)
  have few : (present items).length ≤ t.length := by
    have distinct : ((List.range (present items).length).map fun j : Nat => LuaKey.integer ↑(j + 1)).Nodup := by
      refine List.nodup_range.map fun a b same => ?_
      have eq := LuaKey.integer.inj same
      omega
    have within : (List.range (present items).length).map (fun j : Nat => LuaKey.integer ↑(j + 1)) ⊆
        t.map Prod.fst := by
      intro k mem
      obtain ⟨j, inside, rfl⟩ := List.mem_map.1 mem
      exact found j (List.mem_range.1 inside)
    have below := (List.subperm_of_subset distinct within).length_le
    rwa [List.length_map, List.length_map, List.length_range] at below
  exact sequence_eq_present agree (Nat.lt_succ_of_le few)

theorem present_map_some (l : List α) : present (l.map some) = l := by
  induction l with
  | nil => rfl
  | cons a l ih => rw [List.map_cons, present, ih]

/-- The table is the list, key by key. -/
def Lists (t : List (LuaKey × α)) (l : List α) : Prop := ∀ k, t.lookup k = (keyed 0 (l.map some)).lookup k

theorem Lists.readList {l : List α} (lists : Lists t l) : readList t = l := by
  rw [readList_of_agree fun j _ => lists (.integer ↑j), present_map_some]

end Lists

end Scripting

end NexradeCache
