import Mathlib.Order.WithBot
import NexradeCache.Lib.Stamp
import NexradeCache.Store.Index
import NexradeCache.Store.Views

/-!
# The write version of a key as a stamp

`key_version` is the sum of two counters, the slot of the key and the counter of its integer cell,
and it is zero again once the slot is dropped. `View.stamp` is the same sum without the wrap of
`u64`, with a dropped slot above every number: the moves of `Store/Views` then either let the
stamp grow, or lose one of the counters. `View.Within` bounds both counters by the number of writes
so far, which is what keeps the real sum from wrapping.
-/

namespace NexradeCache

open Stamp

/-- The counter `key_version` adds for this entry. -/
def Entry.liveCell (now : Nat) (e : Entry) : Nat := if e.isExpired now then 0 else e.value.cellVersion

theorem Entry.liveCell_of_live {now : Nat} {e : Entry} (live : e.isExpired now = false) :
    e.liveCell now = e.value.cellVersion := by
  rw [Entry.liveCell, live]
  rfl

theorem Entry.liveCell_of_expired {now : Nat} {e : Entry} (expired : e.isExpired now = true) :
    e.liveCell now = 0 := by
  rw [Entry.liveCell, expired]
  rfl

/-- The value without the counter of its cell. -/
def DataType.content : DataType → DataType
  | .int cell => .int (.new cell.value)
  | d => d

namespace View

variable {now : Nat} {v v' : View} {e e' : Entry}

/-- The cell that a reader of the key sees. -/
def liveCell (now : Nat) (v : View) : Nat :=
  match v.entry with
  | some e => e.liveCell now
  | none => 0

/-- What `WATCH` protects: the value and the deadline. -/
def content (v : View) : Option (DataType × Option Nat) := v.entry.map fun e => (e.value.content, e.expiry)

/-- What WATCH reads of a key: the slot and the cell, the slot first. -/
def stamp (now : Nat) (v : View) : WithTop Nat :=
  match v.slot with
  | some n => ((n + v.liveCell now : Nat) : WithTop Nat)
  | none => ⊤

/-- The counters of a key: slots of present keys up to `S`, of absent keys up to `A`, cells up to
`C`; a slot is never zero, and a present key has one. -/
structure Within (S A C : Nat) (v : View) : Prop where
  slotted : v.entry ≠ none → v.slot ≠ none
  positive : ∀ n, v.slot = some n → 1 ≤ n
  present : v.entry ≠ none → ∀ n, v.slot = some n → n ≤ S
  absent : ∀ n, v.slot = some n → n ≤ A
  cell : ∀ e, v.entry = some e → e.value.cellVersion ≤ C

variable {S A C S' A' C' : Nat}

theorem Within.mono (h : v.Within S A C) (hS : S ≤ S') (hA : A ≤ A') (hC : C ≤ C') :
    v.Within S' A' C' where
  slotted := h.slotted
  positive := h.positive
  present there n slot := (h.present there n slot).trans hS
  absent n slot := (h.absent n slot).trans hA
  cell e he := (h.cell e he).trans hC

/-- A key that was never written is within all bounds. -/
theorem within_gone : gone.Within S A C := by
  constructor <;> simp [gone]

theorem Within.settles (h : v.Within S A C) (s : Settles v v') : v'.Within S A C := by
  rcases s with rfl | ⟨-, rfl⟩
  · exact h
  · exact within_gone

theorem Within.removed (h : v.Within S (S + 1) C) (small : S + 1 < 2 ^ 64) :
    v.removed.Within S (S + 1) C := by
  unfold View.removed
  cases he : v.entry with
  | none => exact h
  | some e =>
    constructor
    · simp
    · intro n slot
      obtain ⟨m, hm, rfl⟩ := Option.map_eq_some_iff.1 slot
      have := h.present (by simp [he]) m hm
      simp only [wrappingSucc]
      omega
    · simp
    · intro n slot
      obtain ⟨m, hm, rfl⟩ := Option.map_eq_some_iff.1 slot
      have := h.present (by simp [he]) m hm
      simp only [wrappingSucc]
      omega
    · simp

/-- A write raises the slot, and perhaps the cell. -/
theorem Within.written (h : v.Within S A C) (small : A + 1 < 2 ^ 64) (cell : e.value.cellVersion ≤ C) :
    (v.written e).Within (A + 1) (A + 1) C := by
  have bumped : 1 ≤ bump v.slot ∧ bump v.slot ≤ A + 1 := by
    cases slot : v.slot with
    | none => simp [bump]
    | some n =>
      have := h.absent n slot
      simp only [bump, wrappingSucc]
      omega
  constructor
  · simp [View.written]
  · intro n slot; cases slot; exact bumped.1
  · intro _ n slot; cases slot; exact bumped.2
  · intro n slot; cases slot; exact bumped.2
  · intro e he; cases he; exact cell

/-- Over an absent key `insert` starts the slot again, over a present one it bumps it. -/
theorem Within.inserted (h : v.Within S (S + 1) C) (small : S + 1 < 2 ^ 64)
    (cell : e.value.cellVersion ≤ C) : (v.inserted e).Within (S + 1) (S + 1) C := by
  have slot : ∃ n, v.inserted e = ⟨some e, some n⟩ ∧ 1 ≤ n ∧ n ≤ S + 1 := by
    cases he : v.entry with
    | none => exact ⟨1, by simp [View.inserted, he], le_rfl, by omega⟩
    | some old =>
      refine ⟨bump v.slot, by simp [View.inserted, he], ?_⟩
      cases slot : v.slot with
      | none => simp [bump]
      | some n =>
        have := h.present (by simp [he]) n slot
        simp only [bump, wrappingSucc]
        omega
  obtain ⟨n, shape, low, high⟩ := slot
  rw [shape]
  constructor
  · simp
  · intro m slot; cases slot; exact low
  · intro _ m slot; cases slot; exact high
  · intro m slot; cases slot; exact high
  · intro e he; cases he; exact cell

theorem Within.entry (h : v.Within S A C) (there : v.entry = some e) (cell : e'.value.cellVersion ≤ C') :
    (View.mk (some e') v.slot).Within S A C' where
  slotted _ := h.slotted (by simp [there])
  positive := h.positive
  present _ := h.present (by simp [there])
  absent := h.absent
  cell e he := by cases he; exact cell

theorem covers_settles (s : Settles v v') : Covers (stamp now) content v v' := by
  rcases s with rfl | ⟨absent, rfl⟩
  · exact .refl _
  · exact .of_same le_top (by simp [content, absent, gone])

theorem covers_gone (h : v.Within S A C) : Covers (stamp now) content v gone := by
  cases slot : v.slot with
  | some n =>
    refine .of_lt ?_
    simp only [stamp, slot, gone]
    exact WithTop.coe_lt_top _
  | none =>
    have absent : v.entry = none := by
      by_contra there
      exact h.slotted there slot
    exact covers_settles (.inr ⟨absent, rfl⟩)

theorem covers_removed (h : v.Within S A C) (small : S + 1 < 2 ^ 64) (cell : v.liveCell now = 0) :
    Covers (stamp now) content v v.removed := by
  cases he : v.entry with
  | none =>
    rw [removed, he]
    exact .refl v
  | some e =>
    obtain ⟨n, slot⟩ := Option.ne_none_iff_exists'.1 (h.slotted (by simp [he]))
    have bound := h.present (by simp [he]) n slot
    refine .of_lt ?_
    rw [stamp, stamp, cell]
    simp only [removed, he, slot, Option.map_some]
    refine WithTop.coe_lt_coe.2 ?_
    show n + 0 < wrappingSucc n + 0
    rw [wrappingSucc, Nat.mod_eq_of_lt (by omega)]
    omega

theorem covers_written (small : ∀ n, v.slot = some n → n + 1 < 2 ^ 64) (slot : v.slot ≠ none)
    (cell : v.liveCell now ≤ e.liveCell now) : Covers (stamp now) content v (v.written e) := by
  obtain ⟨n, slot⟩ := Option.ne_none_iff_exists'.1 slot
  refine .of_lt ?_
  simp only [stamp, written, slot, bump]
  refine WithTop.coe_lt_coe.2 ?_
  show n + v.liveCell now < wrappingSucc n + e.liveCell now
  rw [wrappingSucc, Nat.mod_eq_of_lt (small n slot)]
  omega

theorem covers_inserted (h : v.Within S A C) (small : S + 1 < 2 ^ 64) (there : v.entry ≠ none)
    (cell : v.liveCell now ≤ e.liveCell now) : Covers (stamp now) content v (v.inserted e) := by
  obtain ⟨old, he⟩ := Option.ne_none_iff_exists'.1 there
  have same : v.inserted e = v.written e := by simp only [inserted, written, he]
  rw [same]
  have bound (n : Nat) (slot : v.slot = some n) : n + 1 < 2 ^ 64 := by
    have := h.present there n slot
    omega
  exact covers_written bound (h.slotted there) cell

theorem covers_touched (he : v.entry = some e) (value : e'.value = e.value) (expiry : e'.expiry = e.expiry) :
    Covers (stamp now) content v ⟨some e', v.slot⟩ := by
  have expired : e'.isExpired now = e.isExpired now := by rw [Entry.isExpired, expiry, Entry.isExpired]
  have cell : v.liveCell now = e'.liveCell now := by
    simp only [liveCell, he, Entry.liveCell, expired, value]
  refine .of_same (le_of_eq ?_) ?_
  · simp only [stamp]
    cases v.slot with
    | none => rfl
    | some n => exact congrArg (fun m => ((n + m : Nat) : WithTop Nat)) cell
  · simp only [content, he, Option.map_some, value, expiry]

theorem covers_cell {cell cell' : AtomicIntCell} {delta : Int64} (h : v.Within S A C)
    (small : C + 1 < 2 ^ 64) (he : v.entry = some e) (live : e.isExpired now = false)
    (value : e.value = .int cell) (add : cell.checkedAdd delta = some cell') :
    Covers (stamp now) content v ⟨some { e with value := .int cell' }, v.slot⟩ := by
  obtain ⟨n, slot⟩ := Option.ne_none_iff_exists'.1 (h.slotted (by simp [he]))
  have bound : cell.version ≤ C := by simpa [value, DataType.cellVersion] using h.cell e he
  have next : cell'.version = cell.version + 1 := by
    obtain ⟨sum, -, same⟩ := Option.bind_eq_some_iff.1 add
    cases same
    exact Nat.mod_eq_of_lt (by omega)
  have before : v.liveCell now = cell.version := by
    simp only [liveCell, he, Entry.liveCell_of_live live, value, DataType.cellVersion]
  have after : Entry.liveCell now { e with value := .int cell' } = cell'.version :=
    Entry.liveCell_of_live live
  refine .of_lt ?_
  simp only [stamp, slot, before]
  refine WithTop.coe_lt_coe.2 ?_
  show n + cell.version < n + Entry.liveCell now { e with value := .int cell' }
  omega

end View

namespace Database

/-- Without wrapping, the version is the sum of slot and counter. -/
theorem keyVersion_eq {now : Nat} {db : Database} {key : Bytes} {S C : Nat}
    (h : (db.view key).Within S S C) (small : S + C < 2 ^ 64) :
    db.keyVersion now key = (db.view key).slot.getD 0 + (db.view key).liveCell now := by
  have slot : (db.keyVersions.lookup key).getD 0 ≤ S := by
    cases hs : db.keyVersions.lookup key with
    | none => simp
    | some n => exact h.absent n hs
  simp only [keyVersion, View.liveCell, view]
  cases he : db.entries.lookup key with
  | none => simp
  | some e =>
    have cell := h.cell e he
    simp only [Entry.liveCell]
    cases e.isExpired now with
    | true => simp
    | false =>
      simp only [Bool.not_false, if_true, Bool.false_eq_true, if_false]
      exact Nat.mod_eq_of_lt (by omega)

end Database

namespace ShardedDatabase

open View

variable {α : Type} {f : Database → Database × α} {t : Database → View → View} {key k : Bytes}
  {db : ShardedDatabase} {now S A C S' A' C' : Nat}

/-- Every key is within the bounds. -/
def Within (db : ShardedDatabase) (S A C : Nat) : Prop := ∀ x, (db.view x).Within S A C

theorem Within.mono (within : db.Within S A C) (hS : S ≤ S') (hA : A ≤ A') (hC : C ≤ C') :
    db.Within S' A' C' :=
  fun x => (within x).mono hS hA hC

theorem view_new (numShards : Nat) (positive : 0 < numShards) (x : Bytes) :
    (new numShards positive).view x = gone := by
  have fresh : (new numShards positive).shardFor x = .new := by simp [shardFor, new]
  rw [view, fresh]
  rfl

theorem within_new (numShards : Nat) (positive : 0 < numShards) :
    (new numShards positive).Within 0 0 0 := by
  intro x
  rw [view_new]
  exact within_gone

/-- A write is bounded if it is at its own key. -/
theorem Within.writeFor (within : db.Within S A C) (moves : Database.Moves f key t) (hS : S ≤ S')
    (hA : A ≤ A') (hC : C ≤ C') (here : (t (db.shardFor key) (db.view key)).Within S' A' C') :
    (db.writeFor key f).1.Within S' A' C' := by
  intro x
  have seen := view_writeFor moves db
  by_cases same : x = key
  · subst same
    exact here.settles seen.1
  · exact ((within x).mono hS hA hC).settles (seen.2 same)

/-- A write is covered by the stamp if it is at its own key. -/
theorem covers_writeFor (moves : Database.Moves f key t)
    (here : key = k → Covers (stamp now) content (db.view k) (t (db.shardFor k) (db.view k))) :
    Covers (stamp now) content (db.view k) ((db.writeFor key f).1.view k) := by
  have seen := view_writeFor moves db
  by_cases same : key = k
  · subst same
    exact (here rfl).trans (covers_settles seen.1)
  · exact covers_settles (seen.2 (Ne.symm same))

section Reads

variable (within : db.Within S (S + 1) C) (small : S + 1 < 2 ^ 64)
include within small

theorem Within.remove (key : Bytes) : (db.writeFor key fun s => s.remove key).1.Within S (S + 1) C :=
  within.writeFor (Database.moves_remove key) le_rfl le_rfl le_rfl ((within key).removed small)

theorem Within.get (now : Nat) (key : Bytes) :
    (db.writeFor key fun s => s.get now key).1.Within S (S + 1) C := by
  refine within.writeFor (Database.moves_get now key) le_rfl le_rfl le_rfl ?_
  have here := within key
  cases he : (db.view key).entry with
  | none => exact here
  | some e =>
    dsimp only
    split
    · exact here.removed small
    · exact here.entry he (here.cell e he)

theorem Within.insert (key : Bytes) {e : Entry} (cell : e.value.cellVersion ≤ C) :
    (db.writeFor key fun s => (s.insert key e, ())).1.Within (S + 1) (S + 1) C :=
  within.writeFor (Database.moves_insert key e) (by omega) le_rfl le_rfl ((within key).inserted small cell)

end Reads

section Covers

variable (within : db.Within S A C) (small : S + 1 < 2 ^ 64)
include within small

/-- A removal of this key is seen, if no cell shows in between. -/
theorem covers_remove (key : Bytes) (keeps : key = k → (db.view k).liveCell now = 0) :
    Covers (stamp now) content (db.view k) ((db.writeFor key fun s => s.remove key).1.view k) :=
  covers_writeFor (Database.moves_remove key) fun same => covers_removed (within k) small (keeps same)

/-- A look that drops an expired key is seen. -/
theorem covers_get (key : Bytes) :
    Covers (stamp now) content (db.view k) ((db.writeFor key fun s => s.get now key).1.view k) := by
  refine covers_writeFor (Database.moves_get now key) fun _ => ?_
  cases he : (db.view k).entry with
  | none => exact .refl _
  | some e =>
    dsimp only
    split
    · rename_i expired
      refine covers_removed (within k) small ?_
      simp only [liveCell, he, Entry.liveCell_of_expired expired]
    · exact covers_touched he rfl rfl

theorem covers_insert (key : Bytes) {e : Entry}
    (keeps : key = k → (db.view k).entry ≠ none ∧ (db.view k).liveCell now ≤ e.liveCell now) :
    Covers (stamp now) content (db.view k) ((db.writeFor key fun s => (s.insert key e, ())).1.view k) :=
  covers_writeFor (Database.moves_insert key e) fun same =>
    covers_inserted (within k) small (keeps same).1 (keeps same).2

end Covers

end ShardedDatabase

end NexradeCache
