import Mathlib.Algebra.Order.Ring.Canonical
import Mathlib.Algebra.Order.Ring.Nat
import Mathlib.Data.Finset.Card
import NexradeCache.Data.CompactList
import NexradeCache.Data.HashRefinement
import NexradeCache.Data.SetData

/-!
# `SetData` refines a finite set

`Holds d l` says that the value `d`, in either encoding, stores the members `l` and caches
their byte total; with `l` free of duplicates it stands for the finite set `l.toFinset`. Which
member `remove_at` takes depends on the storage order, so the abstract set is nondeterministic
there: the answer says which member went.
-/

namespace NexradeCache

open Bytes

/-- The order does not matter for the payload. -/
theorem payload_perm {l m : List Bytes} (p : l.Perm m) : payload l = payload m := (p.map _).sum_eq

@[simp] theorem enc_frameCodec (m : Bytes) : frameCodec.enc m = frame m := rfl

/-! ## The compact encoding -/

namespace CompactSet

/-- The buffer is the packed image of `l`, and the cached count and total are those of `l`. -/
structure Rep (c : CompactSet) (l : List Bytes) : Prop where
  buf : c.buf = frameCodec.encs l
  len : c.len = l.length
  bytes : c.bytes = payload l
  valid : ∀ m ∈ l, frameCodec.Valid m

theorem new_rep : new.Rep [] := ⟨rfl, rfl, rfl, by simp⟩

variable {c : CompactSet} {l a z : List Bytes} {member : Bytes}

theorem Rep.appendMember (h : c.Rep l) (valid : frameCodec.Valid member) :
    (c.appendMember member).Rep (l ++ [member]) where
  buf := by simp [CompactSet.appendMember, h.buf, frame]
  len := by simp [CompactSet.appendMember, h.len]
  bytes := by simp [CompactSet.appendMember, h.bytes]
  valid m hm := by
    rw [List.mem_append, List.mem_singleton] at hm
    rcases hm with hm | rfl
    · exact h.valid m hm
    · exact valid

theorem foldl_appendMember_rep (h : c.Rep l) (valid : ∀ m ∈ z, frameCodec.Valid m) :
    (z.foldl CompactSet.appendMember c).Rep (l ++ z) := by
  induction z generalizing c l with
  | nil => simpa using h
  | cons m z ih =>
    have rest := ih (h.appendMember (valid m (by simp))) fun m hm => valid m (by simp [hm])
    simpa using rest

theorem Rep.contains_eq (h : c.Rep l) (member : Bytes) :
    c.contains member = some (decide (member ∈ l)) := by
  by_cases hm : member ∈ l
  · obtain ⟨a, z, rfl, miss⟩ := List.eq_append_cons_of_mem hm
    have found := frameCodec.findAt_some (p := fun m => m == member) (m := a) (a := []) (z := []) (o := 0)
      (fun m hm => h.valid m (by simp [hm])) (h.valid member (by simp)) (by simpa using h.buf) rfl
      (fun m hm => by simpa using fun e : m = member => miss (e ▸ hm)) (by simp)
    rw [← h.len] at found
    simp [CompactSet.contains, found]
  · have missed := frameCodec.findAt_none (p := fun m => m == member) (a := []) (z := []) (o := 0)
      h.valid (by simpa using h.buf) rfl (fun m hx => by simpa using fun e : m = member => hm (e ▸ hx))
    rw [← h.len] at missed
    simp [CompactSet.contains, missed, hm]

theorem foldl_removeBody_keep (s : SetRebuild) (keep : ∀ m ∈ l, ¬ (!s.found ∧ m = member)) :
    l.foldl (fun s m => removeBody member s m (frameCodec.enc m)) s =
      ⟨s.found, s.newBuf ++ frameCodec.encs l, s.newLen + l.length, s.newBytes + payload l⟩ := by
  induction l generalizing s with
  | nil => simp
  | cons m l ih =>
    rw [List.foldl_cons, removeBody, if_neg (keep m (by simp)), ih]
    · simp only [Codec.encs_cons, List.append_assoc, List.length_cons, payload_cons]
      congr 1 <;> omega
    · exact fun m hm => keep m (by simp [hm])

theorem Rep.remove_miss (h : c.Rep l) (miss : member ∉ l) : c.remove member = some (c, false, 0) := by
  have loop := frameCodec.foldRecords_encs (f := removeBody member) (s := ⟨false, [], 0, 0⟩)
    (a := []) (z := []) (o := 0) h.valid (by simpa using h.buf) rfl
  rw [foldl_removeBody_keep _ (by rintro m hm ⟨-, rfl⟩; exact miss hm)] at loop
  simp [CompactSet.remove, h.len, loop]

theorem Rep.remove_hit (h : c.Rep (a ++ member :: z)) (miss : member ∉ a) :
    ∃ c', c.remove member = some (c', true, -(member.length : Int)) ∧ c'.Rep (a ++ z) := by
  have loop := frameCodec.foldRecords_encs (f := removeBody member) (s := ⟨false, [], 0, 0⟩)
    (a := []) (z := []) (o := 0) h.valid (by simpa using h.buf) rfl
  rw [List.foldl_append, foldl_removeBody_keep (l := a) _ (by rintro m hm ⟨-, rfl⟩; exact miss hm),
    List.foldl_cons, removeBody, if_pos ⟨rfl, rfl⟩, foldl_removeBody_keep _ (by simp)] at loop
  refine ⟨⟨frameCodec.encs (a ++ z), (a ++ z).length, payload (a ++ z)⟩, ?_, rfl, rfl, rfl, ?_⟩
  · rw [CompactSet.remove, h.len, loop]
    simp [h.bytes]
  · intro m hm
    refine h.valid m ?_
    rw [List.mem_append] at hm ⊢
    exact hm.imp_right (List.mem_cons_of_mem _)

/-- A walk over the frames comes to the member at an index. -/
theorem nthFrom_eq {buf p q : Bytes} {o i : Nat} (valid : ∀ m ∈ l, frameCodec.Valid m)
    (hbuf : buf = p ++ (frameCodec.encs l ++ q)) (hoff : o = p.length) (hi : i < l.length) :
    nthFrom buf i o = l[i]? := by
  induction l generalizing p o i with
  | nil => simp at hi
  | cons m l ih =>
    have head := valid m (by simp)
    cases i with
    | zero =>
      rw [nthFrom, readFrame_frame head (z := frameCodec.encs l ++ q) (by simp [hbuf]) hoff]
      rfl
    | succ i =>
      have here : readU32 buf o = some m.length :=
        readU32_leBytes head (z := m ++ (frameCodec.encs l ++ q)) (by simp [hbuf, frame]) hoff
      have rest := ih (p := p ++ frame m) (o := o + 4 + m.length) (i := i)
        (fun m hm => valid m (by simp [hm])) (by simp [hbuf]) (by simp [hoff]; omega)
        (by simpa using hi)
      simp [nthFrom, here, rest]

theorem Rep.nth_eq (h : c.Rep l) {i : Nat} (hi : i < l.length) : c.nth i = some l[i]? := by
  have read := nthFrom_eq (p := []) (q := []) (o := 0) h.valid (by simpa using h.buf) rfl hi
  rw [CompactSet.nth, if_neg (by rw [h.len]; omega), read]
  simp [List.getElem?_eq_getElem hi]

/-- The members come in the order of the buffer. -/
theorem Rep.iterMembers_eq (h : c.Rep l) : c.iterMembers = some l := by
  rw [iterMembers, h.len]
  exact frameCodec.readAll_encs (a := []) (z := []) h.valid (by simpa using h.buf) rfl

end CompactSet

/-! ## The index set encoding -/

/-- The table stores the members `l`, in this order, and caches their byte total. -/
structure HashtableSet.Rep (h : HashtableSet) (l : List Bytes) : Prop where
  items : h.set.items = l
  bytes : h.bytes = payload l
  valid : ∀ m ∈ l, frameCodec.Valid m

namespace HashtableSet

variable {h : HashtableSet} {l : List Bytes} {member : Bytes}

theorem Rep.insert_new (rep : h.Rep l) (new : member ∉ l) (valid : frameCodec.Valid member) :
    ∃ h', h.insert member = (h', true, (member.length : Int)) ∧ h'.Rep (l ++ [member]) := by
  have absent : member ∉ h.set.items := by rwa [rep.items]
  obtain ⟨items, flag⟩ := IndexSet.insert_new absent
  refine ⟨⟨(h.set.insert member).1, h.bytes + member.length⟩, ?_, ?_, ?_, ?_⟩
  · rw [HashtableSet.insert, ← Prod.eta (h.set.insert member), flag]
  · rw [items, rep.items]
  · simp [rep.bytes]
  · intro m hm
    rw [List.mem_append, List.mem_singleton] at hm
    rcases hm with hm | rfl
    · exact rep.valid m hm
    · exact valid

/-- Taking `x` out of `l`, up to the order of what stays. -/
theorem Rep.shrink {x : Bytes} {s : IndexSet Bytes} (rep : h.Rep l) (perm : l.Perm (x :: s.items)) :
    Rep ⟨s, h.bytes - x.length⟩ s.items := by
  have total := payload_perm perm
  rw [payload_cons, ← rep.bytes] at total
  refine ⟨rfl, ?_, fun m hm => rep.valid m (perm.mem_iff.2 (List.mem_cons_of_mem _ hm))⟩
  dsimp only
  omega

/-- The last member takes the place of the one removed. -/
theorem Rep.remove_hit (rep : h.Rep l) (hit : member ∈ l) :
    ∃ h' l', h.remove member = (h', true, -(member.length : Int)) ∧ h'.Rep l' ∧
      l.Perm (member :: l') := by
  obtain ⟨perm, flag⟩ := IndexSet.swapRemove_of_mem (s := h.set) (rep.items.symm ▸ hit)
  rw [rep.items] at perm
  refine ⟨_, _, ?_, rep.shrink perm, perm⟩
  rw [HashtableSet.remove, ← Prod.eta (h.set.swapRemove member), flag]

theorem Rep.remove_miss (rep : h.Rep l) (miss : member ∉ l) : h.remove member = (h, false, 0) := by
  rw [HashtableSet.remove, IndexSet.swapRemove_absent (by rwa [rep.items])]

theorem Rep.swapRemoveIndex_hit (rep : h.Rep l) {i : Nat} (hi : i < l.length) :
    ∃ h' l' m, h.swapRemoveIndex i = some (h', m, -(m.length : Int)) ∧ h'.Rep l' ∧
      l.Perm (m :: l') := by
  have here : h.set.items[i]? = some l[i] := by rw [rep.items]; exact List.getElem?_eq_getElem hi
  have perm : l.Perm (l[i] :: h.set.items.swapRemoveAt i) := by
    nth_rewrite 1 [← rep.items]
    exact List.perm_swapRemoveAt here
  let s : IndexSet Bytes := ⟨h.set.items.swapRemoveAt i, h.set.nodup_swapRemoveAt i⟩
  refine ⟨_, _, l[i], ?_, rep.shrink (s := s) perm, perm⟩
  simp [HashtableSet.swapRemoveIndex, IndexSet.swapRemoveIndex, here, s]

/-- An insertion counts the payload and inserts. -/
theorem insert_set (h : HashtableSet) (m : Bytes) : (h.insert m).1.set = (h.set.insert m).1 := by
  rw [HashtableSet.insert]
  split <;> simp_all

theorem foldl_insert_set (l : List Bytes) (h : HashtableSet) :
    (l.foldl (fun h m => (h.insert m).1) h).set = l.foldl (fun s m => (s.insert m).1) h.set := by
  induction l generalizing h with
  | nil => rfl
  | cons m l ih => rw [List.foldl_cons, ih, insert_set, List.foldl_cons]

/-- A table that is built from a set has its members. -/
theorem fromSet_rep (s : IndexSet Bytes) (valid : ∀ m ∈ s.items, frameCodec.Valid m) :
    (fromSet s).Rep s.items := by
  have items : (fromSet s).set.items = s.items :=
    IndexSet.foldl_insert_items s.items .empty s.nodup (by simp [IndexSet.empty])
  refine ⟨items, ?_, valid⟩
  rw [← items]
  rfl

end HashtableSet

/-! ## Both encodings -/

/-- The operations of a set. -/
inductive SetOp where
  | insert (member : Bytes)
  | remove (member : Bytes)
  | removeAt (idx : Nat)
  | ensureHashtable
  | maybeDemote
  | fromHashset (s : IndexSet Bytes)

/-- What an operation returns; a delta is the change of the payload. -/
inductive SetAns where
  | inserted (isNew : Bool) (delta : Int)
  | removed (removed : Bool) (delta : Int)
  | removedAt (member : Option Bytes)
  | done
deriving DecidableEq

/-- The payload delta an answer reports. -/
def SetAns.delta : SetAns → Option Int
  | .inserted _ delta => some delta
  | .removed _ delta => some delta
  | _ => none

/-- The lengths an operation stores fit the `u32` prefixes. -/
def SetOp.Valid : SetOp → Prop
  | .insert member => frameCodec.Valid member
  | .fromHashset s => ∀ m ∈ s.items, frameCodec.Valid m
  | _ => True

/-- One call: the thresholds in force and the operation. -/
structure SetCall where
  thr : SetThresholds
  op : SetOp

/-- The abstract set. `removeAt` takes some member when the index is below the size. -/
inductive SetSpec : SetOp → Finset Bytes → SetAns → Finset Bytes → Prop
  | insert (member : Bytes) (s : Finset Bytes) :
    SetSpec (.insert member) s
      (.inserted (decide (member ∉ s)) (if member ∈ s then 0 else member.length)) (insert member s)
  | remove (member : Bytes) (s : Finset Bytes) :
    SetSpec (.remove member) s
      (.removed (decide (member ∈ s)) (if member ∈ s then -(member.length : Int) else 0)) (s.erase member)
  | removeAt {idx : Nat} {member : Bytes} {s : Finset Bytes} :
    idx < s.card → member ∈ s → SetSpec (.removeAt idx) s (.removedAt (some member)) (s.erase member)
  | removeAtEnd {idx : Nat} {s : Finset Bytes} :
    s.card ≤ idx → SetSpec (.removeAt idx) s (.removedAt none) s
  | ensureHashtable (s : Finset Bytes) : SetSpec .ensureHashtable s .done s
  | maybeDemote (s : Finset Bytes) : SetSpec .maybeDemote s .done s
  | fromHashset (t : IndexSet Bytes) (s : Finset Bytes) :
    SetSpec (.fromHashset t) s .done t.items.toFinset

namespace SetData

/-- One call on a set, with the change of `payload_bytes()` it makes. -/
def step (call : SetCall) (d : SetData) : Option (SetData × SetAns × Int) := do
  let (d', r) ← (match call.op with
    | .insert member => do
      let (d', isNew, delta) ← d.insert call.thr member
      return (d', .inserted isNew delta)
    | .remove member => do
      let (d', removed, delta) ← d.remove call.thr member
      return (d', .removed removed delta)
    | .removeAt idx => do
      let (d', m) ← d.removeAt call.thr idx
      return (d', .removedAt m)
    | .ensureHashtable => do
      let d' ← d.ensureHashtable
      return (d', .done)
    | .maybeDemote => return (d.maybeDemote call.thr, .done)
    | .fromHashset s => return (SetData.fromHashset call.thr s, .done))
  return (d', r, (d'.payloadBytes : Int) - d.payloadBytes)

/-- The value stores the members `l` and caches their byte total. -/
def Holds (d : SetData) (l : List Bytes) : Prop :=
  match d with
  | .compact c => c.Rep l
  | .hashtable h => h.Rep l

/-- `d` stands for the set `s`. -/
def Rep (d : SetData) (s : Finset Bytes) : Prop := ∃ l, d.Holds l ∧ l.Nodup ∧ l.toFinset = s

variable {d : SetData} {l l' : List Bytes} {s : Finset Bytes} {member : Bytes}

/-- The payload is counted the same in both encodings. -/
theorem Holds.payloadBytes_eq (h : d.Holds l) : d.payloadBytes = payload l := by
  cases d with
  | compact c => exact CompactSet.Rep.bytes h
  | hashtable t => exact HashtableSet.Rep.bytes h

theorem Holds.len_eq (h : d.Holds l) : d.len = l.length := by
  cases d with
  | compact c => exact CompactSet.Rep.len h
  | hashtable t => exact congrArg List.length (HashtableSet.Rep.items h)

theorem Holds.contains_eq (h : d.Holds l) (member : Bytes) :
    d.contains member = some (decide (member ∈ l)) := by
  cases d with
  | compact c => exact CompactSet.Rep.contains_eq h member
  | hashtable t =>
    simp [SetData.contains, HashtableSet.contains, IndexSet.contains, HashtableSet.Rep.items h]

/-- A promotion keeps the members and their order. -/
theorem Holds.ensureHashtable (h : d.Holds l) (nodup : l.Nodup) :
    ∃ t, d.ensureHashtable = some (.hashtable t) ∧ t.Rep l := by
  cases d with
  | hashtable t => exact ⟨t, rfl, h⟩
  | compact c =>
    have items := HashtableSet.foldl_insert_set l .withCapacity
    refine ⟨_, by simp only [SetData.ensureHashtable, CompactSet.Rep.iterMembers_eq h]; rfl, ?_,
      CompactSet.Rep.bytes h, CompactSet.Rep.valid h⟩
    rw [items]
    exact IndexSet.foldl_insert_items l .empty nodup (by simp [IndexSet.empty])

theorem Holds.maybeDemote (h : d.Holds l) (thr : SetThresholds) : (d.maybeDemote thr).Holds l := by
  cases d with
  | compact c => exact h
  | hashtable t =>
    have packed := CompactSet.foldl_appendMember_rep (z := t.set.items) CompactSet.new_rep
      fun m hm => HashtableSet.Rep.valid h m (HashtableSet.Rep.items h ▸ hm)
    rw [List.nil_append, HashtableSet.Rep.items h] at packed
    simp only [SetData.maybeDemote, HashtableSet.Rep.items h]
    split
    · exact h
    split
    · exact h
    split
    · exact h
    · exact packed

/-- A member that is there stays; a new one is appended, in the encoding the thresholds ask for. -/
theorem Holds.insert (h : d.Holds l) (nodup : l.Nodup) (thr : SetThresholds)
    (valid : frameCodec.Valid member) :
    ∃ d', d.insert thr member = some (d', decide (member ∉ l),
        if member ∈ l then 0 else (member.length : Int)) ∧
      d'.Holds (if member ∈ l then l else l ++ [member]) := by
  by_cases hm : member ∈ l
  · exact ⟨d, by simp [SetData.insert, h.contains_eq, hm], by rwa [if_pos hm]⟩
  rw [if_neg hm, if_neg hm]
  have table : ∀ {t : HashtableSet}, t.Rep l → ∃ t', t.insert member = (t', true, (member.length : Int)) ∧
      t'.Rep (l ++ [member]) := fun rep => rep.insert_new hm valid
  have absent := h.contains_eq member
  rw [decide_eq_false hm] at absent
  simp only [SetData.insert, absent, Option.bind_eq_bind, Option.bind_some, Bool.false_eq_true, if_false]
  split
  · obtain ⟨t, run, rep⟩ := h.ensureHashtable nodup
    obtain ⟨t', run', rep'⟩ := table rep
    exact ⟨.hashtable t', by simp [run, run', hm], rep'⟩
  · cases d with
    | compact c =>
      refine ⟨.compact (c.appendMember member), ?_, CompactSet.Rep.appendMember h valid⟩
      simp [CompactSet.insert, CompactSet.Rep.contains_eq h, hm]
    | hashtable t =>
      obtain ⟨t', run', rep'⟩ := table h
      exact ⟨.hashtable t', by simp [run', hm], rep'⟩

/-- SREM of what is not there changes nothing. -/
theorem Holds.remove_miss (h : d.Holds l) (thr : SetThresholds) (miss : member ∉ l) :
    d.remove thr member = some (d, false, 0) := by
  cases d with
  | compact c => simp [SetData.remove, CompactSet.Rep.remove_miss h miss]
  | hashtable t => simp [SetData.remove, HashtableSet.Rep.remove_miss h miss]

/-- **SREM removes its member and no other**, and may demote. -/
theorem Holds.remove_hit (h : d.Holds l) (thr : SetThresholds) (hit : member ∈ l) :
    ∃ d' l', d.remove thr member = some (d', true, -(member.length : Int)) ∧ d'.Holds l' ∧
      l.Perm (member :: l') := by
  cases d with
  | compact c =>
    obtain ⟨a, z, rfl, miss⟩ := List.eq_append_cons_of_mem hit
    obtain ⟨c', run, rep⟩ := CompactSet.Rep.remove_hit h miss
    have kept : (SetData.compact c').Holds (a ++ z) := rep
    exact ⟨_, _, by simp [SetData.remove, run], kept.maybeDemote thr, List.perm_middle⟩
  | hashtable t =>
    obtain ⟨t', l', run, rep, perm⟩ := HashtableSet.Rep.remove_hit h hit
    have kept : (SetData.hashtable t').Holds l' := rep
    exact ⟨_, _, by simp [SetData.remove, run], kept.maybeDemote thr, perm⟩

theorem Holds.removeAt_end (h : d.Holds l) (thr : SetThresholds) {idx : Nat} (past : l.length ≤ idx) :
    d.removeAt thr idx = some (d, none) := by
  rw [SetData.removeAt.eq_def, if_pos (.inr (by rwa [h.len_eq]))]

/-- **SPOP by an index removes the member at it.** -/
theorem Holds.removeAt (h : d.Holds l) (thr : SetThresholds) {idx : Nat} (inside : idx < l.length) :
    ∃ d' l' m, d.removeAt thr idx = some (d', some m) ∧ d'.Holds l' ∧ l.Perm (m :: l') := by
  have guard : ¬ (d.isEmpty ∨ d.len ≤ idx) := by
    rw [isEmpty, h.len_eq, beq_iff_eq]
    omega
  rw [SetData.removeAt.eq_def, if_neg guard]
  cases d with
  | compact c =>
    obtain ⟨a, z, split, miss⟩ := List.eq_append_cons_of_mem (List.getElem_mem inside)
    have rep : c.Rep l := h
    have nth := rep.nth_eq inside
    rw [List.getElem?_eq_getElem inside] at nth
    obtain ⟨c', run, rep'⟩ := CompactSet.Rep.remove_hit (split ▸ rep) miss
    have kept : (SetData.compact c').Holds (a ++ z) := rep'
    refine ⟨_, _, l[idx], by simp [nth, run], kept.maybeDemote thr, ?_⟩
    nth_rewrite 1 [split]
    exact List.perm_middle
  | hashtable t =>
    obtain ⟨t', l', m, run, rep, perm⟩ := HashtableSet.Rep.swapRemoveIndex_hit h inside
    have kept : (SetData.hashtable t').Holds l' := rep
    exact ⟨_, _, m, by simp [run], kept.maybeDemote thr, perm⟩

/-- A set that is built has its members, in the encoding that the thresholds ask for. -/
theorem fromHashset_holds (thr : SetThresholds) (t : IndexSet Bytes)
    (valid : ∀ m ∈ t.items, frameCodec.Valid m) : (fromHashset thr t).Holds t.items := by
  rw [fromHashset]
  split
  · have packed := CompactSet.foldl_appendMember_rep CompactSet.new_rep valid
    rwa [List.nil_append] at packed
  · exact HashtableSet.fromSet_rep t valid

/-! ### Reads -/

/-- What is read from `d` is the set `s`: every member once, and the payload is the sum of the
lengths stored. -/
structure Agrees (d : SetData) (s : Finset Bytes) : Prop where
  members : ∃ l, d.toVec = some l ∧ d.iterRef = some l ∧ l.Nodup ∧ (∀ m, m ∈ l ↔ m ∈ s) ∧
    d.len = l.length ∧ d.payloadBytes = (l.map List.length).sum
  contains : ∀ m, d.contains m = some (decide (m ∈ s))

theorem Rep.agrees (h : d.Rep s) : d.Agrees s := by
  obtain ⟨l, holds, nodup, rfl⟩ := h
  refine ⟨⟨l, ?_, ?_, nodup, by simp, holds.len_eq, holds.payloadBytes_eq⟩, fun m => ?_⟩
  · cases d with
    | compact c => exact CompactSet.Rep.iterMembers_eq holds
    | hashtable t => exact congrArg some (HashtableSet.Rep.items holds)
  · cases d with
    | compact c => exact CompactSet.Rep.iterMembers_eq holds
    | hashtable t => exact congrArg some (HashtableSet.Rep.items holds)
  · simp [holds.contains_eq]

/-! ### Runs -/

/-- What stays when `member` is taken out of a list without duplicates. -/
theorem rep_of_perm_cons (nodup : l.Nodup) (perm : l.Perm (member :: l')) (holds : d.Holds l') :
    d.Rep (l.toFinset.erase member) := by
  obtain ⟨gone, nodup'⟩ := List.nodup_cons.1 (perm.nodup_iff.1 nodup)
  refine ⟨l', holds, nodup', ?_⟩
  rw [List.toFinset_eq_of_perm l _ perm, List.toFinset_cons, Finset.erase_insert (by simpa using gone)]

/-- An answer the abstract set allows, whose delta is the measured change. -/
def AnswerAllowed (call : SetCall) (s : Finset Bytes) (r : SetAns × Int) (s' : Finset Bytes) : Prop :=
  SetSpec call.op s r.1 s' ∧ ∀ delta ∈ r.1.delta, delta = r.2

/-- **The step lemma**: a call on a value that stands for `s` returns an answer the abstract
set allows, and leaves a value that stands for the abstract result. -/
theorem step_refines (call : SetCall) (valid : call.op.Valid) (h : d.Rep s) :
    ∃ d' r s', d.step call = some (d', r) ∧ AnswerAllowed call s r s' ∧ d'.Rep s' := by
  obtain ⟨l, holds, nodup, rfl⟩ := h
  obtain ⟨thr, op⟩ := call
  cases op with
  | insert member =>
    obtain ⟨d', run, holds'⟩ := holds.insert nodup thr valid
    refine ⟨d', _, Insert.insert member l.toFinset, by simp only [step, run]; rfl, ⟨?_, ?_⟩, _, holds', ?_⟩
    · simpa using SetSpec.insert member l.toFinset
    · simp only [SetAns.delta, Option.mem_def, Option.some_inj, holds.payloadBytes_eq,
        holds'.payloadBytes_eq]
      split <;> simp
    · split
      · rename_i hm
        exact ⟨nodup, by rw [Finset.insert_eq_of_mem (by simpa using hm)]⟩
      · rename_i hm
        refine ⟨?_, by ext; simp⟩
        rw [List.nodup_append_comm]
        exact List.nodup_cons.2 ⟨hm, nodup⟩
  | remove member =>
    by_cases hm : member ∈ l
    · obtain ⟨d', l', run, holds', perm⟩ := holds.remove_hit thr hm
      refine ⟨d', _, l.toFinset.erase member, by simp only [step, run]; rfl, ⟨?_, ?_⟩,
        rep_of_perm_cons nodup perm holds'⟩
      · simpa [hm] using SetSpec.remove member l.toFinset
      · simp [SetAns.delta, holds.payloadBytes_eq, holds'.payloadBytes_eq, payload_perm perm]
    · refine ⟨d, _, l.toFinset.erase member, by simp only [step, holds.remove_miss thr hm]; rfl,
        ⟨?_, ?_⟩, l, holds, nodup, ?_⟩
      · simpa [hm] using SetSpec.remove member l.toFinset
      · simp [SetAns.delta]
      · rw [Finset.erase_eq_of_notMem (by simpa using hm)]
  | removeAt idx =>
    have card : l.toFinset.card = l.length := List.toFinset_card_of_nodup nodup
    by_cases inside : idx < l.length
    · obtain ⟨d', l', m, run, holds', perm⟩ := holds.removeAt thr inside
      refine ⟨d', _, l.toFinset.erase m, by simp only [step, run]; rfl, ⟨?_, by simp [SetAns.delta]⟩,
        rep_of_perm_cons nodup perm holds'⟩
      exact SetSpec.removeAt (by omega) (by simp [perm.mem_iff])
    · have past := holds.removeAt_end thr (Nat.not_lt.1 inside)
      exact ⟨d, _, l.toFinset, by simp only [step, past]; rfl,
        ⟨.removeAtEnd (card.symm ▸ Nat.not_lt.1 inside), by simp [SetAns.delta]⟩, l, holds, nodup, rfl⟩
  | ensureHashtable =>
    obtain ⟨t, run, rep⟩ := holds.ensureHashtable nodup
    exact ⟨.hashtable t, _, l.toFinset, by simp only [step, run]; rfl,
      ⟨.ensureHashtable _, by simp [SetAns.delta]⟩, l, rep, nodup, rfl⟩
  | maybeDemote =>
    exact ⟨_, _, l.toFinset, rfl, ⟨.maybeDemote _, by simp [SetAns.delta]⟩, l,
      holds.maybeDemote thr, nodup, rfl⟩
  | fromHashset t =>
    exact ⟨_, _, t.items.toFinset, rfl, ⟨.fromHashset t _, by simp [SetAns.delta]⟩, t.items,
      fromHashset_holds thr t valid, t.nodup, rfl⟩

theorem new_rep : SetData.new.Rep ∅ := ⟨[], CompactSet.new_rep, .nil, rfl⟩

/-- Every run of set operations is a run of the abstract set. -/
theorem run_refines (calls : List SetCall) (valid : ∀ call ∈ calls, call.op.Valid) :
    ∃ d answers s, Run.run SetData.step calls SetData.new = some (d, answers) ∧
      Run.Allows AnswerAllowed calls ∅ answers s ∧ d.Agrees s := by
  obtain ⟨d, answers, s, run, allowed, rep⟩ :=
    Run.run_allowed (fun call d s valid rep => step_refines call valid rep) valid new_rep
  exact ⟨d, answers, s, run, allowed, rep.agrees⟩

end SetData

/-- **`HashData` and `SetData` refine a finite map and a finite set.** Every run of calls from the
empty value, under thresholds (and hash map orders) that may differ from call to call and with
stored lengths below `2 ^ 32`, returns; its answers are the abstract ones, every delta is the change
of `payload_bytes()`, and what is read back is the abstract map or set, each field or member once. -/
theorem hashData_setData_refine :
    (∀ calls : List HashCall, (∀ call ∈ calls, call.op.Valid) →
      ∃ d answers, Run.run HashData.step calls HashData.new = some (d, answers) ∧
        let spec := Run.specRun (fun call : HashCall => HashSpec.apply call.op) calls fun _ => none
        List.Forall₂ HashData.AnswersAgree answers spec.2 ∧ d.Agrees spec.1) ∧
    (∀ calls : List SetCall, (∀ call ∈ calls, call.op.Valid) →
      ∃ d answers s, Run.run SetData.step calls SetData.new = some (d, answers) ∧
        Run.Allows SetData.AnswerAllowed calls ∅ answers s ∧ d.Agrees s) :=
  ⟨HashData.run_refines, SetData.run_refines⟩

/-- A hash that is promoted by an oversized value and loses a field, and a set that is promoted
by the second insertion and loses the member at index 0. -/
theorem hashData_setData_refine_promoted :
    (∃ d answers, Run.run HashData.step
        [⟨⟨512, 8192, 2, 128⟩, .asStored, .insert [1] [7, 8]⟩,
          ⟨⟨512, 8192, 2, 128⟩, .asStored, .insert [2] [1, 2, 3]⟩,
          ⟨.default, .asStored, .remove [1]⟩] HashData.new = some (d, answers) ∧
      d.get [1] = some none ∧ d.get [2] = some (some [1, 2, 3])) ∧
    ∃ d answers s, Run.run SetData.step
        [⟨⟨1, 8192, 64, 0⟩, .insert [1]⟩, ⟨⟨1, 8192, 64, 0⟩, .insert [2, 3]⟩, ⟨.default, .removeAt 0⟩]
        SetData.new = some (d, answers) ∧ d.Agrees s := by
  obtain ⟨hash, set⟩ := hashData_setData_refine
  obtain ⟨d, answers, run, -, agrees⟩ := hash
    [⟨⟨512, 8192, 2, 128⟩, .asStored, .insert [1] [7, 8]⟩,
      ⟨⟨512, 8192, 2, 128⟩, .asStored, .insert [2] [1, 2, 3]⟩, ⟨.default, .asStored, .remove [1]⟩]
    (by simp [HashOp.Valid, pairCodec, Codec.pair, frameCodec])
  obtain ⟨e, answers', s, run', -, agrees'⟩ := set
    [⟨⟨1, 8192, 64, 0⟩, .insert [1]⟩, ⟨⟨1, 8192, 64, 0⟩, .insert [2, 3]⟩, ⟨.default, .removeAt 0⟩]
    (by simp [SetOp.Valid, frameCodec])
  exact ⟨⟨d, answers, run, agrees.get [1], agrees.get [2]⟩, e, answers', s, run', agrees'⟩

end NexradeCache
