import Mathlib.Algebra.Order.Ring.Canonical
import Mathlib.Algebra.Order.Ring.Nat
import NexradeCache.Data.HashData
import NexradeCache.Lib.Run

/-!
# `HashData` refines a finite map

`Holds d l` says that the value `d`, in either encoding, stores the pairs `l` and caches
their byte total; with `ListsMap l m` it stands for the finite map `m`. Every operation has
one lemma from `Holds` to `Holds`; `step_refines` collects them into one step of the
abstract map `HashSpec`.
-/

namespace NexradeCache

open Bytes

/-- The sum of the field and value lengths. -/
def pairPayload (l : List (Bytes × Bytes)) : Nat := (l.map fun e => e.1.length + e.2.length).sum

@[simp] theorem pairPayload_nil : pairPayload [] = 0 := rfl

@[simp] theorem pairPayload_cons (e : Bytes × Bytes) (l : List (Bytes × Bytes)) :
    pairPayload (e :: l) = e.1.length + e.2.length + pairPayload l := by
  simp [pairPayload]

@[simp] theorem pairPayload_append (l m : List (Bytes × Bytes)) :
    pairPayload (l ++ m) = pairPayload l + pairPayload m := by
  simp [pairPayload]

theorem pairPayload_perm {l m : List (Bytes × Bytes)} (p : l.Perm m) : pairPayload l = pairPayload m :=
  (p.map _).sum_eq

@[simp] theorem enc_pairCodec (e : Bytes × Bytes) : pairCodec.enc e = frame e.1 ++ frame e.2 := rfl

/-! ## The compact encoding -/

namespace CompactHash

/-- The buffer is the packed image of `l`, and the cached count and total are those of `l`. -/
structure Rep (c : CompactHash) (l : List (Bytes × Bytes)) : Prop where
  buf : c.buf = pairCodec.encs l
  len : c.len = l.length
  bytes : c.bytes = pairPayload l
  valid : ∀ e ∈ l, pairCodec.Valid e

theorem new_rep : new.Rep [] := ⟨rfl, rfl, rfl, by simp⟩

variable {c : CompactHash} {l a z : List (Bytes × Bytes)} {field val old : Bytes}

theorem Rep.appendPair (h : c.Rep l) (valid : pairCodec.Valid (field, val)) :
    (c.appendPair field val).Rep (l ++ [(field, val)]) where
  buf := by simp [CompactHash.appendPair, h.buf, frame]
  len := by simp [CompactHash.appendPair, h.len]
  bytes := by simp [CompactHash.appendPair, h.bytes]
  valid e he := by
    rw [List.mem_append, List.mem_singleton] at he
    rcases he with he | rfl
    · exact h.valid e he
    · exact valid

theorem foldl_appendPair_rep (h : c.Rep l) (valid : ∀ e ∈ z, pairCodec.Valid e) :
    (z.foldl (fun c e => c.appendPair e.1 e.2) c).Rep (l ++ z) := by
  induction z generalizing c l with
  | nil => simpa using h
  | cons e z ih =>
    have rest := ih (h.appendPair (valid e (by simp))) fun e he => valid e (by simp [he])
    simpa using rest

/-- The scan of one pair: the field, then the value's length prefix. -/
theorem scan_pair (buf : Bytes) {p q : Bytes} {e : Bytes × Bytes} {o : Nat} (valid : pairCodec.Valid e)
    (hbuf : buf = p ++ (pairCodec.enc e ++ q)) (hoff : o = p.length) :
    readFrame buf o = some (e.1, o + 4 + e.1.length) ∧
      readU32 buf (o + 4 + e.1.length) = some e.2.length := by
  constructor
  · exact readFrame_frame valid.1 (z := frame e.2 ++ q) (by simp [hbuf]) hoff
  · exact readU32_leBytes valid.2 (a := p ++ frame e.1) (z := e.2 ++ q)
      (by simp [hbuf, frame]) (by simp [hoff, Nat.add_assoc])

/-- A scan that does not find the field comes to the end of the buffer. -/
theorem findField_none {buf p q : Bytes} {o : Nat} (valid : ∀ e ∈ l, pairCodec.Valid e)
    (hbuf : buf = p ++ (pairCodec.encs l ++ q)) (hoff : o = p.length)
    (miss : ∀ e ∈ l, e.1 ≠ field) : findField buf field l.length o = some none := by
  induction l generalizing p o with
  | nil => rfl
  | cons e l ih =>
    obtain ⟨here, next⟩ := scan_pair buf (q := pairCodec.encs l ++ q) (valid e (by simp))
      (by simp [hbuf]) hoff
    have rest := ih (p := p ++ pairCodec.enc e) (o := o + 4 + e.1.length + 4 + e.2.length)
      (fun e he => valid e (by simp [he])) (by simp [hbuf]) (by simp [hoff]; omega)
      (fun e he => miss e (by simp [he]))
    simp [findField, here, next, rest, miss e (by simp)]

/-- A scan that finds it stops at its first byte and knows its value. -/
theorem findField_some {buf p q : Bytes} {o : Nat} (valid : ∀ e ∈ a, pairCodec.Valid e)
    (hit : pairCodec.Valid (field, old))
    (hbuf : buf = p ++ (pairCodec.encs (a ++ (field, old) :: z) ++ q)) (hoff : o = p.length)
    (miss : ∀ e ∈ a, e.1 ≠ field) :
    findField buf field (a ++ (field, old) :: z).length o =
      some (some (o + (pairCodec.encs a).length,
        o + (pairCodec.encs a).length + 4 + field.length, old.length)) := by
  induction a generalizing p o with
  | nil =>
    obtain ⟨here, next⟩ := scan_pair buf (q := pairCodec.encs z ++ q) hit (by simp [hbuf]) hoff
    simp [findField, here, next]
  | cons e a ih =>
    obtain ⟨here, next⟩ := scan_pair buf (q := pairCodec.encs (a ++ (field, old) :: z) ++ q)
      (valid e (by simp)) (by simp [hbuf]) hoff
    have rest := ih (p := p ++ pairCodec.enc e) (o := o + 4 + e.1.length + 4 + e.2.length)
      (fun e he => valid e (by simp [he])) (by simp [hbuf]) (by simp [hoff]; omega)
      (fun e he => miss e (by simp [he]))
    have skip : e.1 ≠ field := miss e (by simp)
    rw [List.cons_append, List.length_cons, findField, here]
    simp only [Option.bind_eq_bind, Option.bind_some, next, if_neg skip]
    rw [rest]
    simp only [Codec.encs_cons, enc_pairCodec, List.length_append, length_frame]
    rw [show o + 4 + e.1.length + 4 + e.2.length + (pairCodec.encs a).length =
      o + (4 + e.1.length + (4 + e.2.length) + (pairCodec.encs a).length) by omega]

/-- The scan over a represented hash, when the field is there. -/
theorem Rep.findField_hit (h : c.Rep (a ++ (field, old) :: z)) (miss : ∀ e ∈ a, e.1 ≠ field) :
    findField c.buf field c.len 0 = some (some ((pairCodec.encs a).length,
      (pairCodec.encs a).length + 4 + field.length, old.length)) := by
  have found := findField_some (p := []) (q := []) (o := 0) (fun e he => h.valid e (by simp [he]))
    (h.valid (field, old) (by simp)) (by simpa using h.buf) rfl miss
  simpa [h.len] using found

theorem Rep.findField_miss (h : c.Rep l) (miss : ∀ e ∈ l, e.1 ≠ field) :
    findField c.buf field c.len 0 = some none := by
  rw [h.len]
  exact findField_none (p := []) (q := []) h.valid (by simpa using h.buf) rfl miss

theorem Rep.get_hit (h : c.Rep (a ++ (field, old) :: z)) (miss : ∀ e ∈ a, e.1 ≠ field) :
    c.get field = some (some old) := by
  have body : slice c.buf ((pairCodec.encs a).length + 4 + field.length + 4)
      ((pairCodec.encs a).length + 4 + field.length + 4 + old.length) = some old :=
    slice_eq (a := pairCodec.encs a ++ frame field ++ leBytes 4 old.length) (c := pairCodec.encs z)
      (by simp [h.buf, frame]) (by simp; omega) (by simp; omega)
  simp [CompactHash.get, h.findField_hit miss, body]

theorem Rep.get_miss (h : c.Rep l) (miss : ∀ e ∈ l, e.1 ≠ field) : c.get field = some none := by
  simp [CompactHash.get, h.findField_miss miss]

theorem Rep.insert_new (h : c.Rep l) (miss : ∀ e ∈ l, e.1 ≠ field)
    (valid : pairCodec.Valid (field, val)) :
    ∃ c', c.insert field val = some (c', true, ((field.length + val.length : Nat) : Int)) ∧
      c'.Rep (l ++ [(field, val)]) :=
  ⟨_, by simp [CompactHash.insert, h.findField_miss miss], h.appendPair valid⟩

/-- An update keeps the pair in place when the value keeps its length, and moves it to the end
otherwise. -/
theorem Rep.insert_present (h : c.Rep (a ++ (field, old) :: z)) (miss : ∀ e ∈ a, e.1 ≠ field)
    (valid : pairCodec.Valid (field, val)) :
    ∃ c', c.insert field val = some (c', false, (val.length : Int) - old.length) ∧
      (c'.Rep (a ++ (field, val) :: z) ∨ c'.Rep (a ++ z ++ [(field, val)])) := by
  have others : ∀ e ∈ a ++ z, pairCodec.Valid e := by
    intro e he
    refine h.valid e ?_
    rw [List.mem_append] at he ⊢
    exact he.imp_right (List.mem_cons_of_mem _)
  have total : c.bytes = pairPayload (a ++ z) + (field.length + old.length) := by
    rw [h.bytes]
    simp only [pairPayload_append, pairPayload_cons]
    omega
  by_cases same : old.length = val.length
  · have write : overwrite c.buf ((pairCodec.encs a).length + 4 + field.length + 4) val =
        some (pairCodec.encs (a ++ (field, val) :: z)) := by
      rw [overwrite_append (a := pairCodec.encs a ++ frame field ++ leBytes 4 old.length)
        (c := pairCodec.encs z) (b := old) (by simp [h.buf, frame]) (by simp; omega) same.symm]
      simp [frame, same]
    refine ⟨{ c with buf := pairCodec.encs (a ++ (field, val) :: z) }, ?_, .inl ⟨rfl, ?_, ?_, ?_⟩⟩
    · simp [CompactHash.insert, h.findField_hit miss, same, write]
    · simpa using h.len
    · simp only [total, pairPayload_append, pairPayload_cons]
      omega
    · intro e he
      rw [List.mem_append, List.mem_cons] at he
      rcases he with he | rfl | he
      · exact others e (by simp [he])
      · exact valid
      · exact others e (by simp [he])
  · have before : slice c.buf 0 (pairCodec.encs a).length = some (pairCodec.encs a) :=
      slice_from_start (b := pairCodec.encs ((field, old) :: z)) (by simp [h.buf]) rfl
    have after : slice c.buf ((pairCodec.encs a).length + 4 + field.length + 4 + old.length) c.buf.length =
        some (pairCodec.encs z) :=
      slice_to_end (a := pairCodec.encs a ++ pairCodec.enc (field, old)) (by simp [h.buf])
        (by simp; omega)
    have sub : checkedSub c.bytes old.length = some (c.bytes - old.length) :=
      checkedSub_of_le (by omega)
    refine ⟨_, by
      simp only [CompactHash.insert, h.findField_hit miss, Option.bind_eq_bind, Option.bind_some,
        if_neg same, before, after, sub]
      rfl, .inr ⟨?_, ?_, ?_, ?_⟩⟩
    · simp [frame]
    · rw [show _ = c.len from rfl, h.len]
      simp only [List.length_append, List.length_cons, List.length_nil]
      omega
    · show c.bytes - old.length + val.length = _
      simp only [pairPayload_append, pairPayload_cons, pairPayload_nil] at total ⊢
      omega
    · intro e he
      rw [List.mem_append, List.mem_singleton] at he
      rcases he with he | rfl
      · exact others e he
      · exact valid

theorem foldl_removeBody_keep (s : HashRebuild)
    (keep : ∀ e ∈ l, ¬ (e.1 = field ∧ s.found.isNone)) :
    l.foldl (fun s e => removeBody field s e (pairCodec.enc e)) s =
      ⟨s.found, s.newBuf ++ pairCodec.encs l, s.newLen + l.length, s.newBytes + pairPayload l⟩ := by
  induction l generalizing s with
  | nil => simp
  | cons e l ih =>
    rw [List.foldl_cons, removeBody, if_neg (keep e (by simp)), ih]
    · simp only [Codec.encs_cons, List.append_assoc, List.length_cons, pairPayload_cons]
      congr 1 <;> omega
    · exact fun e he => keep e (by simp [he])

theorem Rep.remove_miss (h : c.Rep l) (miss : ∀ e ∈ l, e.1 ≠ field) :
    c.remove field = some (c, none) := by
  have loop := pairCodec.foldRecords_encs (f := removeBody field) (s := ⟨none, [], 0, 0⟩)
    (a := []) (z := []) (o := 0) h.valid (by simpa using h.buf) rfl
  rw [foldl_removeBody_keep _ fun e he hit => miss e he hit.1] at loop
  simp [CompactHash.remove, h.len, loop]

/-- The pair of the field is cut out of the buffer; what stands before and behind it stays. -/
theorem Rep.remove_hit (h : c.Rep (a ++ (field, old) :: z)) (miss : ∀ e ∈ a, e.1 ≠ field) :
    ∃ c', c.remove field = some (c', some (old, -((field.length + old.length : Nat) : Int))) ∧
      c'.Rep (a ++ z) := by
  have loop := pairCodec.foldRecords_encs (f := removeBody field) (s := ⟨none, [], 0, 0⟩)
    (a := []) (z := []) (o := 0) h.valid (by simpa using h.buf) rfl
  rw [List.foldl_append, foldl_removeBody_keep _ fun e he hit => miss e he hit.1, List.foldl_cons,
    removeBody, if_pos ⟨rfl, rfl⟩, foldl_removeBody_keep _ fun e he hit => by simp at hit] at loop
  refine ⟨⟨pairCodec.encs (a ++ z), (a ++ z).length, pairPayload (a ++ z)⟩, ?_, rfl, rfl, rfl, ?_⟩
  · rw [CompactHash.remove, h.len, loop]
    simp
  · intro e he
    refine h.valid e ?_
    rw [List.mem_append] at he ⊢
    exact he.imp_right (List.mem_cons_of_mem _)

/-- The pairs come in the order of the buffer. -/
theorem Rep.iterPairs_eq (h : c.Rep l) : c.iterPairs = some l := by
  rw [iterPairs, h.len]
  exact pairCodec.readAll_encs (a := []) (z := []) h.valid (by simpa using h.buf) rfl

end CompactHash

/-! ## Both encodings -/

/-- The operations of a hash. -/
inductive HashOp where
  | insert (field val : Bytes)
  | remove (field : Bytes)
  | ensureHashtable
  | maybeDemote
  | fromMap (m : AList fun _ : Bytes => Bytes)

/-- What an operation returns; a delta is the change of the payload. -/
inductive HashAns where
  | inserted (isNew : Bool) (delta : Int)
  | removed (r : Option (Bytes × Int))
  | done
deriving DecidableEq

/-- The payload delta an answer reports. -/
def HashAns.delta : HashAns → Option Int
  | .inserted _ delta => some delta
  | .removed r => some ((r.map Prod.snd).getD 0)
  | .done => none

/-- The lengths an operation stores fit the `u32` prefixes. -/
def HashOp.Valid : HashOp → Prop
  | .insert field val => pairCodec.Valid (field, val)
  | .fromMap m => ∀ e ∈ m.pairs, pairCodec.Valid e
  | _ => True

/-- One call: the thresholds in force, the iteration order the map happens to have, and the operation. -/
structure HashCall where
  thr : HashThresholds
  ord : PairOrder
  op : HashOp

/-! ### The abstract map -/

namespace HashSpec

/-- A finite map of byte strings. -/
abbrev Map := Bytes → Option Bytes

/-- What each operation does to a map. -/
def apply (op : HashOp) (m : Map) : Map × HashAns :=
  match op with
  | .insert field val =>
    (Function.update m field (some val), match m field with
      | none => .inserted true (field.length + val.length : Nat)
      | some old => .inserted false ((val.length : Int) - old.length))
  | .remove field =>
    (Function.update m field none,
      .removed ((m field).map fun old => (old, -((field.length + old.length : Nat) : Int))))
  | .ensureHashtable => (m, .done)
  | .maybeDemote => (m, .done)
  | .fromMap m' => (fun k => m'.lookup k, .done)

end HashSpec

namespace HashData

/-- One call on a hash, with the change of `payload_bytes()` it makes. -/
def step (call : HashCall) (d : HashData) : Option (HashData × HashAns × Int) := do
  let (d', r) ← (match call.op with
    | .insert field val => do
      let (d', isNew, delta) ← d.insert call.thr field val
      return (d', .inserted isNew delta)
    | .remove field => do
      let (d', r) ← d.remove call.thr call.ord field
      return (d', .removed r)
    | .ensureHashtable => do
      let d' ← d.ensureHashtable
      return (d', .done)
    | .maybeDemote => return (d.maybeDemote call.thr call.ord, .done)
    | .fromMap m => return (HashData.fromMap m, .done))
  return (d', r, (d'.payloadBytes : Int) - d.payloadBytes)

end HashData

/-! ### The table encoding -/

/-- The table stores the pairs `l` and caches their byte total. -/
structure HashtableHash.Rep (h : HashtableHash) (l : List (Bytes × Bytes)) : Prop where
  pairs : h.map.pairs = l
  bytes : h.bytes = pairPayload l
  valid : ∀ e ∈ l, pairCodec.Valid e

namespace HashtableHash

variable {h : HashtableHash} {l : List (Bytes × Bytes)} {m : HashSpec.Map} {field val : Bytes}

theorem Rep.lookup_eq (rep : h.Rep l) (lists : ListsMap l m) (k : Bytes) : h.map.lookup k = m k := by
  have own := h.map.lists_pairs
  rw [rep.pairs] at own
  exact congrFun (own.map_unique lists) k

theorem mem_pairs_of_mem_erase {e : Bytes × Bytes} (he : e ∈ (h.map.erase field).pairs) :
    e ∈ h.map.pairs := by
  obtain ⟨s, hs, rfl⟩ := List.mem_map.1 he
  exact List.mem_map_of_mem ((List.kerase_sublist _ _).mem hs)

/-- `insert` on the table: the flag and delta depend on what the field held. -/
theorem Rep.insert (rep : h.Rep l) (lists : ListsMap l m) (valid : pairCodec.Valid (field, val)) :
    ∃ h' l', h.insert field val = (h', match m field with
        | none => (true, ((field.length + val.length : Nat) : Int))
        | some old => (false, (val.length : Int) - old.length)) ∧
      h'.Rep l' ∧ ListsMap l' (Function.update m field (some val)) := by
  have stored : ∀ e ∈ (h.map.insert field val).pairs, pairCodec.Valid e := by
    intro e he
    rw [AList.pairs_insert, List.mem_cons] at he
    rcases he with rfl | he
    · exact valid
    · exact rep.valid e (rep.pairs ▸ mem_pairs_of_mem_erase he)
  have lists' : ListsMap (h.map.insert field val).pairs (Function.update m field (some val)) := by
    have new := (h.map.insert field val).lists_pairs
    rwa [AList.lookup_insert_update, funext (rep.lookup_eq lists)] at new
  have look := rep.lookup_eq lists field
  have total := rep.bytes
  rw [← rep.pairs] at total
  cases held : m field with
  | none =>
    rw [held] at look
    refine ⟨⟨h.map.insert field val, h.bytes + (field.length + val.length)⟩, _, ?_,
      ⟨rfl, ?_, stored⟩, lists'⟩
    · simp [HashtableHash.insert, look]
    · rw [AList.pairs_insert, AList.pairs_erase_of_absent look, pairPayload_cons, ← total]
      exact Nat.add_comm _ _
  | some old =>
    rw [held] at look
    refine ⟨⟨h.map.insert field val, h.bytes - old.length + val.length⟩, _, ?_,
      ⟨rfl, ?_, stored⟩, lists'⟩
    · simp [HashtableHash.insert, look]
    · rw [pairPayload_perm (AList.pairs_perm_erase look), pairPayload_cons] at total
      rw [AList.pairs_insert, pairPayload_cons]
      dsimp only at total ⊢
      omega

theorem Rep.remove_hit (rep : h.Rep l) (lists : ListsMap l m) {old : Bytes} (hit : m field = some old) :
    ∃ h' l', h.remove field = (h', some (old, -((field.length + old.length : Nat) : Int))) ∧
      h'.Rep l' ∧ ListsMap l' (Function.update m field none) := by
  have look := (rep.lookup_eq lists field).trans hit
  have total := rep.bytes
  rw [← rep.pairs, pairPayload_perm (AList.pairs_perm_erase look), pairPayload_cons] at total
  have lists' := (h.map.erase field).lists_pairs
  rw [AList.lookup_erase_update, funext (rep.lookup_eq lists)] at lists'
  refine ⟨⟨h.map.erase field, h.bytes - field.length - old.length⟩, _, ?_, ⟨rfl, ?_, ?_⟩, lists'⟩
  · simp [HashtableHash.remove, look]
  · dsimp only at total ⊢
    omega
  · exact fun e he => rep.valid e (rep.pairs ▸ mem_pairs_of_mem_erase he)

theorem Rep.remove_miss (rep : h.Rep l) (lists : ListsMap l m) (miss : m field = none) :
    h.remove field = (h, none) := by
  simp [HashtableHash.remove, (rep.lookup_eq lists field).trans miss]

theorem foldl_insert_pairs (l : List (Bytes × Bytes)) (h : HashtableHash)
    (nodup : (l.map Prod.fst).Nodup) (new : ∀ e ∈ l, h.map.lookup e.1 = none) :
    (l.foldl (fun h e => (h.insert e.1 e.2).1) h).map.pairs.Perm (l ++ h.map.pairs) := by
  induction l generalizing h with
  | nil => exact .refl _
  | cons e l ih =>
    have here := new e (by simp)
    have grown : (h.insert e.1 e.2).1.map = h.map.insert e.1 e.2 := by
      simp [HashtableHash.insert, here]
    rw [List.map_cons, List.nodup_cons] at nodup
    have rest := ih (h.insert e.1 e.2).1 nodup.2 (by
      intro e' he'
      have other : e'.1 ≠ e.1 := fun same => nodup.1 (same ▸ List.mem_map_of_mem he')
      rw [grown, AList.lookup_insert_ne other]
      exact new e' (by simp [he']))
    rw [grown, AList.pairs_insert, AList.pairs_erase_of_absent here] at rest
    rw [List.foldl_cons, List.cons_append]
    exact rest.trans List.perm_middle

end HashtableHash

/-! ### Both encodings -/

namespace HashData

/-- The value stores the pairs `l` and caches their byte total. -/
def Holds (d : HashData) (l : List (Bytes × Bytes)) : Prop :=
  match d with
  | .compact c => c.Rep l
  | .hashtable h => h.Rep l

/-- `d` stands for the map `m`. -/
def Rep (d : HashData) (m : HashSpec.Map) : Prop := ∃ l, d.Holds l ∧ ListsMap l m

variable {d : HashData} {l : List (Bytes × Bytes)} {m : HashSpec.Map} {field val : Bytes}

/-- The payload is counted the same in both encodings. -/
theorem Holds.payloadBytes_eq (h : d.Holds l) : d.payloadBytes = pairPayload l := by
  cases d with
  | compact c => exact CompactHash.Rep.bytes h
  | hashtable t => exact HashtableHash.Rep.bytes h

/-- **The promotion keeps the map**: the pairs of the buffer are put into a table. -/
theorem toHashtable_rep {c : CompactHash} (rep : c.Rep l) (lists : ListsMap l m) :
    ∃ h l', toHashtable (.compact c) = some h ∧ h.Rep l' ∧ ListsMap l' m := by
  have perm := HashtableHash.foldl_insert_pairs l .withCapacity lists.nodup (fun _ _ => rfl)
  have same : (l ++ HashtableHash.withCapacity.map.pairs) = l := List.append_nil l
  rw [same] at perm
  refine ⟨⟨_, c.bytes⟩, _, ?_, ⟨rfl, ?_, ?_⟩, lists.perm perm⟩
  · simp only [toHashtable, rep.iterPairs_eq, Option.bind_eq_bind, Option.bind_some]
    rfl
  · rw [pairPayload_perm perm]
    exact rep.bytes
  · exact fun e he => rep.valid e (perm.mem_iff.1 he)

/-- A promotion with an insertion is that insertion on the map. -/
theorem promoteInsert_rep {c : CompactHash} (rep : c.Rep l) (lists : ListsMap l m)
    (valid : pairCodec.Valid (field, val)) :
    ∃ d', promoteInsert c field val = some (d', match m field with
        | none => (true, ((field.length + val.length : Nat) : Int))
        | some old => (false, (val.length : Int) - old.length)) ∧
      d'.Rep (Function.update m field (some val)) := by
  obtain ⟨h, l', table, rep', lists'⟩ := toHashtable_rep rep lists
  obtain ⟨h'', l'', run, rep'', lists''⟩ := rep'.insert lists' valid
  exact ⟨.hashtable h'', by simp [promoteInsert, table, run], l'', rep'', lists''⟩

/-- An insertion into the buffer is one on the map. -/
theorem compact_insert_rep {c : CompactHash} (rep : c.Rep l) (lists : ListsMap l m)
    (valid : pairCodec.Valid (field, val)) :
    ∃ c' l', c.insert field val = some (c', match m field with
        | none => (true, ((field.length + val.length : Nat) : Int))
        | some old => (false, (val.length : Int) - old.length)) ∧
      c'.Rep l' ∧ ListsMap l' (Function.update m field (some val)) := by
  cases held : m field with
  | none =>
    obtain ⟨c', run, rep'⟩ := rep.insert_new (lists.absent held) valid
    exact ⟨c', _, run, rep', lists.append_new held⟩
  | some old =>
    obtain ⟨a, z, rfl, miss, -⟩ := lists.split held
    obtain ⟨c', run, rep' | rep'⟩ := rep.insert_present miss valid
    · exact ⟨c', _, run, rep', lists.replace val⟩
    · exact ⟨c', _, run, rep', lists.replace_last val⟩

/-- And a lookup in the buffer is one in the map. -/
theorem compact_get_rep {c : CompactHash} (rep : c.Rep l) (lists : ListsMap l m) (field : Bytes) :
    c.get field = some (m field) := by
  cases held : m field with
  | none => exact rep.get_miss (lists.absent held)
  | some old =>
    obtain ⟨a, z, rfl, miss, -⟩ := lists.split held
    exact rep.get_hit miss

/-- **HSET on either encoding is an update of the map**, whatever the thresholds are. -/
theorem Rep.insert (h : d.Rep m) (thr : HashThresholds) (valid : pairCodec.Valid (field, val)) :
    ∃ d', d.insert thr field val = some (d', match m field with
        | none => (true, ((field.length + val.length : Nat) : Int))
        | some old => (false, (val.length : Int) - old.length)) ∧
      d'.Rep (Function.update m field (some val)) := by
  obtain ⟨l, holds, lists⟩ := h
  cases d with
  | hashtable t =>
    obtain ⟨t', l', run, rep', lists'⟩ := HashtableHash.Rep.insert holds lists valid
    exact ⟨.hashtable t', by simp [HashData.insert, run], l', rep', lists'⟩
  | compact c =>
    have promoted := promoteInsert_rep holds lists valid
    obtain ⟨c', l', run, rep', lists'⟩ := compact_insert_rep holds lists valid
    have contains : c.containsKey field = some (m field).isSome := by
      simp [CompactHash.containsKey, compact_get_rep holds lists]
    simp only [HashData.insert]
    split
    · exact promoted
    · simp only [contains, Option.bind_eq_bind, Option.bind_some]
      split
      · exact promoted
      · exact ⟨.compact c', by simp [run], l', rep', lists'⟩

theorem Rep.maybeDemote (h : d.Rep m) (thr : HashThresholds) (ord : PairOrder) :
    (d.maybeDemote thr ord).Rep m := by
  obtain ⟨l, holds, lists⟩ := h
  cases d with
  | compact c => exact ⟨l, holds, lists⟩
  | hashtable t =>
    rw [HashData.maybeDemote]
    split
    · exact ⟨l, holds, lists⟩
    split
    · have perm : (t.iter ord).Perm l := HashtableHash.Rep.pairs holds ▸ ord.perm t.map.pairs
      refine ⟨t.iter ord, ?_, lists.perm perm⟩
      have packed := CompactHash.foldl_appendPair_rep (z := t.iter ord) CompactHash.new_rep
        fun e he => HashtableHash.Rep.valid holds e (perm.mem_iff.1 he)
      rwa [List.nil_append] at packed
    · exact ⟨l, holds, lists⟩

/-- **HDEL on either encoding is a removal from the map**, and may demote. -/
theorem Rep.remove (h : d.Rep m) (thr : HashThresholds) (ord : PairOrder) (field : Bytes) :
    ∃ d', d.remove thr ord field = some (d', (m field).map fun old =>
        (old, -((field.length + old.length : Nat) : Int))) ∧
      d'.Rep (Function.update m field none) := by
  obtain ⟨l, holds, lists⟩ := h
  cases held : m field with
  | none =>
    refine ⟨d, ?_, l, holds, ?_⟩
    · cases d with
      | compact c => simp [HashData.remove, CompactHash.Rep.remove_miss holds (lists.absent held)]
      | hashtable t => simp [HashData.remove, HashtableHash.Rep.remove_miss holds lists held]
    · rwa [← held, Function.update_eq_self]
  | some old =>
    cases d with
    | compact c =>
      obtain ⟨a, z, rfl, miss, -⟩ := lists.split held
      obtain ⟨c', run, rep'⟩ := CompactHash.Rep.remove_hit holds miss
      have kept : (HashData.compact c').Rep (Function.update m field none) := ⟨_, rep', lists.remove⟩
      exact ⟨_, by simp [HashData.remove, run], kept.maybeDemote thr ord⟩
    | hashtable t =>
      obtain ⟨t', l', run, rep', lists'⟩ := HashtableHash.Rep.remove_hit holds lists held
      have kept : (HashData.hashtable t').Rep (Function.update m field none) := ⟨l', rep', lists'⟩
      exact ⟨_, by simp [HashData.remove, run], kept.maybeDemote thr ord⟩

/-- A promotion that is asked for keeps the map, too. -/
theorem Rep.ensureHashtable (h : d.Rep m) : ∃ d', d.ensureHashtable = some d' ∧ d'.Rep m := by
  obtain ⟨l, holds, lists⟩ := h
  cases d with
  | compact c =>
    obtain ⟨t, l', table, rep', lists'⟩ := toHashtable_rep holds lists
    exact ⟨.hashtable t, by simp [HashData.ensureHashtable, table], l', rep', lists'⟩
  | hashtable t => exact ⟨.hashtable t, rfl, l, holds, lists⟩

/-- A hash that is built from a map stands for it. -/
theorem fromMap_rep {m : AList fun _ : Bytes => Bytes} (valid : ∀ e ∈ m.pairs, pairCodec.Valid e) :
    (HashData.fromMap m).Rep fun k => m.lookup k :=
  ⟨m.pairs, ⟨rfl, rfl, valid⟩, m.lists_pairs⟩

/-! ### Reads -/

/-- What is read from `d` is the map `m`: every field once, with its value, and the payload is
the sum of the lengths stored. -/
structure Agrees (d : HashData) (m : HashSpec.Map) : Prop where
  pairs : ∀ ord : PairOrder, ∃ l, d.toPairs ord = some l ∧ d.iterPairsRef ord = some l ∧
    (l.map Prod.fst).Nodup ∧ (∀ f v, (f, v) ∈ l ↔ m f = some v) ∧ d.len = l.length ∧
    d.payloadBytes = (l.map fun e => e.1.length + e.2.length).sum
  get : ∀ f, d.get f = some (m f)
  containsKey : ∀ f, d.containsKey f = some (m f).isSome

/-- All ways to list the pairs list the same. -/
theorem Holds.toPairs_eq (h : d.Holds l) (ord : PairOrder) :
    ∃ l', d.toPairs ord = some l' ∧ d.iterPairsRef ord = some l' ∧ d.len = l'.length ∧ l'.Perm l := by
  cases d with
  | compact c =>
    have read := CompactHash.Rep.iterPairs_eq h
    exact ⟨l, read, read, CompactHash.Rep.len h, .refl l⟩
  | hashtable t =>
    have perm : (t.iter ord).Perm l := HashtableHash.Rep.pairs h ▸ ord.perm t.map.pairs
    refine ⟨t.iter ord, rfl, rfl, ?_, perm⟩
    rw [perm.length_eq, ← HashtableHash.Rep.pairs h]
    exact (List.length_map _).symm

theorem Rep.agrees (h : d.Rep m) : d.Agrees m := by
  obtain ⟨l, holds, lists⟩ := h
  refine ⟨fun ord => ?_, fun f => ?_, fun f => ?_⟩
  · obtain ⟨l', read, ref, len, perm⟩ := holds.toPairs_eq ord
    have lists' := lists.perm perm
    refine ⟨l', read, ref, lists'.nodup, lists'.mem, len, ?_⟩
    rw [holds.payloadBytes_eq, ← pairPayload_perm perm]
    rfl
  · cases d with
    | compact c => exact compact_get_rep holds lists f
    | hashtable t => exact congrArg some (HashtableHash.Rep.lookup_eq holds lists f)
  · cases d with
    | compact c => simp [HashData.containsKey, CompactHash.containsKey, compact_get_rep holds lists]
    | hashtable t =>
      simp [HashData.containsKey, HashtableHash.containsKey, HashtableHash.Rep.lookup_eq holds lists]

/-! ### Runs -/

/-- The payload changes by the delta the abstract map answers. -/
theorem payload_change {d d' : HashData} {m : HashSpec.Map} (op : HashOp) (h : d.Rep m)
    (h' : d'.Rep (HashSpec.apply op m).1) :
    ∀ delta ∈ (HashSpec.apply op m).2.delta, delta = (d'.payloadBytes : Int) - d.payloadBytes := by
  obtain ⟨l, holds, lists⟩ := h
  obtain ⟨l', holds', lists'⟩ := h'
  rw [holds.payloadBytes_eq, holds'.payloadBytes_eq]
  cases op with
  | insert field val =>
    cases held : m field with
    | none =>
      have grown := pairPayload_perm (lists'.perm_of (lists.append_new held))
      simp [HashSpec.apply, HashAns.delta, held, grown]
    | some old =>
      obtain ⟨a, z, rfl, -⟩ := lists.split held
      have moved := pairPayload_perm (lists'.perm_of (lists.replace_last val))
      simp only [HashSpec.apply, HashAns.delta, held, Option.mem_def, Option.some_inj, moved,
        pairPayload_append, pairPayload_cons, pairPayload_nil]
      omega
  | remove field =>
    cases held : m field with
    | none =>
      have kept : Function.update m field none = m := by rw [← held, Function.update_eq_self]
      have same := pairPayload_perm (lists'.perm_of (kept.symm ▸ lists))
      simp [HashSpec.apply, HashAns.delta, held, same]
    | some old =>
      obtain ⟨a, z, rfl, -⟩ := lists.split held
      have shrunk := pairPayload_perm (lists'.perm_of lists.remove)
      simp only [HashSpec.apply, HashAns.delta, held, Option.map_some, Option.getD_some,
        Option.mem_def, Option.some_inj, shrunk, pairPayload_append, pairPayload_cons]
      omega
  | ensureHashtable => simp [HashSpec.apply, HashAns.delta]
  | maybeDemote => simp [HashSpec.apply, HashAns.delta]
  | fromMap m => simp [HashSpec.apply, HashAns.delta]

/-- An answer agrees with the abstract one, and the delta it reports is the measured change. -/
def AnswersAgree (r : HashAns × Int) (spec : HashAns) : Prop :=
  r.1 = spec ∧ ∀ delta ∈ r.1.delta, delta = r.2

/-- **The step lemma**: a call on a value that stands for `m` returns, answers what the
abstract operation answers, and leaves a value that stands for the abstract result. -/
theorem step_refines (call : HashCall) (valid : call.op.Valid) (h : d.Rep m) :
    ∃ d' r, d.step call = some (d', r) ∧ AnswersAgree r (HashSpec.apply call.op m).2 ∧
      d'.Rep (HashSpec.apply call.op m).1 := by
  -- every operation returns the abstract answer and keeps `Rep`; the delta is `payload_change`
  suffices answer : ∃ d', d.step call =
      some (d', (HashSpec.apply call.op m).2, (d'.payloadBytes : Int) - d.payloadBytes) ∧
      d'.Rep (HashSpec.apply call.op m).1 by
    obtain ⟨d', run, rep⟩ := answer
    exact ⟨d', _, run, ⟨rfl, payload_change call.op h rep⟩, rep⟩
  obtain ⟨thr, ord, op⟩ := call
  cases op with
  | insert field val =>
    obtain ⟨d', run, rep⟩ := h.insert thr valid
    refine ⟨d', ?_, rep⟩
    simp only [step, run, HashSpec.apply]
    cases m field <;> rfl
  | remove field =>
    obtain ⟨d', run, rep⟩ := h.remove thr ord field
    exact ⟨d', by simp [step, run, HashSpec.apply], rep⟩
  | ensureHashtable =>
    obtain ⟨d', run, rep⟩ := h.ensureHashtable
    exact ⟨d', by simp [step, run, HashSpec.apply], rep⟩
  | maybeDemote => exact ⟨_, rfl, h.maybeDemote thr ord⟩
  | fromMap m' => exact ⟨_, rfl, fromMap_rep valid⟩

theorem new_rep : HashData.new.Rep fun _ => none := ⟨[], CompactHash.new_rep, .nil⟩

/-- Every run of hash operations refines the run of the abstract map. -/
theorem run_refines (calls : List HashCall) (valid : ∀ call ∈ calls, call.op.Valid) :
    ∃ d answers, Run.run HashData.step calls HashData.new = some (d, answers) ∧
      let spec := Run.specRun (fun call : HashCall => HashSpec.apply call.op) calls fun _ => none
      List.Forall₂ AnswersAgree answers spec.2 ∧ d.Agrees spec.1 := by
  have one : ∀ (call : HashCall) (d : HashData) (m : HashSpec.Map), call.op.Valid → d.Rep m →
      ∃ d' r, d.step call = some (d', r) ∧ AnswersAgree r (HashSpec.apply call.op m).2 ∧
        (True → d'.Rep (HashSpec.apply call.op m).1) := by
    intro call d m valid rep
    obtain ⟨d', r, run, agree, rep'⟩ := step_refines call valid rep
    exact ⟨d', r, run, agree, fun _ => rep'⟩
  obtain ⟨d, answers, run, agree, rep⟩ :=
    Run.run_refines one valid (fun _ _ _ _ _ => trivial) new_rep
  exact ⟨d, answers, run, agree, rep.agrees⟩

end HashData

end NexradeCache
