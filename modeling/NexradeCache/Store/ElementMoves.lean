import Mathlib.Algebra.BigOperators.Group.Finset.Piecewise
import Mathlib.Tactic.Abel
import NexradeCache.Data.SetRefinement
import NexradeCache.Data.WireValues
import NexradeCache.Store.Atomic

/-!
# Moves between two keys (`lmove_atomic` and `smove_atomic` of `nexrade-core/src/store.rs`)

`Live` is what a reader sees of the keys: the elements of lists, the members of sets, and the expiry. A move takes an
element out of the source, removes the source if that empties it, and adds the element to the destination, which is
created if it is not there. If source and destination are one key with one element, the key is removed and created
again, and so it loses its expiry. That is the only case in which a move does more than it should.
-/

namespace NexradeCache

open Function (update)

/-- What a reader gets of a value. -/
inductive Shown where
  | list (l : List Bytes)
  | set (s : Finset Bytes)
  | other (v : DataType)

def DataType.isOther : DataType → Bool
  | .list _ | .set _ => false
  | _ => true

/-- What a value stands for, of the types an element can move between. -/
inductive DataType.Shows : DataType → Shown → Prop
  | list {d : ListData} {l : List Bytes} : d.Rep l → Shows (.list d) (.list l)
  | set {d : SetData} {s : Finset Bytes} : d.Rep s → Shows (.set d) (.set s)
  | other {v : DataType} : v.isOther = true → Shows v (.other v)

theorem DataType.Sound.exists_shows {v : DataType} (sound : v.Sound) : ∃ s, v.Shows s := by
  cases v with
  | list d =>
    obtain ⟨-, l, rep⟩ := sound
    exact ⟨.list l, .list rep⟩
  | set d =>
    obtain ⟨s, rep⟩ := sound
    exact ⟨.set s, .set rep⟩
  | _ => exact ⟨_, .other rfl⟩

/-- The live keys, with what they show and their expiry. -/
abbrev Live := Bytes → Option (Shown × Option Nat)

def Entry.Shows (e : Entry) (c : Shown × Option Nat) : Prop := e.value.Shows c.1 ∧ e.expiry = c.2

abbrev Seen : Option Entry → Option (Shown × Option Nat) → Prop := Option.Rel Entry.Shows

/-! ## What moves are for -/

namespace Live

def takeEnd (fromLeft : Bool) (l : List Bytes) : Option (Bytes × List Bytes) :=
  if fromLeft then l.head?.map fun v => (v, l.tail) else l.getLast?.map fun v => (v, l.dropLast)

def putEnd (toLeft : Bool) (v : Bytes) (l : List Bytes) : List Bytes := if toLeft then v :: l else l ++ [v]

/-- A list that an element was taken from; an empty one is gone. -/
def leftList (l : List Bytes) (t : Option Nat) : Option (Shown × Option Nat) :=
  if l = [] then none else some (.list l, t)

def leftSet (s : Finset Bytes) (t : Option Nat) : Option (Shown × Option Nat) :=
  if s = ∅ then none else some (.set s, t)

/-- The list a key has or would have, none if it is of another type. -/
def listOr : Option (Shown × Option Nat) → Option (List Bytes × Option Nat)
  | none => some ([], none)
  | some (.list l, t) => some (l, t)
  | some _ => none

def setOr : Option (Shown × Option Nat) → Option (Finset Bytes × Option Nat)
  | none => some (∅, none)
  | some (.set s, t) => some (s, t)
  | some _ => none

/-- What LMOVE may answer and leave. -/
inductive Lmove (m : Live) (src dst : Bytes) (fromLeft toLeft : Bool) : Except OpError (Option Bytes) → Live → Prop
  | refused : Lmove m src dst fromLeft toLeft (.error .wrongType) m
  | nothing : Lmove m src dst fromLeft toLeft (.ok none) m
  | rotated {l rest : List Bytes} {t : Option Nat} {v : Bytes} :
    src = dst → m src = some (.list l, t) → takeEnd fromLeft l = some (v, rest) →
    Lmove m src dst fromLeft toLeft (.ok (some v)) (update m src (some (.list (putEnd toLeft v rest), t)))
  | moved {l rest k : List Bytes} {t t' : Option Nat} {v : Bytes} :
    src ≠ dst → m src = some (.list l, t) → takeEnd fromLeft l = some (v, rest) → listOr (m dst) = some (k, t') →
    Lmove m src dst fromLeft toLeft (.ok (some v))
      (update (update m src (leftList rest t)) dst (some (.list (putEnd toLeft v k), t')))

/-- What SMOVE may answer and leave. -/
inductive Smove (m : Live) (src dst member : Bytes) : Except OpError Nat → Live → Prop
  | refused : Smove m src dst member (.error .wrongType) m
  | nothing : Smove m src dst member (.ok 0) m
  | same {s : Finset Bytes} {t : Option Nat} :
    src = dst → m src = some (.set s, t) → member ∈ s → Smove m src dst member (.ok 1) m
  | moved {s k : Finset Bytes} {t t' : Option Nat} :
    src ≠ dst → m src = some (.set s, t) → member ∈ s → setOr (m dst) = some (k, t') →
    Smove m src dst member (.ok 1)
      (update (update m src (leftSet (s.erase member) t)) dst (some (.set (insert member k), t')))

/-- The elements of a list. -/
def elements : Option (Shown × Option Nat) → Multiset Bytes
  | some (.list l, _) => l
  | _ => 0

/-- All list elements of any keys that include both. -/
def Conserves (src dst : Bytes) (m m' : Live) : Prop :=
  ∀ keys : Finset Bytes, src ∈ keys → dst ∈ keys → ∑ k ∈ keys, elements (m' k) = ∑ k ∈ keys, elements (m k)

theorem cons_of_takeEnd {fromLeft : Bool} {l rest : List Bytes} {v : Bytes} (h : takeEnd fromLeft l = some (v, rest)) :
    (v ::ₘ (rest : Multiset Bytes)) = (l : Multiset Bytes) := by
  unfold takeEnd at h
  split at h
  · obtain ⟨w, first, h⟩ := Option.map_eq_some_iff.1 h
    cases h
    obtain ⟨tail, rfl⟩ := List.head?_eq_some_iff.1 first
    rfl
  · obtain ⟨w, last, h⟩ := Option.map_eq_some_iff.1 h
    cases h
    obtain ⟨init, rfl⟩ := List.getLast?_eq_some_iff.1 last
    rw [List.dropLast_concat, Multiset.cons_coe]
    exact Multiset.coe_eq_coe.2 (List.perm_append_singleton v init).symm

theorem coe_putEnd (toLeft : Bool) (v : Bytes) (l : List Bytes) :
    (putEnd toLeft v l : Multiset Bytes) = v ::ₘ (l : Multiset Bytes) := by
  unfold putEnd
  split
  · rfl
  · exact Multiset.coe_eq_coe.2 (List.perm_append_singleton v l)

theorem elements_leftList (l : List Bytes) (t : Option Nat) : elements (leftList l t) = l := by
  unfold leftList
  split
  · rename_i empty
    rw [empty]
    rfl
  · rfl

theorem elements_of_listOr {c : Option (Shown × Option Nat)} {k : List Bytes} {t : Option Nat}
    (h : listOr c = some (k, t)) : elements c = k := by
  unfold listOr at h
  split at h
  · cases h
    rfl
  · cases h
    rfl
  · cases h

/-- A move of an element conserves the elements. -/
theorem Lmove.conserves {m m' : Live} {src dst : Bytes} {fromLeft toLeft : Bool} {r : Except OpError (Option Bytes)}
    (h : Lmove m src dst fromLeft toLeft r m') : Conserves src dst m m' := by
  intro keys hsrc hdst
  cases h with
  | refused => rfl
  | nothing => rfl
  | @rotated l rest t v same found taken =>
    refine Finset.sum_congr rfl fun k _ => ?_
    by_cases here : k = src
    · subst here
      rw [Function.update_self, found, elements, elements, coe_putEnd, cons_of_takeEnd taken]
    · rw [Function.update_of_ne here]
  | @moved l rest k t t' v ne found taken isList =>
    have there : dst ∈ keys.erase src := Finset.mem_erase.2 ⟨ne.symm, hdst⟩
    rw [← Finset.add_sum_erase _ _ hsrc, ← Finset.add_sum_erase _ _ there, ← Finset.add_sum_erase keys _ hsrc,
      ← Finset.add_sum_erase _ _ there, Function.update_of_ne ne, Function.update_self, Function.update_self, found,
      elements_leftList, elements_of_listOr isList, elements, elements, coe_putEnd, ← cons_of_takeEnd taken]
    have others : ∑ x ∈ (keys.erase src).erase dst,
        elements (update (update m src (leftList rest t)) dst (some (.list (putEnd toLeft v k), t')) x) =
        ∑ x ∈ (keys.erase src).erase dst, elements (m x) := by
      refine Finset.sum_congr rfl fun x mem => ?_
      obtain ⟨notDst, mem⟩ := Finset.mem_erase.1 mem
      rw [Function.update_of_ne notDst, Function.update_of_ne (Finset.ne_of_mem_erase mem)]
    rw [others]
    simp only [← Multiset.singleton_add]
    abel

end Live

namespace Live

/-- The effect of LMOVE as the code has it: the source is removed before the destination is looked at again. -/
def lmove (m : Live) (src dst : Bytes) (fromLeft toLeft : Bool) : Live × Except OpError (Option Bytes) :=
  match listOr (m dst), m src with
  | none, _ => (m, .error .wrongType)
  | some _, none => (m, .ok none)
  | some _, some (.list l, t) =>
    match takeEnd fromLeft l with
    | none => (m, .ok none)
    | some (v, rest) =>
      let m := update m src (leftList rest t)
      match listOr (m dst) with
      | some (k, t') => (update m dst (some (.list (putEnd toLeft v k), t')), .ok (some v))
      | none => (m, .ok (some v))
  | some _, some _ => (m, .error .wrongType)

/-- The effect of SMOVE, which also refuses a destination that has another type and has expired. -/
def smove (usable : Bool) (m : Live) (src dst member : Bytes) : Live × Except OpError Nat :=
  match usable, m src with
  | false, _ => (m, .error .wrongType)
  | true, none => (m, .ok 0)
  | true, some (.set s, t) =>
    if member ∈ s then
      let m := update m src (leftSet (s.erase member) t)
      match setOr (m dst) with
      | some (k, t') => (update m dst (some (.set (insert member k), t')), .ok 1)
      | none => (m, .ok 1)
    else (m, .ok 0)
  | true, some _ => (m, .error .wrongType)

end Live

/-! ## Single steps -/

namespace Database

open Live

variable {e : Entry} {t : Option Nat}

theorem popEdit_list (thr : ListThresholds) (fromLeft : Bool) {d : ListData} {l : List Bytes} (isList : e.value = .list d)
    (rep : d.Rep l) (small : d.Small) :
    ∃ d', popEdit thr fromLeft e = (.list d',
        match takeEnd fromLeft l with
        | some (v, rest) => .value v (-(v.length : Int)) (rest.length == 0)
        | none => .nothing) ∧
      d'.Rep ((takeEnd fromLeft l).elim l Prod.snd) ∧
      ((∀ x ∈ l, Bytes.frameCodec.Valid x) → d'.Walks ((takeEnd fromLeft l).elim l Prod.snd)) := by
  unfold popEdit takeEnd
  cases fromLeft with
  | true =>
    obtain ⟨d', run, rep', walks⟩ := rep.popFront small thr
    have len := rep'.len_eq
    cases l with
    | nil => exact ⟨d', by simp [isList, run], rep', walks⟩
    | cons x l =>
      rw [List.tail_cons] at len
      exact ⟨d', by simp [isList, run, len], rep', walks⟩
  | false =>
    obtain ⟨d', run, rep', walks⟩ := rep.popBack small thr
    have len := rep'.len_eq
    cases last : l.getLast? with
    | none =>
      obtain rfl := List.getLast?_eq_none_iff.1 last
      exact ⟨d', by simp [isList, run], rep', walks⟩
    | some x =>
      rw [last] at run
      exact ⟨d', by simp [isList, run, len], by simpa using rep', by simpa using walks⟩

theorem pushEdit_list (thr : ListThresholds) (toLeft : Bool) (v : Bytes) {d : ListData} {l : List Bytes}
    (isList : e.value = .list d) (rep : d.Rep l) (walks : d.Walks l) :
    ∃ d', pushEdit thr toLeft v e = (.list d', some (v.length : Int)) ∧ d'.Rep (putEnd toLeft v l) := by
  unfold pushEdit putEnd
  cases toLeft with
  | true =>
    obtain ⟨d', run, rep'⟩ := rep.pushFront walks thr v
    exact ⟨d', by simp [isList, run], rep'⟩
  | false =>
    obtain ⟨d', run, rep'⟩ := rep.pushBack walks thr v
    exact ⟨d', by simp [isList, run], rep'⟩

theorem takeEdit_set (thr : SetThresholds) (member : Bytes) {d : SetData} {s : Finset Bytes} (isSet : e.value = .set d)
    (rep : d.Rep s) :
    ∃ d' : SetData, (takeEdit thr member e).1 = .set d' ∧ d'.Rep (s.erase member) ∧
      (takeEdit thr member e).2 =
        if member ∈ s then .value () (-(member.length : Int)) (decide (s.erase member = ∅)) else .nothing := by
  obtain ⟨l, holds, nodup, rfl⟩ := rep
  by_cases hit : member ∈ l
  · obtain ⟨d', l', run, holds', perm⟩ := holds.remove_hit thr hit
    have rep' : d'.Rep (l.toFinset.erase member) := SetData.rep_of_perm_cons nodup perm holds'
    refine ⟨d', by simp [takeEdit, isSet, run], rep', ?_⟩
    obtain ⟨l₂, holds₂, nodup₂, eq⟩ := rep'
    have empty : d'.isEmpty = decide (l.toFinset.erase member = ∅) := by
      rw [SetData.isEmpty, holds₂.len_eq, ← eq, Bool.eq_iff_iff]
      simp
    simp [takeEdit, isSet, run, hit, empty]
  · refine ⟨d, ?_, ⟨l, holds, nodup, ?_⟩, ?_⟩
    · simp [takeEdit, isSet, holds.remove_miss thr hit]
    · rw [Finset.erase_eq_of_notMem (by simpa using hit)]
    · simp [takeEdit, isSet, holds.remove_miss thr hit, hit]

theorem addEdit_set (thr : SetThresholds) {member : Bytes} (valid : Bytes.frameCodec.Valid member) {d : SetData}
    {s : Finset Bytes} (isSet : e.value = .set d) (rep : d.Rep s) :
    ∃ (d' : SetData) (delta : Int), addEdit thr member e = (.set d', some delta) ∧ d'.Rep (Insert.insert member s) := by
  obtain ⟨l, holds, nodup, rfl⟩ := rep
  obtain ⟨d', run, holds'⟩ := holds.insert nodup thr valid
  refine ⟨d', _, by simp only [addEdit, isSet, run]; rfl, _, holds', ?_⟩
  split
  · rename_i there
    exact ⟨nodup, by rw [Finset.insert_eq_of_mem (by simpa using there)]⟩
  · rename_i new
    refine ⟨?_, by ext; simp⟩
    rw [List.nodup_append_comm]
    exact List.nodup_cons.2 ⟨new, nodup⟩

/-- The members of a set fit their length prefixes. -/
theorem valid_of_rep {d : SetData} {s : Finset Bytes} (rep : d.Rep s) {member : Bytes} (mem : member ∈ s) :
    Bytes.frameCodec.Valid member := by
  obtain ⟨l, holds, -, rfl⟩ := rep
  have mem : member ∈ l := by simpa using mem
  cases d with
  | compact c => exact CompactSet.Rep.valid holds member mem
  | hashtable h => exact HashtableSet.Rep.valid holds member mem

end Database

/-! ## The store -/

namespace ShardedDatabase

open Live Database

/-- The live keys of the store, as `m` has them. -/
def Represents (now : Nat) (db : ShardedDatabase) (m : Live) : Prop := ∀ key, Seen (db.getRo now key) (m key)

variable {now : Nat} {db db' : ShardedDatabase} {m : Live} {key src dst : Bytes}

/-- A store whose values are sound shows something. -/
theorem exists_represents (sound : ∀ key e, db.getRo now key = some e → e.value.Sound) : ∃ m, Represents now db m := by
  have one (key : Bytes) : ∃ c, Seen (db.getRo now key) c := by
    cases found : db.getRo now key with
    | none => exact ⟨none, .none⟩
    | some e =>
      obtain ⟨s, shows⟩ := (sound key e found).exists_shows
      exact ⟨some (s, e.expiry), .some ⟨shows, rfl⟩⟩
  exact Classical.skolem.1 one

theorem Represents.update (rep : Represents now db m) {e : Option Entry} {c : Option (Shown × Option Nat)}
    (after : ∀ x, db'.getRo now x = if x = key then e else db.getRo now x) (here : Seen e c) :
    Represents now db' (update m key c) := by
  intro x
  rw [after]
  by_cases same : x = key
  · subst same
    rwa [if_pos rfl, Function.update_self]
  · rw [if_neg same, Function.update_of_ne same]
    exact rep x

/-- Compact lists are below `2 ^ 32` bytes, and so are the elements of all lists. -/
structure Sized (now : Nat) (db : ShardedDatabase) (m : Live) : Prop where
  small : ∀ {key e d}, db.getRo now key = some e → e.value = .list d → d.Small
  short : ∀ {key l t}, m key = some (.list l, t) → ∀ x ∈ l, Bytes.frameCodec.Valid x

theorem Represents.entry (rep : Represents now db m) {s : Shown} {t : Option Nat} (found : m key = some (s, t)) :
    ∃ e, db.getRo now key = some e ∧ e.value.Shows s ∧ e.expiry = t := by
  have here := rep key
  rw [found] at here
  cases entry : db.getRo now key with
  | none =>
    rw [entry] at here
    cases here
  | some e =>
    rw [entry] at here
    cases here with
    | some shows => exact ⟨e, rfl, shows⟩

/-- An operation that leaves at its key what was shown there. -/
theorem Represents.unmoved {α : Type} {f : Database → Database × α} {answer : Nat → Option Entry → α}
    {leaves : Nat → Option Entry → Option Entry} (rep : Represents now db m) (acts : Acts now f key answer leaves)
    (stays : ∀ lru, Seen (leaves lru (db.getRo now key)) (m key)) : Represents now (db.writeFor key f).1 m := by
  have same := rep.update (Acts.writeFor acts db).2 (stays _)
  rwa [Function.update_eq_self] at same

theorem Represents.absent (rep : Represents now db m) (absent : m key = none) : db.getRo now key = none := by
  have here := rep key
  rw [absent] at here
  cases entry : db.getRo now key with
  | none => rfl
  | some e =>
    rw [entry] at here
    cases here

theorem live_of_getRo {e : Entry} (found : db.getRo now key = some e) : e.isExpired now = false :=
  Database.live_of_getRo found

theorem lookup_of_getRo {e : Entry} (found : db.getRo now key = some e) :
    (db.shardFor key).entries.lookup key = some e :=
  (Option.filter_eq_some_iff.1 ((Database.getRo_eq now (db.shardFor key) key).symm.trans found)).1

/-! ### The steps of a move -/

theorem acts_popList (now : Nat) (thr : ListThresholds) (key : Bytes) (fromLeft : Bool) :
    Acts now (fun s => s.popList thr now key fromLeft) key
      (fun _ c => (c.map fun e => (popEdit thr fromLeft e).2).getD .nothing)
      fun _ c => c.map fun e => { e with value := (popEdit thr fromLeft e).1 } :=
  have acts := acts_getMutWith now key (popEdit thr fromLeft)
  ⟨acts.clock, fun s => congrArg (·.getD .nothing) (acts.answer s), acts.getRo⟩

theorem acts_takeMember (now : Nat) (thr : SetThresholds) (key member : Bytes) :
    Acts now (fun s => s.takeMember thr now key member) key
      (fun _ c => (c.map fun e => (takeEdit thr member e).2).getD .nothing)
      fun _ c => c.map fun e => { e with value := (takeEdit thr member e).1 } :=
  have acts := acts_getMutWith now key (takeEdit thr member)
  ⟨acts.clock, fun s => congrArg (·.getD .nothing) (acts.answer s), acts.getRo⟩

section

variable {V : Type} {f : Database → Database × Taken V} {edit : Entry → DataType × Taken V}

theorem Represents.taken_absent (rep : Represents now db m) (absent : m src = none)
    (acts : Acts now f src (fun _ c => (c.map fun e => (edit e).2).getD .nothing)
      fun _ c => c.map fun e => { e with value := (edit e).1 }) :
    (db.writeFor src f).2 = .nothing ∧ Represents now (db.writeFor src f).1 m := by
  refine ⟨?_, rep.unmoved acts fun _ => ?_⟩
  · rw [(Acts.writeFor acts db).1, rep.absent absent]
    rfl
  · rw [rep.absent absent, absent]
    exact .none

theorem Represents.taken_refused (rep : Represents now db m) {s : Shown} {t : Option Nat} (found : m src = some (s, t))
    (acts : Acts now f src (fun _ c => (c.map fun e => (edit e).2).getD .nothing)
      fun _ c => c.map fun e => { e with value := (edit e).1 })
    (refused : ∀ {e : Entry}, e.value.Shows s → edit e = (e.value, .failed .wrongType)) :
    (db.writeFor src f).2 = .failed .wrongType ∧ Represents now (db.writeFor src f).1 m := by
  obtain ⟨e, entry, shows, expiry⟩ := rep.entry found
  refine ⟨?_, rep.unmoved acts fun _ => ?_⟩
  · rw [(Acts.writeFor acts db).1, entry, Option.map_some, refused shows]
    rfl
  · rw [entry, found, Option.map_some, refused shows]
    exact .some ⟨shows, expiry⟩

end

/-- An edit of the entry at the destination, which is created if it is not there, and one more version. -/
theorem acts_bumped {α : Type} (now : Nat) (key : Bytes) (fresh : Entry) (edit : Entry → DataType × α) :
    Acts now (fun s => ((s.getOrInsertWithEdit now key fresh edit).1.bumpVersion key,
        (s.getOrInsertWithEdit now key fresh edit).2)) key
      (fun lru c => (edit (handed fresh lru c)).2)
      fun lru c => seen now (some { handed fresh lru c with value := (edit (handed fresh lru c)).1 }) :=
  have acts := acts_getOrInsertWithEdit now key fresh edit
  ⟨acts.clock, acts.answer, acts.getRo⟩

theorem acts_adjustLiveBytes (now : Nat) (key : Bytes) (delta : Int) :
    Acts now (fun s => (s.adjustLiveBytes delta, ())) key (fun _ _ => ()) fun _ c => c where
  clock _ := rfl
  answer _ := rfl
  getRo s x := by
    split
    · rename_i same
      rw [same]
      rfl
    · rfl

theorem getRo_adjustLiveBytes (db : ShardedDatabase) (key : Bytes) (delta : Int) (x : Bytes) :
    (db.writeFor key fun s => (s.adjustLiveBytes delta, ())).1.getRo now x = db.getRo now x := by
  rw [(Acts.writeFor (acts_adjustLiveBytes now key delta) db).2 x]
  split
  · rename_i same
    rw [same]
  · rfl

theorem Represents.adjustLiveBytes (rep : Represents now db m) (key : Bytes) (delta : Int) :
    Represents now (db.writeFor key fun s => (s.adjustLiveBytes delta, ())).1 m := by
  intro x
  rw [getRo_adjustLiveBytes]
  exact rep x

theorem getRo_afterTaking (now : Nat) (db : ShardedDatabase) (src : Bytes) (delta : Int) (emptied : Bool) (x : Bytes) :
    (db.afterTaking src delta emptied).getRo now x =
      if emptied = true ∧ x = src then none else db.getRo now x := by
  unfold afterTaking
  cases emptied with
  | false => simpa using getRo_adjustLiveBytes db src delta x
  | true =>
    simp only [if_true, true_and]
    rw [(Acts.writeFor (acts_remove now src) _).2 x, getRo_adjustLiveBytes]

theorem Represents.afterTaking {c : Option (Shown × Option Nat)} (rep : Represents now db (Function.update m src c))
    (delta : Int) (emptied : Bool) :
    Represents now (db.afterTaking src delta emptied)
      (Function.update m src (if emptied = true then none else c)) := by
  intro x
  rw [getRo_afterTaking]
  have here := rep x
  by_cases same : x = src
  · subst same
    rw [Function.update_self] at here ⊢
    cases emptied with
    | false => simpa using here
    | true => simp
  · rw [Function.update_of_ne same] at here ⊢
    rwa [if_neg fun h => same h.2]

/-- An edit at the destination leaves there what it makes of the entry, or of the fresh one. -/
theorem Represents.bumped (rep : Represents now db m) (fresh : Entry) (lasting : fresh.expiry = none)
    (edit : Entry → DataType × Option Int) (shown : Shown)
    (edited : ∀ e, e.value = ((db.getRo now dst).getD fresh).value →
      ∃ v delta, edit e = (v, some delta) ∧ v.Shows shown) :
    ∃ db' delta, db.writeFor dst (fun s => ((s.getOrInsertWithEdit now dst fresh edit).1.bumpVersion dst,
        (s.getOrInsertWithEdit now dst fresh edit).2)) = (db', some delta) ∧
      Represents now db' (Function.update m dst (some (shown, ((db.getRo now dst).getD fresh).expiry))) := by
  obtain ⟨answer, after⟩ := Acts.writeFor (acts_bumped now dst fresh edit) db
  have value : (handed fresh (db.shardFor dst).lruClock (db.getRo now dst)).value =
      ((db.getRo now dst).getD fresh).value := by cases db.getRo now dst <;> rfl
  have expiry : (handed fresh (db.shardFor dst).lruClock (db.getRo now dst)).expiry =
      ((db.getRo now dst).getD fresh).expiry := by cases db.getRo now dst <;> rfl
  have live : ((db.getRo now dst).getD fresh).isExpired now = false := by
    cases found : db.getRo now dst with
    | none => simp [Entry.isExpired, lasting]
    | some e => exact live_of_getRo found
  obtain ⟨v, delta, made, shows⟩ := edited _ value
  rw [made] at answer after
  refine ⟨_, delta, Prod.ext rfl answer, rep.update after ?_⟩
  rw [seen_of_live (by rw [Entry.isExpired, expiry]; exact live)]
  exact .some ⟨shows, expiry⟩

/-- The list at the destination, or the fresh one. -/
theorem Represents.listOr (rep : Represents now db m) {k : List Bytes} {t : Option Nat}
    (target : Live.listOr (m dst) = some (k, t)) :
    ∃ d, ((db.getRo now dst).getD (.new (.list .new))).value = .list d ∧ d.Rep k ∧
      ((db.getRo now dst).getD (.new (.list .new))).expiry = t ∧ (db.getRo now dst = none → d.Walks k) := by
  unfold Live.listOr at target
  split at target
  · rename_i absent
    cases target
    rw [rep.absent absent]
    have new : ListData.new.Rep [] := CompactList.new_rep
    have small : ListData.new.Small := by simp [ListData.new, ListData.Small, CompactList.new]
    exact ⟨.new, rfl, new, rfl, fun _ => new.walks small⟩
  · rename_i found
    cases target
    obtain ⟨e, entry, shows, expiry⟩ := rep.entry found
    rw [entry]
    cases value : e.value with
    | list d =>
      rw [value] at shows
      cases shows with
      | list rep => exact ⟨d, value, rep, expiry, fun is => by cases is⟩
    | _ =>
      rw [value] at shows
      cases shows
  · cases target

theorem Represents.setOr (rep : Represents now db m) {k : Finset Bytes} {t : Option Nat}
    (target : Live.setOr (m dst) = some (k, t)) :
    ∃ d, ((db.getRo now dst).getD (.new (.set .new))).value = .set d ∧ d.Rep k ∧
      ((db.getRo now dst).getD (.new (.set .new))).expiry = t := by
  unfold Live.setOr at target
  split at target
  · rename_i absent
    cases target
    rw [rep.absent absent]
    exact ⟨.new, rfl, SetData.new_rep, rfl⟩
  · rename_i found
    cases target
    obtain ⟨e, entry, shows, expiry⟩ := rep.entry found
    rw [entry]
    cases value : e.value with
    | set d =>
      rw [value] at shows
      cases shows with
      | set rep => exact ⟨d, value, rep, expiry⟩
    | _ =>
      rw [value] at shows
      cases shows
  · cases target

theorem Represents.dstOk (rep : Represents now db m) : db.dstOk now dst = (Live.listOr (m dst)).isSome := by
  have here := rep dst
  unfold ShardedDatabase.dstOk
  rw [show (db.shardFor dst).getRo now dst = db.getRo now dst from rfl]
  generalize db.getRo now dst = e at here ⊢
  generalize m dst = c at here ⊢
  cases here with
  | none => rfl
  | @some e c shows =>
    obtain ⟨v, t, lru⟩ := e
    obtain ⟨shown, t'⟩ := c
    obtain ⟨shows, -⟩ := shows
    cases shows with
    | list => rfl
    | set => rfl
    | other other => cases v <;> first | rfl | cases other

/-- What is popped off a list, and what that leaves. -/
theorem Represents.popList (rep : Represents now db m) (sized : Sized now db m) (thr : ListThresholds) (fromLeft : Bool)
    {l : List Bytes} {t : Option Nat} (found : m src = some (.list l, t)) :
    (db.writeFor src fun s => s.popList thr now src fromLeft).2 = (match takeEnd fromLeft l with
      | some (v, rest) => .value v (-(v.length : Int)) (rest.length == 0)
      | none => .nothing) ∧
    Represents now (db.writeFor src fun s => s.popList thr now src fromLeft).1
      (Function.update m src (some (.list ((takeEnd fromLeft l).elim l Prod.snd), t))) ∧
    ∀ e d, (db.writeFor src fun s => s.popList thr now src fromLeft).1.getRo now src = some e → e.value = .list d →
      d.Walks ((takeEnd fromLeft l).elim l Prod.snd) := by
  obtain ⟨e, entry, shows, expiry⟩ := rep.entry found
  obtain ⟨answer, after⟩ := Acts.writeFor (acts_popList now thr src fromLeft) db
  cases value : e.value with
  | list d =>
    rw [value] at shows
    cases shows with
    | list holds =>
      obtain ⟨d', popped, rep', walks⟩ := popEdit_list thr fromLeft value holds (sized.small entry value)
      rw [entry, Option.map_some, popped] at answer after
      refine ⟨answer, rep.update after (.some ⟨.list rep', expiry⟩), fun e d entry' value' => ?_⟩
      rw [after, if_pos rfl] at entry'
      cases entry'
      cases value'
      exact walks (sized.short found)
  | _ =>
    rw [value] at shows
    cases shows

theorem popEdit_other (thr : ListThresholds) (fromLeft : Bool) {s : Shown} (other : ∀ l, s ≠ .list l) {e : Entry}
    (shows : e.value.Shows s) : popEdit thr fromLeft e = (e.value, .failed .wrongType) := by
  unfold popEdit
  cases value : e.value with
  | list d =>
    rw [value] at shows
    cases shows with
    | list => exact (other _ rfl).elim
    | other h => cases h
  | _ => rfl

/-- The rest of the move, when `v` was taken off and `rest` is left. -/
theorem Represents.lmoveTaken {db₁ : ShardedDatabase} {rest : List Bytes} {t : Option Nat}
    (rep : Represents now db₁ (Function.update m src (some (.list rest, t)))) (sized : Sized now db m)
    (others : ∀ x, x ≠ src → db₁.getRo now x = db.getRo now x) (thr : ListThresholds) (toLeft : Bool) (v : Bytes)
    (walks : ∀ e d, db₁.getRo now src = some e → e.value = .list d → d.Walks rest)
    {k : List Bytes} {t' : Option Nat}
    (target : Live.listOr (Function.update m src (leftList rest t) dst) = some (k, t')) :
    let done := db₁.lmoveTaken now thr src dst toLeft (.value v (-(v.length : Int)) (rest.length == 0))
    Represents now done.1 (Function.update (Function.update m src (leftList rest t)) dst
      (some (.list (putEnd toLeft v k), t'))) ∧ done.2 = .ok (some v) := by
  have after := rep.afterTaking (-(v.length : Int)) (rest.length == 0)
  have left : (if (rest.length == 0) = true then none else some (Shown.list rest, t)) = leftList rest t := by
    simp [leftList]
  rw [left] at after
  obtain ⟨d, value, holds, expiry, fresh⟩ := after.listOr target
  have reads : d.Walks k := by
    cases entry : (db₁.afterTaking src (-(v.length : Int)) (rest.length == 0)).getRo now dst with
    | none => exact fresh entry
    | some e =>
      rw [entry, Option.getD_some] at value
      rw [getRo_afterTaking] at entry
      by_cases same : dst = src
      · subst same
        rw [Function.update_self] at target
        by_cases empty : rest = []
        · simp [empty] at entry
        · rw [leftList, if_neg empty] at target
          cases target
          rw [if_neg (by simpa using empty)] at entry
          exact walks e d entry value
      · rw [if_neg fun h => same h.2, others dst same] at entry
        exact holds.walks (sized.small entry value)
  obtain ⟨db', delta, run, rep'⟩ := after.bumped (.new (.list .new)) rfl
    (Database.pushEdit thr toLeft v) (.list (putEnd toLeft v k)) fun e same => by
      obtain ⟨d', pushed, holds'⟩ := pushEdit_list thr toLeft v (same.trans value) holds reads
      exact ⟨_, _, pushed, .list holds'⟩
  rw [expiry] at rep'
  have run : (db₁.afterTaking src (-(v.length : Int)) (rest.length == 0)).writeFor dst
      (fun s => s.pushList thr now dst v toLeft) = (db', some delta) := run
  dsimp only [ShardedDatabase.lmoveTaken]
  rw [run]
  exact ⟨rep'.adjustLiveBytes dst delta, rfl⟩

/-- **LMOVE refines its effect on the live keys.** -/
theorem lmove_refines (rep : Represents now db m) (sized : Sized now db m) (thr : ListThresholds)
    (src dst : Bytes) (fromLeft toLeft : Bool) :
    Represents now (db.lmoveAtomic now thr src dst fromLeft toLeft).1 (lmove m src dst fromLeft toLeft).1 ∧
      (db.lmoveAtomic now thr src dst fromLeft toLeft).2 = (lmove m src dst fromLeft toLeft).2 := by
  unfold lmoveAtomic Live.lmove
  rw [rep.dstOk]
  cases target : Live.listOr (m dst) with
  | none => exact ⟨rep, rfl⟩
  | some there =>
    rw [Option.isSome_some, if_pos rfl]
    cases found : m src with
    | none =>
      obtain ⟨answer, rep'⟩ := rep.taken_absent found (acts_popList now thr src fromLeft)
      rw [← Prod.eta (db.writeFor src _), answer]
      exact ⟨rep', rfl⟩
    | some c =>
      obtain ⟨s, t⟩ := c
      cases s with
      | list l =>
        obtain ⟨answer, rep', walks⟩ := rep.popList sized thr fromLeft found
        rw [← Prod.eta (db.writeFor src _), answer]
        dsimp only
        cases taken : takeEnd fromLeft l with
        | none =>
          rw [taken, Option.elim_none, ← found, Function.update_eq_self] at rep'
          exact ⟨rep', rfl⟩
        | some e =>
          obtain ⟨v, rest⟩ := e
          rw [taken, Option.elim_some] at rep' walks
          have others (x : Bytes) (ne : x ≠ src) :
              (db.writeFor src fun s => s.popList thr now src fromLeft).1.getRo now x = db.getRo now x := by
            rw [(Acts.writeFor (acts_popList now thr src fromLeft) db).2 x, if_neg ne]
          have target' : ∃ kt, Live.listOr (Function.update m src (leftList rest t) dst) = some kt := by
            by_cases same : dst = src
            · rw [same, Function.update_self, leftList]
              split <;> exact ⟨_, rfl⟩
            · rw [Function.update_of_ne same]
              exact ⟨_, target⟩
          obtain ⟨⟨k, t'⟩, target'⟩ := target'
          have done := rep'.lmoveTaken sized others thr toLeft v walks target'
          dsimp only
          rw [target']
          exact done
      | set s =>
        obtain ⟨answer, rep'⟩ := rep.taken_refused found (acts_popList now thr src fromLeft)
          fun shows => popEdit_other thr fromLeft (by simp) shows
        rw [← Prod.eta (db.writeFor src _), answer]
        exact ⟨rep', rfl⟩
      | other v =>
        obtain ⟨answer, rep'⟩ := rep.taken_refused found (acts_popList now thr src fromLeft)
          fun shows => popEdit_other thr fromLeft (by simp) shows
        rw [← Prod.eta (db.writeFor src _), answer]
        exact ⟨rep', rfl⟩

/-- A destination that is usable is a set, or absent. -/
theorem Represents.setOr_of_usable (rep : Represents now db m) (usable : db.dstIsUsable dst = true) :
    ∃ kt, Live.setOr (m dst) = some kt := by
  cases found : m dst with
  | none => exact ⟨_, rfl⟩
  | some c =>
    obtain ⟨s, t⟩ := c
    obtain ⟨e, entry, shows, -⟩ := rep.entry found
    unfold dstIsUsable at usable
    rw [lookup_of_getRo entry] at usable
    cases value : e.value with
    | set d =>
      rw [value] at shows
      cases shows with
      | set => exact ⟨_, rfl⟩
      | other h => cases h
    | _ =>
      simp only [value] at usable
      cases usable

theorem takeEdit_other (thr : SetThresholds) (member : Bytes) {s : Shown} (other : ∀ k, s ≠ .set k) {e : Entry}
    (shows : e.value.Shows s) : takeEdit thr member e = (e.value, .failed .wrongType) := by
  unfold takeEdit
  cases value : e.value with
  | set d =>
    rw [value] at shows
    cases shows with
    | set => exact (other _ rfl).elim
    | other h => cases h
  | _ => rfl

theorem Represents.takeMember (rep : Represents now db m) (thr : SetThresholds) (member : Bytes) {s : Finset Bytes}
    {t : Option Nat} (found : m src = some (.set s, t)) :
    (db.writeFor src fun s => s.takeMember thr now src member).2 =
      (if member ∈ s then .value () (-(member.length : Int)) (decide (s.erase member = ∅)) else .nothing) ∧
    Represents now (db.writeFor src fun s => s.takeMember thr now src member).1
      (Function.update m src (some (.set (s.erase member), t))) ∧
    (member ∈ s → Bytes.frameCodec.Valid member) := by
  obtain ⟨e, entry, shows, expiry⟩ := rep.entry found
  obtain ⟨answer, after⟩ := Acts.writeFor (acts_takeMember now thr src member) db
  cases value : e.value with
  | set d =>
    rw [value] at shows
    cases shows with
    | set holds =>
      obtain ⟨d', left, rep', taken⟩ := takeEdit_set thr member value holds
      rw [entry, Option.map_some, taken] at answer
      rw [entry, Option.map_some, left] at after
      exact ⟨answer, rep.update after (.some ⟨.set rep', expiry⟩), valid_of_rep holds⟩
  | _ =>
    rw [value] at shows
    cases shows

theorem Represents.smoveTaken {db₁ : ShardedDatabase} {s : Finset Bytes} {t : Option Nat} {member : Bytes}
    (rep : Represents now db₁ (Function.update m src (some (.set (s.erase member), t)))) (thr : SetThresholds)
    (valid : Bytes.frameCodec.Valid member) {k : Finset Bytes} {t' : Option Nat}
    (target : Live.setOr (Function.update m src (leftSet (s.erase member) t) dst) = some (k, t')) :
    let done := db₁.smoveTaken now thr src dst member
      (.value () (-(member.length : Int)) (decide (s.erase member = ∅)))
    Represents now done.1 (Function.update (Function.update m src (leftSet (s.erase member) t)) dst
      (some (.set (insert member k), t'))) ∧ done.2 = .ok 1 := by
  have after := rep.afterTaking (-(member.length : Int)) (decide (s.erase member = ∅))
  have left : (if decide (s.erase member = ∅) = true then none else some (Shown.set (s.erase member), t)) =
      leftSet (s.erase member) t := by simp [leftSet]
  rw [left] at after
  obtain ⟨d, value, holds, expiry⟩ := after.setOr target
  obtain ⟨db', delta, run, rep'⟩ := after.bumped (.new (.set .new)) rfl
    (Database.addEdit thr member) (.set (insert member k)) fun e same => by
      obtain ⟨d', delta, added, holds'⟩ := addEdit_set thr valid (same.trans value) holds
      exact ⟨_, _, added, .set holds'⟩
  rw [expiry] at rep'
  have run : (db₁.afterTaking src (-(member.length : Int)) (decide (s.erase member = ∅))).writeFor dst
      (fun s => s.addMember thr now dst member) = (db', some delta) := run
  dsimp only [ShardedDatabase.smoveTaken]
  rw [run]
  exact ⟨rep'.adjustLiveBytes dst delta, rfl⟩

/-- **SMOVE refines its effect on the live keys.** -/
theorem smove_refines (rep : Represents now db m) (thr : SetThresholds) (src dst member : Bytes) :
    Represents now (db.smoveAtomic now thr src dst member).1 (smove (db.dstIsUsable dst) m src dst member).1 ∧
      (db.smoveAtomic now thr src dst member).2 = (smove (db.dstIsUsable dst) m src dst member).2 := by
  unfold smoveAtomic Live.smove
  cases usable : db.dstIsUsable dst with
  | false => exact ⟨rep, rfl⟩
  | true =>
    rw [if_pos rfl]
    obtain ⟨kt, target⟩ := rep.setOr_of_usable usable
    cases found : m src with
    | none =>
      obtain ⟨answer, rep'⟩ := rep.taken_absent found (acts_takeMember now thr src member)
      rw [← Prod.eta (db.writeFor src _), answer]
      exact ⟨rep', rfl⟩
    | some c =>
      obtain ⟨s, t⟩ := c
      cases s with
      | set s =>
        obtain ⟨answer, rep', valid⟩ := rep.takeMember thr member found
        rw [← Prod.eta (db.writeFor src _), answer]
        dsimp only
        by_cases mem : member ∈ s
        · have target' : ∃ kt, Live.setOr (Function.update m src (leftSet (s.erase member) t) dst) = some kt := by
            by_cases same : dst = src
            · rw [same, Function.update_self, leftSet]
              split <;> exact ⟨_, rfl⟩
            · rw [Function.update_of_ne same]
              exact ⟨_, target⟩
          obtain ⟨⟨k, t'⟩, target'⟩ := target'
          have done := rep'.smoveTaken thr (valid mem) target'
          rw [if_pos mem, if_pos mem, target']
          exact done
        · rw [Finset.erase_eq_of_notMem mem, ← found, Function.update_eq_self] at rep'
          rw [if_neg mem, if_neg mem]
          exact ⟨rep', rfl⟩
      | list l =>
        obtain ⟨answer, rep'⟩ := rep.taken_refused found (acts_takeMember now thr src member)
          fun shows => takeEdit_other thr member (by simp) shows
        rw [← Prod.eta (db.writeFor src _), answer]
        exact ⟨rep', rfl⟩
      | other v =>
        obtain ⟨answer, rep'⟩ := rep.taken_refused found (acts_takeMember now thr src member)
          fun shows => takeEdit_other thr member (by simp) shows
        rw [← Prod.eta (db.writeFor src _), answer]
        exact ⟨rep', rfl⟩

end ShardedDatabase

/-! ## When a move is one -/

namespace Live

/-- The source is the destination and has one element and an expiry. -/
def LosesList (m : Live) (src dst : Bytes) : Prop := src = dst ∧ ∃ v t, m src = some (.list [v], some t)

def LosesSet (m : Live) (src dst member : Bytes) : Prop := src = dst ∧ ∃ t, m src = some (.set {member}, some t)

variable {m : Live} {src dst member : Bytes} {fromLeft toLeft : Bool}

theorem takeEnd_eq_some_nil_iff {l : List Bytes} {v : Bytes} : takeEnd fromLeft l = some (v, []) ↔ l = [v] := by
  unfold takeEnd
  cases fromLeft with
  | true => cases l <;> simp
  | false =>
    rcases List.eq_nil_or_concat' l with rfl | ⟨init, last, rfl⟩
    · simp
    · simp [List.append_eq_singleton_iff, and_comm]

theorem lmove_spec (kept : ¬LosesList m src dst) :
    Lmove m src dst fromLeft toLeft (lmove m src dst fromLeft toLeft).2 (lmove m src dst fromLeft toLeft).1 := by
  unfold lmove
  split
  · exact .refused
  · exact .nothing
  · rename_i there l t target found
    split
    · exact .nothing
    · rename_i v rest taken
      dsimp only
      by_cases same : src = dst
      · subst same
        have rotated := @Lmove.rotated m src src fromLeft toLeft l rest t v rfl found taken
        rw [Function.update_self, leftList]
        by_cases empty : rest = []
        · subst empty
          have lasting : t = none := by
            cases t with
            | none => rfl
            | some t => exact (kept ⟨rfl, v, t, takeEnd_eq_some_nil_iff.1 taken ▸ found⟩).elim
          subst lasting
          simpa [listOr] using rotated
        · simpa [listOr, empty] using rotated
      · rw [Function.update_of_ne (Ne.symm same), target]
        exact .moved same found taken target
  · exact .refused

theorem smove_spec {usable : Bool} (target : usable = true → ∃ kt, setOr (m dst) = some kt)
    (kept : ¬LosesSet m src dst member) :
    Smove m src dst member (smove usable m src dst member).2 (smove usable m src dst member).1 := by
  unfold smove
  split
  · exact .refused
  · exact .nothing
  · rename_i s t found
    split
    · rename_i mem
      dsimp only
      by_cases same : src = dst
      · subst same
        have stays := Smove.same rfl found mem
        rw [Function.update_self, leftSet]
        by_cases empty : s.erase member = ∅
        · have one : s = {member} := by rw [← Finset.insert_erase mem, empty]; rfl
          subst one
          have lasting : t = none := by
            cases t with
            | none => rfl
            | some t => exact (kept ⟨rfl, t, found⟩).elim
          subst lasting
          have back : update m src (some (.set {member}, none)) = m := by rw [← found, Function.update_eq_self]
          simpa [setOr, back] using stays
        · have back : update m src (some (.set s, t)) = m := by rw [← found, Function.update_eq_self]
          simpa [setOr, empty, mem, back] using stays
      · obtain ⟨⟨k, t'⟩, target⟩ := target rfl
        rw [Function.update_of_ne (Ne.symm same), target]
        exact .moved same found mem target
    · exact .nothing
  · exact .refused

end Live

namespace ShardedDatabase

open Live

theorem Represents.usable {now : Nat} {db : ShardedDatabase} {m : Live} (rep : Represents now db m) {key : Bytes}
    {s : Finset Bytes} {t : Option Nat} (found : m key = some (.set s, t)) : db.dstIsUsable key = true := by
  obtain ⟨e, entry, shows, -⟩ := rep.entry found
  unfold dstIsUsable
  rw [lookup_of_getRo entry]
  cases value : e.value with
  | set d => simp only [value]
  | _ =>
    rw [value] at shows
    cases shows

/-- Two accounts of a store agree on the expiries. -/
theorem Represents.expiry_eq {now : Nat} {db : ShardedDatabase} {m m' : Live} (rep : Represents now db m)
    (rep' : Represents now db m') {key : Bytes} {s s' : Shown} {t t' : Option Nat} (found : m key = some (s, t))
    (found' : m' key = some (s', t')) : t = t' := by
  obtain ⟨e, entry, -, rfl⟩ := rep.entry found
  obtain ⟨e', entry', -, rfl⟩ := rep'.entry found'
  rw [entry] at entry'
  cases entry'
  rfl

/-- **Moves conserve elements, unless a key with one element and an expiry is moved to itself.** Under one lock of
both shards, LMOVE and SMOVE answer and leave what they should, and no list element is lost or made, exactly if not:
the key is removed when its last element is taken, and what is put back is a new key without the deadline. -/
theorem moves_conserve_iff (now : Nat) (db : ShardedDatabase) (m : Live) (rep : Represents now db m)
    (sized : Sized now db m) (lists : ListThresholds) (sets : SetThresholds) (src dst : Bytes) :
    (∀ fromLeft toLeft : Bool,
      (∃ m', Represents now (db.lmoveAtomic now lists src dst fromLeft toLeft).1 m' ∧
        Lmove m src dst fromLeft toLeft (db.lmoveAtomic now lists src dst fromLeft toLeft).2 m' ∧
        Conserves src dst m m') ↔ ¬LosesList m src dst) ∧
    ∀ member : Bytes,
      (∃ m', Represents now (db.smoveAtomic now sets src dst member).1 m' ∧
        Smove m src dst member (db.smoveAtomic now sets src dst member).2 m') ↔ ¬LosesSet m src dst member := by
  refine ⟨fun fromLeft toLeft => ?_, fun member => ?_⟩
  · obtain ⟨rep', answer⟩ := lmove_refines rep sized lists src dst fromLeft toLeft
    constructor
    · rintro ⟨m', repm, spec, -⟩ ⟨rfl, v, t, found⟩
      have taken : takeEnd fromLeft [v] = some (v, []) := takeEnd_eq_some_nil_iff.2 rfl
      have effect : lmove m src src fromLeft toLeft =
          (Function.update m src (some (.list (putEnd toLeft v []), none)), .ok (some v)) := by
        simp [lmove, found, listOr, taken, leftList]
      rw [effect] at rep' answer
      rw [answer] at spec
      cases spec with
      | rotated _ found' _ =>
        rw [found] at found'
        cases found'
        cases rep'.expiry_eq repm (Function.update_self ..) (Function.update_self ..)
      | moved ne => exact ne rfl
    · intro kept
      have spec := @lmove_spec m src dst fromLeft toLeft kept
      exact ⟨_, rep', answer ▸ spec, spec.conserves⟩
  · obtain ⟨rep', answer⟩ := smove_refines rep sets src dst member
    constructor
    · rintro ⟨m', repm, spec⟩ ⟨rfl, t, found⟩
      have effect : smove true m src src member =
          (Function.update m src (some (.set {member}, none)), .ok 1) := by
        simp [smove, found, setOr, leftSet]
      rw [rep.usable found, effect] at rep' answer
      rw [answer] at spec
      cases spec with
      | same => cases rep'.expiry_eq repm (Function.update_self ..) found
      | moved ne => exact ne rfl
    · intro kept
      exact ⟨_, rep', answer ▸ smove_spec rep.setOr_of_usable kept⟩

theorem getRo_new (now numShards : Nat) (positive : 0 < numShards) (key : Bytes) :
    (ShardedDatabase.new numShards positive).getRo now key = none := by
  have gone : (ShardedDatabase.new numShards positive).shardFor key = .new := by
    simp only [shardFor, new, List.get_eq_getElem, List.getElem_replicate]
  rw [ShardedDatabase.getRo, gone]
  rfl

/-- A store with one list, which expires at 9. -/
def oneList (l : List Bytes) : ShardedDatabase :=
  ((ShardedDatabase.new 2 Nat.two_pos).writeFor [1] fun s => (s.insert [1] ⟨.list (.linked ⟨l, payload l⟩), some 9, 0⟩, ())).1

def oneLive (l : List Bytes) : Live := Function.update (fun _ => none) [1] (some (.list l, some 9))

theorem getRo_oneList (l : List Bytes) (key : Bytes) :
    (oneList l).getRo 0 key = if key = [1] then some ⟨.list (.linked ⟨l, payload l⟩), some 9, 0⟩ else none := by
  rw [← getRo_new 0 2 Nat.two_pos key]
  exact (Acts.writeFor (Database.acts_insert 0 [1] _) _).2 key

theorem oneList_represents (l : List Bytes) : Represents 0 (oneList l) (oneLive l) := by
  have empty : Represents 0 (ShardedDatabase.new 2 Nat.two_pos) fun _ => none := by
    intro key
    rw [getRo_new]
    exact .none
  have holds : (ListData.linked ⟨l, payload l⟩).Rep l := rfl
  exact empty.update (fun x => (getRo_oneList l x).trans (by rw [getRo_new])) (.some ⟨.list holds, rfl⟩)

theorem oneList_sized (l : List Bytes) (short : ∀ x ∈ l, Bytes.frameCodec.Valid x) :
    Sized 0 (oneList l) (oneLive l) where
  small := by
    intro key e d entry value
    rw [getRo_oneList] at entry
    split at entry
    · cases entry
      cases value
      trivial
    · cases entry
  short := by
    intro key k t found
    by_cases same : key = [1]
    · rw [oneLive, same, Function.update_self] at found
      cases found
      exact short
    · rw [oneLive, Function.update_of_ne same] at found
      cases found

/-- A rotation of two elements keeps the expiry. -/
theorem lmove_rotates_two :
    ∃ m', Represents 0 ((oneList [[7], [8]]).lmoveAtomic 0 .default [1] [1] true false).1 m' ∧
      Lmove (oneLive [[7], [8]]) [1] [1] true false ((oneList [[7], [8]]).lmoveAtomic 0 .default [1] [1] true false).2 m' := by
  obtain ⟨m', rep, spec, -⟩ := ((moves_conserve_iff 0 (oneList [[7], [8]]) _ (oneList_represents _)
    (oneList_sized _ (by simp [Bytes.frameCodec])) .default .default [1] [1]).1 true false).2
    (by simp [LosesList, oneLive])
  exact ⟨m', rep, spec⟩

/-- A list of one element that is moved to itself loses its expiry. -/
theorem lmove_loses_expiry :
    ((oneList [[7]]).getRo 0 [1]).map Entry.expiry = some (some 9) ∧
      ((oneList [[7]]).lmoveAtomic 0 .default [1] [1] true false).2 = .ok (some [7]) ∧
      (((oneList [[7]]).lmoveAtomic 0 .default [1] [1] true false).1.getRo 0 [1]).map Entry.expiry = some none := by
  decide +kernel

end ShardedDatabase

end NexradeCache
