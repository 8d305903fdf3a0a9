import Mathlib.Data.List.Permutation
import NexradeCache.Command.Expired
import NexradeCache.Lib.Interleave

/-!
# MOVE among other clients (`cmd_move` of `nexrade-core/src/command/generic.rs`)

MOVE takes the entry out under the source's lock, looks and puts it into the target under the target's, and
where the target has the key puts it back under the source's lock. `Task.next` has one step for each of
these critical sections; the operations of other clients run between them. The `log` is the history of the
sections, each with its answer, and `restored` are the entries that were put back.

`Kept` is the history without what was put back. It explains the databases, and every answer, in runs where
nobody else used the key in the source while MOVE had its entry in hand (`Task.Fits`).
-/

namespace NexradeCache.Move

open Interleave Content Serial

variable {count : Nat}

/-- All databases, by index and key. -/
abbrev Spaces (count : Nat) := Fin count × Bytes → Option Content

/-- An operation on one of the databases: a command of another client, or the `remove` or the `insert` of a MOVE. -/
inductive Op (count : Nat) where
  | command (index : Fin count) (now : Nat) (op : ClientOp)
  | take (index : Fin count) (key : Bytes)
  | place (index : Fin count) (now : Nat) (key : Bytes) (c : Content)

/-- The entry is put under a key that is not there; answers whether it was there. -/
def placeAt (index : Fin count) (now : Nat) (key : Bytes) (c : Content) (K : Spaces count) : Spaces count × Answer :=
  match live now (K (index, key)) with
  | some _ => (K, .flag true)
  | none => (Function.update K (index, key) (some c), .flag false)

namespace Op

/-- What an operation does to the databases, and its answer. -/
def apply : Op count → Spaces count → Spaces count × Answer
  | command index now op, K =>
    (fun p => if p.1 = index then (op.apply now fun x => K (index, x)).1 p.2 else K p,
      (op.apply now fun x => K (index, x)).2)
  | take index key, K => (Function.update K (index, key) none, .value (K (index, key)))
  | place index now key c, K => placeAt index now key c K

/-- The keys an operation is about. -/
def keys : Op count → Set (Fin count × Bytes)
  | command index _ op => {p | p.1 = index ∧ p.2 ∈ op.1.keys}
  | take index key | place index _ key _ => {(index, key)}

theorem local_take (index : Fin count) (key : Bytes) : Local apply (take index key) {(index, key)} where
  frame K p other := Function.update_of_ne (by simpa using other) _ K
  change K K' same := by
    refine ⟨fun p mem => ?_, congrArg Answer.value (same _ rfl)⟩
    rw [Set.mem_singleton_iff.1 mem]
    simp only [apply, Function.update_self]

theorem local_place (index : Fin count) (now : Nat) (key : Bytes) (c : Content) :
    Local apply (place index now key c) {(index, key)} where
  frame K p other := by
    show (placeAt index now key c K).1 p = K p
    unfold placeAt
    split
    · rfl
    · exact Function.update_of_ne (by simpa using other) _ K
  change K K' same := by
    have here : K (index, key) = K' (index, key) := same _ rfl
    show (∀ p ∈ _, (placeAt index now key c K).1 p = (placeAt index now key c K').1 p) ∧
      (placeAt index now key c K).2 = (placeAt index now key c K').2
    unfold placeAt
    rw [here]
    cases live now (K' (index, key)) with
    | some c => exact ⟨same, rfl⟩
    | none =>
      refine ⟨fun p mem => ?_, rfl⟩
      rw [Set.mem_singleton_iff.1 mem]
      simp only [Function.update_self]

theorem local_apply (op : Op count) : Local apply op op.keys := by
  cases op with
  | command index now op =>
    have inner := ClientOp.local_apply now op
    constructor
    · intro K p other
      show (if p.1 = index then (op.apply now fun x => K (index, x)).1 p.2 else K p) = K p
      split
      · rename_i here
        rw [inner.frame (fun x => K (index, x)) p.2 fun mem => other ⟨here, mem⟩, ← here]
      · rfl
    · intro K K' same
      obtain ⟨state, answer⟩ := inner.change (fun x => K (index, x)) (fun x => K' (index, x))
        fun x mem => same (index, x) ⟨rfl, mem⟩
      refine ⟨fun p mem => ?_, answer⟩
      show (if p.1 = index then (op.apply now fun x => K (index, x)).1 p.2 else K p) =
        (if p.1 = index then (op.apply now fun x => K' (index, x)).1 p.2 else K' p)
      rw [if_pos mem.1, if_pos mem.1]
      exact state p.2 mem.2
  | take index key => exact local_take index key
  | place index now key c => exact local_place index now key c

end Op

/-- A section that ran; where it took an entry out, its number. -/
abbrev Event (count : Nat) := Serial.Entry (Option Nat) (Op count) Answer

/-- The databases, the clock, the history, and the numbers of the entries that were put back. -/
structure Shared (count : Nat) where
  dbs : Fin count → ShardedDatabase
  now : Nat
  log : List (Event count)
  restored : List Nat

/-- A MOVE that has the entry in hand. -/
structure Hand (count : Nat) where
  index : Fin count
  key : Bytes
  target : Fin count
  apart : target ≠ index
  entry : Entry
  number : Nat

/-- A MOVE by the section it runs next, or a command of another client. What a MOVE has taken out is in its hand,
and in no database. -/
inductive Task (count : Nat) where
  | called (index : Fin count) (key : Bytes) (target : Int64)
  | taken (h : Hand count)
  | refused (h : Hand count) (now : Nat)
  /-- It answered 1. -/
  | moved (h : Hand count) (now : Nat)
  /-- It answered 0: it was its own target, or the source was without the key. -/
  | stayed (looked : List (Event count))
  /-- It answered 0 and put the entry back. -/
  | restored (h : Hand count) (now : Nat)
  | outOfRange
  | issued (index : Fin count) (op : ClientOp)
  | done (index : Fin count) (now : Nat) (op : ClientOp) (a : Answer)
  | clock (time : Nat)

namespace Shared

variable (s : Shared count)

def setDb (index : Fin count) (db : ShardedDatabase) : Shared count :=
  { s with dbs := Function.update s.dbs index db }

def logged (e : Event count) : Shared count := { s with log := s.log ++ [e] }

end Shared

namespace Hand

variable (h : Hand count)

/-- The section that took the entry out. -/
def took : Event count := ⟨some h.number, .take h.index h.key, .value (some h.entry.content)⟩

/-- The section that looked into the target, and put the entry there if the key was not. -/
def placed (now : Nat) (there : Bool) : Event count := ⟨none, .place h.target now h.key h.entry.content, .flag there⟩

end Hand

namespace Task

/-- Under the source's lock. -/
def removal (s : Shared count) (index : Fin count) (key : Bytes) (target : Fin count) (apart : target ≠ index) :
    Shared count × Task count :=
  match (s.dbs index).take key with
  | (db, none) =>
    let absent : Event count := ⟨none, .take index key, .value none⟩
    ((s.setDb index db).logged absent, stayed [absent])
  | (db, some entry) =>
    let h : Hand count := ⟨index, key, target, apart, entry, s.log.length⟩
    ((s.setDb index db).logged h.took, taken h)

/-- Under the target's lock. -/
def insertion (s : Shared count) (h : Hand count) : Shared count × Task count :=
  match (s.dbs h.target).containsKey s.now h.key with
  | (db, true) => ((s.setDb h.target db).logged (h.placed s.now true), refused h s.now)
  | (db, false) =>
    ((s.setDb h.target (db.writeFor h.key fun shard => (shard.insert h.key h.entry, ())).1).logged
      (h.placed s.now false), moved h s.now)

def next (s : Shared count) : Task count → List (Shared count × Task count)
  | called index key target =>
    if range : target.toInt < 0 ∨ count ≤ target.toInt.toNat then [(s, outOfRange)]
    else
      let target : Fin count := ⟨target.toInt.toNat, by omega⟩
      if same : target = index then [(s, stayed [])] else [removal s index key target same]
  | taken h => [insertion s h]
  | refused h now =>
    let db := ((s.dbs h.index).writeFor h.key fun shard => (shard.insert h.key h.entry, ())).1
    [({ s.setDb h.index db with restored := h.number :: s.restored }, restored h now)]
  | issued index op =>
    let w : World := ⟨s.now, s.dbs index⟩
    [((s.setDb index (w.step op.1).db).logged ⟨none, .command index s.now op, w.answer op⟩,
      done index s.now op (w.answer op))]
  | clock time => [({ s with now := max s.now time }, clock time)]
  | moved _ _ | stayed _ | restored _ _ | outOfRange | done _ _ _ _ => []

def entry : Task count → Bool
  | called _ _ _ => true
  | issued _ _ => true
  | clock _ => true
  | _ => false

/-- The reply of a MOVE. -/
def reply : Task count → Option (Except String Nat)
  | moved _ _ => some (.ok 1)
  | stayed _ => some (.ok 0)
  | restored _ _ => some (.ok 0)
  | outOfRange => some (.error "DB index is out of range")
  | _ => none

/-- What the task did, in its order: a MOVE that put the entry back has only looked into the target. -/
def made : Task count → List (Event count)
  | taken h => [h.took]
  | refused h now => [h.took, h.placed now true]
  | moved h now => [h.took, h.placed now false]
  | stayed looked => looked
  | restored h now => [h.placed now true]
  | done index now op a => [⟨none, .command index now op, a⟩]
  | _ => []

/-- The condition on the section that puts the entry back: since it was taken out nobody else has used the
key in the source. -/
def Fits (pool : Pool (Shared count) (Task count)) (t : Task count) (_ : Shared count) (_ : Task count) : Prop :=
  match t with
  | refused h _ => ∀ e ∈ pool.shared.log.drop (h.number + 1), (h.index, h.key) ∉ e.op.keys
  | _ => True

/-- The entry the task has in hand. -/
def hand : Task count → Option (Hand count)
  | taken h => some h
  | refused h _ => some h
  | _ => none

/-- The number of the entry the task took out and did not put back. -/
def number : Task count → Option Nat
  | taken h => some h.number
  | refused h _ => some h.number
  | moved h _ => some h.number
  | _ => none

end Task

/-! ## What single sections do -/

def spaces (dbs : Fin count → ShardedDatabase) : Spaces count := fun p => (dbs p.1).keyspace p.2

/-- The history without what was put back. -/
def Shared.kept (s : Shared count) : List (Event count) := s.log.filter fun e => e.unit.all fun n => n ∉ s.restored

section

variable (dbs : Fin count → ShardedDatabase) (index : Fin count) (key : Bytes) (now : Nat)

theorem spaces_update (db : ShardedDatabase) (p : Fin count × Bytes) :
    spaces (Function.update dbs index db) p = if p.1 = index then db.keyspace p.2 else spaces dbs p := by
  unfold spaces
  rw [Function.update_apply]
  split <;> rfl

theorem spaces_update_key {db : ShardedDatabase} {c : Option Content}
    (state : db.keyspace = Function.update (dbs index).keyspace key c) :
    spaces (Function.update dbs index db) = Function.update (spaces dbs) (index, key) c := by
  funext p
  obtain ⟨i, x⟩ := p
  rw [spaces_update, Function.update_apply, state, Function.update_apply]
  by_cases here : i = index
  · subst here
    simp [spaces]
  · simp [here]

theorem apply_take : (Op.take index key).apply (spaces dbs) =
    (spaces (Function.update dbs index ((dbs index).take key).1), .value (((dbs index).take key).2.map Entry.content)) := by
  obtain ⟨state, answer⟩ := @ShardedDatabase.keyspace_remove (dbs index) key
  exact Prod.ext (spaces_update_key dbs index key state).symm (congrArg Answer.value answer.symm)

theorem keyspace_containsKey (db : ShardedDatabase) :
    (db.containsKey now key).1.keyspace = Function.update db.keyspace key (live now (db.keyspace key)) ∧
      (db.containsKey now key).2 = (live now (db.keyspace key)).isSome := by
  obtain ⟨state, answer⟩ := @ShardedDatabase.keyspace_get db now key
  refine ⟨state, ?_⟩
  rw [← answer, Option.isSome_map]
  rfl

theorem apply_place_there {db : ShardedDatabase} {c : Content} (there : (dbs index).containsKey now key = (db, true)) :
    (Op.place index now key c).apply (spaces dbs) = (spaces (Function.update dbs index db), .flag true) := by
  obtain ⟨state, answer⟩ := keyspace_containsKey key now (dbs index)
  rw [there] at state answer
  obtain ⟨d, alive⟩ := Option.isSome_iff_exists.1 answer.symm
  have known : (dbs index).keyspace key = some d := (Option.filter_eq_some_iff.1 alive).1
  rw [alive, ← known, Function.update_eq_self] at state
  have same : spaces (Function.update dbs index db) = spaces dbs := by
    funext p
    rw [spaces_update, state]
    split
    · rename_i here
      rw [← here]
      rfl
    · rfl
  rw [same]
  show placeAt index now key c (spaces dbs) = _
  unfold placeAt
  rw [show live now (spaces dbs (index, key)) = some d from alive]

theorem apply_place {db : ShardedDatabase} {e : Entry} (absent : (dbs index).containsKey now key = (db, false)) :
    (Op.place index now key e.content).apply (spaces dbs) =
      (spaces (Function.update dbs index (db.writeFor key fun shard => (shard.insert key e, ())).1), .flag false) := by
  obtain ⟨state, answer⟩ := keyspace_containsKey key now (dbs index)
  rw [absent] at state answer
  have gone : live now ((dbs index).keyspace key) = none := Option.isNone_iff_eq_none.1 (by simpa using answer.symm)
  have inserted := @ShardedDatabase.keyspace_insert db key e
  rw [state, Function.update_idem] at inserted
  rw [spaces_update_key dbs index key inserted]
  show placeAt index now key e.content (spaces dbs) = _
  unfold placeAt
  rw [show live now (spaces dbs (index, key)) = none from gone]

theorem apply_command (op : ClientOp) : (Op.command index now op).apply (spaces dbs) =
    (spaces (Function.update dbs index ((World.mk now (dbs index)).step op.1).db),
      (World.mk now (dbs index)).answer op) := by
  obtain ⟨state, answer⟩ := World.keyspace_step ⟨now, dbs index⟩ op
  refine Prod.ext (funext fun p => Eq.trans ?_ (spaces_update dbs index _ p).symm) answer.symm
  show (if p.1 = index then (op.apply now fun x => spaces dbs (index, x)).1 p.2 else spaces dbs p) = _
  split
  · exact (congrFun state p.2).symm
  · rfl

theorem spaces_putBack (e : Entry) :
    spaces (Function.update dbs index ((dbs index).writeFor key fun shard => (shard.insert key e, ())).1) =
      Function.update (spaces dbs) (index, key) (some e.content) :=
  spaces_update_key dbs index key (ShardedDatabase.keyspace_insert key e)

end

/-- What a step does. -/
inductive Step (s : Shared count) (t : Task count) (s' : Shared count) (t' : Task count) : Prop
  /-- Nothing clients see. -/
  | quiet : s'.dbs = s.dbs → s'.log = s.log → s'.restored = s.restored → t'.made = t.made → t'.number = t.number →
    t'.hand = t.hand → Step s t s' t'
  /-- A section is run and logged. -/
  | ran (e : Event count) : s'.log = s.log ++ [e] → s'.restored = s.restored → t'.made = t.made ++ [e] →
    e.op.apply (spaces s.dbs) = (spaces s'.dbs, e.reply) → e.unit = none → t'.number = t.number →
    (∀ h, t'.hand = some h → t.hand = some h) → Step s t s' t'
  /-- An entry is taken out. -/
  | took (h : Hand count) : s'.log = s.log ++ [h.took] → s'.restored = s.restored → t.made = [] → t'.made = [h.took] →
    h.took.op.apply (spaces s.dbs) = (spaces s'.dbs, h.took.reply) → h.number = s.log.length → t.number = none →
    t'.number = some h.number → t'.hand = some h → Step s t s' t'
  /-- An entry is put back. -/
  | putBack (h : Hand count) (rest : List (Event count)) : s'.log = s.log → s'.restored = h.number :: s.restored →
    t.made = h.took :: rest → t'.made = rest → (∀ e ∈ rest, e.unit = none) →
    spaces s'.dbs = Function.update (spaces s.dbs) (h.index, h.key) (some h.entry.content) → t.hand = some h →
    t.number = some h.number → t'.number = none → t'.hand = none →
    (∀ e ∈ s.log.drop (h.number + 1), (h.index, h.key) ∉ e.op.keys) → Step s t s' t'

variable {s s' : Shared count} {t t' : Task count} {before after : List (Task count)}

/-- **Every step is one of these**, if it meets the condition. -/
theorem step_of_next (mem : (s', t') ∈ t.next s) (fits : t.Fits ⟨s, before ++ t :: after⟩ s' t') : Step s t s' t' := by
  cases t with
  | called index key target =>
    rw [Task.next] at mem
    split at mem
    · cases List.mem_singleton.1 mem
      exact .quiet rfl rfl rfl rfl rfl rfl
    · dsimp only at mem
      split at mem
      · cases List.mem_singleton.1 mem
        exact .quiet rfl rfl rfl rfl rfl rfl
      · have effect := apply_take s.dbs index key
        have is := List.mem_singleton.1 mem
        unfold Task.removal at is
        split at is
        · rename_i db taken
          rw [taken] at effect
          cases is
          exact .ran _ rfl rfl rfl effect rfl rfl fun _ is => by cases is
        · rename_i db e taken
          rw [taken] at effect
          cases is
          exact .took _ rfl rfl rfl rfl effect rfl rfl rfl rfl
  | taken h =>
    have is := List.mem_singleton.1 mem
    unfold Task.insertion at is
    split at is
    · rename_i db there
      cases is
      exact .ran _ rfl rfl rfl (apply_place_there s.dbs h.target h.key s.now there) rfl rfl fun _ is => is
    · rename_i db absent
      cases is
      exact .ran _ rfl rfl rfl (apply_place s.dbs h.target h.key s.now absent) rfl rfl fun _ is => by cases is
  | refused h now =>
    cases List.mem_singleton.1 mem
    refine .putBack h [h.placed now true] rfl rfl rfl rfl ?_ (spaces_putBack s.dbs h.index h.key h.entry) rfl rfl rfl rfl fits
    intro e here
    cases List.mem_singleton.1 here
    rfl
  | issued index op =>
    cases List.mem_singleton.1 mem
    exact .ran _ rfl rfl rfl (apply_command s.dbs index s.now op) rfl rfl fun _ is => by cases is
  | clock time =>
    cases List.mem_singleton.1 mem
    exact .quiet rfl rfl rfl rfl rfl rfl
  | moved h now => cases mem
  | stayed looked => cases mem
  | restored h now => cases mem
  | outOfRange => cases mem
  | done index now op a => cases mem

/-! ## One MOVE alone -/

/-- The databases of the store. -/
def dbsOf (S : Store) : Fin count → ShardedDatabase := fun i => S.db i

section

variable {S : Store} (size : S.dbs.length = count)
include size

theorem dbsOf_setDb (index : Fin count) (db : ShardedDatabase) :
    Function.update (dbsOf S) index db = dbsOf (S.setDb index db) := by
  funext i
  have inside (j : Fin count) : j.1 % S.dbs.length = j.1 := Nat.mod_eq_of_lt (size ▸ j.2)
  unfold dbsOf
  rw [Function.update_apply, Store.db_setDb_eq, inside, inside, size]
  simp only [Fin.ext_iff, i.pos, and_true]

theorem size_setDb (index : Nat) (db : ShardedDatabase) : (S.setDb index db).dbs.length = count := by
  rw [← size]
  exact List.length_set

/-- **With nothing between its sections a MOVE is `cmd_move`.** -/
theorem reachable_alone (now : Nat) (index : Fin count) (key : Bytes) (target : Int64) :
    ∃ (s : Shared count) (t : Task count),
      Reachable Task.next Task.entry ⟨⟨dbsOf S, now, [], []⟩, []⟩ ⟨s, [t]⟩ ∧
        t.reply = some (S.cmdMove now index key target).2 ∧ s.dbs = dbsOf (S.cmdMove now index key target).1 := by
  have called : Reachable Task.next Task.entry ⟨⟨dbsOf S, now, [], []⟩, []⟩
      ⟨⟨dbsOf S, now, [], []⟩, [.called index key target]⟩ := ⟨[.start (.called index key target)], rfl⟩
  rw [Store.cmdMove_eq]
  by_cases range : target.toInt < 0 ∨ count ≤ target.toInt.toNat
  · rw [if_pos (size ▸ range)]
    exact ⟨_, _, called.alone (dif_pos range), rfl, rfl⟩
  · rw [if_neg (size ▸ range)]
    have inside : target.toInt.toNat < count := by omega
    by_cases same : (⟨target.toInt.toNat, inside⟩ : Fin count) = index
    · rw [if_pos (congrArg Fin.val same)]
      exact ⟨_, _, called.alone ((dif_neg range).trans (dif_pos same)), rfl, rfl⟩
    · rw [if_neg fun is => same (Fin.ext is)]
      obtain ⟨db, out, taken⟩ : ∃ db out, (S.db index).take key = (db, out) := ⟨_, _, rfl⟩
      have onSource : S.onDb index (fun db => db.take key) = (S.setDb index db, out) := by rw [Store.onDb, taken]
      have first : Task.next ⟨dbsOf S, now, [], []⟩ (.called index key target) =
          [Task.removal ⟨dbsOf S, now, [], []⟩ index key ⟨_, inside⟩ same] := (dif_neg range).trans (dif_neg same)
      have there : (dbsOf S index).take key = (db, out) := taken
      rw [onSource]
      rw [Task.removal, there] at first
      cases out with
      | none => exact ⟨_, _, called.alone first, rfl, dbsOf_setDb size index db⟩
      | some e =>
        have size₁ := size_setDb size index db
        have dbs₁ := dbsOf_setDb size index db
        obtain ⟨db₂, found, looked⟩ : ∃ db₂ found,
          ((S.setDb index db).db target.toInt.toNat).containsKey now key = (db₂, found) := ⟨_, _, rfl⟩
        have answer : (S.setDb index db).onDb target.toInt.toNat (fun db => db.containsKey now key) =
            ((S.setDb index db).setDb target.toInt.toNat db₂, found) := by rw [Store.onDb, looked]
        have look : (Function.update (dbsOf S) index db ⟨_, inside⟩).containsKey now key = (db₂, found) := by
          rw [dbs₁]
          exact looked
        have dbs₂ := dbsOf_setDb size₁ ⟨_, inside⟩ db₂
        rw [← dbs₁] at dbs₂
        let h : Hand count := ⟨index, key, ⟨_, inside⟩, same, e, 0⟩
        let s₁ : Shared count := (Shared.setDb ⟨dbsOf S, now, [], []⟩ index db).logged h.took
        have second : Task.next s₁ (.taken h) = [match (db₂, found) with
          | (db, true) => ((s₁.setDb h.target db).logged (h.placed now true), .refused h now)
          | (db, false) => ((s₁.setDb h.target (db.writeFor key fun shard => (shard.insert key e, ())).1).logged
              (h.placed now false), .moved h now)] := by
          rw [← look]
          rfl
        have taken := (called.alone first).alone second
        rw [Store.moved, answer]
        cases found with
        | true =>
          refine ⟨_, _, taken.alone rfl, rfl, ?_⟩
          have back := dbsOf_setDb (size_setDb size₁ target.toInt.toNat db₂) index
            ((dbsOf ((S.setDb index db).setDb target.toInt.toNat db₂) index).writeFor key
              fun shard => (shard.insert key e, ())).1
          rw [← dbs₂] at back
          exact back.trans (by rw [dbs₂]; rfl)
        | false =>
          refine ⟨_, _, taken, rfl, ?_⟩
          have size₂ := size_setDb size₁ target.toInt.toNat db₂
          have put := dbsOf_setDb size₂ ⟨_, inside⟩
            ((dbsOf ((S.setDb index db).setDb target.toInt.toNat db₂) (⟨_, inside⟩ : Fin count)).writeFor key
              fun shard => (shard.insert key e, ())).1
          refine Eq.trans ?_ put
          rw [← dbs₂, Function.update_self, Function.update_idem]
          rfl

end

/-! ## The invariant -/

/-- What holds in every run from the databases `K` whose steps meet the condition. -/
structure Inv (K : Spaces count) (pool : Pool (Shared count) (Task count)) : Prop where
  serial : Explains Op.apply K pool.shared.kept (spaces pool.shared.dbs)
  perm : pool.shared.kept.Perm (pool.tasks.flatMap Task.made)
  order : ∀ t ∈ pool.tasks, t.made.Sublist pool.shared.kept
  hands : ∀ t ∈ pool.tasks, ∀ h, t.hand = some h → pool.shared.log[h.number]? = some h.took
  stamped : ∀ j (e : Event count) n, pool.shared.log[j]? = some e → e.unit = some n → n = j
  named : ∀ t ∈ pool.tasks, ∀ e ∈ t.made, ∀ n, e.unit = some n → t.number = some n
  distinct : (pool.tasks.filterMap Task.number).Nodup
  small : ∀ t ∈ pool.tasks, ∀ n, t.number = some n → n < pool.shared.log.length
  gone : ∀ n ∈ pool.shared.restored, n < pool.shared.log.length

variable {K : Spaces count}

theorem inv_start (dbs : Fin count → ShardedDatabase) (now : Nat) : Inv (spaces dbs) ⟨⟨dbs, now, [], []⟩, []⟩ where
  serial := by
    show spaces dbs = spaces dbs
    rfl
  perm := .nil
  order _ mem := (List.not_mem_nil mem).elim
  hands _ mem := (List.not_mem_nil mem).elim
  stamped j e n is := by simp at is
  named _ mem := (List.not_mem_nil mem).elim
  distinct := .nil
  small _ mem := (List.not_mem_nil mem).elim
  gone _ mem := (List.not_mem_nil mem).elim

theorem Inv.spawn {tasks : List (Task count)} (inv : Inv K ⟨s, tasks⟩) (starts : t.entry = true) :
    Inv K ⟨s, tasks ++ [t]⟩ := by
  have idle : t.made = [] ∧ t.hand = none ∧ t.number = none := by
    cases t <;> first | exact ⟨rfl, rfl, rfl⟩ | cases starts
  obtain ⟨unmade, free, unnamed⟩ := idle
  have either {u : Task count} (mem : u ∈ tasks ++ [t]) : u ∈ tasks ∨ u = t := by simpa using mem
  refine ⟨inv.serial, ?_, ?_, ?_, inv.stamped, ?_, ?_, ?_, inv.gone⟩
  · rw [List.flatMap_append, List.flatMap_singleton, unmade, List.append_nil]
    exact inv.perm
  · intro u mem
    rcases either mem with mem | rfl
    · exact inv.order u mem
    · rw [unmade]
      exact List.nil_sublist _
  · intro u mem h is
    rcases either mem with mem | rfl
    · exact inv.hands u mem h is
    · cases free.symm.trans is
  · intro u mem e here
    rcases either mem with mem | rfl
    · exact inv.named u mem e here
    · rw [unmade] at here
      cases here
  · rw [List.filterMap_append, List.filterMap_cons, unnamed]
    simpa using inv.distinct
  · intro u mem n is
    rcases either mem with mem | rfl
    · exact inv.small u mem n is
    · cases unnamed.symm.trans is

theorem kept_snoc {e : Event count} (log : s'.log = s.log ++ [e]) (same : s'.restored = s.restored)
    (new : ∀ n, e.unit = some n → n ∉ s.restored) : s'.kept = s.kept ++ [e] := by
  have stays : (e.unit.all fun n => n ∉ s.restored) = true := by
    cases is : e.unit with
    | none => rfl
    | some n => simpa using new n is
  rw [Shared.kept, log, same, List.filter_append, List.filter_cons, if_pos stays]
  rfl

theorem getElem?_snoc {e e' : Event count} {j : Nat} (here : (s.log ++ [e])[j]? = some e') :
    s.log[j]? = some e' ∨ j = s.log.length ∧ e' = e := by
  rcases Nat.lt_or_ge j s.log.length with inside | outside
  · rw [List.getElem?_append_left inside] at here
    exact .inl here
  · rw [List.getElem?_append_right outside] at here
    obtain ⟨at0, is⟩ := List.getElem?_eq_some_iff.1 here
    have zero : j - s.log.length = 0 := by simpa using at0
    simp only [zero, List.getElem_cons_zero] at is
    exact .inr ⟨by omega, is.symm⟩

/-- A section that runs, with or without a number. -/
theorem Inv.snoc (inv : Inv K ⟨s, before ++ t :: after⟩) {e : Event count} (log : s'.log = s.log ++ [e])
    (same : s'.restored = s.restored) (made : t'.made = t.made ++ [e])
    (effect : e.op.apply (spaces s.dbs) = (spaces s'.dbs, e.reply))
    (new : e.unit = none ∧ t'.number = t.number ∧ (∀ h, t'.hand = some h → t.hand = some h) ∨
      e.unit = some s.log.length ∧ t.number = none ∧ t'.number = some s.log.length ∧
        ∀ h, t'.hand = some h → h.number = s.log.length ∧ e = h.took) :
    Inv K ⟨s', before ++ t' :: after⟩ := by
  have here : t ∈ before ++ t :: after := by simp
  have kept : s'.kept = s.kept ++ [e] := by
    refine kept_snoc log same fun n is mem => ?_
    have less := inv.gone n mem
    rcases new with ⟨unnumbered, -⟩ | ⟨numbered, -⟩
    · cases unnumbered.symm.trans is
    · cases numbered.symm.trans is
      exact lt_irrefl _ less
  have longer : s'.log.length = s.log.length + 1 := by simp [log]
  refine ⟨?_, ?_, fun u mem => ?_, fun u mem h is => ?_, fun j e' n is unit => ?_, fun u mem e' own n unit => ?_, ?_,
    fun u mem n is => ?_, fun n mem => ?_⟩
  · rw [kept]
    exact explains_append.2 ⟨_, inv.serial, congrArg Prod.snd effect, congrArg Prod.fst effect⟩
  · have cut := inv.perm.trans (flatMap_cut Task.made before after t)
    refine List.Perm.trans ?_ (flatMap_cut Task.made before after t').symm
    rw [kept, made, List.append_assoc]
    refine (cut.append_right [e]).trans ?_
    rw [List.append_assoc]
    exact List.perm_append_comm.append_left _
  · rw [kept]
    rcases mem_of_cut mem with rfl | mem
    · rw [made]
      exact (inv.order t here).append (List.Sublist.refl _)
    · exact (inv.order u mem).trans (List.sublist_append_left _ _)
  · rw [log]
    have old {u : Task count} (mem : u ∈ before ++ t :: after) (is : u.hand = some h) :
        (s.log ++ [e])[h.number]? = some h.took := by
      have there := inv.hands u mem h is
      rwa [List.getElem?_append_left (List.getElem?_eq_some_iff.1 there).1]
    rcases mem_of_cut mem with rfl | mem
    · rcases new with ⟨-, -, keeps⟩ | ⟨-, -, -, fresh⟩
      · exact old here (keeps h is)
      · obtain ⟨number, rfl⟩ := fresh h is
        rw [number, List.getElem?_concat_length]
    · exact old mem is
  · rw [log] at is
    rcases getElem?_snoc is with is | ⟨rfl, rfl⟩
    · exact inv.stamped j e' n is unit
    · rcases new with ⟨unnumbered, -⟩ | ⟨numbered, -⟩
      · cases unnumbered.symm.trans unit
      · cases numbered.symm.trans unit
        rfl
  · rcases mem_of_cut mem with rfl | mem
    · rw [made] at own
      rcases List.mem_append.1 own with own | own
      · have number := inv.named t here e' own n unit
        rcases new with ⟨-, same, -⟩ | ⟨-, unnamed, -⟩
        · exact same.trans number
        · cases unnamed.symm.trans number
      · rw [List.mem_singleton.1 own] at unit
        rcases new with ⟨unnumbered, -⟩ | ⟨numbered, -, is, -⟩
        · cases unnumbered.symm.trans unit
        · cases numbered.symm.trans unit
          exact is
    · exact inv.named u mem e' own n unit
  · have cut := (filterMap_cut Task.number before after t).nodup_iff.1 inv.distinct
    refine (filterMap_cut Task.number before after t').nodup_iff.2 ?_
    rcases new with ⟨-, same, -⟩ | ⟨-, unnamed, is, -⟩
    · rw [same]
      exact cut
    · rw [unnamed] at cut
      rw [is]
      refine List.nodup_cons.2 ⟨fun mem => ?_, cut⟩
      obtain ⟨u, there, number⟩ := List.mem_filterMap.1 mem
      have less := inv.small u (by simp only [List.mem_append, List.mem_cons] at there ⊢; tauto) _ number
      exact lt_irrefl _ less
  · show n < s'.log.length
    rw [longer]
    rcases mem_of_cut mem with rfl | mem
    · rcases new with ⟨-, same, -⟩ | ⟨-, -, number, -⟩
      · exact Nat.lt_succ_of_lt (inv.small t here n (same ▸ is))
      · cases number.symm.trans is
        exact Nat.lt_succ_self _
    · exact Nat.lt_succ_of_lt (inv.small u mem n is)
  · show n < s'.log.length
    rw [longer]
    exact Nat.lt_succ_of_lt (inv.gone n (same ▸ mem))

theorem Inv.quiet (inv : Inv K ⟨s, before ++ t :: after⟩) (dbs : s'.dbs = s.dbs) (log : s'.log = s.log)
    (same : s'.restored = s.restored) (made : t'.made = t.made) (number : t'.number = t.number)
    (hand : t'.hand = t.hand) : Inv K ⟨s', before ++ t' :: after⟩ := by
  have here : t ∈ before ++ t :: after := by simp
  have kept : s'.kept = s.kept := by rw [Shared.kept, Shared.kept, log, same]
  refine ⟨?_, ?_, fun u mem => ?_, fun u mem h is => ?_, ?_, fun u mem e own n unit => ?_, ?_, fun u mem n is => ?_, ?_⟩
  · rw [kept, dbs]
    exact inv.serial
  · rw [kept]
    refine (inv.perm.trans (flatMap_cut Task.made before after t)).trans ?_
    rw [← made]
    exact (flatMap_cut Task.made before after t').symm
  · rw [kept]
    rcases mem_of_cut mem with rfl | mem
    · rw [made]
      exact inv.order t here
    · exact inv.order u mem
  · rw [log]
    rcases mem_of_cut mem with rfl | mem
    · exact inv.hands t here h (hand ▸ is)
    · exact inv.hands u mem h is
  · rw [log]
    exact inv.stamped
  · rcases mem_of_cut mem with rfl | mem
    · rw [number]
      exact inv.named t here e (made ▸ own) n unit
    · exact inv.named u mem e own n unit
  · have cut := (filterMap_cut Task.number before after t).nodup_iff.1 inv.distinct
    rw [← number] at cut
    exact (filterMap_cut Task.number before after t').nodup_iff.2 cut
  · rw [log]
    rcases mem_of_cut mem with rfl | mem
    · exact inv.small t here n (number ▸ is)
    · exact inv.small u mem n is
  · rw [log, same]
    exact inv.gone

theorem kept_putBack {n : Nat} (log : s'.log = s.log) (restored : s'.restored = n :: s.restored) :
    s'.kept = s.kept.filter fun e => e.unit ≠ some n := by
  rw [Shared.kept, Shared.kept, log, restored, List.filter_filter]
  refine List.filter_congr fun e _ => ?_
  cases e.unit <;> simp

/-- **An entry nobody missed is put back as if it had never been out.** -/
theorem Inv.serial_putBack (inv : Inv K ⟨s, before ++ t :: after⟩) {h : Hand count}
    (there : s.log[h.number]? = some h.took) (stays : h.number ∉ s.restored)
    (log : s'.log = s.log) (restored : s'.restored = h.number :: s.restored)
    (state : spaces s'.dbs = Function.update (spaces s.dbs) (h.index, h.key) (some h.entry.content))
    (unmissed : ∀ e ∈ s.log.drop (h.number + 1), (h.index, h.key) ∉ e.op.keys) :
    Explains Op.apply K s'.kept (spaces s'.dbs) := by
  obtain ⟨inside, is⟩ := List.getElem?_eq_some_iff.1 there
  have split : s.log = s.log.take h.number ++ h.took :: s.log.drop (h.number + 1) := by
    rw [← is, List.getElem_cons_drop, List.take_append_drop]
  -- the history before and after the entry was taken out, without what was put back
  let keep (e : Event count) : Bool := e.unit.all fun n => n ∉ s.restored
  have kept : s.kept = (s.log.take h.number).filter keep ++ h.took :: (s.log.drop (h.number + 1)).filter keep := by
    have mine : keep h.took = true := by simpa [keep, Hand.took] using stays
    rw [Shared.kept, split, List.filter_append, List.filter_cons, if_pos mine, ← split]
  have other {e : Event count} (mem : e ∈ s.log.take h.number ∨ e ∈ s.log.drop (h.number + 1)) :
      decide (e.unit ≠ some h.number) = true := by
    refine decide_eq_true fun named => ?_
    rcases mem with mem | mem
    · obtain ⟨j, less, at'⟩ := List.mem_iff_getElem.1 mem
      rw [List.getElem_take] at at'
      have same := inv.stamped j e h.number (List.getElem?_eq_some_iff.2 ⟨_, at'⟩) named
      rw [List.length_take] at less
      omega
    · obtain ⟨j, less, at'⟩ := List.mem_iff_getElem.1 mem
      rw [List.getElem_drop] at at'
      have same := inv.stamped _ e h.number (List.getElem?_eq_some_iff.2 ⟨_, at'⟩) named
      omega
  have kept' : s'.kept = (s.log.take h.number).filter keep ++ (s.log.drop (h.number + 1)).filter keep := by
    rw [kept_putBack log restored, kept, List.filter_append, List.filter_cons, if_neg (by simp [Hand.took])]
    congr 1
    · exact List.filter_eq_self.2 fun e mem => other (.inl (List.mem_filter.1 mem).1)
    · exact List.filter_eq_self.2 fun e mem => other (.inr (List.mem_filter.1 mem).1)
  have runs : Explains Op.apply K s.kept (spaces s.dbs) := inv.serial
  rw [kept] at runs
  obtain ⟨K₁, first, rest⟩ := explains_append.1 runs
  have moved := rest.move fun e mem => (Op.local_take h.index h.key).commute (Op.local_apply e.op) fun p here => by
    rw [Set.mem_singleton_iff.1 here]
    exact unmissed e (List.mem_filter.1 mem).1
  obtain ⟨K₂, second, held, out⟩ := explains_append.1 moved
  have content : K₂ (h.index, h.key) = some h.entry.content := Answer.value.inj held
  have left : Function.update K₂ (h.index, h.key) none = spaces s.dbs := out
  rw [kept', state, ← left, Function.update_idem, ← content, Function.update_eq_self]
  exact explains_append.2 ⟨K₁, first, second⟩

theorem Inv.putBack (inv : Inv K ⟨s, before ++ t :: after⟩) {h : Hand count} {rest : List (Event count)}
    (log : s'.log = s.log) (restored : s'.restored = h.number :: s.restored) (made : t.made = h.took :: rest)
    (made' : t'.made = rest) (plain : ∀ e ∈ rest, e.unit = none)
    (state : spaces s'.dbs = Function.update (spaces s.dbs) (h.index, h.key) (some h.entry.content))
    (mine : t.hand = some h) (number : t.number = some h.number) (number' : t'.number = none) (hand' : t'.hand = none)
    (unmissed : ∀ e ∈ s.log.drop (h.number + 1), (h.index, h.key) ∉ e.op.keys) :
    Inv K ⟨s', before ++ t' :: after⟩ := by
  have here : t ∈ before ++ t :: after := by simp
  have there : s.log[h.number]? = some h.took := inv.hands t here h mine
  have kept := kept_putBack log restored
  have own : h.took ∈ s.kept := (inv.order t here).subset (by simp [made])
  have stays : h.number ∉ s.restored := by simpa [Hand.took] using (List.mem_filter.1 own).2
  -- no other task has this number
  have cut := (filterMap_cut Task.number before after t).nodup_iff.1 inv.distinct
  rw [number] at cut
  obtain ⟨single, distinct⟩ := List.nodup_cons.1 cut
  have apart {u : Task count} (mem : u ∈ before ++ after) : u.number ≠ some h.number := fun is =>
    single (List.mem_filterMap.2 ⟨u, mem, is⟩)
  have old {u : Task count} (mem : u ∈ before ++ after) : u ∈ before ++ t :: after := by
    simp only [List.mem_append, List.mem_cons] at mem ⊢
    tauto
  have rests {u : Task count} (mem : u ∈ before ++ t' :: after) : u = t' ∨ u ∈ before ++ after := by
    simp only [List.mem_append, List.mem_cons] at mem ⊢
    tauto
  have untouched {l : List (Event count)} (fine : ∀ e ∈ l, e.unit ≠ some h.number) (sub : l.Sublist s.kept) :
      l.Sublist s'.kept := by
    have filtered := sub.filter fun e => decide (e.unit ≠ some h.number)
    rwa [List.filter_eq_self.2 fun e mem => decide_eq_true (fine e mem), ← kept] at filtered
  refine ⟨inv.serial_putBack there stays log restored state unmissed, ?_, fun u mem => ?_, fun u mem g is => ?_,
    ?_, fun u mem e own n unit => ?_, ?_, fun u mem n is => ?_, fun n mem => ?_⟩
  · have all := inv.perm.trans (flatMap_cut Task.made before after t)
    refine List.Perm.trans ?_ (flatMap_cut Task.made before after t').symm
    rw [kept, made']
    rw [made] at all
    have filtered := all.filter fun e => decide (e.unit ≠ some h.number)
    have gone : decide (h.took.unit ≠ some h.number) = false := by simp [Hand.took]
    rw [List.cons_append, List.filter_cons, gone] at filtered
    refine filtered.trans (List.Perm.of_eq (List.filter_eq_self.2 fun e mem => decide_eq_true ?_))
    rcases List.mem_append.1 mem with mem | mem
    · rw [plain e mem]
      exact (Option.some_ne_none _).symm
    · obtain ⟨u, there, does⟩ := List.mem_flatMap.1 mem
      exact fun named => apart there (inv.named u (old there) e does h.number named)
  · rcases rests mem with rfl | mem
    · rw [made']
      refine untouched (fun e mem => by rw [plain e mem]; exact (Option.some_ne_none _).symm) ?_
      have sub := inv.order t here
      rw [made] at sub
      exact (List.sublist_cons_self _ _).trans sub
    · exact untouched (fun e does named => apart mem (inv.named u (old mem) e does h.number named)) (inv.order u (old mem))
  · rcases rests mem with rfl | mem
    · cases hand'.symm.trans is
    · rw [log]
      exact inv.hands u (old mem) g is
  · rw [log]
    exact inv.stamped
  · rcases rests mem with rfl | mem
    · rw [made'] at own
      cases (plain e own).symm.trans unit
    · exact inv.named u (old mem) e own n unit
  · refine (filterMap_cut Task.number before after t').nodup_iff.2 ?_
    rw [number']
    exact distinct
  · rw [log]
    rcases rests mem with rfl | mem
    · cases number'.symm.trans is
    · exact inv.small u (old mem) n is
  · rw [restored] at mem
    rw [log]
    rcases List.mem_cons.1 mem with rfl | mem
    · exact (List.getElem?_eq_some_iff.1 there).1
    · exact inv.gone n mem

theorem Inv.step (inv : Inv K ⟨s, before ++ t :: after⟩) (mem : (s', t') ∈ t.next s)
    (fits : t.Fits ⟨s, before ++ t :: after⟩ s' t') : Inv K ⟨s', before ++ t' :: after⟩ := by
  cases step_of_next mem fits with
  | quiet dbs log restored made number hand => exact inv.quiet dbs log restored made number hand
  | ran e log restored made effect unnumbered number hand =>
    exact inv.snoc log restored made effect (.inl ⟨unnumbered, number, hand⟩)
  | took h log restored unmade made effect fresh unnamed number hand =>
    refine inv.snoc log restored (by rw [made, unmade]; rfl) effect (.inr ⟨by rw [← fresh]; rfl, unnamed, fresh ▸ number, ?_⟩)
    intro g is
    cases hand.symm.trans is
    exact ⟨fresh, rfl⟩
  | putBack h rest log restored made made' plain state hand number number' hand' unmissed =>
    exact inv.putBack log restored made made' plain state hand number number' hand' unmissed

/-! ## MOVE is atomic -/

/-- MOVE is atomic in a run from the databases `K`: some order of what the tasks did, in which each keeps its
own order, explains the databases and every answer. A MOVE that answered 0 is in it with a look only (`made`):
the source did not hold the key, or the target did. One that answered 1 takes out what the source held at one
moment and puts that into a target without the key. Every other operation is in it with the answer it got. -/
def Atomic (K : Spaces count) (pool : Pool (Shared count) (Task count)) : Prop :=
  ∃ order : List (Event count), order.Perm (pool.tasks.flatMap Task.made) ∧
    (∀ t ∈ pool.tasks, t.made.Sublist order) ∧ Explains Op.apply K order (spaces pool.shared.dbs)

/-- **MOVE is atomic**, whatever runs between its sections, where nobody uses the key in the source between the
removal and the putting back. MOVE removes the entry, looks at the target and, where that has the key, puts the
entry back: three sections, each under a lock of its own. -/
theorem move_atomic (dbs : Fin count → ShardedDatabase) (now : Nat) (turns : List (Interleave.Turn (Task count)))
    (meets : Trace.Always (Pool.advance Task.next Task.entry) (fun t c => c.Meets Task.next Task.Fits t) turns
      ⟨⟨dbs, now, [], []⟩, []⟩) :
    Atomic (spaces dbs) (Trace.run (Pool.advance Task.next Task.entry) turns ⟨⟨dbs, now, [], []⟩, []⟩) := by
  have inv : Inv (spaces dbs) (Trace.run (Pool.advance Task.next Task.entry) turns ⟨⟨dbs, now, [], []⟩, []⟩) :=
    advance_invariant meets (inv_start dbs now) Inv.spawn Inv.step
  exact ⟨_, inv.perm, inv.order, inv.serial⟩

/-- One shard with one key. -/
def holding (value : Bytes) : ShardedDatabase :=
  ((ShardedDatabase.new 1 Nat.one_pos).writeFor [107] fun shard => (shard.insert [107] (.new (.string value)), ())).1

/-- MOVE of a key that both databases hold, with a SET of the key in one of them before the entry is put back. -/
def setBetween (index : Fin 2) : List (Interleave.Turn (Task 2)) :=
  [.start (.called 0 [107] 1), .step 0 0, .step 0 0, .start (.issued index ⟨.setPlain [107] [50], rfl⟩), .step 1 0,
    .step 0 0]

def held : Hand 2 := ⟨0, [107], 1, by decide, ⟨.string [49], none, 0⟩, 0⟩

/-- A SET in the target is no matter. -/
theorem move_atomic_target :
    Atomic (spaces fun _ => holding [49]) (Trace.run (Pool.advance Task.next Task.entry) (setBetween 1)
      ⟨⟨fun _ => holding [49], 0, [], []⟩, []⟩) := by
  refine move_atomic (fun _ => holding [49]) 0 (setBetween 1)
    ⟨trivial, fun t _ _ task _ => ?_, fun t _ _ task _ => ?_, trivial, fun t _ _ task _ => ?_,
      fun t _ _ task _ => ?_, trivial⟩
  · obtain rfl : Task.called 0 [107] 1 = t := Option.some.inj task
    trivial
  · obtain rfl : Task.taken held = t := Option.some.inj task
    trivial
  · obtain rfl : Task.issued 1 ⟨.setPlain [107] [50], rfl⟩ = t := Option.some.inj task
    trivial
  · obtain rfl : Task.refused held 0 = t := Option.some.inj task
    intro e mem
    have log : e ∈ [held.placed 0 true, ⟨none, .command 1 0 ⟨.setPlain [107] [50], rfl⟩, .unit⟩] := mem
    rcases List.mem_cons.1 log with rfl | log
    · rintro ⟨⟩
    · rw [List.mem_singleton.1 log]
      rintro ⟨⟨⟩, -⟩

/-- A SET in the source is lost: it was answered with OK, and the key holds what MOVE put back. -/
theorem move_loses_set :
    ¬Atomic (spaces fun _ => holding [49]) (Trace.run (Pool.advance Task.next Task.entry) (setBetween 0)
      ⟨⟨fun _ => holding [49], 0, [], []⟩, []⟩) := by
  rintro ⟨order, same, -, runs⟩
  have made : order.Perm [held.placed 0 true, ⟨none, .command 0 0 ⟨.setPlain [107] [50], rfl⟩, .unit⟩] := same
  have left : (spaces (Trace.run (Pool.advance Task.next Task.entry) (setBetween 0)
      ⟨⟨fun _ => holding [49], 0, [], []⟩, []⟩).shared.dbs) (0, [107]) = some (.string [49], none) := rfl
  have either := List.mem_permutations'.2 made
  have set : some ((.string [50], none) : Content) ≠ some (.string [49], none) := by
    intro is
    cases is
  -- whichever came first, the SET is the last that wrote the key
  rcases List.mem_cons.1 either with rfl | either
  · obtain ⟨-, -, final⟩ := runs
    rw [← final] at left
    exact set left
  · rw [List.mem_singleton.1 either] at runs
    obtain ⟨-, -, final⟩ := runs
    rw [← final] at left
    exact set left

end NexradeCache.Move
