import NexradeCache.Lib.Interleave
import NexradeCache.Store.Twins

/-!
# Counters

A key stands for an integer if it holds one, or a string that is one, or nothing (`reading`); `Counts`
says what adding to it may answer and leave. The increments of `Database` and `ShardedDatabase` do exactly
that, on each of their paths.

`Task` is an increment in its atomic steps, with others running between them: the probe under the read lock
of the shard, the load of the cell, each compare-and-swap and the version behind it, or else the write lock,
which waits until no reader holds the shard. `Inv.serial` is the invariant that settles what happens: the
increments that took effect did so one after the other.
-/

namespace NexradeCache

/-- The integer fits in an `i64`. -/
def Fits (n : Int) : Prop := -(2 ^ 63) ≤ n ∧ n < 2 ^ 63

theorem fits_toInt (n : Int64) : Fits n.toInt := ⟨n.le_toInt, n.toInt_lt⟩

theorem checkedAddI64_eq_some {a b n : Int64} (h : checkedAddI64 a b = some n) : n.toInt = a.toInt + b.toInt := by
  unfold checkedAddI64 at h
  dsimp only at h
  split at h
  · rename_i fits
    cases h
    exact Int64.toInt_ofInt_of_le fits.1 fits.2
  · cases h

theorem checkedAddI64_eq_none {a b : Int64} : checkedAddI64 a b = none ↔ ¬Fits (a.toInt + b.toInt) := by
  unfold checkedAddI64
  dsimp only
  split
  · exact iff_of_false nofun fun unfit => unfit ‹_›
  · exact iff_of_true rfl ‹_›

namespace Content

/-- The integer a key stands for; one that is not there stands for 0. -/
def reading : Option Content → Except IncrError Int64
  | none => .ok 0
  | some (.int cell, _) => .ok cell.value
  | some (.string s, _) => match Database.parseValue s with
    | some n => .ok n
    | none => .error .notInteger
  | some _ => .error .wrongType

/-- Adding `change` to a key: the exact sum is stored with the deadline kept, or nothing changes. -/
inductive Counts (change : Int) (c : Option Content) : Except IncrError Int64 → Option Content → Prop
  | added {old n : Int64} : reading c = .ok old → n.toInt = old.toInt + change →
    Counts change c (.ok n) (some (.int (.new n), c.bind Prod.snd))
  | overflows {old : Int64} : reading c = .ok old → ¬Fits (old.toInt + change) →
    Counts change c (.error .overflow) c
  | refused {e : IncrError} : reading c = .error e → Counts change c (.error e) c

namespace Counts

variable {change : Int} {c c' d d' : Option Content} {r r' : Except IncrError Int64}

/-- There is one answer, and it depends on what the key stands for only. -/
theorem answer_eq (h : Counts change c r c') (h' : Counts change d r' d') (same : reading c = reading d) : r = r' := by
  cases h with
  | added reads exact =>
    cases h' with
    | added reads' exact' =>
      rw [← same, reads] at reads'
      cases reads'
      rw [Int64.toInt_inj.1 (exact.trans exact'.symm)]
    | overflows reads' unfit =>
      rw [← same, reads] at reads'
      cases reads'
      exact (unfit (exact ▸ fits_toInt _)).elim
    | refused reads' => cases (same ▸ reads).symm.trans reads'
  | overflows reads unfit =>
    cases h' with
    | added reads' exact' =>
      rw [← same, reads] at reads'
      cases reads'
      exact (unfit (exact' ▸ fits_toInt _)).elim
    | overflows => rfl
    | refused reads' => cases (same ▸ reads).symm.trans reads'
  | refused reads =>
    cases h' with
    | added reads' => cases (same ▸ reads).symm.trans reads'
    | overflows reads' => cases (same ▸ reads).symm.trans reads'
    | refused reads' => cases (same ▸ reads).symm.trans reads'; rfl

theorem reading_eq {n : Int64} (h : Counts change c (.ok n) c') : reading c' = .ok n ∧ c'.bind Prod.snd = c.bind Prod.snd := by
  cases h
  exact ⟨rfl, rfl⟩

theorem answer_exact {old n : Int64} (h : Counts change c (.ok n) c') (reads : reading c = .ok old) :
    n.toInt = old.toInt + change := by
  cases h with
  | added reads' exact =>
    cases reads.symm.trans reads'
    exact exact

/-- What is no integer is refused, whatever is added. -/
theorem of_refused {change' : Int} (h : Counts change c r c') (refused : ∀ n, reading c ≠ .ok n) :
    Counts change' c r c' := by
  cases h with
  | added reads => exact (refused _ reads).elim
  | overflows reads => exact (refused _ reads).elim
  | refused reads => exact .refused reads

theorem unchanged {e : IncrError} (h : Counts change c (.error e) c') : c' = c := by
  cases h <;> rfl

end Counts

variable {now : Nat} {delta : Int64} {c : Option Content}

theorem live_eq_self {c : Content} (alive : c.isExpired now = false) : live now (some c) = some c := by
  rw [live, Option.filter_some, alive]
  rfl

theorem not_isExpired_of_live {c : Option Content} {d : Content} (alive : live now c = some d) :
    d.isExpired now = false := by
  obtain ⟨-, kept⟩ := Option.filter_eq_some_iff.1 alive
  simpa using kept

/-- **An increment is exact.** -/
theorem counts_incrBy (now : Nat) (delta : Int64) (c : Option Content) :
    Counts delta.toInt (live now c) (incrBy now delta c).2 (live now (incrBy now delta c).1) := by
  have sum {old n : Int64} {t : Option Nat} {v : DataType} (alive : live now c = some (v, t))
      (reads : reading (live now c) = .ok old) (made : checkedAddI64 old delta = some n) :
      Counts delta.toInt (live now c) (.ok n) (live now (some (.int (.new n), t))) := by
    have kept : live now (some (.int (.new n), t)) = some (.int (.new n), t) :=
      live_eq_self (not_isExpired_of_live (d := (v, t)) alive)
    have same : t = (live now c).bind Prod.snd := by rw [alive]; rfl
    rw [kept, same]
    exact .added reads (checkedAddI64_eq_some made)
  unfold incrBy
  split
  · rename_i cell t alive
    have reads : reading (live now c) = .ok cell.value := by rw [alive]; rfl
    split
    · exact sum alive reads ‹_›
    · exact .overflows reads (checkedAddI64_eq_none.1 ‹_›)
  · rename_i s t alive
    cases parsed : Database.parseValue s with
    | none => exact .refused (by rw [alive]; simp only [reading, parsed])
    | some current =>
      have reads : reading (live now c) = .ok current := by rw [alive]; simp only [reading, parsed]
      dsimp only
      split
      · exact sum alive reads ‹_›
      · exact .overflows reads (checkedAddI64_eq_none.1 ‹_›)
  · rename_i d noInt noString alive
    refine .refused ?_
    rw [alive]
    obtain ⟨v, t⟩ := d
    cases v with
    | int cell => exact (noInt cell t rfl).elim
    | string s => exact (noString s t rfl).elim
    | _ => rfl
  · rename_i alive
    have reads : reading (live now c) = .ok 0 := by rw [alive]; rfl
    have kept : live now (some (.int (.new delta), none)) = some (.int (.new delta), (live now c).bind Prod.snd) := by
      rw [alive]
      rfl
    rw [kept]
    exact .added reads (by simp)

end Content

/-! ## Increments in atomic steps -/

namespace Counter

open Interleave Content Serial

/-- An increment, with the time its entry was looked at. -/
structure Increment where
  key : Bytes
  delta : Int64
  time : Nat

/-- The increment as one step. -/
def Increment.apply (i : Increment) (K : Keyspace) : Keyspace × Except IncrError Int64 :=
  (Function.update K i.key (incrBy i.time i.delta (K i.key)).1, (incrBy i.time i.delta (K i.key)).2)

theorem Increment.apply_here (i : Increment) (K : Keyspace) :
    (i.apply K).1 i.key = (incrBy i.time i.delta (K i.key)).1 := Function.update_self ..

theorem Increment.apply_other (i : Increment) (K : Keyspace) {x : Bytes} (ne : x ≠ i.key) :
    (i.apply K).1 x = K x := Function.update_of_ne ne ..

/-- An increment that took effect, with its answer. -/
abbrev Made := Serial.Entry Unit Increment (Except IncrError Int64)

/-- The cell under a key. -/
def cellAt (db : ShardedDatabase) (key : Bytes) : Option AtomicIntCell :=
  match (db.shardFor key).entries.lookup key with
  | some ⟨.int cell, _, _⟩ => some cell
  | _ => none

/-- What an atomic write leaves in the cell. -/
def setCell (db : ShardedDatabase) (key : Bytes) (cell : AtomicIntCell) : ShardedDatabase :=
  (db.writeFor key fun shard => match shard.entries.lookup key with
    | some e => ({ shard with entries := shard.entries.insert key { e with value := .int cell } }, ())
    | none => (shard, ())).1

/-- The store, the clock, and the key of each read guard that is held. -/
structure Shared where
  db : ShardedDatabase
  clock : Nat
  readers : List Bytes

/-- An increment by the step it takes next, with the increment and what it has computed so far. `probed`, `loaded`
and `swapped` hold the read guard of the shard; `missed` is behind the probe, before the write lock. -/
inductive Task where
  | called (key : Bytes) (delta : Int64)
  | probed (i : Increment)
  | loaded (i : Increment) (current newVal : Int64)
  | swapped (i : Increment) (newVal : Int64)
  | missed (key : Bytes) (delta : Int64)
  | answered (i : Increment) (r : Except IncrError Int64)
  | clock (time : Nat)

/-- The read guard is dropped. -/
def Shared.release (s : Shared) (key : Bytes) : Shared := { s with readers := s.readers.erase key }

namespace Task

/-- The sum is checked against the value that was just seen in the cell. -/
def load (s : Shared) (i : Increment) (current : Int64) : Shared × Task :=
  match checkedAddI64 current i.delta with
  | some newVal => (s, loaded i current newVal)
  | none => (s.release i.key, answered i (.error .overflow))

/-- `compare_exchange_weak` may fail without a reason. -/
def next (s : Shared) : Task → List (Shared × Task)
  | called key delta =>
    match (s.db.shardFor key).getRo s.clock key with
    | some ⟨.int _, _, _⟩ => [({ s with readers := key :: s.readers }, probed ⟨key, delta, s.clock⟩)]
    | _ => [(s, missed key delta)]
  | probed i =>
    match cellAt s.db i.key with
    | some cell => [load s i cell.value]
    | none => []
  | loaded i current newVal =>
    match cellAt s.db i.key with
    | some cell =>
      if cell.value = current then
        [({ s with db := setCell s.db i.key { cell with value := newVal } }, swapped i newVal), load s i cell.value]
      else [load s i cell.value]
    | none => []
  | swapped i newVal =>
    match cellAt s.db i.key with
    | some cell =>
      [({ s with db := setCell s.db i.key { cell with version := wrappingSucc cell.version } }.release i.key,
        answered i (.ok newVal))]
    | none => []
  -- The write lock is there once no reader holds the shard.
  | missed key delta =>
    if s.readers.all fun k => s.db.shardIdx k ≠ s.db.shardIdx key then
      let (db, r) := s.db.writeFor key fun shard => shard.incrInt s.clock key delta
      [({ s with db }, answered ⟨key, delta, s.clock⟩ r)]
    else []
  | answered _ _ => []
  | clock time => [({ s with clock := max s.clock time }, clock time)]

def entry : Task → Bool
  | called _ _ => true
  | clock _ => true
  | _ => false

/-- The increment whose read guard the task holds. -/
def held : Task → Option Increment
  | probed i => some i
  | loaded i _ _ => some i
  | swapped i _ => some i
  | _ => none

/-- The increment that took effect. -/
def made : Task → Option Made
  | swapped i newVal => some ⟨(), i, .ok newVal⟩
  | answered i r => some ⟨(), i, r⟩
  | _ => none

/-- A sum that was computed. -/
def Sound : Task → Prop
  | loaded i current newVal => checkedAddI64 current i.delta = some newVal
  | _ => True

end Task

/-! ### What single steps do -/

/-- The entry a read guard was taken for is there: an integer, live when it was looked at. -/
def Holds (db : ShardedDatabase) (i : Increment) : Prop :=
  ∃ e cell, (db.view i.key).entry = some e ∧ e.value = .int cell ∧ e.isExpired i.time = false

variable {db : ShardedDatabase} {i j : Increment} {key : Bytes} {cell : AtomicIntCell}

theorem cellAt_eq_some (h : cellAt db key = some cell) :
    ∃ e, (db.view key).entry = some e ∧ e.value = .int cell := by
  unfold cellAt at h
  split at h
  · rename_i found
    cases h
    exact ⟨_, found, rfl⟩
  · cases h

theorem entry_setCell {e : Entry} (there : (db.view key).entry = some e) (x : Bytes) :
    ((setCell db key cell).view x).entry =
      if x = key then some { e with value := .int cell } else (db.view x).entry := by
  have moves : Database.Moves (fun shard => match shard.entries.lookup key with
      | some e => (({ shard with entries := shard.entries.insert key { e with value := .int cell } } : Database), ())
      | none => (shard, ())) key fun _ v => ⟨v.entry.map fun e => { e with value := .int cell }, v.slot⟩ := by
    constructor
    · intro shard
      cases found : shard.entries.lookup key with
      | none => exact .inl (by simp [Database.view, found])
      | some e => exact .inl (by simp [Database.view, found])
    · intro shard x ne
      cases found : shard.entries.lookup key with
      | none => exact .refl _
      | some e => exact .inl (by simp [Database.view, ne])
  have after := ShardedDatabase.view_writeFor moves db
  split
  · rename_i same
    subst same
    rw [setCell, after.1.entry, there]
    rfl
  · rw [setCell, (after.2 ‹_›).entry]

theorem keyspace_setCell {e : Entry} (there : (db.view key).entry = some e) :
    (setCell db key cell).keyspace = Function.update db.keyspace key (some (.int (.new cell.value), e.expiry)) := by
  funext x
  have entry := @entry_setCell db key cell e there x
  rw [Function.update_apply]
  split
  · rename_i same
    rw [if_pos same] at entry
    exact congrArg (Option.map Entry.content) entry
  · rename_i other
    rw [if_neg other] at entry
    exact congrArg (Option.map Entry.content) entry

/-- A write to a cell leaves every other guarded entry what it is. -/
theorem Holds.setCell {e : Entry} (there : (db.view key).entry = some e) (holds : Holds db j) :
    Holds (setCell db key cell) j := by
  obtain ⟨e', cell', found, value, alive⟩ := holds
  have entry := @entry_setCell db key cell e there j.key
  split at entry
  · rename_i same
    rw [same, there] at found
    cases found
    exact ⟨_, cell, entry, rfl, alive⟩
  · exact ⟨e', cell', entry.trans found, value, alive⟩

theorem Holds.incrInt {now : Nat} {delta : Int64} (apart : db.shardIdx j.key ≠ db.shardIdx key) (holds : Holds db j) :
    Holds (db.writeFor key fun shard => shard.incrInt now key delta).1 j := by
  unfold Holds ShardedDatabase.view
  rw [ShardedDatabase.shardFor_writeFor, if_neg fun same => apart same.symm]
  exact holds

/-- The increment through the cell, by what is in it. -/
theorem apply_of_holds {e : Entry} (there : (db.view i.key).entry = some e) (value : e.value = .int cell)
    (holds : Holds db i) : i.apply db.keyspace = match checkedAddI64 cell.value i.delta with
      | some n => (Function.update db.keyspace i.key (some (.int (.new n), e.expiry)), .ok n)
      | none => (db.keyspace, .error .overflow) := by
  obtain ⟨e', -, found, -, alive⟩ := holds
  rw [there] at found
  cases found
  have known : db.keyspace i.key = some (.int (.new cell.value), e.expiry) := by
    show ((db.view i.key).entry).map Entry.content = _
    rw [there, Option.map_some, Entry.content, value]
    rfl
  have stays : live i.time (some (.int (.new cell.value), e.expiry)) = some (.int (.new cell.value), e.expiry) :=
    live_eq_self alive
  unfold Increment.apply incrBy
  rw [known, stays]
  cases sum : checkedAddI64 cell.value i.delta with
  | some n => simp only [AtomicIntCell.new, sum]
  | none =>
    simp only [AtomicIntCell.new] at known
    simp only [AtomicIntCell.new, sum]
    rw [← known]
    exact Prod.ext (Function.update_eq_self ..) rfl

/-- What a step does. -/
structure Step (s : Shared) (t : Task) (s' : Shared) (t' : Task) : Prop where
  /-- An increment takes effect once, exactly, or nothing does. -/
  took : (t'.made = t.made ∧ s'.db.keyspace = s.db.keyspace) ∨
    (t.made = none ∧ ∃ m, t'.made = some m ∧ m.op.apply s.db.keyspace = (s'.db.keyspace, m.reply))
  /-- What a reader holds stays. -/
  keeps : ∀ j, j.key ∈ s.readers → Holds s.db j → Holds s'.db j
  guards : (t'.held = t.held ∧ s'.readers = s.readers) ∨
    (t.held = none ∧ ∃ i, t'.held = some i ∧ s'.readers = i.key :: s.readers ∧ Holds s'.db i) ∨
    ∃ i, t.held = some i ∧ t'.held = none ∧ s'.readers = s.readers.erase i.key
  sound : t'.Sound

variable {s s' : Shared} {t t' : Task}

/-- A load: the sum will be tried, or the increment is refused for what is in the cell now. -/
theorem step_load (holds : Holds s.db i) (mine : t.held = some i) (waits : t.made = none)
    (there : cellAt s.db i.key = some cell) (loads : (s', t') = Task.load s i cell.value) : Step s t s' t' := by
  obtain ⟨e, found, value⟩ := cellAt_eq_some there
  have effect := apply_of_holds found value holds
  unfold Task.load at loads
  cases sum : checkedAddI64 cell.value i.delta with
  | some n =>
    rw [sum] at loads
    cases loads
    exact ⟨.inl ⟨waits.symm, rfl⟩, fun _ _ h => h, .inl ⟨mine.symm, rfl⟩, sum⟩
  | none =>
    rw [sum] at effect loads
    cases loads
    exact ⟨.inr ⟨waits, _, rfl, effect⟩, fun _ _ h => h, .inr (.inr ⟨i, mine, rfl, rfl⟩), trivial⟩

/-- **Every step is one of these.** -/
theorem step_of_next (mem : (s', t') ∈ t.next s) (holds : ∀ i, t.held = some i → Holds s.db i) (sound : t.Sound) :
    Step s t s' t' := by
  cases t with
  | called key delta =>
    rw [Task.next] at mem
    split at mem
    · rename_i cell expiry lru found
      cases List.mem_singleton.1 mem
      refine ⟨.inl ⟨rfl, rfl⟩, fun _ _ h => h, .inr (.inl ⟨rfl, _, rfl, rfl, ?_⟩), trivial⟩
      rw [Database.getRo_eq] at found
      obtain ⟨there, live⟩ := Option.filter_eq_some_iff.1 found
      exact ⟨_, cell, there, rfl, by simpa using live⟩
    · cases List.mem_singleton.1 mem
      exact ⟨.inl ⟨rfl, rfl⟩, fun _ _ h => h, .inl ⟨rfl, rfl⟩, trivial⟩
  | probed i =>
    rw [Task.next] at mem
    split at mem
    · rename_i cell there
      exact step_load (holds i rfl) rfl rfl there (List.mem_singleton.1 mem)
    · cases mem
  | loaded i current newVal =>
    have again {cell : AtomicIntCell} (there : cellAt s.db i.key = some cell)
        (mem : (s', t') ∈ [Task.load s i cell.value]) : Step s (.loaded i current newVal) s' t' :=
      step_load (holds i rfl) rfl rfl there (List.mem_singleton.1 mem)
    rw [Task.next] at mem
    split at mem
    · rename_i cell there
      split at mem
      · rename_i same
        rcases List.mem_cons.1 mem with is | mem
        -- The swap: the sum was checked against the value that is in the cell.
        · cases is
          obtain ⟨e, found, value⟩ := cellAt_eq_some there
          have effect := apply_of_holds found value (holds i rfl)
          have sum : checkedAddI64 cell.value i.delta = some newVal := by
            rw [same]
            exact sound
          rw [sum] at effect
          refine ⟨.inr ⟨rfl, _, rfl, ?_⟩, fun j _ h => h.setCell found, .inl ⟨rfl, rfl⟩, trivial⟩
          rw [keyspace_setCell found]
          exact effect
        · exact again there mem
      · exact again there mem
    · cases mem
  | swapped i newVal =>
    rw [Task.next] at mem
    split at mem
    · rename_i cell there
      cases List.mem_singleton.1 mem
      obtain ⟨e, found, value⟩ := cellAt_eq_some there
      refine ⟨.inl ⟨rfl, ?_⟩, fun j _ h => h.setCell found, .inr (.inr ⟨i, rfl, rfl, rfl⟩), trivial⟩
      have known : s.db.keyspace i.key = some (.int (.new cell.value), e.expiry) := by
        show ((s.db.view i.key).entry).map Entry.content = _
        rw [found, Option.map_some, Entry.content, value]
        rfl
      show (setCell s.db i.key _).keyspace = _
      rw [keyspace_setCell found, ← known, Function.update_eq_self]
    · cases mem
  | missed key delta =>
    rw [Task.next] at mem
    split at mem
    · rename_i apart
      cases List.mem_singleton.1 mem
      obtain ⟨state, answer⟩ := @ShardedDatabase.keyspace_incrIntLocked s.db s.clock key delta
      refine ⟨.inr ⟨rfl, _, rfl, Prod.ext state.symm answer.symm⟩, fun j read h => ?_, .inl ⟨rfl, rfl⟩, trivial⟩
      exact h.incrInt (by simpa using List.all_eq_true.1 apart j.key read)
    · cases mem
  | answered i r => cases mem
  | clock time =>
    cases List.mem_singleton.1 mem
    exact ⟨.inl ⟨rfl, rfl⟩, fun _ _ h => h, .inl ⟨rfl, rfl⟩, trivial⟩

/-! ### The invariant -/

/-- What holds in every interleaving from the keyspace `K`. -/
structure Inv (K : Keyspace) (pool : Pool Shared Task) : Prop where
  /-- The increments that took effect did so one after the other. -/
  serial : ∃ order : List Made, order.Perm (pool.tasks.filterMap Task.made) ∧
    Explains Increment.apply K order pool.shared.db.keyspace
  held : ∀ t ∈ pool.tasks, ∀ i, t.held = some i → Holds pool.shared.db i
  guards : ((pool.tasks.filterMap Task.held).map Increment.key).Perm pool.shared.readers
  sound : ∀ t ∈ pool.tasks, t.Sound

variable {K : Keyspace} {before after : List Task}

theorem inv_start (s : Shared) (free : s.readers = []) : Inv s.db.keyspace ⟨s, []⟩ :=
  ⟨⟨[], .nil, rfl⟩, nofun, by rw [free]; exact .nil, nofun⟩

theorem Inv.spawn {tasks : List Task} (inv : Inv K ⟨s, tasks⟩) (starts : t.entry = true) : Inv K ⟨s, tasks ++ [t]⟩ := by
  have idle : t.made = none ∧ t.held = none ∧ t.Sound := by
    cases t <;> first | exact ⟨rfl, rfl, trivial⟩ | cases starts
  obtain ⟨unmade, free, sound⟩ := idle
  obtain ⟨order, same, runs⟩ := inv.serial
  refine ⟨⟨order, ?_, runs⟩, fun u mem => ?_, ?_, fun u mem => ?_⟩
  · rw [List.filterMap_append, List.filterMap_cons, unmade]
    simpa using same
  · rcases List.mem_append.1 mem with mem | mem
    · exact inv.held u mem
    · rw [List.mem_singleton.1 mem, free]
      exact nofun
  · rw [List.filterMap_append, List.filterMap_cons, free]
    simpa using inv.guards
  · rcases List.mem_append.1 mem with mem | mem
    · exact inv.sound u mem
    · rw [List.mem_singleton.1 mem]
      exact sound

/-- The keys of the guards, with one task cut out. -/
theorem guards_cut (before after : List Task) (t : Task) :
    (((before ++ t :: after).filterMap Task.held).map Increment.key).Perm
      ((t.held.toList ++ (before ++ after).filterMap Task.held).map Increment.key) :=
  (filterMap_cut Task.held before after t).map _

theorem Inv.step (inv : Inv K ⟨s, before ++ t :: after⟩) (mem : (s', t') ∈ t.next s) :
    Inv K ⟨s', before ++ t' :: after⟩ := by
  have here : t ∈ before ++ t :: after := by simp
  obtain ⟨took, keeps, guards, sound⟩ := step_of_next mem (inv.held t here) (inv.sound t here)
  have rest {u : Task} (h : u ∈ before ++ t' :: after) : u = t' ∨ u ∈ before ++ t :: after := mem_of_cut h
  have reads {u : Task} (h : u ∈ before ++ t :: after) {i : Increment} (is : u.held = some i) : i.key ∈ s.readers :=
    inv.guards.subset (List.mem_map_of_mem (List.mem_filterMap.2 ⟨u, h, is⟩))
  have stays {u : Task} (h : u ∈ before ++ t :: after) {i : Increment} (is : u.held = some i) : Holds s'.db i :=
    keeps i (reads h is) (inv.held u h i is)
  refine ⟨?_, fun u h i is => ?_, ?_, fun u h => ?_⟩
  · obtain ⟨order, same, runs⟩ := inv.serial
    have cut := same.trans (filterMap_cut Task.made before after t)
    rcases took with ⟨unchanged, state⟩ | ⟨waits, m, made, effect⟩
    · refine ⟨order, cut.trans ?_, by rw [state]; exact runs⟩
      rw [← unchanged]
      exact (filterMap_cut Task.made before after t').symm
    · refine ⟨order ++ [m], ?_, explains_append.2 ⟨_, runs, congrArg Prod.snd effect, congrArg Prod.fst effect⟩⟩
      rw [waits] at cut
      refine List.Perm.trans ?_ (filterMap_cut Task.made before after t').symm
      rw [made]
      exact (List.perm_append_comm).trans (cut.cons m)
  · rcases rest h with rfl | h
    · rcases guards with ⟨same, -⟩ | ⟨-, j, mine, -, holds⟩ | ⟨-, -, dropped, -⟩
      · exact stays here (same ▸ is)
      · cases mine.symm.trans is
        exact holds
      · cases dropped.symm.trans is
    · exact stays h is
  · have cut := (guards_cut before after t).symm.trans inv.guards
    refine (guards_cut before after t').trans ?_
    rcases guards with ⟨same, readers⟩ | ⟨free, i, mine, readers, -⟩ | ⟨i, mine, free, readers⟩
    · rw [same, readers]
      exact cut
    · rw [mine, readers]
      rw [free] at cut
      exact cut.cons i.key
    · rw [free, readers]
      rw [mine] at cut
      have erased := cut.erase i.key
      simpa using erased
  · rcases rest h with rfl | h
    · exact sound
    · exact inv.sound u h

/-- **The increments that took effect did so one after the other**, whatever the interleaving. -/
theorem serial_of_reachable {s : Shared} (free : s.readers = []) {pool : Pool Shared Task}
    (reach : Reachable Task.next Task.entry ⟨s, []⟩ pool) :
    ∃ order : List Made, order.Perm (pool.tasks.filterMap Task.made) ∧
      Explains Increment.apply s.db.keyspace order pool.shared.db.keyspace :=
  (reach.invariant (inv_start s free) Inv.spawn Inv.step).serial

/-! ### One increment alone -/

theorem cellAt_of_lookup {v : AtomicIntCell} {t : Option Nat} {lru : Nat}
    (found : (db.shardFor key).entries.lookup key = some ⟨.int v, t, lru⟩) : cellAt db key = some v := by
  rw [cellAt, found]

theorem setCell_eq {v : AtomicIntCell} {t : Option Nat} {lru : Nat}
    (found : (db.shardFor key).entries.lookup key = some ⟨.int v, t, lru⟩) :
    setCell db key cell = (db.writeFor key fun shard =>
      ({ shard with entries := shard.entries.insert key ⟨.int cell, t, lru⟩ }, ())).1 := by
  have same {α : Type} {f g : Database → Database × α} (h : f (db.shardFor key) = g (db.shardFor key)) :
      (db.writeFor key f).1 = (db.writeFor key g).1 := by rw [ShardedDatabase.writeFor, h, ShardedDatabase.writeFor]
  refine same ?_
  rw [found]

theorem lookup_setCell {v : AtomicIntCell} {t : Option Nat} {lru : Nat}
    (found : (db.shardFor key).entries.lookup key = some ⟨.int v, t, lru⟩) :
    ((setCell db key cell).shardFor key).entries.lookup key = some ⟨.int cell, t, lru⟩ := by
  rw [setCell_eq found, ShardedDatabase.shardFor_writeFor_self]
  exact AList.lookup_insert _

/-- Of two writes to the cell the second stays. -/
theorem setCell_setCell {v cell' : AtomicIntCell} {t : Option Nat} {lru : Nat}
    (found : (db.shardFor key).entries.lookup key = some ⟨.int v, t, lru⟩) :
    setCell (setCell db key cell) key cell' = setCell db key cell' := by
  rw [setCell_eq (lookup_setCell found), setCell_eq found, setCell_eq found]
  simp only [ShardedDatabase.writeFor, ShardedDatabase.mk.injEq]
  have idx := db.shardIdx_writeFor key (fun shard =>
    (({ shard with entries := shard.entries.insert key ⟨.int cell, t, lru⟩ } : Database), ())) key
  have shard := db.shardFor_writeFor_self key (fun shard =>
    (({ shard with entries := shard.entries.insert key ⟨.int cell, t, lru⟩ } : Database), ()))
  simp only [ShardedDatabase.writeFor] at idx shard
  rw [idx, shard, List.set_set]
  simp only [AList.insert_insert]

/-- **With nothing between its steps an increment is `incr_int`.** -/
theorem reachable_alone (db : ShardedDatabase) (clock : Nat) (key : Bytes) (delta : Int64) :
    Reachable Task.next Task.entry ⟨⟨db, clock, []⟩, []⟩
      ⟨⟨(db.incrInt clock key delta).1, clock, []⟩,
        [.answered ⟨key, delta, clock⟩ (db.incrInt clock key delta).2]⟩ := by
  rw [ShardedDatabase.incrInt_eq]
  have called : Reachable Task.next Task.entry ⟨⟨db, clock, []⟩, []⟩ ⟨⟨db, clock, []⟩, [.called key delta]⟩ :=
    ⟨[.start (.called key delta)], rfl⟩
  have missed (absent : ∀ v t lru, (db.shardFor key).getRo clock key ≠ some ⟨.int v, t, lru⟩) :
      Reachable Task.next Task.entry ⟨⟨db, clock, []⟩, []⟩
        ⟨⟨(db.writeFor key fun shard => shard.incrInt clock key delta).1, clock, []⟩,
          [.answered ⟨key, delta, clock⟩ (db.writeFor key fun shard => shard.incrInt clock key delta).2]⟩ := by
    have first : Task.next ⟨db, clock, []⟩ (.called key delta) = [(⟨db, clock, []⟩, .missed key delta)] := by
      rw [Task.next]
      split
      · exact (absent _ _ _ ‹_›).elim
      · rfl
    exact (called.alone first).alone rfl
  cases found : (db.shardFor key).getRo clock key with
  | none =>
    refine missed fun _ _ _ is => ?_
    rw [found] at is
    cases is
  | some e =>
    obtain ⟨value, t, lru⟩ := e
    cases value with
    | int cell =>
      have there : (db.shardFor key).entries.lookup key = some ⟨.int cell, t, lru⟩ := by
        rw [Database.getRo_eq] at found
        exact (Option.filter_eq_some_iff.1 found).1
      have probe : cellAt db key = some cell := cellAt_of_lookup there
      have first : Task.next ⟨db, clock, []⟩ (.called key delta) =
          [(⟨db, clock, [key]⟩, .probed ⟨key, delta, clock⟩)] := by
        simp [Task.next, found]
      have second : Task.next ⟨db, clock, [key]⟩ (.probed ⟨key, delta, clock⟩) =
          [Task.load ⟨db, clock, [key]⟩ ⟨key, delta, clock⟩ cell.value] := by
        simp [Task.next, probe]
      cases sum : checkedAddI64 cell.value delta with
      | none =>
        have overflow : Task.load ⟨db, clock, [key]⟩ ⟨key, delta, clock⟩ cell.value =
            (⟨db, clock, []⟩, .answered ⟨key, delta, clock⟩ (.error .overflow)) := by
          simp [Task.load, sum, Shared.release]
        rw [overflow] at second
        simpa [ShardedDatabase.incrSeen, AtomicIntCell.checkedAdd, sum] using (called.alone first).alone second
      | some n =>
        have fits : Task.load ⟨db, clock, [key]⟩ ⟨key, delta, clock⟩ cell.value =
            (⟨db, clock, [key]⟩, .loaded ⟨key, delta, clock⟩ cell.value n) := by
          simp [Task.load, sum]
        rw [fits] at second
        have swap : Reachable Task.next Task.entry ⟨⟨db, clock, []⟩, []⟩
            ⟨⟨setCell db key { cell with value := n }, clock, [key]⟩, [.swapped ⟨key, delta, clock⟩ n]⟩ := by
          refine @Reachable.turn _ _ _ _ _ _ _ (.step 0 0) ((called.alone first).alone second) ?_
          simp [Pool.turn, Task.next, probe]
        have swapped (v : AtomicIntCell) : cellAt (setCell db key v) key = some v :=
          cellAt_of_lookup (lookup_setCell there)
        have last : Task.next ⟨setCell db key { cell with value := n }, clock, [key]⟩ (.swapped ⟨key, delta, clock⟩ n) =
            [(⟨setCell db key { cell with value := n, version := wrappingSucc cell.version }, clock, []⟩,
              .answered ⟨key, delta, clock⟩ (.ok n))] := by
          simp [Task.next, swapped, Shared.release, setCell_setCell there]
        have done := swap.alone last
        rw [setCell_eq there] at done
        simp only [ShardedDatabase.incrSeen, AtomicIntCell.checkedAdd, sum]
        exact done
    | _ =>
      refine missed fun _ _ _ is => ?_
      rw [found] at is
      cases is

/-! ### Sums -/

/-- What the increments of a key that were answered with a number add up to. -/
def gained (key : Bytes) (order : List Made) : Int :=
  ((order.filter fun m => m.op.key = key ∧ m.reply.isOk).map fun m => m.op.delta.toInt).sum

theorem gained_perm {order order' : List Made} (same : order.Perm order') : gained key order = gained key order' :=
  ((same.filter _).map _).sum_eq

theorem gained_cons_of_ne {m : Made} (other : m.op.key ≠ key) (order : List Made) :
    gained key (m :: order) = gained key order := by
  simp [gained, other]

theorem gained_cons_of_ok {m : Made} {n : Int64} (ok : m.reply = .ok n) (order : List Made) :
    gained m.op.key (m :: order) = m.op.delta.toInt + gained m.op.key order := by
  simp [gained, ok, Except.isOk, Except.toBool]

theorem gained_cons_of_error {m : Made} {e : IncrError} (error : m.reply = .error e) (order : List Made) :
    gained key (m :: order) = gained key order := by
  simp [gained, error, Except.isOk, Except.toBool]

theorem live_of_lasting {now : Nat} {c : Option Content} (lasting : c.bind Prod.snd = none) : live now c = c := by
  cases c with
  | none => rfl
  | some c =>
    obtain ⟨v, t⟩ := c
    cases lasting
    rfl

theorem lasting_incrBy (now : Nat) (delta : Int64) {c : Option Content} (lasting : c.bind Prod.snd = none) :
    (incrBy now delta c).1.bind Prod.snd = none := by
  unfold incrBy
  rw [live_of_lasting lasting]
  split
  · split
    · exact lasting
    · exact lasting
  · split
    · split
      · exact lasting
      · exact lasting
    · exact lasting
  · exact lasting
  · rfl

/-- **A key without a deadline counts every increment.** -/
theorem reading_of_explains {K K' : Keyspace} {order : List Made} {old : Int64}
    (runs : Explains Increment.apply K order K') (lasting : (K key).bind Prod.snd = none)
    (reads : reading (K key) = .ok old) :
    ∃ n, reading (K' key) = .ok n ∧ n.toInt = old.toInt + gained key order := by
  induction order generalizing K old with
  | nil =>
    cases runs
    exact ⟨old, reads, by simp [gained]⟩
  | cons m order ih =>
    obtain ⟨answer, rest⟩ := runs
    by_cases mine : m.op.key = key
    · subst mine
      have still := lasting_incrBy m.op.time m.op.delta lasting
      have counts := counts_incrBy m.op.time m.op.delta (K m.op.key)
      have replied : (incrBy m.op.time m.op.delta (K m.op.key)).2 = m.reply := answer
      rw [live_of_lasting lasting, live_of_lasting still, replied, ← Increment.apply_here] at counts
      rw [← Increment.apply_here] at still
      cases reply : m.reply with
      | ok next =>
        rw [reply] at counts
        obtain ⟨n, final, exact'⟩ := ih rest still counts.reading_eq.1
        refine ⟨n, final, ?_⟩
        have added : next.toInt = old.toInt + m.op.delta.toInt := counts.answer_exact reads
        rw [exact', added, gained_cons_of_ok reply, add_assoc]
      | error e =>
        rw [reply] at counts
        obtain ⟨n, final, exact'⟩ := ih rest still (counts.unchanged ▸ reads)
        refine ⟨n, final, ?_⟩
        rw [exact', gained_cons_of_error reply]
    · have same : (m.op.apply K).1 key = K key := m.op.apply_other K (Ne.symm mine)
      rw [← same] at lasting reads
      rw [gained_cons_of_ne mine]
      exact ih rest lasting reads

end Counter

end NexradeCache
