import NexradeCache.Lib.Respects
import NexradeCache.Store.Databases
import NexradeCache.Store.Scan

/-!
# Stores that differ in expired entries

Two shards are twins at a time if a reader under the read lock sees the same in both. An operation that is
`Blind` to what has expired takes twins to twins and answers the same. Operations that look at an entry only
where it is live are blind (`Acts.blind`), and blind ones compose; `remove` is not, since it answers
with what it took out, live or not.
-/

namespace NexradeCache

/-- What a reader sees of an entry. -/
def seen (now : Nat) (e : Option Entry) : Option Entry := e.filter fun e => !e.isExpired now

section

variable {now : Nat} {e : Entry}

@[simp] theorem seen_none : seen now none = none := rfl

theorem seen_of_live (live : e.isExpired now = false) : seen now (some e) = some e := by
  rw [seen, Option.filter_some, live]
  rfl

theorem seen_of_expired (expired : e.isExpired now = true) : seen now (some e) = none := by
  rw [seen, Option.filter_some, expired]
  rfl

@[simp] theorem seen_new (v : DataType) : seen now (some (.new v)) = some (.new v) := rfl

@[simp] theorem seen_dateless (v : DataType) (lru : Nat) : seen now (some ⟨v, none, lru⟩) = some ⟨v, none, lru⟩ := rfl

end

namespace Database

/-- A look sees what the view of the key shows. -/
theorem getRo_eq (now : Nat) (s : Database) (key : Bytes) : s.getRo now key = seen now (s.view key).entry := by
  cases h : s.entries.lookup key with
  | none => simp [getRo, view, h]
  | some e =>
    cases expired : e.isExpired now with
    | true => simp [getRo, view, h, expired, seen_of_expired expired]
    | false => simp [getRo, view, h, expired, seen_of_live expired]

theorem live_of_getRo {now : Nat} {s : Database} {key : Bytes} {e : Entry} (found : s.getRo now key = some e) :
    e.isExpired now = false := by
  have found : seen now (s.view key).entry = some e := (getRo_eq _ _ _).symm.trans found
  simpa using (Option.filter_eq_some_iff.1 found).2

/-- The same live entries, and the same clock for accesses. -/
structure Twin (now : Nat) (s s' : Database) : Prop where
  clock : s.lruClock = s'.lruClock
  getRo : ∀ key, s.getRo now key = s'.getRo now key

namespace Twin

variable {now : Nat} {s s' s'' : Database}

theorem refl (s : Database) : Twin now s s := ⟨rfl, fun _ => rfl⟩

theorem symm (h : Twin now s s') : Twin now s' s := ⟨h.clock.symm, fun key => (h.getRo key).symm⟩

theorem trans (h : Twin now s s') (h' : Twin now s' s'') : Twin now s s'' :=
  ⟨h.clock.trans h'.clock, fun key => (h.getRo key).trans (h'.getRo key)⟩

/-- The memory estimate and the versions are not looked at. -/
theorem of_entries (clock : s'.lruClock = s.lruClock) (entries : s'.entries = s.entries) : Twin now s s' :=
  ⟨clock.symm, fun key => by rw [Database.getRo, Database.getRo, entries]⟩

end Twin

/-- The operation answers the same on twins, and takes them to twins. -/
abbrev Blind {α : Type} (now : Nat) (f : Database → Database × α) : Prop := Respects (Twin now) f

variable {α : Type} {now : Nat} {key : Bytes} {f : Database → Database × α}

/-- What a reader sees after an operation on one key. -/
theorem getRo_of_moves {t : Database → View → View} (moves : Moves f key t) (s : Database) (x : Bytes) :
    (f s).1.getRo now x = if x = key then seen now (t s (s.view key)).entry else s.getRo now x := by
  rw [getRo_eq]
  split
  · rename_i same
    rw [same, (moves.here s).entry]
  · rename_i other
    rw [(moves.other s other).entry, getRo_eq]

/-- An operation on one key that changes nothing a reader sees. -/
theorem Twin.of_moves {t : Database → View → View} (moves : Moves f key t) {s : Database}
    (clock : (f s).1.lruClock = s.lruClock) (here : seen now (t s (s.view key)).entry = s.getRo now key) :
    Twin now s (f s).1 := by
  refine ⟨clock.symm, fun x => ?_⟩
  rw [getRo_of_moves moves]
  split
  · rename_i same
    rw [same, here]
  · rfl

/-- What an operation on one key answers and leaves there, by the clock for accesses and the live entry. -/
structure Acts (now : Nat) (f : Database → Database × α) (key : Bytes) (answer : Nat → Option Entry → α)
    (leaves : Nat → Option Entry → Option Entry) : Prop where
  clock : ∀ s, (f s).1.lruClock = s.lruClock
  answer : ∀ s, (f s).2 = answer s.lruClock (s.getRo now key)
  getRo : ∀ s x, (f s).1.getRo now x = if x = key then leaves s.lruClock (s.getRo now key) else s.getRo now x

variable {answer : Nat → Option Entry → α} {leaves : Nat → Option Entry → Option Entry}

/-- A move of the view, when what it leaves and answers can be read off what is seen. -/
theorem Acts.of_moves {t : Database → View → View} (moves : Moves f key t) (clock : ∀ s, (f s).1.lruClock = s.lruClock)
    (here : ∀ s, (f s).2 = answer s.lruClock (s.getRo now key) ∧
      seen now (t s (s.view key)).entry = leaves s.lruClock (s.getRo now key)) : Acts now f key answer leaves where
  clock := clock
  answer s := (here s).1
  getRo s x := by rw [getRo_of_moves moves, (here s).2]

theorem Acts.blind (acts : Acts now f key answer leaves) : Blind now f := by
  constructor
  intro s s' twin
  refine ⟨?_, (acts.clock s).trans (twin.clock.trans (acts.clock s').symm), fun x => ?_⟩
  · rw [acts.answer s, acts.answer s', twin.clock, twin.getRo key]
  · rw [acts.getRo, acts.getRo, twin.clock, twin.getRo key, twin.getRo x]

/-! ## Single operations -/

theorem lruClock_maybePruneVersions (s : Database) (n : Nat) : (s.maybePruneVersions n).lruClock = s.lruClock := by
  unfold maybePruneVersions
  dsimp only
  split
  · rfl
  · split <;> rfl

theorem lruClock_remove (s : Database) (key : Bytes) : (s.remove key).1.lruClock = s.lruClock := by
  unfold remove
  split <;> exact lruClock_maybePruneVersions _ _

theorem lruClock_insert (s : Database) (key : Bytes) (e : Entry) : (s.insert key e).lruClock = s.lruClock := by
  unfold insert
  split <;> rfl

theorem lruClock_get (now : Nat) (s : Database) (key : Bytes) : (s.get now key).1.lruClock = s.lruClock := by
  unfold get
  split
  · split
    · exact lruClock_remove _ _
    · rfl
  · rfl

theorem lruClock_getMut (now : Nat) (s : Database) (key : Bytes) (edit : Option DataType) :
    (s.getMut now key edit).1.lruClock = s.lruClock := by
  unfold getMut
  split
  · split
    · exact lruClock_remove _ _
    · rfl
  · rfl

theorem lruClock_getOrInsertWith (now : Nat) (s : Database) (key : Bytes) (fresh : Entry) (edit : Option DataType) :
    (s.getOrInsertWith now key fresh edit).lruClock = s.lruClock := by
  unfold getOrInsertWith
  dsimp only
  split
  · split <;> rfl
  · rfl

/-- The entry `get` hands out. -/
def touched (lru : Nat) (e : Entry) : Entry := { e with lruClock := lru }

theorem acts_get (now : Nat) (key : Bytes) : Acts now (fun s => s.get now key) key
    (fun lru c => c.map (touched lru)) fun lru c => c.map (touched lru) := by
  refine Acts.of_moves (moves_get now key) (fun s => lruClock_get now s key) fun s => ?_
  cases h : s.entries.lookup key with
  | none => simp [get, getRo, view, h]
  | some e =>
    cases expired : e.isExpired now with
    | true => simp [get, getRo, view, View.removed, h, expired]
    | false =>
      have live : ({ e with lruClock := s.lruClock } : Entry).isExpired now = false := expired
      simp [get, getRo, view, touched, h, expired, seen_of_live live]

theorem blind_get (now : Nat) (key : Bytes) : Blind now fun s => s.get now key := (acts_get now key).blind

theorem acts_insert (now : Nat) (key : Bytes) (entry : Entry) : Acts now (fun s => (s.insert key entry, ())) key
    (fun _ _ => ()) fun _ _ => seen now (some entry) := by
  refine Acts.of_moves (moves_insert key entry) (fun s => lruClock_insert s key entry) fun s => ⟨rfl, ?_⟩
  cases h : s.entries.lookup key <;> simp [View.inserted, view, h]

theorem blind_insert (now : Nat) (key : Bytes) (entry : Entry) : Blind now fun s => (s.insert key entry, ()) :=
  (acts_insert now key entry).blind

/-- SET without options keeps the LRU clock of what it sees. -/
theorem acts_setPlain (now : Nat) (key value : Bytes) : Acts now (fun s => (s.setPlain now key value, ())) key
    (fun _ _ => ()) fun lru c => if c.isSome then some ⟨.string value, none, lru⟩ else some (.new (.string value)) := by
  refine Acts.of_moves (moves_setPlain now key value) (fun s => ?_) fun s => ⟨rfl, ?_⟩
  · unfold setPlain
    split
    · split
      · rfl
      · exact lruClock_insert _ _ _
    · exact lruClock_insert _ _ _
  · cases h : s.entries.lookup key with
    | none => simp [getRo, view, View.inserted, h]
    | some e => cases expired : e.isExpired now <;> simp [getRo, view, View.inserted, View.written, h, expired]

/-- SET without options cannot tell twins apart. -/
theorem blind_setPlain (now : Nat) (key value : Bytes) : Blind now fun s => (s.setPlain now key value, ()) :=
  (acts_setPlain now key value).blind

/-- `get_mut`, and what the caller makes of the entry it is handed. -/
def getMutWith (now : Nat) (s : Database) (key : Bytes) (edit : Entry → DataType × α) : Database × Option α :=
  match s.getRo now key with
  | some e => ((s.getMut now key (some (edit e).1)).1, some (edit e).2)
  | none => ((s.getMut now key none).1, none)

theorem acts_getMutWith (now : Nat) (key : Bytes) (edit : Entry → DataType × α) :
    Acts now (fun s => s.getMutWith now key edit) key (fun _ c => c.map fun e => (edit e).2)
      fun _ c => c.map fun e => { e with value := (edit e).1 } := by
  have moves : Moves (fun s => s.getMutWith now key edit) key fun s v =>
      match v.entry with
      | some e =>
        if e.isExpired now then View.removed v
        else View.written { e with value := (((s.getRo now key).map fun e => (edit e).1).getD e.value) } v
      | none => v := by
    have same (s : Database) : (s.getMutWith now key edit).1 =
        (s.getMut now key ((s.getRo now key).map fun e => (edit e).1)).1 := by
      unfold getMutWith
      cases s.getRo now key <;> rfl
    refine ⟨fun s => ?_, fun s x ne => ?_⟩
    · rw [same]
      exact (moves_getMut now key _).here s
    · rw [same]
      exact (moves_getMut now key _).other s ne
  refine Acts.of_moves moves (fun s => ?_) fun s => ?_
  · unfold getMutWith
    split <;> exact lruClock_getMut _ _ _ _
  · cases h : s.entries.lookup key with
    | none => simp [getMutWith, getRo, view, h]
    | some e =>
      cases expired : e.isExpired now with
      | true => simp [getMutWith, getRo, view, View.removed, h, expired]
      | false =>
        have live : ({ e with value := (edit e).1 } : Entry).isExpired now = false := expired
        simp [getMutWith, getRo, view, View.written, h, expired, seen_of_live live]

theorem blind_getMutWith (now : Nat) (key : Bytes) (edit : Entry → DataType × α) :
    Blind now fun s => s.getMutWith now key edit := (acts_getMutWith now key edit).blind

/-- The entry `get_or_insert_with` hands out. -/
def handed (fresh : Entry) (lru : Nat) (c : Option Entry) : Entry := (c.map (touched lru)).getD fresh

/-- `get_or_insert_with`, and what the caller makes of the entry it is handed. -/
def getOrInsertWithEdit (now : Nat) (s : Database) (key : Bytes) (fresh : Entry) (edit : Entry → DataType × α) :
    Database × α :=
  let e := ((s.getRo now key).map (touched s.lruClock)).getD fresh
  (s.getOrInsertWith now key fresh (some (edit e).1), (edit e).2)

/-- An edit of what it sees, else of the fresh entry. -/
theorem acts_getOrInsertWithEdit (now : Nat) (key : Bytes) (fresh : Entry) (edit : Entry → DataType × α) :
    Acts now (fun s => s.getOrInsertWithEdit now key fresh edit) key (fun lru c => (edit (handed fresh lru c)).2)
      fun lru c => seen now (some { handed fresh lru c with value := (edit (handed fresh lru c)).1 }) := by
  have moves : Moves (fun s => s.getOrInsertWithEdit now key fresh edit) key fun s v =>
      match v.entry with
      | some e =>
        if e.isExpired now then
          View.written { fresh with value := (edit (handed fresh s.lruClock (s.getRo now key))).1 } v
        else View.written { e with
          lruClock := s.lruClock, value := (edit (handed fresh s.lruClock (s.getRo now key))).1 } v
      | none => View.written { fresh with value := (edit (handed fresh s.lruClock (s.getRo now key))).1 } v :=
    ⟨fun s => (moves_getOrInsertWith now key fresh (some (edit (handed fresh s.lruClock (s.getRo now key))).1)).here s,
      fun s x ne =>
        (moves_getOrInsertWith now key fresh (some (edit (handed fresh s.lruClock (s.getRo now key))).1)).other s ne⟩
  refine Acts.of_moves moves (fun s => lruClock_getOrInsertWith _ _ _ _ _) fun s => ⟨rfl, ?_⟩
  cases h : s.entries.lookup key with
  | none => simp [handed, getRo, view, View.written, h]
  | some e => cases expired : e.isExpired now <;> simp [handed, getRo, view, View.written, touched, h, expired]

theorem blind_getOrInsertWithEdit (now : Nat) (key : Bytes) (fresh : Entry) (edit : Entry → DataType × α) :
    Blind now fun s => s.getOrInsertWithEdit now key fresh edit := (acts_getOrInsertWithEdit now key fresh edit).blind

/-- What INCRBY answers about an entry. -/
def incrAnswer (delta : Int64) : Option Entry → Except IncrError Int64
  | none => .ok delta
  | some e =>
    match e.value with
    | .int cell => match checkedAddI64 cell.value delta with
      | some n => .ok n
      | none => .error .overflow
    | .string v => match parseValue v with
      | none => .error .notInteger
      | some current => match checkedAddI64 current delta with
        | some n => .ok n
        | none => .error .overflow
    | _ => .error .wrongType

theorem isExpired_incremented {e e' : Entry} {delta : Int64} {lru : Nat} (inc : incremented e delta lru = some e') :
    e'.isExpired now = e.isExpired now := by
  rw [Entry.isExpired, (incremented_keeps inc).1, Entry.isExpired]

theorem acts_incrInt (now : Nat) (key : Bytes) (delta : Int64) : Acts now (fun s => s.incrInt now key delta) key
    (fun _ c => incrAnswer delta c)
    fun lru c => some ((c.map fun e => (incremented e delta lru).getD e).getD (.new (.int (.new delta)))) := by
  refine Acts.of_moves (moves_incrInt now key delta) (fun s => ?_) fun s => ?_
  · unfold incrInt
    dsimp only
    repeat' split
    all_goals rfl
  · cases h : s.entries.lookup key with
    | none => simp [incrInt, incrAnswer, getRo, view, View.written, h]
    | some e =>
      cases expired : e.isExpired now with
      | true => simp [incrInt, incrAnswer, getRo, view, View.written, h, expired]
      | false =>
        constructor
        · cases hv : e.value with
          | int cell => cases hn : checkedAddI64 cell.value delta <;> simp [incrInt, incrAnswer, getRo, h, expired, hv, hn]
          | string v =>
            cases hp : parseValue v with
            | none => simp [incrInt, incrAnswer, getRo, h, expired, hv, hp]
            | some current =>
              cases hn : checkedAddI64 current delta <;> simp [incrInt, incrAnswer, getRo, h, expired, hv, hp, hn]
          | _ => simp [incrInt, incrAnswer, getRo, h, expired, hv]
        · cases inc : incremented e delta s.lruClock with
          | none => simp [getRo, view, h, expired, inc, seen_of_live expired]
          | some e' =>
            have live : e'.isExpired now = false := (isExpired_incremented inc).trans expired
            simp [getRo, view, View.written, h, expired, inc, seen_of_live live]

/-- The counter operation cannot tell twins apart. -/
theorem blind_incrInt (now : Nat) (key : Bytes) (delta : Int64) : Blind now fun s => s.incrInt now key delta :=
  (acts_incrInt now key delta).blind

theorem acts_remove (now : Nat) (key : Bytes) : Acts now (fun s => ((s.remove key).1, ())) key (fun _ _ => ())
    fun _ _ => none := by
  have moves : Moves (fun s => ((s.remove key).1, ())) key fun _ => View.removed :=
    ⟨(moves_remove key).here, (moves_remove key).other⟩
  refine Acts.of_moves moves (fun s => lruClock_remove s key) fun s => ⟨rfl, ?_⟩
  cases h : s.entries.lookup key <;> simp [View.removed, view, h]

/-- `remove` is blind but for its answer. -/
theorem blind_remove (now : Nat) (key : Bytes) : Blind now fun s => ((s.remove key).1, ()) := (acts_remove now key).blind

theorem acts_put (now : Nat) (key : Bytes) (e : Entry) (a : α) :
    Acts now (fun s => ({ s with entries := s.entries.insert key e }, a)) key (fun _ _ => a)
      fun _ _ => seen now (some e) := by
  have moves : Moves (fun s => ({ s with entries := s.entries.insert key e }, a)) key fun _ v => ⟨some e, v.slot⟩ :=
    ⟨(moves_put key e).here, (moves_put key e).other⟩
  exact Acts.of_moves moves (fun _ => rfl) fun _ => ⟨rfl, rfl⟩

/-- Nor can a write that leaves the index as it is. -/
theorem blind_put (now : Nat) (key : Bytes) (e : Entry) (a : α) :
    Blind now fun s => ({ s with entries := s.entries.insert key e }, a) := (acts_put now key e a).blind

/-- What changes neither entries nor the clock. -/
theorem Blind.of_entries (f : Database → Database) (a : α) (clock : ∀ s, (f s).lruClock = s.lruClock)
    (entries : ∀ s, (f s).entries = s.entries) : Blind now fun s => (f s, a) :=
  ⟨fun {s s'} twin => ⟨rfl, (Twin.of_entries (clock s) (entries s)).symm.trans
    (twin.trans (Twin.of_entries (clock s') (entries s')))⟩⟩

end Database

/-! ## All shards -/

namespace ShardedDatabase

open List

/-- Twins, shard by shard. -/
def Twin (now : Nat) (db db' : ShardedDatabase) : Prop := Forall₂ (Database.Twin now) db.shards db'.shards

section

variable {now : Nat} {db db' db'' : ShardedDatabase}

theorem Twin.refl (now : Nat) (db : ShardedDatabase) : Twin now db db := forall₂_same.2 fun s _ => Database.Twin.refl s

theorem Twin.symm (h : Twin now db db') : Twin now db' db := (h.imp fun _ _ => Database.Twin.symm).flip

theorem Twin.trans (h : Twin now db db') (h' : Twin now db' db'') : Twin now db db'' :=
  forall₂_trans h h' fun _ _ _ => Database.Twin.trans

theorem Twin.shardIdx (h : Twin now db db') (key : Bytes) : db'.shardIdx key = db.shardIdx key := by
  rw [ShardedDatabase.shardIdx, ShardedDatabase.shardIdx, h.length_eq]

theorem Twin.shardFor (h : Twin now db db') (key : Bytes) : Database.Twin now (db.shardFor key) (db'.shardFor key) := by
  have idx := h.shardIdx key
  have twins := Forall₂.get h (db.shardIdx_lt key) (idx ▸ db'.shardIdx_lt key)
  simp only [ShardedDatabase.shardFor, idx]
  exact twins

theorem Twin.getRo (h : Twin now db db') (key : Bytes) :
    (db.shardFor key).getRo now key = (db'.shardFor key).getRo now key :=
  (h.shardFor key).getRo key

end

/-- The operation answers the same on twins, and takes them to twins. -/
abbrev Blind {α : Type} (now : Nat) (f : ShardedDatabase → ShardedDatabase × α) : Prop := Respects (Twin now) f

variable {α : Type} {now : Nat}

/-- What a reader sees of a key. -/
def getRo (now : Nat) (db : ShardedDatabase) (key : Bytes) : Option Entry := (db.shardFor key).getRo now key

/-- What a reader sees after an operation that touches one key of the shard. -/
theorem getRo_writeFor {f : Database → Database × α} {key : Bytes} {db : ShardedDatabase} {c : Option Entry}
    (after : ∀ x, (f (db.shardFor key)).1.getRo now x = if x = key then c else (db.shardFor key).getRo now x)
    (x : Bytes) : (db.writeFor key f).1.getRo now x = if x = key then c else db.getRo now x := by
  unfold getRo
  rw [shardFor_writeFor]
  by_cases same : x = key
  · subst same
    rw [if_pos rfl, after]
  · rw [if_neg same]
    split
    · rename_i shard
      have owner : db.shardFor key = db.shardFor x := by simp only [shardFor, shard]
      rw [after, if_neg same, owner]
    · rfl

/-- An operation on a shard, under the lock of its key. -/
theorem Acts.writeFor {f : Database → Database × α} {key : Bytes} {answer : Nat → Option Entry → α}
    {leaves : Nat → Option Entry → Option Entry} (acts : Database.Acts now f key answer leaves) (db : ShardedDatabase) :
    (db.writeFor key f).2 = answer (db.shardFor key).lruClock (db.getRo now key) ∧
      ∀ x, (db.writeFor key f).1.getRo now x =
        if x = key then leaves (db.shardFor key).lruClock (db.getRo now key) else db.getRo now x :=
  ⟨acts.answer _, getRo_writeFor fun x => acts.getRo _ x⟩

theorem Blind.writeFor {f : Database → Database × α} (h : Database.Blind now f) (key : Bytes) :
    Blind now fun db => db.writeFor key f := by
  constructor
  intro db db' twin
  obtain ⟨same, after⟩ := h.related (twin.shardFor key)
  refine ⟨same, ?_⟩
  simp only [Twin, ShardedDatabase.writeFor, twin.shardIdx key]
  exact forall₂_set twin _ after

/-- INCRBY, by what is seen of the entry. -/
def incrSeen (now : Nat) (key : Bytes) (delta : Int64) (c : Option Entry) (db : ShardedDatabase) :
    ShardedDatabase × Except IncrError Int64 :=
  match c with
  | some ⟨.int cell, expiry, lru⟩ =>
    match cell.checkedAdd delta with
    | some cell' => db.writeFor key fun shard =>
        ({ shard with entries := shard.entries.insert key ⟨.int cell', expiry, lru⟩ }, .ok cell'.value)
    | none => (db, .error .overflow)
  | _ => db.writeFor key fun shard => shard.incrInt now key delta

/-- The counter operation, by what its first look has seen. -/
theorem incrInt_eq (now : Nat) (db : ShardedDatabase) (key : Bytes) (delta : Int64) :
    db.incrInt now key delta = incrSeen now key delta ((db.shardFor key).getRo now key) db := by
  unfold incrInt incrIntFast incrSeen
  cases (db.shardFor key).getRo now key with
  | none => rfl
  | some e =>
    obtain ⟨value, expiry, lru⟩ := e
    cases value with
    | int cell => cases added : cell.checkedAdd delta <;> simp only [added]
    | _ => rfl

/-- Neither its fast path nor its slow one can tell twins apart. -/
theorem blind_incrInt (now : Nat) (key : Bytes) (delta : Int64) : Blind now fun db => db.incrInt now key delta := by
  have locked := Blind.writeFor (Database.blind_incrInt now key delta) key
  simp only [incrInt_eq]
  refine Respects.after_read (fun twin => twin.getRo key) fun c => ?_
  unfold incrSeen
  split
  · split
    · exact Blind.writeFor (Database.blind_put now key _ _) key
    · exact Respects.pure _
  · exact locked

/-- COPY with REPLACE, two operations in a row. -/
theorem blind_copyFrom (now : Nat) (src dst : Bytes) : Blind now fun db => db.copyFrom now src dst := by
  refine ⟨fun {db db'} twin => ?_⟩
  obtain ⟨same, after⟩ := (Blind.writeFor (Database.blind_get now src) src).related twin
  unfold copyFrom
  rw [← Prod.eta (db.writeFor src _), ← Prod.eta (db'.writeFor src _), ← same]
  cases (db.writeFor src fun shard => shard.get now src).2 with
  | none => exact ⟨rfl, after⟩
  | some e => exact ⟨rfl, ((Blind.writeFor (Database.blind_insert now dst e) dst).related after).2⟩

theorem blind_copyEntry (now : Nat) (src dst : Bytes) (replace : Bool) :
    Blind now fun db => db.copyEntry now src dst replace := by
  cases replace with
  | true => exact blind_copyFrom now src dst
  | false =>
    refine ⟨fun {db db'} twin => ?_⟩
    obtain ⟨same, after⟩ := (Blind.writeFor (Database.blind_get now dst) dst).related twin
    simp only [copyEntry, Bool.false_eq_true, if_false]
    rw [← Prod.eta (db.writeFor dst _), ← Prod.eta (db'.writeFor dst _), ← same]
    cases (db.writeFor dst fun shard => shard.get now dst).2 with
    | none => exact (blind_copyFrom now src dst).related after
    | some e => exact ⟨rfl, after⟩

end ShardedDatabase

end NexradeCache
