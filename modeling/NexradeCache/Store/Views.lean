import NexradeCache.Store.Sharded

/-!
# What an operation does to one key

The `View` of a key is its entry and its version slot. Each operation of `Database` is described
once, for all keys: the key it is called on moves as a function of its view, every other key keeps
its view, and on top of that a prune pass may drop the slot of a key that has no entry (`Settles`).
The invariants of runs are proved from these descriptions, not from the code of the operations.
-/

namespace NexradeCache

/-- The entry of a key and its version slot. -/
structure View where
  entry : Option Entry
  slot : Option Nat

namespace View

/-- A key without entry and slot. -/
def gone : View := ⟨none, none⟩

/-- The key has an entry that has not expired. -/
def Live (now : Nat) (v : View) : Prop := ∃ e, v.entry = some e ∧ e.isExpired now = false

/-- A live view has an entry whose deadline is not over. -/
theorem live_iff {now : Nat} {v : View} : v.Live now ↔ v.entry.any (fun e => !e.isExpired now) = true := by
  cases h : v.entry <;> simp [Live, h]

instance {now : Nat} {v : View} : Decidable (v.Live now) := decidable_of_iff' _ live_iff

/-- A prune pass: the slot of a key without entry may go. -/
def Settles (v v' : View) : Prop := v' = v ∨ (v.entry = none ∧ v' = gone)

theorem Settles.refl (v : View) : Settles v v := .inl rfl

theorem Settles.trans {v v' v'' : View} (h : Settles v v') (h' : Settles v' v'') : Settles v v'' := by
  rcases h with rfl | ⟨absent, rfl⟩
  · exact h'
  · rcases h' with rfl | ⟨-, rfl⟩
    · exact .inr ⟨absent, rfl⟩
    · exact .inr ⟨absent, rfl⟩

theorem Settles.entry {v v' : View} (h : Settles v v') : v'.entry = v.entry := by
  rcases h with rfl | ⟨absent, rfl⟩
  · rfl
  · exact absent.symm

theorem Settles.same_of_present {v v' : View} (h : Settles v v') (there : v.entry ≠ none) : v' = v := by
  rcases h with same | ⟨absent, -⟩
  · exact same
  · exact (there absent).elim

/-- The slot after `bump_version`. -/
def bump (slot : Option Nat) : Nat :=
  match slot with
  | some v => wrappingSucc v
  | none => 1

/-- The entry goes and the slot is written. -/
def removed (v : View) : View :=
  match v.entry with
  | some _ => ⟨none, v.slot.map wrappingSucc⟩
  | none => v

/-- The entry is replaced and the slot is written. -/
def inserted (entry : Entry) (v : View) : View :=
  match v.entry with
  | some _ => ⟨some entry, some (bump v.slot)⟩
  | none => ⟨some entry, some 1⟩

/-- Replace the entry and bump the slot. -/
def written (entry : Entry) (v : View) : View := ⟨some entry, some (bump v.slot)⟩

end View

theorem KeyMap.lookup_bumpVersion (m : KeyMap Nat) (key x : Bytes) :
    (m.bumpVersion key).lookup x = if x = key then some (View.bump (m.lookup key)) else m.lookup x := by
  unfold KeyMap.bumpVersion
  by_cases h : x = key
  · subst h
    cases m.lookup x <;> simp [View.bump]
  · cases m.lookup key <;> simp [h]

theorem KeyMap.lookup_bumpVersionIfPresent (m : KeyMap Nat) (key x : Bytes) :
    (m.bumpVersionIfPresent key).lookup x =
      if x = key then (m.lookup key).map wrappingSucc else m.lookup x := by
  unfold KeyMap.bumpVersionIfPresent
  by_cases h : x = key
  · subst h
    cases hx : m.lookup x <;> simp [hx]
  · cases m.lookup key <;> simp [h]

theorem KeyMap.lookup_filterKeys {V : Type} (m : KeyMap V) (keep : Bytes → Bool) (x : Bytes) :
    (m.filterKeys keep).lookup x = if keep x then m.lookup x else none := by
  show (m.entries.filter fun e => keep e.1).dlookup x = if keep x then m.entries.dlookup x else none
  induction m.entries with
  | nil => simp
  | cons e l ih =>
    obtain ⟨k, v⟩ := e
    by_cases same : x = k
    · subst same
      cases h : keep x with
      | true => simp [h]
      | false => simpa [h] using ih
    · have skip (l : List (Sigma fun _ : Bytes => V)) : (⟨k, v⟩ :: l).dlookup x = l.dlookup x :=
        List.dlookup_cons_ne l ⟨k, v⟩ same
      cases h : keep k with
      | true => simpa [h, skip] using ih
      | false => simpa [h, skip] using ih

namespace Database

open View

/-- The entry and the slot of a key. -/
def view (db : Database) (key : Bytes) : View := ⟨db.entries.lookup key, db.keyVersions.lookup key⟩

/-- Pruning drops slots of keys that are gone. -/
theorem view_maybePruneVersions (db : Database) (n : Nat) (x : Bytes) :
    Settles (db.view x) ((db.maybePruneVersions n).view x) := by
  rw [maybePruneVersions]
  dsimp only
  split
  · exact .refl _
  · split
    · exact .refl _
    · simp only [view, Settles, KeyMap.lookup_filterKeys]
      cases h : db.entries.lookup x with
      | none => exact .inr ⟨rfl, by simp [gone]⟩
      | some e => exact .inl (by simp)

/-- `f` moves the view of `key` by `t`, and nothing else but prunes. -/
structure Moves {α : Type} (f : Database → Database × α) (key : Bytes) (t : Database → View → View) :
    Prop where
  here : ∀ db, Settles (t db (db.view key)) ((f db).1.view key)
  other : ∀ db {x}, x ≠ key → Settles (db.view x) ((f db).1.view x)

theorem moves_remove (key : Bytes) : Moves (fun db => db.remove key) key fun _ => removed := by
  constructor
  · intro db
    cases h : db.entries.lookup key with
    | none =>
      have stay : removed (db.view key) = db.view key := by simp [removed, view, h]
      simp only [remove, h, stay]
      exact view_maybePruneVersions db 1 key
    | some e =>
      simp only [remove, h]
      refine Settles.trans ?_ (view_maybePruneVersions _ 1 key)
      simp only [view, removed, h, KeyMap.lookup_bumpVersionIfPresent, AList.lookup_erase, if_true]
      exact .refl _
  · intro db x ne
    cases h : db.entries.lookup key with
    | none =>
      simp only [remove, h]
      exact view_maybePruneVersions db 1 x
    | some e =>
      simp only [remove, h]
      refine Settles.trans ?_ (view_maybePruneVersions _ 1 x)
      simp only [view, KeyMap.lookup_bumpVersionIfPresent, AList.lookup_erase_ne ne, ne, if_false]
      exact .refl _

theorem moves_insert (key : Bytes) (entry : Entry) :
    Moves (fun db => (db.insert key entry, ())) key fun _ => inserted entry := by
  constructor
  · intro db
    refine .inl ?_
    cases h : db.entries.lookup key with
    | none => simp [insert, h, view, inserted]
    | some e => simp [insert, h, view, inserted, KeyMap.lookup_bumpVersion]
  · intro db x ne
    refine .inl ?_
    cases h : db.entries.lookup key with
    | none => simp [insert, h, view, ne]
    | some e => simp [insert, h, view, KeyMap.lookup_bumpVersion, ne]

theorem moves_put (key : Bytes) (e : Entry) :
    Moves (fun db => ({ db with entries := db.entries.insert key e }, ())) key fun _ v => ⟨some e, v.slot⟩ where
  here db := .inl (by simp [view])
  other db x ne := .inl (by simp [view, ne])

/-- A look drops an expired entry, and touches a live one. -/
theorem moves_get (now : Nat) (key : Bytes) : Moves (fun db => db.get now key) key fun db v =>
    match v.entry with
    | some e => if e.isExpired now then removed v else ⟨some { e with lruClock := db.lruClock }, v.slot⟩
    | none => v := by
  constructor
  · intro db
    cases h : db.entries.lookup key with
    | none => simp only [get, view, h]; exact .refl _
    | some e =>
      cases expired : e.isExpired now with
      | true =>
        simp only [get, h, expired, if_true]
        simpa only [view, h, expired, if_true] using (moves_remove key).here db
      | false => exact .inl (by simp [get, view, h, expired])
  · intro db x ne
    cases h : db.entries.lookup key with
    | none => simp only [get, h]; exact .refl _
    | some e =>
      cases expired : e.isExpired now with
      | true =>
        simp only [get, h, expired, if_true]
        exact (moves_remove key).other db ne
      | false => exact .inl (by simp [get, view, h, expired, ne])

/-- An edit writes, if there is a live entry. -/
theorem moves_getMut (now : Nat) (key : Bytes) (edit : Option DataType) :
    Moves (fun db => db.getMut now key edit) key fun _ v =>
      match v.entry with
      | some e => if e.isExpired now then removed v else written { e with value := edit.getD e.value } v
      | none => v := by
  constructor
  · intro db
    cases h : db.entries.lookup key with
    | none => simp only [getMut, view, h]; exact .refl _
    | some e =>
      cases expired : e.isExpired now with
      | true =>
        simp only [getMut, h, expired, if_true]
        simpa only [view, h, expired, if_true] using (moves_remove key).here db
      | false => exact .inl (by simp [getMut, view, h, expired, written, KeyMap.lookup_bumpVersion])
  · intro db x ne
    cases h : db.entries.lookup key with
    | none => simp only [getMut, h]; exact .refl _
    | some e =>
      cases expired : e.isExpired now with
      | true =>
        simp only [getMut, h, expired, if_true]
        exact (moves_remove key).other db ne
      | false => exact .inl (by simp [getMut, view, h, expired, KeyMap.lookup_bumpVersion, ne])

/-- SET without options inserts over what has expired, and writes over what is live. -/
theorem moves_setPlain (now : Nat) (key : Bytes) (value : Bytes) :
    Moves (fun db => (db.setPlain now key value, ())) key fun db v =>
      match v.entry with
      | some e =>
        if e.isExpired now then inserted (.new (.string value)) v
        else written ⟨.string value, none, db.lruClock⟩ v
      | none => inserted (.new (.string value)) v := by
  have fresh := moves_insert key (.new (.string value))
  constructor
  · intro db
    cases h : db.entries.lookup key with
    | none =>
      simp only [setPlain, h]
      simpa only [view, h] using fresh.here db
    | some e =>
      cases expired : e.isExpired now with
      | true =>
        simp only [setPlain, h, expired, Bool.not_true, Bool.false_eq_true, if_false]
        simpa only [view, h, expired, if_true] using fresh.here db
      | false => exact .inl (by simp [setPlain, view, h, expired, written, KeyMap.lookup_bumpVersion])
  · intro db x ne
    cases h : db.entries.lookup key with
    | none =>
      simp only [setPlain, h]
      exact fresh.other db ne
    | some e =>
      cases expired : e.isExpired now with
      | true =>
        simp only [setPlain, h, expired, Bool.not_true, Bool.false_eq_true, if_false]
        exact fresh.other db ne
      | false => exact .inl (by simp [setPlain, view, h, expired, KeyMap.lookup_bumpVersion, ne])

/-- A fresh entry is written over what has expired. -/
theorem moves_getOrInsertWith (now : Nat) (key : Bytes) (fresh : Entry) (edit : Option DataType) :
    Moves (fun db => (db.getOrInsertWith now key fresh edit, ())) key fun db v =>
      match v.entry with
      | some e =>
        if e.isExpired now then written { fresh with value := edit.getD fresh.value } v
        else written { e with lruClock := db.lruClock, value := edit.getD e.value } v
      | none => written { fresh with value := edit.getD fresh.value } v := by
  constructor
  · intro db
    refine .inl ?_
    cases h : db.entries.lookup key with
    | none => simp [getOrInsertWith, view, h, written, KeyMap.lookup_bumpVersion]
    | some e =>
      cases expired : e.isExpired now <;>
        simp [getOrInsertWith, view, h, expired, written, KeyMap.lookup_bumpVersion]
  · intro db x ne
    refine .inl ?_
    cases h : db.entries.lookup key with
    | none => simp [getOrInsertWith, view, h, KeyMap.lookup_bumpVersion, ne]
    | some e =>
      cases expired : e.isExpired now <;>
        simp [getOrInsertWith, view, h, expired, KeyMap.lookup_bumpVersion, ne]

/-- A deadline is written, if there is an entry. -/
theorem moves_setExpiry (key : Bytes) (expiry : Option Nat) :
    Moves (fun db => (db.setExpiry key expiry, ())) key fun _ v =>
      match v.entry with
      | some e => written { e with expiry } v
      | none => v := by
  constructor
  · intro db
    refine .inl ?_
    cases h : db.entries.lookup key with
    | none => simp [setExpiry, view, h]
    | some e => simp [setExpiry, view, h, written, KeyMap.lookup_bumpVersion]
  · intro db x ne
    refine .inl ?_
    cases h : db.entries.lookup key with
    | none => simp [setExpiry, view, h]
    | some e => simp [setExpiry, view, h, KeyMap.lookup_bumpVersion, ne]

/-- The entry an increment leaves under a live entry, if it succeeds. -/
def incremented (e : Entry) (delta : Int64) (lru : Nat) : Option Entry :=
  match e.value with
  | .int cell => (checkedAddI64 cell.value delta).map fun n =>
      { e with value := .int { cell with value := n }, lruClock := lru }
  | .string s => ((parseValue s).bind fun current => checkedAddI64 current delta).map fun n =>
      { e with value := .int (.new n), lruClock := lru }
  | _ => none

/-- The counter operation: a fresh counter, an increment, or an error. -/
theorem moves_incrInt (now : Nat) (key : Bytes) (delta : Int64) :
    Moves (fun db => db.incrInt now key delta) key fun db v =>
      match v.entry with
      | some e =>
        if e.isExpired now then written (.new (.int (.new delta))) v
        else match incremented e delta db.lruClock with
          | some e' => written e' v
          | none => v
      | none => written (.new (.int (.new delta))) v := by
  constructor
  · intro db
    refine .inl ?_
    cases h : db.entries.lookup key with
    | none => simp [incrInt, view, h, written, KeyMap.lookup_bumpVersion]
    | some e =>
      cases expired : e.isExpired now with
      | true => simp [incrInt, view, h, expired, written, KeyMap.lookup_bumpVersion]
      | false =>
        cases hv : e.value with
        | int cell =>
          cases hn : checkedAddI64 cell.value delta <;>
            simp [incrInt, incremented, view, h, expired, hv, hn, written, KeyMap.lookup_bumpVersion]
        | string v =>
          cases hp : parseValue v with
          | none => simp [incrInt, incremented, view, h, expired, hv, hp]
          | some current =>
            cases hn : checkedAddI64 current delta <;>
              simp [incrInt, incremented, view, h, expired, hv, hp, hn, written, KeyMap.lookup_bumpVersion]
        | _ => simp [incrInt, incremented, view, h, expired, hv]
  · intro db x ne
    refine .inl ?_
    cases h : db.entries.lookup key with
    | none => simp [incrInt, view, h, KeyMap.lookup_bumpVersion, ne]
    | some e =>
      cases expired : e.isExpired now with
      | true => simp [incrInt, view, h, expired, KeyMap.lookup_bumpVersion, ne]
      | false =>
        cases hv : e.value with
        | int cell =>
          cases hn : checkedAddI64 cell.value delta <;>
            simp [incrInt, view, h, expired, hv, hn, KeyMap.lookup_bumpVersion, ne]
        | string v =>
          cases hp : parseValue v with
          | none => simp [incrInt, view, h, expired, hv, hp]
          | some current =>
            cases hn : checkedAddI64 current delta <;>
              simp [incrInt, view, h, expired, hv, hp, hn, KeyMap.lookup_bumpVersion, ne]
        | _ => simp [incrInt, view, h, expired, hv]

/-- One key of an expiry batch: the key goes if it has an entry. -/
theorem view_expireKey (db : Database) (e : Nat × Bytes) (x : Bytes) :
    (db.expireKey e).1.view x = if x = e.2 then removed (db.view x) else db.view x := by
  by_cases same : x = e.2
  · subst same
    cases h : db.entries.lookup e.2 <;>
      simp [expireKey, view, h, removed, KeyMap.lookup_bumpVersionIfPresent]
  · cases h : db.entries.lookup e.2 <;>
      simp [expireKey, view, h, KeyMap.lookup_bumpVersionIfPresent, same]

/-- A whole batch: a key is deleted at most once, and only if the batch names it. -/
theorem view_expireKeys (db : Database) (es : List (Nat × Bytes)) (x : Bytes) :
    (db.expireKeys es).1.view x = if x ∈ es.map Prod.snd then removed (db.view x) else db.view x := by
  induction es generalizing db with
  | nil => simp [expireKeys]
  | cons e es ih =>
    have twice (v : View) : removed (removed v) = removed v := by
      cases h : v.entry <;> simp [removed, h]
    rw [expireKeys, ih, view_expireKey]
    by_cases here : x = e.2 <;> by_cases later : x ∈ es.map Prod.snd <;> simp [here, later, twice]

theorem view_expireBatch (now : Nat) (db : Database) (max : Nat) (x : Bytes) :
    Settles (if x ∈ ((db.expiryIndex.items.takeWhile fun e => e.1 ≤ now).take max).map Prod.snd then
      removed (db.view x) else db.view x) ((db.expireBatch now max).1.view x) := by
  rw [← view_expireKeys]
  exact view_maybePruneVersions _ _ x

end Database

namespace ShardedDatabase

open View

/-- The entry and the slot of a key, on its shard. -/
def view (db : ShardedDatabase) (key : Bytes) : View := (db.shardFor key).view key

/-- A write moves the view of its key, and nothing else but prunes. -/
theorem view_writeFor {α : Type} {f : Database → Database × α} {key : Bytes}
    {t : Database → View → View} (moves : Database.Moves f key t) (db : ShardedDatabase) :
    Settles (t (db.shardFor key) (db.view key)) ((db.writeFor key f).1.view key) ∧
      ∀ {x}, x ≠ key → Settles (db.view x) ((db.writeFor key f).1.view x) := by
  constructor
  · show Settles _ (((db.writeFor key f).1.shardFor key).view key)
    rw [shardFor_writeFor_self]
    exact moves.here _
  · intro x ne
    show Settles ((db.shardFor x).view x) (((db.writeFor key f).1.shardFor x).view x)
    rw [shardFor_writeFor]
    split
    · rename_i same
      have shard : db.shardFor key = db.shardFor x := by simp only [shardFor, same]
      rw [shard]
      exact moves.other _ ne
    · exact .refl _

theorem view_flush (db : ShardedDatabase) (x : Bytes) : db.flush.view x = gone := by
  simp [view, shardFor, flush, Database.view, gone]

/-- Each shard has its part of the batch, and at least one key. -/
theorem shardFor_expireBatch (now : Nat) (db : ShardedDatabase) (maxTotal : Nat) (x : Bytes) :
    (db.expireBatch now maxTotal).1.shardFor x =
      ((db.shardFor x).expireBatch now (max (maxTotal / db.shards.length) 1)).1 := by
  have same : (db.expireBatch now maxTotal).1.shardIdx x = db.shardIdx x := by
    simp [shardIdx, expireBatch]
  simp only [shardFor, List.get_eq_getElem, same]
  simp [expireBatch]

/-- RENAME takes the entry out and puts it in. -/
theorem rename_cases (db : ShardedDatabase) (src dst : Bytes) :
    (∃ e, (db.view src).entry = some e ∧ (db.rename src dst).1 =
      ((db.writeFor src fun s => s.remove src).1.writeFor dst fun s => (s.insert dst e, ())).1) ∨
    (db.view src).entry = none ∧ (db.rename src dst).1 = (db.writeFor src fun s => s.remove src).1 := by
  have out : (db.writeFor src fun s => s.remove src).2 = (db.view src).entry := by
    show ((db.shardFor src).remove src).2 = (db.shardFor src).entries.lookup src
    cases h : (db.shardFor src).entries.lookup src <;> simp [Database.remove, h]
  cases h : (db.view src).entry with
  | none =>
    rw [h] at out
    exact .inr ⟨rfl, by rw [rename, ← Prod.eta (db.writeFor src _), out]⟩
  | some e =>
    rw [h] at out
    exact .inl ⟨e, rfl, by rw [rename, ← Prod.eta (db.writeFor src _), out]⟩

/-- What `get` answers, and that it leaves what it answers in place. -/
theorem get_cases (now : Nat) (db : ShardedDatabase) (key : Bytes) :
    (∃ e e', (db.view key).entry = some e ∧ e.isExpired now = false ∧ e'.value = e.value ∧
      e'.expiry = e.expiry ∧ (db.writeFor key fun s => s.get now key).2 = some e' ∧
      ((db.writeFor key fun s => s.get now key).1.view key).entry = some e') ∨
    ¬(db.view key).Live now ∧ (db.writeFor key fun s => s.get now key).2 = none ∧
      ((db.writeFor key fun s => s.get now key).1.view key).entry = none := by
  have after : ((db.writeFor key fun s => s.get now key).1.view key).entry =
      ((db.shardFor key).get now key).1.entries.lookup key := by
    show ((db.writeFor key fun s => s.get now key).1.shardFor key).entries.lookup key = _
    rw [shardFor_writeFor_self]
  rw [after]
  show _ ∨ _ ∧ ((db.shardFor key).get now key).2 = none ∧ _
  have before : (db.view key).entry = (db.shardFor key).entries.lookup key := rfl
  simp only [View.Live, before]
  cases h : (db.shardFor key).entries.lookup key with
  | none => exact .inr ⟨by simp, by simp [Database.get, h], by simp [Database.get, h]⟩
  | some e =>
    cases expired : e.isExpired now with
    | true =>
      refine .inr ⟨by simp [expired], by simp [Database.get, h, expired], ?_⟩
      have gone := ((Database.moves_remove key).here (db.shardFor key)).entry
      simp only [Database.get, h, expired, if_true]
      rw [show (removed ((db.shardFor key).view key)).entry = none by simp [removed, Database.view, h]] at gone
      exact gone
    | false =>
      refine .inl ⟨e, { e with lruClock := (db.shardFor key).lruClock }, rfl, expired, rfl, rfl, ?_, ?_⟩
      · show ((db.shardFor key).get now key).2 = _
        simp [Database.get, h, expired]
      · simp [Database.get, h, expired]

end ShardedDatabase

end NexradeCache
