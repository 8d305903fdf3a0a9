import NexradeCache.Store.Eviction
import NexradeCache.Store.Glob
import NexradeCache.Store.Keyspace

/-!
# All databases (`Store` of `nexrade-core/src/store.rs`)

`liveAt` is what clients see of the store at a time: the entries of every database that have not
expired then. Operations that only look (`get_ro`), that look and delete what has expired (`get`,
`keys_matching`), or that only count or copy under read locks, leave it as it is, at every time from
their own reading of the clock on.
-/

namespace NexradeCache

open Content

/-! ## Listing keys -/

namespace Database

/-- The stored keys whose deadline is over. -/
def expiredKeys (now : Nat) (db : Database) : List Bytes :=
  (db.entries.entries.filter fun e => e.2.isExpired now).map Sigma.fst

/-- Delete what has expired, then list the keys that match. -/
def keysMatching (now : Nat) (db : Database) (pattern : Bytes) : Database × List Bytes :=
  let db' := (db.expiredKeys now).foldl (fun db k => (db.remove k).1) db
  (db', db'.entries.keys.filter (globMatch pattern))

/-- What is stored under a key, expired or not. -/
def content (db : Database) (key : Bytes) : Option Content := (db.view key).content

theorem content_remove (db : Database) (key x : Bytes) :
    (db.remove key).1.content x = if x = key then none else db.content x := by
  have moves := moves_remove key
  split
  · rename_i same
    subst same
    have here := (moves.here db).entry
    rw [content, View.content, here]
    exact ShardedDatabase.content_removed _
  · rename_i ne
    have other := (moves.other db ne).entry
    rw [content, content, View.content, View.content, other]

theorem content_removeAll (keys : List Bytes) (db : Database) (x : Bytes) :
    (keys.foldl (fun db k => (db.remove k).1) db).content x = if x ∈ keys then none else db.content x := by
  induction keys generalizing db with
  | nil => simp
  | cons k keys ih =>
    rw [List.foldl_cons, ih, content_remove]
    by_cases later : x ∈ keys <;> by_cases here : x = k <;> simp [later, here]

theorem mem_expiredKeys {now : Nat} {s : Database} {x : Bytes} :
    x ∈ s.expiredKeys now ↔ ∃ e, s.entries.lookup x = some e ∧ e.isExpired now = true := by
  constructor
  · intro h
    obtain ⟨⟨k, e⟩, mem, rfl⟩ := List.mem_map.1 h
    obtain ⟨there, expired⟩ := List.mem_filter.1 mem
    exact ⟨e, AList.mem_lookup_iff.2 there, expired⟩
  · rintro ⟨e, found, expired⟩
    exact List.mem_map.2 ⟨⟨x, e⟩, List.mem_filter.2 ⟨AList.mem_lookup_iff.1 found, expired⟩, rfl⟩

theorem nodup_expiredKeys (now : Nat) (s : Database) : (s.expiredKeys now).Nodup := by
  have sub : (s.expiredKeys now).Sublist s.entries.keys := List.filter_sublist.map Sigma.fst
  exact s.entries.keys_nodup.sublist sub

theorem content_of_expired {now : Nat} {db : Database} {key : Bytes} (h : key ∈ db.expiredKeys now) :
    live now (db.content key) = none := by
  obtain ⟨⟨k, e⟩, mem, rfl⟩ := List.mem_map.1 h
  obtain ⟨there, expired⟩ := List.mem_filter.1 mem
  have found : db.entries.lookup k = some e := AList.mem_lookup_iff.2 there
  have known : db.content k = some e.content := congrArg (Option.map Entry.content) found
  rw [known, live, Option.filter_some, Entry.content_isExpired, expired]
  rfl

end Database

/-- Every shard in turn, under its write lock. -/
def ShardedDatabase.keysMatching (now : Nat) (db : ShardedDatabase) (pattern : Bytes) :
    ShardedDatabase × List Bytes :=
  let done := db.shards.map fun s => s.keysMatching now pattern
  (⟨done.map Prod.fst, by simp [done, db.nonempty]⟩, done.flatMap Prod.snd)

/-! ## The store -/

namespace Store

/-- The database of an index, taken modulo the number of databases. -/
def db (s : Store) (index : Nat) : ShardedDatabase :=
  s.dbs[index % s.dbs.length]?.getD (.new 1 Nat.one_pos)

/-- One database is replaced, under its index modulo their number. -/
def setDb (s : Store) (index : Nat) (db : ShardedDatabase) : Store :=
  ⟨s.dbs.set (index % s.dbs.length) db⟩

/-- What clients see of a key of a database at a time. -/
def liveAt (s : Store) (now index : Nat) (key : Bytes) : Option Content :=
  live now ((s.db index).keyspace key)

end Store

/-! ## What looking leaves as it is -/

theorem Content.live_live {t now : Nat} (le : t ≤ now) (c : Option Content) : live now (live t c) = live now c := by
  cases c with
  | none => rfl
  | some c =>
    rw [live, live, live, Option.filter_some, Option.filter_some]
    cases expired : c.isExpired t with
    | false => rfl
    | true =>
      have later : c.isExpired now = true := by
        unfold isExpired at expired ⊢
        cases h : c.2 with
        | none => simp [h] at expired
        | some deadline =>
          simp only [h, decide_eq_true_eq] at expired ⊢
          omega
      rw [later]
      rfl

namespace ShardedDatabase

variable {db : ShardedDatabase} {t now : Nat}

/-- What one sees of a database. -/
def SameLive (now : Nat) (db db' : ShardedDatabase) : Prop :=
  ∀ key, live now (db'.keyspace key) = live now (db.keyspace key)

theorem sameLive_get (le : t ≤ now) (key : Bytes) :
    SameLive now db (db.writeFor key fun s => s.get t key).1 := by
  intro x
  rw [(keyspace_get key).1]
  by_cases same : x = key
  · subst same
    rw [Function.update_self, live_live le]
  · rw [Function.update_of_ne same]

/-- KEYS drops the expired keys of all shards. -/
theorem keyspace_keysMatching (pattern key : Bytes) :
    (db.keysMatching t pattern).1.keyspace key =
      if key ∈ (db.shardFor key).expiredKeys t then none else db.keyspace key := by
  have shard : (db.keysMatching t pattern).1.shardFor key = ((db.shardFor key).keysMatching t pattern).1 := by
    simp [keysMatching, shardFor, shardIdx]
  have seen : (db.keysMatching t pattern).1.keyspace key =
      ((db.shardFor key).keysMatching t pattern).1.content key := by
    rw [keyspace, ShardedDatabase.view, shard]
    rfl
  rw [seen]
  exact Database.content_removeAll _ _ _

theorem sameLive_keysMatching (le : t ≤ now) (pattern : Bytes) : SameLive now db (db.keysMatching t pattern).1 := by
  intro key
  rw [keyspace_keysMatching]
  split
  · rename_i expired
    have gone : live t (db.keyspace key) = none := Database.content_of_expired expired
    rw [← live_live le (db.keyspace key), gone]
  · rfl

end ShardedDatabase

namespace Store

/-- **The live keyspace is the same**, in every database. -/
def SameLive (now : Nat) (s s' : Store) : Prop := ∀ index key, s'.liveAt now index key = s.liveAt now index key

variable {now : Nat} {s s' s'' : Store}

theorem SameLive.refl (now : Nat) (s : Store) : SameLive now s s := fun _ _ => rfl

theorem SameLive.trans (h : SameLive now s s') (h' : SameLive now s' s'') : SameLive now s s'' :=
  fun index key => (h' index key).trans (h index key)

theorem db_setDb (s : Store) (index : Nat) (db : ShardedDatabase) (i : Nat) :
    (s.setDb index db).db i = s.db i ∨ s.db i = s.db index ∧ (s.setDb index db).db i = db := by
  unfold Store.db setDb
  rw [List.length_set]
  by_cases same : i % s.dbs.length = index % s.dbs.length
  · rw [same]
    by_cases inside : index % s.dbs.length < s.dbs.length
    · exact .inr ⟨rfl, by rw [List.getElem?_set_self inside]; rfl⟩
    · rw [List.set_eq_of_length_le (Nat.le_of_not_lt inside)]
      exact .inl rfl
  · rw [List.getElem?_set_ne (Ne.symm same)]
    exact .inl rfl

/-- The replaced database, and the others as they were. -/
theorem db_setDb_eq (s : Store) (index : Nat) (d : ShardedDatabase) (i : Nat) :
    (s.setDb index d).db i =
      if i % s.dbs.length = index % s.dbs.length ∧ 0 < s.dbs.length then d else s.db i := by
  unfold Store.db setDb
  rw [List.length_set]
  split
  · rename_i here
    have inside : index % s.dbs.length < s.dbs.length := Nat.mod_lt _ here.2
    rw [here.1, List.getElem?_set_self inside]
    rfl
  · rename_i other
    by_cases same : i % s.dbs.length = index % s.dbs.length
    · have empty : s.dbs = [] := List.eq_nil_of_length_eq_zero (by omega)
      simp [empty]
    · rw [List.getElem?_set_ne (Ne.symm same)]

theorem sameLive_setDb {index : Nat} {db : ShardedDatabase} (h : (s.db index).SameLive now db) :
    SameLive now s (s.setDb index db) := by
  intro i key
  unfold liveAt
  rcases db_setDb s index db i with same | ⟨here, same⟩
  · rw [same]
  · rw [same, here]
    exact h key

end Store

end NexradeCache
