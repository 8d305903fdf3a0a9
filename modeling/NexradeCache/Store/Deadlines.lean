import NexradeCache.Store.Atomic
import NexradeCache.Store.EvictionLoop

/-!
# Deadlines over whole runs

A run is a list of operations, each under the lock of its shard or shards and with its own readings
of the clock, which need not grow. A walk over all shards (`flush`, `expire_batch`, `keys_matching`)
is one operation a shard, so others may come between. In every state of a run the index of each shard
lists the deadlines of its entries (`Indexed`), and therefore a batch deletes the expired keys of the
earliest deadlines and nothing else.
-/

namespace NexradeCache

namespace Database

variable {s : Database} {now max : Nat}

/-! ## One batch -/

/-- The deadlines of the index that have passed. -/
def passed (now : Nat) (s : Database) : List (Nat × Bytes) := s.expiryIndex.items.takeWhile fun e => e.1 ≤ now

/-- The index is in the order of the deadlines, so the scan stops behind the last that has passed. -/
theorem mem_passed {e : Nat × Bytes} : e ∈ s.passed now ↔ e ∈ s.expiryIndex.items ∧ e.1 ≤ now := by
  constructor
  · intro h
    exact ⟨(List.takeWhile_prefix _).subset h, by simpa using List.mem_takeWhile_imp h⟩
  · rintro ⟨mem, le⟩
    refine s.expiryIndex.sorted.mem_takeWhile (fun {a b} less h => ?_) mem (by simpa using le)
    have le' : a.1 ≤ b.1 := (Prod.Lex.le_iff.1 less.le).elim le_of_lt fun h => h.1.le
    simp only [decide_eq_true_eq] at h ⊢
    omega

theorem sorted_passed (now : Nat) (s : Database) : (s.passed now).Increasing fun e => toLex e :=
  s.expiryIndex.sorted.sublist (List.takeWhile_prefix _).sublist

/-- The keys of these deadlines are the expired keys. -/
theorem Indexed.passed_keys (indexed : s.Indexed) (now : Nat) :
    ((s.passed now).map Prod.snd).Perm (s.expiredKeys now) := by
  have distinct : ((s.passed now).map Prod.snd).Nodup := by
    refine List.Nodup.map_on ?_ (sorted_passed now s).nodup_keys.of_map
    rintro ⟨ms, x⟩ h ⟨ms', x'⟩ h' (rfl : x = x')
    have same := (indexed ms x).1 (mem_passed.1 h).1
    rw [(indexed ms' x).1 (mem_passed.1 h').1] at same
    cases same
    rfl
  rw [List.perm_ext_iff_of_nodup distinct (nodup_expiredKeys now s)]
  intro x
  rw [mem_expiredKeys]
  constructor
  · intro h
    obtain ⟨e, he, rfl⟩ := List.mem_map.1 h
    obtain ⟨listed, le⟩ := mem_passed.1 he
    obtain ⟨entry, found, expiry⟩ := indexed.entry listed
    exact ⟨entry, found, by simpa [Entry.isExpired, expiry] using le⟩
  · rintro ⟨entry, found, expired⟩
    cases expiry : entry.expiry with
    | none => simp [Entry.isExpired, expiry] at expired
    | some ms =>
      have listed := (indexed ms x).2 (by simp [deadline, found, expiry])
      have le : ms ≤ now := by simpa [Entry.isExpired, expiry] using expired
      exact List.mem_map.2 ⟨(ms, x), mem_passed.2 ⟨listed, le⟩, rfl⟩

/-- Every deadline of the batch is still that of an entry in its turn. -/
theorem Indexed.expireKeys_deleted (indexed : s.Indexed) {es : List (Nat × Bytes)} (nodup : es.Nodup)
    (listed : ∀ e ∈ es, e ∈ s.expiryIndex.items) : (s.expireKeys es).2 = es.map Prod.snd := by
  induction es generalizing s with
  | nil => rfl
  | cons e es ih =>
    rw [List.nodup_cons] at nodup
    obtain ⟨entry, found, -⟩ := indexed.entry (listed e (by simp))
    have still : ∀ e' ∈ es, e' ∈ (s.expireKey e).1.expiryIndex.items := fun e' he' =>
      (mem_expiryIndex_expireKey s e e').2 ⟨listed e' (by simp [he']), fun same => nodup.1 (same ▸ he')⟩
    have rest := ih (indexed.expireKey (listed e (by simp))) nodup.2 still
    have gone : (s.expireKey e).2 = true := by simp only [Database.expireKey, found]
    simp only [Database.expireKeys, gone, if_true, rest, List.map_cons]

/-- What a batch is for: it deletes expired keys, as many as it may and there are, those of the
earliest deadlines, and leaves all others as they are. -/
structure ExpiresEarliest (now max : Nat) (s s' : Database) (deleted : List Bytes) : Prop where
  expired : ∀ x ∈ deleted, x ∈ s.expiredKeys now
  nodup : deleted.Nodup
  count : deleted.length = min max (s.expiredKeys now).length
  earliest : ∀ x ∈ deleted, ∀ y ∈ s.expiredKeys now, y ∉ deleted →
    ∀ ms ms', deadline s.entries x = some ms → deadline s.entries y = some ms' → ms ≤ ms'
  entries : ∀ x, s'.entries.lookup x = if x ∈ deleted then none else s.entries.lookup x

theorem Indexed.expiresEarliest (indexed : s.Indexed) (now max : Nat) :
    ExpiresEarliest now max s (s.expireBatch now max).1 (s.expireBatch now max).2 := by
  have sub : ((s.passed now).take max).Sublist s.expiryIndex.items := due_sublist now s max
  have deleted : (s.expireBatch now max).2 = ((s.passed now).take max).map Prod.snd :=
    indexed.expireKeys_deleted (s.expiryIndex.sorted.nodup_keys.of_map.sublist sub) fun e he => sub.subset he
  have keys := indexed.passed_keys now
  have prefix' : (((s.passed now).take max).map Prod.snd).Sublist ((s.passed now).map Prod.snd) :=
    (List.take_sublist max _).map Prod.snd
  rw [deleted]
  constructor
  · intro x hx
    exact keys.subset (prefix'.subset hx)
  · exact (keys.nodup_iff.2 (nodup_expiredKeys now s)).sublist prefix'
  · rw [List.length_map, List.length_take, ← keys.length_eq, List.length_map]
  · intro x hx y hy out ms ms' hms hms'
    obtain ⟨e, he, rfl⟩ := List.mem_map.1 hx
    obtain ⟨e', he', rfl⟩ := List.mem_map.1 (keys.mem_iff.2 hy)
    -- the deadline of `y` is behind the batch
    have behind : e' ∈ (s.passed now).drop max := by
      rw [← List.take_append_drop max (s.passed now)] at he'
      rcases List.mem_append.1 he' with h | h
      · exact (out (List.mem_map_of_mem h)).elim
      · exact h
    have sorted := sorted_passed now s
    rw [← List.take_append_drop max (s.passed now)] at sorted
    have less := (List.pairwise_append.1 sorted).2.2 e he e' behind
    have first := (indexed e.1 e.2).1 (sub.subset he)
    have second := (indexed e'.1 e'.2).1 (mem_passed.1 (List.mem_of_mem_drop behind)).1
    rw [hms] at first
    rw [hms'] at second
    cases first
    cases second
    exact (Prod.Lex.le_iff.1 less.le).elim le_of_lt fun h => h.1.le
  · intro x
    have seen := congrArg View.entry (view_expireKeys s ((s.passed now).take max) x)
    show ((s.expireKeys ((s.passed now).take max)).1.maybePruneVersions _).entries.lookup x = _
    rw [entries_maybePruneVersions]
    show ((s.expireKeys ((s.passed now).take max)).1.view x).entry = _
    rw [seen]
    split
    · cases h : (s.view x).entry <;> simp [View.removed, h]
    · rfl

/-! ## The cycle -/

/-- The cycle deletes keys that had expired at one of its readings of the clock, and nothing else. -/
structure ExpiresPassed (clock : Nat → Nat) (s s' : Database) (deleted : List Bytes) : Prop where
  expired : ∀ x ∈ deleted, ∃ i, x ∈ s.expiredKeys (clock i)
  entries : ∀ x, s'.entries.lookup x = if x ∈ deleted then none else s.entries.lookup x

theorem ExpiresEarliest.passed {clock : Nat → Nat} {i : Nat} {s' : Database} {deleted : List Bytes}
    (h : ExpiresEarliest (clock i) max s s' deleted) : ExpiresPassed clock s s' deleted where
  expired x hx := ⟨i, h.expired x hx⟩
  entries := h.entries

theorem ExpiresPassed.trans {clock : Nat → Nat} {s' s'' : Database} {deleted deleted' : List Bytes}
    (h : ExpiresPassed clock s s' deleted) (h' : ExpiresPassed clock s' s'' deleted') :
    ExpiresPassed clock s s'' (deleted ++ deleted') where
  expired x hx := by
    rcases List.mem_append.1 hx with hx | hx
    · exact h.expired x hx
    · obtain ⟨i, hi⟩ := h'.expired x hx
      obtain ⟨e, found, expired⟩ := mem_expiredKeys.1 hi
      rw [h.entries x] at found
      split at found
      · cases found
      · exact ⟨i, mem_expiredKeys.2 ⟨e, found, expired⟩⟩
  entries x := by
    rw [h'.entries x, h.entries x]
    by_cases first : x ∈ deleted <;> by_cases second : x ∈ deleted' <;> simp [first, second]

theorem Indexed.expiresPassed_rounds (clock : Nat → Nat) (left budget : Nat) (indexed : s.Indexed) :
    ExpiresPassed clock s (s.expireRounds clock left budget).1 (s.expireRounds clock left budget).2.1 := by
  have idle : ExpiresPassed clock s s [] := ⟨by simp, by simp⟩
  induction left generalizing s budget with
  | zero => exact idle
  | succ left ih =>
    rw [Database.expireRounds]
    dsimp only
    split
    · exact idle
    · have batch := (indexed.expiresEarliest (clock left) (min budget s.expiryIndex.items.length)).passed
      split
      · exact batch
      · exact batch.trans (ih _ (indexed.expireBatch _ _) ⟨by simp, by simp⟩)

/-! ## Operations on a shard -/

theorem Indexed.removeAll (indexed : s.Indexed) (keys : List Bytes) :
    (keys.foldl (fun s k => (s.remove k).1) s).Indexed := by
  induction keys generalizing s with
  | nil => exact indexed
  | cons k keys ih => exact ih (indexed.remove k)

theorem Indexed.evictOne (indexed : s.Indexed) (policy : MaxMemoryPolicy) (order : IterOrder (Bytes × Entry))
    (now : Nat) : (s.evictOne policy order now).1.Indexed := by
  unfold Database.evictOne
  split
  · exact indexed.remove _
  · exact indexed

end Database

/-- What a caller does under the lock of one shard, and what it writes through a reference it got. -/
inductive ShardOp where
  | get (key : Bytes)
  | insert (key : Bytes) (entry : Entry)
  | setPlain (key value : Bytes)
  | getMut (key : Bytes) (edit : Option DataType)
  | getOrInsertWith (key : Bytes) (fresh : Entry) (edit : Option DataType)
  | incrInt (key : Bytes) (delta : Int64)
  | remove (key : Bytes)
  | setExpiry (key : Bytes) (expiry : Option Nat)
  | expireBatch (max : Nat)
  | expireCycle
  | evictOne (policy : MaxMemoryPolicy) (order : IterOrder (Bytes × Entry))
  | keysMatching (pattern : Bytes)
  | flush
  | refreshLruClock (value : Nat)

namespace ShardOp

/-- `clock` is what the operation reads; only the expiry cycle reads it more than once. -/
def run (clock : Nat → Nat) (s : Database) : ShardOp → Database
  | .get key => (s.get (clock 0) key).1
  | .insert key entry => s.insert key entry
  | .setPlain key value => s.setPlain (clock 0) key value
  | .getMut key edit => (s.getMut (clock 0) key edit).1
  | .getOrInsertWith key fresh edit => s.getOrInsertWith (clock 0) key fresh edit
  | .incrInt key delta => (s.incrInt (clock 0) key delta).1
  | .remove key => (s.remove key).1
  | .setExpiry key expiry => s.setExpiry key expiry
  | .expireBatch max => (s.expireBatch (clock 0) max).1
  | .expireCycle => (s.expireCycle clock).1
  | .evictOne policy order => (s.evictOne policy order (clock 0)).1
  | .keysMatching pattern => (s.keysMatching (clock 0) pattern).1
  | .flush => { s with entries := ∅, expiryIndex := .empty, keyVersions := ∅, liveBytes := 0 }
  | .refreshLruClock value => { s with lruClock := value }

theorem indexed_run {s : Database} (indexed : s.Indexed) (clock : Nat → Nat) (op : ShardOp) :
    (op.run clock s).Indexed := by
  cases op with
  | get key => exact indexed.get _ key
  | insert key entry => exact indexed.insert key entry
  | setPlain key value => exact indexed.setPlain _ key value
  | getMut key edit => exact indexed.getMut _ key edit
  | getOrInsertWith key fresh edit => exact indexed.getOrInsertWith _ key fresh edit
  | incrInt key delta => exact indexed.incrInt _ key delta
  | remove key => exact indexed.remove key
  | setExpiry key expiry => exact indexed.setExpiry key expiry
  | expireBatch max => exact indexed.expireBatch _ max
  | expireCycle => exact indexed.expireRounds clock 16 20
  | evictOne policy order => exact indexed.evictOne policy order _
  | keysMatching pattern => exact indexed.removeAll _
  | flush => exact Database.indexed_new
  | refreshLruClock value => exact indexed

end ShardOp

/-! ## Runs -/

namespace ShardedDatabase

/-- MSET. The unstable sort by shard leaves the pairs in some order. -/
def mset (db : ShardedDatabase) (sorted : IterOrder (Bytes × Entry)) (pairs : List (Bytes × Entry)) : ShardedDatabase :=
  db.insertAll (sorted.order pairs)

/-- Run an operation on the shard of an index. -/
def shardWrite (db : ShardedDatabase) (idx : Nat) (f : Database → Database) : ShardedDatabase :=
  ⟨db.shards.modify idx f, by simp [db.nonempty]⟩

variable {db : ShardedDatabase}

theorem Indexed.shardWrite (indexed : db.Indexed) (idx : Nat) {f : Database → Database}
    (keeps : ∀ {s : Database}, s.Indexed → (f s).Indexed) : (db.shardWrite idx f).Indexed := by
  intro s hs
  obtain ⟨i, hi, rfl⟩ := List.mem_iff_getElem.1 hs
  simp only [ShardedDatabase.shardWrite, List.getElem_modify]
  have old := indexed _ (List.getElem_mem (by simpa [ShardedDatabase.shardWrite] using hi))
  split
  · exact keeps old
  · exact old

theorem Indexed.insertAll (indexed : db.Indexed) (pairs : List (Bytes × Entry)) : (db.insertAll pairs).Indexed := by
  induction pairs generalizing db with
  | nil => exact indexed
  | cons p pairs ih => exact ih (indexed.insertFor p.1 p.2)

end ShardedDatabase

/-- An operation and the locks it holds. -/
inductive LockedOp where
  | shard (idx : Nat) (op : ShardOp)
  /-- `ShardedDatabase::incr_int`, under the read lock where it can. -/
  | incrInt (key : Bytes) (delta : Int64)
  | rename (src dst : Bytes)
  | copyEntry (src dst : Bytes) (replace : Bool)
  | mset (sorted : IterOrder (Bytes × Entry)) (pairs : List (Bytes × Entry))

namespace LockedOp

def run (clock : Nat → Nat) (db : ShardedDatabase) : LockedOp → ShardedDatabase
  | .shard idx op => db.shardWrite idx fun s => op.run clock s
  | .incrInt key delta => (db.incrInt (clock 0) key delta).1
  | .rename src dst => (db.rename src dst).1
  | .copyEntry src dst replace => (db.copyEntry (clock 0) src dst replace).1
  | .mset sorted pairs => db.mset sorted pairs

theorem indexed_run {db : ShardedDatabase} (indexed : db.Indexed) (clock : Nat → Nat) (op : LockedOp) :
    (op.run clock db).Indexed := by
  cases op with
  | shard idx op => exact indexed.shardWrite idx fun h => op.indexed_run h clock
  | incrInt key delta => exact indexed.incrInt _ key delta
  | rename src dst => exact indexed.rename src dst
  | copyEntry src dst replace => exact indexed.copyEntry _ src dst replace
  | mset sorted pairs => exact indexed.insertAll _

/-- Operations one after the other, each with what it reads off the clock. -/
def runAll (db : ShardedDatabase) (ops : List ((Nat → Nat) × LockedOp)) : ShardedDatabase :=
  ops.foldl (fun db o => o.2.run o.1 db) db

theorem indexed_runAll {db : ShardedDatabase} (indexed : db.Indexed) (ops : List ((Nat → Nat) × LockedOp)) :
    (runAll db ops).Indexed := by
  induction ops generalizing db with
  | nil => exact indexed
  | cons o ops ih => exact ih (o.2.indexed_run indexed o.1)

end LockedOp

/-- **The index of deadlines mirrors the entries.** In every shard of every state a run leads to, the index lists
the deadlines of the entries; so a batch deletes the expired keys of the earliest deadlines, the cycle deletes keys
that had expired when it looked, and no other key changes. Every operation that gives or takes a deadline has to
keep both, and there is a lemma for each. -/
theorem expiry_index_mirrors_entries (numShards : Nat) (positive : 0 < numShards)
    (ops : List ((Nat → Nat) × LockedOp)) (s : Database)
    (hs : s ∈ (LockedOp.runAll (.new numShards positive) ops).shards) :
    (∀ ms x, (ms, x) ∈ s.expiryIndex.items ↔ ∃ e, s.entries.lookup x = some e ∧ e.expiry = some ms) ∧
      (∀ now max, s.ExpiresEarliest now max (s.expireBatch now max).1 (s.expireBatch now max).2) ∧
      ∀ clock, s.ExpiresPassed clock (s.expireCycle clock).1 (s.expireCycle clock).2.1 := by
  have indexed : s.Indexed :=
    LockedOp.indexed_runAll (ShardedDatabase.indexed_new numShards positive) ops s hs
  refine ⟨fun ms x => ?_, indexed.expiresEarliest, fun clock => indexed.expiresPassed_rounds clock 16 20⟩
  exact (indexed ms x).trans Option.bind_eq_some_iff

/-- Two keys whose deadlines have passed, and a batch of one. -/
theorem expiry_index_mirrors_two :
    let ops : List ((Nat → Nat) × LockedOp) :=
      [(fun _ => 0, .shard 0 (.insert [1] ⟨.string [7], some 5, 0⟩)),
        (fun _ => 0, .shard 0 (.insert [2] ⟨.string [7], none, 0⟩)),
        (fun _ => 0, .shard 0 (.setExpiry [2] (some 3)))]
    ∀ s ∈ (LockedOp.runAll (.new 1 Nat.one_pos) ops).shards,
      (s.expireBatch 6 1).2 = [[2]] ∧ s.ExpiresEarliest 6 1 (s.expireBatch 6 1).1 (s.expireBatch 6 1).2 := by
  intro ops s hs
  refine ⟨?_, (expiry_index_mirrors_entries 1 Nat.one_pos ops s hs).2.1 6 1⟩
  obtain rfl := List.mem_singleton.1 hs
  decide

end NexradeCache
