import Mathlib.Algebra.Order.BigOperators.Group.List
import Mathlib.Algebra.Order.Group.Nat
import NexradeCache.Store.Eviction

/-!
# When the eviction loop ends

`eligible` is the entry a policy may evict at a time. A key that is eligible at the latest reading
of the clock is eligible at every earlier one, so the loop can free all of those, and nothing it
can be sure of besides: it ends exactly if that is enough to get under the limit, or leaves no key.
-/

namespace NexradeCache

namespace MaxMemoryPolicy

/-- The policy may evict this entry. -/
def eligible (policy : MaxMemoryPolicy) (now : Nat) (e : Entry) : Bool :=
  match policy with
  | .noEviction => false
  | .allKeysRandom | .allKeysLru => true
  | .volatileRandom | .volatileLru => e.expiry.isSome && !e.isExpired now
  | .volatileTtl => e.expiry.isSome

theorem eligible_earlier {policy : MaxMemoryPolicy} {now latest : Nat} {e : Entry} (le : now ≤ latest)
    (h : policy.eligible latest e = true) : policy.eligible now e = true := by
  have live (alive : e.isExpired latest = false) : e.isExpired now = false := by
    cases expiry : e.expiry with
    | none => simp [Entry.isExpired, expiry]
    | some ms =>
      simp only [Entry.isExpired, expiry, decide_eq_false_iff_not] at alive ⊢
      omega
  cases policy with
  | volatileRandom | volatileLru =>
    simp only [eligible, Bool.and_eq_true, Bool.not_eq_true'] at h ⊢
    exact ⟨h.1, live h.2⟩
  | _ => exact h

end MaxMemoryPolicy

/-! ## The sample -/

section Sample

variable {K V : Type} {sampleSize : Nat} {keepFilter : V → Bool} (score : V → Nat)

/-- The sample holds items that pass the filter, and at least one once there was one. -/
structure Sampled (keepFilter : V → Bool) (items : List (K × V)) (sample : List (K × V × Nat)) : Prop where
  from_items : ∀ e ∈ sample, (e.1, e.2.1) ∈ items ∧ keepFilter e.2.1 = true
  nonempty : (∃ kv ∈ items, keepFilter kv.2 = true) → sample ≠ []

theorem Sampled.item {items : List (K × V)} {st : Nat × List (K × V × Nat)} (positive : 0 < sampleSize)
    (h : Sampled keepFilter items st.2) (kv : K × V) :
    Sampled keepFilter (items ++ [kv]) (sampleItem sampleSize score keepFilter st kv).2 := by
  have older : ∀ e ∈ st.2, (e.1, e.2.1) ∈ items ++ [kv] ∧ keepFilter e.2.1 = true := fun e he =>
    ⟨List.mem_append_left _ (h.from_items e he).1, (h.from_items e he).2⟩
  unfold sampleItem
  cases passes : keepFilter kv.2 with
  | false =>
    refine ⟨older, ?_⟩
    rintro ⟨kv', mem, pass⟩
    rcases List.mem_append.1 mem with mem | mem
    · exact h.nonempty ⟨kv', mem, pass⟩
    · rw [List.mem_singleton.1 mem, passes] at pass
      cases pass
  | true =>
    have new : (kv.1, kv.2) ∈ items ++ [kv] ∧ keepFilter kv.2 = true := ⟨by simp, passes⟩
    simp only [Bool.not_true, Bool.false_eq_true, if_false]
    split
    · refine ⟨fun e he => ?_, fun _ => by simp⟩
      rcases List.mem_append.1 he with he | he
      · exact older e he
      · rw [List.mem_singleton.1 he]
        exact new
    · rename_i full
      have some' : st.2 ≠ [] := by
        rintro none
        rw [none, List.length_nil] at full
        exact full positive
      split
      · refine ⟨fun e he => ?_, fun _ => by simpa using some'⟩
        rcases List.mem_or_eq_of_mem_set he with he | rfl
        · exact older e he
        · exact new
      · exact ⟨older, fun _ => some'⟩

theorem sampled_foldl (positive : 0 < sampleSize) (more : List (K × V)) {items : List (K × V)}
    (st : Nat × List (K × V × Nat)) (h : Sampled keepFilter items st.2) :
    Sampled keepFilter (items ++ more) (more.foldl (sampleItem sampleSize score keepFilter) st).2 := by
  induction more generalizing items st with
  | nil => simpa using h
  | cons kv more ih =>
    have next := ih _ (h.item score positive kv)
    rwa [List.append_assoc] at next

/-- The victim passes the filter, and there is one if any item does. -/
theorem sampleLruVictim_cases (keepFilter : V → Bool) (positive : 0 < sampleSize) (items : List (K × V)) :
    (∃ kv ∈ items, keepFilter kv.2 = true ∧ sampleLruVictim items sampleSize score keepFilter = some kv) ∨
      ((∀ kv ∈ items, keepFilter kv.2 = false) ∧
        sampleLruVictim items sampleSize score keepFilter = none) := by
  have sampled : Sampled keepFilter items
      (items.foldl (sampleItem sampleSize score keepFilter) (0, [])).2 := by
    have none : Sampled keepFilter [] ([] : List (K × V × Nat)) := ⟨by simp, by simp⟩
    exact sampled_foldl score positive items (0, []) none
  unfold sampleLruVictim
  cases least : ((items.foldl (sampleItem sampleSize score keepFilter) (0, [])).2.argmin fun e => e.2.2) with
  | some e =>
    obtain ⟨mem, pass⟩ := sampled.from_items e (List.argmin_mem least)
    exact .inl ⟨_, mem, pass, by simp [least]⟩
  | none =>
    refine .inr ⟨fun kv mem => ?_, by simp [least]⟩
    by_contra pass
    rw [Bool.not_eq_false] at pass
    exact sampled.nonempty ⟨kv, mem, pass⟩ (List.argmin_eq_none.1 least)

end Sample

/-! ## One eviction -/

namespace Database

variable {policy : MaxMemoryPolicy} {order : IterOrder (Bytes × Entry)} {now latest : Nat} {db : Database}

/-- An eligible key of the shard. -/
def Eligible (policy : MaxMemoryPolicy) (now : Nat) (db : Database) (k : Bytes) : Prop :=
  ∃ e, db.entries.lookup k = some e ∧ policy.eligible now e = true

/-- The chosen key is eligible, and one is chosen if any is. -/
theorem victim_cases (indexed : db.Indexed) (policy : MaxMemoryPolicy) (order : IterOrder (Bytes × Entry))
    (now : Nat) :
    (∃ k, db.Eligible policy now k ∧ db.victim policy order now = some k) ∨
      ((∀ k, ¬db.Eligible policy now k) ∧ db.victim policy order now = none) := by
  have items (k : Bytes) (e : Entry) : (k, e) ∈ order.order db.entries.pairs ↔ db.entries.lookup k = some e :=
    (order.perm _).mem_iff.trans (db.entries.lists_pairs.mem k e)
  cases policy with
  | noEviction => exact .inr ⟨fun k ⟨e, _, h⟩ => (nomatch h), rfl⟩
  | allKeysRandom =>
    cases h : order.order db.entries.pairs with
    | nil =>
      refine .inr ⟨fun k ⟨e, he, _⟩ => ?_, by simp [victim, h]⟩
      rw [← items, h] at he
      cases he
    | cons kv rest =>
      exact .inl ⟨kv.1, ⟨kv.2, (items kv.1 kv.2).1 (by simp [h]), rfl⟩, by simp [victim, h]⟩
  | volatileRandom =>
    cases h : (order.order db.entries.pairs).find? fun kv => kv.2.expiry.isSome && !kv.2.isExpired now with
    | none =>
      refine .inr ⟨fun k ⟨e, he, pass⟩ => ?_, by simp [victim, h]⟩
      exact List.find?_eq_none.1 h (k, e) ((items k e).2 he) pass
    | some kv =>
      have pass : (kv.2.expiry.isSome && !kv.2.isExpired now) = true := by simpa using List.find?_some h
      exact .inl ⟨kv.1, ⟨kv.2, (items kv.1 kv.2).1 (List.mem_of_find?_eq_some h), pass⟩,
        by simp [victim, h]⟩
  | allKeysLru =>
    rcases sampleLruVictim_cases Entry.lruClock (fun _ => true) (Nat.succ_pos 4)
      (order.order db.entries.pairs) with ⟨kv, mem, -, h⟩ | ⟨none, h⟩
    · exact .inl ⟨kv.1, ⟨kv.2, (items kv.1 kv.2).1 mem, rfl⟩, by simp [victim, LRU_SAMPLE_SIZE, h]⟩
    · refine .inr ⟨fun k ⟨e, he, _⟩ => ?_, by simp [victim, LRU_SAMPLE_SIZE, h]⟩
      cases none (k, e) ((items k e).2 he)
  | volatileLru =>
    rcases sampleLruVictim_cases Entry.lruClock (fun e => e.expiry.isSome && !e.isExpired now)
      (Nat.succ_pos 4) (order.order db.entries.pairs) with ⟨kv, mem, pass, h⟩ | ⟨none, h⟩
    · exact .inl ⟨kv.1, ⟨kv.2, (items kv.1 kv.2).1 mem, pass⟩, by simp [victim, LRU_SAMPLE_SIZE, h]⟩
    · refine .inr ⟨fun k ⟨e, he, pass⟩ => ?_, by simp [victim, LRU_SAMPLE_SIZE, h]⟩
      have fails := none (k, e) ((items k e).2 he)
      rw [show (e.expiry.isSome && !e.isExpired now) = true from pass] at fails
      cases fails
  | volatileTtl =>
    cases h : db.expiryIndex.items with
    | nil =>
      refine .inr ⟨fun k ⟨e, he, ttl⟩ => ?_, by simp [victim, h]⟩
      obtain ⟨ms, hms⟩ := Option.isSome_iff_exists.1 ttl
      have listed := (indexed ms k).2 (by simp [deadline, he, hms])
      rw [h] at listed
      cases listed
    | cons first rest =>
      obtain ⟨e, he, expiry⟩ := indexed.entry (e := first) (by simp [h])
      exact .inl ⟨first.2, ⟨e, he, by simp [MaxMemoryPolicy.eligible, expiry]⟩, by simp [victim, h]⟩

theorem evictOne_cases (indexed : db.Indexed) (policy : MaxMemoryPolicy) (order : IterOrder (Bytes × Entry))
    (now : Nat) :
    (∃ k e, db.entries.lookup k = some e ∧ policy.eligible now e = true ∧ db.victim policy order now = some k ∧
      db.evictOne policy order now = ((db.remove k).1, some k)) ∨
    ((∀ k, ¬db.Eligible policy now k) ∧ db.evictOne policy order now = (db, none)) := by
  rcases db.victim_cases indexed policy order now with ⟨k, ⟨e, he, pass⟩, h⟩ | ⟨none, h⟩
  · exact .inl ⟨k, e, he, pass, h, by rw [evictOne, h]⟩
  · exact .inr ⟨none, by rw [evictOne, h]⟩

theorem evictOne_idle (h : (db.evictOne policy order now).2 = none) :
    (db.evictOne policy order now).1 = db := by
  cases chosen : db.victim policy order now with
  | none => rw [evictOne, chosen]
  | some k =>
    rw [evictOne, chosen] at h
    cases h

/-- The estimate that the keys eligible at `latest` account for. -/
def reclaimable (policy : MaxMemoryPolicy) (latest : Nat) (db : Database) : Nat :=
  (db.entries.pairs.map fun kv =>
    if policy.eligible latest kv.2 then estimateEntrySize kv.1 kv.2 else 0).sum

/-- The estimate when those keys are gone. -/
def residue (policy : MaxMemoryPolicy) (latest : Nat) (db : Database) : Nat :=
  db.liveBytes - db.reclaimable policy latest

theorem remove_entries_liveBytes {k : Bytes} {e : Entry} (he : db.entries.lookup k = some e) :
    (db.remove k).1.entries = db.entries.erase k ∧
      (db.remove k).1.liveBytes = db.liveBytes - estimateEntrySize k e := by
  simp only [remove, he]
  exact ⟨entries_maybePruneVersions _ 1, liveBytes_maybePruneVersions _ 1⟩

variable {k : Bytes} {e : Entry}

theorem reclaimable_remove (policy : MaxMemoryPolicy) (latest : Nat) (he : db.entries.lookup k = some e) :
    db.reclaimable policy latest =
      (if policy.eligible latest e then estimateEntrySize k e else 0) + (db.remove k).1.reclaimable policy latest := by
  rw [reclaimable, reclaimable, (remove_entries_liveBytes he).1, ((AList.pairs_perm_erase he).map _).sum_eq,
    List.map_cons, List.sum_cons]

theorem residue_remove_le (he : db.entries.lookup k = some e) :
    (db.remove k).1.residue policy latest ≤ db.residue policy latest := by
  have sum := reclaimable_remove policy latest he
  rw [residue, residue, sum, (remove_entries_liveBytes he).2]
  split <;> omega

theorem residue_remove_eq (he : db.entries.lookup k = some e) (sure : policy.eligible latest e = true) :
    (db.remove k).1.residue policy latest = db.residue policy latest := by
  have sum := reclaimable_remove policy latest he
  rw [if_pos sure] at sum
  rw [residue, residue, sum, (remove_entries_liveBytes he).2]
  omega

theorem length_remove (he : db.entries.lookup k = some e) :
    (db.remove k).1.entries.pairs.length < db.entries.pairs.length := by
  rw [(remove_entries_liveBytes he).1, (AList.pairs_perm_erase he).length_eq]
  exact Nat.lt_succ_self _

/-- With nothing eligible there is nothing to reclaim. -/
theorem residue_of_none (none : ∀ k, ¬db.Eligible policy latest k) :
    db.residue policy latest = db.liveBytes := by
  have zero : db.reclaimable policy latest = 0 := by
    refine List.sum_eq_zero fun n hn => ?_
    obtain ⟨kv, mem, rfl⟩ := List.mem_map.1 hn
    rw [if_neg]
    exact fun pass => none kv.1 ⟨kv.2, (db.entries.lists_pairs.mem kv.1 kv.2).1 mem, pass⟩
  rw [residue, zero, Nat.sub_zero]

end Database

/-! ## One pass over all shards -/

namespace ShardedDatabase

/-- What the first shard that has an eligible key does, which is the one that evicts. -/
structure Evicts (policy : MaxMemoryPolicy) (order : IterOrder (Bytes × Entry)) (now : Nat) (a : List Database)
    (s : Database) (k : Bytes) (e : Entry) : Prop where
  found : s.entries.lookup k = some e
  eligible : policy.eligible now e = true
  victim : s.victim policy order now = some k
  before : ∀ t ∈ a, ∀ k, ¬t.Eligible policy now k

theorem evictOne_cases {db : ShardedDatabase} (indexed : db.Indexed) (policy : MaxMemoryPolicy)
    (order : IterOrder (Bytes × Entry)) (now : Nat) :
    (∃ a s z k e, db.shards = a ++ s :: z ∧ Evicts policy order now a s k e ∧
      (db.evictOne policy order now).2 = some k ∧
      (db.evictOne policy order now).1.shards = a ++ (s.remove k).1 :: z) ∨
    ((∀ s ∈ db.shards, ∀ k, ¬s.Eligible policy now k) ∧ db.evictOne policy order now = (db, none)) := by
  have idle {s : Database} (there : s ∈ db.shards) (none : (s.evictOne policy order now).2 = none) (k : Bytes) :
      ¬s.Eligible policy now k := by
    rcases Database.evictOne_cases (indexed s there) policy order now with ⟨k, e, -, -, -, evicted⟩ | ⟨idle, -⟩
    · rw [evicted] at none
      cases none
    · exact idle k
  rcases List.firstHit_cases (f := Database.evictOne policy order now) (fun _ => Database.evictOne_idle)
    db.shards with ⟨a, s, z, k, split, before, hit, h⟩ | ⟨none, h⟩
  · have there : s.Indexed := indexed s (by simp [split])
    rcases Database.evictOne_cases there policy order now with ⟨k', e, he, pass, victim, evicted⟩ | ⟨-, idle⟩
    · rw [evicted] at hit h
      cases hit
      have first : Evicts policy order now a s k e :=
        ⟨he, pass, victim, fun t ht => idle (by simp [split, ht]) (before t ht)⟩
      exact .inl ⟨a, s, z, k, e, split, first, congrArg Prod.snd h, congrArg Prod.fst h⟩
    · rw [idle] at hit
      cases hit
  · exact .inr ⟨fun s hs => idle hs (none s hs), by simp only [evictOne, h]⟩

theorem evictOne_idle {db : ShardedDatabase} {policy : MaxMemoryPolicy} {order : IterOrder (Bytes × Entry)}
    {now : Nat} (h : (db.evictOne policy order now).2 = none) : (db.evictOne policy order now).1 = db := by
  rcases List.firstHit_cases (f := Database.evictOne policy order now) (fun _ => Database.evictOne_idle)
    db.shards with ⟨a, s, z, k, -, -, -, hit⟩ | ⟨-, idle⟩
  · rw [show (db.evictOne policy order now).2 = some k from congrArg Prod.snd hit] at h
    cases h
  · simp only [evictOne, idle]

end ShardedDatabase

namespace Store

/-- All shards of all databases. -/
def shards (store : Store) : List Database := store.dbs.flatMap ShardedDatabase.shards

def Indexed (store : Store) : Prop := ∀ s ∈ store.shards, s.Indexed

theorem estimatedMemoryBytes_eq (store : Store) :
    store.estimatedMemoryBytes = (store.shards.map Database.liveBytes).sum := by
  rw [estimatedMemoryBytes, shards]
  induction store.dbs with
  | nil => rfl
  | cons sdb dbs ih =>
    rw [List.map_cons, List.sum_cons, ih, List.flatMap_cons, List.map_append, List.sum_append,
      ShardedDatabase.liveBytes]

variable {store : Store}

/-- The first shard that has an eligible key evicts one, or no shard has one. -/
theorem evict_cases (indexed : store.Indexed) (policy : MaxMemoryPolicy) (order : IterOrder (Bytes × Entry))
    (now : Nat) :
    (∃ a s z k e dbs, store.shards = a ++ s :: z ∧ ShardedDatabase.Evicts policy order now a s k e ∧
      store.dbs.firstHit (ShardedDatabase.evictOne policy order now) = (dbs, some k) ∧
      (Store.mk dbs).shards = a ++ (s.remove k).1 :: z) ∨
    ((∀ s ∈ store.shards, ∀ k, ¬s.Eligible policy now k) ∧
      store.dbs.firstHit (ShardedDatabase.evictOne policy order now) = (store.dbs, none)) := by
  have inside {sdb : ShardedDatabase} (h : sdb ∈ store.dbs) : sdb.Indexed := fun s hs =>
    indexed s (List.mem_flatMap.2 ⟨sdb, h, hs⟩)
  have idle {sdb : ShardedDatabase} (there : sdb ∈ store.dbs) (none : (sdb.evictOne policy order now).2 = none) :
      ∀ s ∈ sdb.shards, ∀ k, ¬s.Eligible policy now k := by
    rcases ShardedDatabase.evictOne_cases (inside there) policy order now with
      ⟨a, s, z, k, e, -, -, answer, -⟩ | ⟨idle, -⟩
    · rw [answer] at none
      cases none
    · exact idle
  rcases List.firstHit_cases (f := ShardedDatabase.evictOne policy order now)
    (fun _ => ShardedDatabase.evictOne_idle) store.dbs with ⟨earlier, sdb, later, k, split, before, hit, h⟩ | ⟨none, h⟩
  · have there : sdb ∈ store.dbs := by simp [split]
    rcases ShardedDatabase.evictOne_cases (inside there) policy order now with
      ⟨a, s, z, k', e, shards, first, answer, shards'⟩ | ⟨-, idle⟩
    · rw [answer] at hit
      cases hit
      refine .inl ⟨earlier.flatMap ShardedDatabase.shards ++ a, s,
        z ++ later.flatMap ShardedDatabase.shards, k, e, _, ?_, { first with before := ?_ }, h, ?_⟩
      · simp [Store.shards, split, shards]
      · intro t ht
        rcases List.mem_append.1 ht with ht | ht
        · obtain ⟨sdb', mem, ht⟩ := List.mem_flatMap.1 ht
          exact idle (by simp [split, mem]) (before sdb' mem) t ht
        · exact first.before t ht
      · simp [Store.shards, shards']
    · rw [idle] at hit
      cases hit
  · refine .inr ⟨fun s hs => ?_, h⟩
    obtain ⟨sdb, mem, hs⟩ := List.mem_flatMap.1 hs
    exact idle mem (none sdb mem) s hs

theorem any_nonempty_iff :
    (store.dbs.any fun sdb => !sdb.isEmpty) = true ↔
      ∃ s ∈ store.shards, ∃ k e, s.entries.lookup k = some e := by
  have shard (s : Database) : s.entries.entries.isEmpty = false ↔ ∃ k e, s.entries.lookup k = some e := by
    constructor
    · intro h
      obtain ⟨⟨k, e⟩, mem⟩ := List.exists_mem_of_ne_nil _ (by simpa using h)
      exact ⟨k, e, AList.mem_lookup_iff.2 mem⟩
    · rintro ⟨k, e, he⟩
      have mem := AList.mem_lookup_iff.1 he
      cases h : s.entries.entries with
      | nil => rw [h] at mem; cases mem
      | cons _ _ => rfl
  simp only [List.any_eq_true, ShardedDatabase.isEmpty, Bool.not_eq_true', List.all_eq_false,
    Bool.not_eq_true, shard, Store.shards, List.mem_flatMap]
  constructor
  · rintro ⟨sdb, mem, s, hs, key⟩
    exact ⟨s, ⟨sdb, mem, hs⟩, key⟩
  · rintro ⟨s, ⟨sdb, mem, hs⟩, key⟩
    exact ⟨sdb, mem, s, hs, key⟩

/-- The keys eligible at `latest` are enough to get under the limit, or are all keys. -/
def CanFree (policy : MaxMemoryPolicy) (latest limitBytes : Nat) (shards : List Database) : Prop :=
  (shards.map (Database.residue policy latest)).sum ≤ limitBytes ∨
    ∀ s ∈ shards, ∀ k e, s.entries.lookup k = some e → policy.eligible latest e = true

theorem over_of_not_canFree {policy : MaxMemoryPolicy} {latest limitBytes : Nat}
    (short : ¬CanFree policy latest limitBytes store.shards) : ¬store.estimatedMemoryBytes ≤ limitBytes := by
  rw [estimatedMemoryBytes_eq]
  intro under
  refine short (.inl (le_trans (List.sum_le_sum fun s _ => ?_) under))
  exact Nat.sub_le _ _

section Evicted

variable {policy : MaxMemoryPolicy} {latest limitBytes : Nat} {a z : List Database} {s : Database}
  {k : Bytes} {e : Entry} (he : s.entries.lookup k = some e)
include he

omit he in
theorem indexed_evicted (indexed : ∀ t ∈ a ++ s :: z, t.Indexed) :
    ∀ t ∈ a ++ (s.remove k).1 :: z, t.Indexed := by
  intro t ht
  rcases List.mem_append.1 ht with ht | ht
  · exact indexed t (by simp [ht])
  · rcases List.mem_cons.1 ht with rfl | ht
    · exact (indexed s (by simp)).remove k
    · exact indexed t (by simp [ht])

/-- A key that is still there after an eviction was there before. -/
theorem lookup_evicted {t : Database} (ht : t ∈ a ++ (s.remove k).1 :: z) {k' : Bytes} {e' : Entry}
    (he' : t.entries.lookup k' = some e') : ∃ t ∈ a ++ s :: z, t.entries.lookup k' = some e' := by
  rcases List.mem_append.1 ht with ht | ht
  · exact ⟨t, by simp [ht], he'⟩
  · rcases List.mem_cons.1 ht with rfl | ht
    · rw [(Database.remove_entries_liveBytes he).1] at he'
      by_cases same : k' = k
      · subst same
        simp at he'
      · rw [AList.lookup_erase_ne same] at he'
        exact ⟨s, by simp, he'⟩
    · exact ⟨t, by simp [ht], he'⟩

theorem CanFree.evicted (h : CanFree policy latest limitBytes (a ++ s :: z)) :
    CanFree policy latest limitBytes (a ++ (s.remove k).1 :: z) := by
  rcases h with enough | all
  · refine .inl (le_trans ?_ enough)
    have less : (s.remove k).1.residue policy latest ≤ s.residue policy latest :=
      Database.residue_remove_le he
    simp only [List.map_append, List.map_cons, List.sum_append, List.sum_cons]
    omega
  · refine .inr fun t ht k' e' he' => ?_
    obtain ⟨t', ht', found⟩ := lookup_evicted he ht he'
    exact all t' ht' k' e' found

/-- Evicting a key of those that count changes nothing. -/
theorem canFree_of_evicted (sure : policy.eligible latest e = true)
    (h : CanFree policy latest limitBytes (a ++ (s.remove k).1 :: z)) :
    CanFree policy latest limitBytes (a ++ s :: z) := by
  rcases h with enough | all
  · refine .inl (le_trans (le_of_eq ?_) enough)
    have same : (s.remove k).1.residue policy latest = s.residue policy latest :=
      Database.residue_remove_eq he sure
    simp only [List.map_append, List.map_cons, List.sum_append, List.sum_cons, same]
  · refine .inr fun t ht k' e' he' => ?_
    rcases List.mem_append.1 ht with ht | ht
    · exact all t (by simp [ht]) k' e' he'
    · rcases List.mem_cons.1 ht with rfl | ht
      · by_cases same : k' = k
        · subst same
          rw [he] at he'
          cases he'
          exact sure
        · refine all (t.remove k).1 (by simp) k' e' ?_
          rw [(Database.remove_entries_liveBytes he).1, AList.lookup_erase_ne same, he']
      · exact all t (by simp [ht]) k' e' he'

end Evicted

/-- The number of keys. -/
def keys (store : Store) : Nat := (store.shards.map fun s => s.entries.pairs.length).sum

variable {policy : MaxMemoryPolicy} {latest limitBytes : Nat} {orders : Nat → IterOrder (Bytes × Entry)}
  {clock : Nat → Nat}

/-- **A pass that can free.** It exits, or evicts a key. -/
theorem evictPass_frees (early : ∀ i, clock i ≤ latest) (i : Nat) (store : Store)
    (h : store.Indexed ∧ CanFree policy latest limitBytes store.shards) :
    (∃ store', evictPass policy limitBytes orders clock i store = .exit store') ∨
      ∃ store' did, evictPass policy limitBytes orders clock i store = .again store' did ∧
        (store'.Indexed ∧ CanFree policy latest limitBytes store'.shards) ∧ store'.keys < store.keys ∧
        did ≠ .retry := by
  obtain ⟨indexed, free⟩ := h
  rw [evictPass]
  split
  · exact .inl ⟨store, rfl⟩
  · rename_i above
    rcases evict_cases indexed policy (orders i) (clock i) with
      ⟨a, s, z, k, e, dbs, shards, ⟨he, -, -, -⟩, hit, shards'⟩ | ⟨none, idle⟩
    · refine .inr ⟨⟨dbs⟩, .evicted k, by rw [hit], ⟨?_, ?_⟩, ?_, by simp⟩
      · rw [Indexed, shards']
        rw [Indexed, shards] at indexed
        exact indexed_evicted indexed
      · rw [shards']
        rw [shards] at free
        exact free.evicted he
      · have less := Database.length_remove he
        simp only [keys, shards', shards, List.map_append, List.map_cons, List.sum_append, List.sum_cons]
        omega
    · have none' : ∀ s ∈ store.shards, ∀ k, ¬s.Eligible policy latest k := fun s hs k ⟨e, he, pass⟩ =>
        none s hs k ⟨e, he, MaxMemoryPolicy.eligible_earlier (early i) pass⟩
      rcases free with enough | all
      · have same : store.shards.map (Database.residue policy latest) = store.shards.map Database.liveBytes :=
          List.map_congr_left fun s hs => Database.residue_of_none (none' s hs)
        rw [same, ← estimatedMemoryBytes_eq] at enough
        exact (above enough).elim
      · have empty : ¬(store.dbs.any fun sdb => !sdb.isEmpty) = true := by
          rw [any_nonempty_iff]
          rintro ⟨s, hs, k, e, he⟩
          exact none' s hs k ⟨e, he, all s hs k e he⟩
        refine .inl ⟨⟨store.dbs⟩, ?_⟩
        rw [idle]
        exact if_neg empty

/-- **A pass that cannot.** With the clock at `latest` it does not exit, and the next pass cannot
free enough either. -/
theorem evictPass_stuck (i : Nat) (store : Store)
    (h : store.Indexed ∧ ¬CanFree policy latest limitBytes store.shards) :
    ∃ store' did, evictPass policy limitBytes orders (fun _ => latest) i store = .again store' did ∧
      store'.Indexed ∧ ¬CanFree policy latest limitBytes store'.shards := by
  obtain ⟨indexed, short⟩ := h
  rw [evictPass, if_neg (over_of_not_canFree short)]
  rcases evict_cases indexed policy (orders i) latest with
    ⟨a, s, z, k, e, dbs, shards, ⟨he, sure, -, -⟩, hit, shards'⟩ | ⟨none, idle⟩
  · refine ⟨⟨dbs⟩, .evicted k, by rw [hit], ?_, ?_⟩
    · rw [Indexed, shards']
      rw [Indexed, shards] at indexed
      exact indexed_evicted indexed
    · rw [shards']
      rw [shards] at short
      exact fun free => short (canFree_of_evicted he sure free)
  · have some' : (store.dbs.any fun sdb => !sdb.isEmpty) = true := by
      rw [any_nonempty_iff]
      by_contra empty
      exact short (.inr fun s hs k e he => (empty ⟨s, hs, k, e, he⟩).elim)
    refine ⟨⟨store.dbs⟩, .retry, ?_, indexed, short⟩
    rw [idle]
    exact if_pos some'

end Store

/-! ## The expiry cycle before the loop -/

theorem Database.Indexed.expireRounds (clock : Nat → Nat) (left budget : Nat) {db : Database}
    (indexed : db.Indexed) : (db.expireRounds clock left budget).1.Indexed := by
  induction left generalizing db budget with
  | zero => exact indexed
  | succ left ih =>
    rw [Database.expireRounds]
    dsimp only
    split
    · exact indexed
    · split
      · exact indexed.expireBatch _ _
      · exact ih _ (indexed.expireBatch _ _)

theorem Store.Indexed.activeExpireCycle {store : Store} (indexed : store.Indexed)
    (clock : Nat → Nat → Nat → Nat) : (store.activeExpireCycle clock).1.Indexed := by
  intro s hs
  obtain ⟨sdb', there, hs⟩ := List.mem_flatMap.1 hs
  obtain ⟨r, hr, rfl⟩ := List.mem_map.1 there
  obtain ⟨i, inside, rfl⟩ := List.mem_mapIdx.1 hr
  obtain ⟨r, hr, rfl⟩ := List.mem_map.1 hs
  obtain ⟨j, inside', rfl⟩ := List.mem_mapIdx.1 hr
  refine Database.Indexed.expireRounds _ _ _ (indexed _ (List.mem_flatMap.2 ⟨store.dbs[i], ?_, ?_⟩))
  · exact List.getElem_mem inside
  · exact List.getElem_mem inside'

/-- **The eviction loop ends exactly if it can free enough.** For every order of iteration and every
clock up to `latest` it ends with each pass but the last evicting a key, if and only if there is
nothing to do, or the keys eligible at `latest` that the expiry cycle leaves are enough to get under
the limit, or are all keys. -/
theorem evictIfNeeded_ends_iff (store : Store) (indexed : store.Indexed) (policy : MaxMemoryPolicy)
    (limitBytes latest : Nat) (cycleClock : Nat → Nat → Nat → Nat) :
    (∀ (orders : Nat → IterOrder (Bytes × Entry)) (clock : Nat → Nat), (∀ i, clock i ≤ latest) →
      ∃ fuel store' log, store.evictIfNeeded policy limitBytes cycleClock orders clock fuel =
        some (store', log) ∧ ∀ did ∈ log, did ≠ .retry) ↔
    policy = .noEviction ∨ limitBytes = 0 ∨
      Store.CanFree policy latest limitBytes (store.activeExpireCycle cycleClock).1.shards := by
  have ready := indexed.activeExpireCycle cycleClock
  constructor
  · intro ends
    by_contra! stuck
    obtain ⟨evicts, positive, short⟩ := stuck
    obtain ⟨fuel, store', log, ran, -⟩ := ends (fun _ => .asStored) (fun _ => latest) fun _ => le_rfl
    rw [Store.evictIfNeeded, if_neg (by simp [evicts, positive])] at ran
    dsimp only at ran
    rw [if_neg (Store.over_of_not_canFree short), Loop.run_never_ends Store.evictPass_stuck fuel ⟨ready, short⟩ 0] at ran
    cases ran
  · intro condition orders clock early
    by_cases skip : policy = .noEviction ∨ limitBytes = 0
    · exact ⟨0, store, [], by rw [Store.evictIfNeeded, if_pos skip], by simp⟩
    · rw [← or_assoc] at condition
      have free := condition.resolve_left skip
      by_cases under : (store.activeExpireCycle cycleClock).1.estimatedMemoryBytes ≤ limitBytes
      · exact ⟨0, _, [], by rw [Store.evictIfNeeded, if_neg skip]; exact if_pos under, by simp⟩
      · have ends : ∃ fuel store' log, Loop.run (Store.evictPass policy limitBytes orders clock) fuel 0
            (store.activeExpireCycle cycleClock).1 = some (store', log) ∧ ∀ did ∈ log, did ≠ .retry :=
          Loop.run_ends Store.keys (Store.evictPass_frees early) ⟨ready, free⟩ 0
        obtain ⟨fuel, store', log, ran, good⟩ := ends
        exact ⟨fuel, store', log, by rw [Store.evictIfNeeded, if_neg skip]; exact (if_neg under).trans ran, good⟩

/-- A store of one database with 64 shards, after `SET k 1`. -/
def singleKeyStore : Store :=
  ⟨[((ShardedDatabase.new 64 (by decide)).writeFor [107] fun s => (s.setPlain 0 [107] [49], ())).1]⟩

theorem singleKeyStore_indexed : singleKeyStore.Indexed := by
  intro s hs
  obtain ⟨sdb, mem, hs⟩ := List.mem_flatMap.1 hs
  rw [List.mem_singleton.1 mem] at hs
  refine (ShardedDatabase.indexed_new 64 (by decide)).writeFor
    (f := fun s => (s.setPlain 0 [107] [49], ())) [107] (fun h => ?_) s hs
  exact h.setPlain 0 [107] [49]

/-- Under `allkeys-lru` the key is evicted and the loop ends. -/
theorem evictIfNeeded_ends_allKeysLru :
    ∃ fuel store' log, singleKeyStore.evictIfNeeded .allKeysLru 1 (fun _ _ _ => 0) (fun _ => .asStored)
      (fun _ => 0) fuel = some (store', log) ∧ ∀ did ∈ log, did ≠ .retry := by
  refine (evictIfNeeded_ends_iff singleKeyStore singleKeyStore_indexed .allKeysLru 1 0 fun _ _ _ => 0).2
    ?_ _ _ fun _ => le_rfl
  exact .inr (.inr (.inr fun _ _ _ _ _ => rfl))

/-- Under `volatile-lru` no key is eligible, and the loop tries again for ever. -/
theorem evictIfNeeded_never_ends_volatileLru :
    ¬∃ fuel r, singleKeyStore.evictIfNeeded .volatileLru 1 (fun _ _ _ => 0) (fun _ => .asStored)
      (fun _ => 0) fuel = some r := by
  rintro ⟨fuel, r, ran⟩
  have quiet : (singleKeyStore.activeExpireCycle fun _ _ _ => 0).1 = singleKeyStore := rfl
  have short : ¬Store.CanFree .volatileLru 0 1 singleKeyStore.shards := by
    rintro (enough | all)
    · revert enough
      decide +kernel
    · have found : ∃ s ∈ singleKeyStore.shards, s.entries.lookup [107] = some (.new (.string [49])) := by
        refine ⟨_, List.mem_flatMap.2 ⟨_, List.mem_singleton_self _, List.get_mem _ ⟨fnv1a [107] &&& 63, ?_⟩⟩, ?_⟩
        · decide +kernel
        · rfl
      obtain ⟨s, hs, he⟩ := found
      cases all s hs [107] _ he
  rw [Store.evictIfNeeded, if_neg (by decide), quiet] at ran
  dsimp only at ran
  rw [if_neg (Store.over_of_not_canFree short),
    Loop.run_never_ends Store.evictPass_stuck fuel ⟨singleKeyStore_indexed, short⟩ 0] at ran
  cases ran

end NexradeCache
