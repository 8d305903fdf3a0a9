import NexradeCache.Store.EvictionLoop

/-!
# `volatile-ttl` and the soonest expiry

The first deadline of a shard's index is the earliest of that shard. But the shards are tried one after the other,
the databases in their order and the shards of each in theirs, and the first that has a key with a TTL evicts. The
key is the one that expires soonest in the store exactly if that shard holds it.
-/

namespace NexradeCache

namespace Database

variable {s : Database} {k : Bytes}

/-- Whether some key of the shard has a TTL. -/
def hasTtl (s : Database) : Bool := s.entries.pairs.any fun kv => kv.2.expiry.isSome

theorem hasTtl_iff : s.hasTtl = true ↔ ∃ x ms, deadline s.entries x = some ms := by
  simp only [hasTtl, List.any_eq_true, Option.isSome_iff_exists, deadline, Option.bind_eq_some_iff]
  constructor
  · rintro ⟨⟨x, e⟩, mem, ms, expiry⟩
    exact ⟨x, ms, e, (s.entries.lists_pairs.mem x e).1 mem, expiry⟩
  · rintro ⟨x, ms, e, found, expiry⟩
    exact ⟨(x, e), (s.entries.lists_pairs.mem x e).2 found, ms, expiry⟩

theorem eligible_volatileTtl_iff (now : Nat) :
    s.Eligible .volatileTtl now k ↔ ∃ ms, deadline s.entries k = some ms := by
  simp only [Eligible, MaxMemoryPolicy.eligible, Option.isSome_iff_exists, deadline, Option.bind_eq_some_iff]
  grind

/-- The victim of the policy expires before all other keys of its shard. -/
theorem Indexed.le_of_victim (indexed : s.Indexed) {order : IterOrder (Bytes × Entry)} {now : Nat}
    (chosen : s.victim .volatileTtl order now = some k) {ms : Nat} (known : deadline s.entries k = some ms) {y : Bytes}
    {ms' : Nat} (other : deadline s.entries y = some ms') : ms ≤ ms' := by
  have listed := (indexed ms' y).2 other
  obtain ⟨first, isFirst, isKey⟩ := Option.map_eq_some_iff.1 chosen
  obtain ⟨rest, items⟩ := List.head?_eq_some_iff.1 isFirst
  have own := (indexed first.1 first.2).1 (by simp [items])
  rw [isKey, known] at own
  cases own
  have sorted := s.expiryIndex.sorted
  rw [items] at sorted listed
  rcases List.mem_cons.1 listed with rfl | later
  · exact le_rfl
  · have less := (List.pairwise_cons.1 sorted).1 _ later
    exact (Prod.Lex.le_iff.1 less.le).elim le_of_lt fun h => h.1.le

end Database

namespace Store

open Database

/-- No key of the store has an earlier deadline. -/
def Soonest (store : Store) (ms : Nat) : Prop :=
  ∀ s ∈ store.shards, ∀ x ms', deadline s.entries x = some ms' → ms ≤ ms'

/-- The first shard that has a key with a TTL, in the order of the databases and of their shards. -/
def firstVolatile (store : Store) : Option Database := store.shards.find? Database.hasTtl

variable {store : Store} {order : IterOrder (Bytes × Entry)} {now : Nat} {a z : List Database} {s : Database} {k : Bytes}
  {e : Entry}

/-- The shard that evicts is the first that has a key with a TTL. -/
theorem firstVolatile_of_evicts (shards : store.shards = a ++ s :: z)
    (evicts : ShardedDatabase.Evicts .volatileTtl order now a s k e) : store.firstVolatile = some s := by
  have here : s.hasTtl = true := by
    obtain ⟨ms, known⟩ := (eligible_volatileTtl_iff now).1 ⟨e, evicts.found, evicts.eligible⟩
    exact hasTtl_iff.2 ⟨k, ms, known⟩
  have before : ∀ t ∈ a, ¬t.hasTtl = true := by
    intro t ht ttl
    obtain ⟨x, ms, known⟩ := hasTtl_iff.1 ttl
    exact evicts.before t ht x ((eligible_volatileTtl_iff now).2 ⟨ms, known⟩)
  rw [firstVolatile, shards, List.find?_append, List.find?_eq_none.2 before, Option.none_or,
    List.find?_cons_of_pos here]

/-- **When `volatile-ttl` evicts the key that expires soonest.** With a key that has a TTL, a pass over the limit
removes such a key, and it is one of the earliest deadline of the store exactly if the first shard that has a key
with a TTL holds the earliest deadline. The index of a shard is sorted, but the shards are asked in their order and
the first answer is taken. -/
theorem volatile_ttl_soonest_iff (store : Store) (indexed : store.Indexed) (limitBytes : Nat)
    (full : limitBytes < store.estimatedMemoryBytes)
    (ttl : ∃ s ∈ store.shards, ∃ x ms, deadline s.entries x = some ms)
    (orders : Nat → IterOrder (Bytes × Entry)) (clock : Nat → Nat) (i : Nat) :
    ∃ a s z key ms store', store.shards = a ++ s :: z ∧ deadline s.entries key = some ms ∧
      evictPass .volatileTtl limitBytes orders clock i store = .again store' (.evicted key) ∧
      store'.shards = a ++ (s.remove key).1 :: z ∧
      (store.Soonest ms ↔ ∃ first ∈ store.firstVolatile, ∃ x earliest, deadline first.entries x = some earliest ∧
        store.Soonest earliest) := by
  rcases evict_cases indexed .volatileTtl (orders i) (clock i) with
    ⟨a, s, z, key, e, dbs, shards, evicts, hit, shards'⟩ | ⟨nobody, -⟩
  · obtain ⟨ms, known⟩ := (eligible_volatileTtl_iff (clock i)).1 ⟨e, evicts.found, evicts.eligible⟩
    refine ⟨a, s, z, key, ms, ⟨dbs⟩, shards, known, ?_, shards', ?_⟩
    · rw [evictPass, if_neg (Nat.not_le.2 full), hit]
    · rw [firstVolatile_of_evicts shards evicts]
      constructor
      · exact fun soonest => ⟨s, rfl, key, ms, known, soonest⟩
      · rintro ⟨first, isFirst, x, earliest, knownx, soonest⟩ t ht y ms' other
        cases isFirst
        have there : s.Indexed := indexed s (by simp [shards])
        exact (there.le_of_victim evicts.victim known knownx).trans (soonest t ht y ms' other)
  · obtain ⟨s, hs, x, ms, known⟩ := ttl
    exact (nobody s hs x ((eligible_volatileTtl_iff (clock i)).2 ⟨ms, known⟩)).elim

end Store

/-- Two shards with a key each, `a` in the first and `b` in the second, and their deadlines. -/
def twoDeadlines (a b : Nat) : Store :=
  ⟨[(((ShardedDatabase.new 2 Nat.two_pos).writeFor [97] fun s => (s.insert [97] ⟨.string [7], some a, 0⟩, ())).1.writeFor
    [98] fun s => (s.insert [98] ⟨.string [7], some b, 0⟩, ())).1]⟩

theorem twoDeadlines_indexed (a b : Nat) : (twoDeadlines a b).Indexed := by
  intro s hs
  obtain ⟨sdb, mem, hs⟩ := List.mem_flatMap.1 hs
  rw [List.mem_singleton.1 mem] at hs
  exact (((ShardedDatabase.indexed_new 2 Nat.two_pos).insertFor [97] _).insertFor [98] _) s hs

/-- The key of the first shard expires sooner, and goes. -/
theorem volatile_ttl_evicts_soonest :
    ∃ key ms store', (twoDeadlines 5 9).evictPass .volatileTtl 0 (fun _ => .asStored) (fun _ => 0) 0 =
      .again store' (.evicted key) ∧ (twoDeadlines 5 9).Soonest ms := by
  have listed : ∀ s ∈ (twoDeadlines 5 9).shards, ∀ e ∈ s.expiryIndex.items, 5 ≤ e.1 := by decide +kernel
  have soonest : (twoDeadlines 5 9).Soonest 5 := fun s hs x ms known =>
    listed s hs (ms, x) ((twoDeadlines_indexed 5 9 s hs ms x).2 known)
  obtain ⟨a, s, z, key, ms, store', -, -, pass, -, exact⟩ := Store.volatile_ttl_soonest_iff (twoDeadlines 5 9)
    (twoDeadlines_indexed 5 9) 0 (by decide +kernel) ⟨_, List.mem_cons_self, [97], 5, by decide +kernel⟩
    (fun _ => .asStored) (fun _ => 0) 0
  have first : (twoDeadlines 5 9).firstVolatile.bind (fun s => Database.deadline s.entries [97]) = some 5 := by
    decide +kernel
  obtain ⟨first, isFirst, known⟩ := Option.bind_eq_some_iff.1 first
  exact ⟨key, ms, store', pass, exact.2 ⟨first, isFirst, [97], 5, known, soonest⟩⟩

/-- What a pass of the loop evicts. -/
def evictedByTtl (store : Store) : Option Pass :=
  match store.evictPass .volatileTtl 0 (fun _ => .asStored) (fun _ => 0) 0 with
  | .again _ did => some did
  | .exit _ => none

/-- The key of the first shard goes, although the other one expires sooner. -/
theorem volatile_ttl_evicts_later :
    evictedByTtl (twoDeadlines 9 5) = some (.evicted [97]) ∧
      (∃ s ∈ (twoDeadlines 9 5).shards, Database.deadline s.entries [97] = some 9) ∧
      ∃ s ∈ (twoDeadlines 9 5).shards, Database.deadline s.entries [98] = some 5 := by
  decide +kernel

end NexradeCache
