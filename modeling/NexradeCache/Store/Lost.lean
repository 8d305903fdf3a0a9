import NexradeCache.Store.Deadlines
import NexradeCache.Store.Drops

/-!
# What goes out of a store

`lost s s'` is the list of the keys that are in `s` and not in `s'`, with the database of each for a whole store.
Between stores that only shrink it adds up (`Store.lost_trans`). The expiry cycle loses the keys it answers with
(`Store.lost_cycle`), and the eviction loop those of its log (`Store.lost_loop`).
-/

namespace NexradeCache

open List

namespace Database

/-- The keys of the first state that the second does not store. -/
def lost (s s' : Database) : List Bytes := s.entries.keys.filter fun k => (s'.entries.lookup k).isNone

/-- Nothing is in the second that was not in the first. -/
def Shrinks (s s' : Database) : Prop := ∀ k, s.entries.lookup k = none → s'.entries.lookup k = none

variable {s s' s'' : Database} {k : Bytes}

theorem mem_lost : k ∈ s.lost s' ↔ s.entries.lookup k ≠ none ∧ s'.entries.lookup k = none := by
  rw [lost, mem_filter, ← AList.mem_keys, ← AList.lookup_isSome, Option.isSome_iff_ne_none, Option.isNone_iff_eq_none]

theorem nodup_lost (s s' : Database) : (s.lost s').Nodup := s.entries.keys_nodup.filter _

theorem Shrinks.refl (s : Database) : Shrinks s s := fun _ none => none

theorem Shrinks.trans (h : Shrinks s s') (h' : Shrinks s' s'') : Shrinks s s'' := fun k none => h' k (h k none)

theorem lost_self (s : Database) : s.lost s = [] := by
  refine eq_nil_iff_forall_not_mem.2 fun k mem => ?_
  obtain ⟨here, gone⟩ := mem_lost.1 mem
  exact here gone

/-- A list of distinct keys that names what is gone. -/
theorem lost_perm {keys : List Bytes} (nodup : keys.Nodup)
    (names : ∀ k, k ∈ keys ↔ s.entries.lookup k ≠ none ∧ s'.entries.lookup k = none) : (s.lost s').Perm keys :=
  (perm_ext_iff_of_nodup (nodup_lost s s') nodup).2 fun k => mem_lost.trans (names k).symm

theorem lost_trans (h : Shrinks s s') (h' : Shrinks s' s'') : (s.lost s'').Perm (s.lost s' ++ s'.lost s'') := by
  have apart : ∀ a ∈ s.lost s', ∀ b ∈ s'.lost s'', a ≠ b := by
    rintro a first b second rfl
    exact (mem_lost.1 second).1 (mem_lost.1 first).2
  refine lost_perm (nodup_append.2 ⟨nodup_lost s s', nodup_lost s' s'', apart⟩) fun k => ?_
  rw [mem_append, mem_lost, mem_lost]
  constructor
  · rintro (⟨here, gone⟩ | ⟨still, gone⟩)
    · exact ⟨here, h' k gone⟩
    · exact ⟨fun none => still (h k none), gone⟩
  · rintro ⟨here, gone⟩
    by_cases mid : s'.entries.lookup k = none
    · exact .inl ⟨here, mid⟩
    · exact .inr ⟨mid, gone⟩

/-- Some keys are gone, and the rest is as it was. -/
theorem shrinks_of_lookup {gone : List Bytes}
    (entries : ∀ x, s'.entries.lookup x = if x ∈ gone then none else s.entries.lookup x) : Shrinks s s' := by
  intro k none
  rw [entries k, none, ite_self]

/-- The keys that go, when the others are looked up as before. -/
theorem lost_of_lookup {gone : List Bytes} (nodup : gone.Nodup) (there : ∀ x ∈ gone, s.entries.lookup x ≠ none)
    (entries : ∀ x, s'.entries.lookup x = if x ∈ gone then none else s.entries.lookup x) :
    (s.lost s').Perm gone := by
  refine lost_perm nodup fun k => ?_
  rw [entries k]
  constructor
  · exact fun mem => ⟨there k mem, if_pos mem⟩
  · rintro ⟨here, none⟩
    by_contra out
    rw [if_neg out] at none
    exact here none

theorem lookup_remove (s : Database) (key x : Bytes) :
    (s.remove key).1.entries.lookup x = if x ∈ [key] then none else s.entries.lookup x := by
  rw [entries_remove, KeyMap.lookup_filterKeys]
  by_cases same : x = key <;> simp [same]

/-! ## The expiry cycle -/

theorem there_of_expired {now : Nat} {x : Bytes} (mem : x ∈ s.expiredKeys now) : s.entries.lookup x ≠ none := by
  obtain ⟨e, found, -⟩ := mem_expiredKeys.1 mem
  rw [found]
  exact Option.some_ne_none e

/-- The rounds lose the keys they answer with. -/
theorem lost_rounds (clock : Nat → Nat) (left budget : Nat) (indexed : s.Indexed) :
    (s.lost (s.expireRounds clock left budget).1).Perm (s.expireRounds clock left budget).2.1 ∧
      Shrinks s (s.expireRounds clock left budget).1 := by
  have idle : (s.lost s).Perm [] ∧ Shrinks s s := ⟨by rw [lost_self], .refl s⟩
  induction left generalizing s budget with
  | zero => exact idle
  | succ left ih =>
    rw [Database.expireRounds]
    dsimp only
    split
    · exact idle
    · have batch := indexed.expiresEarliest (clock left) (min budget s.expiryIndex.items.length)
      have gone := lost_of_lookup batch.nodup (fun x mem => there_of_expired (batch.expired x mem)) batch.entries
      have shrinks := shrinks_of_lookup batch.entries
      split
      · exact ⟨gone, shrinks⟩
      · obtain ⟨later, shrinks'⟩ := ih _ (indexed.expireBatch _ _) ⟨by rw [lost_self], .refl _⟩
        exact ⟨(lost_trans shrinks shrinks').trans (gone.append later), shrinks.trans shrinks'⟩

/-- The cycle finds nothing exactly if no key has expired when it looks first. -/
theorem lost_expireCycle_eq_nil_iff (clock : Nat → Nat) (indexed : s.Indexed) :
    s.lost (s.expireCycle clock).1 = [] ↔ s.expiredKeys (clock 15) = [] := by
  have gone := (lost_rounds clock 16 20 indexed).1
  have all := indexed.passed_keys (clock 15)
  rw [expireCycle, ← perm_nil, gone.congr_left, perm_nil, Database.expireRounds]
  dsimp only
  split
  · rename_i idle
    have empty : s.expiryIndex.items = [] := length_eq_zero_iff.1 (idle.resolve_right (by decide))
    have none : s.expiredKeys (clock 15) = [] := by
      rw [passed, empty, takeWhile_nil, map_nil] at all
      exact perm_nil.1 all.symm
    simp [none]
  · rename_i busy
    have positive : 0 < s.expiryIndex.items.length := by omega
    have batch := indexed.expiresEarliest (clock 15) (min 20 s.expiryIndex.items.length)
    have first : (s.expireBatch (clock 15) (min 20 s.expiryIndex.items.length)).2 = [] ↔
        s.expiredKeys (clock 15) = [] := by
      rw [← length_eq_zero_iff, ← length_eq_zero_iff, batch.count]
      omega
    split
    · exact first
    · rename_i full
      refine iff_of_false (fun none => ?_) fun none => ?_
      · rw [(append_eq_nil_iff.1 none).1] at full
        exact full (by decide)
      · rw [first.2 none] at full
        exact full (by decide)

end Database

/-! ## Lists of shards and of databases -/

/-- The lost keys of all shards. -/
def lostShards : List Database → List Database → List Bytes
  | s :: ss, s' :: ss' => s.lost s' ++ lostShards ss ss'
  | _, _ => []

/-- With the numbers of the databases, from `i` on. -/
def lostFrom (i : Nat) : List ShardedDatabase → List ShardedDatabase → List (Nat × Bytes)
  | db :: dbs, db' :: dbs' => (lostShards db.shards db'.shards).map (i, ·) ++ lostFrom (i + 1) dbs dbs'
  | _, _ => []

theorem perm_append_comm₂ {α : Type} {a a₁ a₂ b b₁ b₂ : List α} (h : a.Perm (a₁ ++ a₂)) (h' : b.Perm (b₁ ++ b₂)) :
    (a ++ b).Perm (a₁ ++ b₁ ++ (a₂ ++ b₂)) := by
  refine (h.append h').trans ?_
  rw [append_assoc, append_assoc]
  refine Perm.append_left a₁ ?_
  rw [← append_assoc, ← append_assoc]
  exact perm_append_comm.append_right b₂

theorem map_of_mapIdx {α β γ : Type} (f : Nat → α → β) (g : β → γ) (l : List α) :
    (l.mapIdx f).map g = l.mapIdx fun i a => g (f i a) :=
  ext_getElem (by simp) (by simp)

theorem lostShards_self (l : List Database) : lostShards l l = [] := by
  induction l with
  | nil => rfl
  | cons s l ih => rw [lostShards, Database.lost_self, ih, nil_append]

theorem lostShards_trans {l l' l'' : List Database} (h : Forall₂ Database.Shrinks l l')
    (h' : Forall₂ Database.Shrinks l' l'') : (lostShards l l'').Perm (lostShards l l' ++ lostShards l' l'') := by
  induction h generalizing l'' with
  | nil =>
    cases h'
    rfl
  | cons head _ ih =>
    cases h' with
    | cons head' tail' => exact perm_append_comm₂ (Database.lost_trans head head') (ih tail')

theorem lostShards_replaced (a z : List Database) (s s' : Database) :
    lostShards (a ++ s :: z) (a ++ s' :: z) = s.lost s' := by
  induction a with
  | nil => rw [nil_append, nil_append, lostShards, lostShards_self, append_nil]
  | cons t a ih => rw [cons_append, cons_append, lostShards, Database.lost_self, nil_append, ih]

theorem lostFrom_self (i : Nat) (l : List ShardedDatabase) : lostFrom i l l = [] := by
  induction l generalizing i with
  | nil => rfl
  | cons db l ih => rw [lostFrom, lostShards_self, map_nil, nil_append, ih]

theorem lostFrom_trans {i : Nat} {l l' l'' : List ShardedDatabase}
    (h : Forall₂ (fun db db' : ShardedDatabase => Forall₂ Database.Shrinks db.shards db'.shards) l l')
    (h' : Forall₂ (fun db db' : ShardedDatabase => Forall₂ Database.Shrinks db.shards db'.shards) l' l'') :
    (lostFrom i l l'').Perm (lostFrom i l l' ++ lostFrom i l' l'') := by
  induction h generalizing i l'' with
  | nil =>
    cases h'
    rfl
  | cons head _ ih =>
    cases h' with
    | cons head' tail' =>
      refine perm_append_comm₂ ?_ (ih tail')
      rw [← map_append]
      exact (lostShards_trans head head').map _

/-- Only one database is changed: what is lost has its index. -/
theorem lostFrom_replaced (i : Nat) (a z : List ShardedDatabase) (db db' : ShardedDatabase) :
    lostFrom i (a ++ db :: z) (a ++ db' :: z) = (lostShards db.shards db'.shards).map (i + a.length, ·) := by
  induction a generalizing i with
  | nil => rw [nil_append, nil_append, lostFrom, lostFrom_self, append_nil, length_nil, Nat.add_zero]
  | cons t a ih =>
    rw [cons_append, cons_append, lostFrom, lostShards_self, map_nil, nil_append, ih, length_cons,
      Nat.add_right_comm, Nat.add_assoc]

namespace Store

/-- The keys that are gone, with their databases. -/
def lost (s s' : Store) : List (Nat × Bytes) := lostFrom 0 s.dbs s'.dbs

/-- No shard of any database has a new key. -/
def Shrinks (s s' : Store) : Prop :=
  Forall₂ (fun db db' : ShardedDatabase => Forall₂ Database.Shrinks db.shards db'.shards) s.dbs s'.dbs

variable {s s' s'' : Store}

theorem Shrinks.refl (s : Store) : Shrinks s s :=
  forall₂_same.2 fun _ _ => forall₂_same.2 fun shard _ => .refl shard

theorem Shrinks.trans (h : Shrinks s s') (h' : Shrinks s' s'') : Shrinks s s'' :=
  forall₂_trans h h' fun _ _ _ first second => forall₂_trans first second fun _ _ _ => Database.Shrinks.trans

theorem lost_self (s : Store) : s.lost s = [] := lostFrom_self 0 s.dbs

theorem lost_trans (h : Shrinks s s') (h' : Shrinks s' s'') : (s.lost s'').Perm (s.lost s' ++ s'.lost s'') :=
  lostFrom_trans h h'

/-! ## The expiry cycle -/

/-- A cycle reports the keys it takes from each shard. -/
theorem lostShards_cycle {l : List Database} (indexed : ∀ s ∈ l, s.Indexed) (clock : Nat → Nat → Nat) :
    (lostShards l (l.mapIdx fun j s => (s.expireCycle (clock j)).1)).Perm
        ((l.mapIdx fun j s => s.expireCycle (clock j)).flatMap fun r => r.2.1) ∧
      Forall₂ Database.Shrinks l (l.mapIdx fun j s => (s.expireCycle (clock j)).1) := by
  induction l generalizing clock with
  | nil => exact ⟨.refl _, .nil⟩
  | cons s l ih =>
    obtain ⟨gone, shrinks⟩ := Database.lost_rounds (clock 0) 16 20 (indexed s (.head _))
    obtain ⟨rest, shrinks'⟩ := ih (fun t mem => indexed t (.tail _ mem)) fun j => clock (j + 1)
    rw [mapIdx_cons, mapIdx_cons, flatMap_cons]
    exact ⟨gone.append rest, .cons shrinks shrinks'⟩

/-- The shards of a database are gone through one by one. -/
theorem shards_expireCycle (db : ShardedDatabase) (clock : Nat → Nat → Nat) :
    (db.expireCycle clock).1.shards = db.shards.mapIdx fun j s => (s.expireCycle (clock j)).1 := by
  simp [ShardedDatabase.expireCycle, map_of_mapIdx]

theorem dbs_activeExpireCycle (s : Store) (clock : Nat → Nat → Nat → Nat) :
    (s.activeExpireCycle clock).1.dbs = s.dbs.mapIdx fun j db => (db.expireCycle (clock j)).1 := by
  simp [activeExpireCycle, map_of_mapIdx]

/-- What the cycle reports is what is lost, database by database. -/
theorem lostFrom_cycle {l : List ShardedDatabase} (indexed : ∀ db ∈ l, db.Indexed) (clock : Nat → Nat → Nat → Nat)
    (i : Nat) : (lostFrom i l (l.mapIdx fun j db => (db.expireCycle (clock j)).1)).Perm
        ((l.mapIdx fun j db => (db.expireCycle (clock j)).2.1.map (i + j, ·)).flatten) ∧
      Forall₂ (fun db db' : ShardedDatabase => Forall₂ Database.Shrinks db.shards db'.shards) l
        (l.mapIdx fun j db => (db.expireCycle (clock j)).1) := by
  induction l generalizing clock i with
  | nil => exact ⟨.refl _, .nil⟩
  | cons db l ih =>
    obtain ⟨gone, shrinks⟩ := lostShards_cycle (indexed db (.head _)) (clock 0)
    obtain ⟨rest, shrinks'⟩ := ih (fun t mem => indexed t (.tail _ mem)) (fun j => clock (j + 1)) (i + 1)
    have shards := shards_expireCycle db (clock 0)
    rw [mapIdx_cons, mapIdx_cons, flatten_cons, lostFrom, shards, Nat.add_zero]
    refine ⟨(gone.map _).append ?_, .cons (shards ▸ shrinks) shrinks'⟩
    simpa only [Nat.add_assoc, Nat.add_comm 1] using rest

/-- **The cycle loses what it answers with**, each key in its database. -/
theorem lost_cycle (indexed : s.Indexed) (clock : Nat → Nat → Nat → Nat) :
    (s.lost (s.activeExpireCycle clock).1).Perm (s.activeExpireCycle clock).2 ∧
      Shrinks s (s.activeExpireCycle clock).1 := by
  have inside : ∀ db ∈ s.dbs, db.Indexed := fun db mem shard there =>
    indexed shard (mem_flatMap.2 ⟨db, mem, there⟩)
  obtain ⟨gone, shrinks⟩ := lostFrom_cycle inside clock 0
  have keys : (s.activeExpireCycle clock).2 =
      (s.dbs.mapIdx fun j db => (db.expireCycle (clock j)).2.1.map (0 + j, ·)).flatten := by
    simp [activeExpireCycle, mapIdx_mapIdx, Function.comp_def]
  rw [lost, Shrinks, dbs_activeExpireCycle, keys]
  exact ⟨gone, shrinks⟩

/-- No key has expired when the cycle first looks at its shard. -/
def Settled (clock : Nat → Nat → Nat → Nat) (s : Store) : Prop :=
  ∀ (i : Nat) (db : ShardedDatabase), s.dbs[i]? = some db → ∀ (j : Nat) (shard : Database),
    db.shards[j]? = some shard → shard.expiredKeys (clock i j 15) = []

/-- A cycle that takes nothing from a database has found nothing expired in it. -/
theorem lostShards_cycle_eq_nil_iff {l : List Database} (indexed : ∀ s ∈ l, s.Indexed) (clock : Nat → Nat → Nat) :
    lostShards l (l.mapIdx fun j s => (s.expireCycle (clock j)).1) = [] ↔
      ∀ (j : Nat) (shard : Database), l[j]? = some shard → shard.expiredKeys (clock j 15) = [] := by
  induction l generalizing clock with
  | nil => simp [lostShards]
  | cons s l ih =>
    have first := Database.lost_expireCycle_eq_nil_iff (clock 0) (indexed s (.head _))
    have rest := ih (fun t mem => indexed t (.tail _ mem)) fun j => clock (j + 1)
    rw [mapIdx_cons, lostShards, append_eq_nil_iff, first, rest]
    constructor
    · rintro ⟨here, there⟩ j shard found
      cases j with
      | zero =>
        cases found
        exact here
      | succ j => exact there j shard found
    · exact fun all => ⟨all 0 s rfl, fun j shard found => all (j + 1) shard found⟩

/-- The same for all databases from an index on. -/
theorem lostFrom_cycle_eq_nil_iff {l : List ShardedDatabase} (indexed : ∀ db ∈ l, db.Indexed)
    (clock : Nat → Nat → Nat → Nat) (i : Nat) :
    lostFrom i l (l.mapIdx fun j db => (db.expireCycle (clock j)).1) = [] ↔
      ∀ (j : Nat) (db : ShardedDatabase), l[j]? = some db → ∀ (m : Nat) (shard : Database),
        db.shards[m]? = some shard → shard.expiredKeys (clock j m 15) = [] := by
  induction l generalizing clock i with
  | nil => simp [lostFrom]
  | cons db l ih =>
    have first := lostShards_cycle_eq_nil_iff (indexed db (.head _)) (clock 0)
    have rest := ih (fun t mem => indexed t (.tail _ mem)) (fun j => clock (j + 1)) (i + 1)
    rw [mapIdx_cons, lostFrom, append_eq_nil_iff, map_eq_nil_iff, shards_expireCycle, first, rest]
    constructor
    · rintro ⟨here, there⟩ j db' found
      cases j with
      | zero =>
        cases found
        exact here
      | succ j => exact there j db' found
    · exact fun all => ⟨all 0 db rfl, fun j db' found => all (j + 1) db' found⟩

/-- A cycle that takes nothing has found nothing expired. -/
theorem lost_cycle_eq_nil_iff (indexed : s.Indexed) (clock : Nat → Nat → Nat → Nat) :
    s.lost (s.activeExpireCycle clock).1 = [] ↔ s.Settled clock := by
  rw [lost, dbs_activeExpireCycle]
  exact lostFrom_cycle_eq_nil_iff (fun db mem shard there => indexed shard (mem_flatMap.2 ⟨db, mem, there⟩)) clock 0

/-! ## The eviction loop -/

variable {policy : MaxMemoryPolicy} {order : IterOrder (Bytes × Entry)} {now : Nat} {k : Bytes}

/-- A removal of a stored key loses just this key. -/
theorem lost_removed {s : Database} (here : s.entries.lookup k ≠ none) :
    s.lost (s.remove k).1 = [k] ∧ Database.Shrinks s (s.remove k).1 := by
  have entries := Database.lookup_remove s k
  have gone := Database.lost_of_lookup (nodup_singleton k) (fun x mem => by rwa [mem_singleton.1 mem]) entries
  exact ⟨perm_singleton.1 gone, Database.shrinks_of_lookup entries⟩

theorem shrinks_replaced {R : Database → Database → Prop} (refl : ∀ s, R s s) (a z : List Database) {s s' : Database}
    (h : R s s') : Forall₂ R (a ++ s :: z) (a ++ s' :: z) :=
  rel_append (forall₂_same.2 fun t _ => refl t) (.cons h (forall₂_same.2 fun t _ => refl t))

/-- The database that evicts loses the key, and nothing else goes. -/
theorem lost_evictOne {db : ShardedDatabase} (indexed : db.Indexed) (hit : (db.evictOne policy order now).2 = some k) :
    lostShards db.shards (db.evictOne policy order now).1.shards = [k] ∧
      Forall₂ Database.Shrinks db.shards (db.evictOne policy order now).1.shards := by
  rcases ShardedDatabase.evictOne_cases indexed policy order now with
    ⟨a, s, z, k', e, split, evicts, answer, split'⟩ | ⟨-, idle⟩
  · rw [answer] at hit
    cases hit
    obtain ⟨gone, shrinks⟩ := lost_removed (evicts.found ▸ Option.some_ne_none e)
    rw [split', split, lostShards_replaced, gone]
    exact ⟨rfl, shrinks_replaced Database.Shrinks.refl a z shrinks⟩
  · rw [idle] at hit
    cases hit

/-- An eviction that hits loses its key, in one database. -/
theorem lost_hit {dbs : List ShardedDatabase} (indexed : s.Indexed)
    (hit : s.dbs.firstHit (ShardedDatabase.evictOne policy order now) = (dbs, some k)) :
    (∃ i, s.lost ⟨dbs⟩ = [(i, k)]) ∧ Shrinks s ⟨dbs⟩ ∧ Store.Indexed ⟨dbs⟩ := by
  have inside : ∀ db ∈ s.dbs, db.Indexed := fun db mem shard there =>
    indexed shard (mem_flatMap.2 ⟨db, mem, there⟩)
  have kept : Store.Indexed ⟨dbs⟩ := by
    rcases evict_cases indexed policy order now with ⟨a, t, z, k', e, dbs', shards, -, hit', shards'⟩ | ⟨-, idle⟩
    · rw [hit] at hit'
      cases hit'
      rw [Indexed, shards']
      rw [Indexed, shards] at indexed
      exact indexed_evicted indexed
    · rw [hit] at idle
      cases idle
  rcases firstHit_cases (f := ShardedDatabase.evictOne policy order now) (fun _ => ShardedDatabase.evictOne_idle)
    s.dbs with ⟨a, db, z, k', split, -, answer, h⟩ | ⟨-, idle⟩
  · rw [hit] at h
    cases h
    obtain ⟨gone, shrinks⟩ := lost_evictOne (inside db (by simp [split])) answer
    refine ⟨⟨a.length, ?_⟩, ?_, kept⟩
    · rw [lost, split, lostFrom_replaced, gone, Nat.zero_add]
      rfl
    · rw [Shrinks, split]
      have same (l : List ShardedDatabase) : Forall₂ (fun db db' : ShardedDatabase =>
          Forall₂ Database.Shrinks db.shards db'.shards) l l :=
        forall₂_same.2 fun _ _ => forall₂_same.2 fun t _ => .refl t
      exact rel_append (same a) (.cons shrinks (same z))
  · rw [hit] at idle
    cases idle

/-- The keys of the passes that evicted. -/
def evictedKeys (log : List Pass) : List Bytes := log.filterMap fun
  | .evicted k => some k
  | .retry => none

/-- **The loop loses what its log says.** -/
theorem lost_loop {limitBytes : Nat} {orders : Nat → IterOrder (Bytes × Entry)} {clock : Nat → Nat} {fuel i : Nat}
    {log : List Pass} (indexed : s.Indexed)
    (ran : Loop.run (evictPass policy limitBytes orders clock) fuel i s = some (s', log)) :
    ((s.lost s').map Prod.snd).Perm (evictedKeys log) ∧ Shrinks s s' ∧ s'.Indexed := by
  induction fuel generalizing i s log with
  | zero => cases ran
  | succ fuel ih =>
    rw [Loop.run, evictPass] at ran
    split_ifs at ran with enough
    · cases ran
      exact ⟨by rw [lost_self]; rfl, .refl _, indexed⟩
    · cases hit : s.dbs.firstHit (ShardedDatabase.evictOne policy (orders i) (clock i)) with
      | mk dbs answer =>
        rw [hit] at ran
        cases answer with
        | some k =>
          dsimp only at ran
          rw [Option.map_eq_some_iff] at ran
          obtain ⟨⟨s₁, rest⟩, later, same⟩ := ran
          cases same
          obtain ⟨⟨j, gone⟩, shrinks, kept⟩ := lost_hit indexed hit
          obtain ⟨lost', shrinks', kept'⟩ := ih kept later
          have whole := (lost_trans shrinks shrinks').map Prod.snd
          rw [gone] at whole
          exact ⟨whole.trans (lost'.cons k), shrinks.trans shrinks', kept'⟩
        | none =>
          -- no key may be evicted, so the store is as it was
          obtain rfl : dbs = s.dbs := by
            rcases evict_cases indexed policy (orders i) (clock i) with ⟨_, _, _, k, _, dbs', -, -, hit', -⟩ | ⟨-, idle⟩
            · rw [hit] at hit'
              cases hit'
            · rw [hit] at idle
              exact congrArg Prod.fst idle
          dsimp only at ran
          split_ifs at ran
          · rw [Option.map_eq_some_iff] at ran
            obtain ⟨⟨s₁, rest⟩, later, same⟩ := ran
            cases same
            have rest' := ih indexed later
            exact rest'
          · cases ran
            exact ⟨by rw [lost_self]; rfl, .refl _, indexed⟩

/-- What is left of the store when `evict_if_needed` has drained what had expired, and what its loop takes. -/
theorem lost_evictIfNeeded {limitBytes : Nat} {cycleClock : Nat → Nat → Nat → Nat}
    {orders : Nat → IterOrder (Bytes × Entry)} {clock : Nat → Nat} {fuel : Nat} {log : List Pass} (indexed : s.Indexed)
    (active : ¬ (policy = .noEviction ∨ limitBytes = 0))
    (ran : s.evictIfNeeded policy limitBytes cycleClock orders clock fuel = some (s', log)) :
    (((s.activeExpireCycle cycleClock).1.lost s').map Prod.snd).Perm (evictedKeys log) ∧
      Shrinks (s.activeExpireCycle cycleClock).1 s' ∧ s'.Indexed := by
  rw [evictIfNeeded, if_neg active] at ran
  dsimp only at ran
  have drained := indexed.activeExpireCycle cycleClock
  split_ifs at ran
  · cases ran
    exact ⟨by rw [lost_self]; rfl, .refl _, drained⟩
  · exact lost_loop drained ran

end Store

end NexradeCache
