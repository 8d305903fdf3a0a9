import Mathlib.Tactic.Ring
import NexradeCache.Lib.Paging
import NexradeCache.Lib.Reversal
import NexradeCache.Store.Glob
import NexradeCache.Store.Watch

/-!
# SCAN (`ShardedDatabase::scan_page` of `nexrade-core/src/store.rs`)

A page walks the shards in bit-reversed order and sorts what it finds in each by a bit-reversed hash. Every
shard is read under its own lock, so the shards of a page need not be of one moment; the model's page reads a
list of shards, and between two pages it may be any other. `scan_pages` finds in the pages those of
`Paging`: all the keys of the keyspace in the order of their hashes, the part behind the cursor, up to the count.
-/

namespace NexradeCache

open List Reversal

/-! ## Cursors -/

def scanCursorToken (key : Bytes) : Nat :=
  let h := fnv1a key
  if h < 2 ^ 32 then h + 2 ^ 32 else h

def scanOrderKey (key : Bytes) : Nat := reverseBits (scanCursorToken key)

theorem fnv1a_lt (key : Bytes) : fnv1a key < 2 ^ 64 := by
  rw [fnv1a]
  rcases List.eq_nil_or_concat key with rfl | ⟨front, b, rfl⟩
  · decide
  · rw [List.concat_eq_append, List.foldl_concat]
    exact Nat.mod_lt _ (by decide)

theorem scanCursorToken_bounds (key : Bytes) : 2 ^ 32 ≤ scanCursorToken key ∧ scanCursorToken key < 2 ^ 64 := by
  have lt := fnv1a_lt key
  rw [scanCursorToken]
  split <;> omega

theorem scanOrderKey_pos (key : Bytes) : 0 < scanOrderKey key :=
  reverseBits_pos (scanCursorToken_bounds key).2 (by have := (scanCursorToken_bounds key).1; omega)

/-! ## Pages -/

/-- `usize::trailing_zeros`. -/
def trailingZeros (n : Nat) : Nat := (BitVec.ofNat 64 n).ctz.toNat

/-- The shard that step `step` of the walk reads. -/
def shardForStep (shift step : Nat) : Nat := reverseBits step >>> (64 - shift)

/-- A key and its rank. -/
abbrev Ranked := Nat × Bytes

/-- What one shard has for the page, in order; behind the cursor, where there is one. -/
def scanBatch (now : Nat) (pattern : Bytes) (orderKey : Bytes → Nat) (keep : Bytes → Entry → Bool)
    (within : Option Nat) (shard : Database) : List Ranked :=
  let found := shard.entries.entries.filter fun e =>
    !e.2.isExpired now && (globMatch pattern e.1 && keep e.1 e.2)
  let ranked : List Ranked := found.map fun e => (orderKey e.1, e.1)
  let batch := ranked.filter fun r =>
    match within with
    | some c => decide (c < r.1)
    | none => true
  batch.mergeSort fun a b => decide (toLex a ≤ toLex b)

/-- Put a batch on the page; a rank is the cursor of the page that got full. -/
def fillPage (count : Nat) : (page : List Bytes) → (batch : List Ranked) → List Bytes × Option Nat
  | page, [] => (page, none)
  | page, (ok, k) :: batch =>
    let page := page ++ [k]
    if page.length = count then (page, some ok) else fillPage count page batch

def scanSteps (count : Nat) (batch : (within : Option Nat) → (step : Nat) → List Ranked) :
    (steps : List Nat) → (within : Option Nat) → (page : List Bytes) → List Bytes × Nat
  | [], _, page => (page, 0)
  | step :: steps, within, page =>
    match fillPage count page (batch within step) with
    | (page, some ok) => (page, ok)
    | (page, none) => scanSteps count batch steps none page

def ShardedDatabase.scanPage (now : Nat) (db : ShardedDatabase) (cursor count : Nat) (pattern : Bytes)
    (orderKey : Bytes → Nat) (keep : Bytes → Entry → Bool) : List Bytes × Nat :=
  let count := max count 1
  let numShards := db.shards.length
  let shift := trailingZeros numShards
  let startStep := if cursor = 0 then 0 else cursor >>> (64 - shift)
  let batch := fun within step =>
    scanBatch now pattern orderKey keep within (db.shards[shardForStep shift step]?.getD .new)
  scanSteps count batch (List.range' startStep (numShards - startStep)) (some cursor) []

/-! ## A page as a part of the whole walk -/

theorem fillPage_eq {count : Nat} {page : List Bytes} (room : page.length < count) (batch : List Ranked) :
    fillPage count page batch =
      (page ++ (batch.take (count - page.length)).map Prod.snd,
        if count - page.length ≤ batch.length then (batch.take (count - page.length)).getLast?.map Prod.fst
        else none) := by
  induction batch generalizing page with
  | nil =>
    have short : ¬count - page.length ≤ 0 := by omega
    simp [fillPage, short]
  | cons r batch ih =>
    obtain ⟨ok, k⟩ := r
    obtain ⟨left, is⟩ : ∃ left, count - page.length = left + 1 := ⟨count - page.length - 1, by omega⟩
    rw [fillPage, is]
    split
    · rename_i full
      rw [List.length_append, List.length_singleton] at full
      obtain rfl : left = 0 := by omega
      simp
    · rename_i more
      rw [List.length_append, List.length_singleton] at more
      have less : (page ++ [k]).length < count := by simp; omega
      have left' : count - (page ++ [k]).length = left := by simp; omega
      have positive : left ≠ 0 := by omega
      rw [ih less, left']
      simp only [List.take_succ_cons, List.map_cons, List.append_assoc, List.singleton_append, List.length_cons,
        Nat.add_le_add_iff_right, List.getLast?_cons]
      refine Prod.ext rfl ?_
      dsimp only
      split
      · rename_i enough
        cases batch with
        | nil => exact absurd enough (by simpa using positive)
        | cons r' batch =>
          obtain ⟨left, rfl⟩ := Nat.exists_eq_succ_of_ne_zero positive
          simp [List.getLast?_cons]
      · rfl

/-- What the steps find, one behind the other. -/
def walked (batch : Option Nat → Nat → List Ranked) : List Nat → Option Nat → List Ranked
  | [], _ => []
  | step :: steps, within => batch within step ++ walked batch steps none

theorem scanSteps_eq {count : Nat} {batch : Option Nat → Nat → List Ranked} (steps : List Nat)
    (within : Option Nat) {page : List Bytes} (room : page.length < count) :
    scanSteps count batch steps within page =
      (page ++ ((walked batch steps within).take (count - page.length)).map Prod.snd,
        if count - page.length ≤ (walked batch steps within).length then
          (((walked batch steps within).take (count - page.length)).getLast?.map Prod.fst).getD 0
        else 0) := by
  induction steps generalizing within page with
  | nil =>
    have short : ¬count - page.length ≤ 0 := by omega
    simp [scanSteps, walked, short]
  | cons step steps ih =>
    rw [scanSteps, fillPage_eq room, walked]
    by_cases full : count - page.length ≤ (batch within step).length
    · have last : ∃ r, ((batch within step).take (count - page.length)).getLast? = some r := by
        have : (batch within step).take (count - page.length) ≠ [] := by
          rw [← List.length_pos_iff, List.length_take]
          omega
        exact ⟨_, List.getLast?_eq_some_getLast this⟩
      obtain ⟨r, last⟩ := last
      rw [if_pos full, List.take_append_of_le_length full, last, List.length_append,
        if_pos (full.trans (Nat.le_add_right _ _))]
      rfl
    · have all : (batch within step).take (count - page.length) = batch within step :=
        List.take_of_length_le (by omega)
      rw [if_neg full, all]
      dsimp only
      have room' : (page ++ (batch within step).map Prod.snd).length < count := by simp; omega
      have left : count - (page ++ (batch within step).map Prod.snd).length =
          count - page.length - (batch within step).length := by simp; omega
      rw [ih none room', left, List.take_append, all, List.length_append]
      refine Prod.ext (by simp) ?_
      dsimp only
      by_cases enough : count - page.length - (batch within step).length ≤ (walked batch steps none).length
      · rw [if_pos enough, if_pos (by omega), List.getLast?_append]
        have : (walked batch steps none).take (count - page.length - (batch within step).length) ≠ [] := by
          rw [← List.length_pos_iff, List.length_take]
          omega
        rw [List.getLast?_eq_some_getLast this]
        rfl
      · rw [if_neg enough, if_neg (by omega)]

/-! ## One shard -/

section

variable {now : Nat} {pattern : Bytes} {orderKey : Bytes → Nat} {keep : Bytes → Entry → Bool} {shard : Database}

/-- The entry of a key is one the page looks for. -/
def Sought (now : Nat) (pattern : Bytes) (keep : Bytes → Entry → Bool) (key : Bytes) (e : Entry) : Prop :=
  e.isExpired now = false ∧ globMatch pattern key = true ∧ keep key e = true

theorem mem_scanBatch {within : Option Nat} {r : Ranked} :
    r ∈ scanBatch now pattern orderKey keep within shard ↔
      (∃ e, shard.entries.lookup r.2 = some e ∧ Sought now pattern keep r.2 e) ∧ r.1 = orderKey r.2 ∧
        ∀ c ∈ within, c < r.1 := by
  obtain ⟨ok, k⟩ := r
  have behind : (match within with | some c => decide (c < ok) | none => true) = true ↔ ∀ c ∈ within, c < ok := by
    cases within <;> simp
  simp only [scanBatch, List.mem_mergeSort, List.mem_filter, behind, List.mem_map]
  constructor
  · rintro ⟨⟨⟨k', e⟩, ⟨mem, sought⟩, is⟩, ahead⟩
    obtain ⟨rfl, rfl⟩ := Prod.mk.inj is
    refine ⟨⟨e, AList.mem_lookup_iff.2 mem, ?_⟩, rfl, ahead⟩
    simpa [Sought] using sought
  · rintro ⟨⟨e, found, sought⟩, is, ahead⟩
    refine ⟨⟨⟨k, e⟩, ⟨AList.mem_lookup_iff.1 found, ?_⟩, by rw [is]⟩, ahead⟩
    simpa [Sought] using sought

theorem increasing_scanBatch (within : Option Nat) :
    Increasing (toLex : Ranked → _) (scanBatch now pattern orderKey keep within shard) := by
  refine increasing_mergeSort ((List.Nodup.filter _ ?_).map toLex.injective)
  refine List.Nodup.of_map Prod.snd ?_
  rw [List.map_map]
  exact shard.entries.nodupKeys.sublist List.filter_sublist

/-- The resume filter takes away what is not behind the cursor. -/
theorem scanBatch_some (c : Nat) :
    scanBatch now pattern orderKey keep (some c) shard =
      (scanBatch now pattern orderKey keep none shard).filter (c < ·.1) := by
  refine (increasing_scanBatch _).eq_of_perm ((increasing_scanBatch _).sublist List.filter_sublist) ?_
  rw [List.perm_ext_iff_of_nodup]
  · intro r
    rw [List.mem_filter, mem_scanBatch, mem_scanBatch]
    simp [and_assoc]
  · exact (increasing_scanBatch _).nodup_keys.of_map _
  · exact (increasing_scanBatch _).nodup_keys.of_map _ |>.filter _

end

/-! ## Keys and shards -/

/-- The hashes of the keys of one shard, reversed, are one interval. The remap of small hashes may put a key on
its upper end. -/
theorem scanOrderKey_bounds {k i : Nat} (le : k ≤ 33) (lt : i < 2 ^ k) {key : Bytes}
    (bucket : shardForStep k i = fnv1a key % 2 ^ k) :
    i * 2 ^ (64 - k) ≤ scanOrderKey key ∧ scanOrderKey key ≤ (i + 1) * 2 ^ (64 - k) := by
  have number := eq_of_reverse (by omega) lt bucket
  rw [Nat.shiftRight_eq_div_pow] at number
  have low : i * 2 ^ (64 - k) ≤ reverseBits (fnv1a key) := by
    rw [number]
    exact Nat.div_mul_le_self _ _
  have high : reverseBits (fnv1a key) < (i + 1) * 2 ^ (64 - k) := by
    rw [number]
    exact Nat.lt_mul_of_div_lt (Nat.lt_succ_self _) (Nat.two_pow_pos _)
  rw [scanOrderKey, scanCursorToken]
  split
  · rename_i small
    -- Both are multiples of 2^31, so there is room for the bit that the remap sets.
    obtain ⟨m, is⟩ := reverseBits_small small
    have width : 2 ^ (64 - k) = 2 ^ 31 * 2 ^ (33 - k) := by
      rw [← pow_add]
      congr 1
      omega
    rw [reverseBits_add small, is, show 2 ^ 32 * m + 2 ^ 31 = 2 ^ 31 * (2 * m + 1) by ring]
    rw [is, width, show 2 ^ 32 * m = 2 ^ 31 * (2 * m) by ring] at low high
    rw [width]
    rw [show (i + 1) * (2 ^ 31 * 2 ^ (33 - k)) = 2 ^ 31 * ((i + 1) * 2 ^ (33 - k)) by ring] at high ⊢
    have less := Nat.lt_of_mul_lt_mul_left high
    exact ⟨low.trans (Nat.mul_le_mul_left _ (Nat.le_succ _)), Nat.mul_le_mul_left _ less⟩
  · exact ⟨low, high.le⟩

namespace ShardedDatabase

/-- The key is in the keyspace, live or not. -/
def Present (db : ShardedDatabase) (key : Bytes) : Prop := ∃ shard ∈ db.shards, key ∈ shard.entries

/-- Every key is in the shard that its hash selects. -/
def Placed (db : ShardedDatabase) : Prop :=
  ∀ i shard, db.shards[i]? = some shard → ∀ key, key ∈ shard.entries → db.shardIdx key = i

theorem placed_new (numShards : Nat) (positive : 0 < numShards) : (new numShards positive).Placed := by
  intro i shard is key mem
  rw [new, List.getElem?_replicate] at is
  split at is
  · cases is
    exact absurd (AList.lookup_isSome.2 mem) (by simp [Database.new])
  · cases is

/-- A write leaves the keys of a shard what they were, but for its own. -/
theorem placed_writeFor {α : Type} {f : Database → Database × α} {key : Bytes} {t : Database → View → View}
    (moves : Database.Moves f key t) {db : ShardedDatabase} (placed : db.Placed) : (db.writeFor key f).1.Placed := by
  intro i shard is x mem
  rw [shardIdx_writeFor]
  simp only [writeFor, List.getElem?_set] at is
  split at is
  · rename_i own
    rw [if_pos (db.shardIdx_lt key)] at is
    cases is
    by_cases same : x = key
    · rw [same, own]
    · have entry := (moves.other (db.shardFor key) same).entry
      rw [← own]
      refine placed _ _ ?_ x
        (AList.lookup_isSome.1 ((congrArg Option.isSome entry).symm.trans (AList.lookup_isSome.2 mem)))
      rw [shardFor, List.get_eq_getElem]
      exact List.getElem?_eq_getElem _
  · exact placed i shard is x mem

theorem present_writeFor {α : Type} {f : Database → Database × α} {key : Bytes} {t : Database → View → View}
    (moves : Database.Moves f key t) {db : ShardedDatabase} {x : Bytes} (present : (db.writeFor key f).1.Present x) :
    x = key ∨ db.Present x := by
  by_cases same : x = key
  · exact .inl same
  · obtain ⟨shard, mem, there⟩ := present
    rw [writeFor] at mem
    rcases List.mem_or_eq_of_mem_set mem with old | rfl
    · exact .inr ⟨shard, old, there⟩
    · have entry := (moves.other (db.shardFor key) same).entry
      refine .inr ⟨db.shardFor key, List.get_mem _ _, AList.lookup_isSome.1 ?_⟩
      exact (congrArg Option.isSome entry).symm.trans (AList.lookup_isSome.2 there)

theorem placed_rename {db : ShardedDatabase} (placed : db.Placed) (src dst : Bytes) : (db.rename src dst).1.Placed := by
  have out := placed_writeFor (Database.moves_remove src) placed
  rcases db.rename_cases src dst with ⟨e, -, is⟩ | ⟨-, is⟩
  · rw [is]
    exact placed_writeFor (Database.moves_insert dst e) out
  · rw [is]
    exact out

theorem placed_copyFrom {db : ShardedDatabase} (placed : db.Placed) (now : Nat) (src dst : Bytes) :
    (db.copyFrom now src dst).1.Placed := by
  have out := placed_writeFor (Database.moves_get now src) placed
  rw [copyFrom]
  split
  · rename_i db' entry is
    rw [is] at out
    exact placed_writeFor (Database.moves_insert dst entry) out
  · rename_i db' is
    rwa [is] at out

theorem placed_copyEntry {db : ShardedDatabase} (placed : db.Placed) (now : Nat) (src dst : Bytes) (replace : Bool) :
    (db.copyEntry now src dst replace).1.Placed := by
  have out := placed_writeFor (Database.moves_get now dst) placed
  rw [copyEntry]
  split
  · exact placed_copyFrom placed now src dst
  · split
    · rename_i db' _ is
      rwa [is] at out
    · rename_i db' is
      rw [is] at out
      exact placed_copyFrom out now src dst

theorem placed_incrInt {db : ShardedDatabase} (placed : db.Placed) (now : Nat) (key : Bytes) (delta : Int64) :
    (db.incrInt now key delta).1.Placed := by
  rcases db.incrInt_cases now key delta with ⟨e, cell, cell', -, -, -, -, is, -⟩ | ⟨e, cell, -, -, -, -, is⟩ | is
  · rw [is]
    exact placed_writeFor (Database.moves_put key _) placed
  · rwa [is]
  · rw [is]
    exact placed_writeFor (Database.moves_incrInt now key delta) placed

theorem placed_expireBatch {db : ShardedDatabase} (placed : db.Placed) (now maxTotal : Nat) :
    (db.expireBatch now maxTotal).1.Placed := by
  intro i shard is x mem
  have same : (db.expireBatch now maxTotal).1.shardIdx x = db.shardIdx x := by simp [shardIdx, expireBatch]
  rw [same]
  simp only [expireBatch, List.map_map, List.getElem?_map, Option.map_eq_some_iff] at is
  obtain ⟨before, is, rfl⟩ := is
  refine placed i before is x ?_
  have moved := (Database.view_expireBatch now before (max (maxTotal / db.shards.length) 1) x).entry
  have kept : (before.view x).entry ≠ none := by
    intro absent
    have after : (((before.expireBatch now (max (maxTotal / db.shards.length) 1)).1).view x).entry = none := by
      rw [moved]
      split <;> simp [View.removed, absent]
    exact Option.isSome_iff_ne_none.1 (AList.lookup_isSome.2 mem) after
  exact AList.lookup_isSome.1 (Option.isSome_iff_ne_none.2 kept)

theorem placed_flush (db : ShardedDatabase) : db.flush.Placed := by
  intro i shard is x mem
  simp only [flush, List.getElem?_map, Option.map_eq_some_iff] at is
  obtain ⟨before, -, rfl⟩ := is
  exact absurd (AList.lookup_isSome.2 mem) (by simp)

theorem shardIdx_eq_mod {db : ShardedDatabase} {k : Nat} (size : db.shards.length = 2 ^ k) (key : Bytes) :
    db.shardIdx key = fnv1a key % 2 ^ k := by
  rw [shardIdx, size, Nat.and_two_pow_sub_one_eq_mod]

/-! ## The walk over all shards -/

section

variable (now : Nat) (db : ShardedDatabase) (pattern : Bytes) (keep : Bytes → Entry → Bool)

/-- What step `step` of a walk over `2 ^ k` shards finds. -/
def stepBatch (k : Nat) (within : Option Nat) (step : Nat) : List Ranked :=
  scanBatch now pattern scanOrderKey keep within (db.shards[shardForStep k step]?.getD .new)

/-- All the keys that are sought, in the order of the walk. -/
def rankedKeys (k : Nat) : List Ranked := (List.range (2 ^ k)).flatMap (db.stepBatch now pattern keep k none)

end

section

variable {now : Nat} {db : ShardedDatabase} {pattern : Bytes} {keep : Bytes → Entry → Bool} {k : Nat}

theorem shardForStep_lt (le : k ≤ 64) (step : Nat) : shardForStep k step < 2 ^ k :=
  shiftRight_lt le (reverseBits_lt step)

/-- What a step finds is in the shard it reads. -/
theorem mem_stepBatch (size : db.shards.length = 2 ^ k) (placed : db.Placed) (le : k ≤ 64) {within : Option Nat}
    {step : Nat} {r : Ranked} (mem : r ∈ db.stepBatch now pattern keep k within step) :
    shardForStep k step = fnv1a r.2 % 2 ^ k ∧ r.1 = scanOrderKey r.2 ∧ db.Present r.2 ∧
      (∃ e, (db.shardFor r.2).entries.lookup r.2 = some e ∧ Sought now pattern keep r.2 e) := by
  obtain ⟨⟨e, found, sought⟩, rank, -⟩ := mem_scanBatch.1 mem
  have inside : shardForStep k step < db.shards.length := size ▸ shardForStep_lt le step
  rw [List.getElem?_eq_getElem inside, Option.getD_some] at found
  have there : r.2 ∈ (db.shards[shardForStep k step]).entries := AList.lookup_isSome.1 (by rw [found]; rfl)
  have idx := placed _ _ (List.getElem?_eq_getElem inside) _ there
  refine ⟨?_, rank, ⟨_, List.getElem_mem inside, there⟩, e, ?_, sought⟩
  · rw [← shardIdx_eq_mod size, idx]
  · rw [shardFor]
    simp only [List.get_eq_getElem, idx]
    exact found

theorem stepBatch_bounds (size : db.shards.length = 2 ^ k) (placed : db.Placed) (le : k ≤ 33) {step : Nat}
    (lt : step < 2 ^ k) {r : Ranked} (mem : r ∈ db.stepBatch now pattern keep k none step) :
    step * 2 ^ (64 - k) ≤ r.1 ∧ r.1 ≤ (step + 1) * 2 ^ (64 - k) := by
  obtain ⟨bucket, rank, -⟩ := mem_stepBatch size placed (by omega) mem
  rw [rank]
  exact scanOrderKey_bounds le lt bucket

/-- Ranks that are distinct for the keys of a keyspace. -/
def Distinct (db : ShardedDatabase) : Prop :=
  ∀ a b, db.Present a → db.Present b → scanOrderKey a = scanOrderKey b → a = b

theorem increasing_rankedKeys (size : db.shards.length = 2 ^ k) (placed : db.Placed) (le : k ≤ 33)
    (distinct : db.Distinct) : Increasing Prod.fst (db.rankedKeys now pattern keep k) := by
  refine List.pairwise_flatMap.2 ⟨fun step _ => ?_, ?_⟩
  · refine (increasing_scanBatch none).imp_of_mem fun {a b} memA memB less => ?_
    obtain ⟨-, rankA, presentA, -⟩ := mem_stepBatch size placed (by omega) memA
    obtain ⟨-, rankB, presentB, -⟩ := mem_stepBatch size placed (by omega) memB
    rcases Prod.Lex.toLex_lt_toLex.1 less with less | ⟨tie, less⟩
    · exact less
    · rw [rankA, rankB] at tie
      exact absurd (distinct _ _ presentA presentB tie ▸ less) (lt_irrefl _)
  · refine List.pairwise_lt_range.imp_of_mem fun {i j} memI memJ less a memA b memB => ?_
    obtain ⟨bucketA, rankA, presentA, -⟩ := mem_stepBatch size placed (by omega) memA
    obtain ⟨bucketB, rankB, presentB, -⟩ := mem_stepBatch size placed (by omega) memB
    have insideI := List.mem_range.1 memI
    have insideJ := List.mem_range.1 memJ
    have upper := (stepBatch_bounds size placed le insideI memA).2
    have lower := (stepBatch_bounds size placed le insideJ memB).1
    have between : (i + 1) * 2 ^ (64 - k) ≤ j * 2 ^ (64 - k) := Nat.mul_le_mul_right _ less
    refine lt_of_le_of_ne (upper.trans (between.trans lower)) fun tie => ?_
    -- On the bound between two steps the two keys would be one key, and it is in one shard.
    rw [rankA, rankB] at tie
    have same := distinct _ _ presentA presentB tie
    rw [← same, ← bucketA] at bucketB
    have number : i = j := by
      rw [eq_of_reverse (by omega) insideI bucketA, eq_of_reverse (by omega) insideJ (bucketB.trans bucketA)]
    omega

theorem mem_stepBatch_of (size : db.shards.length = 2 ^ k) {key : Bytes} {e : Entry}
    (found : (db.shardFor key).entries.lookup key = some e) (sought : Sought now pattern keep key e)
    {within : Option Nat} (ahead : ∀ c ∈ within, c < scanOrderKey key) {step : Nat}
    (bucket : shardForStep k step = fnv1a key % 2 ^ k) :
    (scanOrderKey key, key) ∈ db.stepBatch now pattern keep k within step := by
  refine mem_scanBatch.2 ⟨⟨e, ?_, sought⟩, rfl, ahead⟩
  rw [bucket, ← shardIdx_eq_mod size, List.getElem?_eq_getElem (db.shardIdx_lt key), Option.getD_some]
  exact found

theorem mem_rankedKeys (size : db.shards.length = 2 ^ k) (le : k ≤ 64) {key : Bytes} {e : Entry}
    (found : (db.shardFor key).entries.lookup key = some e) (sought : Sought now pattern keep key e) :
    (scanOrderKey key, key) ∈ db.rankedKeys now pattern keep k := by
  refine List.mem_flatMap.2 ⟨shardForStep k (fnv1a key % 2 ^ k), List.mem_range.2 (shardForStep_lt le _), ?_⟩
  refine mem_stepBatch_of size found sought (fun c (ahead : c ∈ none) => nomatch ahead) ?_
  rw [shardForStep, shardForStep, reverseBits_shift le, Nat.mod_mod]

/-- The steps from the cursor's on find what is behind the cursor. -/
theorem walked_stepBatch (size : db.shards.length = 2 ^ k) (placed : db.Placed) (le : k ≤ 33) {cursor : Nat}
    (word : cursor < 2 ^ 64) :
    walked (db.stepBatch now pattern keep k) (List.range' (cursor >>> (64 - k)) (2 ^ k - cursor >>> (64 - k)))
        (some cursor) =
      Paging.rest Prod.fst (db.rankedKeys now pattern keep k) cursor := by
  have lt : cursor >>> (64 - k) < 2 ^ k := shiftRight_lt (by omega) word
  rw [Nat.shiftRight_eq_div_pow] at lt ⊢
  obtain ⟨start, is⟩ : ∃ start, cursor / 2 ^ (64 - k) = start := ⟨_, rfl⟩
  rw [is] at lt ⊢
  obtain ⟨later, split⟩ : ∃ later, 2 ^ k = start + (later + 1) := ⟨2 ^ k - start - 1, by omega⟩
  have below : ∀ step < start, (db.stepBatch now pattern keep k none step).filter (cursor < ·.1) = [] := by
    intro step less
    refine List.filter_eq_nil_iff.2 fun r mem => ?_
    have upper := (stepBatch_bounds size placed le (less.trans lt) mem).2
    have front : (step + 1) * 2 ^ (64 - k) ≤ cursor :=
      (Nat.mul_le_mul_right _ less).trans (is ▸ Nat.div_mul_le_self cursor _)
    simpa using upper.trans front
  have above : ∀ step ∈ List.range' (start + 1) later,
      (db.stepBatch now pattern keep k none step).filter (cursor < ·.1) = db.stepBatch now pattern keep k none step := by
    intro step mem
    obtain ⟨i, inside, rfl⟩ := List.mem_range'.1 mem
    refine List.filter_eq_self.2 fun r mem => ?_
    have lower := (stepBatch_bounds size placed le (by omega) mem).1
    have behind : cursor < (start + 1) * 2 ^ (64 - k) :=
      Nat.lt_mul_of_div_lt (is ▸ Nat.lt_succ_self _) (Nat.two_pow_pos _)
    have between : (start + 1) * 2 ^ (64 - k) ≤ (start + 1 + 1 * i) * 2 ^ (64 - k) :=
      Nat.mul_le_mul_right _ (by omega)
    simpa using behind.trans_le (between.trans lower)
  have front : (List.range start).flatMap
      (fun step => (db.stepBatch now pattern keep k none step).filter (cursor < ·.1)) = [] :=
    List.flatMap_eq_nil_iff.2 fun step mem => below step (List.mem_range.1 mem)
  have rest (steps : List Nat) : walked (db.stepBatch now pattern keep k) steps none =
      steps.flatMap (db.stepBatch now pattern keep k none) := by
    induction steps with
    | nil => rfl
    | cons step steps ih => rw [walked, ih, List.flatMap_cons]
  rw [Paging.rest, rankedKeys, List.filter_flatMap, split, List.range_eq_range', ← List.range'_append_1,
    ← List.range_eq_range', List.flatMap_append, front, Nat.add_sub_cancel_left, Nat.zero_add, List.range'_succ,
    walked, rest, List.nil_append, List.flatMap_cons]
  refine congr (congrArg _ (scanBatch_some cursor)) ?_
  exact (List.flatMap_congr above).symm

/-- The lowest bit of a power of two is its only one. -/
theorem trailingZeros_two_pow (k : Nat) (lt : k < 64) : trailingZeros (2 ^ k) = k := by
  have bit (i : Nat) : (BitVec.ofNat 64 (2 ^ k)).getLsbD i = decide (i < 64 ∧ k = i) := by
    rw [BitVec.getLsbD_ofNat, Nat.testBit_two_pow]
    simp
  have ne : BitVec.ofNat 64 (2 ^ k) ≠ 0#64 := by
    intro zero
    have own := bit k
    rw [zero, BitVec.getLsbD_zero] at own
    simp [lt] at own
  have lowest := BitVec.getLsbD_true_ctz_of_ne_zero ne
  rw [bit, decide_eq_true_eq] at lowest
  exact lowest.2.symm

/-- **A page of SCAN** is what is behind the cursor, in the order of the ranks, up to the count. -/
theorem scanPage_eq (size : db.shards.length = 2 ^ k) (placed : db.Placed) (le : k ≤ 33) {cursor : Nat}
    (word : cursor < 2 ^ 64) (count : Nat) :
    db.scanPage now cursor count pattern scanOrderKey keep =
      ((Paging.page Prod.fst (db.rankedKeys now pattern keep k) (max count 1) cursor).1.map Prod.snd,
        (Paging.page Prod.fst (db.rankedKeys now pattern keep k) (max count 1) cursor).2) := by
  have start : (if cursor = 0 then 0 else cursor >>> (64 - k)) = cursor >>> (64 - k) := by
    split
    · rename_i zero
      rw [zero, Nat.zero_shiftRight]
    · rfl
  have room : ([] : List Bytes).length < max count 1 := Nat.lt_of_lt_of_le Nat.one_pos (le_max_right _ _)
  have steps := @scanSteps_eq (max count 1) (db.stepBatch now pattern keep k)
    (List.range' (cursor >>> (64 - k)) (2 ^ k - cursor >>> (64 - k))) (some cursor) [] room
  rw [walked_stepBatch size placed le word] at steps
  rw [scanPage, size, trailingZeros_two_pow k (by omega), start]
  exact steps

end

end ShardedDatabase

/-- Every operation keeps each key in its shard. -/
theorem World.placed_step {w : World} (placed : w.db.Placed) (op : StoreOp) : (w.step op).db.Placed := by
  cases op with
  | get key => exact ShardedDatabase.placed_writeFor (Database.moves_get w.now key) placed
  | insert key entry => exact ShardedDatabase.placed_writeFor (Database.moves_insert key entry.1) placed
  | setPlain key value => exact ShardedDatabase.placed_writeFor (Database.moves_setPlain w.now key value) placed
  | getMut key edit => exact ShardedDatabase.placed_writeFor (Database.moves_getMut w.now key _) placed
  | getOrInsertWith key fresh edit =>
    exact ShardedDatabase.placed_writeFor (Database.moves_getOrInsertWith w.now key fresh.1 _) placed
  | incrInt key delta => exact ShardedDatabase.placed_incrInt placed w.now key delta
  | incrIntLocked key delta => exact ShardedDatabase.placed_writeFor (Database.moves_incrInt w.now key delta) placed
  | remove key => exact ShardedDatabase.placed_writeFor (Database.moves_remove key) placed
  | setExpiry key expiry => exact ShardedDatabase.placed_writeFor (Database.moves_setExpiry key expiry) placed
  | expireBatch maxTotal => exact ShardedDatabase.placed_expireBatch placed w.now maxTotal
  | rename src dst => exact ShardedDatabase.placed_rename placed src dst
  | copyEntry src dst replace => exact ShardedDatabase.placed_copyEntry placed w.now src dst replace
  | flush => exact ShardedDatabase.placed_flush w.db
  | tick now => exact placed

/-- **In every reachable store each key is in its shard.** -/
theorem World.placed_run {numShards : Nat} (positive : 0 < numShards) (now : Nat) (ops : List StoreOp) :
    ((World.new numShards positive now).run ops).db.Placed := by
  have run (w : World) (placed : w.db.Placed) : (w.run ops).db.Placed := by
    rw [World.run]
    induction ops generalizing w with
    | nil => exact placed
    | cons op ops ih => exact ih _ (World.placed_step placed op)
  exact run _ (ShardedDatabase.placed_new numShards positive)

/-- A counter that is renamed to another key. -/
theorem World.placed_run_rename :
    ((World.new 2 Nat.two_pos 0).run [.incrInt [97] 1, .rename [97] [98]]).db.Placed :=
  World.placed_run Nat.two_pos 0 [.incrInt [97] 1, .rename [97] [98]]

end NexradeCache
