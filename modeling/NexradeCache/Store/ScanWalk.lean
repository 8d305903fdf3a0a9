import NexradeCache.Store.Scan

/-!
# A whole SCAN

A client calls SCAN with cursor 0 and then with every cursor it gets, until it gets 0 back. Between two calls
the keyspace changes, the clock moves, and the server may come back with another number of shards.
`scan_complete` is what the client may rely on with up to 2^33 shards, and `scan_skips` shows a walk over 2^34
that misses a key: there the bit that keeps the cursors off zero is a bit of the shard's number.
-/

namespace NexradeCache

open List

/-- One call of a walk: the keyspace it finds, its count and the filter by type. -/
structure ScanCall where
  now : Nat
  db : ShardedDatabase
  count : Nat
  keep : Bytes → Entry → Bool
  power : ∃ k, 1 ≤ k ∧ db.shards.length = 2 ^ k
  placed : db.Placed

namespace ScanCall

variable (pattern : Bytes)

def page (c : ScanCall) (cursor : Nat) : List Bytes × Nat :=
  c.db.scanPage c.now cursor c.count pattern scanOrderKey c.keep

/-- A key the call is to return. -/
def Sees (c : ScanCall) (key : Bytes) : Prop :=
  ∃ e, (c.db.shardFor key).entries.lookup key = some e ∧ Sought c.now pattern c.keep key e

variable (calls : Nat → ScanCall)

/-- The cursor of call `i`. -/
def cursorAt : Nat → Nat
  | 0 => 0
  | i + 1 => ((calls i).page pattern (cursorAt i)).2

/-- What the first `m` calls return. -/
def returned (m : Nat) : List Bytes :=
  (List.range m).flatMap fun i => ((calls i).page pattern (cursorAt pattern calls i)).1

/-- No two keys of the walk have one rank. -/
def Distinct : Prop :=
  ∀ i j a b, (calls i).db.Present a → (calls j).db.Present b → scanOrderKey a = scanOrderKey b → a = b

variable {pattern calls}

/-- What a call looks for, in the order of the walk. -/
def ranked (pattern : Bytes) (c : ScanCall) : List Ranked :=
  c.db.rankedKeys c.now pattern c.keep (trailingZeros c.db.shards.length)

theorem rank_eq {c : ScanCall} {k : Nat} (size : c.db.shards.length = 2 ^ k) (le : k ≤ 33) :
    ranked pattern c = c.db.rankedKeys c.now pattern c.keep k := by
  rw [ranked, size, ShardedDatabase.trailingZeros_two_pow k (by omega)]

/-- The number of shards of a call, when there are not too many. -/
theorem size_of {c : ScanCall} (few : c.db.shards.length ≤ 2 ^ 33) : ∃ k ≤ 33, c.db.shards.length = 2 ^ k := by
  obtain ⟨k, -, size⟩ := c.power
  refine ⟨k, ?_, size⟩
  rw [size] at few
  exact (Nat.pow_le_pow_iff_right (by decide)).1 few

theorem mem_ranked {c : ScanCall} (few : c.db.shards.length ≤ 2 ^ 33) {r : Ranked} (mem : r ∈ ranked pattern c) :
    r.1 = scanOrderKey r.2 ∧ c.db.Present r.2 := by
  obtain ⟨k, le, size⟩ := size_of few
  rw [rank_eq size le] at mem
  obtain ⟨step, -, mem⟩ := List.mem_flatMap.1 mem
  obtain ⟨-, rank, present, -⟩ := ShardedDatabase.mem_stepBatch size c.placed (by omega) mem
  exact ⟨rank, present⟩

theorem increasing_ranked {c : ScanCall} (few : c.db.shards.length ≤ 2 ^ 33) (distinct : c.db.Distinct) :
    Increasing Prod.fst (ranked pattern c) := by
  obtain ⟨k, le, size⟩ := size_of few
  rw [rank_eq size le]
  exact ShardedDatabase.increasing_rankedKeys size c.placed le distinct

theorem ranked_lt {c : ScanCall} (few : c.db.shards.length ≤ 2 ^ 33) {r : Ranked} (mem : r ∈ ranked pattern c) :
    r.1 < 2 ^ 64 := by
  rw [(mem_ranked few mem).1]
  exact Reversal.reverseBits_lt _

theorem page_eq {c : ScanCall} (few : c.db.shards.length ≤ 2 ^ 33) {cursor : Nat} (word : cursor < 2 ^ 64) :
    c.page pattern cursor =
      ((Paging.page Prod.fst (ranked pattern c) (max c.count 1) cursor).1.map Prod.snd,
        (Paging.page Prod.fst (ranked pattern c) (max c.count 1) cursor).2) := by
  obtain ⟨k, le, size⟩ := size_of few
  rw [rank_eq size le]
  exact ShardedDatabase.scanPage_eq size c.placed le word c.count

/-- The cursors of the walk over the ranked keys. -/
def rankedCursor (pattern : Bytes) (calls : Nat → ScanCall) (i : Nat) : Nat :=
  Paging.cursorAt Prod.fst (fun i => ranked pattern (calls i)) (fun i => max (calls i).count 1) i

section

variable (few : ∀ i, (calls i).db.shards.length ≤ 2 ^ 33) (distinct : Distinct calls)

include few distinct

/-- The walk is the one of `Paging` over the ranked keys. -/
theorem cursorAt_eq (i : Nat) :
    cursorAt pattern calls i < 2 ^ 64 ∧ cursorAt pattern calls i = rankedCursor pattern calls i := by
  induction i with
  | zero => exact ⟨Nat.two_pow_pos 64, rfl⟩
  | succ i ih =>
    obtain ⟨word, same⟩ := ih
    rw [cursorAt, page_eq (few i) word, same]
    refine ⟨?_, rfl⟩
    dsimp only
    by_cases zero : rankedCursor pattern calls (i + 1) = 0
    · exact zero.trans_lt (Nat.two_pow_pos 64)
    · have sorted : Increasing Prod.fst (ranked pattern (calls i)) := increasing_ranked (few i) (distinct i i)
      obtain ⟨⟨r, mem, is, -⟩, -⟩ := Paging.page_full sorted zero
      exact is.symm.trans_lt (ranked_lt (few i) mem)

theorem returned_eq (m : Nat) :
    returned pattern calls m =
      (Paging.pages Prod.fst (fun i => ranked pattern (calls i)) (fun i => max (calls i).count 1) m).map Prod.snd := by
  rw [returned, Paging.pages, List.map_flatMap]
  refine List.flatMap_congr fun i _ => ?_
  obtain ⟨word, same⟩ : cursorAt pattern calls i < 2 ^ 64 ∧ _ := cursorAt_eq few distinct i
  rw [page_eq (few i) word, same]
  rfl

end

theorem rank_of_mem (few : ∀ i, (calls i).db.shards.length ≤ 2 ^ 33) {counts : Nat → Nat} {m : Nat} {r : Ranked}
    (mem : r ∈ Paging.pages Prod.fst (fun i => ranked pattern (calls i)) counts m) : r.1 = scanOrderKey r.2 := by
  obtain ⟨i, -, mem⟩ := List.mem_flatMap.1 mem
  exact (mem_ranked (few i) (Paging.mem_of_mem_page mem).1).1

/-- **SCAN is complete and returns no key twice**, with up to 2^33 shards: the cursors increase until the walk
ends, and every key that is there, live and matching, in all the calls is among the keys it returned. -/
theorem scan_complete (few : ∀ i, (calls i).db.shards.length ≤ 2 ^ 33) (distinct : Distinct calls) :
    ∃ m, cursorAt pattern calls (m + 1) = 0 ∧
      (∀ i < m, cursorAt pattern calls (i + 1) ≠ 0 ∧ cursorAt pattern calls i < cursorAt pattern calls (i + 1)) ∧
      (returned pattern calls (m + 1)).Nodup ∧
      ∀ key, (∀ i ≤ m, (calls i).Sees pattern key) → key ∈ returned pattern calls (m + 1) := by
  have sorted (i : Nat) : Increasing Prod.fst (ranked pattern (calls i)) := increasing_ranked (few i) (distinct i i)
  have same (i : Nat) : cursorAt pattern calls i = rankedCursor pattern calls i := (cursorAt_eq few distinct i).2
  obtain ⟨m, done, more⟩ : ∃ m, rankedCursor pattern calls (m + 1) = 0 ∧ ∀ i < m, rankedCursor pattern calls (i + 1) ≠ 0 :=
    Paging.walk_ends sorted fun i r mem => ranked_lt (few i) mem
  refine ⟨m, (same _).trans done, fun i less => ?_, ?_, fun key seen => ?_⟩
  · rw [same, same]
    exact ⟨more i less, Paging.cursorAt_grows sorted (more i less)⟩
  · rw [returned_eq few distinct, List.Nodup, List.pairwise_map]
    refine (Paging.increasing_walk sorted more).imp_of_mem fun {a b} memA memB less same => ?_
    rw [rank_of_mem few memA, rank_of_mem few memB, same] at less
    exact lt_irrefl _ less
  · rw [returned_eq few distinct]
    have there : ∀ i ≤ m, (scanOrderKey key, key) ∈ ranked pattern (calls i) := by
      intro i le
      obtain ⟨k, small, size⟩ := size_of (few i)
      obtain ⟨e, found, sought⟩ := seen i le
      rw [rank_eq size small]
      exact ShardedDatabase.mem_rankedKeys size (by omega) found sought
    have mem := Paging.mem_walk sorted more done (Nat.lt_of_lt_of_le Nat.one_pos (le_max_right _ _))
      (scanOrderKey_pos key) there
    exact List.mem_map.2 ⟨_, mem, rfl⟩

/-! ## Two keys -/

/-- A keyspace of two keys. -/
def twoKeys (numShards : Nat) (positive : 0 < numShards) (a b : Bytes) : ShardedDatabase :=
  (((ShardedDatabase.new numShards positive).writeFor a fun s => (s.insert a (.new (.string [])), ())).1.writeFor b
    fun s => (s.insert b (.new (.string [])), ())).1

section

variable {numShards : Nat} {positive : 0 < numShards} {a b : Bytes}

theorem length_twoKeys : (twoKeys numShards positive a b).shards.length = numShards := by
  simp [twoKeys, ShardedDatabase.new]

theorem placed_twoKeys : (twoKeys numShards positive a b).Placed :=
  ShardedDatabase.placed_writeFor (Database.moves_insert b _)
    (ShardedDatabase.placed_writeFor (Database.moves_insert a _) (ShardedDatabase.placed_new numShards positive))

theorem present_twoKeys {x : Bytes} (present : (twoKeys numShards positive a b).Present x) : x = a ∨ x = b := by
  rcases ShardedDatabase.present_writeFor (Database.moves_insert b _) present with second | present
  · exact .inr second
  · rcases ShardedDatabase.present_writeFor (Database.moves_insert a _) present with first | ⟨shard, mem, there⟩
    · exact .inl first
    · rw [List.eq_of_mem_replicate mem] at there
      exact absurd (AList.lookup_isSome.2 there) (by simp [Database.new])

theorem entry_inserted (db : ShardedDatabase) (key : Bytes) (entry : Entry) :
    ((db.writeFor key fun s => (s.insert key entry, ())).1.view key).entry = some entry := by
  rw [(ShardedDatabase.view_writeFor (Database.moves_insert key entry) db).1.entry, View.inserted]
  split <;> rfl

theorem lookup_twoKeys (ne : a ≠ b) {key : Bytes} (mem : key = a ∨ key = b) :
    ((twoKeys numShards positive a b).shardFor key).entries.lookup key = some (.new (.string [])) := by
  rcases mem with rfl | rfl
  · have other := ((ShardedDatabase.view_writeFor (Database.moves_insert b (.new (.string [])))
      ((ShardedDatabase.new numShards positive).writeFor key fun s => (s.insert key (.new (.string [])), ())).1).2 ne).entry
    exact other.trans (entry_inserted _ _ _)
  · exact entry_inserted _ _ _

/-- A call that asks for one key, over two keys in `2 ^ k` shards. -/
def overTwoKeys (k : Nat) (large : 1 ≤ k) (a b : Bytes) : ScanCall where
  now := 0
  db := twoKeys (2 ^ k) (Nat.two_pow_pos k) a b
  count := 1
  keep _ _ := true
  power := ⟨k, large, length_twoKeys⟩
  placed := placed_twoKeys

theorem distinct_overTwoKeys {k : Nat} {large : 1 ≤ k} (ne : scanOrderKey a ≠ scanOrderKey b) :
    Distinct fun _ => overTwoKeys k large a b := by
  intro i j x y presentX presentY same
  rcases present_twoKeys presentX with rfl | rfl <;> rcases present_twoKeys presentY with rfl | rfl
  · rfl
  · exact absurd same ne
  · exact absurd same.symm ne
  · rfl

theorem sees_overTwoKeys {k : Nat} {large : 1 ≤ k} (ne : a ≠ b) {key : Bytes} (mem : key = a ∨ key = b)
    (matching : globMatch [42] key = true) : (overTwoKeys k large a b).Sees [42] key :=
  ⟨_, lookup_twoKeys ne mem, rfl, matching, rfl⟩

end

def smallWalk (_ : Nat) : ScanCall := overTwoKeys 6 (by decide) [97] [98]

/-- The walk over two keys ends, and gives each of them once. -/
theorem scan_complete_smallWalk :
    ∃ m, cursorAt [42] smallWalk (m + 1) = 0 ∧
      (∀ i < m, cursorAt [42] smallWalk (i + 1) ≠ 0 ∧ cursorAt [42] smallWalk i < cursorAt [42] smallWalk (i + 1)) ∧
      (returned [42] smallWalk (m + 1)).Nodup ∧
      ∀ key, (∀ i ≤ m, (smallWalk i).Sees [42] key) → key ∈ returned [42] smallWalk (m + 1) :=
  scan_complete (fun _ => by rw [smallWalk, overTwoKeys, length_twoKeys]; decide)
    (distinct_overTwoKeys (by decide +kernel))

/-! ## A key that is missed -/

/-- Its hash is zero. -/
def zeroHash : Bytes := [0xd5, 0x6b, 0xb9, 0x53, 0x42, 0x87, 0x08, 0x36]

/-- Bit 33 is the lowest bit of its hash. -/
def hashBit33 : Bytes := [98, 118, 122, 107, 112, 119, 47]

section

variable {db : ShardedDatabase} {keep : Bytes → Entry → Bool} {now : Nat} (size : db.shards.length = 2 ^ 34)
  (placed : db.Placed) (two : ∀ x, db.Present x → x = zeroHash ∨ x = hashBit33)

include size placed two

/-- The walk finds the keys at its first two steps. -/
theorem step_of_two {step : Nat} {within : Option Nat} {r : Ranked} (lt : step < 2 ^ 34)
    (mem : r ∈ db.stepBatch now [42] keep 34 within step) : step = 0 ∧ r = (2 ^ 31, zeroHash) ∨ step = 1 := by
  obtain ⟨bucket, rank, present, -⟩ := ShardedDatabase.mem_stepBatch size placed (by decide) mem
  have number := Reversal.eq_of_reverse (by decide) lt bucket
  have number₀ : Reversal.reverseBits (fnv1a zeroHash) >>> (64 - 34) = 0 := by decide +kernel
  have number₁ : Reversal.reverseBits (fnv1a hashBit33) >>> (64 - 34) = 1 := by decide +kernel
  have rank₀ : scanOrderKey zeroHash = 2 ^ 31 := by decide +kernel
  rcases two r.2 present with is | is
  · rw [is] at number rank
    exact .inl ⟨number.trans number₀, Prod.ext (rank.trans rank₀) is⟩
  · rw [is] at number
    exact .inr (number.trans number₁)

/-- The first step takes the key of hash zero. -/
theorem batch_of_two {e : Entry} (found : (db.shardFor zeroHash).entries.lookup zeroHash = some e)
    (sought : Sought now [42] keep zeroHash e) :
    db.stepBatch now [42] keep 34 (some 0) 0 = [(2 ^ 31, zeroHash)] := by
  refine List.Perm.eq_singleton ((List.perm_ext_iff_of_nodup ?_ (List.nodup_singleton _)).2 fun r => ?_)
  · exact (increasing_scanBatch _).nodup_keys.of_map _
  · rw [List.mem_singleton]
    constructor
    · intro mem
      rcases step_of_two size placed two (by decide) mem with ⟨-, is⟩ | wrong
      · exact is
      · exact absurd wrong (by decide)
    · rintro rfl
      have rank : scanOrderKey zeroHash = 2 ^ 31 := by decide +kernel
      rw [← rank]
      refine ShardedDatabase.mem_stepBatch_of size found sought ?_ (by decide +kernel)
      rintro c ⟨⟩
      exact scanOrderKey_pos _

/-- The bit that the remap sets puts the rank of this key behind the next step of the walk. -/
theorem firstPage_of_two {e : Entry} (found : (db.shardFor zeroHash).entries.lookup zeroHash = some e)
    (sought : Sought now [42] keep zeroHash e) :
    db.scanPage now 0 1 [42] scanOrderKey keep = ([zeroHash], 2 ^ 31) := by
  have batch := batch_of_two size placed two found sought
  have steps (n : Nat) : List.range' 0 (n + 1) = 0 :: List.range' 1 n := List.range'_succ
  rw [ShardedDatabase.scanPage, size, ShardedDatabase.trailingZeros_two_pow 34 (by decide), if_pos rfl,
    Nat.sub_zero, show 2 ^ 34 = (2 ^ 34 - 1) + 1 from by decide, steps]
  generalize List.range' 1 (2 ^ 34 - 1) = later
  rw [scanSteps]
  rw [show scanBatch now [42] scanOrderKey keep (some 0) (db.shards[shardForStep 34 0]?.getD .new) = _ from batch]
  simp [fillPage]

theorem secondPage_of_two : db.scanPage now (2 ^ 31) 1 [42] scanOrderKey keep = ([], 0) := by
  have nothing (steps : List Nat) (within : Option Nat) (later : ∀ step ∈ steps, 2 ≤ step ∧ step < 2 ^ 34) :
      walked (db.stepBatch now [42] keep 34) steps within = [] := by
    induction steps generalizing within with
    | nil => rfl
    | cons step steps ih =>
      have empty : db.stepBatch now [42] keep 34 within step = [] := by
        refine List.eq_nil_iff_forall_not_mem.2 fun r mem => ?_
        obtain ⟨after, lt⟩ := later step (.head _)
        rcases step_of_two size placed two lt mem with ⟨is, -⟩ | is <;> omega
      rw [walked, empty, ih none fun step mem => later step (.tail _ mem), List.append_nil]
  have start : (if 2 ^ 31 = 0 then 0 else 2 ^ 31 >>> (64 - 34)) = 2 := by decide
  have walk := nothing (List.range' 2 (2 ^ 34 - 2)) (some (2 ^ 31)) fun step mem => by
    obtain ⟨i, inside, rfl⟩ := List.mem_range'.1 mem
    omega
  have page := @scanSteps_eq 1 (db.stepBatch now [42] keep 34) (List.range' 2 (2 ^ 34 - 2)) (some (2 ^ 31)) [] Nat.one_pos
  rw [walk] at page
  rw [ShardedDatabase.scanPage, size, ShardedDatabase.trailingZeros_two_pow 34 (by decide), start]
  refine Eq.trans page ?_
  simp

end

def longWalk (_ : Nat) : ScanCall := overTwoKeys 34 (by decide) zeroHash hashBit33

theorem longWalk_pages :
    cursorAt [42] longWalk 1 = 2 ^ 31 ∧ cursorAt [42] longWalk 2 = 0 ∧ returned [42] longWalk 2 = [zeroHash] := by
  have two (x : Bytes) (present : (longWalk 0).db.Present x) : x = zeroHash ∨ x = hashBit33 := present_twoKeys present
  have size : (longWalk 0).db.shards.length = 2 ^ 34 := length_twoKeys
  have found : ((longWalk 0).db.shardFor zeroHash).entries.lookup zeroHash = some (.new (.string [])) :=
    lookup_twoKeys (by decide) (.inl rfl)
  have first : (longWalk 0).page [42] 0 = ([zeroHash], 2 ^ 31) :=
    firstPage_of_two size (longWalk 0).placed two found ⟨rfl, by decide +kernel, rfl⟩
  have second : (longWalk 1).page [42] (2 ^ 31) = ([], 0) := secondPage_of_two size (longWalk 0).placed two
  have cursor₀ : cursorAt [42] longWalk 0 = 0 := rfl
  have cursor₁ : cursorAt [42] longWalk 1 = 2 ^ 31 := by rw [cursorAt, cursor₀, first]
  refine ⟨cursor₁, by rw [cursorAt, cursor₁, second], ?_⟩
  rw [returned, List.range_succ, List.range_succ, List.range_zero]
  simp only [List.nil_append, List.flatMap_append, List.flatMap_cons, List.flatMap_nil, List.append_nil, cursor₀,
    cursor₁, first, second]

/-- **With 2^34 shards a key can be missed**, though it is there all the time. -/
theorem scan_skips :
    ¬∀ (pattern : Bytes) (calls : Nat → ScanCall), (∀ i, 1 ≤ (calls i).count) → Distinct calls →
      ∀ m, cursorAt pattern calls (m + 1) = 0 → (∀ i < m, cursorAt pattern calls (i + 1) ≠ 0) →
        ∀ key, (∀ i ≤ m, (calls i).Sees pattern key) → key ∈ returned pattern calls (m + 1) := by
  intro claim
  obtain ⟨first, second, all⟩ := longWalk_pages
  have more : ∀ i < 1, cursorAt [42] longWalk (i + 1) ≠ 0 := by
    intro i less
    obtain rfl : i = 0 := by omega
    rw [first]
    exact (Nat.two_pow_pos 31).ne'
  have there (i : Nat) : (longWalk i).Sees [42] hashBit33 :=
    sees_overTwoKeys (by decide) (.inr rfl) (by decide +kernel)
  have returned := claim [42] longWalk (fun _ => le_rfl) (distinct_overTwoKeys (by decide +kernel)) 1 second more
    hashBit33 fun i _ => there i
  rw [all] at returned
  exact absurd returned (by decide)

end ScanCall

end NexradeCache
