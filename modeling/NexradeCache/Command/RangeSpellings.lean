import NexradeCache.Command.SortedRanges

/-!
# The spellings of a range query (`nexrade-core/src/command/zset.rs`)

ZRANGE with its options, the older commands it unifies, the commands that count, and ZRANGESTORE. Each selects from
the pairs of the set (`scored`, `lexed`), and `spellings_agree_iff` says when two of them select the same:

- ZRANGE BYSCORE REV takes its first bound for the minimum, ZREVRANGEBYSCORE takes it for the maximum;
- ZRANGEBYLEX does not look at LIMIT;
- ZLEXCOUNT and ZRANGESTORE BYLEX strip all brackets in front of a bound, the others one;
- ZRANGE BYLEX WITHSCORES puts a score before its member.
-/

namespace NexradeCache.SortedRanges

open ZSetData (page withinScores withinLex)

/-! ## What queries select -/

/-- The pairs whose score lies within the bounds. -/
def scored (min max : F64 × Bool) (rev : Bool) (l : List ZPair) : List (Bytes × F64) :=
  let entries := (l.map fun e => (e.2, e.1)).filter fun e => withinScores min max e.2
  if rev then entries.reverse else entries

/-- The members within the bounds, in the order of byte strings. -/
def lexed (min max : Option Bytes × Bool) (l : List ZPair) : List Bytes :=
  ((l.map Prod.snd).insertionSort (· ≤ ·)).filter (withinLex min max)

/-- How many members have a score within the bounds. -/
def countScores (min max : F64 × Bool) (l : List ZPair) : Nat := l.countP fun e => withinScores min max e.1

/-- How many members lie within the bounds. -/
def countLex (min max : Option Bytes × Bool) (l : List ZPair) : Nat := l.countP fun e => withinLex min max e.2

section

variable {d : ZSetData} {z : ZMap} {l : List ZPair}

/-- A range by score, by the pairs in their order. -/
theorem rangeByScore_eq (rep : d.Rep z l) (min max : F64 × Bool) (rev : Bool) (offset : Nat) (count : Option Nat) :
    d.rangeByScore min max rev offset count = page offset count (scored min max rev l) := by
  unfold ZSetData.rangeByScore scored
  rw [rep.toPairsSorted_eq]

theorem memberKeys_perm (rep : d.Rep z l) (ord : ScoreOrder) : (d.memberKeys ord).Perm (l.map Prod.snd) := by
  cases d with
  | compact c =>
    have pairs : c.iterPairs = l.map fun e => (e.2, e.1) := CompactZSet.Rep.iterPairs_eq rep.holds
    rw [ZSetData.memberKeys, ZSetData.iterPairsRef, pairs, List.map_map]
    rfl
  | skiplist s =>
    have holds : s.Rep l := rep.holds
    have same := (s.members.lists_pairs.map_values F64.key).perm_of holds.lists
    have members := same.map Prod.fst
    rw [Ordered.members_eq, List.map_map] at members
    exact ((ord.perm s.members.pairs).map Prod.fst).trans members

/-- A range by name, by the pairs in their order. -/
theorem rangeByLexMembers_eq (rep : d.Rep z l) (ord : ScoreOrder) (min max : Option Bytes × Bool) :
    d.rangeByLexMembers ord min max = lexed min max l := by
  have sorted : (d.memberKeys ord).insertionSort (· ≤ ·) = (l.map Prod.snd).insertionSort (· ≤ ·) := by
    refine List.Perm.eq_of_pairwise' (List.pairwise_insertionSort _ _) (List.pairwise_insertionSort _ _) ?_
    exact ((List.perm_insertionSort _ _).trans (memberKeys_perm rep ord)).trans (List.perm_insertionSort _ _).symm
  rw [ZSetData.rangeByLexMembers, sorted, lexed]

theorem length_scored (min max : F64 × Bool) (rev : Bool) (l : List ZPair) :
    (scored min max rev l).length = countScores min max l := by
  have count : ((l.map fun e => (e.2, e.1)).filter fun e : Bytes × F64 => withinScores min max e.2).length =
      countScores min max l := by
    rw [← List.countP_eq_length_filter, List.countP_map]
    rfl
  cases rev <;> simpa [scored] using count

theorem length_lexed (min max : Option Bytes × Bool) (l : List ZPair) :
    (lexed min max l).length = countLex min max l := by
  rw [lexed, ← List.countP_eq_length_filter, (List.perm_insertionSort _ _).countP_eq, List.countP_map]
  rfl

theorem mem_lexed {min max : Option Bytes × Bool} {m : Bytes} :
    m ∈ lexed min max l ↔ (∃ e ∈ l, e.2 = m) ∧ withinLex min max m = true := by
  rw [lexed, List.mem_filter, List.mem_insertionSort, List.mem_map]

end

/-! ## Pages -/

section

variable {α β : Type} {offset : Nat} {count : Option Nat} {L : List α}

theorem page_eq_nil_iff : page offset count L = [] ↔ count = some 0 ∨ L.length ≤ offset := by
  cases count with
  | none => simp [page]
  | some n => simp [page, List.take_eq_nil_iff]

theorem page_eq_self_iff : page offset count L = L ↔ L = [] ∨ offset = 0 ∧ ∀ n, count = some n → L.length ≤ n := by
  constructor
  · intro same
    by_cases empty : L = []
    · exact .inl empty
    · have positive := List.length_pos_iff.2 empty
      have length := congrArg List.length same
      cases count with
      | none =>
        simp [page] at length
        exact .inr ⟨by omega, nofun⟩
      | some n =>
        simp [page] at length
        refine .inr ⟨by omega, ?_⟩
        rintro _ ⟨⟩
        omega
  · rintro (rfl | ⟨rfl, enough⟩)
    · cases count <;> simp [page]
    · cases count with
      | none => rfl
      | some n => exact List.take_of_length_le (enough n rfl)

theorem page_map (f : α → β) : page offset count (L.map f) = (page offset count L).map f := by
  cases count <;> simp [page]

end

/-! ## What a call was given -/

/-- The key and the two bounds are the same arguments. -/
structure SameArgs (args args' : List Resp) : Prop where
  key : args[1]? = args'[1]?
  first : args[2]? = args'[2]?
  second : args[3]? = args'[3]?

theorem text_of_strArg {cmd : String} {a : Option Resp} {s : String} (h : strArg cmd a = .ok s) :
    a.bind Resp.asStr = some s := by
  unfold strArg at h
  split at h
  · rename_i text
    rw [text, Except.ok.inj h]
  · cases h

/-- A key and two texts, one behind the other. -/
structure Given (args : List Resp) (i : Nat) (key : Bytes) (first second : String) : Prop where
  key : args[i]?.bind Resp.toBytesVec = some key
  first : args[i + 1]?.bind Resp.asStr = some first
  second : args[i + 2]?.bind Resp.asStr = some second

theorem bytes_of_bytesArg {cmd : String} {a : Option Resp} {b : Bytes} (h : bytesArg cmd a = .ok b) :
    a.bind Resp.toBytesVec = some b := by
  unfold bytesArg at h
  split at h
  · rename_i bytes
    rw [bytes, Except.ok.inj h]
  · cases h

variable {env : Env} {ord ord' : ScoreOrder} {thr : ZSetThresholds} {now : Nat} {args args' : List Resp} {s : Database}
  {key : Bytes} {d : ZSetData} {z : ZMap} {l : List ZPair}

theorem zrangeCall_given {c : ZRangeCall} (parsed : zrangeCall env args = .ok c) :
    Given args 1 c.key c.first c.second := by
  unfold zrangeCall at parsed
  obtain ⟨key, isKey, parsed⟩ := exists_of_bind_ok (of_guard parsed)
  obtain ⟨first, isFirst, parsed⟩ := exists_of_bind_ok parsed
  obtain ⟨second, isSecond, parsed⟩ := exists_of_bind_ok parsed
  obtain ⟨o, -, parsed⟩ := exists_of_bind_ok parsed
  dsimp only at parsed
  obtain rfl := eq_of_guard parsed
  exact ⟨bytes_of_bytesArg isKey, text_of_strArg isFirst, text_of_strArg isSecond⟩

theorem scoreCall_given {rev : Bool} {cmd : String} {c : ScoreCall} (parsed : scoreCall env rev cmd args = .ok c) :
    ∃ first second, Given args 1 c.key first second ∧
      parseScoreBound env (if rev then second else first) = .ok c.min ∧
      parseScoreBound env (if rev then first else second) = .ok c.max := by
  unfold scoreCall at parsed
  obtain ⟨key, isKey, parsed⟩ := exists_of_bind_ok (of_guard parsed)
  obtain ⟨minText, isMin, parsed⟩ := exists_of_bind_ok parsed
  obtain ⟨maxText, isMax, parsed⟩ := exists_of_bind_ok parsed
  obtain ⟨min, minBound, parsed⟩ := exists_of_bind_ok parsed
  obtain ⟨max, maxBound, parsed⟩ := exists_of_bind_ok parsed
  obtain ⟨o, -, parsed⟩ := exists_of_bind_ok parsed
  obtain rfl := Except.ok.inj parsed
  cases rev with
  | false =>
    exact ⟨minText, maxText, ⟨bytes_of_bytesArg isKey, text_of_strArg isMin, text_of_strArg isMax⟩, minBound, maxBound⟩
  | true =>
    exact ⟨maxText, minText, ⟨bytes_of_bytesArg isKey, text_of_strArg isMax, text_of_strArg isMin⟩, minBound, maxBound⟩

theorem lexCall_given {strip : String → String} {arity : List Resp → Bool} {cmd : String} {c : LexCall}
    (parsed : lexCall strip arity cmd args = .ok c) :
    ∃ first second, Given args 1 c.key first second ∧ c.min = lexBound strip "-" first ∧ c.max = lexBound strip "+" second := by
  unfold lexCall at parsed
  obtain ⟨key, isKey, parsed⟩ := exists_of_bind_ok (of_guard parsed)
  obtain ⟨first, isFirst, parsed⟩ := exists_of_bind_ok parsed
  obtain ⟨second, isSecond, parsed⟩ := exists_of_bind_ok parsed
  obtain rfl := Except.ok.inj parsed
  exact ⟨first, second, ⟨bytes_of_bytesArg isKey, text_of_strArg isFirst, text_of_strArg isSecond⟩, rfl, rfl⟩

theorem zcountCall_given {c : CountCall} (parsed : zcountCall env args = .ok c) :
    ∃ first second, Given args 1 c.key first second ∧ parseScoreBound env first = .ok c.min ∧
      parseScoreBound env second = .ok c.max := by
  unfold zcountCall at parsed
  obtain ⟨key, isKey, parsed⟩ := exists_of_bind_ok (of_guard parsed)
  obtain ⟨first, isFirst, parsed⟩ := exists_of_bind_ok parsed
  obtain ⟨min, minBound, parsed⟩ := exists_of_bind_ok parsed
  obtain ⟨second, isSecond, parsed⟩ := exists_of_bind_ok parsed
  obtain ⟨max, maxBound, parsed⟩ := exists_of_bind_ok parsed
  obtain rfl := Except.ok.inj parsed
  exact ⟨first, second, ⟨bytes_of_bytesArg isKey, text_of_strArg isFirst, text_of_strArg isSecond⟩, minBound, maxBound⟩

/-- The same arguments give the same key and texts. -/
theorem Given.same {i : Nat} {key key' : Bytes} {first first' second second' : String}
    (given : Given args i key first second) (given' : Given args' i key' first' second')
    (isKey : args[i]? = args'[i]?) (isFirst : args[i + 1]? = args'[i + 1]?) (isSecond : args[i + 2]? = args'[i + 2]?) :
    key = key' ∧ first = first' ∧ second = second' := by
  have keys := given.key
  have firsts := given.first
  have seconds := given.second
  rw [isKey, given'.key] at keys
  rw [isFirst, given'.first] at firsts
  rw [isSecond, given'.second] at seconds
  exact ⟨(Option.some.inj keys).symm, (Option.some.inj firsts).symm, (Option.some.inj seconds).symm⟩

/-- A live key with a sorted set. -/
structure SetAt (now : Nat) (s : Database) (key : Bytes) (d : ZSetData) (z : ZMap) (l : List ZPair) : Prop where
  found : ∃ e, s.getRo now key = some e ∧ e.value = .zset d
  rep : d.Rep z l

theorem SetAt.read (holds : SetAt now s key d z l) (missing : Resp) (body : ZSetData → Option (Result Resp)) :
    readZset now s key missing body = body d := by
  obtain ⟨e, found, isZset⟩ := holds.found
  exact readZset_eq found isZset

/-! ## By score -/

/-- WITHSCORES and LIMIT are the same. -/
structure SameOptions (o : ZRangeOptions) (o' : ScoreOptions) : Prop where
  withscores : o.withscores = o'.withscores
  offset : o.offset = o'.offset
  count : o.count = o'.count

theorem cmdZrange_eq {c : ZRangeCall} (parsed : zrangeCall env args = .ok c) :
    cmdZrange env ord now args s = readZset now s c.key (.array (some [])) fun z =>
      (zrangeReply env ord c z).map fun r => r.map fun out => .array (some out) := by
  unfold cmdZrange
  rw [parsed]

/-- Two replies are the same if they list the same. -/
theorem reply_eq_iff {items items' : List Resp} :
    (some (Except.ok items)).map (fun r : Result (List Resp) => r.map fun out => Resp.array (some out)) =
      some (.ok (.array (some items'))) ↔ items = items' := by
  simp [Except.map]

theorem zrangeReply_score {c : ZRangeCall} {min max : F64 × Bool} (kind : c.kind = .score)
    (minBound : parseScoreBound env c.first = .ok min) (maxBound : parseScoreBound env c.second = .ok max)
    (d : ZSetData) : zrangeReply env ord c d = some (.ok (formatZrangeResult env
      (d.rangeByScore min max c.options.rev c.options.offset c.options.count) c.options.withscores)) := by
  rw [zrangeReply, kind]
  simp only [minBound, maxBound, bind, Except.bind]
  rfl

/-- ZRANGEBYSCORE, once its arguments are read. -/
theorem rangeByScore_handler {rev : Bool} {cmd : String} {c : ScoreCall} (parsed : scoreCall env rev cmd args = .ok c) :
    rangeByScore env rev cmd now args s = readZset now s c.key (.array (some [])) fun z =>
      some (.ok (.array (some (formatZrangeResult env
        (z.rangeByScore c.min c.max rev c.options.offset c.options.count) c.options.withscores)))) := by
  unfold rangeByScore
  rw [parsed]

theorem byscore_agrees {c : ZRangeCall} {c' : ScoreCall} (parsed : zrangeCall env args = .ok c)
    (parsed' : scoreCall env false "ZRANGEBYSCORE" args' = .ok c') (same : SameArgs args args') (kind : c.kind = .score)
    (forward : c.options.rev = false) (options : SameOptions c.options c'.options) :
    cmdZrange env ord now args s = cmdZrangebyscore env now args' s := by
  obtain ⟨first, second, given', minBound, maxBound⟩ := scoreCall_given parsed'
  obtain ⟨isKey, rfl, rfl⟩ := (zrangeCall_given parsed).same given' same.key same.first same.second
  rw [cmdZrange_eq parsed, cmdZrangebyscore, rangeByScore_handler parsed', isKey]
  congr 1
  funext z
  rw [zrangeReply_score kind minBound maxBound, forward, options.withscores, options.offset, options.count]
  rfl

theorem zcount_agrees {c : CountCall} {c' : ScoreCall} (parsed : zcountCall env args = .ok c)
    (parsed' : scoreCall env false "ZRANGEBYSCORE" args' = .ok c') (same : SameArgs args args')
    (plain : c'.options.withscores = false) (noOffset : c'.options.offset = 0) (noCount : c'.options.count = none)
    (holds : SetAt now s c.key d z l) :
    ∃ items, cmdZrangebyscore env now args' s = some (.ok (.array (some items))) ∧
      cmdZcount env now args s = some (.ok (.integer (.ofNat items.length))) := by
  obtain ⟨first, second, given, minBound, maxBound⟩ := zcountCall_given parsed
  obtain ⟨first', second', given', minBound', maxBound'⟩ := scoreCall_given parsed'
  obtain ⟨isKey, rfl, rfl⟩ := given.same given' same.key same.first same.second
  have isMin : c.min = c'.min := Except.ok.inj (minBound.symm.trans minBound')
  have isMax : c.max = c'.max := Except.ok.inj (maxBound.symm.trans maxBound')
  refine ⟨formatZrangeResult env (d.rangeByScore c.min c.max false 0 none) false, ?_, ?_⟩
  · rw [cmdZrangebyscore, rangeByScore_handler parsed', ← isKey, holds.read, isMin, isMax, plain, noOffset,
      noCount]
  · unfold cmdZcount
    rw [parsed]
    dsimp only
    rw [holds.read]
    have length : (formatZrangeResult env (d.rangeByScore c.min c.max false 0 none) false).length =
        (d.rangeByScore c.min c.max false 0 none).length := by simp [formatZrangeResult]
    rw [length]

theorem key_le_of_within {a b : F64 × Bool} {x : F64} (within : withinScores a b x = true) :
    a.1.key ≤ x.key ∧ x.key ≤ b.1.key := by
  obtain ⟨a, ea⟩ := a
  obtain ⟨b, eb⟩ := b
  show a.key ≤ x.key ∧ x.key ≤ b.key
  cases ea <;> cases eb <;> simp [withinScores, Collections.leF64, Collections.ltF64] at within <;> omega

/-- Between equal bounds their order does not matter. -/
theorem within_swap {a b : F64 × Bool} (same : a.1.key = b.1.key) (x : F64) : withinScores a b x = withinScores b a x := by
  obtain ⟨a, ea⟩ := a
  obtain ⟨b, eb⟩ := b
  have nan : a.isNaN = b.isNaN := F64.isNaN_congr same
  have same : a.key = b.key := same
  cases ea <;> cases eb <;> simp only [withinScores, Collections.leF64, Collections.ltF64, nan, same] <;>
    rw [Bool.eq_iff_iff] <;> simp <;> omega

theorem countScores_eq_zero {a b : F64 × Bool} (crossed : b.1.key < a.1.key) (l : List ZPair) : countScores a b l = 0 := by
  rw [countScores, List.countP_eq_zero]
  intro e _ within
  have bounds := key_le_of_within within
  omega

/-- Bounds that compare alike may be swapped. -/
theorem scored_swap {a b : F64 × Bool} (same : a.1.key = b.1.key) (rev : Bool) (l : List ZPair) :
    scored a b rev l = scored b a rev l := by
  unfold scored
  simp only [within_swap same]

/-- The pages of two windows, one the other turned round, are the same if the bounds are equal or both pages are empty. -/
theorem pages_swap_iff {a b : F64 × Bool} {offset : Nat} {count : Option Nat} {withscores : Bool} :
    formatZrangeResult env (page offset count (scored a b true l)) withscores =
      formatZrangeResult env (page offset count (scored b a true l)) withscores ↔
    a.1.key = b.1.key ∨ count = some 0 ∨ (countScores a b l ≤ offset ∧ countScores b a l ≤ offset) := by
  have empty (a b : F64 × Bool) : formatZrangeResult env (page offset count (scored a b true l)) withscores = [] ↔
      count = some 0 ∨ countScores a b l ≤ offset := by
    rw [formatZrangeResult_eq_nil, page_eq_nil_iff, length_scored]
  rcases lt_trichotomy a.1.key b.1.key with below | same | above
  · have nothing : countScores b a l = 0 := countScores_eq_zero below l
    rw [(empty b a).2 (.inr (by omega)), empty]
    simp [nothing, below.ne]
  · rw [scored_swap same]
    simp [same]
  · have nothing : countScores a b l = 0 := countScores_eq_zero above l
    rw [(empty a b).2 (.inr (by omega)), eq_comm, empty]
    simp [nothing, above.ne']

/-- ZRANGE BYSCORE REV reads its bounds the other way round. -/
theorem revscore_agrees_iff {c : ZRangeCall} {c' : ScoreCall} (parsed : zrangeCall env args = .ok c)
    (parsed' : scoreCall env true "ZREVRANGEBYSCORE" args' = .ok c') (same : SameArgs args args')
    (kind : c.kind = .score) (backward : c.options.rev = true) (options : SameOptions c.options c'.options)
    (holds : SetAt now s c.key d z l) :
    cmdZrange env ord now args s = cmdZrevrangebyscore env now args' s ↔
      c'.max.1.key = c'.min.1.key ∨ c.options.count = some 0 ∨
        (countScores c'.max c'.min l ≤ c.options.offset ∧ countScores c'.min c'.max l ≤ c.options.offset) := by
  obtain ⟨first, second, given', minBound, maxBound⟩ := scoreCall_given parsed'
  obtain ⟨isKey, rfl, rfl⟩ := (zrangeCall_given parsed).same given' same.key same.first same.second
  rw [cmdZrange_eq parsed, cmdZrevrangebyscore, rangeByScore_handler parsed', ← isKey, holds.read,
    holds.read, zrangeReply_score kind maxBound minBound, backward, rangeByScore_eq holds.rep,
    rangeByScore_eq holds.rep, ← options.withscores, ← options.offset, ← options.count, ← pages_swap_iff, reply_eq_iff]

/-! ## By member -/

/-- A list, or its reverse. -/
def oriented {α : Type} (rev : Bool) (L : List α) : List α := if rev then L.reverse else L

theorem zrangeReply_lex {c : ZRangeCall} (kind : c.kind = .lex) (rep : d.Rep z l) :
    zrangeReply env ord c d = some (.ok (lexReply env d (page c.options.offset c.options.count (oriented c.options.rev
      (lexed (lexBound stripExclusive "-" c.first) (lexBound stripExclusive "+" c.second) l))) c.options.withscores)) := by
  rw [zrangeReply, kind]
  dsimp only
  rw [rangeByLexMembers_eq rep]
  rfl

theorem cmdZrangebylex_eq {c : LexCall} (parsed : zrangebylexCall args = .ok c) (holds : SetAt now s c.key d z l) :
    cmdZrangebylex ord now args s =
      some (.ok (.array (some ((lexed c.min c.max l).map fun m => .bulkString (some m))))) := by
  unfold cmdZrangebylex
  rw [parsed]
  dsimp only
  rw [holds.read, rangeByLexMembers_eq holds.rep]

theorem bulk_injective : Function.Injective fun m : Bytes => Resp.bulkString (some m) := by
  intro m m' same
  exact Option.some.inj (Resp.bulkString.inj same)

theorem lexReply_plain (d : ZSetData) (members : List Bytes) :
    lexReply env d members false = members.map fun m => .bulkString (some m) := by
  simp [lexReply, List.map_eq_flatMap]

theorem bylex_agrees_iff {c : ZRangeCall} {c' : LexCall} (parsed : zrangeCall env args = .ok c)
    (parsed' : zrangebylexCall args' = .ok c') (same : SameArgs args args') (kind : c.kind = .lex)
    (forward : c.options.rev = false) (plain : c.options.withscores = false)
    (holds : SetAt now s c.key d z l) :
    cmdZrange env ord now args s = cmdZrangebylex ord' now args' s ↔
      countLex c'.min c'.max l = 0 ∨
        c.options.offset = 0 ∧ ∀ n, c.options.count = some n → countLex c'.min c'.max l ≤ n := by
  obtain ⟨first, second, given', isMin, isMax⟩ := lexCall_given parsed'
  obtain ⟨isKey, rfl, rfl⟩ := (zrangeCall_given parsed).same given' same.key same.first same.second
  have whole : oriented false (lexed c'.min c'.max l) = lexed c'.min c'.max l := rfl
  rw [cmdZrange_eq parsed, holds.read, zrangeReply_lex kind holds.rep, cmdZrangebylex_eq parsed' (isKey ▸ holds), forward,
    plain, ← isMin, ← isMax, lexReply_plain, reply_eq_iff, bulk_injective.list_map.eq_iff, whole, page_eq_self_iff,
    length_lexed, ← List.length_eq_zero_iff, length_lexed]

/-- The bounds admit a member with one bracket stripped if and only if they do with all brackets stripped. -/
def SameReading (first second : String) (m : Bytes) : Prop :=
  withinLex (lexBound stripExclusive "-" first) (lexBound stripExclusive "+" second) m =
    withinLex (lexBound trimStartMatches "-" first) (lexBound trimStartMatches "+" second) m

/-- Without a second bracket it makes no difference. -/
theorem sameReading_of_stripped {first second : String} (one : stripExclusive first = trimStartMatches first)
    (one' : stripExclusive second = trimStartMatches second) (m : Bytes) : SameReading first second m := by
  simp only [SameReading, lexBound, one, one']

/-- Bounds that say the same about every member. -/
theorem lexed_of_sameReading {first second : String} (same : ∀ e ∈ l, SameReading first second e.2) :
    lexed (lexBound stripExclusive "-" first) (lexBound stripExclusive "+" second) l =
      lexed (lexBound trimStartMatches "-" first) (lexBound trimStartMatches "+" second) l := by
  refine List.filter_congr fun m mem => ?_
  rw [List.mem_insertionSort] at mem
  obtain ⟨e, there, rfl⟩ := List.mem_map.1 mem
  exact same e there

/-- The members of a sorted set are below 2^32 bytes. -/
theorem short_of_rep (rep : d.Rep z l) : ∀ e ∈ l, e.2.length < 2 ^ 32 := by
  intro e mem
  cases d with
  | compact c => exact zCodec_valid.1 (CompactZSet.Rep.valid rep.holds e mem)
  | skiplist s => exact zCodec_valid.1 (SkiplistZSet.Rep.valid rep.holds e mem)

theorem cmdZlexcount_eq {c : LexCall} (parsed : zlexcountCall args = .ok c) (holds : SetAt now s c.key d z l) :
    cmdZlexcount ord now args s = some (.ok (.integer (.ofNat (countLex c.min c.max l)))) := by
  unfold cmdZlexcount
  rw [parsed]
  dsimp only
  rw [holds.read, rangeByLexMembers_eq holds.rep, length_lexed]

/-- A set of one member with score 0. -/
def single (m : Bytes) : ZSetData := .compact (CompactZSet.new.appendPair ⟨0⟩ m)

theorem single_rep {m : Bytes} (short : m.length < 2 ^ 32) :
    (single m).Rep (Function.update (fun _ => none) m (some ⟨0⟩)) [(⟨0⟩, m)] where
  holds := CompactZSet.new_rep.appendPair (zCodec_valid.2 short)
  ordered := by
    rw [ZSetData.keys_update]
    exact ZSetData.new_rep.ordered.insert_new rfl _
  nonNaN := by simp [F64.isNaN, F64.mag]

/-- A shard with it under a key. -/
def singleShard (m : Bytes) : Database := Database.new.insert [107] (.new (.zset (single m)))

theorem singleShard_holds {m : Bytes} (short : m.length < 2 ^ 32) :
    SetAt 0 (singleShard m) [107] (single m) (Function.update (fun _ => none) m (some ⟨0⟩)) [(⟨0⟩, m)] := by
  refine ⟨⟨.new (.zset (single m)), ?_, rfl⟩, single_rep short⟩
  have after := (Database.acts_insert 0 [107] (.new (.zset (single m)))).getRo Database.new [107]
  rw [if_pos rfl] at after
  exact after

theorem lexCall_words {strip : String → String} {arity : List Resp → Bool} {cmd : String} (first second : String)
    (four : arity (ListIndex.words [cmd, "k", first, second]) = true) :
    lexCall strip arity cmd (ListIndex.words [cmd, "k", first, second]) =
      .ok ⟨[107], lexBound strip "-" first, lexBound strip "+" second⟩ := by
  have key : bytesArg cmd (some (.bulkString (some (Utf8.asBytes "k")))) = .ok [107] := rfl
  unfold lexCall
  simp [ListIndex.words, key, strArg, Resp.asStr, bind, Except.bind, pure, Except.pure]
  exact four

theorem countLex_single (min max : Option Bytes × Bool) (m : Bytes) :
    countLex min max [(⟨0⟩, m)] = if withinLex min max m then 1 else 0 := by
  simp [countLex, List.countP_cons]

/-- ZLEXCOUNT strips all brackets in front of a bound, ZRANGEBYLEX one. -/
theorem zlexcount_agrees_iff (first second : String) :
    (∀ (ord ord' : ScoreOrder) (now : Nat) (s : Database) (args args' : List Resp) (c c' : LexCall) (d : ZSetData)
      (z : ZMap) (l : List ZPair), zlexcountCall args = .ok c → zrangebylexCall args' = .ok c' → SameArgs args args' →
        Given args 1 c.key first second → SetAt now s c.key d z l →
          ∃ items, cmdZrangebylex ord' now args' s = some (.ok (.array (some items))) ∧
            cmdZlexcount ord now args s = some (.ok (.integer (.ofNat items.length)))) ↔
      ∀ m : Bytes, m.length < 2 ^ 32 → SameReading first second m := by
  constructor
  · intro agrees m short
    have holds := singleShard_holds short
    have count := @lexCall_words trimStartMatches (fun args => args.length = 4) "zlexcount" first second rfl
    have range := @lexCall_words stripExclusive (fun args => 4 ≤ args.length) "zrangebylex" first second rfl
    obtain ⟨items, lists, counts⟩ := agrees .asStored .asStored 0 (singleShard m) _ _ _ _ _ _ _ count range
      ⟨rfl, rfl, rfl⟩ ⟨rfl, Utf8.fromUtf8_asBytes first, Utf8.fromUtf8_asBytes second⟩ holds
    rw [cmdZrangebylex_eq range holds] at lists
    rw [cmdZlexcount_eq count holds] at counts
    obtain rfl := Option.some.inj (Resp.array.inj (Except.ok.inj (Option.some.inj lists)))
    have counts := Resp.integer.inj (Except.ok.inj (Option.some.inj counts))
    rw [List.length_map, length_lexed, countLex_single, countLex_single] at counts
    show withinLex _ _ m = withinLex _ _ m
    revert counts
    cases withinLex (lexBound stripExclusive "-" first) (lexBound stripExclusive "+" second) m <;>
      cases withinLex (lexBound trimStartMatches "-" first) (lexBound trimStartMatches "+" second) m <;> decide
  · intro same ord ord' now s args args' c c' d z l parsed parsed' sameArgs given holds
    obtain ⟨first₁, second₁, given₁, isMin, isMax⟩ := lexCall_given parsed
    obtain ⟨first₂, second₂, given₂, isMin', isMax'⟩ := lexCall_given parsed'
    obtain ⟨-, rfl, rfl⟩ := given.same given₁ rfl rfl rfl
    obtain ⟨isKey, rfl, rfl⟩ := given.same given₂ sameArgs.key sameArgs.first sameArgs.second
    refine ⟨_, cmdZrangebylex_eq parsed' (isKey ▸ holds), ?_⟩
    rw [cmdZlexcount_eq parsed holds, List.length_map, ← length_lexed, isMin, isMax, isMin', isMax',
      lexed_of_sameReading fun e mem => same e.2 (short_of_rep holds.rep e mem)]

/-! ## Entries -/

/-- Pairs of the set, no member twice. -/
structure Selected (z : ZMap) (entries : List (Bytes × F64)) : Prop where
  once : (entries.map Prod.fst).Nodup
  scores : ∀ e ∈ entries, SameScore (some e.2) (z e.1)
  nonNaN : ∀ e ∈ entries, e.2.isNaN = false
  short : ∀ e ∈ entries, e.1.length < 2 ^ 32

theorem sublist_page {α : Type} (offset : Nat) (count : Option Nat) (L : List α) : (page offset count L).Sublist L := by
  cases count with
  | none => exact List.drop_sublist _ _
  | some n => exact (List.take_sublist _ _).trans (List.drop_sublist _ _)

theorem sublist_clampedRange {α : Type} (i j : Int) (L : List α) : (Positions.clampedRange i j L).Sublist L :=
  (List.drop_sublist _ _).trans (List.take_sublist _ _)

theorem score_of_mem (rep : d.Rep z l) {m : Bytes} (mem : m ∈ l.map Prod.snd) :
    ∃ x, d.score m = some x ∧ SameScore (some x) (z m) ∧ x.isNaN = false := by
  have same := rep.agrees.score m
  obtain ⟨y, isScore⟩ := Option.isSome_iff_exists.1 ((rep.mem_iff m).1 mem)
  cases looked : d.score m with
  | none =>
    rw [looked, isScore] at same
    exact same.elim
  | some x =>
    have key := rep.score_key m
    rw [looked] at key
    exact ⟨x, rfl, looked ▸ same, rep.nonNaN_of_key key.symm⟩

namespace Selected

variable {entries entries' : List (Bytes × F64)}

theorem sublist (selected : Selected z entries) (sub : entries'.Sublist entries) : Selected z entries' where
  once := selected.once.sublist (sub.map Prod.fst)
  scores e mem := selected.scores e (sub.subset mem)
  nonNaN e mem := selected.nonNaN e (sub.subset mem)
  short e mem := selected.short e (sub.subset mem)

theorem perm (selected : Selected z entries) (same : entries'.Perm entries) : Selected z entries' where
  once := (same.map Prod.fst).nodup_iff.2 selected.once
  scores e mem := selected.scores e (same.subset mem)
  nonNaN e mem := selected.nonNaN e (same.subset mem)
  short e mem := selected.short e (same.subset mem)

theorem all (rep : d.Rep z l) : Selected z (l.map fun e => (e.2, e.1)) := by
  have pairs := rep.toPairsSorted_eq
  refine ⟨pairs ▸ rep.agrees.once, pairs ▸ rep.agrees.pairs, fun e mem => ?_, fun e mem => ?_⟩
  · obtain ⟨x, there, rfl⟩ := List.mem_map.1 mem
    exact rep.nonNaN x there
  · obtain ⟨x, there, rfl⟩ := List.mem_map.1 mem
    exact short_of_rep rep x there

theorem ranked (rep : d.Rep z l) (rev : Bool) : Selected z (ranked rev l) := by
  cases rev with
  | false => exact all rep
  | true => exact (all rep).perm (List.reverse_perm _)

theorem rangeByScore (rep : d.Rep z l) (min max : F64 × Bool) (rev : Bool) (offset : Nat) (count : Option Nat) :
    Selected z (d.rangeByScore min max rev offset count) := by
  have filtered := (all rep).sublist (List.filter_sublist (p := fun e => withinScores min max e.2))
  rw [rangeByScore_eq rep]
  refine Selected.sublist ?_ (sublist_page _ _ _)
  cases rev with
  | false => exact filtered
  | true => exact filtered.perm (List.reverse_perm _)

/-- Members of the set with the scores that are looked up. -/
theorem lookedUp (rep : d.Rep z l) {members : List Bytes} (once : members.Nodup)
    (there : ∀ m ∈ members, m ∈ l.map Prod.snd) : Selected z (members.map fun m => (m, (d.score m).getD ⟨0⟩)) := by
  refine ⟨?_, fun e mem => ?_, fun e mem => ?_, fun e mem => ?_⟩
  · rw [List.map_map]
    exact (List.map_id members).symm ▸ once
  · obtain ⟨m, isMember, rfl⟩ := List.mem_map.1 mem
    obtain ⟨x, looked, same, -⟩ := score_of_mem rep (there m isMember)
    rw [looked]
    exact same
  · obtain ⟨m, isMember, rfl⟩ := List.mem_map.1 mem
    obtain ⟨x, looked, -, nonNaN⟩ := score_of_mem rep (there m isMember)
    rw [looked]
    exact nonNaN
  · obtain ⟨m, isMember, rfl⟩ := List.mem_map.1 mem
    obtain ⟨e, inSet, rfl⟩ := List.mem_map.1 (there m isMember)
    exact short_of_rep rep e inSet

end Selected

/-! ## Insertions -/

/-- What is inserted into a sorted set, pair by pair. -/
theorem insertAll_rep (rep : d.Rep z l) {entries : List (Bytes × F64)} (nonNaN : ∀ e ∈ entries, e.2.isNaN = false)
    (short : ∀ e ∈ entries, e.1.length < 2 ^ 32) :
    ∃ d' l', d.insertAll thr entries = some d' ∧ d'.Rep (z.insertAll entries) l' := by
  induction entries generalizing d z l with
  | nil => exact ⟨d, l, rfl, rep⟩
  | cons e es ih =>
    obtain ⟨d₁, l₁, run, rep₁⟩ := rep.insert thr (nonNaN e (by simp)) (short e (by simp))
    obtain ⟨d', l', rest, rep'⟩ := ih rep₁ (fun x mem => nonNaN x (by simp [mem])) fun x mem => short x (by simp [mem])
    exact ⟨d', l', by simp [ZSetData.insertAll, run, rest], rep'⟩

/-- Insertions of other members leave a score as it is. -/
theorem insertAll_of_notMem {entries : List (Bytes × F64)} {m : Bytes} (notMem : m ∉ entries.map Prod.fst) (z : ZMap) :
    z.insertAll entries m = z m := by
  induction entries generalizing z with
  | nil => rfl
  | cons e es ih =>
    rw [List.map_cons, List.mem_cons, not_or] at notMem
    have kept := ih notMem.2 (Function.update z e.1 (some e.2))
    rw [Function.update_of_ne notMem.1] at kept
    exact kept

theorem insertAll_of_mem {entries : List (Bytes × F64)} (once : (entries.map Prod.fst).Nodup) {e : Bytes × F64}
    (mem : e ∈ entries) (z : ZMap) : z.insertAll entries e.1 = some e.2 := by
  induction entries generalizing z with
  | nil => cases mem
  | cons x es ih =>
    rw [List.map_cons, List.nodup_cons] at once
    cases mem with
    | head =>
      have kept := insertAll_of_notMem once.1 (Function.update z e.1 (some e.2))
      rw [Function.update_self] at kept
      exact kept
    | tail _ mem => exact ih once.2 mem _

/-- What a set of the entries has for a member. -/
theorem Selected.insertAll {entries : List (Bytes × F64)} (selected : Selected z entries) (m : Bytes) :
    SameScore (ZMap.insertAll (fun _ => none) entries m) (if m ∈ entries.map Prod.fst then z m else none) := by
  by_cases mem : m ∈ entries.map Prod.fst
  · rw [if_pos mem]
    obtain ⟨e, there, rfl⟩ := List.mem_map.1 mem
    rw [insertAll_of_mem selected.once there]
    exact selected.scores e there
  · rw [if_neg mem, insertAll_of_notMem mem]
    trivial

/-! ## Stored ranges -/

/-- The entries of a query by rank or by score whose bounds are accepted. -/
inductive Selects (env : Env) (d : ZSetData) (c : ZRangeCall) : List (Bytes × F64) → Prop
  | rank {i j : Int64} {entries : List (Bytes × F64)} : c.kind = .rank → Decimal.parseI64 c.first = some i →
    Decimal.parseI64 c.second = some j → d.rangeByRank i j c.options.rev = some entries → Selects env d c entries
  | score {min max : F64 × Bool} : c.kind = .score → parseScoreBound env c.first = .ok min →
    parseScoreBound env c.second = .ok max →
    Selects env d c (d.rangeByScore min max c.options.rev c.options.offset c.options.count)

/-- The two calls have the same texts and the same options. -/
structure SameRange (c : ZRangeCall) (c' : StoreCall) : Prop where
  source : c'.src = c.key
  first : c'.start = c.first
  second : c'.stop = c.second
  kind : c.options.kind = if c'.options.byscore then some .score else if c'.options.bylex then some .lex else none
  rev : c'.options.rev = c.options.rev
  offset : c'.options.offset = c.options.offset
  count : c'.options.count = c.options.count

theorem i64OfStr_eq_ok {t : String} {n : Int64} : i64OfStr t = .ok n ↔ Decimal.parseI64 t = some n := by
  unfold i64OfStr
  cases Decimal.parseI64 t <;> simp

theorem rankOfStr_eq_ok {t : String} {n : Int64} : rankOfStr t = .ok n ↔ Decimal.parseI64 t = some n := by
  unfold rankOfStr
  cases Decimal.parseI64 t <;> simp

namespace Selects

variable {c : ZRangeCall} {c' : StoreCall} {entries : List (Bytes × F64)}

/-- What ZRANGE lists by rank or score is a selection. -/
theorem of_accepted {out : List Resp} (notLex : c.kind ≠ .lex) (accepted : zrangeReply env ord c d = some (.ok out)) :
    ∃ entries, Selects env d c entries := by
  unfold zrangeReply at accepted
  cases kind : c.kind with
  | rank =>
    rw [kind] at accepted
    dsimp only at accepted
    cases first : i64OfStr c.first with
    | error e => simp [first] at accepted
    | ok i =>
      cases second : i64OfStr c.second with
      | error e => simp [first, second] at accepted
      | ok j =>
        rw [first, second] at accepted
        obtain ⟨entries, ranges, -⟩ := Option.map_eq_some_iff.1 accepted
        exact ⟨entries, .rank kind (i64OfStr_eq_ok.1 first) (i64OfStr_eq_ok.1 second) ranges⟩
  | score =>
    rw [kind] at accepted
    obtain ⟨min, minBound, accepted⟩ := exists_of_bind_ok (Option.some.inj accepted)
    obtain ⟨max, maxBound, -⟩ := exists_of_bind_ok accepted
    exact ⟨_, .score kind minBound maxBound⟩
  | lex => exact absurd kind notLex

theorem reply (selects : Selects env d c entries) (ord : ScoreOrder) :
    zrangeReply env ord c d = some (.ok (formatZrangeResult env entries c.options.withscores)) := by
  cases selects with
  | rank kind first second ranges =>
    rw [zrangeReply, kind]
    dsimp only
    rw [i64OfStr_eq_ok.2 first, i64OfStr_eq_ok.2 second]
    dsimp only
    rw [ranges]
    rfl
  | score kind minBound maxBound => exact zrangeReply_score kind minBound maxBound d

theorem selected (selects : Selects env d c entries) (rep : d.Rep z l) : Selected z entries := by
  cases selects with
  | rank kind first second ranges =>
    rw [rangeByRank_eq rep] at ranges
    obtain rfl := Option.some.inj ranges
    exact (Selected.ranked rep _).sublist (sublist_clampedRange _ _ _)
  | score kind minBound maxBound => exact Selected.rangeByScore rep _ _ _ _ _

/-- With the scores the same entries are listed. -/
theorem withscores (selects : Selects env d c entries) :
    Selects env d { c with options := { c.options with withscores := true } } entries := by
  cases selects with
  | rank kind first second ranges => exact .rank kind first second ranges
  | score kind minBound maxBound =>
    exact @score env d { c with options := { c.options with withscores := true } } _ _ kind minBound maxBound

theorem stored (selects : Selects env d c entries) (same : SameRange c c')
    (kind : c.kind = if c'.options.byscore then .score else if c'.options.bylex then .lex else .rank) (ord : ScoreOrder) :
    storeEntries env ord c' d = some (.ok entries) := by
  unfold storeEntries
  cases selects with
  | rank isRank first second ranges =>
    have notScore : c'.options.byscore = false := by
      by_contra score
      rw [Bool.not_eq_false] at score
      rw [isRank, score] at kind
      cases kind
    have notLex : c'.options.bylex = false := by
      by_contra lex
      rw [Bool.not_eq_false] at lex
      rw [isRank, notScore, lex] at kind
      cases kind
    rw [notScore, notLex, same.first, same.second, rankOfStr_eq_ok.2 first, rankOfStr_eq_ok.2 second, same.rev]
    dsimp only
    rw [ranges]
    rfl
  | score isScore minBound maxBound =>
    have score : c'.options.byscore = true := by
      by_contra other
      rw [Bool.not_eq_true] at other
      rw [isScore, other] at kind
      cases lex : c'.options.bylex <;> simp [lex] at kind
    rw [score, same.first, same.second, minBound, maxBound, same.rev, same.offset, same.count]
    rfl

end Selects

theorem zrangeCall_kind {c : ZRangeCall} (parsed : zrangeCall env args = .ok c) :
    c.kind = c.options.kind.getD (ambiguousKind env c.first c.second) := by
  unfold zrangeCall at parsed
  obtain ⟨key, -, parsed⟩ := exists_of_bind_ok (of_guard parsed)
  obtain ⟨first, -, parsed⟩ := exists_of_bind_ok parsed
  obtain ⟨second, -, parsed⟩ := exists_of_bind_ok parsed
  obtain ⟨o, -, parsed⟩ := exists_of_bind_ok parsed
  dsimp only at parsed
  obtain rfl := eq_of_guard parsed
  rfl

/-- A number is not one of the texts that stand for an end. -/
theorem not_end_of_rank {t : String} {n : Int64} (parsed : rankOfStr t = .ok n) : t ≠ "+" ∧ t ≠ "-" := by
  have number := rankOfStr_eq_ok.1 parsed
  constructor
  · rintro rfl
    have fails : Decimal.parseI64 "+" = none := by decide +kernel
    rw [fails] at number
    cases number
  · rintro rfl
    have fails : Decimal.parseI64 "-" = none := by decide +kernel
    rw [fails] at number
    cases number

/-- Where ZRANGESTORE accepts the bounds, ZRANGE takes them for bounds of the same kind. -/
theorem kind_of_stored {c : ZRangeCall} {c' : StoreCall} {entries : List (Bytes × F64)}
    (parsed : zrangeCall env args = .ok c) (same : SameRange c c') (run : storeEntries env ord c' d = some (.ok entries)) :
    c.kind = if c'.options.byscore then .score else if c'.options.bylex then .lex else .rank := by
  rw [zrangeCall_kind parsed, same.kind]
  cases score : c'.options.byscore with
  | true => rfl
  | false =>
    cases lex : c'.options.bylex with
    | true => rfl
    | false =>
      rw [storeEntries, score, lex, same.first, same.second] at run
      cases first : rankOfStr c.first with
      | error e => simp [first] at run
      | ok i =>
        cases second : rankOfStr c.second with
        | error e => simp [first, second] at run
        | ok j =>
          obtain ⟨notPlus, notMinus⟩ := not_end_of_rank first
          obtain ⟨notPlus', notMinus'⟩ := not_end_of_rank second
          simp [ambiguousKind, notPlus, notMinus, notPlus', notMinus']

variable {db : ShardedDatabase}

/-- ZRANGESTORE, once its arguments are read. -/
theorem cmdZrangestore_eq {c : StoreCall} (parsed : zrangestoreCall args = .ok c)
    (holds : SetAt now (db.shardFor c.src) c.src d z l) : cmdZrangestore env thr ord now args db =
      match storeEntries env ord c d with
      | none => (db, none)
      | some (.error e) => (db, some (.error e))
      | some (.ok entries) => match ZSetData.insertAll thr entries .new with
        | none => (db, none)
        | some z => ((db.writeFor c.dst fun s => (s.insert c.dst (.new (.zset z)), ())).1,
            some (.ok (.integer (.ofNat z.len)))) := by
  obtain ⟨⟨v, expiry, lru⟩, found, isZset⟩ := holds.found
  obtain rfl : v = .zset d := isZset
  have found : db.getRo now c.src = some ⟨.zset d, expiry, lru⟩ := found
  unfold cmdZrangestore
  rw [parsed]
  dsimp only
  generalize db.getRo now c.src = cell at found ⊢
  subst found
  rfl

/-- What ZRANGESTORE leaves under its destination. -/
theorem cmdZrangestore_stores {c : StoreCall} {entries : List (Bytes × F64)} (parsed : zrangestoreCall args = .ok c)
    (holds : SetAt now (db.shardFor c.src) c.src d z l) (run : storeEntries env ord c d = some (.ok entries))
    (selected : Selected z entries) : ∃ d' z' l',
      SetAt now ((cmdZrangestore env thr ord now args db).1.shardFor c.dst) c.dst d' z' l' ∧
      ∀ m, SameScore (z' m) (if m ∈ entries.map Prod.fst then z m else none) := by
  obtain ⟨d', l', inserts, rep'⟩ := @insertAll_rep thr _ _ _ ZSetData.new_rep entries selected.nonNaN selected.short
  refine ⟨d', _, l', ⟨⟨.new (.zset d'), ?_, rfl⟩, rep'⟩, selected.insertAll⟩
  rw [cmdZrangestore_eq parsed holds, run]
  dsimp only
  rw [inserts]
  dsimp only
  have after := (ShardedDatabase.Acts.writeFor (Database.acts_insert now c.dst (.new (.zset d'))) db).2 c.dst
  rw [if_pos rfl] at after
  exact after

/-- ZRANGESTORE leaves under its destination exactly the members that ZRANGE lists, with their scores. -/
def Stores (now : Nat) (z : ZMap) (listed : Option (Result Resp)) (db : ShardedDatabase) (dst : Bytes) : Prop :=
  ∃ (members : List Bytes) (d' : ZSetData) (z' : ZMap) (l' : List ZPair),
    listed = some (.ok (.array (some (members.map fun m => .bulkString (some m))))) ∧
    SetAt now (db.shardFor dst) dst d' z' l' ∧ ∀ m, SameScore (z' m) (if m ∈ members then z m else none)

theorem formatZrangeResult_plain (entries : List (Bytes × F64)) :
    formatZrangeResult env entries false = (entries.map Prod.fst).map fun m => .bulkString (some m) := by
  simp [formatZrangeResult, List.map_eq_flatMap, List.flatMap_assoc]

/-- By rank and by score ZRANGESTORE stores what ZRANGE lists. -/
theorem store_agrees {c : ZRangeCall} {c' : StoreCall} {r r' : Resp} (parsed : zrangeCall env args = .ok c)
    (parsed' : zrangestoreCall args' = .ok c') (same : SameRange c c') (plain : c.options.withscores = false)
    (notLex : c.options.kind ≠ some .lex) (holds : SetAt now (db.shardFor c.key) c.key d z l)
    (accepted : cmdZrange env ord now args (db.shardFor c.key) = some (.ok r))
    (accepted' : (cmdZrangestore env thr ord' now args' db).2 = some (.ok r')) :
    Stores now z (cmdZrange env ord now args (db.shardFor c.key)) (cmdZrangestore env thr ord' now args' db).1 c'.dst := by
  have holds' : SetAt now (db.shardFor c'.src) c'.src d z l := by
    rw [same.source]
    exact holds
  have kind : c.kind = if c'.options.byscore then .score else if c'.options.bylex then .lex else .rank := by
    rw [cmdZrangestore_eq parsed' holds'] at accepted'
    cases run : storeEntries env ord' c' d with
    | none => simp [run] at accepted'
    | some out =>
      cases out with
      | error e => simp [run] at accepted'
      | ok entries => exact kind_of_stored parsed same run
  have isEntries : c.kind ≠ .lex := by
    intro isLex
    rw [same.kind] at notLex
    rw [isLex] at kind
    cases score : c'.options.byscore <;> cases lex : c'.options.bylex <;> simp [score, lex] at kind notLex
  rw [cmdZrange_eq parsed, holds.read] at accepted ⊢
  obtain ⟨reply, replies, isOk⟩ := Option.map_eq_some_iff.1 accepted
  cases reply with
  | error e => cases isOk
  | ok out =>
    obtain ⟨entries, selects⟩ := Selects.of_accepted isEntries replies
    obtain ⟨d', z', l', stored, scores⟩ := @cmdZrangestore_stores env ord' thr _ _ _ _ _ _ _ _ parsed' holds'
      (selects.stored same kind ord') (selects.selected holds.rep)
    refine ⟨entries.map Prod.fst, d', z', l', ?_, stored, scores⟩
    rw [selects.reply, plain, formatZrangeResult_plain]
    rfl

/-- The page of members that ZRANGE BYLEX lists, the brackets of the bounds stripped so. -/
def lexPage (strip : String → String) (c : ZRangeCall) (l : List ZPair) : List Bytes :=
  page c.options.offset c.options.count
    (oriented c.options.rev (lexed (lexBound strip "-" c.first) (lexBound strip "+" c.second) l))

theorem nodup_lexed (rep : d.Rep z l) (min max : Option Bytes × Bool) : (lexed min max l).Nodup :=
  ((List.perm_insertionSort _ _).nodup_iff.2 rep.ordered.nodup).filter _

theorem mem_oriented {α : Type} {rev : Bool} {L : List α} {x : α} : x ∈ oriented rev L ↔ x ∈ L := by
  cases rev <;> simp [oriented]

theorem nodup_lexPage (rep : d.Rep z l) (strip : String → String) (c : ZRangeCall) : (lexPage strip c l).Nodup := by
  refine List.Nodup.sublist (sublist_page _ _ _) ?_
  unfold oriented
  split
  · exact List.nodup_reverse.2 (nodup_lexed rep _ _)
  · exact nodup_lexed rep _ _

theorem mem_lexed_of_mem_lexPage {strip : String → String} {c : ZRangeCall} {m : Bytes} (mem : m ∈ lexPage strip c l) :
    m ∈ lexed (lexBound strip "-" c.first) (lexBound strip "+" c.second) l :=
  mem_oriented.1 ((sublist_page _ _ _).subset mem)

theorem mem_of_mem_lexPage {strip : String → String} {c : ZRangeCall} {m : Bytes} (mem : m ∈ lexPage strip c l) :
    m ∈ l.map Prod.snd :=
  List.mem_map.2 (mem_lexed.1 (mem_lexed_of_mem_lexPage mem)).1

/-- So a page, with its scores, is a selection. -/
theorem Selected.lexPage (rep : d.Rep z l) (strip : String → String) (c : ZRangeCall) :
    Selected z ((lexPage strip c l).map fun m => (m, (d.score m).getD ⟨0⟩)) :=
  lookedUp rep (nodup_lexPage rep strip c) fun _ => mem_of_mem_lexPage

theorem rangeByLex_eq (rep : d.Rep z l) (ord : ScoreOrder) {c : ZRangeCall} {c' : StoreCall} (same : SameRange c c') :
    rangeByLex ord d c'.start c'.stop c'.options.rev c'.options.offset c'.options.count =
      (lexPage trimStartMatches c l).map fun m => (m, (d.score m).getD ⟨0⟩) := by
  have scores : (lexed (lexBound trimStartMatches "-" c.first) (lexBound trimStartMatches "+" c.second) l).filterMap
      (fun m => (d.score m).map fun x => (m, x)) =
        (lexed (lexBound trimStartMatches "-" c.first) (lexBound trimStartMatches "+" c.second) l).map
          fun m => (m, (d.score m).getD ⟨0⟩) := by
    rw [← List.filterMap_eq_map]
    refine List.filterMap_congr fun m mem => ?_
    obtain ⟨x, found, -⟩ := score_of_mem rep (List.mem_map.2 (mem_lexed.1 mem).1)
    simp [found]
  unfold rangeByLex SortedRanges.lexPage oriented
  rw [same.first, same.second, same.rev, same.offset, same.count, rangeByLexMembers_eq rep]
  dsimp only
  rw [scores, ← page_map]
  split <;> simp

theorem storeEntries_lex (rep : d.Rep z l) (ord : ScoreOrder) {c : ZRangeCall} {c' : StoreCall} (same : SameRange c c')
    (isLex : c.options.kind = some .lex) : storeEntries env ord c' d =
      some (.ok ((lexPage trimStartMatches c l).map fun m => (m, (d.score m).getD ⟨0⟩))) := by
  have kind := same.kind
  rw [isLex] at kind
  unfold storeEntries
  cases score : c'.options.byscore with
  | true => simp [score] at kind
  | false =>
    cases lex : c'.options.bylex with
    | false => simp [score, lex] at kind
    | true => rw [← rangeByLex_eq rep ord same]; rfl

/-- ZRANGE BYLEX, once its arguments are read. -/
theorem cmdZrange_lex {c : ZRangeCall} (parsed : zrangeCall env args = .ok c) (isLex : c.kind = .lex)
    (holds : SetAt now s c.key d z l) : cmdZrange env ord now args s =
      some (.ok (.array (some (lexReply env d (lexPage stripExclusive c l) c.options.withscores)))) := by
  rw [cmdZrange_eq parsed, holds.read, zrangeReply_lex isLex holds.rep]
  rfl

theorem isSome_of_sameScore {a b : Option F64} (same : SameScore a b) : a.isSome = b.isSome := by
  cases a <;> cases b <;> first | rfl | exact same.elim

theorem SetAt.members {d' : ZSetData} {z' : ZMap} {l' : List ZPair} (holds : SetAt now s key d z l)
    (holds' : SetAt now s key d' z' l') (m : Bytes) : (z m).isSome = (z' m).isSome := by
  obtain ⟨e, found, isZset⟩ := holds.found
  obtain ⟨e', found', isZset'⟩ := holds'.found
  obtain rfl := Option.some.inj (found.symm.trans found')
  obtain rfl := DataType.zset.inj (isZset.symm.trans isZset')
  have same := holds.rep.toPairsSorted_eq.symm.trans holds'.rep.toPairsSorted_eq
  have members := congrArg (List.map Prod.fst) same
  rw [List.map_map, List.map_map] at members
  have members : l.map Prod.snd = l'.map Prod.snd := members
  rw [Bool.eq_iff_iff, ← holds.rep.mem_iff, ← holds'.rep.mem_iff, members]

/-- The call stores what is listed if the pages with one bracket stripped and with all of them have the same members. -/
theorem stores_lex_iff {c : ZRangeCall} {c' : StoreCall} (parsed : zrangeCall env args = .ok c)
    (parsed' : zrangestoreCall args' = .ok c') (same : SameRange c c') (plain : c.options.withscores = false)
    (isLex : c.options.kind = some .lex) (holds : SetAt now (db.shardFor c.key) c.key d z l) :
    Stores now z (cmdZrange env ord now args (db.shardFor c.key)) (cmdZrangestore env thr ord' now args' db).1 c'.dst ↔
      ∀ m, m ∈ lexPage stripExclusive c l ↔ m ∈ lexPage trimStartMatches c l := by
  have holds' : SetAt now (db.shardFor c'.src) c'.src d z l := by
    rw [same.source]
    exact holds
  have kind : c.kind = .lex := by
    rw [zrangeCall_kind parsed, isLex]
    rfl
  obtain ⟨d', z', l', stored, scores⟩ := @cmdZrangestore_stores env ord' thr _ _ _ _ _ _ _ _ parsed' holds'
    (storeEntries_lex holds.rep ord' same isLex) (Selected.lexPage holds.rep _ c)
  simp only [List.map_map, Function.comp_def, List.map_id'] at scores
  rw [cmdZrange_lex parsed kind holds, plain, lexReply_plain]
  have isSome {M : List Bytes} (inSet : ∀ m ∈ M, m ∈ l.map Prod.snd) (m : Bytes) :
      (if m ∈ M then z m else none).isSome = true ↔ m ∈ M := by
    by_cases mem : m ∈ M
    · simp [mem, (holds.rep.mem_iff m).1 (inSet m mem)]
    · simp [mem]
  constructor
  · rintro ⟨members, d'', z'', l'', lists, stored', scores'⟩ m
    have lists := Option.some.inj (Resp.array.inj (Except.ok.inj (Option.some.inj lists)))
    obtain rfl := bulk_injective.list_map lists
    have isListed : (z'' m).isSome = true ↔ m ∈ lexPage stripExclusive c l := by
      rw [isSome_of_sameScore (scores' m), isSome fun _ => mem_of_mem_lexPage]
    have isStored : (z' m).isSome = true ↔ m ∈ lexPage trimStartMatches c l := by
      rw [isSome_of_sameScore (scores m), isSome fun _ => mem_of_mem_lexPage]
    rw [← isListed, ← isStored, stored.members stored' m]
  · intro sameMembers
    refine ⟨_, d', z', l', rfl, stored, fun m => ?_⟩
    simp only [sameMembers m]
    exact scores m

/-- The call ZRANGE key first second BYLEX, and more. -/
def bylexArgs (key : Bytes) (first second : String) (more : List String) : List Resp :=
  .bulkString (some (Utf8.asBytes "zrange")) :: .bulkString (some key) :: ListIndex.words (first :: second :: "BYLEX" :: more)

/-- Capital letters stay as they are. -/
def Env.Capitals (env : Env) : Prop := ∀ t : String, t.toList.all Char.isUpper = true → env.toUppercase t = t

theorem strArg_word (cmd w : String) : strArg cmd (some (.bulkString (some (Utf8.asBytes w)))) = .ok w := by
  simp [strArg, Resp.asStr]

theorem zrangeOptions_bylex (capitals : env.Capitals) :
    zrangeOptions env (ListIndex.words ["BYLEX"]) {} = .ok { kind := some .lex } := by
  have upper : env.toUppercase "BYLEX" = "BYLEX" := capitals _ (by decide +kernel)
  simp [ListIndex.words, zrangeOptions, strArg_word, upper, bind, Except.bind, pure, Except.pure]

theorem zrangeOptions_bylex_withscores (capitals : env.Capitals) :
    zrangeOptions env (ListIndex.words ["BYLEX", "WITHSCORES"]) {} = .ok { withscores := true, kind := some .lex } := by
  have upper : env.toUppercase "BYLEX" = "BYLEX" := capitals _ (by decide +kernel)
  have upper' : env.toUppercase "WITHSCORES" = "WITHSCORES" := capitals _ (by decide +kernel)
  simp [ListIndex.words, zrangeOptions, strArg_word, upper, upper', bind, Except.bind, pure, Except.pure]

theorem zrangeCall_bylexArgs {more : List String} {o : ZRangeOptions} (key : Bytes) (first second : String)
    (options : zrangeOptions env (ListIndex.words ("BYLEX" :: more)) {} = .ok o) (isLex : o.kind = some .lex) :
    zrangeCall env (bylexArgs key first second more) = .ok ⟨key, first, second, .lex, o⟩ := by
  have keyArg : bytesArg "zrange" (some (.bulkString (some key))) = .ok key := rfl
  have rest : (bylexArgs key first second more).drop 4 = ListIndex.words ("BYLEX" :: more) := rfl
  have four : ¬(bylexArgs key first second more).length < 4 := by simp [bylexArgs, ListIndex.words]
  unfold zrangeCall
  rw [rest, options]
  simp [bylexArgs, ListIndex.words, keyArg, strArg_word, isLex, bind, Except.bind, pure, Except.pure]

theorem zrangestoreCall_words (first second : String) :
    zrangestoreCall (ListIndex.words ["zrangestore", "d", "k", first, second, "BYLEX"]) =
      .ok ⟨[100], [107], first, second, { bylex := true }⟩ := by
  have dst : bytesArg "zrangestore" (some (.bulkString (some (Utf8.asBytes "d")))) = .ok [100] := rfl
  have src : bytesArg "zrangestore" (some (.bulkString (some (Utf8.asBytes "k")))) = .ok [107] := rfl
  have upper : toAsciiUppercase "BYLEX" = "BYLEX" := by decide +kernel
  unfold zrangestoreCall
  simp [ListIndex.words, dst, src, strArg_word, storeOptions, upper, bind, Except.bind, pure, Except.pure]

/-- One shard with a set of one member. -/
def singleDb (m : Bytes) : ShardedDatabase := ⟨[singleShard m], by simp⟩

theorem singleDb_holds {m : Bytes} (short : m.length < 2 ^ 32) :
    SetAt 0 ((singleDb m).shardFor [107]) [107] (single m) (Function.update (fun _ => none) m (some ⟨0⟩)) [(⟨0⟩, m)] := by
  have shard : (singleDb m).shardFor [107] = singleShard m := by simp [singleDb, ShardedDatabase.shardFor]
  rw [shard]
  exact singleShard_holds short

theorem lexPage_single (strip : String → String) (first second : String) (m : Bytes) :
    m ∈ lexPage strip ⟨[107], first, second, .lex, { kind := some .lex }⟩ [(⟨0⟩, m)] ↔
      withinLex (lexBound strip "-" first) (lexBound strip "+" second) m = true := by
  have whole : lexPage strip ⟨[107], first, second, .lex, { kind := some .lex }⟩ [(⟨0⟩, m)] =
      lexed (lexBound strip "-" first) (lexBound strip "+" second) [(⟨0⟩, m)] := rfl
  rw [whole, mem_lexed]
  simp

/-- ZRANGESTORE BYLEX strips all brackets in front of a bound, ZRANGE BYLEX one. -/
theorem store_lex_agrees_iff (capitals : env.Capitals) (first second : String) :
    (∀ (thr : ZSetThresholds) (ord ord' : ScoreOrder) (now : Nat) (db : ShardedDatabase) (args args' : List Resp)
      (c : ZRangeCall) (c' : StoreCall) (d : ZSetData) (z : ZMap) (l : List ZPair), zrangeCall env args = .ok c →
        zrangestoreCall args' = .ok c' → SameRange c c' → c.options.withscores = false → c.options.kind = some .lex →
        c.first = first → c.second = second → SetAt now (db.shardFor c.key) c.key d z l →
          Stores now z (cmdZrange env ord now args (db.shardFor c.key)) (cmdZrangestore env thr ord' now args' db).1
            c'.dst) ↔
      ∀ m : Bytes, m.length < 2 ^ 32 → SameReading first second m := by
  constructor
  · intro stores m short
    have parsed := zrangeCall_bylexArgs [107] first second (zrangeOptions_bylex capitals) rfl
    have parsed' := zrangestoreCall_words first second
    have same : SameRange ⟨[107], first, second, .lex, { kind := some .lex }⟩
        ⟨[100], [107], first, second, { bylex := true }⟩ := ⟨rfl, rfl, rfl, rfl, rfl, rfl, rfl⟩
    have stored := stores .default .asStored .asStored 0 (singleDb m) _ _ _ _ _ _ _ parsed parsed' same rfl rfl rfl rfl
      (singleDb_holds short)
    rw [stores_lex_iff parsed parsed' same rfl rfl (singleDb_holds short)] at stored
    have here := stored m
    rw [lexPage_single, lexPage_single] at here
    exact Bool.eq_iff_iff.2 here
  · rintro reading thr ord ord' now db args args' c c' d z l parsed parsed' same plain isLex rfl rfl holds
    rw [stores_lex_iff parsed parsed' same plain isLex holds]
    have pages : lexPage stripExclusive c l = lexPage trimStartMatches c l := by
      rw [lexPage, lexPage, lexed_of_sameReading fun e mem => reading e.2 (short_of_rep holds.rep e mem)]
    simp [pages]

/-! ## Scores in the reply -/

/-- The same call with WITHSCORES. -/
def ZRangeCall.withScores (c : ZRangeCall) : ZRangeCall := { c with options := { c.options with withscores := true } }

/-- The score of each member right after it. -/
def scoredReply (env : Env) (entries : List (Bytes × F64)) : List Resp :=
  entries.flatMap fun e => [.bulkString (some e.1), .bulkString (some (env.formatFloat e.2))]

/-- One reply lists members, the other inserts the score of each right after it. -/
def Inserts (env : Env) (z : ZMap) (members scores : Option (Result Resp)) : Prop :=
  ∃ entries : List (Bytes × F64), (∀ e ∈ entries, SameScore (some e.2) (z e.1)) ∧
    members = some (.ok (.array (some (entries.map fun e => .bulkString (some e.1))))) ∧
    scores = some (.ok (.array (some (scoredReply env entries))))

/-- Without scores the members are listed, pair by pair. -/
theorem formatZrangeResult_members (entries : List (Bytes × F64)) :
    formatZrangeResult env entries false = entries.map fun e => .bulkString (some e.1) := by
  rw [formatZrangeResult_plain, List.map_map]
  rfl

/-- WITHSCORES puts the score behind each member. -/
theorem Inserts.of_selected {entries : List (Bytes × F64)} (selected : Selected z entries) :
    Inserts env z (some (.ok (.array (some (formatZrangeResult env entries false)))))
      (some (.ok (.array (some (formatZrangeResult env entries true))))) :=
  ⟨entries, selected.scores, by rw [formatZrangeResult_members], rfl⟩

/-- By rank and by score ZRANGE inserts the scores. -/
theorem zrange_withscores {c : ZRangeCall} {r : Resp} (parsed : zrangeCall env args = .ok c)
    (parsed' : zrangeCall env args' = .ok c.withScores) (plain : c.options.withscores = false) (notLex : c.kind ≠ .lex)
    (holds : SetAt now s c.key d z l) (accepted : cmdZrange env ord now args s = some (.ok r)) :
    Inserts env z (cmdZrange env ord now args s) (cmdZrange env ord' now args' s) := by
  rw [cmdZrange_eq parsed, holds.read] at accepted
  obtain ⟨reply, replies, isOk⟩ := Option.map_eq_some_iff.1 accepted
  cases reply with
  | error e => cases isOk
  | ok out =>
    obtain ⟨entries, selects⟩ := Selects.of_accepted notLex replies
    have holds' : SetAt now s c.withScores.key d z l := holds
    rw [cmdZrange_eq parsed, holds.read, cmdZrange_eq parsed', holds'.read, selects.reply, plain]
    have scores : zrangeReply env ord' c.withScores d = some (.ok (formatZrangeResult env entries true)) :=
      selects.withscores.reply ord'
    rw [scores]
    exact Inserts.of_selected (selects.selected holds.rep)

theorem zrevrange_withscores {c : ZRevRangeCall} (parsed : zrevrangeCall args = .ok c)
    (parsed' : zrevrangeCall args' = .ok { c with withscores := true }) (plain : c.withscores = false)
    (holds : SetAt now s c.key d z l) :
    Inserts env z (cmdZrevrange env now args s) (cmdZrevrange env now args' s) := by
  have selected : Selected z (Positions.clampedRange c.start.toInt c.stop.toInt (ranked true l)) :=
    (Selected.ranked holds.rep true).sublist (sublist_clampedRange _ _ _)
  unfold cmdZrevrange
  rw [parsed, parsed']
  dsimp only
  rw [holds.read, holds.read, rangeByRank_eq holds.rep, plain]
  exact Inserts.of_selected selected

theorem rangeByScore_withscores {rev : Bool} {cmd : String} {c : ScoreCall} (parsed : scoreCall env rev cmd args = .ok c)
    (parsed' : scoreCall env rev cmd args' = .ok { c with options := { c.options with withscores := true } })
    (plain : c.options.withscores = false) (holds : SetAt now s c.key d z l) :
    Inserts env z (rangeByScore env rev cmd now args s) (rangeByScore env rev cmd now args' s) := by
  rw [rangeByScore_handler parsed, rangeByScore_handler parsed', holds.read, holds.read, plain]
  exact Inserts.of_selected (Selected.rangeByScore holds.rep _ _ _ _ _)

/-- Two replies with a score before or behind each member are the same only if every member is its own text. -/
theorem eq_member_of_pairs {entries : List (Bytes × F64)} {f : Bytes → Bytes}
    (same : ((entries.map Prod.fst).flatMap fun m => [Resp.bulkString (some (f m)), .bulkString (some m)]) =
      scoredReply env entries) : ∀ m ∈ entries.map Prod.fst, f m = m := by
  induction entries with
  | nil => simp
  | cons e es ih =>
    simp only [scoredReply, List.map_cons, List.flatMap_cons, List.cons_append, List.nil_append, List.cons.injEq,
      Resp.bulkString.injEq, Option.some.injEq] at same
    obtain ⟨first, -, rest⟩ := same
    intro m mem
    rw [List.map_cons, List.mem_cons] at mem
    rcases mem with rfl | mem
    · exact first
    · exact ih rest m mem

theorem inserts_lex_iff {c : ZRangeCall} (parsed : zrangeCall env args = .ok c)
    (parsed' : zrangeCall env args' = .ok c.withScores) (plain : c.options.withscores = false) (isLex : c.kind = .lex)
    (holds : SetAt now s c.key d z l) :
    Inserts env z (cmdZrange env ord now args s) (cmdZrange env ord' now args' s) ↔
      ∀ m ∈ lexPage stripExclusive c l, env.formatFloat ((d.score m).getD ⟨0⟩) = m := by
  have holds' : SetAt now s c.withScores.key d z l := holds
  have lists : cmdZrange env ord now args s =
      some (.ok (.array (some (lexReply env d (lexPage stripExclusive c l) c.options.withscores)))) :=
    cmdZrange_lex parsed isLex holds
  have scores : cmdZrange env ord' now args' s =
      some (.ok (.array (some ((lexPage stripExclusive c l).flatMap fun m =>
        [.bulkString (some (env.formatFloat ((d.score m).getD ⟨0⟩))), .bulkString (some m)])))) :=
    cmdZrange_lex parsed' isLex holds'
  rw [plain, lexReply_plain] at lists
  rw [lists, scores]
  constructor
  · rintro ⟨entries, -, members, inserted⟩
    have members := Option.some.inj (Resp.array.inj (Except.ok.inj (Option.some.inj members)))
    have inserted := Option.some.inj (Resp.array.inj (Except.ok.inj (Option.some.inj inserted)))
    have page : lexPage stripExclusive c l = entries.map Prod.fst := by
      refine bulk_injective.list_map ?_
      rw [members, List.map_map]
      rfl
    rw [page] at inserted ⊢
    exact eq_member_of_pairs inserted
  · intro own
    refine ⟨_, (Selected.lexPage holds.rep stripExclusive c).scores, by simp [Function.comp_def], ?_⟩
    have same : (lexPage stripExclusive c l).flatMap (fun m =>
        [Resp.bulkString (some (env.formatFloat ((d.score m).getD ⟨0⟩))), .bulkString (some m)]) =
          (lexPage stripExclusive c l).flatMap fun m =>
            [Resp.bulkString (some m), .bulkString (some (env.formatFloat ((d.score m).getD ⟨0⟩)))] := by
      refine List.flatMap_congr fun m mem => ?_
      rw [own m mem]
    rw [same, scoredReply, List.flatMap_map]

/-- ZRANGE BYLEX puts the score before its member. -/
theorem zrange_lex_withscores_iff (capitals : env.Capitals) (ord ord' : ScoreOrder) (holds : SetAt now s key d z l)
    (first second : String) :
    (∀ (args args' : List Resp) (c : ZRangeCall), zrangeCall env args = .ok c → zrangeCall env args' = .ok c.withScores →
      c.options.withscores = false → c.kind = .lex → c.key = key → c.first = first → c.second = second →
        Inserts env z (cmdZrange env ord now args s) (cmdZrange env ord' now args' s)) ↔
      ∀ e ∈ l, withinLex (lexBound stripExclusive "-" first) (lexBound stripExclusive "+" second) e.2 = true →
        env.formatFloat ((d.score e.2).getD ⟨0⟩) = e.2 := by
  constructor
  · intro inserts e mem within
    have parsed := zrangeCall_bylexArgs key first second (zrangeOptions_bylex capitals) rfl
    have parsed' := zrangeCall_bylexArgs key first second (zrangeOptions_bylex_withscores capitals) rfl
    have inserted := inserts _ _ _ parsed parsed' rfl rfl rfl rfl rfl
    have own := (inserts_lex_iff parsed parsed' rfl rfl holds).1 inserted
    have whole : lexPage stripExclusive ⟨key, first, second, .lex, { kind := some .lex }⟩ l =
        lexed (lexBound stripExclusive "-" first) (lexBound stripExclusive "+" second) l := rfl
    rw [whole] at own
    exact own e.2 (mem_lexed.2 ⟨⟨e, mem, rfl⟩, within⟩)
  · rintro own args args' c parsed parsed' plain isLex rfl rfl rfl
    rw [inserts_lex_iff parsed parsed' plain isLex holds]
    intro m mem
    obtain ⟨⟨e, there, rfl⟩, within⟩ := mem_lexed.1 (mem_lexed_of_mem_lexPage mem)
    exact own e there within

/-! ## All spellings -/

/-- When the spellings of a range query agree. -/
structure SpellingsAgree (env : Env) : Prop where
  /-- ZRANGE BYSCORE is ZRANGEBYSCORE. -/
  byscore : ∀ ord now s args args' c c', zrangeCall env args = .ok c →
    scoreCall env false "ZRANGEBYSCORE" args' = .ok c' → SameArgs args args' → c.kind = .score →
    c.options.rev = false → SameOptions c.options c'.options →
      cmdZrange env ord now args s = cmdZrangebyscore env now args' s
  /-- ZRANGE BYSCORE REV is ZREVRANGEBYSCORE if the bounds are equal, or both ways to read them list nothing. -/
  revscore : ∀ ord now s d z l args args' c c', zrangeCall env args = .ok c →
    scoreCall env true "ZREVRANGEBYSCORE" args' = .ok c' → SameArgs args args' → c.kind = .score →
    c.options.rev = true → SameOptions c.options c'.options → SetAt now s c.key d z l →
      (cmdZrange env ord now args s = cmdZrevrangebyscore env now args' s ↔
        c'.max.1.key = c'.min.1.key ∨ c.options.count = some 0 ∨
          (countScores c'.max c'.min l ≤ c.options.offset ∧ countScores c'.min c'.max l ≤ c.options.offset))
  /-- ZRANGE BYLEX is ZRANGEBYLEX if LIMIT leaves out nothing. -/
  bylex : ∀ ord ord' now s d z l args args' c c', zrangeCall env args = .ok c → zrangebylexCall args' = .ok c' →
    SameArgs args args' → c.kind = .lex → c.options.rev = false → c.options.withscores = false →
    SetAt now s c.key d z l →
      (cmdZrange env ord now args s = cmdZrangebylex ord' now args' s ↔
        countLex c'.min c'.max l = 0 ∨
          c.options.offset = 0 ∧ ∀ n, c.options.count = some n → countLex c'.min c'.max l ≤ n)
  /-- ZCOUNT counts what ZRANGEBYSCORE lists. -/
  zcount : ∀ now s d z l args args' c c', zcountCall env args = .ok c →
    scoreCall env false "ZRANGEBYSCORE" args' = .ok c' → SameArgs args args' → c'.options.withscores = false →
    c'.options.offset = 0 → c'.options.count = none → SetAt now s c.key d z l →
      ∃ items, cmdZrangebyscore env now args' s = some (.ok (.array (some items))) ∧
        cmdZcount env now args s = some (.ok (.integer (.ofNat items.length)))
  /-- ZLEXCOUNT counts what ZRANGEBYLEX lists if a second bracket in front of a bound makes no difference. -/
  zlexcount : ∀ first second,
    (∀ ord ord' now s args args' c c' d z l, zlexcountCall args = .ok c → zrangebylexCall args' = .ok c' →
      SameArgs args args' → Given args 1 c.key first second → SetAt now s c.key d z l →
        ∃ items, cmdZrangebylex ord' now args' s = some (.ok (.array (some items))) ∧
          cmdZlexcount ord now args s = some (.ok (.integer (.ofNat items.length)))) ↔
      ∀ m : Bytes, m.length < 2 ^ 32 → SameReading first second m
  /-- ZRANGESTORE by rank and by score stores what ZRANGE lists. -/
  store : ∀ thr ord ord' now db d z l args args' c c' r r', zrangeCall env args = .ok c →
    zrangestoreCall args' = .ok c' → SameRange c c' → c.options.withscores = false → c.options.kind ≠ some .lex →
    SetAt now (db.shardFor c.key) c.key d z l → cmdZrange env ord now args (db.shardFor c.key) = some (.ok r) →
    (cmdZrangestore env thr ord' now args' db).2 = some (.ok r') →
      Stores now z (cmdZrange env ord now args (db.shardFor c.key)) (cmdZrangestore env thr ord' now args' db).1 c'.dst
  /-- ZRANGESTORE BYLEX does so if a second bracket makes no difference. -/
  storeLex : ∀ first second,
    (∀ thr ord ord' now db args args' c c' d z l, zrangeCall env args = .ok c → zrangestoreCall args' = .ok c' →
      SameRange c c' → c.options.withscores = false → c.options.kind = some .lex → c.first = first →
      c.second = second → SetAt now (db.shardFor c.key) c.key d z l →
        Stores now z (cmdZrange env ord now args (db.shardFor c.key)) (cmdZrangestore env thr ord' now args' db).1
          c'.dst) ↔
      ∀ m : Bytes, m.length < 2 ^ 32 → SameReading first second m
  /-- WITHSCORES inserts the scores: ZRANGE by rank and by score. -/
  zrangeScores : ∀ ord ord' now s d z l args args' c r, zrangeCall env args = .ok c →
    zrangeCall env args' = .ok c.withScores → c.options.withscores = false → c.kind ≠ .lex → SetAt now s c.key d z l →
    cmdZrange env ord now args s = some (.ok r) →
      Inserts env z (cmdZrange env ord now args s) (cmdZrange env ord' now args' s)
  /-- ZREVRANGE. -/
  zrevrangeScores : ∀ now s d z l args args' c, zrevrangeCall args = .ok c →
    zrevrangeCall args' = .ok { c with withscores := true } → c.withscores = false → SetAt now s c.key d z l →
      Inserts env z (cmdZrevrange env now args s) (cmdZrevrange env now args' s)
  /-- ZRANGEBYSCORE and ZREVRANGEBYSCORE. -/
  rangeByScoreScores : ∀ rev cmd now s d z l args args' c, scoreCall env rev cmd args = .ok c →
    scoreCall env rev cmd args' = .ok { c with options := { c.options with withscores := true } } →
    c.options.withscores = false → SetAt now s c.key d z l →
      Inserts env z (rangeByScore env rev cmd now args s) (rangeByScore env rev cmd now args' s)
  /-- ZRANGE BYLEX, if the members within the bounds are the texts of their scores. -/
  lexScores : ∀ ord ord' now s key d z l first second, SetAt now s key d z l →
    ((∀ args args' c, zrangeCall env args = .ok c → zrangeCall env args' = .ok c.withScores →
      c.options.withscores = false → c.kind = .lex → c.key = key → c.first = first → c.second = second →
        Inserts env z (cmdZrange env ord now args s) (cmdZrange env ord' now args' s)) ↔
      ∀ e ∈ l, withinLex (lexBound stripExclusive "-" first) (lexBound stripExclusive "+" second) e.2 = true →
        env.formatFloat ((d.score e.2).getD ⟨0⟩) = e.2)

/-- **The spellings of a range query agree, but for four differences: ZRANGE BYSCORE REV takes its first bound for the
minimum, ZRANGEBYLEX does not look at LIMIT, ZLEXCOUNT and ZRANGESTORE BYLEX strip all brackets in front of a bound, and
ZRANGE BYLEX WITHSCORES puts a score before its member.** -/
theorem spellings_agree_iff (env : Env) (capitals : env.Capitals) : SpellingsAgree env where
  byscore _ _ _ _ _ _ _ := byscore_agrees
  revscore _ _ _ _ _ _ _ _ _ _ := revscore_agrees_iff
  bylex _ _ _ _ _ _ _ _ _ _ _ := bylex_agrees_iff
  zcount _ _ _ _ _ _ _ _ _ := zcount_agrees
  zlexcount := zlexcount_agrees_iff
  store _ _ _ _ _ _ _ _ _ _ _ _ _ _ := store_agrees
  storeLex := store_lex_agrees_iff capitals
  zrangeScores _ _ _ _ _ _ _ _ _ _ _ := zrange_withscores
  zrevrangeScores _ _ _ _ _ _ _ _ := zrevrange_withscores
  rangeByScoreScores _ _ _ _ _ _ _ _ _ _ := rangeByScore_withscores
  lexScores ord ord' _ _ _ _ _ _ first second holds := zrange_lex_withscores_iff capitals ord ord' holds first second

open ListIndex (words)

theorem abShard_holds : SetAt 0 abShard [107] abSet abScores ab := ⟨⟨abEntry, rfl, rfl⟩, ab_rep⟩

theorem zrangebylexCall_all : zrangebylexCall (words ["zrangebylex", "k", "-", "+"]) =
    .ok ⟨[107], lexBound stripExclusive "-" "-", lexBound stripExclusive "+" "+"⟩ := lexCall_words "-" "+" rfl

/-- All members by name: listed by both commands, stored, and counted. -/
theorem spellings_agree_all :
    cmdZrange plainEnv .asStored 0 (words ["ZRANGE", "k", "-", "+", "BYLEX"]) abShard =
        cmdZrangebylex .asStored 0 (words ["zrangebylex", "k", "-", "+"]) abShard ∧
      Stores 0 abScores (cmdZrange plainEnv .asStored 0 (words ["ZRANGE", "k", "-", "+", "BYLEX"]) abShard)
        (cmdZrangestore plainEnv .default .asStored 0 (words ["zrangestore", "d", "k", "-", "+", "BYLEX"])
          ⟨[abShard], by simp⟩).1 [100] := by
  have claim := spellings_agree_iff plainEnv fun _ _ => rfl
  have parsed : zrangeCall plainEnv (words ["ZRANGE", "k", "-", "+", "BYLEX"]) =
      .ok ⟨[107], "-", "+", .lex, { kind := some .lex }⟩ := by decide +kernel
  have reading (m : Bytes) : SameReading "-" "+" m := sameReading_of_stripped (by decide +kernel) (by decide +kernel) m
  refine ⟨?_, ?_⟩
  · refine (claim.bylex _ _ _ _ _ _ _ _ _ _ _ parsed zrangebylexCall_all ⟨rfl, rfl, rfl⟩ rfl rfl rfl abShard_holds).2 ?_
    exact .inr ⟨rfl, nofun⟩
  · have shard : (⟨[abShard], by simp⟩ : ShardedDatabase).shardFor [107] = abShard := by
      simp [ShardedDatabase.shardFor]
    have holds := abShard_holds
    rw [← shard] at holds
    have stored := (claim.storeLex "-" "+").2 (fun m _ => reading m) .default .asStored .asStored 0 _ _ _ _ _ _ _ _ parsed
      (zrangestoreCall_words "-" "+") ⟨rfl, rfl, rfl, rfl, rfl, rfl, rfl⟩ rfl rfl rfl rfl holds
    rw [shard] at stored
    exact stored

deriving instance DecidableEq for ScoreOptions, ScoreCall, LexCall

/-- ZRANGE k +inf -inf BYSCORE REV is not ZREVRANGEBYSCORE k +inf -inf, and ZRANGE k - + BYLEX LIMIT 0 1 is not
ZRANGEBYLEX k - + LIMIT 0 1. -/
theorem spellings_differ :
    cmdZrange plainEnv .asStored 0 (words ["ZRANGE", "k", "+inf", "-inf", "BYSCORE", "REV"]) abShard ≠
        cmdZrevrangebyscore plainEnv 0 (words ["ZREVRANGEBYSCORE", "k", "+inf", "-inf"]) abShard ∧
      cmdZrange plainEnv .asStored 0 (words ["ZRANGE", "k", "-", "+", "BYLEX", "LIMIT", "0", "1"]) abShard ≠
        cmdZrangebylex .asStored 0 (words ["zrangebylex", "k", "-", "+", "LIMIT", "0", "1"]) abShard := by
  have score : zrangeCall plainEnv (words ["ZRANGE", "k", "+inf", "-inf", "BYSCORE", "REV"]) =
      .ok ⟨[107], "+inf", "-inf", .score, { rev := true, kind := some .score }⟩ := by decide +kernel
  have score' : scoreCall plainEnv true "ZREVRANGEBYSCORE" (words ["ZREVRANGEBYSCORE", "k", "+inf", "-inf"]) =
      .ok ⟨[107], (⟨0xFFF0000000000000⟩, false), (⟨0x7FF0000000000000⟩, false), {}⟩ := by decide +kernel
  have lex : zrangeCall plainEnv (words ["ZRANGE", "k", "-", "+", "BYLEX", "LIMIT", "0", "1"]) =
      .ok ⟨[107], "-", "+", .lex, { kind := some .lex, count := some 1 }⟩ := by decide +kernel
  have lex' : zrangebylexCall (words ["zrangebylex", "k", "-", "+", "LIMIT", "0", "1"]) =
      .ok ⟨[107], (none, false), (none, false)⟩ := by decide +kernel
  constructor
  · intro agrees
    have only := (revscore_agrees_iff score score' ⟨rfl, rfl, rfl⟩ rfl rfl ⟨rfl, rfl, rfl⟩ abShard_holds).1 agrees
    revert only
    decide
  · intro agrees
    have only := (bylex_agrees_iff lex lex' ⟨rfl, rfl, rfl⟩ rfl rfl rfl abShard_holds).1 agrees
    rcases only with nothing | ⟨-, enough⟩
    · exact absurd nothing (by decide)
    · exact absurd (enough 1 rfl) (by decide)

end NexradeCache.SortedRanges
