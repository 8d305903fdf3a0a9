import NexradeCache.Command.ListIndex
import NexradeCache.Data.ZSetRefinement

/-!
# Range queries of sorted sets (`nexrade-core/src/zset_data.rs`, `command/zset.rs`)

The commands that ask for a range of a sorted set by rank, by score or by member, with `none` for a panic. Most are on
the shard of their key; ZRANGESTORE reads the shard of the source and then writes that of the destination.
`rank_range_iff` says where ranks are right: `normalize_index` clamps an index before the first member to 0.

The parser of floats, `to_uppercase` and the text of a float are parameters.
-/

namespace NexradeCache

/-- `NotFloat`, by its text. -/
def NexradeError.notFloat : NexradeError := .generic "value is not a valid float"

/-! ## Queries -/

namespace ZSetData

open Collections (normalizeIdx leF64 ltF64)

/-- The same as that of lists. -/
def normalizeIndex : Int64 → Nat → Nat := normalizeIdx

/-- `range_by_rank`: indices from either end. -/
def rangeByRank (start stop : Int64) (rev : Bool) (d : ZSetData) : Option (List (Bytes × F64)) :=
  let start := min (normalizeIndex start d.len) d.len
  let stop := normalizeIndex stop d.len
  let entries := if rev then d.toPairsSorted.reverse else d.toPairsSorted
  if entries.length ≤ start ∨ stop < start then some []
  else Bytes.slice entries start (min stop (entries.length - 1) + 1)

/-- `skip` and `take`; without a count all is taken. -/
def page {α : Type} (offset : Nat) (count : Option Nat) (l : List α) : List α :=
  match count with
  | some n => (l.drop offset).take n
  | none => l.drop offset

/-- A bound and whether it is exclusive. -/
def withinScores (min max : F64 × Bool) (score : F64) : Bool :=
  (if min.2 then ltF64 min.1 score else leF64 min.1 score) && (if max.2 then ltF64 score max.1 else leF64 score max.1)

/-- `range_by_score`, with offset and count. -/
def rangeByScore (min max : F64 × Bool) (rev : Bool) (offset : Nat) (count : Option Nat) (d : ZSetData) :
    List (Bytes × F64) :=
  let entries := d.toPairsSorted.filter fun e => withinScores min max e.2
  page offset count (if rev then entries.reverse else entries)

/-- Member keys only, in any order. -/
def memberKeys (ord : ScoreOrder) (d : ZSetData) : List Bytes := (d.iterPairsRef ord).map Prod.fst

/-- Between two lexical bounds, each inclusive or not. -/
def withinLex (min max : Option Bytes × Bool) (m : Bytes) : Bool :=
  (min.1.all fun b => if min.2 then b < m else b ≤ m) && (max.1.all fun b => if max.2 then m < b else m ≤ b)

/-- The members within two lexical bounds, in their order. -/
def rangeByLexMembers (ord : ScoreOrder) (min max : Option Bytes × Bool) (d : ZSetData) : List Bytes :=
  ((d.memberKeys ord).insertionSort (· ≤ ·)).filter (withinLex min max)

/-- Members that are removed one by one. -/
def removeAll (thr : ZSetThresholds) : List Bytes → ZSetData → Option ZSetData
  | [], d => some d
  | m :: ms, d => do
    let (d, _) ← d.remove thr m
    removeAll thr ms d

/-- Members that are inserted one by one. -/
def insertAll (thr : ZSetThresholds) : List (Bytes × F64) → ZSetData → Option ZSetData
  | [], d => some d
  | e :: es, d => do
    let (d, _) ← d.insert thr e.1 e.2
    insertAll thr es d

end ZSetData

namespace SortedRanges

open ZSetData (page)

/-- The code outside. -/
structure Env where
  parseF64 : String → Option F64
  toUppercase : String → String
  formatFloat : F64 → Bytes

variable (env : Env)

/-! ## Bounds and options -/

/-- A score, with a bracket if it is exclusive. -/
def parseScoreBound (s : String) : Result (F64 × Bool) :=
  let (body, excl) : String × Bool :=
    match s.toList with
    | '(' :: rest => (.ofList rest, true)
    | '[' :: rest => (.ofList rest, false)
    | _ => (s, false)
  let v : Option F64 :=
    if body = "+inf" || body = "+INF" then some ⟨0x7FF0000000000000⟩
    else if body = "-inf" || body = "-INF" then some ⟨0xFFF0000000000000⟩
    else env.parseF64 body
  match v with
  | none => .error .notFloat
  | some v => if v.isNaN then .error .notFloat else .ok (v, excl)

/-- One bracket at most. -/
def stripExclusive (s : String) : String :=
  match s.toList with
  | '(' :: rest => .ofList rest
  | '[' :: rest => .ofList rest
  | _ => s

/-- `trim_start_matches(['[', '('])`: all of them. -/
def trimStartMatches (s : String) : String := .ofList (s.toList.dropWhile fun c => c = '[' || c = '(')

/-- A bound of members: none at the open end, otherwise the text without its bracket. -/
def lexBound (strip : String → String) (openEnd text : String) : Option Bytes × Bool :=
  (if text = openEnd then none else some (Utf8.asBytes (strip text)), text.toList.head? = some '(')

/-- By rank, by score or by name. -/
inductive ZRangeKind where
  | rank
  | score
  | lex
deriving DecidableEq

/-- LIMIT offset count, neither negative. -/
def limitArgs (cmd : String) (rest : List Resp) : Result (Nat × Nat) := do
  let off ← i64Arg cmd rest[0]?
  let cnt ← i64Arg cmd rest[1]?
  if off < 0 ∨ cnt < 0 then throw (.generic "LIMIT can't be negative")
  return (off.toInt.toNat, cnt.toInt.toNat)

/-- The options of ZRANGE. -/
structure ZRangeOptions where
  withscores : Bool := false
  rev : Bool := false
  kind : Option ZRangeKind := none
  offset : Nat := 0
  count : Option Nat := none
deriving DecidableEq

/-- They are read one by one; an unknown one is an error. -/
def zrangeOptions : (rest : List Resp) → ZRangeOptions → Result ZRangeOptions
  | [], o => return o
  | a :: rest, o => do
    let opt := env.toUppercase (← strArg "zrange" (some a))
    if opt = "WITHSCORES" then zrangeOptions rest { o with withscores := true }
    else if opt = "REV" then zrangeOptions rest { o with rev := true }
    else if opt = "BYSCORE" then zrangeOptions rest { o with kind := some .score }
    else if opt = "BYLEX" then zrangeOptions rest { o with kind := some .lex }
    else if opt = "LIMIT" then do
      let (off, cnt) ← limitArgs "zrange" rest
      match rest with
      | _ :: _ :: rest => zrangeOptions rest { o with offset := off, count := some cnt }
      | _ => throw (.wrongArity "zrange")
    else throw .syntaxError

/-- The options of ZRANGEBYSCORE and ZREVRANGEBYSCORE. -/
structure ScoreOptions where
  withscores : Bool := false
  offset : Nat := 0
  count : Option Nat := none

/-- The options of ZRANGEBYSCORE and its like. -/
def scoreOptions (cmd : String) : (rest : List Resp) → ScoreOptions → Result ScoreOptions
  | [], o => return o
  | a :: rest, o => do
    let opt := env.toUppercase (← strArg cmd (some a))
    if opt = "WITHSCORES" then scoreOptions cmd rest { o with withscores := true }
    else if opt = "LIMIT" then do
      let (off, cnt) ← limitArgs cmd rest
      match rest with
      | _ :: _ :: rest => scoreOptions cmd rest { o with offset := off, count := some cnt }
      | _ => throw (.wrongArity cmd)
    else throw .syntaxError

/-! ## Handlers that read -/

/-- What the handlers that read do with their key. -/
def readZset (now : Nat) (s : Database) (key : Bytes) (missing : Resp) (body : ZSetData → Option (Result Resp)) :
    Option (Result Resp) :=
  match s.getRo now key with
  | none => some (.ok missing)
  | some e => match e.value with
    | .zset z => body z
    | _ => some (.error .wrongType)

/-- The members, each followed by its score with WITHSCORES. -/
def formatZrangeResult (entries : List (Bytes × F64)) (withscores : Bool) : List Resp :=
  entries.flatMap fun e =>
    .bulkString (some e.1) :: if withscores then [.bulkString (some (env.formatFloat e.2))] else []

/-- A call of ZRANGE that has been read. -/
structure ZRangeCall where
  key : Bytes
  first : String
  second : String
  kind : ZRangeKind
  options : ZRangeOptions
deriving DecidableEq

/-- A `+` or `-` is no rank. -/
def ambiguousKind (first second : String) : ZRangeKind :=
  if first = "+" ∨ first = "-" ∨ second = "+" ∨ second = "-" then
    if (env.parseF64 (stripExclusive first)).isSome && (env.parseF64 (stripExclusive second)).isSome then .score else .lex
  else .rank

/-- ZRANGE, read off its arguments. -/
def zrangeCall (args : List Resp) : Result ZRangeCall := do
  if args.length < 4 then throw (.wrongArity "zrange")
  let key ← bytesArg "zrange" args[1]?
  let first ← strArg "zrange" args[2]?
  let second ← strArg "zrange" args[3]?
  let o ← zrangeOptions env (args.drop 4) {}
  let kind := o.kind.getD (ambiguousKind env first second)
  if kind = .rank ∧ o.count.isSome then
    throw (.generic "syntax error, LIMIT is only supported in combination with either BYSCORE or BYLEX")
  return ⟨key, first, second, kind, o⟩

/-- The reply for a page of members: here a score comes before its member. -/
def lexReply (z : ZSetData) (members : List Bytes) (withscores : Bool) : List Resp :=
  members.flatMap fun m =>
    (if withscores then [.bulkString (some (env.formatFloat ((z.score m).getD ⟨0⟩)))] else []) ++ [.bulkString (some m)]

/-- What ZRANGE lists of a sorted set. -/
def zrangeReply (ord : ScoreOrder) (c : ZRangeCall) (z : ZSetData) : Option (Result (List Resp)) :=
  match c.kind with
  | .rank => match i64OfStr c.first, i64OfStr c.second with
    | .ok start, .ok stop =>
      (z.rangeByRank start stop c.options.rev).map fun entries => .ok (formatZrangeResult env entries c.options.withscores)
    | .error e, _ => some (.error e)
    | _, .error e => some (.error e)
  | .score => some do
    let min ← parseScoreBound env c.first
    let max ← parseScoreBound env c.second
    return formatZrangeResult env (z.rangeByScore min max c.options.rev c.options.offset c.options.count) c.options.withscores
  | .lex =>
    let members := z.rangeByLexMembers ord (lexBound stripExclusive "-" c.first) (lexBound stripExclusive "+" c.second)
    let members := if c.options.rev then members.reverse else members
    some (.ok (lexReply env z (page c.options.offset c.options.count members) c.options.withscores))

/-- `cmd_zrange`. -/
def cmdZrange (ord : ScoreOrder) (now : Nat) (args : List Resp) (s : Database) : Option (Result Resp) :=
  match zrangeCall env args with
  | .error e => some (.error e)
  | .ok c => readZset now s c.key (.array (some [])) fun z =>
    (zrangeReply env ord c z).map fun r => r.map fun out => .array (some out)

/-- A call of ZREVRANGE that has been read. -/
structure ZRevRangeCall where
  key : Bytes
  start : Int64
  stop : Int64
  withscores : Bool
deriving DecidableEq

/-- ZREVRANGE, read off its arguments. -/
def zrevrangeCall (args : List Resp) : Result ZRevRangeCall := do
  if args.length < 4 then throw (.wrongArity "zrevrange")
  let key ← bytesArg "zrevrange" args[1]?
  let start ← i64Arg "zrevrange" args[2]?
  let stop ← i64Arg "zrevrange" args[3]?
  return ⟨key, start, stop, (args[4]?.bind Resp.asStr).any fun s => toAsciiUppercase s = "WITHSCORES"⟩

/-- `cmd_zrevrange`. -/
def cmdZrevrange (now : Nat) (args : List Resp) (s : Database) : Option (Result Resp) :=
  match zrevrangeCall args with
  | .error e => some (.error e)
  | .ok c => readZset now s c.key (.array (some [])) fun z =>
    (z.rangeByRank c.start c.stop true).map fun entries => .ok (.array (some (formatZrangeResult env entries c.withscores)))

/-- A call of ZRANGEBYSCORE or ZREVRANGEBYSCORE that has been read. -/
structure ScoreCall where
  key : Bytes
  min : F64 × Bool
  max : F64 × Bool
  options : ScoreOptions

/-- The bounds are given as max and min where `rev`. -/
def scoreCall (rev : Bool) (cmd : String) (args : List Resp) : Result ScoreCall := do
  if args.length < 4 then throw (.wrongArity cmd)
  let key ← bytesArg cmd.toLower args[1]?
  let min ← strArg cmd.toLower (if rev then args[3]? else args[2]?)
  let max ← strArg cmd.toLower (if rev then args[2]? else args[3]?)
  let min ← parseScoreBound env min
  let max ← parseScoreBound env max
  let o ← scoreOptions env cmd.toLower (args.drop 4) {}
  return ⟨key, min, max, o⟩

/-- Both of them; the bounds of the second come the other way round. -/
def rangeByScore (rev : Bool) (cmd : String) (now : Nat) (args : List Resp) (s : Database) : Option (Result Resp) :=
  match scoreCall env rev cmd args with
  | .error e => some (.error e)
  | .ok c => readZset now s c.key (.array (some [])) fun z =>
    some (.ok (.array (some (formatZrangeResult env
      (z.rangeByScore c.min c.max rev c.options.offset c.options.count) c.options.withscores))))

/-- `cmd_zrangebyscore`. -/
def cmdZrangebyscore : Nat → List Resp → Database → Option (Result Resp) := rangeByScore env false "ZRANGEBYSCORE"

/-- `cmd_zrevrangebyscore`. -/
def cmdZrevrangebyscore : Nat → List Resp → Database → Option (Result Resp) := rangeByScore env true "ZREVRANGEBYSCORE"

/-- A call of ZRANGEBYLEX or ZLEXCOUNT that has been read. -/
structure LexCall where
  key : Bytes
  min : Option Bytes × Bool
  max : Option Bytes × Bool

/-- Both of them. They differ in how they cut a bracket off a bound, and in their arity. -/
def lexCall (strip : String → String) (arity : List Resp → Bool) (cmd : String) (args : List Resp) : Result LexCall := do
  if !arity args then throw (.wrongArity cmd)
  let key ← bytesArg cmd args[1]?
  let min ← strArg cmd args[2]?
  let max ← strArg cmd args[3]?
  return ⟨key, lexBound strip "-" min, lexBound strip "+" max⟩

/-- What follows the bounds is not looked at. -/
def zrangebylexCall : List Resp → Result LexCall := lexCall stripExclusive (fun args => 4 ≤ args.length) "zrangebylex"

/-- `cmd_zrangebylex`. -/
def cmdZrangebylex (ord : ScoreOrder) (now : Nat) (args : List Resp) (s : Database) : Option (Result Resp) :=
  match zrangebylexCall args with
  | .error e => some (.error e)
  | .ok c => readZset now s c.key (.array (some [])) fun z =>
    some (.ok (.array (some ((z.rangeByLexMembers ord c.min c.max).map fun m => .bulkString (some m)))))

/-- A call of ZCOUNT that has been read. -/
structure CountCall where
  key : Bytes
  min : F64 × Bool
  max : F64 × Bool

/-- ZCOUNT, read off its arguments. -/
def zcountCall (args : List Resp) : Result CountCall := do
  if args.length ≠ 4 then throw (.wrongArity "zcount")
  let key ← bytesArg "zcount" args[1]?
  let min ← parseScoreBound env (← strArg "zcount" args[2]?)
  let max ← parseScoreBound env (← strArg "zcount" args[3]?)
  return ⟨key, min, max⟩

/-- `cmd_zcount`. -/
def cmdZcount (now : Nat) (args : List Resp) (s : Database) : Option (Result Resp) :=
  match zcountCall env args with
  | .error e => some (.error e)
  | .ok c => readZset now s c.key (.integer 0) fun z =>
    some (.ok (.integer (.ofNat (z.rangeByScore c.min c.max false 0 none).length)))

/-- ZLEXCOUNT cuts all brackets off a bound. -/
def zlexcountCall : List Resp → Result LexCall := lexCall trimStartMatches (fun args => args.length = 4) "zlexcount"

/-- `cmd_zlexcount`. -/
def cmdZlexcount (ord : ScoreOrder) (now : Nat) (args : List Resp) (s : Database) : Option (Result Resp) :=
  match zlexcountCall args with
  | .error e => some (.error e)
  | .ok c => readZset now s c.key (.integer 0) fun z =>
    some (.ok (.integer (.ofNat (z.rangeByLexMembers ord c.min c.max).length)))

/-! ## Handlers that write -/

/-- ZREMRANGEBYRANK, read off its arguments. -/
def zremrangebyrankCall (args : List Resp) : Result (Bytes × Int64 × Int64) := do
  if args.length ≠ 4 then throw (.wrongArity "zremrangebyrank")
  let key ← bytesArg "zremrangebyrank" args[1]?
  let start ← i64Arg "zremrangebyrank" args[2]?
  let stop ← i64Arg "zremrangebyrank" args[3]?
  return (key, start, stop)

/-- Its edit of the entry. -/
def zremrangebyrankEdit (thr : ZSetThresholds) (start stop : Int64) (e : Entry) : DataType × Option Edited :=
  match e.value with
  | .zset z =>
    match z.rangeByRank start stop false with
    | none => (e.value, none)
    | some range =>
      let toRemove := range.map Prod.fst
      match z.removeAll thr toRemove with
      | none => (e.value, none)
      | some z => (.zset z, some ⟨.ok (.integer (.ofNat toRemove.length)), -(payload toRemove : Int), z.len == 0⟩)
  | value => (value, some ⟨.error .wrongType, 0, false⟩)

/-- `cmd_zremrangebyrank`. -/
def cmdZremrangebyrank (thr : ZSetThresholds) (now : Nat) (args : List Resp) (s : Database) :
    Database × Option (Result Resp) :=
  match zremrangebyrankCall args with
  | .error e => (s, some (.error e))
  | .ok (key, start, stop) => s.editValue now key (.ok (.integer 0)) (zremrangebyrankEdit thr start stop)

open Collections (RangeOptions)

/-- The options of ZRANGESTORE; a negative LIMIT becomes a large one. -/
def storeOptions : (rest : List Resp) → RangeOptions → Result RangeOptions
  | [], o => return o
  | a :: rest, o => do
    let opt := toAsciiUppercase (← strArg "zrangestore" (some a))
    if opt = "BYSCORE" then storeOptions rest { o with byscore := true }
    else if opt = "BYLEX" then storeOptions rest { o with bylex := true }
    else if opt = "REV" then storeOptions rest { o with rev := true }
    else if opt = "LIMIT" then do
      let off ← i64Arg "zrangestore" rest[0]?
      let cnt ← i64Arg "zrangestore" rest[1]?
      match rest with
      | _ :: _ :: rest => storeOptions rest { o with offset := off.toUInt64.toNat, count := some cnt.toUInt64.toNat }
      | _ => throw (.wrongArity "zrangestore")
    else throw (.generic "syntax error")

/-- A call of ZRANGESTORE that has been read. -/
structure StoreCall where
  dst : Bytes
  src : Bytes
  start : String
  stop : String
  options : RangeOptions

/-- ZRANGESTORE, read off its arguments. -/
def zrangestoreCall (args : List Resp) : Result StoreCall := do
  if args.length < 5 then throw (.wrongArity "zrangestore")
  let dst ← bytesArg "zrangestore" args[1]?
  let src ← bytesArg "zrangestore" args[2]?
  let start ← strArg "zrangestore" args[3]?
  let stop ← strArg "zrangestore" args[4]?
  let o ← storeOptions (args.drop 5) {}
  if o.byscore && o.bylex then throw (.generic "syntax error")
  return ⟨dst, src, start, stop, o⟩

/-- `range_by_lex`. -/
def rangeByLex (ord : ScoreOrder) (z : ZSetData) (min max : String) (rev : Bool) (offset : Nat) (count : Option Nat) :
    List (Bytes × F64) :=
  let members := z.rangeByLexMembers ord (lexBound trimStartMatches "-" min) (lexBound trimStartMatches "+" max)
  let out := members.filterMap fun m => (z.score m).map fun s => (m, s)
  page offset count (if rev then out.reverse else out)

/-- An index, or the error for one. -/
def rankOfStr (s : String) : Result Int64 :=
  match Decimal.parseI64 s with
  | some n => .ok n
  | none => .error (.generic "value is not an integer or out of range")

/-- What ZRANGESTORE stores. -/
def storeEntries (ord : ScoreOrder) (c : StoreCall) (z : ZSetData) : Option (Result (List (Bytes × F64))) :=
  if c.options.byscore then some do
    let min ← parseScoreBound env c.start
    let max ← parseScoreBound env c.stop
    return z.rangeByScore min max c.options.rev c.options.offset c.options.count
  else if c.options.bylex then
    some (.ok (rangeByLex ord z c.start c.stop c.options.rev c.options.offset c.options.count))
  else match rankOfStr c.start, rankOfStr c.stop with
    | .ok start, .ok stop => (z.rangeByRank start stop c.options.rev).map Except.ok
    | .error e, _ => some (.error e)
    | _, .error e => some (.error e)

/-- `cmd_zrangestore`. -/
def cmdZrangestore (thr : ZSetThresholds) (ord : ScoreOrder) (now : Nat) (args : List Resp) (db : ShardedDatabase) :
    ShardedDatabase × Option (Result Resp) :=
  match zrangestoreCall args with
  | .error e => (db, some (.error e))
  | .ok c =>
    let entries : Option (Result (List (Bytes × F64))) := match db.getRo now c.src with
      | none => some (.ok [])
      | some e => match e.value with
        | .zset z => storeEntries env ord c z
        | _ => some (.error .wrongType)
    match entries with
    | none => (db, none)
    | some (.error e) => (db, some (.error e))
    | some (.ok entries) => match ZSetData.insertAll thr entries .new with
      | none => (db, none)
      | some z => ((db.writeFor c.dst fun s => (s.insert c.dst (.new (.zset z)), ())).1,
          some (.ok (.integer (.ofNat z.len))))

/-! ## What ranks should select -/

open Positions

/-- The pairs in the order (score, member), or from the last to the first. -/
def ranked (rev : Bool) (l : List ZPair) : List (Bytes × F64) :=
  let pairs := l.map fun e => (e.2, e.1)
  if rev then pairs.reverse else pairs

/-- The entry of a key that holds these pairs, or that is gone with the last of them. -/
inductive Holds (e : Entry) : Option Entry → List ZPair → Prop
  | zset {d : ZSetData} {z : ZMap} {l : List ZPair} : d.Rep z l → Holds e (some { e with value := .zset d }) l
  | gone : Holds e none []

/-- A command answers how many members a range has, and removes exactly these; other keys stay. -/
structure Removes (now : Nat) (key : Bytes) (e : Entry) (s : Database) (l : List ZPair)
    (out : Database × Option (Result Resp)) (range : List (Bytes × F64)) : Prop where
  answers : out.2 = some (.ok (.integer (.ofNat range.length)))
  holds : Holds e (out.1.getRo now key) (l.filter fun x => x.2 ∉ range.map Prod.fst)
  others : ∀ x, x ≠ key → out.1.getRo now x = s.getRo now x

/-! ## What they select -/

variable {env : Env} {ord : ScoreOrder} {thr : ZSetThresholds} {now : Nat} {args : List Resp} {s : Database}
  {key : Bytes} {e : Entry} {d : ZSetData} {z : ZMap} {l : List ZPair}

/-- The direction does not change the length. -/
theorem length_ranked (rev : Bool) (l : List ZPair) : (ranked rev l).length = l.length := by
  cases rev <;> simp [ranked]

theorem endsInside_ranked (rev : Bool) (i j : Int) : EndsInside i j (ranked rev l) ↔ EndsInside i j l := by
  unfold EndsInside
  rw [length_ranked, ← List.length_eq_zero_iff, length_ranked, List.length_eq_zero_iff]

/-- A range by rank is the clamped range of the pairs in their order. -/
theorem rangeByRank_eq (rep : d.Rep z l) (i j : Int64) (rev : Bool) :
    d.rangeByRank i j rev = some (clampedRange i.toInt j.toInt (ranked rev l)) := by
  have entries : (if rev then d.toPairsSorted.reverse else d.toPairsSorted) = ranked rev l := by
    rw [rep.toPairsSorted_eq]
    rfl
  have length := length_ranked rev l
  unfold ZSetData.rangeByRank ZSetData.normalizeIndex
  rw [entries, rep.len_eq, ListIndex.normalizeIdx_eq, ListIndex.normalizeIdx_eq, ← length]
  dsimp only
  by_cases empty : (ranked rev l).length ≤ clamped (ranked rev l).length i.toInt ∨
      clamped (ranked rev l).length j.toInt < clamped (ranked rev l).length i.toInt
  · rw [if_pos (by omega), clampedRange_of_empty empty]
  · have start : min (clamped (ranked rev l).length i.toInt) (ranked rev l).length = clamped (ranked rev l).length i.toInt := by
      omega
    rw [start, if_neg empty, ← clampedRange_clipped empty]
    exact if_pos ⟨by omega, by omega⟩

theorem formatZrangeResult_eq_nil {entries : List (Bytes × F64)} {withscores : Bool} :
    formatZrangeResult env entries withscores = [] ↔ entries = [] := by
  cases entries <;> simp [formatZrangeResult]

theorem readZset_eq {missing : Resp} {body : ZSetData → Option (Result Resp)} (found : s.getRo now key = some e)
    (isZset : e.value = .zset d) : readZset now s key missing body = body d := by
  unfold readZset
  rw [found]
  dsimp only
  rw [isZset]

/-- A reply that lists a range over clamped ranks is right exactly if the range does not end before the first. -/
theorem listed_iff (rev : Bool) (i j : Int) (withscores : Bool) :
    (some (.ok (.array (some (formatZrangeResult env (clampedRange i j (ranked rev l)) withscores)))) :
        Option (Result Resp)) =
      some (.ok (.array (some (formatZrangeResult env
        (between (denoted l.length i) (denoted l.length j) (ranked rev l)) withscores)))) ↔ EndsInside i j l := by
  have same := clampedRange_iff (ranked rev l) i j
  rw [endsInside_ranked, length_ranked] at same
  constructor
  · intro listed
    have listed := Option.some.inj (Resp.array.inj (Except.ok.inj (Option.some.inj listed)))
    intro before
    refine same.1 ?_ before
    rw [between_eq_nil _ before] at listed ⊢
    exact formatZrangeResult_eq_nil.1 (listed.trans (formatZrangeResult_eq_nil.2 rfl))
  · intro inside
    rw [same.2 inside]

theorem removeAll_rep (rep : d.Rep z l) (ms : List Bytes) :
    ∃ d' z', d.removeAll thr ms = some d' ∧ d'.Rep z' (l.filter fun e => e.2 ∉ ms) := by
  induction ms generalizing d z l with
  | nil => exact ⟨d, z, rfl, by simpa using rep⟩
  | cons m ms ih =>
    obtain ⟨d₁, r, run, -, -, rep₁⟩ := rep.remove_others thr m
    obtain ⟨d', z', rest, rep'⟩ := ih rep₁
    refine ⟨d', z', by simp [ZSetData.removeAll, run, rest], ?_⟩
    have both : (CompactZSet.others m l).filter (fun e => e.2 ∉ ms) = l.filter fun e => e.2 ∉ m :: ms := by
      rw [CompactZSet.others, List.filter_filter]
      refine List.filter_congr fun e _ => ?_
      simp [Bool.and_comm]
    rwa [both] at rep'

/-- What is removed are the members of the clamped range. -/
theorem cmdZremrangebyrank_removes {i j : Int64} (parsed : zremrangebyrankCall args = .ok (key, i, j))
    (found : s.getRo now key = some e) (isZset : e.value = .zset d) (rep : d.Rep z l) :
    Removes now key e s l (cmdZremrangebyrank thr now args s) (clampedRange i.toInt j.toInt (ranked false l)) := by
  set range := clampedRange i.toInt j.toInt (ranked false l) with hrange
  obtain ⟨d', z', run, rep'⟩ := @removeAll_rep thr _ _ _ rep (range.map Prod.fst)
  have edits : zremrangebyrankEdit thr i j e = (.zset d', some ⟨.ok (.integer (.ofNat range.length)),
      -(payload (range.map Prod.fst) : Int), d'.len == 0⟩) := by
    simp only [zremrangebyrankEdit, isZset, rangeByRank_eq rep, ← hrange, run, List.length_map]
  unfold cmdZremrangebyrank
  rw [parsed]
  obtain ⟨answers, after⟩ := Database.editValue_spec (.ok (.integer 0)) found edits
  refine ⟨answers, ?_, fun x ne => ?_⟩
  · have left := after key
    rw [if_pos rfl] at left
    rw [left]
    have len := rep'.len_eq
    cases rest : l.filter fun e => e.2 ∉ range.map Prod.fst with
    | nil =>
      have emptied : (d'.len == 0) = true := by
        rw [len, rest]
        rfl
      rw [if_pos emptied]
      exact .gone
    | cons x rest' =>
      have stays : (d'.len == 0) = false := by
        rw [len, rest]
        rfl
      rw [rest] at rep'
      rw [stays]
      exact .zset rep'
  · have kept := after x
    rwa [if_neg ne] at kept

/-- So the range is the right one when the clamping changes nothing. -/
theorem removes_iff {i j : Int} {out : Database × Option (Result Resp)}
    (removes : Removes now key e s l out (clampedRange i j (ranked false l))) :
    Removes now key e s l out (between (denoted l.length i) (denoted l.length j) (ranked false l)) ↔ EndsInside i j l := by
  have same := clampedRange_iff (ranked false l) i j
  rw [endsInside_ranked, length_ranked] at same
  constructor
  · intro right before
    refine same.1 ?_ before
    have count := removes.answers.symm.trans right.answers
    rw [between_eq_nil _ before] at count ⊢
    have count := Resp.integer.inj (Except.ok.inj (Option.some.inj count))
    have few : (clampedRange i j (ranked false l)).length ≤ 1 :=
      length_clampedRange_of_before (by rw [length_ranked]; exact before)
    refine List.length_eq_zero_iff.1 ?_
    by_contra some
    obtain one : (clampedRange i j (ranked false l)).length = 1 := by omega
    rw [one] at count
    exact absurd count (by decide)
  · intro inside
    rw [← same.2 inside]
    exact removes

/-- **ZRANGE and ZREVRANGE answer, and ZREMRANGEBYRANK removes, exactly the members of the ranks asked for, unless a
range that begins no later than the first member ends before it**: its end is clamped to the first rank, and the
range has a member then. In both encodings, which read the ranks in their own ways. -/
theorem rank_range_iff (env : Env) (ord : ScoreOrder) (thr : ZSetThresholds) (found : s.getRo now key = some e)
    (isZset : e.value = .zset d) (rep : d.Rep z l) :
    (∀ args c i j, zrangeCall env args = .ok c → c.key = key → c.kind = .rank → i64OfStr c.first = .ok i →
      i64OfStr c.second = .ok j →
        (cmdZrange env ord now args s = some (.ok (.array (some (formatZrangeResult env
            (between (denoted l.length i.toInt) (denoted l.length j.toInt) (ranked c.options.rev l))
            c.options.withscores)))) ↔ EndsInside i.toInt j.toInt l)) ∧
    (∀ args c, zrevrangeCall args = .ok c → c.key = key →
      (cmdZrevrange env now args s = some (.ok (.array (some (formatZrangeResult env
          (between (denoted l.length c.start.toInt) (denoted l.length c.stop.toInt) (ranked true l))
          c.withscores)))) ↔ EndsInside c.start.toInt c.stop.toInt l)) ∧
    ∀ args i j, zremrangebyrankCall args = .ok (key, i, j) →
      (Removes now key e s l (cmdZremrangebyrank thr now args s)
          (between (denoted l.length i.toInt) (denoted l.length j.toInt) (ranked false l)) ↔
        EndsInside i.toInt j.toInt l) := by
  refine ⟨fun args c i j parsed isKey isRank first second => ?_, fun args c parsed isKey => ?_, fun args i j parsed => ?_⟩
  · subst isKey
    have lists : cmdZrange env ord now args s = some (.ok (.array (some (formatZrangeResult env
        (clampedRange i.toInt j.toInt (ranked c.options.rev l)) c.options.withscores)))) := by
      unfold cmdZrange
      rw [parsed]
      dsimp only
      rw [readZset_eq found isZset, zrangeReply, isRank]
      simp only [first, second, rangeByRank_eq rep]
      rfl
    rw [lists]
    exact listed_iff _ _ _ _
  · subst isKey
    have lists : cmdZrevrange env now args s = some (.ok (.array (some (formatZrangeResult env
        (clampedRange c.start.toInt c.stop.toInt (ranked true l)) c.withscores)))) := by
      unfold cmdZrevrange
      rw [parsed]
      dsimp only
      rw [readZset_eq found isZset, rangeByRank_eq rep]
      rfl
    rw [lists]
    exact listed_iff _ _ _ _
  · exact removes_iff (cmdZremrangebyrank_removes parsed found isZset rep)

/-- The member a with score 1, and b with score 2. -/
def ab : List ZPair := [(⟨0x3FF0000000000000⟩, [97]), (⟨0x4000000000000000⟩, [98])]

/-- Two members with scores. -/
def abScores : ZMap :=
  Function.update (Function.update (fun _ => none) [97] (some ⟨0x3FF0000000000000⟩)) [98] (some ⟨0x4000000000000000⟩)

/-- The same as a sorted set. -/
def abSet : ZSetData := .compact (ab.foldl (fun c e => c.appendPair e.1 e.2) .new)

/-- The same as an entry. -/
def abEntry : Entry := ⟨.zset abSet, none, 0⟩

/-- A shard with this set under k. -/
def abShard : Database := Database.new.insert [107] abEntry

theorem ab_rep : abSet.Rep abScores ab where
  holds := CompactZSet.foldl_appendPair_rep CompactZSet.new_rep fun e mem => by
    rw [zCodec_valid]
    revert e
    decide
  ordered := by
    have one : Ordered [(⟨0x3FF0000000000000⟩, [97])] (Function.update (ZSetData.keys fun _ => none) [97]
        (some (F64.mk 0x3FF0000000000000).key)) := ZSetData.new_rep.ordered.insert_new rfl _
    have two : Ordered ab (Function.update (Function.update (ZSetData.keys fun _ => none) [97]
        (some (F64.mk 0x3FF0000000000000).key)) [98] (some (F64.mk 0x4000000000000000).key)) :=
      @Ordered.insert_new _ _ [98] one (by decide) ⟨0x4000000000000000⟩
    rw [abScores, ZSetData.keys_update, ZSetData.keys_update]
    exact two
  nonNaN := by decide

open ListIndex (words)

/-- The code outside, for calls that do not need it. -/
def plainEnv : Env := ⟨fun _ => none, id, fun _ => []⟩

/-- The last of two members, in both orders, and its removal. -/
theorem rank_range_last :
    cmdZrange plainEnv .asStored 0 (words ["ZRANGE", "k", "-1", "-1"]) abShard =
        some (.ok (.array (some [.bulkString (some [98])]))) ∧
      cmdZrevrange plainEnv 0 (words ["ZREVRANGE", "k", "0", "0"]) abShard =
        some (.ok (.array (some [.bulkString (some [98])]))) ∧
      Removes 0 [107] abEntry abShard ab
        (cmdZremrangebyrank .default 0 (words ["ZREMRANGEBYRANK", "k", "0", "0"]) abShard)
        [([97], ⟨0x3FF0000000000000⟩)] := by
  have claim := @rank_range_iff 0 abShard [107] abEntry _ _ _ plainEnv .asStored .default rfl rfl ab_rep
  have zrange : zrangeCall plainEnv (words ["ZRANGE", "k", "-1", "-1"]) = .ok ⟨[107], "-1", "-1", .rank, {}⟩ := by
    decide +kernel
  have zrevrange : zrevrangeCall (words ["ZREVRANGE", "k", "0", "0"]) = .ok ⟨[107], 0, 0, false⟩ := by decide +kernel
  have zrem : zremrangebyrankCall (words ["ZREMRANGEBYRANK", "k", "0", "0"]) = .ok ([107], 0, 0) := by decide +kernel
  have minusOne : i64OfStr "-1" = .ok (-1) := by decide +kernel
  exact ⟨(claim.1 _ _ _ _ zrange rfl rfl minusOne minusOne).2 fun before => absurd before (by decide),
    (claim.2.1 _ _ zrevrange rfl).2 fun before => absurd before (by decide),
    (claim.2.2 _ 0 0 zrem).2 fun before => absurd before (by decide)⟩

/-- ZREMRANGEBYRANK k 0 -3 removes the first of two members. -/
theorem removes_the_first :
    Removes 0 [107] abEntry abShard ab
        (cmdZremrangebyrank .default 0 (words ["ZREMRANGEBYRANK", "k", "0", "-3"]) abShard)
        [([97], ⟨0x3FF0000000000000⟩)] ∧
      ¬Removes 0 [107] abEntry abShard ab
        (cmdZremrangebyrank .default 0 (words ["ZREMRANGEBYRANK", "k", "0", "-3"]) abShard)
        (between (denoted 2 0) (denoted 2 (-3)) (ranked false ab)) := by
  have parsed : zremrangebyrankCall (words ["ZREMRANGEBYRANK", "k", "0", "-3"]) = .ok ([107], 0, -3) := by
    decide +kernel
  have removes : Removes 0 [107] abEntry abShard ab
      (cmdZremrangebyrank .default 0 (words ["ZREMRANGEBYRANK", "k", "0", "-3"]) abShard)
      (clampedRange 0 (-3) (ranked false ab)) :=
    cmdZremrangebyrank_removes parsed rfl rfl ab_rep
  refine ⟨removes, fun right => ?_⟩
  exact absurd ((removes_iff removes).1 right) (by unfold EndsInside; decide)

end SortedRanges

end NexradeCache
