import NexradeCache.Command.SetAlgebra
import NexradeCache.Command.SortedRanges
import NexradeCache.Lib.Merging

/-!
# Algebra of sorted sets (`nexrade-core/src/command/zset.rs`)

ZUNION, ZINTER and ZDIFF, their STORE forms and ZINTERCARD. What is meant is the union, the intersection and the
difference of finite maps from members to weighted scores (`Lib/Merging`); the three loops treat a missing key and a
value of another type each in its own way. `zset_algebra_iff` says for each command when its answer is right: ZUNION
takes a value of another type for an empty set, ZINTER does not see it behind a missing key, and ZDIFF only looks at the
type of the first key.

Addition and multiplication are parameters. Scores are equal if their places in the order are, so that the sign of a
zero is left open, and NaN is a score like another.
-/

namespace NexradeCache

namespace ZsetAlgebra

open Collections (Aggregate)
open SortedRanges (parseScoreBound formatZrangeResult)
open SetAlgebra (Run)

/-! ## The code -/

/-- Addition and multiplication of doubles, which do not tell the two zeros apart further than that. -/
structure Floats where
  add : F64 → F64 → F64
  mul : F64 → F64 → F64
  add_key : ∀ {a a' b b' : F64}, a.key = a'.key → b.key = b'.key → (add a b).key = (add a' b').key
  mul_key : ∀ {a a' b b' : F64}, a.key = a'.key → b.key = b'.key → (mul a b).key = (mul a' b').key

def one : F64 := ⟨0x3FF0000000000000⟩

def asZset : DataType → Option ZSetData
  | .zset z => some z
  | _ => none

section Calls

variable (env : SortedRanges.Env)

/-- The next `numKeys` arguments, and those behind them. -/
def keyArgs (cmd : String) : (numKeys : Nat) → (rest : List Resp) → Result (List Bytes × List Resp)
  | 0, rest => return ([], rest)
  | n + 1, rest => do
    let key ← bytesArg cmd rest[0]?
    let (keys, rest) ← keyArgs cmd n rest.tail
    return (key :: keys, rest)

def weightArgs (cmd : String) : (numKeys : Nat) → (rest : List Resp) → Result (List F64)
  | 0, _ => return []
  | n + 1, rest => do
    let (v, _) ← parseScoreBound env (← strArg cmd rest[0]?)
    let weights ← weightArgs cmd n rest.tail
    return v :: weights

def aggregateOf (text : String) : Result Aggregate :=
  if text = "SUM" then .ok .sum
  else if text = "MIN" then .ok .min
  else if text = "MAX" then .ok .max
  else .error .syntaxError

/-- WEIGHTS, AGGREGATE and WITHSCORES. -/
structure AlgebraOptions where
  weights : List F64
  agg : Aggregate
  withscores : Bool

/-- `parse_aggregate_weights`, and `parse_weights_agg_withscores` where `scores`. -/
def algebraOptions (scores : Bool) (cmd : String) (numKeys : Nat) (rest : List Resp) (o : AlgebraOptions) :
    Result AlgebraOptions :=
  match rest with
  | [] => return o
  | a :: rest => do
    let opt := env.toUppercase (← strArg cmd (some a))
    if opt = "WEIGHTS" then
      let weights ← weightArgs env cmd numKeys rest
      algebraOptions scores cmd numKeys (rest.drop numKeys) { o with weights }
    else if opt = "AGGREGATE" then
      let agg ← aggregateOf (env.toUppercase (← strArg cmd rest[0]?))
      algebraOptions scores cmd numKeys (rest.drop 1) { o with agg }
    else if scores ∧ opt = "WITHSCORES" then algebraOptions scores cmd numKeys rest { o with withscores := true }
    else throw .syntaxError
termination_by rest.length

def parseNumkeysForSetOp (cmd : String) (a : Option Resp) : Result Nat := do
  let n ← i64Arg cmd a
  if n ≤ 0 then throw (.generic ("ERR at least 1 input key is needed for " ++ cmd.toUpper))
  return n.toInt.toNat

/-- A ZUNION or ZINTER that was read, or a STORE form behind its destination. -/
structure AlgebraCall where
  keys : List Bytes
  options : AlgebraOptions

/-- The keys and options of a command behind what precedes the number of keys. -/
def algebraCall (scores : Bool) (cmd : String) (args : List Resp) : Result AlgebraCall := do
  let numKeys ← parseNumkeysForSetOp cmd args[0]?
  let (keys, rest) ← keyArgs cmd numKeys (args.drop 1)
  let options ← algebraOptions env scores cmd numKeys rest ⟨List.replicate numKeys one, .sum, false⟩
  return ⟨keys, options⟩

/-- ZUNION and ZINTER. -/
def readingCall (cmd : String) (args : List Resp) : Result AlgebraCall := do
  if args.length < 3 then throw (.wrongArity cmd)
  algebraCall env true cmd (args.drop 1)

/-- ZUNIONSTORE and ZINTERSTORE. -/
def storingCall (cmd : String) (args : List Resp) : Result (Bytes × AlgebraCall) := do
  if args.length < 4 then throw (.wrongArity cmd)
  let dst ← bytesArg cmd args[1]?
  let call ← algebraCall env false cmd (args.drop 2)
  return (dst, call)

/-- A ZDIFF that was read. -/
structure DiffCall where
  keys : List Bytes
  withscores : Bool

def zdiffCall (args : List Resp) : Result DiffCall := do
  if args.length < 3 then throw (.wrongArity "zdiff")
  let numKeys ← parseNumkeysForSetOp "zdiff" args[1]?
  let (keys, rest) ← keyArgs "zdiff" numKeys (args.drop 2)
  if rest.isEmpty then return ⟨keys, false⟩
  let opt := env.toUppercase (← strArg "zdiff" rest[0]?)
  if opt ≠ "WITHSCORES" then throw (.generic "syntax error")
  if rest.length ≠ 1 then throw (.generic "syntax error")
  return ⟨keys, true⟩

def zdiffstoreCall (args : List Resp) : Result (Bytes × List Bytes) := do
  if args.length < 4 then throw (.wrongArity "zdiffstore")
  let dst ← bytesArg "zdiffstore" args[1]?
  let numKeys ← parseNumkeysForSetOp "zdiffstore" args[2]?
  let (keys, rest) ← keyArgs "zdiffstore" numKeys (args.drop 3)
  if !rest.isEmpty then throw (.generic "syntax error")
  return (dst, keys)

def zintercardCall (args : List Resp) : Result SetAlgebra.CardCall := do
  if args.length < 3 then throw (.wrongArity "zintercard")
  let numKeys ← parseNumkeysForSetOp "zintercard" args[1]?
  let (keys, rest) ← keyArgs "zintercard" numKeys (args.drop 2)
  if rest.isEmpty then return ⟨keys, none⟩
  let opt := env.toUppercase (← strArg "zintercard" rest[0]?)
  if opt ≠ "LIMIT" then throw (.generic "syntax error")
  let rawLimit ← i64Arg "zintercard" rest[1]?
  if rest.length ≠ 2 then throw (.generic "syntax error")
  return ⟨keys, some rawLimit⟩

end Calls

section Results

variable (fl : Floats) (thr : ZSetThresholds) (ord : ScoreOrder) (now : Nat)

/-- What an aggregate does with two scores. -/
def combine : Aggregate → F64 → F64 → F64
  | .sum => fl.add
  | .min => .minNum
  | .max => .maxNum

def applyAggregate (agg : Aggregate) (existing : Option F64) (new : F64) : F64 :=
  match existing with
  | none => new
  | some e => combine fl agg e new

/-- `weights.get(i)`, or one, for each of the list. -/
def withWeights {A : Type} : List A → (weights : List F64) → List (A × F64)
  | [], _ => []
  | a :: l, weights => (a, weights.head?.getD one) :: withWeights l weights.tail

/-- The loop over the pairs of a key. -/
def addPairs (agg : Aggregate) (weight : F64) : (pairs : List (Bytes × F64)) → (result : ZSetData) → Option ZSetData
  | [], result => some result
  | (member, score) :: pairs, result => do
    let weighted := fl.mul score weight
    let newScore := applyAggregate fl agg (result.score member) weighted
    let (result, _) ← result.insert thr member newScore
    addPairs agg weight pairs result

/-- The loop over the keys. -/
def uniteKeys (agg : Aggregate) : (sources : List (Bytes × F64)) → (result : ZSetData) → ShardedDatabase → Run ZSetData
  | [], result, db => (db, some (.ok result))
  | (key, weight) :: sources, result, db => match db.readKey now key with
    | (db, none) => uniteKeys agg sources result db
    | (db, some e) => match asZset e.value with
      | some z => match addPairs fl thr agg weight (z.iterPairsRef ord) result with
        | some result => uniteKeys agg sources result db
        | none => (db, none)
      | none => uniteKeys agg sources result db

def computeZunionResult (keys : List Bytes) (weights : List F64) (agg : Aggregate) (db : ShardedDatabase) : Run ZSetData :=
  uniteKeys fl thr ord now agg (withWeights keys weights) .new db

/-- The loop that clones the sets, with `none` for the early return at a missing key. -/
def cloneSets : (keys : List Bytes) → (sets : List ZSetData) → ShardedDatabase →
    ShardedDatabase × Result (Option (List ZSetData))
  | [], sets, db => (db, .ok (some sets))
  | key :: keys, sets, db => match db.readKey now key with
    | (db, none) => (db, .ok none)
    | (db, some e) => match asZset e.value with
      | some z => cloneSets keys (sets ++ [z]) db
      | none => (db, .error .wrongType)

/-- `acc` behind the other sets, if all have the member. -/
def inAll (agg : Aggregate) (member : Bytes) : (others : List (ZSetData × F64)) → (acc : F64) → Option F64
  | [], acc => some acc
  | (other, weight) :: others, acc => match other.score member with
    | some s => inAll agg member others (applyAggregate fl agg (some acc) (fl.mul s weight))
    | none => none

/-- The loop over the pairs of the first set. -/
def intersectSets (agg : Aggregate) : (sets : List (ZSetData × F64)) → Option ZSetData
  | [] => some .new
  | (first, weight) :: others =>
    let kept := (first.iterPairsRef ord).filterMap fun e =>
      (inAll fl agg e.1 others (fl.mul e.2 weight)).map fun acc => (e.1, acc)
    ZSetData.insertAll thr kept .new

def computeZinterResult (keys : List Bytes) (weights : List F64) (agg : Aggregate) (db : ShardedDatabase) : Run ZSetData :=
  match cloneSets now keys [] db with
  | (db, .error e) => (db, some (.error e))
  | (db, .ok none) => (db, some (.ok .new))
  | (db, .ok (some sets)) => (db, (intersectSets fl thr ord agg (withWeights sets weights)).map .ok)

/-- The loop over the keys behind the first. -/
def removeKeys : (keys : List Bytes) → (result : ZSetData) → ShardedDatabase → Run ZSetData
  | [], result, db => (db, some (.ok result))
  | key :: keys, result, db => match db.readKey now key with
    | (db, none) => removeKeys keys result db
    | (db, some e) => match asZset e.value with
      | some z => match ZSetData.removeAll thr (z.memberKeys ord) result with
        | some result => removeKeys keys result db
        | none => (db, none)
      | none => removeKeys keys result db

def computeZdiffResult (keys : List Bytes) (db : ShardedDatabase) : Run ZSetData :=
  match keys with
  | [] => (db, some (.ok .new))
  | first :: keys => match db.readKey now first with
    | (db, none) => (db, some (.ok .new))
    | (db, some e) => match asZset e.value with
      | some z => removeKeys thr ord now keys z db
      | none => (db, some (.error .wrongType))

end Results

section Handlers

variable (env : SortedRanges.Env) (fl : Floats) (thr : ZSetThresholds) (ord : ScoreOrder) (now : Nat)

def zsetToArray (z : ZSetData) (withscores : Bool) : Resp :=
  .array (some (formatZrangeResult env z.toPairsSorted withscores))

def answerZset (withscores : Bool) (out : Run ZSetData) : Run Resp :=
  (out.1, out.2.map fun r => r.map fun z => zsetToArray env z withscores)

/-- The end of the STORE forms. -/
def storeZset (dst : Bytes) : Run ZSetData → Run Resp
  | (db, none) => (db, none)
  | (db, some (.error e)) => (db, some (.error e))
  | (db, some (.ok result)) =>
    let (db, ()) := db.writeFor dst fun s => (s.insert dst (.new (.zset result)), ())
    (db, some (.ok (.integer (.ofNat result.len))))

def cmdZunion (args : List Resp) (db : ShardedDatabase) : Run Resp :=
  match readingCall env "zunion" args with
  | .error e => (db, some (.error e))
  | .ok c => answerZset env c.options.withscores
      (computeZunionResult fl thr ord now c.keys c.options.weights c.options.agg db)

def cmdZinter (args : List Resp) (db : ShardedDatabase) : Run Resp :=
  match readingCall env "zinter" args with
  | .error e => (db, some (.error e))
  | .ok c => answerZset env c.options.withscores
      (computeZinterResult fl thr ord now c.keys c.options.weights c.options.agg db)

def cmdZdiff (args : List Resp) (db : ShardedDatabase) : Run Resp :=
  match zdiffCall env args with
  | .error e => (db, some (.error e))
  | .ok c => answerZset env c.withscores (computeZdiffResult thr ord now c.keys db)

def cmdZunionstore (args : List Resp) (db : ShardedDatabase) : Run Resp :=
  match storingCall env "zunionstore" args with
  | .error e => (db, some (.error e))
  | .ok (dst, c) => storeZset dst (computeZunionResult fl thr ord now c.keys c.options.weights c.options.agg db)

def cmdZinterstore (args : List Resp) (db : ShardedDatabase) : Run Resp :=
  match storingCall env "zinterstore" args with
  | .error e => (db, some (.error e))
  | .ok (dst, c) => storeZset dst (computeZinterResult fl thr ord now c.keys c.options.weights c.options.agg db)

def cmdZdiffstore (args : List Resp) (db : ShardedDatabase) : Run Resp :=
  match zdiffstoreCall args with
  | .error e => (db, some (.error e))
  | .ok (dst, keys) => storeZset dst (computeZdiffResult thr ord now keys db)

/-- The members of the smallest set that all others have, up to the limit. -/
def countCommon (limit : Option Nat) (sets : List ZSetData) : Nat :=
  let smallest := Operand.smallestIdx (2 ^ 64 - 1) (sets.map ZSetData.len)
  let others := Operand.othersOf smallest sets.length
  let base := sets[smallest]?.getD .new
  Operand.countUpTo (fun m => others.all fun i => ((sets[i]?.getD .new).score m).isSome) limit (base.memberKeys ord) 0

/-- The number that ZINTERCARD answers. -/
def zintercard (c : SetAlgebra.CardCall) (db : ShardedDatabase) : ShardedDatabase × Result Nat :=
  let out := cloneSets now c.keys [] db
  (out.1, out.2.map fun sets => (sets.map (countCommon ord (SetAlgebra.limitOf c.limit))).getD 0)

def cmdZintercard (args : List Resp) (db : ShardedDatabase) : ShardedDatabase × Result Resp :=
  match zintercardCall env args with
  | .error e => (db, .error e)
  | .ok c =>
    let out := zintercard ord now c db
    (out.1, out.2.map fun n => .integer (.ofNat n))

end Handlers

/-! ## Encoded sets and the maps they stand for -/

/-- `d` holds the members of `z` with their scores. -/
def Stands (d : ZSetData) (z : ZMap) : Prop := ∃ l, d.Holds l ∧ Ordered l (ZSetData.keys z)

section Maps

variable {fl : Floats} {thr : ZSetThresholds} {ord : ScoreOrder} {agg : Aggregate} {d : ZSetData} {z z' : ZMap}
  {es : List (Bytes × F64)} {member : Bytes}

theorem Stands.congr (h : Stands d z) (same : ∀ m, (z m).map F64.key = (z' m).map F64.key) : Stands d z' := by
  obtain ⟨l, holds, ordered⟩ := h
  have keys : ZSetData.keys z = ZSetData.keys z' := funext same
  exact ⟨l, holds, keys ▸ ordered⟩

theorem stands_new : Stands .new fun _ => none := ⟨[], CompactZSet.new_rep, .nil, .nil⟩

theorem Stands.short (h : Stands d z) (there : (z member).isSome) : member.length < 2 ^ 32 := by
  obtain ⟨l, holds, ordered⟩ := h
  obtain ⟨x, here⟩ := Option.isSome_iff_exists.1 there
  obtain ⟨e, mem, rfl, -⟩ := ordered.mem_of_key (show ZSetData.keys z member = some x.key by rw [ZSetData.keys, here]; rfl)
  cases d with
  | compact c => exact zCodec_valid.1 (CompactZSet.Rep.valid holds e mem)
  | skiplist s => exact zCodec_valid.1 (SkiplistZSet.Rep.valid holds e mem)

theorem Stands.insert (h : Stands d z) (thr : ZSetThresholds) (short : member.length < 2 ^ 32) (score : F64) :
    ∃ d' isNew, d.insert thr member score = some (d', isNew) ∧ Stands d' (Function.update z member (some score)) := by
  obtain ⟨l, holds, ordered⟩ := h
  obtain ⟨d', l', runs, holds', ordered', -⟩ := ZSetData.insert_ordered holds ordered thr short
  exact ⟨d', _, runs, l', holds', by rwa [ZSetData.keys_update]⟩

theorem Stands.remove (h : Stands d z) (thr : ZSetThresholds) (member : Bytes) :
    ∃ d' r, d.remove thr member = some (d', r) ∧ Stands d' (Function.update z member none) := by
  obtain ⟨l, holds, ordered⟩ := h
  obtain ⟨d', r, runs, -, holds', ordered'⟩ := ZSetData.remove_ordered holds ordered thr member
  exact ⟨d', r, runs, _, holds', by rwa [ZSetData.keys_update]⟩

theorem Stands.score (h : Stands d z) (m : Bytes) : (d.score m).map F64.key = (z m).map F64.key := by
  obtain ⟨l, holds, ordered⟩ := h
  exact ZSetData.score_of_ordered holds ordered m

theorem Stands.nodup_pairs (h : Stands d z) (ord : ScoreOrder) : ((d.iterPairsRef ord).map Prod.fst).Nodup := by
  obtain ⟨l, holds, ordered⟩ := h
  have nodup := (ZSetData.iterPairsRef_lists holds ordered ord).nodup
  rwa [List.map_map] at nodup

theorem Stands.lookup (h : Stands d z) (ord : ScoreOrder) (m : Bytes) :
    ((d.iterPairsRef ord).lookup m).map F64.key = (z m).map F64.key := by
  have own := (ListsMap.of_nodup (h.nodup_pairs ord)).map_values F64.key
  obtain ⟨l, holds, ordered⟩ := h
  exact congrFun (own.map_unique (ZSetData.iterPairsRef_lists holds ordered ord)) m

theorem Stands.mem_keys (h : Stands d z) (ord : ScoreOrder) : member ∈ d.memberKeys ord ↔ (z member).isSome := by
  have same := congrArg Option.isSome (h.lookup ord member)
  rw [Option.isSome_map, Option.isSome_map] at same
  rw [← same, ZSetData.memberKeys, List.mem_map, Option.isSome_iff_exists]
  have lists := ListsMap.of_nodup (h.nodup_pairs ord)
  constructor
  · rintro ⟨e, mem, rfl⟩
    exact ⟨e.2, (lists.mem _ _).1 mem⟩
  · rintro ⟨s, here⟩
    exact ⟨(member, s), (lists.mem _ _).2 here, rfl⟩

theorem Stands.short_pairs (h : Stands d z) (ord : ScoreOrder) : ∀ e ∈ d.iterPairsRef ord, e.1.length < 2 ^ 32 :=
  fun _ mem => h.short ((h.mem_keys ord).1 (List.mem_map_of_mem mem))

theorem lookup_of_notMem (absent : member ∉ es.map Prod.fst) : es.lookup member = none := by
  refine List.lookup_eq_none_iff.2 fun e mem => ?_
  have other : e.1 ≠ member := fun same => absent (same ▸ List.mem_map_of_mem mem)
  simpa using other.symm

/-- A member that occurs once is put where nothing is behind it. -/
theorem lookup_cons_or (e : Bytes × F64) (absent : e.1 ∉ es.map Prod.fst) (m : Bytes) :
    ((e :: es).lookup m).or (z m) = (es.lookup m).or (Function.update z e.1 (some e.2) m) := by
  rw [List.lookup_cons]
  by_cases same : m = e.1
  · subst same
    simp [lookup_of_notMem absent]
  · have other : (m == e.1) = false := by simpa using same
    simp [other, Function.update_of_ne same]

theorem insertAll_stands (thr : ZSetThresholds) (h : Stands d z) (nodup : (es.map Prod.fst).Nodup)
    (short : ∀ e ∈ es, e.1.length < 2 ^ 32) :
    ∃ d', ZSetData.insertAll thr es d = some d' ∧ Stands d' fun m => (es.lookup m).or (z m) := by
  induction es generalizing d z with
  | nil => exact ⟨d, rfl, h⟩
  | cons e es ih =>
    rw [List.map_cons, List.nodup_cons] at nodup
    rw [List.forall_mem_cons] at short
    obtain ⟨d', isNew, runs, h'⟩ := h.insert thr short.1 e.2
    obtain ⟨d'', rest, h''⟩ := ih h' nodup.2 short.2
    refine ⟨d'', by rw [ZSetData.insertAll, runs]; exact rest, h''.congr fun m => ?_⟩
    rw [lookup_cons_or e nodup.1]

theorem removeAll_stands (thr : ZSetThresholds) (ms : List Bytes) (h : Stands d z) :
    ∃ d', ZSetData.removeAll thr ms d = some d' ∧ Stands d' fun m => if m ∈ ms then none else z m := by
  induction ms generalizing d z with
  | nil => exact ⟨d, rfl, h.congr fun m => by simp⟩
  | cons member ms ih =>
    obtain ⟨d', r, runs, h'⟩ := h.remove thr member
    obtain ⟨d'', rest, h''⟩ := ih h'
    refine ⟨d'', by rw [ZSetData.removeAll, runs]; exact rest, h''.congr fun m => ?_⟩
    by_cases same : m = member
    · simp [same]
    · simp [same]

/-! ## Scores up to their place in the order -/

theorem applyAggregate_eq (agg : Aggregate) (existing : Option F64) (new : F64) :
    applyAggregate fl agg existing new = Merging.join (combine fl agg) existing new := by
  cases existing <;> rfl

theorem combine_key {a a' b b' : F64} (left : a.key = a'.key) (right : b.key = b'.key) :
    (combine fl agg a b).key = (combine fl agg a' b').key := by
  cases agg with
  | sum => exact fl.add_key left right
  | min => rw [combine, F64.minNum_key, F64.minNum_key, left, right]
  | max => rw [combine, F64.maxNum_key, F64.maxNum_key, left, right]

theorem join_key {acc acc' : Option F64} {b b' : F64} (left : acc.map F64.key = acc'.map F64.key)
    (right : b.key = b'.key) :
    (Merging.join (combine fl agg) acc b).key = (Merging.join (combine fl agg) acc' b').key := by
  cases acc with
  | none =>
    cases acc' with
    | none => exact right
    | some _ => cases left
  | some a =>
    cases acc' with
    | none => cases left
    | some a' => exact combine_key (Option.some.inj left) right

/-! ## The loop over the pairs of a key -/

/-- The scores of a set times the weight of its key. -/
def weighted (fl : Floats) (z : ZMap) (weight : F64) : ZMap := fun m => (z m).map fun score => fl.mul score weight

theorem weighted_key {weight : F64} (same : ∀ m, (z m).map F64.key = (z' m).map F64.key) (m : Bytes) :
    (weighted fl z weight m).map F64.key = (weighted fl z' weight m).map F64.key := by
  have here := same m
  unfold weighted
  cases left : z m with
  | none =>
    rw [left, Option.map_none, eq_comm, Option.map_eq_none_iff] at here
    rw [here]
  | some s =>
    rw [left, Option.map_some, eq_comm, Option.map_eq_some_iff] at here
    obtain ⟨s', right, key⟩ := here
    rw [right]
    exact congrArg some (fl.mul_key key.symm rfl)

/-- A map with one more. -/
def joined (fl : Floats) (agg : Aggregate) (z w : ZMap) : ZMap := fun m =>
  match w m with
  | none => z m
  | some b => some (Merging.join (combine fl agg) (z m) b)

theorem joined_key {w w' : ZMap} (left : ∀ m, (z m).map F64.key = (z' m).map F64.key)
    (right : ∀ m, (w m).map F64.key = (w' m).map F64.key) (m : Bytes) :
    (joined fl agg z w m).map F64.key = (joined fl agg z' w' m).map F64.key := by
  have here := right m
  unfold joined
  cases there : w m with
  | none =>
    rw [there, Option.map_none, eq_comm, Option.map_eq_none_iff] at here
    rw [here]
    exact left m
  | some b =>
    rw [there, Option.map_some, eq_comm, Option.map_eq_some_iff] at here
    obtain ⟨b', there', key⟩ := here
    rw [there']
    exact congrArg some (join_key (left m) key.symm)

/-- One more operand joins the union of the others. -/
theorem union_concat (done : List ZMap) (w : ZMap) :
    Merging.union (combine fl agg) (done ++ [w]) = joined fl agg (Merging.union (combine fl agg) done) w := by
  funext m
  rw [Merging.union_concat]
  unfold joined
  cases w m <;> rfl

/-- The pairs of one operand join the result, one by one. -/
theorem addPairs_stands (fl : Floats) (thr : ZSetThresholds) (agg : Aggregate) (weight : F64) (h : Stands d z) (nodup : (es.map Prod.fst).Nodup)
    (short : ∀ e ∈ es, e.1.length < 2 ^ 32) :
    ∃ d', addPairs fl thr agg weight es d = some d' ∧
      Stands d' (joined fl agg z (weighted fl (fun m => es.lookup m) weight)) := by
  induction es generalizing d z with
  | nil => exact ⟨d, rfl, h⟩
  | cons e es ih =>
    obtain ⟨member, score⟩ := e
    rw [List.map_cons, List.nodup_cons] at nodup
    rw [List.forall_mem_cons] at short
    obtain ⟨d', isNew, runs, h'⟩ :=
      h.insert thr short.1 (applyAggregate fl agg (d.score member) (fl.mul score weight))
    obtain ⟨d'', rest, h''⟩ := ih h' nodup.2 short.2
    refine ⟨d'', by rw [addPairs]; dsimp only; rw [runs]; exact rest, h''.congr fun m => ?_⟩
    unfold joined weighted
    dsimp only
    rw [List.lookup_cons]
    by_cases same : m = member
    · subst same
      rw [lookup_of_notMem nodup.1, applyAggregate_eq]
      simpa using join_key (h.score m) rfl
    · have other : (m == member) = false := by simpa using same
      simp [other, Function.update_of_ne same]

end Maps

/-! ## The loops over the keys -/

/-- The keys of a command with their weights. -/
def AlgebraCall.sources (c : AlgebraCall) : List (Bytes × F64) := c.keys.zip c.options.weights

open Operand

/-- What a key gives; nothing if it is missing or of another type. -/
def scores : Operand ZMap → ZMap
  | .value z => z
  | _ => fun _ => none

theorem scores_missing : scores .missing = fun _ => none := rfl

/-- A key of another type has no scores; it is refused before they are asked for. -/
theorem scores_wrong : scores .wrong = fun _ => none := rfl

/-- The weighted maps of the operands. -/
def terms (fl : Floats) (operands : List (Operand ZMap × F64)) : List ZMap :=
  operands.map fun o => weighted fl (scores o.1) o.2

/-- The operands of a command behind its keys and their weights. -/
def Given (now : Nat) (db : ShardedDatabase) (sources : List (Bytes × F64)) (operands : List (Operand ZMap × F64)) : Prop :=
  List.Forall₂ (fun k o => OperandOf asZset Stands (db.valueAt now k.1) o.1 ∧ o.2 = k.2) sources operands

/-- A computation ends with this error, or with a set that stands for this map. -/
def Comes (out : Option (Result ZSetData)) : Result ZMap → Prop
  | .ok z => ∃ d, out = some (.ok d) ∧ Stands d z
  | .error e => out = some (.error e)

/-- It changes nothing. -/
structure Computes (now : Nat) (db : ShardedDatabase) (out : Run ZSetData) (r : Result ZMap) : Prop where
  comes : Comes out.2 r
  untouched : ShardedDatabase.Untouched now db out.1

section Loops

variable {fl : Floats} {thr : ZSetThresholds} {ord : ScoreOrder} {agg : Aggregate} {now : Nat} {db db' : ShardedDatabase}
  {d : ZSetData} {z : ZMap} {key : Bytes} {weight : F64} {sources : List (Bytes × F64)}
  {operands : List (Operand ZMap × F64)}

theorem Given.untouched (h : Given now db sources operands) (same : ShardedDatabase.Untouched now db db') :
    Given now db' sources operands :=
  h.imp fun k _ ⟨kind, weighs⟩ => ⟨(same.valueAt k.1).symm ▸ kind, weighs⟩

/-- What is computed after a read is computed. -/
theorem Computes.of_untouched {out : Run ZSetData} {r : Result ZMap} (same : ShardedDatabase.Untouched now db db')
    (h : Computes now db' out r) : Computes now db out r := ⟨h.comes, same.trans h.untouched⟩

/-- The first pass of a loop, and what is left for the others. -/
theorem Given.step (given : Given now db ((key, weight) :: sources) operands) :
    ∃ db' e o rest, operands = (o, weight) :: rest ∧ db.readKey now key = (db', e) ∧
      OperandOf asZset Stands (e.map Entry.value) o ∧ ShardedDatabase.Untouched now db db' ∧ Given now db' sources rest := by
  cases given with
  | @cons _ o _ rest first given =>
    obtain ⟨o, _⟩ := o
    obtain ⟨kind, rfl⟩ := first
    obtain ⟨answer, same⟩ := ShardedDatabase.readKey_spec now db key
    dsimp only at kind
    rw [← answer] at kind
    exact ⟨(db.readKey now key).1, (db.readKey now key).2, o, rest, rfl, rfl, kind, same, Given.untouched given same⟩

theorem terms_cons (o : Operand ZMap) (weight : F64) (rest : List (Operand ZMap × F64)) :
    terms fl ((o, weight) :: rest) = weighted fl (scores o) weight :: terms fl rest := rfl

/-- Nothing comes from a key that has no set. -/
theorem union_skip {o : Operand ZMap} (nothing : scores o = fun _ => none) (weight : F64) (done : List ZMap)
    (rest : List (Operand ZMap × F64)) :
    Merging.union (combine fl agg) (done ++ terms fl ((o, weight) :: rest)) =
      Merging.union (combine fl agg) (done ++ terms fl rest) := by
  have empty : weighted fl (scores o) weight = fun _ => none := by
    rw [nothing]
    rfl
  funext m
  rw [terms_cons, empty]
  simp [Merging.union, Merging.values]

/-- The loop of a union, by induction on its keys. -/
theorem uniteKeys_computes (done : List ZMap) (h : Stands d (Merging.union (combine fl agg) done))
    (given : Given now db sources operands) :
    Computes now db (uniteKeys fl thr ord now agg sources d db)
      (.ok (Merging.union (combine fl agg) (done ++ terms fl operands))) := by
  induction sources generalizing operands db d done with
  | nil =>
    cases given
    rw [terms, List.map_nil, List.append_nil]
    exact ⟨⟨d, rfl, h⟩, .refl _ _⟩
  | cons k sources ih =>
    obtain ⟨key, weight⟩ := k
    obtain ⟨db', e, o, rest, rfl, read, kind, same, later⟩ := given.step
    rw [uniteKeys, read]
    cases e with
    | none =>
      cases kind
      rw [union_skip rfl]
      exact .of_untouched same (ih done h later)
    | some e =>
      dsimp only
      rw [Option.map_some] at kind
      cases kind with
      | wrong other =>
        rw [other, union_skip rfl]
        exact .of_untouched same (ih done h later)
      | @value _ z' z isZset stands =>
        obtain ⟨d', adds, h'⟩ := addPairs_stands fl thr agg weight h
          (stands.nodup_pairs ord) (stands.short_pairs ord)
        have grown : Stands d' (Merging.union (combine fl agg) (done ++ [weighted fl z weight])) := by
          rw [union_concat]
          exact h'.congr (joined_key (fun _ => rfl) (weighted_key (stands.lookup ord)))
        have next := ih _ grown later
        rw [List.append_assoc, List.singleton_append] at next
        rw [isZset]
        dsimp only
        rw [adds]
        exact .of_untouched same next

theorem withWeights_unzip {A : Type} (l : List (A × F64)) : withWeights (l.map Prod.fst) (l.map Prod.snd) = l := by
  induction l with
  | nil => rfl
  | cons a l ih =>
    rw [List.map_cons, List.map_cons, withWeights, List.tail_cons, ih]
    rfl

/-- **ZUNION computes the union**, and refuses an operand of another type. -/
theorem computeZunionResult_computes (fl : Floats) (thr : ZSetThresholds) (ord : ScoreOrder) (agg : Aggregate)
    (given : Given now db sources operands) :
    Computes now db (computeZunionResult fl thr ord now (sources.map Prod.fst) (sources.map Prod.snd) agg db)
      (.ok (Merging.union (combine fl agg) (terms fl operands))) := by
  rw [computeZunionResult, withWeights_unzip]
  exact uniteKeys_computes [] stands_new given

/-! ### ZDIFF -/

/-- The maps that ZDIFF is about. -/
def kept (operands : List (Operand ZMap × F64)) : List ZMap := operands.map fun o => scores o.1

theorem kept_cons (o : Operand ZMap) (weight : F64) (rest : List (Operand ZMap × F64)) :
    kept ((o, weight) :: rest) = scores o :: kept rest := rfl

/-- The loop of a difference, by induction on its keys. -/
theorem removeKeys_computes (h : Stands d z) (given : Given now db sources operands) :
    Computes now db (removeKeys thr ord now (sources.map Prod.fst) d db) (.ok (Merging.diff (z :: kept operands))) := by
  induction sources generalizing operands db d z with
  | nil =>
    cases given
    have whole : Merging.diff (z :: kept []) = z := Merging.diff_singleton z
    rw [whole]
    exact ⟨⟨d, rfl, h⟩, .refl _ _⟩
  | cons k sources ih =>
    obtain ⟨key, weight⟩ := k
    obtain ⟨db', e, o, rest, rfl, read, kind, same, later⟩ := given.step
    rw [List.map_cons, removeKeys, read, kept_cons]
    cases e with
    | none =>
      cases kind
      rw [scores_missing, Merging.diff_cons_empty]
      exact .of_untouched same (ih h later)
    | some e =>
      dsimp only
      rw [Option.map_some] at kind
      cases kind with
      | wrong other =>
        rw [other, scores_wrong, Merging.diff_cons_empty]
        exact .of_untouched same (ih h later)
      | @value _ d' z' isZset stands =>
        obtain ⟨d'', removes, h'⟩ := removeAll_stands thr (d'.memberKeys ord) h
        have without : Stands d'' fun m => if (z' m).isSome then none else z m :=
          h'.congr fun m => by simp only [stands.mem_keys ord]
        rw [isZset, scores, Merging.diff_cons_cons]
        dsimp only
        rw [removes]
        exact .of_untouched same (ih without later)

/-- WRONGTYPE if refused, or this. -/
def Checked (P : Result ZMap → Prop) (refused : Prop) (z : ZMap) : Prop :=
  (refused → P (.error .wrongType)) ∧ (¬refused → P (.ok z))

/-- **ZDIFF computes the difference**, and refuses a first operand of another type. -/
theorem computeZdiffResult_computes (thr : ZSetThresholds) (ord : ScoreOrder) (given : Given now db sources operands) :
    Checked (Computes now db (computeZdiffResult thr ord now (sources.map Prod.fst) db))
      ((operands.map Prod.fst).head? = some .wrong) (Merging.diff (kept operands)) := by
  cases sources with
  | nil =>
    cases given
    exact ⟨nofun, fun _ => ⟨⟨_, rfl, stands_new⟩, .refl _ _⟩⟩
  | cons k sources =>
    obtain ⟨key, weight⟩ := k
    obtain ⟨db', e, o, rest, rfl, read, kind, same, later⟩ := given.step
    rw [List.map_cons, computeZdiffResult, read, kept_cons]
    cases e with
    | none =>
      cases kind
      have nothing : Merging.diff ((fun _ => none) :: kept rest) = fun (_ : Bytes) => (none : Option F64) := by
        funext m
        exact ite_self none
      rw [scores_missing, nothing]
      exact ⟨nofun, fun _ => ⟨⟨_, rfl, stands_new⟩, same⟩⟩
    | some e =>
      dsimp only
      rw [Option.map_some] at kind
      cases kind with
      | wrong other =>
        rw [other]
        exact ⟨fun _ => ⟨rfl, same⟩, fun fine => (fine rfl).elim⟩
      | value isZset stands =>
        rw [isZset]
        exact ⟨nofun, fun _ => .of_untouched same (removeKeys_computes stands later)⟩

/-! ### ZINTER -/

/-- The clone of an operand. -/
def Clone (d : ZSetData) (o : Operand ZMap × F64) : Prop := ∃ z, o.1 = .value z ∧ Stands d z

/-- What the loop that clones the sets ends with. -/
inductive Cloned (sets : List ZSetData) (operands : List (Operand ZMap × F64)) : Result (Option (List ZSetData)) → Prop
  | all {ds : List ZSetData} : List.Forall₂ Clone ds operands → Cloned sets operands (.ok (some (sets ++ ds)))
  | missing : gather (operands.map Prod.fst) = .missing → Cloned sets operands (.ok none)
  | wrong : gather (operands.map Prod.fst) = .wrong → Cloned sets operands (.error .wrongType)

theorem Cloned.cons {sets : List ZSetData} {o : Operand ZMap × F64} {out : Result (Option (List ZSetData))}
    (clone : Clone d o) (h : Cloned (sets ++ [d]) operands out) : Cloned sets (o :: operands) out := by
  obtain ⟨o, weight⟩ := o
  obtain ⟨z, isValue, stands⟩ := clone
  obtain rfl : o = .value z := isValue
  cases h with
  | @all ds clones =>
    rw [List.append_assoc, List.singleton_append]
    exact .all (.cons ⟨z, rfl, stands⟩ clones)
  | missing gathers => exact .missing (by rw [List.map_cons, gather, gathers])
  | wrong gathers => exact .wrong (by rw [List.map_cons, gather, gathers])

/-- The operands are cloned until one is missing or wrong. -/
theorem cloneSets_cloned (sets : List ZSetData) (given : Given now db sources operands) :
    Cloned sets operands (cloneSets now (sources.map Prod.fst) sets db).2 ∧
      ShardedDatabase.Untouched now db (cloneSets now (sources.map Prod.fst) sets db).1 := by
  induction sources generalizing operands db sets with
  | nil =>
    cases given
    have all : Cloned sets [] (.ok (some (sets ++ []))) := .all .nil
    rw [List.append_nil] at all
    exact ⟨all, .refl _ _⟩
  | cons k sources ih =>
    obtain ⟨key, weight⟩ := k
    obtain ⟨db', e, o, rest, rfl, read, kind, same, later⟩ := given.step
    rw [List.map_cons, cloneSets, read]
    cases e with
    | none =>
      cases kind
      exact ⟨.missing rfl, same⟩
    | some e =>
      dsimp only
      rw [Option.map_some] at kind
      cases kind with
      | wrong other =>
        rw [other]
        exact ⟨.wrong rfl, same⟩
      | @value _ d z isZset stands =>
        rw [isZset]
        obtain ⟨cloned, after⟩ := ih (sets ++ [d]) later
        exact ⟨.cons ⟨z, rfl, stands⟩ cloned, same.trans after⟩

/-- A clone with the weight of its key. -/
def Weighs (d : ZSetData × F64) (o : Operand ZMap × F64) : Prop := Clone d.1 o ∧ d.2 = o.2

theorem withWeights_weighs {ds : List ZSetData} (clones : List.Forall₂ Clone ds operands) :
    List.Forall₂ Weighs (withWeights ds (operands.map Prod.snd)) operands := by
  induction clones with
  | nil => exact .nil
  | cons clone _ ih => exact .cons ⟨clone, rfl⟩ ih

/-- Following a member through the clones is following it through the maps. -/
theorem inAll_key {others : List (ZSetData × F64)} (weighs : List.Forall₂ Weighs others operands) (m : Bytes)
    {acc acc' : F64} (same : acc.key = acc'.key) :
    (inAll fl agg m others acc).map F64.key =
      (Merging.along (combine fl agg) (terms fl operands) m acc').map F64.key := by
  induction weighs generalizing acc acc' with
  | nil => exact congrArg some same
  | @cons d o others operands first rest ih =>
    obtain ⟨d, weight⟩ := d
    obtain ⟨o, _⟩ := o
    obtain ⟨⟨z, isValue, stands⟩, rfl⟩ := first
    obtain rfl : o = .value z := isValue
    have here : (weighted fl d.score weight m).map F64.key = (weighted fl z weight m).map F64.key :=
      weighted_key stands.score m
    have value : weighted fl (scores (.value z)) weight = weighted fl z weight := rfl
    rw [terms_cons, Merging.along, value]
    unfold inAll
    unfold weighted at here ⊢
    cases found : d.score m with
    | none =>
      rw [found, Option.map_none, Option.map_none, eq_comm, Option.map_eq_none_iff] at here
      rw [here]
    | some s =>
      rw [found, Option.map_some, Option.map_some, eq_comm, Option.map_eq_some_iff] at here
      obtain ⟨b, there, key⟩ := here
      rw [there]
      exact ih (combine_key same key.symm)

/-- A lookup in what is left of a list of pairs. -/
theorem lookup_filterMap {es : List (Bytes × F64)} (nodup : (es.map Prod.fst).Nodup) (g : Bytes → F64 → Option F64)
    (m : Bytes) : (es.filterMap fun e => (g e.1 e.2).map fun acc => (e.1, acc)).lookup m =
      (es.lookup m).bind (g m) := by
  induction es with
  | nil => rfl
  | cons e es ih =>
    obtain ⟨member, score⟩ := e
    rw [List.map_cons, List.nodup_cons] at nodup
    rw [List.lookup_cons, List.filterMap_cons]
    by_cases same : m = member
    · subst same
      cases kept : g m score with
      | none =>
        have gone := ih nodup.2
        rw [lookup_of_notMem nodup.1] at gone
        simpa [kept] using gone
      | some acc => simp [kept]
    · have other : (m == member) = false := by simpa using same
      cases kept : g member score <;> simp [List.lookup_cons, other, ih nodup.2]

theorem keys_filterMap (es : List (Bytes × F64)) (g : Bytes → F64 → Option F64) :
    ((es.filterMap fun e => (g e.1 e.2).map fun acc => (e.1, acc)).map Prod.fst).Sublist (es.map Prod.fst) := by
  induction es with
  | nil => exact .slnil
  | cons e es ih =>
    rw [List.filterMap_cons, List.map_cons]
    cases g e.1 e.2 with
    | none => exact ih.cons _
    | some acc => exact ih.cons_cons _

/-- The members of the smallest operand, as far as all others have them. -/
theorem intersectSets_stands (fl : Floats) (thr : ZSetThresholds) (ord : ScoreOrder) (agg : Aggregate)
    {sets : List (ZSetData × F64)}
    (weighs : List.Forall₂ Weighs sets operands) :
    ∃ d, intersectSets fl thr ord agg sets = some d ∧ Stands d (Merging.inter (combine fl agg) (terms fl operands)) := by
  cases weighs with
  | nil => exact ⟨.new, rfl, stands_new⟩
  | @cons d o others operands first rest =>
    obtain ⟨d, weight⟩ := d
    obtain ⟨o, _⟩ := o
    obtain ⟨⟨z, isValue, stands⟩, rfl⟩ := first
    obtain rfl : o = .value z := isValue
    have sub := keys_filterMap (d.iterPairsRef ord) fun m s => inAll fl agg m others (fl.mul s weight)
    obtain ⟨d', inserts, h⟩ := insertAll_stands thr stands_new ((stands.nodup_pairs ord).sublist sub) fun e mem => by
      obtain ⟨e', there, same⟩ := List.mem_map.1 (sub.subset (List.mem_map_of_mem mem))
      exact same ▸ stands.short_pairs ord e' there
    refine ⟨d', inserts, h.congr fun m => ?_⟩
    have value : weighted fl (scores (.value z)) weight = weighted fl z weight := rfl
    have here := stands.lookup ord m
    rw [Option.or_none, lookup_filterMap (stands.nodup_pairs ord) (fun m s => inAll fl agg m others (fl.mul s weight)),
      terms_cons, Merging.inter_cons, value]
    unfold weighted
    cases found : (d.iterPairsRef ord).lookup m with
    | none =>
      rw [found, Option.map_none, eq_comm, Option.map_eq_none_iff] at here
      rw [here]
      rfl
    | some s =>
      rw [found, Option.map_some, eq_comm, Option.map_eq_some_iff] at here
      obtain ⟨s', there, key⟩ := here
      rw [there]
      exact inAll_key rest m (fl.mul_key key.symm rfl)

theorem gather_of_clones {ds : List ZSetData} (clones : List.Forall₂ Clone ds operands) :
    ∃ zs, gather (operands.map Prod.fst) = .all zs := by
  induction clones with
  | nil => exact ⟨[], rfl⟩
  | @cons d o ds operands clone _ ih =>
    obtain ⟨o, weight⟩ := o
    obtain ⟨z, isValue, -⟩ := clone
    obtain rfl : o = .value z := isValue
    obtain ⟨zs, gathers⟩ := ih
    exact ⟨z :: zs, by rw [List.map_cons, gather, gathers]⟩

theorem Given.weights (given : Given now db sources operands) : sources.map Prod.snd = operands.map Prod.snd := by
  induction given with
  | nil => rfl
  | cons first _ ih => rw [List.map_cons, List.map_cons, ih, first.2]

theorem inter_of_missing (gone : .missing ∈ operands.map Prod.fst) :
    Merging.inter (combine fl agg) (terms fl operands) = fun _ => none := by
  obtain ⟨⟨o, weight⟩, mem, isMissing⟩ := List.mem_map.1 gone
  obtain rfl : o = .missing := isMissing
  exact Merging.inter_of_empty (List.mem_map.2 ⟨_, mem, rfl⟩)

/-- **ZINTER computes the intersection** of what it has cloned. -/
theorem computeZinterResult_computes (fl : Floats) (thr : ZSetThresholds) (ord : ScoreOrder) (agg : Aggregate)
    (given : Given now db sources operands) :
    Checked (Computes now db
        (computeZinterResult fl thr ord now (sources.map Prod.fst) (sources.map Prod.snd) agg db))
      (gather (operands.map Prod.fst) = .wrong) (Merging.inter (combine fl agg) (terms fl operands)) := by
  obtain ⟨cloned, same⟩ := cloneSets_cloned [] given
  unfold computeZinterResult
  generalize cloneSets now (sources.map Prod.fst) [] db = out at cloned same ⊢
  obtain ⟨db', out⟩ := out
  cases cloned with
  | @all ds clones =>
    obtain ⟨zs, gathers⟩ := gather_of_clones clones
    obtain ⟨d, computes, stands⟩ := intersectSets_stands fl thr ord agg (withWeights_weighs clones)
    rw [gathers]
    refine ⟨nofun, fun _ => ⟨⟨d, ?_, stands⟩, same⟩⟩
    dsimp only
    rw [List.nil_append, given.weights, computes]
    rfl
  | missing gathers =>
    rw [inter_of_missing (missing_mem_of_gather gathers), gathers]
    exact ⟨nofun, fun _ => ⟨⟨_, rfl, stands_new⟩, same⟩⟩
  | wrong gathers => exact ⟨fun _ => ⟨rfl, same⟩, fun fine => (fine gathers).elim⟩

/-! ### ZINTERCARD -/

open SetAlgebra (capped limited limitOf)

/-- The members of a sorted set. -/
def memberSet (ord : ScoreOrder) (d : ZSetData) : Finset Bytes := (d.memberKeys ord).toFinset

/-- The members of a clone are those of its operand. -/
theorem Clone.mem_iff {o : Operand ZMap × F64} (clone : Clone d o) (ord : ScoreOrder) (m : Bytes) :
    (m ∈ memberSet ord d ↔ (scores o.1 m).isSome) ∧ (m ∈ memberSet ord d ↔ (d.score m).isSome) := by
  obtain ⟨z, isValue, stands⟩ := clone
  have same := congrArg Option.isSome (stands.score m)
  rw [Option.isSome_map, Option.isSome_map] at same
  rw [memberSet, List.mem_toFinset, stands.mem_keys ord, isValue, same]
  exact ⟨.rfl, .rfl⟩

/-- The members that all clones have are those of the intersection. -/
theorem mem_inter_clones {ds : List ZSetData} (clones : List.Forall₂ Clone ds operands) (nonempty : ds ≠ []) (m : Bytes) :
    m ∈ Operand.inter (ds.map fun d => .value (memberSet ord d)) ↔
      (Merging.inter (combine fl agg) (terms fl operands) m).isSome := by
  have some_ : ds.map (fun d => (.value (memberSet ord d) : Operand (Finset Bytes))) ≠ [] := by simpa using nonempty
  have some' : terms fl operands ≠ [] := by
    rw [terms, ne_eq, List.map_eq_nil_iff, ← List.length_eq_zero_iff, ← clones.length_eq, List.length_eq_zero_iff]
    exact nonempty
  rw [mem_inter some_, Merging.inter_isSome some', List.forall_mem_map, terms, List.forall_mem_map]
  clear nonempty some_ some'
  show (∀ d ∈ ds, m ∈ memberSet ord d) ↔ ∀ o ∈ operands, (weighted fl (scores o.1) o.2 m).isSome
  induction clones with
  | nil => simp
  | @cons d o ds operands clone _ ih =>
    have same : (weighted fl (scores o.1) o.2 m).isSome ↔ (scores o.1 m).isSome := by simp [weighted]
    rw [List.forall_mem_cons, List.forall_mem_cons, ih, same, (clone.mem_iff ord m).1]

theorem clone_of_mem {ds : List ZSetData} (clones : List.Forall₂ Clone ds operands) (mem : d ∈ ds) : ∃ o, Clone d o := by
  induction clones with
  | nil => cases mem
  | cons clone _ ih =>
    rcases List.mem_cons.1 mem with rfl | mem
    · exact ⟨_, clone⟩
    · exact ih mem

/-- ZINTERCARD counts common members up to its limit. -/
theorem countCommon_eq (fl : Floats) (ord : ScoreOrder) (agg : Aggregate) {limit : Option Nat} (positive : ∀ lim, limit = some lim → 0 < lim) {ds : List ZSetData}
    (clones : List.Forall₂ Clone ds operands) :
    ∃ l, Ordered l (ZSetData.keys (Merging.inter (combine fl agg) (terms fl operands))) ∧
      countCommon ord limit ds = capped limit l.length := by
  cases empty : ds with
  | nil =>
    subst empty
    cases clones
    refine ⟨[], ⟨.nil, .nil⟩, ?_⟩
    have zero : countCommon ord limit [] = 0 := rfl
    rw [zero]
    cases limit <;> simp [capped]
  | cons d ds' =>
    rw [← empty]
    have nonempty : ds ≠ [] := by simp [empty]
    clear empty
    obtain ⟨d', -, l, -, ordered⟩ := intersectSets_stands fl .default ord agg (withWeights_weighs clones)
    refine ⟨l, ordered, ?_⟩
    have size : l.length = (Operand.inter (ds.map fun d => .value (memberSet ord d))).card := by
      rw [← List.length_map (f := Prod.snd), ← List.toFinset_card_of_nodup ordered.nodup]
      congr 1
      ext m
      rw [List.mem_toFinset, ZSetData.mem_of_ordered ordered, mem_inter_clones clones nonempty]
    have inside := @smallestIdx_lt (2 ^ 64 - 1) (ds.map ZSetData.len) (by simpa using nonempty)
    unfold countCommon
    dsimp only
    generalize smallestIdx (2 ^ 64 - 1) (ds.map ZSetData.len) = idx at inside ⊢
    rw [List.length_map] at inside
    have entry (i : Nat) (m : Bytes) : ((ds[i]?.getD .new).score m).isSome =
        decide (m ∈ (ds.map (memberSet ord))[i]?.getD ∅) := by
      rw [List.getElem?_map]
      cases there : ds[i]? with
      | none => rfl
      | some d =>
        obtain ⟨o, clone⟩ := clone_of_mem clones (List.mem_of_getElem? there)
        rw [Option.map_some, Option.getD_some, Option.getD_some, Bool.eq_iff_iff, decide_eq_true_eq,
          (clone.mem_iff ord m).2]
    have tests : (fun m => (othersOf idx ds.length).all fun i => ((ds[i]?.getD .new).score m).isSome) =
        fun m => decide (∀ i ∈ othersOf idx (ds.map (memberSet ord)).length, m ∈ (ds.map (memberSet ord))[i]?.getD ∅) := by
      funext m
      rw [Bool.eq_iff_iff, List.all_eq_true, List.length_map]
      simp only [entry, decide_eq_true_eq]
    have inside' : idx < (ds.map (memberSet ord)).length := by rwa [List.length_map]
    have all := filter_others inside'
    rw [List.map_map] at all
    obtain ⟨o, z, isValue, stands⟩ := clone_of_mem clones (List.getElem_mem inside)
    have nodup : ((ds[idx]).memberKeys ord).Nodup := stands.nodup_pairs ord
    rw [tests, SetAlgebra.countUpTo_capped _ positive, List.getElem?_eq_getElem inside, Option.getD_some, size]
    congr 1
    show _ = (Operand.inter (ds.map (.value ∘ memberSet ord))).card
    rw [← all, List.countP_eq_length_filter, ← List.toFinset_card_of_nodup (nodup.filter _)]
    congr 1
    ext m
    simp [memberSet]

/-! ## What is meant -/

/-- How many members there are, as far as the limit allows. -/
def Counts (limit : Option Int64) (out : Result Nat) : Result ZMap → Prop
  | .ok z => ∃ l, Ordered l (ZSetData.keys z) ∧ out.map (fun n => (n : Int)) = .ok (limited limit l.length)
  | .error e => out = .error e

/-- An array of the members in the order (score, member). -/
def Lists (env : SortedRanges.Env) (withscores : Bool) (out : Option (Result Resp)) : Result ZMap → Prop
  | .ok z => ∃ l, Ordered l (ZSetData.keys z) ∧
      out = some (.ok (.array (some (formatZrangeResult env (l.map fun e => (e.2, e.1)) withscores))))
  | .error e => out = some (.error e)

/-- A command answers this and changes nothing. -/
structure Replies (env : SortedRanges.Env) (withscores : Bool) (now : Nat) (db : ShardedDatabase) (out : Run Resp)
    (r : Result ZMap) : Prop where
  lists : Lists env withscores out.2 r
  untouched : ShardedDatabase.Untouched now db out.1

/-- The destination holds this set without a deadline, and its size is the answer. -/
structure Stored (now : Nat) (db : ShardedDatabase) (dst : Bytes) (out : Run Resp) (z : ZMap) : Prop where
  answer : ∃ l, Ordered l (ZSetData.keys z) ∧ out.2 = some (.ok (.integer (.ofNat l.length)))
  holds : ∃ d, out.1.held now dst = some (.zset d, none) ∧ Stands d z
  others : ∀ x, x ≠ dst → out.1.held now x = db.held now x

/-- Store a set, or change nothing. -/
def Stores (now : Nat) (db : ShardedDatabase) (dst : Bytes) (out : Run Resp) : Result ZMap → Prop
  | .ok z => Stored now db dst out z
  | .error e => SetAlgebra.Answers now db out (.error e)

/-- Two computations come to the same. -/
def Agree (out out' : Run ZSetData) : Prop := ∃ r, Comes out.2 r ∧ Comes out'.2 r

/-- A check that lets nothing else pass says of another check when the two are the same. -/
theorem checked_iff {P : Result ZMap → Prop} (apart : ∀ z, P (.ok z) → ¬P (.error .wrongType)) {refused refused' : Prop}
    (h : Checked P refused z) : Checked P refused' z ↔ (refused ↔ refused') := by
  constructor
  · intro h'
    constructor
    · intro bad
      by_contra fine
      exact apart z (h'.2 fine) (h.1 bad)
    · intro bad
      by_contra fine
      exact apart z (h.2 fine) (h'.1 bad)
  · intro same
    exact ⟨fun bad => h.1 (same.2 bad), fun fine => h.2 fun bad => fine (same.1 bad)⟩

/-- What follows from the result follows from the checked result. -/
theorem Checked.imp {P Q : Result ZMap → Prop} {refused : Prop} (h : Checked P refused z) (into : ∀ r, P r → Q r) :
    Checked Q refused z := ⟨fun bad => into _ (h.1 bad), fun fine => into _ (h.2 fine)⟩

theorem lists_apart {env : SortedRanges.Env} {withscores : Bool} {out : Run Resp} (z : ZMap)
    (h : Replies env withscores now db out (.ok z)) : ¬Replies env withscores now db out (.error .wrongType) := by
  obtain ⟨l, -, answer⟩ := h.lists
  intro fails
  have error : out.2 = some (.error .wrongType) := fails.lists
  rw [answer] at error
  cases error

theorem stores_apart {dst : Bytes} {out : Run Resp} (z : ZMap) (h : Stores now db dst out (.ok z)) :
    ¬Stores now db dst out (.error .wrongType) := by
  obtain ⟨l, -, answer⟩ := h.answer
  intro fails
  have error := fails.answer
  rw [answer] at error
  cases error

theorem answerZset_replies (env : SortedRanges.Env) (withscores : Bool) {out : Run ZSetData} {r : Result ZMap}
    (h : Computes now db out r) : Replies env withscores now db (answerZset env withscores out) r := by
  refine ⟨?_, h.untouched⟩
  have comes := h.comes
  unfold answerZset
  cases r with
  | error e =>
    have error : out.2 = some (.error e) := comes
    rw [error]
    exact rfl
  | ok z =>
    obtain ⟨d, answer, l, holds, ordered⟩ := comes
    rw [answer]
    exact ⟨l, ordered, by rw [← ZSetData.toPairsSorted_of_holds holds]; rfl⟩

/-- The destination holds what has been computed, or is gone when that is empty. -/
theorem storeZset_stores (dst : Bytes) {out : Run ZSetData} {r : Result ZMap} (h : Computes now db out r) :
    Stores now db dst (storeZset dst out) r := by
  obtain ⟨comes, same⟩ := h
  obtain ⟨db', out⟩ := out
  cases r with
  | error e =>
    obtain rfl : out = some (.error e) := comes
    exact ⟨rfl, same⟩
  | ok z =>
    obtain ⟨d, answer, stands⟩ := comes
    obtain rfl : out = some (.ok d) := answer
    have after := (ShardedDatabase.Acts.writeFor (Database.acts_insert now dst (.new (.zset d))) db').2
    refine ⟨?_, ⟨d, ?_, stands⟩, fun x other => ?_⟩
    · obtain ⟨l, holds, ordered⟩ := stands
      exact ⟨l, ordered, by rw [← ZSetData.len_of_holds holds]; rfl⟩
    · rw [ShardedDatabase.held, storeZset, after, if_pos rfl]
      rfl
    · rw [ShardedDatabase.held, storeZset, after, if_neg other]
      exact same x

theorem zintercard_counts (fl : Floats) (ord : ScoreOrder) (agg : Aggregate) {c : SetAlgebra.CardCall} (keys : c.keys = sources.map Prod.fst)
    (given : Given now db sources operands) :
    (gather (operands.map Prod.fst) = .wrong → (zintercard ord now c db).2 = .error .wrongType) ∧
      (gather (operands.map Prod.fst) ≠ .wrong →
        ∃ l, Ordered l (ZSetData.keys (Merging.inter (combine fl agg) (terms fl operands))) ∧
          (zintercard ord now c db).2 = .ok (capped (limitOf c.limit) l.length)) := by
  obtain ⟨cloned, -⟩ := cloneSets_cloned [] given
  unfold zintercard
  rw [keys]
  generalize cloneSets now (sources.map Prod.fst) [] db = out at cloned ⊢
  obtain ⟨db', out⟩ := out
  cases cloned with
  | @all ds clones =>
    obtain ⟨zs, gathers⟩ := gather_of_clones clones
    obtain ⟨l, ordered, counts⟩ := countCommon_eq fl ord agg
      (fun _ h => @SetAlgebra.limitOf_positive c.limit _ h) clones
    rw [gathers]
    refine ⟨nofun, fun _ => ⟨l, ordered, ?_⟩⟩
    rw [← counts]
    rfl
  | missing gathers =>
    rw [inter_of_missing (missing_mem_of_gather gathers), gathers]
    refine ⟨nofun, fun _ => ⟨[], ⟨.nil, .nil⟩, ?_⟩⟩
    cases limitOf c.limit <;> simp [capped, Except.map]
  | wrong gathers => exact ⟨fun _ => rfl, fun fine => (fine gathers).elim⟩

/-- Two orders of the same members have the same length. -/
theorem ordered_length {l l' : List ZPair} (h : Ordered l (ZSetData.keys z)) (h' : Ordered l' (ZSetData.keys z)) :
    l.length = l'.length := by
  have perm := (h.lists.perm_of h'.lists).length_eq
  rwa [memberKeys, memberKeys, List.length_map, List.length_map] at perm

/-- ZINTERCARD is right unless it hides a wrong value or its limit is negative. -/
theorem zintercard_iff (fl : Floats) (ord : ScoreOrder) (agg : Aggregate) {c : SetAlgebra.CardCall} (keys : c.keys = sources.map Prod.fst)
    (given : Given now db sources operands) :
    Checked (Counts c.limit (zintercard ord now c db).2) (.wrong ∈ operands.map Prod.fst)
        (Merging.inter (combine fl agg) (terms fl operands)) ↔
      ¬Hidden (operands.map Prod.fst) ∧ (.wrong ∈ operands.map Prod.fst ∨ ∀ l, c.limit = some l → 0 ≤ l) := by
  obtain ⟨refuses, counts⟩ := zintercard_counts fl ord agg keys given
  generalize (zintercard ord now c db).2 = out at refuses counts ⊢
  by_cases there : .wrong ∈ operands.map Prod.fst
  · have sees : gather (operands.map Prod.fst) = .wrong ↔ ¬Hidden (operands.map Prod.fst) := by
      rw [gather_eq_wrong_iff, and_iff_right there]
    have error : out = .error .wrongType ↔ gather (operands.map Prod.fst) = .wrong := by
      refine ⟨fun error => ?_, refuses⟩
      by_contra fine
      obtain ⟨l, -, answer⟩ := counts fine
      rw [error] at answer
      cases answer
    rw [Checked, ← sees, ← error]
    simp [there, Counts]
  · have shown : ¬Hidden (operands.map Prod.fst) := fun hidden => there hidden.wrong_mem
    obtain ⟨l, ordered, answer⟩ := counts fun sees => there (gather_eq_wrong_iff.1 sees).1
    rw [Checked, ← SetAlgebra.capped_eq_limited_iff c.limit l.length, answer]
    simp only [there, shown, Counts, Except.map, not_false_eq_true, true_and, false_or, forall_true_left, false_imp_iff]
    constructor
    · rintro ⟨l', ordered', same⟩
      rw [ordered_length ordered ordered']
      rw [ordered_length ordered ordered'] at same
      exact Except.ok.inj same
    · intro same
      exact ⟨l, ordered, congrArg Except.ok same⟩

/-! ## The order of the keys -/

/-- Keys in another order have their operands in that order. -/
theorem Given.perm {sources' : List (Bytes × F64)} (given : Given now db sources operands)
    (perm : sources'.Perm sources) : ∃ operands', operands'.Perm operands ∧ Given now db sources' operands' := by
  obtain ⟨operands', given', perm'⟩ := List.perm_comp_forall₂ perm given
  exact ⟨operands', perm', given'⟩

theorem Given.perm_operands {operands' : List (Operand ZMap × F64)} (given : Given now db sources operands)
    (perm : operands'.Perm operands) : ∃ sources', sources'.Perm sources ∧ Given now db sources' operands' := by
  obtain ⟨sources', given', perm'⟩ := List.perm_comp_forall₂ perm given.flip
  exact ⟨sources', perm', given'.flip⟩

/-- What MIN and MAX do with places in the order. -/
theorem combine_image (extreme : agg ≠ .sum) : ∃ f : Int → Int → Int,
    (∀ a b, (combine fl agg a b).key = f a.key b.key) ∧ (∀ a b, f a b = f b a) ∧ ∀ a b c, f (f a b) c = f a (f b c) := by
  cases agg with
  | sum => exact (extreme rfl).elim
  | min => exact ⟨min, F64.minNum_key, min_comm, min_assoc⟩
  | max => exact ⟨F64.maxKey, F64.maxNum_key, F64.maxKey_comm, F64.maxKey_assoc⟩

theorem terms_perm {operands' : List (Operand ZMap × F64)} (perm : operands'.Perm operands) :
    (terms fl operands').Perm (terms fl operands) := perm.map _

theorem union_perm_key (extreme : agg ≠ .sum) {operands' : List (Operand ZMap × F64)} (perm : operands'.Perm operands)
    (m : Bytes) : (Merging.union (combine fl agg) (terms fl operands') m).map F64.key =
      (Merging.union (combine fl agg) (terms fl operands) m).map F64.key := by
  obtain ⟨f, hom, comm, assoc⟩ := @combine_image fl agg extreme
  exact Merging.union_map_perm hom comm assoc (terms_perm perm) m

theorem inter_perm_key (extreme : agg ≠ .sum) {operands' : List (Operand ZMap × F64)} (perm : operands'.Perm operands)
    (m : Bytes) : (Merging.inter (combine fl agg) (terms fl operands') m).map F64.key =
      (Merging.inter (combine fl agg) (terms fl operands) m).map F64.key := by
  obtain ⟨f, hom, comm, assoc⟩ := @combine_image fl agg extreme
  exact Merging.inter_map_perm hom comm assoc (terms_perm perm) m

theorem Comes.congr {out : Option (Result ZSetData)} {z z' : ZMap} (h : Comes out (.ok z))
    (same : ∀ m, (z m).map F64.key = (z' m).map F64.key) : Comes out (.ok z') := by
  obtain ⟨d, answer, stands⟩ := h
  exact ⟨d, answer, stands.congr same⟩

theorem comes_apart {out : Option (Result ZSetData)} {e : NexradeError} (h : Comes out (.ok z)) : ¬Comes out (.error e) := by
  obtain ⟨d, answer, -⟩ := h
  intro fails
  have error : out = some (.error e) := fails
  rw [answer] at error
  cases error

theorem agree_zunion (fl : Floats) (thr : ZSetThresholds) (ord : ScoreOrder) (extreme : agg ≠ .sum) (given : Given now db sources operands) {sources' : List (Bytes × F64)}
    (perm : sources'.Perm sources) :
    Agree (computeZunionResult fl thr ord now (sources'.map Prod.fst) (sources'.map Prod.snd) agg db)
      (computeZunionResult fl thr ord now (sources.map Prod.fst) (sources.map Prod.snd) agg db) := by
  obtain ⟨operands', perm', given'⟩ := given.perm perm
  exact ⟨_, (computeZunionResult_computes fl thr ord agg given').comes.congr (union_perm_key extreme perm'),
    (computeZunionResult_computes fl thr ord agg given).comes⟩

/-- Intersections agree when no order hides a wrong operand that another shows. -/
theorem agree_zinter_iff (fl : Floats) (thr : ZSetThresholds) (ord : ScoreOrder) (extreme : agg ≠ .sum) (given : Given now db sources operands) :
    (∀ sources' : List (Bytes × F64), sources'.Perm sources →
        Agree (computeZinterResult fl thr ord now (sources'.map Prod.fst) (sources'.map Prod.snd) agg db)
          (computeZinterResult fl thr ord now (sources.map Prod.fst) (sources.map Prod.snd) agg db)) ↔
      ¬(.missing ∈ operands.map Prod.fst ∧ .wrong ∈ operands.map Prod.fst) := by
  constructor
  · rintro agree ⟨gone, bad⟩
    -- a missing key first ends the loop, a wrong one first is refused
    have early : ∃ z, Comes (computeZinterResult fl thr ord now (sources.map Prod.fst) (sources.map Prod.snd) agg db).2
        (.ok z) := by
      obtain ⟨⟨o, weight⟩, mem, isMissing⟩ := List.mem_map.1 gone
      obtain rfl : o = .missing := isMissing
      obtain ⟨a, y, rfl⟩ := List.append_of_mem mem
      obtain ⟨sources', perm, given'⟩ := given.perm_operands List.perm_middle.symm
      obtain ⟨r, comes, comes'⟩ := agree sources' perm
      have fine := (computeZinterResult_computes fl thr ord agg given').2 nofun
      cases r with
      | ok z => exact ⟨z, comes'⟩
      | error e => exact (comes_apart fine.comes comes).elim
    obtain ⟨⟨o, weight⟩, mem, isWrong⟩ := List.mem_map.1 bad
    obtain rfl : o = .wrong := isWrong
    obtain ⟨a, y, rfl⟩ := List.append_of_mem mem
    obtain ⟨sources', perm, given'⟩ := given.perm_operands List.perm_middle.symm
    obtain ⟨r, comes, comes'⟩ := agree sources' perm
    have refused := (computeZinterResult_computes fl thr ord agg given').1 rfl
    obtain ⟨z, fine⟩ := early
    cases r with
    | ok z => exact comes_apart comes refused.comes
    | error e => exact comes_apart fine comes'
  · intro not sources' perm
    obtain ⟨operands', perm', given'⟩ := given.perm perm
    have shown : ∀ l, l.Perm (operands.map Prod.fst) → ¬Hidden l := not_hidden_perm_iff.2 not
    have sees' : gather (operands'.map Prod.fst) = .wrong ↔ .wrong ∈ operands.map Prod.fst := by
      rw [gather_eq_wrong_iff_mem_iff.2 (shown _ (perm'.map _)), (perm'.map Prod.fst).mem_iff]
    have sees := gather_eq_wrong_iff_mem_iff.2 (shown _ (.refl _))
    have here := computeZinterResult_computes fl thr ord agg given
    have there := computeZinterResult_computes fl thr ord agg given'
    by_cases bad : .wrong ∈ operands.map Prod.fst
    · exact ⟨_, (there.1 (sees'.2 bad)).comes, (here.1 (sees.2 bad)).comes⟩
    · exact ⟨_, (there.2 fun wrong => bad (sees'.1 wrong)).comes.congr (inter_perm_key extreme perm'),
        (here.2 fun wrong => bad (sees.1 wrong)).comes⟩

/-! ## As many weights as keys -/

theorem keyArgs_length {cmd : String} {n : Nat} {rest rest' : List Resp} {keys : List Bytes}
    (h : keyArgs cmd n rest = .ok (keys, rest')) : keys.length = n := by
  induction n generalizing rest keys with
  | zero =>
    cases h
    rfl
  | succ n ih =>
    rw [keyArgs] at h
    obtain ⟨key, -, h⟩ := exists_of_bind_ok h
    obtain ⟨⟨others, behind⟩, parsed, h⟩ := exists_of_bind_ok h
    cases h
    rw [List.length_cons, ih parsed]

theorem weightArgs_length {env : SortedRanges.Env} {cmd : String} {n : Nat} {rest : List Resp} {weights : List F64}
    (h : weightArgs env cmd n rest = .ok weights) : weights.length = n := by
  induction n generalizing rest weights with
  | zero =>
    cases h
    rfl
  | succ n ih =>
    rw [weightArgs] at h
    obtain ⟨text, -, h⟩ := exists_of_bind_ok h
    obtain ⟨v, -, h⟩ := exists_of_bind_ok h
    obtain ⟨others, parsed, h⟩ := exists_of_bind_ok h
    cases h
    rw [List.length_cons, ih parsed]

theorem algebraOptions_weights {env : SortedRanges.Env} {scores : Bool} {cmd : String} {n : Nat} {rest : List Resp}
    {o o' : AlgebraOptions} (many : o.weights.length = n) (h : algebraOptions env scores cmd n rest o = .ok o') :
    o'.weights.length = n := by
  induction size : rest.length using Nat.strongRecOn generalizing rest o with
  | ind size ih =>
    subst size
    cases rest with
    | nil =>
      rw [algebraOptions] at h
      cases h
      exact many
    | cons a rest =>
      have shorter (k : Nat) : (rest.drop k).length < (a :: rest).length := by
        rw [List.length_drop, List.length_cons]
        omega
      rw [algebraOptions] at h
      obtain ⟨text, -, h⟩ := exists_of_bind_ok h
      dsimp only at h
      split at h
      · obtain ⟨weights, parsed, h⟩ := exists_of_bind_ok h
        exact ih _ (shorter n) (weightArgs_length parsed) h rfl
      · split at h
        · obtain ⟨text, -, h⟩ := exists_of_bind_ok h
          obtain ⟨agg, -, h⟩ := exists_of_bind_ok h
          refine ih _ (shorter 1) ?_ h rfl
          exact many
        · split at h
          · refine ih _ (Nat.lt_succ_self _) ?_ h rfl
            exact many
          · cases h

theorem algebraCall_lengths {env : SortedRanges.Env} {scores : Bool} {cmd : String} {args : List Resp} {c : AlgebraCall}
    (h : algebraCall env scores cmd args = .ok c) : c.keys.length = c.options.weights.length := by
  obtain ⟨n, -, h⟩ := exists_of_bind_ok h
  obtain ⟨⟨keys, rest⟩, parsed, h⟩ := exists_of_bind_ok h
  obtain ⟨o, options, h⟩ := exists_of_bind_ok h
  cases h
  have many : (⟨List.replicate n one, .sum, false⟩ : AlgebraOptions).weights.length = n := List.length_replicate
  exact (keyArgs_length parsed).trans (algebraOptions_weights many options).symm

theorem sources_unzip {c : AlgebraCall} (lengths : c.keys.length = c.options.weights.length) :
    c.sources.map Prod.fst = c.keys ∧ c.sources.map Prod.snd = c.options.weights :=
  ⟨List.map_fst_zip lengths.le, List.map_snd_zip lengths.ge⟩

theorem readingCall_unzip {env : SortedRanges.Env} {cmd : String} {args : List Resp} {c : AlgebraCall}
    (h : readingCall env cmd args = .ok c) :
    c.sources.map Prod.fst = c.keys ∧ c.sources.map Prod.snd = c.options.weights := by
  unfold readingCall at h
  exact sources_unzip (algebraCall_lengths (of_guard h))

theorem storingCall_unzip {env : SortedRanges.Env} {cmd : String} {args : List Resp} {dst : Bytes} {c : AlgebraCall}
    (h : storingCall env cmd args = .ok (dst, c)) :
    c.sources.map Prod.fst = c.keys ∧ c.sources.map Prod.snd = c.options.weights := by
  unfold storingCall at h
  obtain ⟨dst', -, h⟩ := exists_of_bind_ok (of_guard h)
  obtain ⟨c', call, h⟩ := exists_of_bind_ok h
  cases h
  exact sources_unzip (algebraCall_lengths call)

/-! ## The commands, against the algebra -/

/-- When each command is right about these keys with their weights. -/
structure Right (env : SortedRanges.Env) (fl : Floats) (thr : ZSetThresholds) (ord : ScoreOrder) (now : Nat)
    (db : ShardedDatabase) (sources : List (Bytes × F64)) (operands : List (Operand ZMap × F64)) (agg : Aggregate) :
    Prop where
  zunion : ∀ args c, readingCall env "zunion" args = .ok c → c.sources = sources → c.options.agg = agg →
    (Checked (Replies env c.options.withscores now db (cmdZunion env fl thr ord now args db))
        (.wrong ∈ operands.map Prod.fst) (Merging.union (combine fl agg) (terms fl operands)) ↔
      .wrong ∉ operands.map Prod.fst)
  zunionstore : ∀ args dst c, storingCall env "zunionstore" args = .ok (dst, c) → c.sources = sources →
    c.options.agg = agg →
    (Checked (Stores now db dst (cmdZunionstore env fl thr ord now args db))
        (.wrong ∈ operands.map Prod.fst) (Merging.union (combine fl agg) (terms fl operands)) ↔
      .wrong ∉ operands.map Prod.fst)
  zinter : ∀ args c, readingCall env "zinter" args = .ok c → c.sources = sources → c.options.agg = agg →
    (Checked (Replies env c.options.withscores now db (cmdZinter env fl thr ord now args db))
        (.wrong ∈ operands.map Prod.fst) (Merging.inter (combine fl agg) (terms fl operands)) ↔
      ¬Hidden (operands.map Prod.fst))
  zinterstore : ∀ args dst c, storingCall env "zinterstore" args = .ok (dst, c) → c.sources = sources →
    c.options.agg = agg →
    (Checked (Stores now db dst (cmdZinterstore env fl thr ord now args db))
        (.wrong ∈ operands.map Prod.fst) (Merging.inter (combine fl agg) (terms fl operands)) ↔
      ¬Hidden (operands.map Prod.fst))
  zdiff : ∀ args c, zdiffCall env args = .ok c → c.keys = sources.map Prod.fst →
    (Checked (Replies env c.withscores now db (cmdZdiff env thr ord now args db))
        (.wrong ∈ operands.map Prod.fst) (Merging.diff (kept operands)) ↔
      (.wrong ∈ operands.map Prod.fst → (operands.map Prod.fst).head? = some .wrong))
  zdiffstore : ∀ args dst keys, zdiffstoreCall args = .ok (dst, keys) → keys = sources.map Prod.fst →
    (Checked (Stores now db dst (cmdZdiffstore thr ord now args db))
        (.wrong ∈ operands.map Prod.fst) (Merging.diff (kept operands)) ↔
      (.wrong ∈ operands.map Prod.fst → (operands.map Prod.fst).head? = some .wrong))
  zintercard : ∀ args c, zintercardCall env args = .ok c → c.keys = sources.map Prod.fst →
    (cmdZintercard env ord now args db).2 = (zintercard ord now c db).2.map (fun n => .integer (.ofNat n)) ∧
      (Checked (Counts c.limit (zintercard ord now c db).2)
          (.wrong ∈ operands.map Prod.fst) (Merging.inter (combine fl agg) (terms fl operands)) ↔
        ¬Hidden (operands.map Prod.fst) ∧ (.wrong ∈ operands.map Prod.fst ∨ ∀ l, c.limit = some l → 0 ≤ l))
  unionOrder : agg ≠ .sum → ∀ sources' : List (Bytes × F64), sources'.Perm sources →
    Agree (computeZunionResult fl thr ord now (sources'.map Prod.fst) (sources'.map Prod.snd) agg db)
      (computeZunionResult fl thr ord now (sources.map Prod.fst) (sources.map Prod.snd) agg db)
  interOrder : agg ≠ .sum → ((∀ sources' : List (Bytes × F64), sources'.Perm sources →
      Agree (computeZinterResult fl thr ord now (sources'.map Prod.fst) (sources'.map Prod.snd) agg db)
        (computeZinterResult fl thr ord now (sources.map Prod.fst) (sources.map Prod.snd) agg db)) ↔
    ¬(.missing ∈ operands.map Prod.fst ∧ .wrong ∈ operands.map Prod.fst))

theorem checked_of_ok {P : Result ZMap → Prop} (h : P (.ok z)) : Checked P False z := ⟨False.elim, fun _ => h⟩

theorem false_iff_wrong : (False ↔ Operand.wrong ∈ operands.map Prod.fst) ↔ .wrong ∉ operands.map Prod.fst := by
  rw [false_iff]

theorem head_wrong_iff : ((operands.map Prod.fst).head? = some Operand.wrong ↔ .wrong ∈ operands.map Prod.fst) ↔
    (.wrong ∈ operands.map Prod.fst → (operands.map Prod.fst).head? = some .wrong) :=
  ⟨Iff.mpr, fun first => ⟨List.mem_of_head?, first⟩⟩

/-- **ZUNION is right unless a key holds another type, ZINTER and ZINTERCARD unless such a key stands behind a missing
one (and the limit is not negative), and ZDIFF if the first key is such a one or none is; so are their STORE forms, also
where the destination is one of the keys. With MIN and MAX the order of the keys matters for ZINTER only, if one is
missing and one of another type.** -/
theorem zset_algebra_iff (env : SortedRanges.Env) (fl : Floats) (thr : ZSetThresholds) (ord : ScoreOrder) {now : Nat}
    {db : ShardedDatabase} {sources : List (Bytes × F64)} {operands : List (Operand ZMap × F64)} (agg : Aggregate)
    (given : Given now db sources operands) : Right env fl thr ord now db sources operands agg where
  zunion := by
    rintro args c call rfl rfl
    obtain ⟨keys, weights⟩ := readingCall_unzip call
    have computes := computeZunionResult_computes fl thr ord c.options.agg given
    rw [keys, weights] at computes
    rw [← false_iff_wrong, cmdZunion, call]
    exact checked_iff lists_apart (checked_of_ok (answerZset_replies env _ computes))
  zunionstore := by
    rintro args dst c call rfl rfl
    obtain ⟨keys, weights⟩ := storingCall_unzip call
    have computes := computeZunionResult_computes fl thr ord c.options.agg given
    rw [keys, weights] at computes
    rw [← false_iff_wrong, cmdZunionstore, call]
    exact checked_iff stores_apart (checked_of_ok (storeZset_stores dst computes))
  zinter := by
    rintro args c call rfl rfl
    obtain ⟨keys, weights⟩ := readingCall_unzip call
    have computes := computeZinterResult_computes fl thr ord c.options.agg given
    rw [keys, weights] at computes
    rw [← gather_eq_wrong_iff_mem_iff, cmdZinter, call]
    exact checked_iff lists_apart (computes.imp fun r => answerZset_replies env _)
  zinterstore := by
    rintro args dst c call rfl rfl
    obtain ⟨keys, weights⟩ := storingCall_unzip call
    have computes := computeZinterResult_computes fl thr ord c.options.agg given
    rw [keys, weights] at computes
    rw [← gather_eq_wrong_iff_mem_iff, cmdZinterstore, call]
    exact checked_iff stores_apart (computes.imp fun r => storeZset_stores dst)
  zdiff := by
    rintro args c call keys
    have computes := computeZdiffResult_computes thr ord given
    rw [← keys] at computes
    rw [← head_wrong_iff, cmdZdiff, call]
    exact checked_iff lists_apart (computes.imp fun r => answerZset_replies env _)
  zdiffstore := by
    rintro args dst keys call rfl
    have computes := computeZdiffResult_computes thr ord given
    rw [← head_wrong_iff, cmdZdiffstore, call]
    exact checked_iff stores_apart (computes.imp fun r => storeZset_stores dst)
  zintercard := by
    rintro args c call keys
    refine ⟨?_, zintercard_iff fl ord agg keys given⟩
    rw [cmdZintercard, call]
  unionOrder extreme _ perm := agree_zunion fl thr ord extreme given perm
  interOrder extreme := agree_zinter_iff fl thr ord extreme given

open ListIndex (words)

def two : F64 := ⟨0x4000000000000000⟩

/-- As much of the doubles as products with one need. -/
def unitFloats : Floats where
  add a _ := a
  mul a b := if a.key = one.key then b else if b.key = one.key then a else ⟨0⟩
  add_key left _ := left
  mul_key left right := by
    rw [left, right]
    split
    · exact right
    · split
      · exact left
      · rfl

/-- The texts of the numbers one and two, and no others. -/
def unitEnv : SortedRanges.Env :=
  ⟨fun s => if s = "1" then some one else if s = "2" then some two else none, id,
    fun score => if score = one then [49] else [50]⟩

/-- Members with the score one. -/
def withOnes (members : List Bytes) : ZSetData :=
  members.foldl (fun d m => ((d.insert .default m one).map Prod.fst).getD d) .new

/-- Their scores. -/
def ones (members : List Bytes) : ZMap := members.foldl (fun z m => Function.update z m (some one)) fun _ => none

theorem withOnes_stands {members : List Bytes} (short : ∀ m ∈ members, m.length < 2 ^ 32) :
    Stands (withOnes members) (ones members) := by
  have run (d : ZSetData) (z : ZMap) (h : Stands d z) :
      Stands (members.foldl (fun d m => ((d.insert .default m one).map Prod.fst).getD d) d)
        (members.foldl (fun z m => Function.update z m (some one)) z) := by
    induction members generalizing d z with
    | nil => exact h
    | cons m members ih =>
      obtain ⟨d', isNew, inserts, stands⟩ := h.insert .default (short m (.head _)) one
      have next : ((d.insert .default m one).map Prod.fst).getD d = d' := by rw [inserts]; rfl
      rw [List.foldl_cons, List.foldl_cons, next]
      exact ih (fun m mem => short m (.tail _ mem)) d' _ stands
  exact run .new _ stands_new

/-- The members x and y under z, and y under w. -/
def twoSorted : ShardedDatabase :=
  ⟨[(Database.new.insert [122] (.new (.zset (withOnes [[120], [121]])))).insert [119] (.new (.zset (withOnes [[121]])))],
    by simp⟩

/-- Both keys, the second with the weight two. -/
def weightedOperands : List (Operand ZMap × F64) := [(.value (ones [[120], [121]]), one), (.value (ones [[121]]), two)]

theorem given_two : Given 0 twoSorted [([122], one), ([119], two)] weightedOperands := by
  have first : twoSorted.valueAt 0 [122] = some (.zset (withOnes [[120], [121]])) := rfl
  have second : twoSorted.valueAt 0 [119] = some (.zset (withOnes [[121]])) := rfl
  refine .cons ⟨?_, rfl⟩ (.cons ⟨?_, rfl⟩ .nil)
  · rw [first]
    exact .value rfl (withOnes_stands (by simp))
  · rw [second]
    exact .value rfl (withOnes_stands (by simp))

/-- The weights one and two, and the greatest score. -/
theorem algebraOptions_weighted (scores : Bool) (cmd : String) (o : AlgebraOptions) :
    algebraOptions unitEnv scores cmd 2 (words ["WEIGHTS", "1", "2", "AGGREGATE", "MAX"]) o =
      .ok ⟨[one, two], .max, o.withscores⟩ := by
  have none (o : AlgebraOptions) : algebraOptions unitEnv scores cmd 2 [] o = .ok o := by
    rw [algebraOptions]
    rfl
  have greatest (o : AlgebraOptions) :
      algebraOptions unitEnv scores cmd 2 (words ["AGGREGATE", "MAX"]) o = .ok { o with agg := .max } := by
    show algebraOptions unitEnv scores cmd 2 (_ :: _) o = _
    rw [algebraOptions]
    exact none _
  show algebraOptions unitEnv scores cmd 2 (_ :: _) o = _
  rw [algebraOptions]
  exact greatest _

/-- ZINTER and ZUNIONSTORE of two sorted sets that overlap: the common member has the greater product. -/
theorem zset_algebra_of_two :
    Replies unitEnv false 0 twoSorted
        (cmdZinter unitEnv unitFloats .default .asStored 0
          (words ["ZINTER", "2", "z", "w", "WEIGHTS", "1", "2", "AGGREGATE", "MAX"]) twoSorted)
        (.ok (Function.update (fun _ => none) [121] (some two))) ∧
      Stores 0 twoSorted [100]
        (cmdZunionstore unitEnv unitFloats .default .asStored 0
          (words ["ZUNIONSTORE", "d", "2", "z", "w", "WEIGHTS", "1", "2", "AGGREGATE", "MAX"]) twoSorted)
        (.ok (Function.update (Function.update (fun _ => none) [120] (some one)) [121] (some two))) := by
  have right := zset_algebra_iff unitEnv unitFloats .default .asStored .max given_two
  have fine : Operand.wrong ∉ weightedOperands.map Prod.fst := by simp [weightedOperands]
  have shown : ¬Hidden (weightedOperands.map Prod.fst) := by
    show ¬Hidden [.value _, .value _]
    rw [hidden_value, hidden_value]
    exact not_hidden_nil
  have call (scores : Bool) (cmd : String) :
      algebraCall unitEnv scores cmd (words ["2", "z", "w", "WEIGHTS", "1", "2", "AGGREGATE", "MAX"]) =
        .ok ⟨[[122], [119]], [one, two], .max, false⟩ := by
    show (algebraOptions unitEnv scores cmd 2 (words ["WEIGHTS", "1", "2", "AGGREGATE", "MAX"]) _ >>= _) = _
    rw [algebraOptions_weighted]
    rfl
  have reads : readingCall unitEnv "zinter"
      (words ["ZINTER", "2", "z", "w", "WEIGHTS", "1", "2", "AGGREGATE", "MAX"]) =
        .ok ⟨[[122], [119]], [one, two], .max, false⟩ := call true "zinter"
  have stores : storingCall unitEnv "zunionstore"
      (words ["ZUNIONSTORE", "d", "2", "z", "w", "WEIGHTS", "1", "2", "AGGREGATE", "MAX"]) =
        .ok ([100], ⟨[[122], [119]], [one, two], .max, false⟩) := by
    show (algebraCall unitEnv false "zunionstore"
      (words ["2", "z", "w", "WEIGHTS", "1", "2", "AGGREGATE", "MAX"]) >>= _) = _
    rw [call]
    rfl
  refine ⟨?_, ?_⟩
  · have replies := ((right.zinter _ _ reads rfl rfl).2 shown).2 fine
    have common : Merging.inter (combine unitFloats .max) (terms unitFloats weightedOperands) =
        Function.update (fun _ => none) [121] (some two) := by
      funext m
      by_cases y : m = [121]
      · subst y
        decide +kernel
      · simp [Merging.inter, terms, weightedOperands, scores, weighted, ones, Function.update, y]
    rw [common] at replies
    exact replies
  · have stored := ((right.zunionstore _ _ _ stores rfl rfl).2 fine).2 fine
    have whole : Merging.union (combine unitFloats .max) (terms unitFloats weightedOperands) =
        Function.update (Function.update (fun _ => none) [120] (some one)) [121] (some two) := by
      funext m
      by_cases y : m = [121]
      · subst y
        decide +kernel
      · by_cases x : m = [120]
        · subst x
          decide +kernel
        · simp [Merging.union, Merging.reduce, Merging.values, terms, weightedOperands, scores, weighted, ones,
            Function.update, x, y]
    rw [whole] at stored
    exact stored

theorem readingCall_one {cmd name text : String} {key : Bytes} (isKey : Utf8.asBytes text = key) :
    readingCall unitEnv cmd (words [name, "1", text]) = .ok ⟨[key], [one], .sum, false⟩ := by
  subst isKey
  have options (o : AlgebraOptions) : algebraOptions unitEnv true cmd 1 [] o = .ok o := by
    rw [algebraOptions]
    rfl
  have number : parseNumkeysForSetOp cmd (words ["1"])[0]? = .ok 1 := by rfl
  have call : algebraCall unitEnv true cmd (words ["1", text]) = .ok ⟨[Utf8.asBytes text], [one], .sum, false⟩ := by
    show (parseNumkeysForSetOp cmd (words ["1"])[0]? >>= _) = _
    rw [number]
    show (algebraOptions unitEnv true cmd 1 [] _ >>= _) = _
    rw [options]
    rfl
  exact call

/-- A string under the key. -/
def stringStore : ShardedDatabase := .holding [115] (.string [])

/-- ZUNION of this key. -/
def unionOfString : Run Resp :=
  cmdZunion unitEnv unitFloats .default .asStored 0 (words ["ZUNION", "1", "s"]) stringStore

/-- ZUNION takes a string for an empty set. -/
theorem zunion_takes_string :
    Given 0 stringStore [([115], one)] [(.wrong, one)] ∧
      Replies unitEnv false 0 stringStore unionOfString (.ok fun _ => none) ∧
      ¬Replies unitEnv false 0 stringStore unionOfString (.error .wrongType) := by
  have given : Given 0 stringStore [([115], one)] [(.wrong, one)] := by
    refine .cons ⟨?_, rfl⟩ .nil
    rw [stringStore, ShardedDatabase.valueAt_holding]
    exact .wrong rfl
  have replies : Replies unitEnv false 0 stringStore unionOfString (.ok fun _ => none) := by
    have computes := computeZunionResult_computes unitFloats .default .asStored .sum given
    rw [unionOfString, cmdZunion, @readingCall_one "zunion" "ZUNION" "s" [115] (by decide +kernel)]
    exact answerZset_replies unitEnv false computes
  exact ⟨given, replies, lists_apart _ replies⟩

end Loops

end ZsetAlgebra

end NexradeCache
