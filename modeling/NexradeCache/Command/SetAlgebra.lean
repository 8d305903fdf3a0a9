import NexradeCache.Command.ListIndex
import NexradeCache.Data.SetRefinement
import NexradeCache.Lib.Operands
import Mathlib.Data.Finset.Sort

/-!
# Algebra of sets (`nexrade-core/src/command/set.rs`)

SUNION, SINTER and SDIFF, their STORE forms and SINTERCARD read the sets of their keys one after the other, and give
up at the first key that holds something else. What they made of the sets is what is meant over all of them
(`Lib/Operands`), and `set_algebra_iff` says for each command when its answer is too: the intersections stop at a
missing key, and do not see a value of the wrong type behind it.
-/

namespace NexradeCache

/-! ## Reading one key after the other -/

/-- What a key holds: nothing, a value of one type that stands for something, or a value of another type. -/
inductive OperandOf {A D : Type} (as : DataType → Option D) (rep : D → A → Prop) : Option DataType → Operand A → Prop
  | missing : OperandOf as rep none .missing
  | value {v : DataType} {d : D} {a : A} : as v = some d → rep d a → OperandOf as rep (some v) (.value a)
  | wrong {v : DataType} : as v = none → OperandOf as rep (some v) .wrong

namespace ShardedDatabase

/-- `write_for` and `get`. -/
def readKey (now : Nat) (db : ShardedDatabase) (key : Bytes) : ShardedDatabase × Option Entry :=
  db.writeFor key fun s => s.get now key

/-- The value of a key and its deadline. -/
def held (now : Nat) (db : ShardedDatabase) (key : Bytes) : Option (DataType × Option Nat) :=
  (db.getRo now key).map fun e => (e.value, e.expiry)

def valueAt (now : Nat) (db : ShardedDatabase) (key : Bytes) : Option DataType := (db.getRo now key).map Entry.value

/-- No key holds anything else. -/
def Untouched (now : Nat) (db db' : ShardedDatabase) : Prop := ∀ x, db'.held now x = db.held now x

variable {now : Nat} {db db' db'' : ShardedDatabase}

theorem Untouched.refl (now : Nat) (db : ShardedDatabase) : Untouched now db db := fun _ => rfl

theorem Untouched.trans (h : Untouched now db db') (h' : Untouched now db' db'') : Untouched now db db'' :=
  fun x => (h' x).trans (h x)

theorem Untouched.valueAt (h : Untouched now db db') (key : Bytes) : db'.valueAt now key = db.valueAt now key := by
  have same := congrArg (Option.map Prod.fst) (h key)
  rw [held, held, Option.map_map, Option.map_map] at same
  exact same

theorem readKey_spec (now : Nat) (db : ShardedDatabase) (key : Bytes) :
    (db.readKey now key).2.map Entry.value = db.valueAt now key ∧ Untouched now db (db.readKey now key).1 := by
  obtain ⟨answer, after⟩ := Acts.writeFor (Database.acts_get now key) db
  refine ⟨?_, fun x => ?_⟩
  · rw [readKey, answer, Option.map_map, valueAt]
    rfl
  · rw [held, held, readKey, after]
    split
    · rename_i same
      rw [same, Option.map_map]
      rfl
    · rfl

/-- One shard with one value. -/
def holding (key : Bytes) (v : DataType) : ShardedDatabase := ⟨[Database.new.insert key (.new v)], by simp⟩

theorem getRo_holding (now : Nat) (key : Bytes) (v : DataType) : (holding key v).getRo now key = some (.new v) := by
  have shard : (holding key v).shardFor key = Database.new.insert key (.new v) :=
    List.mem_singleton.1 (List.get_mem (holding key v).shards _)
  rw [ShardedDatabase.getRo, shard]
  exact ((Database.acts_insert now key (.new v)).getRo .new key).trans (if_pos rfl)

theorem valueAt_holding (now : Nat) (key : Bytes) (v : DataType) : (holding key v).valueAt now key = some v := by
  rw [ShardedDatabase.valueAt, getRo_holding]
  rfl

end ShardedDatabase

/-- `to_hashset`. -/
def SetData.toHashset (d : SetData) : Option (Finset Bytes) := d.toVec.map List.toFinset

namespace SetAlgebra

open Bytes

/-! ## The code -/

def asSet : DataType → Option SetData
  | .set s => some s
  | _ => none

/-- A handler's effect and its answer; `none` is a panic. -/
abbrev Run (A : Type) := ShardedDatabase × Option (Result A)

/-- The order in which a hash set is walked. -/
structure HashOrder where
  list : Finset Bytes → List Bytes
  nodup : ∀ s, (list s).Nodup
  mem : ∀ s m, m ∈ list s ↔ m ∈ s

def collectUnion (now : Nat) : (args : List Resp) → (result : Finset Bytes) → ShardedDatabase → Run (Finset Bytes)
  | [], result, db => (db, some (.ok result))
  | a :: args, result, db =>
    match bytesArg "sunion" (some a) with
    | .error e => (db, some (.error e))
    | .ok key => match db.readKey now key with
      | (db, none) => collectUnion now args result db
      | (db, some e) => match asSet e.value with
        | some s => match s.toVec with
          | some l => collectUnion now args (result ∪ l.toFinset) db
          | none => (db, none)
        | none => (db, some (.error .wrongType))

/-- The loop of `collect_inter`, with `none` for the early return at a missing key. -/
def gatherSets (now : Nat) : (args : List Resp) → (sets : List (Finset Bytes)) → ShardedDatabase →
    Run (Option (List (Finset Bytes)))
  | [], sets, db => (db, some (.ok (some sets)))
  | a :: args, sets, db =>
    match bytesArg "sinter" (some a) with
    | .error e => (db, some (.error e))
    | .ok key => match db.readKey now key with
      | (db, none) => (db, some (.ok none))
      | (db, some e) => match asSet e.value with
        | some s => match s.toHashset with
          | some s => gatherSets now args (sets ++ [s]) db
          | none => (db, none)
        | none => (db, some (.error .wrongType))

def intersect : List (Finset Bytes) → Finset Bytes
  | [] => ∅
  | s :: sets => sets.foldl (fun result s => result ∩ s) s

def collectInter (now : Nat) (args : List Resp) (db : ShardedDatabase) : Run (Finset Bytes) :=
  let out := gatherSets now args [] db
  (out.1, out.2.map fun r => r.map fun sets => (sets.map intersect).getD ∅)

/-- The loop of `collect_diff` over the keys behind the first. -/
def removeSets (now : Nat) : (args : List Resp) → (result : Finset Bytes) → ShardedDatabase → Run (Finset Bytes)
  | [], result, db => (db, some (.ok result))
  | a :: args, result, db =>
    match bytesArg "sdiff" (some a) with
    | .error e => (db, some (.error e))
    | .ok key => match db.readKey now key with
      | (db, none) => removeSets now args result db
      | (db, some e) => match asSet e.value with
        | some s => match s.toVec with
          | some l => removeSets now args (l.foldl Finset.erase result) db
          | none => (db, none)
        | none => (db, some (.error .wrongType))

def collectDiff (now : Nat) (args : List Resp) (db : ShardedDatabase) : Run (Finset Bytes) :=
  match bytesArg "sdiff" args.head? with
  | .error e => (db, some (.error e))
  | .ok key => match db.readKey now key with
    | (db, none) => removeSets now args.tail ∅ db
    | (db, some e) => match asSet e.value with
      | some s => match s.toHashset with
        | some s => removeSets now args.tail s db
        | none => (db, none)
      | none => (db, some (.error .wrongType))

section

variable (order : HashOrder)

def setReply (s : Finset Bytes) : Resp := .array (some ((order.list s).map fun m => .bulkString (some m)))

/-- `from_hashset`, of what the walk yields. -/
def stored (thr : SetThresholds) (s : Finset Bytes) : SetData := .fromHashset thr ⟨order.list s, order.nodup s⟩

/-- What SUNION, SINTER and SDIFF do with their collection. -/
def answerSet (cmd : String) (collect : (args : List Resp) → ShardedDatabase → Run (Finset Bytes)) (args : List Resp)
    (db : ShardedDatabase) : Run Resp :=
  if args.length < 2 then (db, some (.error (.wrongArity cmd)))
  else
    let out := collect (args.drop 1) db
    (out.1, out.2.map fun r => r.map (setReply order))

/-- What the STORE forms do. -/
def storeSet (thr : SetThresholds) (cmd : String)
    (collect : (args : List Resp) → ShardedDatabase → Run (Finset Bytes)) (args : List Resp) (db : ShardedDatabase) :
    Run Resp :=
  if args.length < 3 then (db, some (.error (.wrongArity cmd)))
  else match bytesArg cmd args[1]? with
    | .error e => (db, some (.error e))
    | .ok dst => match collect (args.drop 2) db with
      | (db, none) => (db, none)
      | (db, some (.error e)) => (db, some (.error e))
      | (db, some (.ok result)) =>
        let (db, ()) := db.writeFor dst fun s => (s.insert dst (.new (.set (stored order thr result))), ())
        (db, some (.ok (.integer (.ofNat result.card))))

def cmdSunion (now : Nat) : (args : List Resp) → ShardedDatabase → Run Resp :=
  answerSet order "sunion" fun args => collectUnion now args ∅

def cmdSinter (now : Nat) : (args : List Resp) → ShardedDatabase → Run Resp :=
  answerSet order "sinter" (collectInter now)

def cmdSdiff (now : Nat) : (args : List Resp) → ShardedDatabase → Run Resp := answerSet order "sdiff" (collectDiff now)

def cmdSunionstore (thr : SetThresholds) (now : Nat) : (args : List Resp) → ShardedDatabase → Run Resp :=
  storeSet order thr "sunionstore" fun args => collectUnion now args ∅

def cmdSinterstore (thr : SetThresholds) (now : Nat) : (args : List Resp) → ShardedDatabase → Run Resp :=
  storeSet order thr "sinterstore" (collectInter now)

def cmdSdiffstore (thr : SetThresholds) (now : Nat) : (args : List Resp) → ShardedDatabase → Run Resp :=
  storeSet order thr "sdiffstore" (collectDiff now)

end

/-- A SINTERCARD that was read. -/
structure CardCall where
  keys : List Bytes
  limit : Option Int64
deriving DecidableEq

def sintercardCall (toUppercase : String → String) (args : List Resp) : Result CardCall := do
  if args.length < 3 then throw (.wrongArity "sintercard")
  let numKeys ← i64Arg "sintercard" args[1]?
  if numKeys ≤ 0 then throw (.generic "numkeys should be greater than 0")
  let numKeys := numKeys.toInt.toNat
  if args.length < 2 + numKeys then throw (.wrongArity "sintercard")
  let keys ← ((args.drop 2).take numKeys).mapM fun a => bytesArg "sintercard" (some a)
  if 2 + numKeys < args.length then
    let opt := toUppercase (← strArg "sintercard" args[2 + numKeys]?)
    if opt ≠ "LIMIT" then throw (.generic "syntax error")
    let rawLimit ← i64Arg "sintercard" args[2 + numKeys + 1]?
    if args.length ≠ 2 + numKeys + 2 then throw (.generic "syntax error")
    return ⟨keys, some rawLimit⟩
  return ⟨keys, none⟩

/-- `raw as usize`, if it is not zero. -/
def limitOf (limit : Option Int64) : Option Nat :=
  (limit.map fun raw => raw.toUInt64.toNat).filter fun n => 0 < n

/-- The loop that reads the sets under the read lock, with their sizes. -/
def gatherSetsRo (now : Nat) (db : ShardedDatabase) : (keys : List Bytes) → (sets : List (Nat × Finset Bytes)) →
    Option (Result (Option (List (Nat × Finset Bytes))))
  | [], sets => some (.ok (some sets))
  | key :: keys, sets => match db.getRo now key with
    | none => some (.ok none)
    | some e => match asSet e.value with
      | some d => match d.toHashset with
        | some s => gatherSetsRo now db keys (sets ++ [(d.len, s)])
        | none => none
      | none => some (.error .wrongType)

/-- The members of the smallest set that all others contain, up to the limit. -/
def countCommon (order : HashOrder) (limit : Option Nat) (sets : List (Nat × Finset Bytes)) : Nat :=
  let smallest := Operand.smallestIdx (2 ^ 64 - 1) (sets.map Prod.fst)
  let others := Operand.othersOf smallest sets.length
  let at_ (i : Nat) : Finset Bytes := (sets[i]?.map Prod.snd).getD ∅
  Operand.countUpTo (fun m => others.all fun i => m ∈ at_ i) limit (order.list (at_ smallest)) 0

/-- The number that SINTERCARD answers. -/
def sintercard (order : HashOrder) (now : Nat) (c : CardCall) (db : ShardedDatabase) : Option (Result Nat) :=
  (gatherSetsRo now db c.keys []).map fun r => r.map fun sets =>
    (sets.map (countCommon order (limitOf c.limit))).getD 0

def cmdSintercard (order : HashOrder) (toUppercase : String → String) (now : Nat) (args : List Resp)
    (db : ShardedDatabase) : Option (Result Resp) :=
  match sintercardCall toUppercase args with
  | .error e => some (.error e)
  | .ok c => (sintercard order now c db).map fun r => r.map fun n => .integer (.ofNat n)

/-! ## What the loops make of their operands -/

open Operand

/-- The operands of a command behind its arguments. -/
def Given (now : Nat) (db : ShardedDatabase) (args : List Resp) (operands : List (Operand (Finset Bytes))) : Prop :=
  List.Forall₂ (fun a o => ∃ key, a.toBytesVec = some key ∧ OperandOf asSet SetData.Rep (db.valueAt now key) o)
    args operands

/-- WRONGTYPE if one of the operands is wrong. -/
def checked (operands : List (Operand (Finset Bytes))) (s : Finset Bytes) : Result (Finset Bytes) :=
  if .wrong ∈ operands then .error .wrongType else .ok s

/-- The command answers this and changes nothing. -/
structure Answers {A : Type} (now : Nat) (db : ShardedDatabase) (out : Run A) (r : Result A) : Prop where
  answer : out.2 = some r
  untouched : ShardedDatabase.Untouched now db out.1

variable {order : HashOrder} {thr : SetThresholds} {now : Nat} {db db' : ShardedDatabase} {args : List Resp}
  {operands : List (Operand (Finset Bytes))} {result : Finset Bytes}

theorem bytesArg_eq {cmd : String} {a : Resp} {key : Bytes} (h : a.toBytesVec = some key) :
    bytesArg cmd (some a) = .ok key := by
  unfold bytesArg
  rw [Option.bind_some, h]

theorem toVec_of_rep {d : SetData} {s : Finset Bytes} (rep : d.Rep s) : ∃ l, d.toVec = some l ∧ l.toFinset = s := by
  obtain ⟨l, toVec, -, -, mem, -⟩ := rep.agrees.members
  exact ⟨l, toVec, by ext m; rw [List.mem_toFinset, mem]⟩

theorem toHashset_of_rep {d : SetData} {s : Finset Bytes} (rep : d.Rep s) : d.toHashset = some s := by
  obtain ⟨l, toVec, rfl⟩ := toVec_of_rep rep
  rw [SetData.toHashset, toVec, Option.map_some]

theorem Given.untouched (h : Given now db args operands) (same : ShardedDatabase.Untouched now db db') :
    Given now db' args operands :=
  h.imp fun _ _ ⟨key, isKey, kind⟩ => ⟨key, isKey, (same.valueAt key).symm ▸ kind⟩

theorem Answers.of_untouched {A : Type} {out : Run A} {r : Result A} (same : ShardedDatabase.Untouched now db db')
    (h : Answers now db' out r) : Answers now db out r := ⟨h.answer, same.trans h.untouched⟩

theorem checked_wrong (operands : List (Operand (Finset Bytes))) (s : Finset Bytes) :
    checked (.wrong :: operands) s = .error .wrongType := if_pos (.head _)

theorem checked_missing (operands : List (Operand (Finset Bytes))) (s : Finset Bytes) :
    checked (.missing :: operands) s = checked operands s := by simp [checked]

theorem checked_value (v : Finset Bytes) (operands : List (Operand (Finset Bytes))) (s : Finset Bytes) :
    checked (.value v :: operands) s = checked operands s := by simp [checked]

/-- What a pass of a loop finds under its key. -/
inductive Found (o : Operand (Finset Bytes)) : Option Entry → Prop
  | missing : o = .missing → Found o none
  | set {e : Entry} {d : SetData} {s : Finset Bytes} : o = .value s → asSet e.value = some d → d.Rep s → Found o (some e)
  | wrong {e : Entry} : o = .wrong → asSet e.value = none → Found o (some e)

theorem readKey_found {key : Bytes} {o : Operand (Finset Bytes)}
    (kind : OperandOf asSet SetData.Rep (db.valueAt now key) o) :
    Found o (db.readKey now key).2 ∧ ShardedDatabase.Untouched now db (db.readKey now key).1 := by
  obtain ⟨answer, same⟩ := ShardedDatabase.readKey_spec now db key
  rw [← answer] at kind
  refine ⟨?_, same⟩
  generalize (db.readKey now key).2 = e at kind
  cases e with
  | none =>
    cases kind
    exact .missing rfl
  | some e =>
    rw [Option.map_some] at kind
    cases kind with
    | value isSet rep => exact .set rfl isSet rep
    | wrong other => exact .wrong rfl other

/-- The first pass of a loop, and what is left for the others. -/
theorem Given.step {a : Resp} (given : Given now db (a :: args) operands) :
    ∃ key db' e o rest, operands = o :: rest ∧ a.toBytesVec = some key ∧ db.readKey now key = (db', e) ∧ Found o e ∧
      ShardedDatabase.Untouched now db db' ∧ Given now db' args rest := by
  cases given with
  | cons first given =>
    obtain ⟨key, isKey, kind⟩ := first
    obtain ⟨found, same⟩ := readKey_found kind
    exact ⟨key, _, _, _, _, rfl, isKey, rfl, found, same, Given.untouched given same⟩

theorem collectUnion_answers (given : Given now db args operands) :
    Answers now db (collectUnion now args result db) (checked operands (result ∪ union operands)) := by
  induction args generalizing operands db result with
  | nil =>
    cases given
    exact ⟨by simp [collectUnion, checked, union], .refl _ _⟩
  | cons a args ih =>
    obtain ⟨key, db', e, o, operands, rfl, isKey, read, found, same, later⟩ := given.step
    rw [collectUnion, bytesArg_eq isKey]
    dsimp only
    rw [read]
    cases found with
    | missing gone =>
      subst gone
      have skipped : union (.missing :: operands) = union operands := by simp [union]
      rw [checked_missing, skipped]
      exact .of_untouched same (ih later)
    | set here isSet rep =>
      subst here
      obtain ⟨l, toVec, rfl⟩ := toVec_of_rep rep
      have joined : result ∪ union (.value l.toFinset :: operands) = (result ∪ l.toFinset) ∪ union operands := by
        rw [Finset.union_assoc]
        rfl
      dsimp only
      rw [isSet]
      dsimp only
      rw [toVec, checked_value, joined]
      exact .of_untouched same (ih later)
    | wrong here other =>
      subst here
      dsimp only
      rw [other, checked_wrong]
      exact ⟨rfl, same⟩

theorem unionOf_answers (given : Given now db args operands) :
    Answers now db (collectUnion now args ∅ db) (checked operands (union operands)) := by
  have collects : Answers now db (collectUnion now args ∅ db) (checked operands (∅ ∪ union operands)) :=
    collectUnion_answers given
  rwa [Finset.empty_union] at collects

/-- What the loop of the intersection ends with. -/
def gathered (sets : List (Finset Bytes)) : Gathered (Finset Bytes) → Result (Option (List (Finset Bytes)))
  | .all l => .ok (some (sets ++ l))
  | .missing => .ok none
  | .wrong => .error .wrongType

theorem gathered_value (sets : List (Finset Bytes)) (s : Finset Bytes) (operands : List (Operand (Finset Bytes))) :
    gathered sets (gather (.value s :: operands)) = gathered (sets ++ [s]) (gather operands) := by
  rw [gather]
  cases gather operands <;> simp [gathered]

theorem gatherSets_answers {sets : List (Finset Bytes)} (given : Given now db args operands) :
    Answers now db (gatherSets now args sets db) (gathered sets (gather operands)) := by
  induction args generalizing operands db sets with
  | nil =>
    cases given
    exact ⟨by simp [gatherSets, gathered, gather], .refl _ _⟩
  | cons a args ih =>
    obtain ⟨key, db', e, o, operands, rfl, isKey, read, found, same, later⟩ := given.step
    rw [gatherSets, bytesArg_eq isKey]
    dsimp only
    rw [read]
    cases found with
    | missing gone =>
      subst gone
      exact ⟨rfl, same⟩
    | set here isSet rep =>
      subst here
      dsimp only
      rw [isSet]
      dsimp only
      rw [toHashset_of_rep rep, gathered_value]
      exact .of_untouched same (ih later)
    | wrong here other =>
      subst here
      dsimp only
      rw [other]
      exact ⟨rfl, same⟩

/-- What is left of a set. -/
def without (result : Finset Bytes) (operands : List (Operand (Finset Bytes))) : Finset Bytes :=
  result.filter fun m => ∀ o ∈ operands, m ∉ o.members

theorem foldl_erase (l : List Bytes) (s : Finset Bytes) : l.foldl Finset.erase s = s \ l.toFinset := by
  induction l generalizing s with
  | nil => simp
  | cons m l ih =>
    rw [List.foldl_cons, ih]
    ext x
    simp only [Finset.mem_sdiff, Finset.mem_erase, List.mem_toFinset, List.mem_cons]
    tauto

theorem removeSets_answers (given : Given now db args operands) :
    Answers now db (removeSets now args result db) (checked operands (without result operands)) := by
  induction args generalizing operands db result with
  | nil =>
    cases given
    exact ⟨by simp [removeSets, checked, without], .refl _ _⟩
  | cons a args ih =>
    obtain ⟨key, db', e, o, operands, rfl, isKey, read, found, same, later⟩ := given.step
    rw [removeSets, bytesArg_eq isKey]
    dsimp only
    rw [read]
    cases found with
    | missing gone =>
      subst gone
      have skipped : without result (.missing :: operands) = without result operands := by simp [without]
      rw [checked_missing, skipped]
      exact .of_untouched same (ih later)
    | set here isSet rep =>
      subst here
      obtain ⟨l, toVec, rfl⟩ := toVec_of_rep rep
      have removed : without result (.value l.toFinset :: operands) = without (l.foldl Finset.erase result) operands := by
        ext m
        simp [without, foldl_erase, and_assoc]
      dsimp only
      rw [isSet]
      dsimp only
      rw [toVec, checked_value, removed]
      exact .of_untouched same (ih later)
    | wrong here other =>
      subst here
      dsimp only
      rw [other, checked_wrong]
      exact ⟨rfl, same⟩

theorem collectDiff_answers (nonempty : args ≠ []) (given : Given now db args operands) :
    Answers now db (collectDiff now args db) (checked operands (diff operands)) := by
  cases args with
  | nil => exact (nonempty rfl).elim
  | cons a args =>
    obtain ⟨key, db', e, o, operands, rfl, isKey, read, found, same, later⟩ := given.step
    rw [collectDiff, List.head?_cons, bytesArg_eq isKey]
    dsimp only
    rw [read]
    cases found with
    | missing gone =>
      subst gone
      have nothing : diff (.missing :: operands) = without ∅ operands := by simp [diff, without]
      rw [checked_missing, nothing]
      exact .of_untouched same (removeSets_answers later)
    | set here isSet rep =>
      subst here
      dsimp only
      rw [isSet]
      dsimp only
      rw [toHashset_of_rep rep, checked_value]
      exact .of_untouched same (removeSets_answers later)
    | wrong here other =>
      subst here
      dsimp only
      rw [other, checked_wrong]
      exact ⟨rfl, same⟩

theorem mem_foldl_inter {sets : List (Finset Bytes)} {s : Finset Bytes} {m : Bytes} :
    m ∈ sets.foldl (fun result s => result ∩ s) s ↔ m ∈ s ∧ ∀ s' ∈ sets, m ∈ s' := by
  induction sets generalizing s with
  | nil => simp
  | cons t sets ih =>
    rw [List.foldl_cons, ih, Finset.mem_inter, List.forall_mem_cons, and_assoc]

theorem intersect_eq (sets : List (Finset Bytes)) : intersect sets = inter (sets.map .value) := by
  cases sets with
  | nil => rfl
  | cons s sets =>
    ext m
    rw [intersect, mem_foldl_inter, List.map_cons, inter, Finset.mem_filter]
    simp

/-- What SINTER makes of its operands. -/
def interSeen (operands : List (Operand (Finset Bytes))) : Result (Finset Bytes) :=
  match gather operands with
  | .wrong => .error .wrongType
  | _ => .ok (inter operands)

theorem collectInter_answers (given : Given now db args operands) :
    Answers now db (collectInter now args db) (interSeen operands) := by
  obtain ⟨answer, same⟩ : Answers now db (gatherSets now args [] db) (gathered [] (gather operands)) :=
    gatherSets_answers given
  refine ⟨?_, same⟩
  unfold collectInter interSeen
  dsimp only
  rw [answer]
  cases gathers : gather operands with
  | all l =>
    rw [gather_eq_all gathers, ← intersect_eq]
    simp [gathered, Except.map]
  | missing =>
    rw [inter_of_missing (missing_mem_of_gather gathers)]
    rfl
  | wrong => rfl

/-- SINTER sees that a value is wrong unless it stops at a missing key before. -/
theorem interSeen_eq_iff : interSeen operands = checked operands (inter operands) ↔ ¬Hidden operands := by
  unfold interSeen checked
  cases gathers : gather operands with
  | wrong =>
    obtain ⟨there, shown⟩ := gather_eq_wrong_iff.1 gathers
    simp [there, shown]
  | all l =>
    have fine := wrong_notMem_of_all gathers
    have shown : ¬Hidden operands := fun ⟨_, _, split, _, later⟩ => fine (by rw [split]; simp [later])
    simp [fine, shown]
  | missing =>
    have unseen : ¬(.wrong ∈ operands ∧ ¬Hidden operands) := by
      rw [← gather_eq_wrong_iff, gathers]
      nofun
    by_cases there : Operand.wrong ∈ operands
    · simpa [there] using unseen
    · have shown : ¬Hidden operands := fun ⟨_, _, split, _, later⟩ => there (by rw [split]; simp [later])
      simp [there, shown]

/-! ## The handlers -/

theorem answerSet_answers {cmd : String} {collect : (args : List Resp) → ShardedDatabase → Run (Finset Bytes)}
    {r : Result (Finset Bytes)} (behind : args.drop 1 ≠ []) (collects : Answers now db (collect (args.drop 1) db) r) :
    Answers now db (answerSet order cmd collect args db) (r.map (setReply order)) := by
  have arity : ¬args.length < 2 := by
    rw [ne_eq, List.drop_eq_nil_iff] at behind
    omega
  unfold answerSet
  rw [if_neg arity]
  refine ⟨?_, collects.untouched⟩
  dsimp only
  rw [collects.answer, Option.map_some]

/-- The destination holds this set without a deadline, and its size is the answer. -/
structure Stored (now : Nat) (db : ShardedDatabase) (dst : Bytes) (out : Run Resp) (s : Finset Bytes) : Prop where
  answer : out.2 = some (.ok (.integer (.ofNat s.card)))
  holds : ∃ d, out.1.held now dst = some (.set d, none) ∧ d.Rep s
  others : ∀ x, x ≠ dst → out.1.held now x = db.held now x

/-- Store a set, or change nothing. -/
def Stores (now : Nat) (db : ShardedDatabase) (dst : Bytes) (out : Run Resp) : Result (Finset Bytes) → Prop
  | .ok s => Stored now db dst out s
  | .error e => Answers now db out (.error e)

theorem valid_of_rep {d : SetData} {s : Finset Bytes} (rep : d.Rep s) {m : Bytes} (mem : m ∈ s) : frameCodec.Valid m := by
  obtain ⟨l, holds, -, rfl⟩ := rep
  have there := List.mem_toFinset.1 mem
  cases d with
  | compact c => exact CompactSet.Rep.valid holds m there
  | hashtable t => exact HashtableSet.Rep.valid holds m there

theorem Given.valid (given : Given now db args operands) {o : Operand (Finset Bytes)} (there : o ∈ operands)
    {m : Bytes} (mem : m ∈ o.members) : frameCodec.Valid m := by
  induction given with
  | nil => cases there
  | @cons a o' args operands first given ih =>
    rcases List.mem_cons.1 there with rfl | there
    · obtain ⟨key, -, kind⟩ := first
      generalize db.valueAt now key = v at kind
      cases kind with
      | missing => simp at mem
      | value isSet rep => exact valid_of_rep rep mem
      | wrong => simp [members] at mem
    · exact ih there

theorem storeSet_stores {cmd : String} {collect : (args : List Resp) → ShardedDatabase → Run (Finset Bytes)}
    {r : Result (Finset Bytes)} {dst : Bytes} (behind : args.drop 2 ≠ []) (target : args[1]?.bind Resp.toBytesVec = some dst)
    (collects : Answers now db (collect (args.drop 2) db) r)
    (valid : ∀ s, r = .ok s → ∀ m ∈ s, frameCodec.Valid m) :
    Stores now db dst (storeSet order thr cmd collect args db) r := by
  have arity : ¬args.length < 3 := by
    rw [ne_eq, List.drop_eq_nil_iff] at behind
    omega
  have isDst : bytesArg cmd args[1]? = .ok dst := by
    unfold bytesArg
    rw [target]
  obtain ⟨answer, same⟩ := collects
  unfold storeSet
  rw [if_neg arity, isDst]
  generalize collect (args.drop 2) db = out at answer same
  obtain ⟨db', a⟩ := out
  obtain rfl : a = some r := answer
  cases r with
  | error e => exact ⟨rfl, same⟩
  | ok s =>
    have after := (ShardedDatabase.Acts.writeFor
      (Database.acts_insert now dst (.new (.set (stored order thr s)))) db').2
    refine ⟨rfl, ⟨stored order thr s, ?_, order.list s, ?_, order.nodup s, ?_⟩, fun x other => ?_⟩
    · rw [ShardedDatabase.held, after, if_pos rfl]
      rfl
    · exact SetData.fromHashset_holds thr _ fun m mem => valid s rfl m ((order.mem s m).1 mem)
    · ext m
      rw [List.mem_toFinset, order.mem]
    · rw [ShardedDatabase.held, after, if_neg other]
      exact same x

/-! ## SINTERCARD -/

/-- The operands of a command behind its keys. -/
def Keyed (now : Nat) (db : ShardedDatabase) (keys : List Bytes) (operands : List (Operand (Finset Bytes))) : Prop :=
  List.Forall₂ (fun key o => OperandOf asSet SetData.Rep (db.valueAt now key) o) keys operands

theorem len_of_rep {d : SetData} {s : Finset Bytes} (rep : d.Rep s) : d.len = s.card := by
  obtain ⟨l, -, -, nodup, mem, len, -⟩ := rep.agrees.members
  obtain rfl : l.toFinset = s := by
    ext m
    rw [List.mem_toFinset, mem]
  rw [len, List.toFinset_card_of_nodup nodup]

/-- A set with its size. -/
def sized (s : Finset Bytes) : Nat × Finset Bytes := (s.card, s)

theorem gatherSetsRo_eq {keys : List Bytes} {sets : List (Finset Bytes)} (given : Keyed now db keys operands) :
    gatherSetsRo now db keys (sets.map sized) =
      some ((gathered sets (gather operands)).map fun r => r.map fun sets => sets.map sized) := by
  induction given generalizing sets with
  | nil => simp [gatherSetsRo, gathered, gather, Except.map]
  | @cons key o keys operands kind given ih =>
    rw [gatherSetsRo]
    rw [ShardedDatabase.valueAt] at kind
    cases found : db.getRo now key with
    | none =>
      rw [found] at kind
      cases kind
      rfl
    | some e =>
      rw [found, Option.map_some] at kind
      dsimp only
      cases kind with
      | @value _ d s isSet rep =>
        rw [isSet]
        dsimp only
        have next := @ih (sets ++ [s])
        rw [List.map_append, List.map_singleton, sized] at next
        rw [toHashset_of_rep rep, gathered_value, len_of_rep rep]
        exact next
      | wrong other =>
        rw [other]
        rfl

/-- The number of members, as far as the limit allows; the limit 0 means none. -/
def limited (limit : Option Int64) (n : Nat) : Int :=
  match limit with
  | none => n
  | some l => if l = 0 then n else min l.toInt n

/-- As the code does it. -/
def capped (limit : Option Nat) (n : Nat) : Nat := (limit.map fun lim => min lim n).getD n

theorem countUpTo_capped {A : Type} (p : A → Bool) {limit : Option Nat} (positive : ∀ lim, limit = some lim → 0 < lim)
    (l : List A) : countUpTo p limit l 0 = capped limit (l.countP p) := by
  cases limit with
  | none => simp [countUpTo_none, capped]
  | some lim => simp [countUpTo_some p l (positive lim rfl), capped]

theorem limitOf_positive {limit : Option Int64} {lim : Nat} (h : limitOf limit = some lim) : 0 < lim := by
  have kept := (Option.filter_eq_some_iff.1 h).2
  simpa using kept

theorem countP_list (p : Bytes → Prop) [DecidablePred p] (s : Finset Bytes) :
    (order.list s).countP (fun m => decide (p m)) = (s.filter p).card := by
  have same : ((order.list s).filter fun m => decide (p m)).toFinset = s.filter p := by
    ext m
    simp [order.mem]
  rw [List.countP_eq_length_filter, ← same, List.toFinset_card_of_nodup ((order.nodup s).filter _)]

theorem countCommon_eq {limit : Option Nat} (positive : ∀ lim, limit = some lim → 0 < lim) {sets : List (Finset Bytes)}
    (nonempty : sets ≠ []) :
    countCommon order limit (sets.map sized) = capped limit (inter (sets.map .value)).card := by
  have some_ : (sets.map sized).map Prod.fst ≠ [] := by simpa using nonempty
  have inside := smallestIdx_lt (2 ^ 64 - 1) some_
  unfold countCommon
  dsimp only
  generalize smallestIdx (2 ^ 64 - 1) ((sets.map sized).map Prod.fst) = idx at inside ⊢
  rw [List.length_map, List.length_map] at inside
  have entry (i : Nat) : (((sets.map sized)[i]?).map Prod.snd).getD ∅ = sets[i]?.getD ∅ := by
    rw [List.getElem?_map, Option.map_map]
    cases sets[i]? <;> rfl
  have tests : (fun m => (othersOf idx (sets.map sized).length).all fun i =>
      decide (m ∈ (((sets.map sized)[i]?).map Prod.snd).getD ∅)) =
      fun m => decide (∀ i ∈ othersOf idx sets.length, m ∈ sets[i]?.getD ∅) := by
    funext m
    rw [Bool.eq_iff_iff, List.all_eq_true, List.length_map]
    simp only [entry, decide_eq_true_eq]
  rw [tests, countUpTo_capped _ positive, entry, countP_list, List.getElem?_eq_getElem inside, Option.getD_some,
    filter_others inside]

theorem sintercard_eq {c : CardCall} (nonempty : c.keys ≠ []) (given : Keyed now db c.keys operands) :
    sintercard order now c db = some ((interSeen operands).map fun s => capped (limitOf c.limit) s.card) := by
  have reads : gatherSetsRo now db c.keys [] =
      some ((gathered [] (gather operands)).map fun r => r.map fun sets => sets.map sized) :=
    @gatherSetsRo_eq now db operands c.keys [] given
  unfold sintercard interSeen
  rw [reads]
  cases gathers : gather operands with
  | all l =>
    have isValues := gather_eq_all gathers
    have some_ : l ≠ [] := by
      rintro rfl
      rw [isValues] at given
      exact nonempty (List.forall₂_nil_right_iff.1 given)
    simp only [gathered, Except.map, Option.map_some, List.nil_append, Option.getD_some,
      countCommon_eq (fun lim h => limitOf_positive h) some_, isValues]
  | missing =>
    have nothing := inter_of_missing (missing_mem_of_gather gathers)
    simp [gathered, Except.map, nothing, capped]
    cases limitOf c.limit <;> rfl
  | wrong => rfl

/-- The limit is what was asked for unless it is negative. -/
theorem capped_eq_limited_iff (limit : Option Int64) (n : Nat) :
    (capped (limitOf limit) n : Int) = limited limit n ↔ ∀ l, limit = some l → 0 ≤ l := by
  cases limit with
  | none => simp [limitOf, capped, limited]
  | some l =>
    simp only [limited, Option.some.injEq, forall_eq']
    by_cases zero : l = 0
    · subst zero
      have cap : limitOf (some 0) = none := rfl
      simp [cap, capped]
    · rw [if_neg zero]
      by_cases nonneg : 0 ≤ l
      · have positive : 0 < l.toNatClampNeg :=
          (Int64.toNatClampNeg_pos_iff l).2 (Int64.lt_iff_le_and_ne.2 ⟨nonneg, Ne.symm zero⟩)
        have cap : limitOf (some l) = some l.toNatClampNeg := by
          simp [limitOf, Option.filter_some, Int64.toNat_toUInt64_of_le nonneg, positive]
        have cast : ((min l.toNatClampNeg n : Nat) : Int) = min (l.toNatClampNeg : Int) n := by omega
        rw [cap, Int64.toInt_eq_toNatClampNeg nonneg, capped, Option.map_some, Option.getD_some, cast]
        simp [nonneg]
      · have negative : l.toInt < 0 := Int64.lt_iff_toInt_lt.1 (Int64.not_le.1 nonneg)
        have apart : (capped (limitOf (some l)) n : Int) ≠ min l.toInt n := by omega
        simp [apart, nonneg]

/-- SINTERCARD is right unless it hides a wrong value or its limit is negative. -/
theorem card_eq_iff {limit : Option Int64} :
    (interSeen operands).map (fun s => (capped (limitOf limit) s.card : Int)) =
        (checked operands (inter operands)).map (fun s => limited limit s.card) ↔
      ¬Hidden operands ∧ (.wrong ∈ operands ∨ ∀ l, limit = some l → 0 ≤ l) := by
  rw [← capped_eq_limited_iff limit (inter operands).card, ← interSeen_eq_iff]
  unfold interSeen checked
  by_cases there : Operand.wrong ∈ operands
  · cases gather operands <;> simp [there, Except.map]
  · have shown : gather operands ≠ .wrong := fun gathers => there (gather_eq_wrong_iff.1 gathers).1
    cases gathers : gather operands with
    | wrong => exact (shown gathers).elim
    | all l => simp [there, Except.map]
    | missing => simp [there, Except.map]

/-! ## The order of the keys -/

theorem Given.perm {args' : List Resp} (given : Given now db args operands) (perm : args'.Perm args) :
    ∃ operands', operands'.Perm operands ∧ Given now db args' operands' := by
  obtain ⟨operands', given', perm'⟩ := List.perm_comp_forall₂ perm given
  exact ⟨operands', perm', given'⟩

theorem Given.perm_operands {operands' : List (Operand (Finset Bytes))} (given : Given now db args operands)
    (perm : operands'.Perm operands) : ∃ args', args'.Perm args ∧ Given now db args' operands' := by
  obtain ⟨args', given', perm'⟩ := List.perm_comp_forall₂ perm given.flip
  exact ⟨args', perm', given'.flip⟩

theorem checked_perm {operands' : List (Operand (Finset Bytes))} (perm : operands'.Perm operands) (s : Finset Bytes) :
    checked operands' s = checked operands s := by
  unfold checked
  simp only [perm.mem_iff]

/-- SINTER does not depend on the order of its operands unless one is missing and one is wrong. -/
theorem interSeen_perm_iff :
    (∀ operands', operands'.Perm operands → interSeen operands' = interSeen operands) ↔
      ¬(.missing ∈ operands ∧ .wrong ∈ operands) := by
  constructor
  · rintro same ⟨gone, bad⟩
    obtain ⟨a, z, rfl⟩ := List.append_of_mem gone
    have early := same (.missing :: (a ++ z)) List.perm_middle.symm
    obtain ⟨b, y, split⟩ := List.append_of_mem bad
    rw [split] at same early
    have late := same (.wrong :: (b ++ y)) List.perm_middle.symm
    have differ : interSeen (.missing :: (a ++ z)) = interSeen (.wrong :: (b ++ y)) := early.trans late.symm
    cases differ
  · intro not operands' perm
    have shown : ∀ l, l.Perm operands → ¬Hidden l := not_hidden_perm_iff.2 not
    rw [interSeen_eq_iff.2 (shown _ perm), interSeen_eq_iff.2 (shown _ (.refl _)), checked_perm perm, inter_perm perm]

/-! ## The commands, against the sets -/

/-- A command behind whose name these are the keys. -/
def Reading (args keys : List Resp) : Prop := args.drop 1 = keys

/-- A command with this destination behind its name, and these keys behind that. -/
structure Storing (args : List Resp) (dst : Bytes) (keys : List Resp) : Prop where
  target : args[1]?.bind Resp.toBytesVec = some dst
  keys : args.drop 2 = keys

/-- When each command is right about the sets of its keys. -/
structure Right (order : HashOrder) (thr : SetThresholds) (now : Nat) (db : ShardedDatabase) (keys : List Resp)
    (operands : List (Operand (Finset Bytes))) : Prop where
  sunion : ∀ args, Reading args keys →
    Answers now db (cmdSunion order now args db) ((checked operands (union operands)).map (setReply order))
  sdiff : ∀ args, Reading args keys →
    Answers now db (cmdSdiff order now args db) ((checked operands (diff operands)).map (setReply order))
  sinter : ∀ args, Reading args keys →
    (Answers now db (cmdSinter order now args db) ((checked operands (inter operands)).map (setReply order)) ↔
      ¬Hidden operands)
  sunionstore : ∀ args dst, Storing args dst keys →
    Stores now db dst (cmdSunionstore order thr now args db) (checked operands (union operands))
  sdiffstore : ∀ args dst, Storing args dst keys →
    Stores now db dst (cmdSdiffstore order thr now args db) (checked operands (diff operands))
  sinterstore : ∀ args dst, Storing args dst keys →
    (Stores now db dst (cmdSinterstore order thr now args db) (checked operands (inter operands)) ↔ ¬Hidden operands)
  sintercard : ∀ toUppercase args c, sintercardCall toUppercase args = .ok c →
    c.keys.map some = keys.map Resp.toBytesVec →
    cmdSintercard order toUppercase now args db =
        (sintercard order now c db).map (fun r => r.map fun n => .integer (.ofNat n)) ∧
      ((sintercard order now c db).map (fun r => r.map fun n => (n : Int)) =
          some ((checked operands (inter operands)).map fun s => limited c.limit s.card) ↔
        ¬Hidden operands ∧ (.wrong ∈ operands ∨ ∀ l, c.limit = some l → 0 ≤ l))
  unionOrder : ∀ keys', keys'.Perm keys → (collectUnion now keys' ∅ db).2 = (collectUnion now keys ∅ db).2
  interOrder : (∀ keys', keys'.Perm keys → (collectInter now keys' db).2 = (collectInter now keys db).2) ↔
    ¬(.missing ∈ operands ∧ .wrong ∈ operands)

theorem map_setReply_inj {r r' : Result (Finset Bytes)} (same : r.map (setReply order) = r'.map (setReply order)) :
    r = r' := by
  cases r with
  | error e =>
    cases r' with
    | error e' => simpa [Except.map] using same
    | ok s' => cases same
  | ok s =>
    cases r' with
    | error e' => cases same
    | ok s' =>
      have lists : order.list s = order.list s' := by
        have items := Resp.array.inj (Except.ok.inj same)
        refine List.map_injective_iff.2 (fun m m' h => ?_) (Option.some.inj items)
        exact Option.some.inj (Resp.bulkString.inj h)
      have sets : s = s' := by
        ext m
        rw [← order.mem, ← order.mem, lists]
      rw [sets]

/-- Where a wrong value is hidden, the answer is the empty set instead of an error. -/
theorem interSeen_of_hidden (hidden : Hidden operands) : interSeen operands ≠ .error .wrongType := by
  unfold interSeen
  have unseen : gather operands ≠ .wrong := fun gathers => (gather_eq_wrong_iff.1 gathers).2 hidden
  cases gathers : gather operands with
  | wrong => exact (unseen gathers).elim
  | all l => nofun
  | missing => nofun

theorem checked_of_hidden (hidden : Hidden operands) (s : Finset Bytes) : checked operands s = .error .wrongType := by
  obtain ⟨a, z, rfl, -, later⟩ := hidden
  exact if_pos (by simp [later])

theorem Stores.unique {out : Run Resp} {dst : Bytes} {r : Result (Finset Bytes)} (stores : Stores now db dst out r)
    (fails : Stores now db dst out (.error .wrongType)) : r = .error .wrongType := by
  have answer : out.2 = some (.error .wrongType) := fails.answer
  cases r with
  | error e =>
    have other : out.2 = some (.error e) := stores.answer
    rw [answer] at other
    cases other
    rfl
  | ok s =>
    have other := stores.answer
    rw [answer] at other
    cases other

theorem Given.keyed {keys : List Bytes} (given : Given now db args operands)
    (same : keys.map some = args.map Resp.toBytesVec) : Keyed now db keys operands := by
  induction given generalizing keys with
  | nil =>
    rw [List.map_nil, List.map_eq_nil_iff] at same
    subst same
    exact .nil
  | cons first given ih =>
    cases keys with
    | nil => cases same
    | cons key keys =>
      rw [List.map_cons, List.map_cons, List.cons.injEq] at same
      obtain ⟨key', isKey, kind⟩ := first
      rw [isKey] at same
      obtain rfl := Option.some.inj same.1
      exact .cons kind (ih same.2)

theorem checked_valid {s r : Finset Bytes} {keys : List Resp} (given : Given now db keys operands)
    (inside : s ⊆ union operands) (h : checked operands s = .ok r) : ∀ m ∈ r, frameCodec.Valid m := by
  unfold checked at h
  split at h
  · cases h
  · obtain rfl := Except.ok.inj h
    intro m mem
    obtain ⟨o, there, here⟩ := mem_union.1 (inside mem)
    exact given.valid there here

/-- **SUNION and SDIFF are right about every list of keys, and so are their STORE forms; SINTER, SINTERSTORE and
SINTERCARD are unless a missing key hides a value of the wrong type behind it, and SINTERCARD if its limit is not
negative.** -/
theorem set_algebra_iff (order : HashOrder) (thr : SetThresholds) {now : Nat} {db : ShardedDatabase} {keys : List Resp}
    {operands : List (Operand (Finset Bytes))} (nonempty : keys ≠ []) (given : Given now db keys operands) :
    Right order thr now db keys operands where
  sunion := by
    rintro args rfl
    exact answerSet_answers nonempty (unionOf_answers given)
  sdiff := by
    rintro args rfl
    exact answerSet_answers nonempty (collectDiff_answers nonempty given)
  sinter := by
    rintro args rfl
    have does : Answers now db (cmdSinter order now args db) ((interSeen operands).map (setReply order)) :=
      answerSet_answers nonempty (collectInter_answers given)
    rw [← interSeen_eq_iff]
    constructor
    · intro right
      exact map_setReply_inj (Option.some.inj (does.answer.symm.trans right.answer))
    · intro same
      rw [← same]
      exact does
  sunionstore := by
    rintro args dst ⟨target, rfl⟩
    exact storeSet_stores nonempty target (unionOf_answers given)
      fun s ok => checked_valid given (Finset.Subset.refl _) ok
  sdiffstore := by
    rintro args dst ⟨target, rfl⟩
    exact storeSet_stores nonempty target (collectDiff_answers nonempty given)
      fun s ok => checked_valid given diff_subset_union ok
  sinterstore := by
    rintro args dst ⟨target, rfl⟩
    have does : Stores now db dst (cmdSinterstore order thr now args db) (interSeen operands) := by
      refine storeSet_stores nonempty target (collectInter_answers given) fun s ok m mem => ?_
      unfold interSeen at ok
      split at ok
      · cases ok
      · obtain rfl := Except.ok.inj ok
        obtain ⟨o, there, here⟩ := mem_union.1 (inter_subset_union mem)
        exact given.valid there here
    constructor
    · intro right hidden
      rw [checked_of_hidden hidden] at right
      exact interSeen_of_hidden hidden (does.unique right)
    · intro shown
      rw [← interSeen_eq_iff.2 shown]
      exact does
  sintercard := by
    intro toUppercase args c parsed same
    have given' := given.keyed same
    have some_ : c.keys ≠ [] := by
      intro empty
      rw [empty, List.map_nil] at same
      exact nonempty (List.map_eq_nil_iff.1 same.symm)
    constructor
    · unfold cmdSintercard
      rw [parsed]
    · rw [sintercard_eq some_ given', ← card_eq_iff, Option.map_some, Option.some.injEq]
      cases interSeen operands <;> rfl
  unionOrder := by
    intro keys' perm
    obtain ⟨operands', perm', given'⟩ := given.perm perm
    rw [(unionOf_answers given).answer, (unionOf_answers given').answer, checked_perm perm', union_perm perm']
  interOrder := by
    rw [← interSeen_perm_iff]
    constructor
    · intro same operands' perm
      obtain ⟨keys', perm', given'⟩ := given.perm_operands perm
      have equal := same keys' perm'
      rw [(collectInter_answers given).answer, (collectInter_answers given').answer] at equal
      exact Option.some.inj equal
    · intro same keys' perm
      obtain ⟨operands', perm', given'⟩ := given.perm perm
      rw [(collectInter_answers given).answer, (collectInter_answers given').answer, same operands' perm']

/-- Walks a hash set in the order of byte strings. -/
def sortedOrder : HashOrder where
  list s := s.sort (· ≤ ·)
  nodup s := s.sort_nodup _
  mem _ _ := Finset.mem_sort _

/-- The members x and y. -/
def xy : IndexSet Bytes := ⟨[[120], [121]], by decide⟩

/-- The members y and z. -/
def yz : IndexSet Bytes := ⟨[[121], [122]], by decide⟩

/-- A shard with two sets that have y in common under a and b, and a string under s. -/
def sampleShard : Database :=
  ((Database.new.insert [97] (.new (.set (.fromHashset .default xy)))).insert [98]
    (.new (.set (.fromHashset .default yz)))).insert [115] (.new (.string []))

def sampleStore : ShardedDatabase := ⟨[sampleShard], by simp⟩

open ListIndex (words)

theorem valueAt_a : sampleStore.valueAt 0 [97] = some (.set (.fromHashset .default xy)) := rfl

theorem valueAt_b : sampleStore.valueAt 0 [98] = some (.set (.fromHashset .default yz)) := rfl

theorem valueAt_s : sampleStore.valueAt 0 [115] = some (.string []) := rfl

theorem valueAt_m : sampleStore.valueAt 0 [109] = none := rfl

/-- What the two keys hold. -/
def twoSets : List (Operand (Finset Bytes)) := [.value {[120], [121]}, .value {[121], [122]}]

theorem given_ab : Given 0 sampleStore (words ["a", "b"]) twoSets := by
  have repA : SetData.Rep (.fromHashset .default xy) {[120], [121]} :=
    ⟨xy.items, SetData.fromHashset_holds _ _ (by simp [frameCodec, xy]), xy.nodup, rfl⟩
  have repB : SetData.Rep (.fromHashset .default yz) {[121], [122]} :=
    ⟨yz.items, SetData.fromHashset_holds _ _ (by simp [frameCodec, yz]), yz.nodup, rfl⟩
  refine .cons ⟨[97], by decide +kernel, ?_⟩ (.cons ⟨[98], by decide +kernel, ?_⟩ .nil)
  · rw [valueAt_a]
    exact .value rfl repA
  · rw [valueAt_b]
    exact .value rfl repB

/-- Two sets that overlap: what they have in common, how much of it under a limit, and all of it in a third key. -/
theorem set_algebra_of_two :
    Answers 0 sampleStore (cmdSinter sortedOrder 0 (words ["SINTER", "a", "b"]) sampleStore)
        (.ok (setReply sortedOrder {[121]})) ∧
      Answers 0 sampleStore (cmdSdiff sortedOrder 0 (words ["SDIFF", "a", "b"]) sampleStore)
        (.ok (setReply sortedOrder {[120]})) ∧
      Stores 0 sampleStore [100]
        (cmdSunionstore sortedOrder .default 0 (words ["SUNIONSTORE", "d", "a", "b"]) sampleStore)
        (.ok {[120], [121], [122]}) ∧
      (sintercard sortedOrder 0 ⟨[[97], [98]], some 5⟩ sampleStore).map (fun r => r.map fun n => (n : Int)) =
        some (.ok 1) := by
  have right := set_algebra_iff sortedOrder .default (by simp [words]) given_ab
  have shown : ¬Hidden twoSets := by
    rw [twoSets, hidden_value, hidden_value]
    exact not_hidden_nil
  have call : sintercardCall id (words ["SINTERCARD", "2", "a", "b", "LIMIT", "5"]) = .ok ⟨[[97], [98]], some 5⟩ := by
    decide +kernel
  have unlimited : .wrong ∈ twoSets ∨ ∀ l, some (5 : Int64) = some l → 0 ≤ l :=
    .inr fun l is => by
      cases is
      decide
  refine ⟨?_, ?_, ?_, ?_⟩
  · exact (right.sinter (words ["SINTER", "a", "b"]) rfl).2 shown
  · exact right.sdiff (words ["SDIFF", "a", "b"]) rfl
  · exact right.sunionstore (words ["SUNIONSTORE", "d", "a", "b"]) [100] ⟨by decide +kernel, rfl⟩
  · exact (right.sintercard id _ _ call (by decide +kernel)).2.2 ⟨shown, unlimited⟩

theorem given_ms : Given 0 sampleStore (words ["m", "s"]) [.missing, .wrong] := by
  refine .cons ⟨[109], by decide +kernel, ?_⟩ (.cons ⟨[115], by decide +kernel, ?_⟩ .nil)
  · rw [valueAt_m]
    exact .missing
  · rw [valueAt_s]
    exact .wrong rfl

theorem given_sm : Given 0 sampleStore (words ["s", "m"]) [.wrong, .missing] := by
  obtain ⟨missing, wrong, -⟩ := List.forall₂_cons.1 given_ms |>.imp_right List.forall₂_cons.1
  exact .cons wrong (.cons missing .nil)

/-- SINTER m s answers the empty array, SINTER s m an error. -/
theorem sinter_hides :
    Answers 0 sampleStore (cmdSinter sortedOrder 0 (words ["SINTER", "m", "s"]) sampleStore)
        (.ok (setReply sortedOrder ∅)) ∧
      checked [.missing, .wrong] (inter [.missing, .wrong]) = .error .wrongType ∧
      Answers 0 sampleStore (cmdSinter sortedOrder 0 (words ["SINTER", "s", "m"]) sampleStore) (.error .wrongType) := by
  have first : (words ["SINTER", "m", "s"]).drop 1 ≠ [] := by simp [words]
  have second : (words ["SINTER", "s", "m"]).drop 1 ≠ [] := by simp [words]
  exact ⟨answerSet_answers first (collectInter_answers given_ms), rfl,
    answerSet_answers second (collectInter_answers given_sm)⟩

end SetAlgebra

end NexradeCache
