import NexradeCache.Command.Streams
import NexradeCache.Store.Counter

/-!
# INCR, DECR, INCRBY and DECRBY (`nexrade-core/src/command/string.rs`)

The handlers parse their arguments and call `incr_int`. DECRBY negates its argument first, and in a release
build the negation of the least `i64` is itself.
-/

namespace NexradeCache

open Content Utf8

/-- The errors of these handlers. -/
inductive CounterError where
  | request (e : NexradeError)
  | incr (e : IncrError)

namespace Counters

def incrBy (now : Nat) (db : ShardedDatabase) (args : List Resp) (delta : Int64) (cmd : String) :
    ShardedDatabase × Except CounterError Resp :=
  if args.length < 2 then (db, .error (.request (.wrongArity cmd)))
  else
    match bytesArg cmd.toLower args[1]? with
    | .error e => (db, .error (.request e))
    | .ok key =>
      match db.incrInt now key delta with
      | (db', .ok newVal) => (db', .ok (.integer newVal))
      | (db', .error e) => (db', .error (.incr e))

def cmdIncr (now : Nat) (db : ShardedDatabase) (args : List Resp) : ShardedDatabase × Except CounterError Resp :=
  incrBy now db args 1 "INCR"

def cmdDecr (now : Nat) (db : ShardedDatabase) (args : List Resp) : ShardedDatabase × Except CounterError Resp :=
  incrBy now db args (-1) "DECR"

def cmdIncrby (now : Nat) (db : ShardedDatabase) (args : List Resp) : ShardedDatabase × Except CounterError Resp :=
  if args.length ≠ 3 then (db, .error (.request (.wrongArity "incrby")))
  else
    match i64Arg "incrby" args[2]? with
    | .error e => (db, .error (.request e))
    | .ok delta => incrBy now db args delta "INCRBY"

def cmdDecrby (now : Nat) (db : ShardedDatabase) (args : List Resp) : ShardedDatabase × Except CounterError Resp :=
  if args.length ≠ 3 then (db, .error (.request (.wrongArity "decrby")))
  else
    match i64Arg "decrby" args[2]? with
    | .error e => (db, .error (.request e))
    | .ok delta => incrBy now db args (-delta) "DECRBY"

/-- The commands that add to a key. -/
inductive Counting where
  | incr
  | decr
  | incrby
  | decrby
deriving DecidableEq

namespace Counting

def handler : Counting → Nat → ShardedDatabase → List Resp → ShardedDatabase × Except CounterError Resp
  | incr => cmdIncr
  | decr => cmdDecr
  | incrby => cmdIncrby
  | decrby => cmdDecrby

/-- What the command adds to the key, as an integer. -/
def change (d : Int64) : Counting → Int
  | incr => 1
  | decr => -1
  | incrby => d.toInt
  | decrby => -d.toInt

/-- What it hands to `incr_int`. -/
def delta (d : Int64) : Counting → Int64
  | incr => 1
  | decr => -1
  | incrby => d
  | decrby => -d

/-- A request for the key, with the argument `d` where the command takes one. -/
def Asks (args : List Resp) (key : Bytes) (d : Int64) : Counting → Prop
  | incr | decr => args[1]?.bind Resp.toBytesVec = some key
  | incrby | decrby =>
    args.length = 3 ∧ args[1]?.bind Resp.toBytesVec = some key ∧
      (args[2]?.bind Resp.asStr).bind Decimal.parseI64 = some d

end Counting

/-- The reply to what `incr_int` answers. -/
def reply (r : Except IncrError Int64) : Except CounterError Resp := (r.map Resp.integer).mapError CounterError.incr

variable {now : Nat} {db : ShardedDatabase} {args : List Resp} {key : Bytes} {d : Int64}

theorem incrBy_eq (delta : Int64) (cmd : String) (asks : args[1]?.bind Resp.toBytesVec = some key) :
    incrBy now db args delta cmd = ((db.incrInt now key delta).1, reply (db.incrInt now key delta).2) := by
  have long : ¬args.length < 2 := by
    intro short
    rw [List.getElem?_eq_none (by omega)] at asks
    cases asks
  unfold incrBy bytesArg reply
  rw [if_neg long, asks]
  dsimp only
  generalize db.incrInt now key delta = out
  obtain ⟨db', r⟩ := out
  cases r <;> rfl

theorem handler_eq (cmd : Counting) (asks : cmd.Asks args key d) :
    cmd.handler now db args =
      ((db.incrInt now key (cmd.delta d)).1, reply (db.incrInt now key (cmd.delta d)).2) := by
  have parsed (name : String) (value : (args[2]?.bind Resp.asStr).bind Decimal.parseI64 = some d) :
      i64Arg name args[2]? = .ok d := by
    obtain ⟨s, text, digits⟩ := Option.bind_eq_some_iff.1 value
    simp only [i64Arg, strArg, text, i64OfStr, digits, bind, Except.bind]
  cases cmd with
  | incr => exact incrBy_eq 1 "INCR" asks
  | decr => exact incrBy_eq (-1) "DECR" asks
  | incrby =>
    obtain ⟨three, is, value⟩ := asks
    show cmdIncrby now db args = _
    rw [cmdIncrby, if_neg (by omega), parsed _ value]
    exact incrBy_eq d "INCRBY" is
  | decrby =>
    obtain ⟨three, is, value⟩ := asks
    show cmdDecrby now db args = _
    rw [cmdDecrby, if_neg (by omega), parsed _ value]
    exact incrBy_eq (-d) "DECRBY" is

/-! ## Exactness -/

/-- The command added exactly `change` to the key, or answered with an error and changed nothing. -/
structure Exact (now : Nat) (db : ShardedDatabase) (key : Bytes) (change : Int)
    (out : ShardedDatabase × Except CounterError Resp) : Prop where
  here : ∃ r, out.2 = reply r ∧
    Counts change (live now (db.keyspace key)) r (live now (out.1.keyspace key))
  others : ∀ x, x ≠ key → out.1.keyspace x = db.keyspace x

theorem toInt_neg_of_ne (ne : d ≠ Int64.minValue) : (-d).toInt = -d.toInt := by
  have low : d.toInt ≠ -(2 ^ 63) := fun is => ne (Int64.toInt_inj.1 is)
  have least := d.le_toInt
  have most := d.toInt_lt
  rw [Int64.toInt_neg, Int.bmod_eq_of_le (by omega) (by omega)]

theorem delta_toInt (cmd : Counting) (fits : cmd = .decrby → d ≠ Int64.minValue) :
    (cmd.delta d).toInt = cmd.change d := by
  cases cmd with
  | incr => rfl
  | decr => rfl
  | incrby => rfl
  | decrby => exact toInt_neg_of_ne (fits rfl)

theorem reply_injective {r r' : Except IncrError Int64} (same : reply r = reply r') : r = r' := by
  cases r <;> cases r' <;> simp_all [reply, Except.map, Except.mapError]

/-- The command adds what it hands to `incr_int`. -/
theorem exact_delta (cmd : Counting) (asks : cmd.Asks args key d) :
    Exact now db key (cmd.delta d).toInt (cmd.handler now db args) := by
  obtain ⟨state, answer⟩ := @ShardedDatabase.keyspace_incrInt db now key (cmd.delta d)
  rw [handler_eq cmd asks]
  refine ⟨⟨_, rfl, ?_⟩, fun x ne => ?_⟩
  · dsimp only
    rw [answer, state, Function.update_self]
    exact counts_incrBy now _ _
  · dsimp only
    rw [state, Function.update_of_ne ne]

/-- What a key stands for lies on one side of zero, so that one of the two sums does not fit. -/
theorem counts_opposite {c c' : Option Content} {r : Except IncrError Int64} {n : Int64}
    (reads : reading c = .ok n) (down : Counts (-(2 ^ 63)) c r c') : ¬Counts (2 ^ 63) c r c' := by
  have least := n.le_toInt
  have most := n.toInt_lt
  intro up
  cases down with
  | added reads' exact =>
    have above := up.answer_exact reads'
    omega
  | overflows reads' unfit =>
    cases reads.symm.trans reads'
    cases up with
    | overflows reads'' unfit' =>
      cases reads.symm.trans reads''
      unfold Fits at unfit unfit'
      omega
    | refused reads'' => cases reads.symm.trans reads''
  | refused reads' => cases reads.symm.trans reads'

theorem exact_iff (cmd : Counting) (asks : cmd.Asks args key d) :
    Exact now db key (cmd.change d) (cmd.handler now db args) ↔
      ¬(cmd = .decrby ∧ d = Int64.minValue ∧ ∃ n, reading (live now (db.keyspace key)) = .ok n) := by
  have added := @exact_delta now db args key d cmd asks
  by_cases least : cmd = .decrby ∧ d = Int64.minValue
  · obtain ⟨rfl, rfl⟩ := least
    obtain ⟨⟨r, replied, counts⟩, others⟩ := added
    constructor
    · rintro ⟨⟨r', replied', counts'⟩, -⟩ ⟨-, -, n, reads⟩
      rw [reply_injective (replied'.symm.trans replied)] at counts'
      exact counts_opposite reads counts counts'
    · intro refused
      exact ⟨⟨r, replied, counts.of_refused fun n reads => refused ⟨rfl, rfl, n, reads⟩⟩, others⟩
  · rw [delta_toInt cmd fun is same => least ⟨is, same⟩] at added
    exact iff_of_true added fun h => least ⟨h.1, h.2.1⟩

/-! ## The paths -/

/-- The paths of `incr_int` agree: what the read lock does the write lock does as well, and the answer is the
same wherever a key stands for the same integer. -/
structure Agree (now : Nat) (db : ShardedDatabase) (key : Bytes) (delta : Int64) : Prop where
  fast : ∀ out, db.incrIntFast now key delta = some out →
    out.2 = (db.writeFor key fun shard => shard.incrInt now key delta).2 ∧
      out.1.keyspace = (db.writeFor key fun shard => shard.incrInt now key delta).1.keyspace
  answers : ∀ now' (db' : ShardedDatabase),
    reading (live now' (db'.keyspace key)) = reading (live now (db.keyspace key)) →
      (db'.writeFor key fun shard => shard.incrInt now' key delta).2 = (db.incrInt now key delta).2

theorem agree (now : Nat) (db : ShardedDatabase) (key : Bytes) (delta : Int64) : Agree now db key delta := by
  obtain ⟨state, answer⟩ := @ShardedDatabase.keyspace_incrInt db now key delta
  obtain ⟨state', answer'⟩ := @ShardedDatabase.keyspace_incrIntLocked db now key delta
  refine ⟨fun out fast => ?_, fun now' db' same => ?_⟩
  · have is : db.incrInt now key delta = out := by rw [ShardedDatabase.incrInt, fast]
    rw [is] at state answer
    exact ⟨answer.trans answer'.symm, state.trans state'.symm⟩
  · obtain ⟨-, there⟩ := @ShardedDatabase.keyspace_incrIntLocked db' now' key delta
    rw [there, answer]
    exact (counts_incrBy now' delta _).answer_eq (counts_incrBy now delta _) same

open Counter in
/-- No update is lost: the increments that were answered took effect one after the other, each exactly, and a
key without a deadline has counted them all. -/
structure NoneLost (K : Keyspace) (tasks : List Counter.Task) (K' : Keyspace) : Prop where
  serial : ∃ order : List Made, order.Perm (tasks.filterMap Task.made) ∧ Serial.Explains Increment.apply K order K'
  exact : ∀ (i : Increment) (K : Keyspace),
    Counts i.delta.toInt (live i.time (K i.key)) (i.apply K).2 (live i.time ((i.apply K).1 i.key)) ∧
      ∀ x, x ≠ i.key → (i.apply K).1 x = K x
  counted : ∀ key old, (K key).bind Prod.snd = none → reading (K key) = .ok old →
    ∃ n, reading (K' key) = .ok n ∧ n.toInt = old.toInt + gained key (tasks.filterMap Task.made)

open Counter in
theorem noneLost_of_reachable {db : ShardedDatabase} {clock : Nat} {pool : Interleave.Pool Counter.Shared Counter.Task}
    (reach : Interleave.Reachable Counter.Task.next Counter.Task.entry ⟨⟨db, clock, []⟩, []⟩ pool) :
    NoneLost db.keyspace pool.tasks pool.shared.db.keyspace := by
  obtain ⟨order, same, runs⟩ := serial_of_reachable rfl reach
  refine ⟨⟨order, same, runs⟩, fun i K => ⟨?_, fun x ne => i.apply_other K ne⟩, fun key old lasting reads => ?_⟩
  · rw [i.apply_here]
    exact counts_incrBy i.time i.delta (K i.key)
  · rw [← gained_perm same]
    exact reading_of_explains runs lasting reads

open Counter in
/-- **Counters are exact, except where DECRBY is given the least `i64`**; the paths agree, and no interleaving loses
an update. DECRBY negates its argument, and the least one is its own negation in wrapping arithmetic. -/
theorem counters_exact_iff (now : Nat) (db : ShardedDatabase) (key : Bytes) :
    (∀ (cmd : Counting) (args : List Resp) (d : Int64), cmd.Asks args key d →
      (Exact now db key (cmd.change d) (cmd.handler now db args) ↔
        ¬(cmd = .decrby ∧ d = Int64.minValue ∧ ∃ n, reading (live now (db.keyspace key)) = .ok n))) ∧
    (∀ delta : Int64, Agree now db key delta) ∧
    ∀ (clock : Nat) (pool : Interleave.Pool Counter.Shared Counter.Task),
      Interleave.Reachable Counter.Task.next Counter.Task.entry ⟨⟨db, clock, []⟩, []⟩ pool →
        NoneLost db.keyspace pool.tasks pool.shared.db.keyspace :=
  ⟨fun cmd _ _ asks => exact_iff cmd asks, agree now db key, fun _ _ reach => noneLost_of_reachable reach⟩

/-- DECRBY k -9223372036854775808. -/
def leastRequest : List Resp :=
  [.bulkString (some (asBytes "DECRBY")), .bulkString (some [107]), .bulkString (some (asBytes "-9223372036854775808"))]

theorem asks_leastRequest : Counting.decrby.Asks leastRequest [107] Int64.minValue :=
  ⟨rfl, rfl, by decide +kernel⟩

/-- The key of that request, with a string that is no integer. -/
def worded : ShardedDatabase :=
  ((ShardedDatabase.new 1 Nat.one_pos).writeFor [107] fun shard => (shard.insert [107] (.new (.string [120])), ())).1

/-- DECRBY of the least number on a word is an error, and changes nothing. -/
theorem counters_exact_worded :
    Counting.decrby.Asks leastRequest [107] Int64.minValue ∧
      Exact 0 worded [107] (2 ^ 63) (cmdDecrby 0 worded leastRequest) :=
  ⟨asks_leastRequest, ((counters_exact_iff 0 worded [107]).1 .decrby leastRequest _ asks_leastRequest).2 (by
    rintro ⟨-, -, n, reads⟩
    have refused : reading (live 0 (worded.keyspace [107])) = .error .notInteger := by rfl
    cases refused.symm.trans reads)⟩

/-- On a key that is not there DECRBY of the least `i64` answers with the least `i64`, where the sum does not fit. -/
theorem decrby_least_wraps :
    Counting.decrby.Asks leastRequest [107] Int64.minValue ∧
      (cmdDecrby 0 (.new 1 Nat.one_pos) leastRequest).2 = .ok (.integer Int64.minValue) ∧
      ¬Exact 0 (.new 1 Nat.one_pos) [107] (Counting.decrby.change Int64.minValue)
        (cmdDecrby 0 (.new 1 Nat.one_pos) leastRequest) := by
  refine ⟨asks_leastRequest, ?_, ?_⟩
  · have same := @handler_eq 0 (.new 1 Nat.one_pos) leastRequest [107] Int64.minValue .decrby asks_leastRequest
    exact (congrArg Prod.snd same).trans rfl
  · intro exact
    exact (exact_iff .decrby asks_leastRequest).1 exact ⟨rfl, rfl, 0, rfl⟩

end Counters

end NexradeCache
