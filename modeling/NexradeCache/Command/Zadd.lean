import NexradeCache.Command.SetAlgebra
import NexradeCache.Command.SortedRanges

/-!
# Flags of ZADD (`nexrade-core/src/command/zset.rs`)

ZADD applies its pairs one after the other to the sorted set of its key, each unless a flag excludes it by the score
that its member has by then. `zadd_iff` says when the answer and the sorted set are those of the flags: the branch of
INCR looks at XX only where the key is missing, and at neither GT nor LT.

The parser of floats, `to_uppercase`, the text of a float and the sum of two are parameters.
-/

namespace NexradeCache.Zadd

open Bytes
open Collections (leF64 ltF64 ZaddFlags)
open SortedRanges (parseScoreBound)

/-! ## The code -/

section

variable (env : SortedRanges.Env) (add : F64 → F64 → F64) (thr : ZSetThresholds)

/-- The flags in front of the first score. -/
def zaddOptions : (rest : List Resp) → ZaddFlags → Result (ZaddFlags × List Resp)
  | [], flags => .ok (flags, [])
  | a :: rest, flags => do
    let opt := env.toUppercase (← strArg "zadd" (some a))
    if opt = "NX" then zaddOptions rest { flags with nx := true }
    else if opt = "XX" then zaddOptions rest { flags with xx := true }
    else if opt = "GT" then zaddOptions rest { flags with gt := true }
    else if opt = "LT" then zaddOptions rest { flags with lt := true }
    else if opt = "CH" then zaddOptions rest { flags with ch := true }
    else if opt = "INCR" then zaddOptions rest { flags with incr := true }
    else return (flags, a :: rest)

/-- A ZADD up to the pairs, which are still to be read. -/
structure ZaddCall where
  key : Bytes
  flags : ZaddFlags
  rest : List Resp

def zaddCall (args : List Resp) : Result ZaddCall := do
  if args.length < 4 then throw (.wrongArity "zadd")
  let key ← bytesArg "zadd" args[1]?
  let (flags, rest) ← zaddOptions env (args.drop 2) {}
  if flags.nx && (flags.gt || flags.lt || flags.incr) then throw .syntaxError
  if flags.gt && flags.lt then throw .syntaxError
  if flags.incr then
    if rest.length ≠ 2 then throw (.generic "INCR option supports a single increment-element pair")
  else if rest.length < 2 || rest.length % 2 ≠ 0 then throw (.wrongArity "zadd")
  return ⟨key, flags, rest⟩

/-- The counters of the loop. -/
structure Counts where
  added : Nat
  changed : Nat
  payload : Int

def scoreArg (a : Option Resp) : Result F64 := do
  let (score, _) ← parseScoreBound env (← strArg "zadd" a)
  return score

/-- The tests of the flags against the score that the member has. -/
def skips (flags : ZaddFlags) (existing : Option F64) (score : F64) : Bool :=
  flags.nx && existing.isSome || flags.xx && existing.isNone || flags.gt && existing.any (leF64 score) ||
    flags.lt && existing.any fun old => leF64 old score

/-- The loop over the pairs; an insertion may panic. -/
def zaddLoop (flags : ZaddFlags) : (rest : List Resp) → ZSetData → Counts → ZSetData × Option (Result Counts)
  | a :: b :: rest, z, n =>
    match scoreArg env (some a) with
    | .error e => (z, some (.error e))
    | .ok score => match bytesArg "zadd" (some b) with
      | .error e => (z, some (.error e))
      | .ok member =>
        let needExisting := flags.nx || flags.xx || flags.gt || flags.lt || flags.ch
        let existing := z.score member
        if needExisting && skips flags existing score then zaddLoop flags rest z n
        else match z.insert thr member score with
          | none => (z, none)
          | some (z, true) =>
            zaddLoop flags rest z { n with added := n.added + 1, payload := n.payload + member.length }
          | some (z, false) =>
            let rescored := needExisting && existing.any fun old => !old.eq score
            zaddLoop flags rest z { n with changed := if rescored then n.changed + 1 else n.changed }
  | _, z, n => (z, some (.ok n))

/-- The branch of INCR: the answer, and what the payload grew by. -/
def zaddIncr (rest : List Resp) (z : ZSetData) : ZSetData × Option (Result (Resp × Int)) :=
  match scoreArg env rest[0]? with
  | .error e => (z, some (.error e))
  | .ok delta => match bytesArg "zadd" rest[1]? with
    | .error e => (z, some (.error e))
    | .ok member =>
      let newScore := add ((z.score member).getD ⟨0⟩) delta
      match z.insert thr member newScore with
      | none => (z, none)
      | some (z, isNew) =>
        (z, some (.ok (.bulkString (some (env.formatFloat newScore)), if isNew then member.length else 0)))

def zaddPlain (flags : ZaddFlags) (rest : List Resp) (z : ZSetData) : ZSetData × Option (Result (Resp × Int)) :=
  let (z, r) := zaddLoop env thr flags rest z ⟨0, 0, 0⟩
  (z, r.map fun r => r.map fun n =>
    (.integer (.ofNat (if flags.ch then n.added + n.changed else n.added)), n.payload))

/-- What ZADD does with the value that `get_or_create_zset` hands out. -/
def zaddEdit (flags : ZaddFlags) (rest : List Resp) (e : Entry) : DataType × Option (Result (Resp × Int)) :=
  match e.value with
  | .zset z =>
    let (z, r) := if flags.incr then zaddIncr env add thr rest z else zaddPlain env thr flags rest z
    (.zset z, r)
  | v => (v, some (.error .wrongType))

/-- ZADD under the lock of the shard; `none` is a panic. -/
def zadd (now : Nat) (c : ZaddCall) (s : Database) : Database × Option (Result Resp) :=
  let create (s : Database) : Database × Option (Result Resp) :=
    match s.getOrInsertWithEdit now c.key (.new (.zset .new)) (zaddEdit env add thr c.flags c.rest) with
    | (s, some (.ok (reply, payload))) => (s.adjustLiveBytes payload, some (.ok reply))
    | (s, some (.error e)) => (s, some (.error e))
    | (s, none) => (s, none)
  if c.flags.xx then
    match s.get now c.key with
    | (s, none) => (s, some (.ok (if c.flags.incr then .bulkString none else .integer 0)))
    | (s, some _) => create s
  else create s

def cmdZadd (now : Nat) (args : List Resp) (db : ShardedDatabase) : ShardedDatabase × Option (Result Resp) :=
  match zaddCall env args with
  | .error e => (db, some (.error e))
  | .ok c => db.writeFor c.key (zadd env add thr now c)

end

/-! ## What the flags mean -/

/-- A flag excludes a pair, by the score that its member has. -/
def excluded (flags : ZaddFlags) (old : Option F64) (score : F64) : Bool :=
  match old with
  | none => flags.xx
  | some old => flags.nx || flags.gt && leF64 score old || flags.lt && leF64 old score

def applyPair (flags : ZaddFlags) (z : ZMap) (e : Bytes × F64) : ZMap :=
  if excluded flags (z e.1) e.2 then z else Function.update z e.1 (some e.2)

def applyAll (flags : ZaddFlags) (z : ZMap) (es : List (Bytes × F64)) : ZMap := es.foldl (applyPair flags) z

def adds (flags : ZaddFlags) (z : ZMap) (e : Bytes × F64) : Bool := !excluded flags (z e.1) e.2 && (z e.1).isNone

def changes (flags : ZaddFlags) (z : ZMap) (e : Bytes × F64) : Bool :=
  !excluded flags (z e.1) e.2 && (z e.1).any fun old => !old.eq e.2

/-- How many pairs pass a test, each on what the pairs before it left. -/
def countBy (test : ZaddFlags → ZMap → Bytes × F64 → Bool) (flags : ZaddFlags) : ZMap → List (Bytes × F64) → Nat
  | _, [] => 0
  | z, e :: es => (if test flags z e then 1 else 0) + countBy test flags (applyPair flags z e) es

/-- What the flags promise about a sorted set before and after. -/
structure Obeys (flags : ZaddFlags) (z z' : ZMap) : Prop where
  xx : flags.xx = true → ∀ m, z m = none → z' m = none
  nx : flags.nx = true → ∀ m s, z m = some s → z' m = some s
  gt : flags.gt = true → ∀ m s, z m = some s → ∃ s', z' m = some s' ∧ leF64 s s' = true
  lt : flags.lt = true → ∀ m s, z m = some s → ∃ s', z' m = some s' ∧ leF64 s' s = true

/-- No score is NaN. -/
def Numbers (z : ZMap) : Prop := ∀ m s, z m = some s → s.isNaN = false

variable {flags : ZaddFlags} {z z' z'' : ZMap} {e : Bytes × F64} {es : List (Bytes × F64)}

theorem leF64_iff {a b : F64} : leF64 a b = true ↔ a.isNaN = false ∧ b.isNaN = false ∧ a.key ≤ b.key := by
  simp [leF64, and_assoc]

theorem leF64_refl {a : F64} (number : a.isNaN = false) : leF64 a a = true := leF64_iff.2 ⟨number, number, Int.le_refl _⟩

theorem leF64_trans {a b c : F64} (h : leF64 a b = true) (h' : leF64 b c = true) : leF64 a c = true := by
  obtain ⟨left, -, le⟩ := leF64_iff.1 h
  obtain ⟨-, right, le'⟩ := leF64_iff.1 h'
  exact leF64_iff.2 ⟨left, right, Int.le_trans le le'⟩

theorem leF64_total {a b : F64} (left : a.isNaN = false) (right : b.isNaN = false) (h : leF64 a b ≠ true) :
    leF64 b a = true := by
  refine leF64_iff.2 ⟨right, left, ?_⟩
  have above : ¬a.key ≤ b.key := fun le => h (leF64_iff.2 ⟨left, right, le⟩)
  omega

theorem Obeys.refl (numbers : Numbers z) : Obeys flags z z where
  xx _ _ none := none
  nx _ _ _ here := here
  gt _ m s here := ⟨s, here, leF64_refl (numbers m s here)⟩
  lt _ m s here := ⟨s, here, leF64_refl (numbers m s here)⟩

theorem Obeys.trans (h : Obeys flags z z') (h' : Obeys flags z' z'') : Obeys flags z z'' where
  xx on m none := h'.xx on m (h.xx on m none)
  nx on m s here := h'.nx on m s (h.nx on m s here)
  gt on m s here := by
    obtain ⟨s', here', le⟩ := h.gt on m s here
    obtain ⟨s'', here'', le'⟩ := h'.gt on m s' here'
    exact ⟨s'', here'', leF64_trans le le'⟩
  lt on m s here := by
    obtain ⟨s', here', le⟩ := h.lt on m s here
    obtain ⟨s'', here'', le'⟩ := h'.lt on m s' here'
    exact ⟨s'', here'', leF64_trans le' le⟩

theorem applyPair_numbers (numbers : Numbers z) (number : e.2.isNaN = false) : Numbers (applyPair flags z e) := by
  intro m s here
  unfold applyPair at here
  split at here
  · exact numbers m s here
  · by_cases same : m = e.1
    · rw [same, Function.update_self] at here
      rwa [← Option.some.inj here]
    · rw [Function.update_of_ne same] at here
      exact numbers m s here

theorem applyPair_obeys (numbers : Numbers z) (number : e.2.isNaN = false) : Obeys flags z (applyPair flags z e) := by
  unfold applyPair
  split
  · exact .refl numbers
  · rename_i applied
    have old {m : Bytes} {s : F64} (here : z m = some s) (same : m = e.1) :
        flags.nx ≠ true ∧ (flags.gt = true → leF64 e.2 s ≠ true) ∧ (flags.lt = true → leF64 s e.2 ≠ true) := by
      rw [← same, here] at applied
      simp only [excluded, Bool.or_eq_true, Bool.and_eq_true, not_or, not_and] at applied
      exact ⟨applied.1.1, applied.1.2, applied.2⟩
    constructor
    · intro on m none
      by_cases same : m = e.1
      · rw [← same, none] at applied
        exact absurd on applied
      · rwa [Function.update_of_ne same]
    · intro on m s here
      by_cases same : m = e.1
      · exact absurd on (old here same).1
      · rwa [Function.update_of_ne same]
    · intro on m s here
      by_cases same : m = e.1
      · refine ⟨e.2, by rw [same, Function.update_self], ?_⟩
        exact leF64_total number (numbers m s here) ((old here same).2.1 on)
      · exact ⟨s, by rwa [Function.update_of_ne same], leF64_refl (numbers m s here)⟩
    · intro on m s here
      by_cases same : m = e.1
      · refine ⟨e.2, by rw [same, Function.update_self], ?_⟩
        exact leF64_total (numbers m s here) number ((old here same).2.2 on)
      · exact ⟨s, by rwa [Function.update_of_ne same], leF64_refl (numbers m s here)⟩

theorem applyAll_obeys (numbers : Numbers z) (all : ∀ e ∈ es, e.2.isNaN = false) : Obeys flags z (applyAll flags z es) := by
  induction es generalizing z with
  | nil => exact .refl numbers
  | cons e es ih =>
    obtain ⟨here, rest⟩ := List.forall_mem_cons.1 all
    exact (applyPair_obeys numbers here).trans (ih (applyPair_numbers numbers here) rest)

/-- Where no member is, XX excludes every pair. -/
theorem applyAll_xx (xx : flags.xx = true) (es : List (Bytes × F64)) :
    applyAll flags (fun _ => none) es = (fun _ => none) ∧ countBy adds flags (fun _ => none) es = 0 ∧
      countBy changes flags (fun _ => none) es = 0 := by
  have stays (e : Bytes × F64) : applyPair flags (fun _ => none) e = fun _ => none := if_pos xx
  induction es with
  | nil => exact ⟨rfl, rfl, rfl⟩
  | cons e es ih =>
    obtain ⟨same, noneAdded, noneChanged⟩ := ih
    refine ⟨?_, ?_, ?_⟩
    · rw [applyAll, List.foldl_cons, stays]
      exact same
    · rw [countBy, stays, noneAdded]
      simp [adds, excluded, xx]
    · rw [countBy, stays, noneChanged]
      simp [changes]

/-! ## The loop -/

section

variable {env : SortedRanges.Env} {add : F64 → F64 → F64} {thr : ZSetThresholds} {d : ZSetData} {l : List ZPair}
  {rest : List Resp}

/-- The tests of the code are those of the flags. -/
theorem skips_eq (flags : ZaddFlags) (old : Option F64) (score : F64) :
    ((flags.nx || flags.xx || flags.gt || flags.lt || flags.ch) && skips flags old score) = excluded flags old score := by
  obtain ⟨nx, xx, gt, lt, ch, incr⟩ := flags
  cases old <;> cases nx <;> cases xx <;> cases gt <;> cases lt <;> simp [skips, excluded]

theorem leF64_congr {a a' b b' : F64} (left : a.key = a'.key) (right : b.key = b'.key) : leF64 a b = leF64 a' b' := by
  rw [leF64, leF64, F64.isNaN_congr left, F64.isNaN_congr right, left, right]

theorem eq_congr {a a' : F64} (b : F64) (same : a.key = a'.key) : a.eq b = a'.eq b := by
  rw [F64.eq, F64.eq, F64.isNaN_congr same, same]

theorem excluded_congr {old old' : Option F64} (same : old.map F64.key = old'.map F64.key) (score : F64) :
    excluded flags old score = excluded flags old' score := by
  cases old with
  | none =>
    cases old' with
    | none => rfl
    | some old' => cases same
  | some old =>
    cases old' with
    | none => cases same
    | some old' =>
      have key : old.key = old'.key := Option.some.inj same
      show (flags.nx || flags.gt && leF64 score old || flags.lt && leF64 old score) = _
      rw [leF64_congr rfl key, leF64_congr key rfl]
      rfl

theorem any_eq_congr {old old' : Option F64} (same : old.map F64.key = old'.map F64.key) (score : F64) :
    (old.any fun old => !old.eq score) = old'.any fun old => !old.eq score := by
  cases old with
  | none =>
    cases old' with
    | none => rfl
    | some old' => cases same
  | some old =>
    cases old' with
    | none => cases same
    | some old' =>
      show (!old.eq score) = !old'.eq score
      rw [eq_congr score (Option.some.inj same)]

/-- The pairs that arguments stand for. -/
inductive Pairs (env : SortedRanges.Env) : List Resp → List (Bytes × F64) → Prop
  | nil : Pairs env [] []
  | cons {a b : Resp} {rest : List Resp} {member : Bytes} {score : F64} {es : List (Bytes × F64)} :
      scoreArg env (some a) = .ok score → bytesArg "zadd" (some b) = .ok member → Pairs env rest es →
      Pairs env (a :: b :: rest) ((member, score) :: es)

theorem scoreArg_number {a : Option Resp} {score : F64} (parsed : scoreArg env a = .ok score) : score.isNaN = false := by
  unfold scoreArg at parsed
  obtain ⟨text, -, parsed⟩ := exists_of_bind_ok parsed
  obtain ⟨⟨v, excl⟩, bound, parsed⟩ := exists_of_bind_ok parsed
  obtain rfl : v = score := Except.ok.inj parsed
  have number {o : Option F64} {x : Bool} (bound : (match o with
      | none => .error .notFloat
      | some v => if v.isNaN then .error .notFloat else .ok (v, x) : Result (F64 × Bool)) = .ok (v, excl)) :
      v.isNaN = false := by
    split at bound
    · cases bound
    · split at bound
      · cases bound
      · rename_i number
        cases bound
        simpa using number
  unfold parseScoreBound at bound
  split at bound
  all_goals exact number bound

theorem Pairs.numbers (given : Pairs env rest es) : ∀ e ∈ es, e.2.isNaN = false := by
  induction given with
  | nil => exact fun e mem => absurd mem List.not_mem_nil
  | cons score _ _ ih => exact List.forall_mem_cons.2 ⟨scoreArg_number score, ih⟩

/-- The loop leaves what the pairs leave, and counts what they do. -/
theorem zaddLoop_spec (thr : ZSetThresholds) (flags : ZaddFlags) (given : Pairs env rest es)
    (short : ∀ e ∈ es, e.1.length < 2 ^ 32) (rep : d.Rep z l) (n : Counts) :
    ∃ d' l' n', zaddLoop env thr flags rest d n = (d', some (.ok n')) ∧ d'.Rep (applyAll flags z es) l' ∧
      n'.added = n.added + countBy adds flags z es ∧
      (flags.ch = true → n'.changed = n.changed + countBy changes flags z es) := by
  induction given generalizing d z l n with
  | nil => exact ⟨d, l, n, by rw [zaddLoop]; simp, rep, rfl, fun _ => rfl⟩
  | @cons a b rest member score es isScore isMember _ ih =>
    obtain ⟨hereShort, restShort⟩ := List.forall_mem_cons.1 short
    have number := scoreArg_number isScore
    have key : (d.score member).map F64.key = (z member).map F64.key := rep.score_key member
    rw [zaddLoop, isScore]
    dsimp only
    rw [isMember]
    dsimp only
    rw [skips_eq, excluded_congr key, any_eq_congr key]
    by_cases out : excluded flags (z member) score = true
    · have same : applyPair flags z (member, score) = z := if_pos out
      obtain ⟨d', l', n', runs, rep', added, changed⟩ := ih restShort rep n
      refine ⟨d', l', n', by rw [if_pos out]; exact runs, ?_, ?_, ?_⟩
      · rw [applyAll, List.foldl_cons, same]
        exact rep'
      · rw [countBy, same, added]
        simp [adds, out]
      · intro on
        rw [countBy, same, changed on]
        simp [changes, out]
    · have applied : applyPair flags z (member, score) = Function.update z member (some score) := if_neg out
      obtain ⟨d₁, l₁, inserts, rep₁⟩ := rep.insert thr number hereShort
      rw [if_neg out, inserts]
      cases old : z member with
      | none =>
        obtain ⟨d', l', n', runs, rep', added, changed⟩ := ih restShort rep₁
          { n with added := n.added + 1, payload := n.payload + member.length }
        refine ⟨d', l', n', runs, ?_, ?_, ?_⟩
        · rw [applyAll, List.foldl_cons, applied]
          exact rep'
        · have new : adds flags z (member, score) = true := by simp [adds, old, old ▸ out]
          rw [countBy, applied, added, new, if_pos rfl]
          dsimp only
          omega
        · intro on
          have notChanged : changes flags z (member, score) = false := by simp [changes, old]
          rw [countBy, applied, changed on, notChanged, if_neg Bool.false_ne_true, Nat.zero_add]
      | some s =>
        obtain ⟨d', l', n', runs, rep', added, changed⟩ := ih restShort rep₁
          { n with changed := if (flags.nx || flags.xx || flags.gt || flags.lt || flags.ch) &&
              (z member).any fun old => !old.eq score then n.changed + 1 else n.changed }
        rw [old] at runs
        refine ⟨d', l', n', runs, ?_, ?_, ?_⟩
        · rw [applyAll, List.foldl_cons, applied]
          exact rep'
        · have notNew : adds flags z (member, score) = false := by simp [adds, old]
          rw [countBy, applied, added, notNew, if_neg Bool.false_ne_true, Nat.zero_add]
        · intro on
          have same : changes flags z (member, score) = (z member).any fun old => !old.eq score := by
            simp [changes, Bool.eq_false_iff.2 out]
          rw [countBy, applied, changed on, same]
          dsimp only
          rw [on, Bool.or_true, Bool.true_and]
          split <;> omega

/-! ## The command -/

variable {now : Nat} {db : ShardedDatabase} {c : ZaddCall}

/-- The key is missing, or holds a sorted set with these scores. -/
inductive SetOf (now : Nat) (db : ShardedDatabase) (key : Bytes) : Option ZMap → Prop
  | missing : db.valueAt now key = none → SetOf now db key none
  | zset {d : ZSetData} {l : List ZPair} : db.valueAt now key = some (.zset d) → d.Rep d.score l →
      SetOf now db key (some d.score)

/-- The key holds a sorted set that stands for this map. -/
def Holds (now : Nat) (db : ShardedDatabase) (key : Bytes) (z : ZMap) : Prop :=
  ∃ d l, db.valueAt now key = some (.zset d) ∧ d.Rep z l

def scoresOf (z : Option ZMap) : ZMap := z.getD fun _ => none

/-- The pairs that are to be applied: with INCR, the sum in place of the increment. -/
def targets (add : F64 → F64 → F64) (flags : ZaddFlags) (z : Option ZMap) (es : List (Bytes × F64)) :
    List (Bytes × F64) :=
  if flags.incr then es.map fun e => (e.1, add ((scoresOf z e.1).getD ⟨0⟩) e.2) else es

/-- With INCR the new score, or nil where the pair is excluded. -/
def incrReply (env : SortedRanges.Env) (flags : ZaddFlags) (z : ZMap) (es : List (Bytes × F64)) : Resp :=
  match es with
  | [] => .bulkString none
  | e :: _ => if excluded flags (z e.1) e.2 then .bulkString none else .bulkString (some (env.formatFloat e.2))

def reply (env : SortedRanges.Env) (flags : ZaddFlags) (z : ZMap) (es : List (Bytes × F64)) : Resp :=
  if flags.incr then incrReply env flags z es
  else .integer (.ofNat (countBy adds flags z es + if flags.ch then countBy changes flags z es else 0))

/-- The answer and the sorted set are those of the flags, and a key that XX does not find is not created. -/
structure ZaddRight (env : SortedRanges.Env) (now : Nat) (db : ShardedDatabase) (key : Bytes) (flags : ZaddFlags)
    (z : Option ZMap) (es : List (Bytes × F64)) (out : ShardedDatabase × Option (Result Resp)) : Prop where
  answer : out.2 = some (.ok (reply env flags (scoresOf z) es))
  leaves : if flags.xx ∧ z.isNone then out.1.valueAt now key = none
    else Holds now out.1 key (applyAll flags (scoresOf z) es)
  obeys : Obeys flags (scoresOf z) (applyAll flags (scoresOf z) es)
  others : ∀ x, x ≠ key → out.1.held now x = db.held now x

theorem getOrInsertWith_spec {α : Type} (now : Nat) (key : Bytes) (v : DataType) (edit : Entry → DataType × α)
    (s : Database) : ∃ e : Entry, e.value = ((s.getRo now key).map Entry.value).getD v ∧
      (s.getOrInsertWithEdit now key (.new v) edit).2 = (edit e).2 ∧
      ∀ x, (s.getOrInsertWithEdit now key (.new v) edit).1.getRo now x =
        if x = key then some { e with value := (edit e).1 } else s.getRo now x := by
  have acts := Database.acts_getOrInsertWithEdit now key (.new v) edit
  refine ⟨Database.handed (.new v) s.lruClock (s.getRo now key), ?_, acts.answer s, fun x => ?_⟩
  · cases s.getRo now key <;> rfl
  · refine (acts.getRo s x).trans ?_
    split
    · refine seen_of_live ?_
      cases found : s.getRo now key with
      | none => rfl
      | some e => exact (show e.isExpired now = false from Database.live_of_getRo found)
    · rfl

/-- ZADD edits the sorted set of the key, a new one where it is missing, or stops at XX. -/
inductive Ran (env : SortedRanges.Env) (add : F64 → F64 → F64) (thr : ZSetThresholds) (now : Nat) (c : ZaddCall)
    (s : Database) : Database × Option (Result Resp) → Prop
  | stopped {s' : Database} : c.flags.xx = true → s.getRo now c.key = none → (∀ x, s'.getRo now x = s.getRo now x) →
      Ran env add thr now c s (s', some (.ok (if c.flags.incr then .bulkString none else .integer 0)))
  | edited {s' : Database} {e : Entry} : ¬(c.flags.xx = true ∧ s.getRo now c.key = none) →
      e.value = ((s.getRo now c.key).map Entry.value).getD (.zset .new) →
      (∀ x, s'.getRo now x = if x = c.key then some { e with value := (zaddEdit env add thr c.flags c.rest e).1 }
        else s.getRo now x) →
      Ran env add thr now c s (s', (zaddEdit env add thr c.flags c.rest e).2.map fun r => r.map Prod.fst)

theorem zadd_ran (env : SortedRanges.Env) (add : F64 → F64 → F64) (thr : ZSetThresholds) (now : Nat) (c : ZaddCall)
    (s : Database) : Ran env add thr now c s (zadd env add thr now c s) := by
  have create (s₁ : Database) (value : (s₁.getRo now c.key).map Entry.value = (s.getRo now c.key).map Entry.value)
      (same : ∀ x, x ≠ c.key → s₁.getRo now x = s.getRo now x) (goes : ¬(c.flags.xx = true ∧ s.getRo now c.key = none)) :
      Ran env add thr now c s
        (match s₁.getOrInsertWithEdit now c.key (.new (.zset .new)) (zaddEdit env add thr c.flags c.rest) with
          | (s, some (.ok (reply, payload))) => (s.adjustLiveBytes payload, some (.ok reply))
          | (s, some (.error e)) => (s, some (.error e))
          | (s, none) => (s, none)) := by
    obtain ⟨e, isValue, answer, after⟩ := getOrInsertWith_spec now c.key (.zset .new)
      (zaddEdit env add thr c.flags c.rest) s₁
    rw [value] at isValue
    generalize s₁.getOrInsertWithEdit now c.key _ _ = r at answer after ⊢
    obtain ⟨s₂, r⟩ := r
    have seen (s₃ : Database) (entries : ∀ x, s₃.getRo now x = s₂.getRo now x) (x : Bytes) : s₃.getRo now x =
        if x = c.key then some { e with value := (zaddEdit env add thr c.flags c.rest e).1 } else s.getRo now x := by
      rw [entries, after]
      split
      · rfl
      · rename_i other
        exact same x other
    obtain rfl := answer
    have ran (s₃ : Database) (entries : ∀ x, s₃.getRo now x = s₂.getRo now x) :
        Ran env add thr now c s (s₃, (zaddEdit env add thr c.flags c.rest e).2.map fun r => r.map Prod.fst) :=
      .edited goes isValue (seen s₃ entries)
    generalize (zaddEdit env add thr c.flags c.rest e).2 = r at ran ⊢
    cases r with
    | none => exact ran s₂ fun _ => rfl
    | some r =>
      cases r with
      | error e => exact ran s₂ fun _ => rfl
      | ok r => exact ran (s₂.adjustLiveBytes r.2) fun _ => rfl
  unfold zadd
  dsimp only
  split
  · rename_i xx
    have get := Database.acts_get now c.key
    have answer := get.answer s
    have after := get.getRo s
    generalize s.get now c.key = r at answer after ⊢
    obtain ⟨s₁, r⟩ := r
    obtain rfl := answer
    cases found : s.getRo now c.key with
    | none =>
      rw [found] at after
      refine .stopped xx found fun x => (after x).trans ?_
      split
      · rename_i same
        rw [same, found]
        rfl
      · rfl
    | some e =>
      have here : s₁.getRo now c.key = some (Database.touched s.lruClock e) := by
        refine (after c.key).trans ?_
        rw [if_pos rfl, found]
        rfl
      refine create s₁ ?_ (fun x other => (after x).trans (if_neg other)) fun stops => ?_
      · rw [here, found]
        rfl
      · rw [found] at stops
        cases stops.2
  · rename_i xx
    exact create s rfl (fun _ _ => rfl) fun stops => xx stops.1

theorem numbers_of_rep (rep : d.Rep z l) : Numbers z := by
  intro m s here
  refine rep.nonNaN_of_key (m := m) ?_
  rw [ZSetData.keys, here, Option.map_some]

theorem zaddPlain_right (thr : ZSetThresholds) {zs : ZMap} (plain : flags.incr = false) (given : Pairs env rest es)
    (short : ∀ e ∈ es, e.1.length < 2 ^ 32) (rep : d.Rep zs l) :
    ∃ d' l' payload, zaddPlain env thr flags rest d = (d', some (.ok (reply env flags zs es, payload))) ∧
      d'.Rep (applyAll flags zs es) l' := by
  obtain ⟨d', l', n, runs, rep', added, changed⟩ := zaddLoop_spec thr flags given short rep ⟨0, 0, 0⟩
  refine ⟨d', l', n.payload, ?_, rep'⟩
  have counts : (if flags.ch then n.added + n.changed else n.added) =
      countBy adds flags zs es + if flags.ch then countBy changes flags zs es else 0 := by
    split
    · rename_i on
      rw [added, changed on]
      simp
    · simpa using added
  rw [zaddPlain, runs, reply, if_neg (by simp [plain]), ← counts]
  rfl

/-- The branch of INCR answers with the sum, and stores it if it is a number. -/
theorem zaddIncr_spec (add : F64 → F64 → F64) (thr : ZSetThresholds) {a b : Resp} {member : Bytes} {delta : F64}
    (isScore : scoreArg env (some a) = .ok delta)
    (isMember : bytesArg "zadd" (some b) = .ok member) (d : ZSetData) :
    let sum := add ((d.score member).getD ⟨0⟩) delta
    ((zaddIncr env add thr [a, b] d).2 = none ∨ ∃ payload,
      (zaddIncr env add thr [a, b] d).2 = some (.ok (.bulkString (some (env.formatFloat sum)), payload))) ∧
    (sum.isNaN = false → member.length < 2 ^ 32 → ∀ zs l, d.Rep zs l → ∃ d' l' payload,
      zaddIncr env add thr [a, b] d = (d', some (.ok (.bulkString (some (env.formatFloat sum)), payload))) ∧
        d'.Rep (Function.update zs member (some sum)) l') := by
  intro sum
  have runs : zaddIncr env add thr [a, b] d = match d.insert thr member sum with
      | none => (d, none)
      | some (z, isNew) =>
        (z, some (.ok (.bulkString (some (env.formatFloat sum)), if isNew then member.length else 0))) := by
    unfold zaddIncr
    have first : ([a, b] : List Resp)[0]? = some a := rfl
    have second : ([a, b] : List Resp)[1]? = some b := rfl
    rw [first, second, isScore]
    dsimp only
    rw [isMember]
  rw [runs]
  constructor
  · cases d.insert thr member sum with
    | none => exact .inl rfl
    | some r => exact .inr ⟨_, rfl⟩
  · intro number short zs l rep
    obtain ⟨d', l', inserts, rep'⟩ := rep.insert thr number short
    rw [inserts]
    exact ⟨d', l', _, rfl, rep'⟩

theorem not_holds_nan {key member : Bytes} {nan : F64} (isNaN : nan.isNaN = true) (zs : ZMap) :
    ¬Holds now db key (Function.update zs member (some nan)) := by
  rintro ⟨d, l, -, rep⟩
  have number : nan.isNaN = false := numbers_of_rep rep member nan (Function.update_self _ _ _)
  rw [isNaN] at number
  cases number

theorem right_iff_of_edited {key : Bytes} {zs : Option ZMap} {en : Entry} {out : ShardedDatabase × Option (Result Resp)}
    (isSet : en.value = .zset d) (rep : d.Rep (scoresOf zs) l) (score : ∀ m, d.score m = scoresOf zs m)
    (goes : ¬(flags.xx = true ∧ zs.isNone = true)) (given : Pairs env rest es) (short : ∀ e ∈ es, e.1.length < 2 ^ 32)
    (single : flags.incr = true → rest.length = 2)
    (answer : out.2 = (zaddEdit env add thr flags rest en).2.map fun r => r.map Prod.fst)
    (leaves : out.1.valueAt now key = some (zaddEdit env add thr flags rest en).1)
    (others : ∀ x, x ≠ key → out.1.held now x = db.held now x) :
    ZaddRight env now db key flags zs (targets add flags zs es) out ↔ (flags.incr = true →
      ∀ e ∈ targets add flags zs es, excluded flags (scoresOf zs e.1) e.2 = false ∧ e.2.isNaN = false) := by
  have numbers := numbers_of_rep rep
  cases incr : flags.incr with
  | false =>
    refine iff_of_true ?_ nofun
    obtain ⟨d', l', payload, runs, rep'⟩ := zaddPlain_right thr incr given short rep
    have edits : zaddEdit env add thr flags rest en =
        (.zset d', some (.ok (reply env flags (scoresOf zs) es, payload))) := by
      unfold zaddEdit
      rw [isSet]
      dsimp only
      rw [if_neg (by simp [incr]), runs]
    rw [edits] at answer leaves
    have same : targets add flags zs es = es := if_neg (by simp [incr])
    rw [same]
    refine ⟨answer, ?_, applyAll_obeys numbers given.numbers, others⟩
    rw [if_neg goes]
    exact ⟨d', l', leaves, rep'⟩
  | true =>
    cases given with
    | nil => exact absurd (single incr) (by decide)
    | @cons a b rest member delta es isScore isMember given =>
      obtain rfl : rest = [] := List.length_eq_zero_iff.1 (by have := single incr; simpa using this)
      cases given
      have edits : zaddEdit env add thr flags [a, b] en =
          (.zset (zaddIncr env add thr [a, b] d).1, (zaddIncr env add thr [a, b] d).2) := by
        unfold zaddEdit
        rw [isSet]
        dsimp only
        rw [if_pos incr]
      have target : targets add flags zs [(member, delta)] =
          [(member, add ((d.score member).getD ⟨0⟩) delta)] := by
        rw [targets, if_pos incr, score]
        rfl
      obtain ⟨answers, stores⟩ := zaddIncr_spec add thr isScore isMember d
      rw [edits] at answer leaves
      rw [target]
      generalize add ((d.score member).getD ⟨0⟩) delta = sum at answers stores ⊢
      have applied : applyAll flags (scoresOf zs) [(member, sum)] = applyPair flags (scoresOf zs) (member, sum) := rfl
      by_cases fine : excluded flags (scoresOf zs member) sum = false ∧ sum.isNaN = false
      · refine iff_of_true ?_ fun _ => List.forall_mem_singleton.2 fine
        obtain ⟨d', l', payload, runs, rep'⟩ := stores fine.2 (short _ (.head _)) _ _ rep
        rw [runs] at answer leaves
        refine ⟨?_, ?_, applyAll_obeys numbers (List.forall_mem_singleton.2 fine.2), others⟩
        · rw [answer, reply, if_pos incr, incrReply, if_neg (by simp [fine.1])]
          rfl
        · rw [if_neg goes, applied, applyPair, if_neg (by simp [fine.1])]
          exact ⟨d', l', leaves, rep'⟩
      · refine iff_of_false (fun right => ?_) fun all => fine (all rfl _ (.head _))
        by_cases out' : excluded flags (scoresOf zs member) sum = true
        · have nil := right.answer
          rw [reply, if_pos incr, incrReply, if_pos out', answer] at nil
          obtain none | ⟨payload, bulk⟩ := answers
          · rw [none] at nil
            cases nil
          · rw [bulk] at nil
            cases nil
        · have isNaN : sum.isNaN = true := by simpa [out'] using fine
          have holds := right.leaves
          rw [if_neg goes, applied, applyPair, if_neg out'] at holds
          exact not_holds_nan isNaN _ holds

theorem cmdZadd_ran {args : List Resp} (call : zaddCall env args = .ok c) :
    ∃ s', Ran env add thr now c (db.shardFor c.key) (s', (cmdZadd env add thr now args db).2) ∧
      ∀ k, (∀ x, s'.getRo now x = if x = c.key then k else (db.shardFor c.key).getRo now x) →
        ∀ x, (cmdZadd env add thr now args db).1.getRo now x = if x = c.key then k else db.getRo now x := by
  unfold cmdZadd
  rw [call]
  exact ⟨_, zadd_ran env add thr now c (db.shardFor c.key), fun k after => ShardedDatabase.getRo_writeFor after⟩

theorem zaddCall_single {args : List Resp} (call : zaddCall env args = .ok c) (incr : c.flags.incr = true) :
    c.rest.length = 2 := by
  unfold zaddCall at call
  obtain ⟨key, -, call⟩ := exists_of_bind_ok (of_guard call)
  obtain ⟨⟨flags, rest⟩, -, call⟩ := exists_of_bind_ok call
  have call := of_guard (of_guard call)
  split at call
  · split at call
    · cases call
    · rename_i two
      cases call
      exact Decidable.not_not.1 two
  · rename_i plain
    obtain rfl := eq_of_guard call
    exact absurd incr plain

/-- **ZADD is what its flags mean, unless INCR comes with a flag that excludes the pair, or the sum is no number.**
Without INCR each pair is taken or left as the flags say, in the order of the arguments. With INCR the handler adds
without the tests that this loop makes. -/
theorem zadd_iff (env : SortedRanges.Env) (add : F64 → F64 → F64) (thr : ZSetThresholds) (now : Nat) (args : List Resp)
    (db : ShardedDatabase) (c : ZaddCall) (zs : Option ZMap) (es : List (Bytes × F64)) (call : zaddCall env args = .ok c)
    (held : SetOf now db c.key zs) (given : Pairs env c.rest es) (short : ∀ e ∈ es, e.1.length < 2 ^ 32) :
    ZaddRight env now db c.key c.flags zs (targets add c.flags zs es) (cmdZadd env add thr now args db) ↔
      (c.flags.incr = true → c.flags.xx = true ∧ zs.isNone = true ∨ ∀ e ∈ targets add c.flags zs es,
        excluded c.flags (scoresOf zs e.1) e.2 = false ∧ e.2.isNaN = false) := by
  obtain ⟨s', ran, stored⟩ := @cmdZadd_ran env add thr now db c args call
  generalize cmdZadd env add thr now args db = out at ran stored ⊢
  have others {k : Option Entry} (after : ∀ x, s'.getRo now x = if x = c.key then k else (db.shardFor c.key).getRo now x)
      (x : Bytes) (other : x ≠ c.key) : out.1.held now x = db.held now x := by
    rw [ShardedDatabase.held, stored k after, if_neg other]
    rfl
  have valueAt {k : Option Entry} (after : ∀ x, s'.getRo now x = if x = c.key then k else (db.shardFor c.key).getRo now x) :
      out.1.valueAt now c.key = k.map Entry.value := by
    rw [ShardedDatabase.valueAt, stored k after, if_pos rfl]
  have here : db.valueAt now c.key = ((db.shardFor c.key).getRo now c.key).map Entry.value := rfl
  generalize answer : out.2 = r at ran
  cases ran with
  | stopped xx gone same =>
    have after (x : Bytes) : s'.getRo now x = if x = c.key then none else (db.shardFor c.key).getRo now x := by
      rw [same]
      split
      · rename_i eq
        rw [eq, gone]
      · rfl
    cases held with
    | zset found _ =>
      rw [here, gone] at found
      cases found
    | missing _ =>
      refine iff_of_true ?_ fun _ => .inl ⟨xx, rfl⟩
      obtain ⟨applied, added, changed⟩ : applyAll c.flags (scoresOf none) (targets add c.flags none es) = scoresOf none ∧
          countBy adds c.flags (scoresOf none) (targets add c.flags none es) = 0 ∧
          countBy changes c.flags (scoresOf none) (targets add c.flags none es) = 0 := applyAll_xx xx _
      have numbers : Numbers (scoresOf none) := fun _ _ is => by cases is
      refine ⟨?_, ?_, ?_, others after⟩
      · have nil : incrReply env c.flags (scoresOf none) (targets add c.flags none es) = .bulkString none := by
          unfold incrReply
          split
          · rfl
          · exact if_pos xx
        rw [answer, reply]
        split
        · rw [nil]
        · rw [added, changed, ite_self]
          rfl
      · rw [if_pos ⟨xx, rfl⟩]
        exact valueAt after
      · rw [applied]
        exact .refl numbers
  | edited goes isValue after =>
    cases held with
    | missing gone =>
      have absent : (db.shardFor c.key).getRo now c.key = none := Option.map_eq_none_iff.1 gone
      have runs : ¬(c.flags.xx = true ∧ (none : Option ZMap).isNone = true) := fun stops => goes ⟨stops.1, absent⟩
      rw [absent, Option.map_none, Option.getD_none] at isValue
      have score (m : Bytes) : ZSetData.new.score m = scoresOf none m := by
        have key := ZSetData.new_rep.score_key m
        exact Option.map_eq_none_iff.1 key
      have rep : ZSetData.new.Rep (scoresOf none) [] := ZSetData.new_rep
      exact (right_iff_of_edited isValue rep score runs given short (zaddCall_single call) answer
        (valueAt after) (others after)).trans (imp_congr_right fun _ => (or_iff_right runs).symm)
    | @zset d l found rep =>
      have runs : ¬(c.flags.xx = true ∧ (some d.score).isNone = true) := by simp
      rw [here] at found
      rw [found, Option.getD_some] at isValue
      have rep : d.Rep (scoresOf (some d.score)) l := rep
      exact (right_iff_of_edited isValue rep (fun _ => rfl) runs given short (zaddCall_single call) answer
        (valueAt after) (others after)).trans (imp_congr_right fun _ => (or_iff_right runs).symm)

open ListIndex (words)

def one : F64 := ⟨0x3FF0000000000000⟩

def two : F64 := ⟨0x4000000000000000⟩

/-- As much of the environment as the numbers one and two need. -/
def units : SortedRanges.Env :=
  ⟨fun s => if s = "1" then some one else if s = "2" then some two else none, id,
    fun score => if score = one then [49] else [50]⟩

/-- Zero and a number. -/
def addZero (a b : F64) : F64 := if a = ⟨0⟩ then b else a

def gtCh : ZaddFlags := { gt := true, ch := true }

def xxIncr : ZaddFlags := { xx := true, incr := true }

theorem one_number : one.isNaN = false := by decide

theorem rep_scores (rep : d.Rep z l) : d.Rep d.score l := by
  have same : ZSetData.keys d.score = ZSetData.keys z := funext fun m => rep.score_key m
  exact ⟨rep.holds, same ▸ rep.ordered, rep.nonNaN⟩

/-- The member a with the score one. -/
def oneMember : ZSetData := ((ZSetData.new.insert .default [97] one).map Prod.fst).getD .new

theorem oneMember_rep : ∃ l, oneMember.Rep (Function.update (fun _ => none) [97] (some one)) l := by
  obtain ⟨d, l, inserts, rep⟩ := ZSetData.new_rep.insert .default one_number (by decide : ([97] : Bytes).length < 2 ^ 32)
  rw [oneMember, inserts]
  exact ⟨l, rep⟩

/-- The member that is there with a higher score, another one, and the first one lower again. -/
def higherAgain : List (Bytes × F64) := [([97], two), ([98], one), ([97], one)]

/-- ZADD with GT and CH raises one score and adds one member. -/
theorem zadd_gt_ch :
    ZaddRight units 0 (.holding [107] (.zset oneMember)) [107] gtCh (some oneMember.score) higherAgain
        (cmdZadd units addZero .default 0 (words ["ZADD", "k", "GT", "CH", "2", "a", "1", "b", "1", "a"])
          (.holding [107] (.zset oneMember))) ∧
      countBy adds gtCh oneMember.score higherAgain = 1 ∧ countBy changes gtCh oneMember.score higherAgain = 1 := by
  have call : zaddCall units (words ["ZADD", "k", "GT", "CH", "2", "a", "1", "b", "1", "a"]) =
      .ok ⟨[107], gtCh, words ["2", "a", "1", "b", "1", "a"]⟩ := by
    rfl
  have given : Pairs units (words ["2", "a", "1", "b", "1", "a"]) higherAgain :=
    .cons (by decide +kernel) (by decide +kernel) (.cons (by decide +kernel) (by decide +kernel)
      (.cons (by decide +kernel) (by decide +kernel) .nil))
  obtain ⟨l, rep⟩ := oneMember_rep
  have held : SetOf 0 (.holding [107] (.zset oneMember)) [107] (some oneMember.score) :=
    .zset (ShardedDatabase.valueAt_holding 0 [107] _) (rep_scores rep)
  refine ⟨?_, by decide +kernel, by decide +kernel⟩
  exact (zadd_iff units addZero .default 0 _ _ ⟨[107], gtCh, words ["2", "a", "1", "b", "1", "a"]⟩ _ higherAgain call
    held given (by decide)).2 nofun

/-- XX excludes a member that is not there, but INCR adds it. -/
theorem incr_ignores_xx :
    SetOf 0 (.holding [107] (.zset oneMember)) [107] (some oneMember.score) ∧
    reply units xxIncr oneMember.score (targets addZero xxIncr (some oneMember.score) [([98], one)]) = .bulkString none ∧
    (cmdZadd units addZero .default 0 (words ["ZADD", "k", "XX", "INCR", "1", "b"])
      (.holding [107] (.zset oneMember))).2 = some (.ok (.bulkString (some [49]))) := by
  obtain ⟨l, rep⟩ := oneMember_rep
  have absent : oneMember.score [98] = none := by
    have key := rep.score_key [98]
    exact Option.map_eq_none_iff.1 key
  have valueAt := ShardedDatabase.valueAt_holding 0 [107] (.zset oneMember)
  refine ⟨.zset valueAt (rep_scores rep), ?_, ?_⟩
  · have out (score : F64) : excluded xxIncr (oneMember.score [98]) score = true := by
      rw [absent]
      rfl
    have incr : xxIncr.incr = true := rfl
    have target : targets addZero xxIncr (some oneMember.score) [([98], one)] =
        [([98], addZero ((oneMember.score [98]).getD ⟨0⟩) one)] := rfl
    rw [reply, if_pos incr, target, incrReply, if_pos (out _)]
  · have call : zaddCall units (words ["ZADD", "k", "XX", "INCR", "1", "b"]) = .ok ⟨[107], xxIncr, words ["1", "b"]⟩ := by
      rfl
    obtain ⟨s', ran, -⟩ := @cmdZadd_ran units addZero .default 0 (.holding [107] (.zset oneMember)) _ _ call
    have here : ((ShardedDatabase.holding [107] (.zset oneMember)).shardFor [107]).getRo 0 [107] =
        some (.new (.zset oneMember)) := ShardedDatabase.getRo_holding 0 [107] (.zset oneMember)
    generalize (cmdZadd units addZero .default 0 _ _).2 = answer at ran ⊢
    cases ran with
    | stopped _ gone _ =>
      rw [here] at gone
      cases gone
    | @edited _ e _ isValue _ =>
      rw [here] at isValue
      obtain ⟨-, stores⟩ := @zaddIncr_spec units addZero .default (.bulkString (some [49])) (.bulkString (some [98])) [98] one
        (by decide +kernel) (by decide +kernel) oneMember
      have sum : addZero ((oneMember.score [98]).getD ⟨0⟩) one = one := by rw [absent]; rfl
      obtain ⟨d', l', payload, runs, -⟩ := stores (by rw [sum]; exact one_number) (by decide) _ _ rep
      have edits : zaddEdit units addZero .default xxIncr (words ["1", "b"]) e =
          (.zset d', some (.ok (.bulkString (some [49]), payload))) := by
        have isSet : e.value = .zset oneMember := isValue
        have args : words ["1", "b"] = [.bulkString (some [49]), .bulkString (some [98])] := rfl
        have incr : xxIncr.incr = true := rfl
        unfold zaddEdit
        rw [isSet]
        dsimp only
        rw [if_pos incr, args, runs, sum]
        rfl
      show (zaddEdit units addZero .default xxIncr (words ["1", "b"]) e).2.map _ = _
      rw [edits]
      rfl

end

end NexradeCache.Zadd
