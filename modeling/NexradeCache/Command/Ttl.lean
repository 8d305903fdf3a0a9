import Mathlib.Algebra.Order.Floor.Div
import Mathlib.Order.WithBot
import NexradeCache.Command.Restore
import NexradeCache.Server.Transaction
import NexradeCache.Store.Twins

/-!
# Deadlines, and what TTL says of them (`nexrade-core/src/expiry.rs`, `command/string.rs`, `command/generic.rs`)

The commands that give a key a deadline, each on the shard of its key, and TTL and PTTL. A deadline is an
exact number of milliseconds, here a natural number; `remaining_ms` cuts what is left of it down to 64 bits,
and the reply takes these as signed. `ttl_faithful_iff` says for which deadlines that is right.

The clock is read when a deadline is computed, when the key is looked up and when a deadline is checked;
`to_uppercase` and the parser of floats are the arguments `toUppercase` and `parseF64`.
-/

namespace NexradeCache

namespace Expiry

/-- `Expiry::from_duration`, for so many milliseconds. -/
def fromDuration (now ttl : Nat) : Nat := now + ttl

/-- `from_ms`. -/
def fromMs (ms : Nat) : Nat := ms

/-- `from_secs`. -/
def fromSecs (secs : Nat) : Nat := secs * 1000

/-- `Expiry::remaining_ms`: a `u64`. -/
def remainingMs (now expiresAtMs : Nat) : Nat := if expiresAtMs ≤ now then 0 else (expiresAtMs - now) % 2 ^ 64

/-- `remaining_secs`, rounded up. -/
def remainingSecs (now expiresAtMs : Nat) : Nat := remainingMs now expiresAtMs ⌈/⌉ 1000

end Expiry

namespace Ttl

open Restore (Clock)

/-! ## TTL and PTTL -/

/-- `get_ttl`; the clock is read for the lookup and for what remains. -/
def getTtl (millis : Bool) (cmd : String) (lookup now : Nat) (args : List Resp) (s : Database) : Result Resp := do
  if args.length ≠ 2 then throw (.wrongArity cmd)
  let key ← bytesArg cmd.toLower args[1]?
  match s.getRo lookup key with
  | none => return .integer (-2)
  | some e => match e.expiry with
    | none => return .integer (-1)
    | some exp =>
      if millis then return .integer (.ofNat (Expiry.remainingMs now exp))
      else return .integer (.ofNat (Expiry.remainingSecs now exp))

/-- `cmd_ttl`. -/
def cmdTtl : Nat → Nat → List Resp → Database → Result Resp := getTtl false "TTL"

/-- `cmd_pttl`. -/
def cmdPttl : Nat → Nat → List Resp → Database → Result Resp := getTtl true "PTTL"

/-! ## EXPIRE, PEXPIRE, EXPIREAT and PEXPIREAT -/

/-- NX, XX, GT and LT. -/
structure ExpireFlags where
  nx : Bool := false
  xx : Bool := false
  gt : Bool := false
  lt : Bool := false

section

variable (toUppercase : String → String)

/-- They are read one by one; more than one is an error. -/
def expireFlags (cmd : String) : (rest : List Resp) → ExpireFlags → Result ExpireFlags
  | [], flags =>
    if 1 < flags.nx.toNat + flags.xx.toNat + flags.gt.toNat + flags.lt.toNat then throw .syntaxError else return flags
  | a :: rest, flags => do
    let opt := toUppercase (← strArg cmd.toLower (some a))
    if opt = "NX" then expireFlags cmd rest { flags with nx := true }
    else if opt = "XX" then expireFlags cmd rest { flags with xx := true }
    else if opt = "GT" then expireFlags cmd rest { flags with gt := true }
    else if opt = "LT" then expireFlags cmd rest { flags with lt := true }
    else throw .syntaxError

/-- The conditions, one after the other; no deadline is the latest. -/
def ExpireFlags.holds (flags : ExpireFlags) (current : Option Nat) (target : Int) : Bool :=
  !(flags.nx && current.isSome) && !(flags.xx && current.isNone) &&
    !(flags.gt && current.all fun cur => target ≤ cur) && !(flags.lt && current.any fun cur => cur ≤ target)

/-- What a call asks for; the deadline is kept signed. -/
structure ExpireCall where
  key : Bytes
  target : Int
  flags : ExpireFlags

/-- EXPIRE and its like, read off the arguments. -/
def expireCall (millis absolute : Bool) (cmd : String) (now : Nat) (args : List Resp) : Result ExpireCall := do
  if args.length < 3 then throw (.wrongArity cmd)
  let key ← bytesArg cmd.toLower args[1]?
  let val ← i64Arg cmd.toLower args[2]?
  let unit : Int := if millis then 1 else 1000
  let target := if absolute then val.toInt * unit else now + val.toInt * unit
  let flags ← expireFlags toUppercase cmd (args.drop 3) {}
  return ⟨key, target, flags⟩

/-- `set_expire`, with a clock for the deadline and one for the lookup. -/
def setExpire (millis absolute : Bool) (cmd : String) (clock : Clock) (args : List Resp) (s : Database) :
    Database × Result Resp :=
  match expireCall toUppercase millis absolute cmd clock.deadline args with
  | .error e => (s, .error e)
  | .ok call =>
    match s.get clock.lookup call.key with
    | (s, none) => (s, .ok (.integer 0))
    | (s, some e) =>
      if !call.flags.holds e.expiry call.target then (s, .ok (.integer 0))
      -- a deadline that has passed deletes the key
      else if call.target ≤ clock.check then ((s.remove call.key).1, .ok (.integer 1))
      else (s.setExpiry call.key (some (Expiry.fromMs (min call.target (2 ^ 64 - 1)).toNat)), .ok (.integer 1))

/-- `cmd_expire`. -/
def cmdExpire : Clock → List Resp → Database → Database × Result Resp := setExpire toUppercase false false "EXPIRE"

/-- `cmd_pexpire`. -/
def cmdPexpire : Clock → List Resp → Database → Database × Result Resp := setExpire toUppercase true false "PEXPIRE"

/-- `cmd_expireat`. -/
def cmdExpireat : Clock → List Resp → Database → Database × Result Resp := setExpire toUppercase false true "EXPIREAT"

/-- `cmd_pexpireat`. -/
def cmdPexpireat : Clock → List Resp → Database → Database × Result Resp := setExpire toUppercase true true "PEXPIREAT"

/-! ## SET, SETEX, PSETEX and GETEX -/

/-- The error for a deadline that is not positive. -/
def invalidExpire (cmd : String) : NexradeError := .generic ("invalid expire time in " ++ cmd)

/-- A number of seconds or milliseconds from now, which must be positive. -/
def relativeArg (cmd : String) (unit now : Nat) (a : Option Resp) : Result Nat := do
  let n ← i64Arg cmd.toLower a
  if n ≤ 0 then throw (invalidExpire cmd)
  return Expiry.fromDuration now (n.toInt.toNat * unit)

/-- A unix time in seconds or milliseconds, which must not be negative. -/
def absoluteArg (cmd : String) (deadline : Nat → Nat) (a : Option Resp) : Result Nat := do
  let n ← i64Arg cmd.toLower a
  if n < 0 then throw (invalidExpire cmd)
  return deadline n.toInt.toNat

/-- The options of SET. -/
structure SetOptions where
  expiry : Option Nat := none
  nx : Bool := false
  xx : Bool := false
  get : Bool := false
  keepttl : Bool := false
  ifeq : Option Bytes := none
  ifgt : Option Bytes := none
  iflt : Option Bytes := none

/-- They are read one by one. -/
def setOptions (now : Nat) : (rest : List Resp) → SetOptions → Result SetOptions
  | [], o => return o
  | a :: rest, o => do
    let opt := toUppercase (← strArg "set" (some a))
    if opt = "NX" then setOptions now rest { o with nx := true }
    else if opt = "XX" then setOptions now rest { o with xx := true }
    else if opt = "GET" then setOptions now rest { o with get := true }
    else if opt = "KEEPTTL" then setOptions now rest { o with keepttl := true }
    else if opt ∉ ["EX", "PX", "EXAT", "PXAT", "IFEQ", "IFGT", "IFLT"] then throw .syntaxError
    else match rest with
      | [] => throw (.wrongArity "set")
      | b :: rest =>
        if opt = "EX" then setOptions now rest { o with expiry := ← relativeArg "SET" 1000 now (some b) }
        else if opt = "PX" then setOptions now rest { o with expiry := ← relativeArg "SET" 1 now (some b) }
        else if opt = "EXAT" then setOptions now rest { o with expiry := ← absoluteArg "SET" Expiry.fromSecs (some b) }
        else if opt = "PXAT" then setOptions now rest { o with expiry := ← absoluteArg "SET" Expiry.fromMs (some b) }
        else if opt = "IFEQ" then setOptions now rest { o with ifeq := ← bytesArg "set" (some b) }
        else if opt = "IFGT" then setOptions now rest { o with ifgt := ← bytesArg "set" (some b) }
        else setOptions now rest { o with iflt := ← bytesArg "set" (some b) }

/-- A call of SET that has been read. -/
structure SetCall where
  key : Bytes
  value : Bytes
  options : SetOptions

/-- SET, read off its arguments. -/
def setCall (now : Nat) (args : List Resp) : Result SetCall := do
  if args.length < 3 then throw (.wrongArity "set")
  let some key := args[1]?.bind Resp.asBytes | throw (.wrongArity "set")
  let some value := args[2]?.bind Resp.asBytes | throw (.wrongArity "set")
  let o ← setOptions toUppercase now (args.drop 3) {}
  let conds := o.ifeq.isSome.toNat + o.ifgt.isSome.toNat + o.iflt.isSome.toNat
  if 1 < conds then throw .syntaxError
  if conds = 1 ∧ (o.nx ∨ o.xx) then throw .syntaxError
  return ⟨key, value, o⟩

/-- Without flags. -/
def SetOptions.plain (o : SetOptions) : Bool :=
  !o.nx && !o.xx && !o.get && !o.keepttl && o.expiry.isNone && o.ifeq.isNone && o.ifgt.isNone && o.iflt.isNone

/-- The reply of the GET option, if it is given. -/
def oldValue (now : Nat) (s : Database) (key : Bytes) (get : Bool) : Database × Result (Option Resp) :=
  if get then
    match s.get now key with
    | (s, some e) => match e.value.asStringBytes with
      | some v => (s, .ok (some (.bulkString (some v))))
      | none => (s, .error .wrongType)
    | (s, none) => (s, .ok (some (.bulkString none)))
  else (s, .ok none)

/-- Whether NX and XX let the key be set. -/
def existencePasses (now : Nat) (s : Database) (key : Bytes) (o : SetOptions) : Database × Bool :=
  if o.nx || o.xx then
    let (s, e) := s.get now key
    (s, !(o.nx && e.isSome) && !(o.xx && e.isNone))
  else (s, true)

section

variable (parseF64 : String → Option F64)

/-- Two numbers, or else two strings. -/
def compareWith (numbers : F64 → F64 → Bool) (strings : Bytes → Bytes → Bool) (a b : Bytes) : Bool :=
  match (Utf8.fromUtf8 a).bind parseF64, (Utf8.fromUtf8 b).bind parseF64 with
  | some an, some bn => numbers an bn
  | _, _ => strings a b

/-- Whether the new value is greater, as numbers. -/
def compareGt : Bytes → Bytes → Bool :=
  compareWith parseF64 (fun a b => !a.isNaN && !b.isNaN && b.key < a.key) fun a b => b < a

/-- Whether the new value is less, as numbers. -/
def compareLt : Bytes → Bytes → Bool :=
  compareWith parseF64 (fun a b => !a.isNaN && !b.isNaN && a.key < b.key) fun a b => a < b

/-- Whether IFEQ, IFGT and IFLT let the key be set. -/
def comparisonPasses (now : Nat) (s : Database) (key : Bytes) (o : SetOptions) : Database × Result Bool :=
  if o.ifeq.isSome || o.ifgt.isSome || o.iflt.isSome then
    match s.get now key with
    | (s, some e) => match e.value.asStringBytes with
      | none => (s, .error .wrongType)
      | some cur => (s, .ok (match o.ifeq, o.ifgt, o.iflt with
        | some target, _, _ => cur == target
        | none, some target, _ => compareGt parseF64 cur target
        | none, none, some target => compareLt parseF64 cur target
        | none, none, none => false))
    | (s, none) => (s, .ok false)
  else (s, .ok true)

/-- `cmd_set`. -/
def cmdSet (clock : Clock) (args : List Resp) (s : Database) : Database × Result Resp :=
  match setCall toUppercase clock.deadline args with
  | .error e => (s, .error e)
  | .ok ⟨key, value, o⟩ =>
    if o.plain then (s.setPlain clock.lookup key value, .ok (.simpleString "OK"))
    else match oldValue clock.lookup s key o.get with
      | (s, .error e) => (s, .error e)
      | (s, .ok old) => match existencePasses clock.lookup s key o with
        | (s, false) => (s, .ok (old.getD (.bulkString none)))
        | (s, true) => match comparisonPasses parseF64 clock.lookup s key o with
          | (s, .error e) => (s, .error e)
          | (s, .ok false) => (s, .ok (old.getD (.bulkString none)))
          | (s, .ok true) =>
            let (s, expiry) := if o.keepttl then
                let (s, e) := s.get clock.lookup key
                (s, e.bind Entry.expiry)
              else (s, o.expiry)
            (s.insert key ⟨.string value, expiry, 0⟩, .ok (old.getD (.simpleString "OK")))

end

/-- SETEX and PSETEX. -/
def setexCall (cmd : String) (unit now : Nat) (args : List Resp) : Result (Bytes × Bytes × Nat) := do
  if args.length ≠ 4 then throw (.wrongArity cmd.toLower)
  let key ← bytesArg cmd.toLower args[1]?
  let n ← i64Arg cmd.toLower args[2]?
  let val ← bytesArg cmd.toLower args[3]?
  if n ≤ 0 then throw (invalidExpire cmd)
  return (key, val, Expiry.fromDuration now (n.toInt.toNat * unit))

/-- SETEX and PSETEX, which differ in the unit. -/
def setexWith (cmd : String) (unit : Nat) (clock : Clock) (args : List Resp) (s : Database) : Database × Result Resp :=
  match setexCall cmd unit clock.deadline args with
  | .error e => (s, .error e)
  | .ok (key, val, expiry) => (s.insert key ⟨.string val, some expiry, 0⟩, .ok (.simpleString "OK"))

/-- `cmd_setex`. -/
def cmdSetex : Clock → List Resp → Database → Database × Result Resp := setexWith "SETEX" 1000

/-- `cmd_psetex`. -/
def cmdPsetex : Clock → List Resp → Database → Database × Result Resp := setexWith "PSETEX" 1

/-- The deadline of GETEX, none where PERSIST takes it away. -/
def getexExpiry (now : Nat) (args : List Resp) : Result (Option Nat) := do
  let opt := toUppercase (← strArg "getex" args[2]?)
  if opt = "PERSIST" then
    if args.length ≠ 3 then throw .syntaxError else return none
  else if opt ∉ ["EX", "PX", "EXAT", "PXAT"] then throw .syntaxError
  else if args.length ≠ 4 then throw .syntaxError
  else if opt = "EX" then return some (← relativeArg "GETEX" 1000 now args[3]?)
  else if opt = "PX" then return some (← relativeArg "GETEX" 1 now args[3]?)
  else if opt = "EXAT" then return some (← absoluteArg "GETEX" Expiry.fromSecs args[3]?)
  else return some (← absoluteArg "GETEX" Expiry.fromMs args[3]?)

/-- `cmd_getex`. -/
def cmdGetex (clock : Clock) (args : List Resp) (s : Database) : Database × Result Resp :=
  if args.length < 2 then (s, .error (.wrongArity "getex"))
  else match bytesArg "getex" args[1]? with
    | .error e => (s, .error e)
    | .ok key => match s.get clock.lookup key with
      | (s, none) => (s, .ok (.bulkString none))
      | (s, some e) => match e.value.asStringBytes with
        | none => (s, .error .wrongType)
        | some old =>
          if args.length ≤ 2 then (s, .ok (.bulkString (some old)))
          else match getexExpiry toUppercase clock.deadline args with
            | .error e => (s, .error e)
            | .ok expiry => (s.setExpiry key expiry, .ok (.bulkString (some old)))

end

/-! ## The commands that give a deadline -/

/-- The commands that write a deadline. -/
inductive Writer where
  | set
  | setex
  | psetex
  | getex
  | expire
  | pexpire
  | expireat
  | pexpireat
  | restore

/-- The code outside: the parser of floats, `to_uppercase`, and the decoder of payloads. -/
structure Env where
  parseF64 : String → Option F64
  toUppercase : String → String
  decode : Bytes → Except String Restore.WireEntry

/-- Each by its handler. -/
def Writer.run (env : Env) : Writer → Clock → List Resp → Database → Database × Result Resp
  | set => cmdSet env.toUppercase env.parseF64
  | setex => cmdSetex
  | psetex => cmdPsetex
  | getex => cmdGetex env.toUppercase
  | expire => cmdExpire env.toUppercase
  | pexpire => cmdPexpire env.toUppercase
  | expireat => cmdExpireat env.toUppercase
  | pexpireat => cmdPexpireat env.toUppercase
  | restore => Restore.cmdRestore env.decode env.toUppercase

/-! ## What TTL and PTTL answer -/

variable {lookup now deadline : Nat} {args : List Resp} {s : Database} {key : Bytes} {e : Entry}

/-- PTTL answers what is left of the deadline, at most the largest `i64`, and TTL the ceiling of it in seconds;
what is left of a deadline that has passed is 0. -/
structure Faithful (lookup now deadline : Nat) (args : List Resp) (s : Database) : Prop where
  pttl : ∃ n, cmdPttl lookup now args s = .ok (.integer n) ∧ n.toInt = (min (deadline - now) (2 ^ 63 - 1) : Nat)
  ttl : ∃ n, cmdTtl lookup now args s = .ok (.integer n) ∧
    n.toInt = (min ((deadline - now) ⌈/⌉ 1000) (2 ^ 63 - 1) : Nat)

theorem getTtl_of_deadline (millis : Bool) (cmd : String) (two : args.length = 2)
    (asks : args[1]?.bind Resp.toBytesVec = some key) (found : s.getRo lookup key = some e)
    (expires : e.expiry = some deadline) : getTtl millis cmd lookup now args s =
      .ok (.integer (.ofNat (if millis then Expiry.remainingMs now deadline else Expiry.remainingSecs now deadline))) := by
  unfold getTtl bytesArg
  rw [two, asks]
  simp only [ne_eq, not_true_eq_false, if_false]
  show (match s.getRo lookup key with | none => _ | some e => _) = _
  rw [found]
  dsimp only
  rw [expires]
  cases millis <;> rfl

theorem toInt_ofNat_small {n : Nat} (small : n < 2 ^ 63) : (Int64.ofNat n).toInt = n :=
  Int64.toInt_ofNat_of_lt small

theorem toInt_ofNat_large {n : Nat} (low : 2 ^ 63 ≤ n) (high : n < 2 ^ 64) : (Int64.ofNat n).toInt = n - 2 ^ 64 := by
  have size : Int64.size = 2 ^ 64 := rfl
  rw [Int64.toInt_ofNat', size, Int.bmod_def]
  omega

theorem ceilDiv_thousand (n : Nat) : n ⌈/⌉ 1000 = (n + 999) / 1000 := by
  rw [Nat.ceilDiv_eq_add_pred_div, Nat.add_sub_assoc (by decide)]

/-- **The replies are right exactly for a deadline at most the largest `i64` away.** -/
theorem faithful_iff (two : args.length = 2) (asks : args[1]?.bind Resp.toBytesVec = some key)
    (found : s.getRo lookup key = some e) (expires : e.expiry = some deadline) :
    Faithful lookup now deadline args s ↔ deadline ≤ now + (2 ^ 63 - 1) := by
  have millis : cmdPttl lookup now args s = .ok (.integer (.ofNat (Expiry.remainingMs now deadline))) :=
    getTtl_of_deadline true "PTTL" two asks found expires
  have secs : cmdTtl lookup now args s = .ok (.integer (.ofNat (Expiry.remainingSecs now deadline))) :=
    getTtl_of_deadline false "TTL" two asks found expires
  constructor
  · intro faithful
    by_contra far
    obtain ⟨n, isN, left⟩ := faithful.pttl
    obtain ⟨m, isM, ceiling⟩ := faithful.ttl
    obtain rfl : Int64.ofNat (Expiry.remainingMs now deadline) = n := Resp.integer.inj (Except.ok.inj (millis.symm.trans isN))
    obtain rfl : Int64.ofNat (Expiry.remainingSecs now deadline) = m := Resp.integer.inj (Except.ok.inj (secs.symm.trans isM))
    have rest : Expiry.remainingMs now deadline = (deadline - now) % 2 ^ 64 := if_neg (by omega)
    by_cases wide : deadline - now < 2 ^ 64
    -- the sign bit of the reply is set
    · rw [rest, Nat.mod_eq_of_lt wide, toInt_ofNat_large (by omega) wide] at left
      omega
    -- whole multiples of 2 ^ 64 are lost
    · rw [Expiry.remainingSecs, rest, ceilDiv_thousand, ceilDiv_thousand, toInt_ofNat_small (by omega)] at ceiling
      omega
  · intro near
    have rest : Expiry.remainingMs now deadline = deadline - now := by
      unfold Expiry.remainingMs
      split
      · omega
      · exact Nat.mod_eq_of_lt (by omega)
    refine ⟨⟨_, millis, ?_⟩, ⟨_, secs, ?_⟩⟩
    · rw [rest, toInt_ofNat_small (by omega)]
      omega
    · rw [Expiry.remainingSecs, rest, ceilDiv_thousand, toInt_ofNat_small (by omega)]
      omega

/-! ## What EXPIRE does -/

/-- The deadline of a key; one that is missing is infinite. -/
def infinite : Option Nat → WithTop Int
  | none => ⊤
  | some n => (n : Int)

/-- What the flags ask of the deadline there is and the new one. -/
structure ExpireFlags.Holds (flags : ExpireFlags) (current : WithTop Int) (target : Int) : Prop where
  nx : flags.nx = true → current = ⊤
  xx : flags.xx = true → current ≠ ⊤
  gt : flags.gt = true → current < target
  lt : flags.lt = true → (target : WithTop Int) < current

/-- The code's comparison is the one on deadlines, with no deadline as infinity. -/
theorem ExpireFlags.holds_iff (flags : ExpireFlags) (current : Option Nat) (target : Int) :
    flags.holds current target = true ↔ flags.Holds (infinite current) target := by
  obtain ⟨nx, xx, gt, lt⟩ := flags
  cases current with
  | none =>
    constructor
    · intro h
      refine ⟨fun _ => rfl, ?_, ?_, fun _ => WithTop.coe_lt_top _⟩
      · rintro rfl
        simp [holds] at h
      · rintro rfl
        simp [holds] at h
    · rintro ⟨-, isXx, isGt, -⟩
      cases xx with
      | true => exact (isXx rfl rfl).elim
      | false =>
        cases gt with
        | true => exact (not_top_lt (isGt rfl)).elim
        | false => simp [holds]
  | some cur =>
    have lower : infinite (some cur) < (target : WithTop Int) ↔ (cur : Int) < target := WithTop.coe_lt_coe
    have upper : (target : WithTop Int) < infinite (some cur) ↔ target < (cur : Int) := WithTop.coe_lt_coe
    constructor
    · intro h
      refine ⟨?_, fun _ => WithTop.coe_ne_top, fun is => lower.2 ?_, fun is => upper.2 ?_⟩
      · rintro rfl
        simp [holds] at h
      · subst is
        simp [holds] at h
        exact h.1.2
      · subst is
        simp [holds] at h
        exact h.2
    · rintro ⟨isNx, -, isGt, isLt⟩
      cases nx with
      | true => exact (WithTop.coe_ne_top (isNx rfl)).elim
      | false =>
        have above : gt = true → (cur : Int) < target := fun is => lower.1 (isGt is)
        have below : lt = true → target < (cur : Int) := fun is => upper.1 (isLt is)
        cases gt <;> cases lt <;> simp_all [holds]

/-- EXPIRE on a live entry: where the condition holds the deadline is the new one, or the key is gone if that
has passed; where it does not, the value and the deadline stay. Other keys stay. -/
structure Expires (clock : Clock) (call : ExpireCall) (e : Entry) (s : Database) (out : Database × Result Resp) :
    Prop where
  sets : call.flags.Holds (infinite e.expiry) call.target → out.2 = .ok (.integer 1) ∧
    out.1.entries.lookup call.key = if call.target ≤ clock.check then none
      else some ⟨e.value, some (min call.target (2 ^ 64 - 1)).toNat, s.lruClock⟩
  keeps : ¬call.flags.Holds (infinite e.expiry) call.target → out.2 = .ok (.integer 0) ∧
    out.1.entries.lookup call.key = some ⟨e.value, e.expiry, s.lruClock⟩
  others : ∀ x, x ≠ call.key → out.1.entries.lookup x = s.entries.lookup x

theorem get_of_live (found : s.getRo lookup key = some e) : s.get lookup key =
    ({ s with entries := s.entries.insert key { e with lruClock := s.lruClock } },
      some { e with lruClock := s.lruClock }) := by
  rw [Database.getRo_eq] at found
  obtain ⟨there, live⟩ := Option.filter_eq_some_iff.1 found
  have expired : e.isExpired lookup = false := by simpa using live
  have stored : s.entries.lookup key = some e := there
  simp [Database.get, stored, expired]

theorem getRo_insert_self (s : Database) (key : Bytes) (live : e.isExpired now = false) :
    (s.insert key e).getRo now key = some e := by
  have after := (Database.acts_insert now key e).getRo s key
  rw [if_pos rfl, seen_of_live live] at after
  exact after

theorem lookup_remove_self (s : Database) (key : Bytes) : (s.remove key).1.entries.lookup key = none := by
  have after := ((Database.moves_remove key).here s).entry
  refine after.trans ?_
  cases there : (s.view key).entry <;> simp [View.removed, there]

theorem lookup_remove_other (s : Database) {x : Bytes} (ne : x ≠ key) :
    (s.remove key).1.entries.lookup x = s.entries.lookup x :=
  ((Database.moves_remove key).other s ne).entry

theorem lookup_setExpiry_self (found : s.entries.lookup key = some e) (expiry : Option Nat) :
    (s.setExpiry key expiry).entries.lookup key = some { e with expiry } := by
  simp [Database.setExpiry, found]

theorem lookup_setExpiry_other (s : Database) (expiry : Option Nat) {x : Bytes} (ne : x ≠ key) :
    (s.setExpiry key expiry).entries.lookup x = s.entries.lookup x :=
  ((Database.moves_setExpiry key expiry).other s ne).entry

/-- What the handler does and answers, case by case. -/
theorem setExpire_spec (toUppercase : String → String) (millis absolute : Bool) (cmd : String) {clock : Clock}
    {call : ExpireCall} (parsed : expireCall toUppercase millis absolute cmd clock.deadline args = .ok call)
    (found : s.getRo clock.lookup call.key = some e) :
    Expires clock call e s (setExpire toUppercase millis absolute cmd clock args s) := by
  unfold setExpire
  rw [parsed]
  dsimp only
  rw [get_of_live found]
  dsimp only
  have other {x : Bytes} (ne : x ≠ call.key) (e' : Entry) :
      (s.entries.insert call.key e').lookup x = s.entries.lookup x := AList.lookup_insert_ne ne
  by_cases holds : call.flags.Holds (infinite e.expiry) call.target
  · rw [(call.flags.holds_iff e.expiry call.target).2 holds]
    simp only [Bool.not_true, Bool.false_eq_true, if_false]
    split
    · rename_i past
      refine ⟨fun _ => ⟨rfl, ?_⟩, fun fails => (fails holds).elim, fun x ne => ?_⟩
      · rw [if_pos past]
        exact lookup_remove_self _ _
      · exact (lookup_remove_other _ ne).trans (other ne _)
    · rename_i future
      refine ⟨fun _ => ⟨rfl, ?_⟩, fun fails => (fails holds).elim, fun x ne => ?_⟩
      · rw [if_neg future]
        have touched : ({ s with entries := s.entries.insert call.key { e with lruClock := s.lruClock } } : Database).entries.lookup
            call.key = some { e with lruClock := s.lruClock } := AList.lookup_insert _
        exact lookup_setExpiry_self touched _
      · exact (lookup_setExpiry_other _ _ ne).trans (other ne _)
  · have fails : call.flags.holds e.expiry call.target = false :=
      Bool.eq_false_iff.2 fun is => holds ((call.flags.holds_iff _ _).1 is)
    rw [fails]
    exact ⟨fun is => (holds is).elim, fun _ => ⟨rfl, AList.lookup_insert _⟩, fun x ne => other ne _⟩

/-! ## TTL and PTTL, against the deadline -/

/-- **TTL and PTTL are right exactly for deadlines at most the largest `i64` away**, whichever command gave them;
and EXPIRE sets a deadline exactly where its condition holds. The time that is left is truncated to 64 bits and then
cast to a signed number. -/
theorem ttl_faithful_iff (env : Env) :
    (∀ (w : Writer) (clock : Clock) (given : List Resp) (s : Database) (args : List Resp) (key : Bytes) (e : Entry)
      (lookup now deadline : Nat), args.length = 2 → args[1]?.bind Resp.toBytesVec = some key →
        (w.run env clock given s).1.getRo lookup key = some e → e.expiry = some deadline →
          (Faithful lookup now deadline args (w.run env clock given s).1 ↔ deadline ≤ now + (2 ^ 63 - 1))) ∧
    ∀ (millis absolute : Bool) (cmd : String) (clock : Clock) (args : List Resp) (call : ExpireCall) (s : Database)
      (e : Entry), expireCall env.toUppercase millis absolute cmd clock.deadline args = .ok call →
        s.getRo clock.lookup call.key = some e →
          Expires clock call e s (setExpire env.toUppercase millis absolute cmd clock args s) :=
  ⟨fun _ _ _ _ _ _ _ _ _ _ two asks found expires => faithful_iff two asks found expires,
    fun millis absolute cmd _ _ _ _ _ parsed found => setExpire_spec env.toUppercase millis absolute cmd parsed found⟩

/-- The code outside, on calls that use none of it. -/
def plainEnv : Env := ⟨fun _ => none, id, fun _ => .error ""⟩

/-- A word of a request. -/
def word (s : String) : Resp := .bulkString (some (Utf8.asBytes s))

/-- SETEX k secs v, on a shard without keys. -/
def setexed (secs : String) : Database :=
  (Writer.setex.run plainEnv ⟨0, 0, 0⟩ [word "SETEX", word "k", word secs, word "v"] .new).1

/-- What SETEX stores. -/
def setexedEntry (deadline : Nat) : Entry := ⟨.string (Utf8.asBytes "v"), some deadline, 0⟩

theorem setexed_eq {secs : String} {n : Int64} (digits : Decimal.parseI64 secs = some n) (positive : ¬n ≤ 0) :
    setexed secs = Database.new.insert (Utf8.asBytes "k") (setexedEntry (0 + n.toInt.toNat * 1000)) := by
  have parsed (cmd : String) : i64Arg cmd (some (word secs)) = .ok n := by
    simp only [i64Arg, strArg, word, Resp.asStr, Option.bind_some, Utf8.fromUtf8_asBytes, i64OfStr, digits, bind,
      Except.bind]
  have call : setexCall "SETEX" 1000 0 [word "SETEX", word "k", word secs, word "v"] =
      .ok (Utf8.asBytes "k", Utf8.asBytes "v", 0 + n.toInt.toNat * 1000) := by
    show (do
      let n ← i64Arg "SETEX".toLower (some (word secs))
      if n ≤ 0 then throw (invalidExpire "SETEX")
      return (Utf8.asBytes "k", Utf8.asBytes "v", Expiry.fromDuration 0 (n.toInt.toNat * 1000))) = _
    rw [parsed]
    show (if n ≤ 0 then _ else _) = _
    rw [if_neg positive]
    rfl
  show (setexWith "SETEX" 1000 ⟨0, 0, 0⟩ _ Database.new).1 = _
  rw [setexWith, call]
  rfl

/-- TTL of this key. -/
def askTtl : List Resp := [word "TTL", word "k"]

/-- Ten seconds, a second later; and EXPIRE k 5 GT, which leaves them. -/
theorem ttl_faithful_ten :
    Faithful 1000 1000 10000 askTtl (setexed "10") ∧
      Expires ⟨0, 0, 0⟩ ⟨Utf8.asBytes "k", 5000, { gt := true }⟩ (setexedEntry 10000) (setexed "10")
        (setExpire id false false "EXPIRE" ⟨0, 0, 0⟩ [word "EXPIRE", word "k", word "5", word "GT"] (setexed "10")) := by
  have claim := ttl_faithful_iff plainEnv
  have ten : setexed "10" = Database.new.insert (Utf8.asBytes "k") (setexedEntry 10000) :=
    @setexed_eq "10" 10 (by decide +kernel) (by decide)
  have found (now : Nat) (live : now < 10000) :
      (setexed "10").getRo now (Utf8.asBytes "k") = some (setexedEntry 10000) := by
    rw [ten]
    exact getRo_insert_self _ _ (by simp [setexedEntry, Entry.isExpired]; omega)
  have parsed : expireCall id false false "EXPIRE" 0 [word "EXPIRE", word "k", word "5", word "GT"] =
      .ok ⟨Utf8.asBytes "k", 5000, { gt := true }⟩ := by
    have five : i64Arg "EXPIRE".toLower (some (word "5")) = .ok 5 := by decide +kernel
    have gt : strArg "EXPIRE".toLower (some (word "GT")) = .ok "GT" := by decide +kernel
    show (do
      let val ← i64Arg "EXPIRE".toLower (some (word "5"))
      let flags ← expireFlags id "EXPIRE" [word "GT"] {}
      return (⟨Utf8.asBytes "k", (0 : Nat) + val.toInt * 1000, flags⟩ : ExpireCall)) = _
    rw [five, expireFlags, gt]
    simp [bind, Except.bind, expireFlags, pure, Except.pure]
  exact ⟨(claim.1 .setex ⟨0, 0, 0⟩ _ .new askTtl (Utf8.asBytes "k") (setexedEntry 10000) 1000 1000 10000
    rfl rfl (found 1000 (by decide)) rfl).2 (by decide),
    claim.2 false false "EXPIRE" ⟨0, 0, 0⟩ _ _ _ _ parsed (found 0 (by decide))⟩

/-- SETEX k 9223372036854776 v: at once PTTL answers a negative number. -/
theorem pttl_negative :
    (setexed "9223372036854776").getRo 0 (Utf8.asBytes "k") = some (setexedEntry 9223372036854776000) ∧
      cmdPttl 0 0 askTtl (setexed "9223372036854776") = .ok (.integer (-9223372036854775616)) ∧
      ¬Faithful 0 0 9223372036854776000 askTtl (setexed "9223372036854776") := by
  have found : (setexed "9223372036854776").getRo 0 (Utf8.asBytes "k") = some (setexedEntry 9223372036854776000) := by
    rw [@setexed_eq _ 9223372036854776 (by decide +kernel) (by decide)]
    exact getRo_insert_self _ _ (by decide)
  refine ⟨found, ?_, fun faithful => ?_⟩
  · rw [cmdPttl, getTtl_of_deadline true "PTTL" rfl rfl found rfl]
    have wraps : Int64.ofNat (Expiry.remainingMs 0 9223372036854776000) = -9223372036854775616 := by decide +kernel
    exact congrArg (Except.ok ∘ Resp.integer) wraps
  · exact absurd ((faithful_iff rfl rfl found rfl).1 faithful) (by decide)

end Ttl

end NexradeCache
