import NexradeCache.Command.Readers
import NexradeCache.Data.StreamId

/-!
# XADD, XSETID, XTRIM and XDEL (`nexrade-core/src/command/stream.rs`)

Each handler works on one key. Its model takes the value of that key, `none` where there is no live one,
and returns the value and the reply it leaves. The clock `now_ms` is the argument `now`; the `u64`
additions of a release build wrap.
-/

namespace NexradeCache

open Utf8

/-! ## Errors -/

/-- The errors of these handlers (`NexradeError`). -/
inductive NexradeError where
  | wrongType
  | noKey
  | notInteger
  | syntaxError
  | wrongArity (cmd : String)
  | generic (msg : String)
  | prefixed (msg : String)
deriving DecidableEq

abbrev Result (A : Type) := Except NexradeError A

/-- What a chain of fallible steps that succeeded is made of. -/
theorem exists_of_bind_ok {A B : Type} {r : Result A} {f : A → Result B} {b : B} (h : r >>= f = .ok b) :
    ∃ a, r = .ok a ∧ f a = .ok b := by
  cases r with
  | error e => cases h
  | ok a => exact ⟨a, rfl, h⟩

theorem of_guard {α : Type} {p : Prop} {decide : Decidable p} {e : NexradeError} {rest : Unit → Result α} {a : α}
    (h : (if p then throw e >>= rest else rest ()) = .ok a) : rest () = .ok a := by
  by_cases fails : p
  · rw [if_pos fails] at h
    cases h
  · rwa [if_neg fails] at h

theorem eq_of_guard {α : Type} {p : Prop} {decide : Decidable p} {e : NexradeError} {v a : α}
    (h : (if p then (throw e : Result Unit) >>= fun _ => pure v else pure v) = .ok a) : v = a :=
  Except.ok.inj (@of_guard α p decide e (fun _ => pure v) a h)

/-! ## Arguments -/

def strArg (cmd : String) (a : Option Resp) : Result String :=
  match a.bind Resp.asStr with
  | some s => .ok s
  | none => .error (.wrongArity cmd)

def bytesArg (cmd : String) (a : Option Resp) : Result Bytes :=
  match a.bind Resp.toBytesVec with
  | some b => .ok b
  | none => .error (.wrongArity cmd)

def i64OfStr (s : String) : Result Int64 :=
  match Decimal.parseI64 s with
  | some n => .ok n
  | none => .error .notInteger

def i64Arg (cmd : String) (a : Option Resp) : Result Int64 := do i64OfStr (← strArg cmd a)

def invalidStreamId : NexradeError := .generic "Invalid stream ID specified as stream command argument"

def noSuchKey : NexradeError := .generic "no such key"

def negativeMaxlen : NexradeError := .generic "The MAXLEN argument must be >= 0."

/-- `StreamId::parse`, or the error of a malformed id. -/
def idOfStr (s : String) : Result StreamId :=
  match StreamId.parse s with
  | some id => .ok id
  | none => .error invalidStreamId

/-- `~` or `=`. -/
def isTrimHint (a : Resp) : Bool := a.asStr = some "~" || a.asStr = some "="

def skipTrimHint : List Resp → List Resp
  | [] => []
  | a :: rest => if isTrimHint a then rest else a :: rest

/-! ## The stream of a key -/

namespace StreamData

def new : StreamData := ⟨[], ∅, "", 0⟩

/-- Effective last-generated id: explicit `last_id` if set, else last entry. -/
def lastGeneratedId (s : StreamData) : String :=
  if s.lastId ≠ "" then s.lastId
  else match s.entries.getLast? with
    | some e => e.id
    | none => "0-0"

/-- Append an entry, as XADD does under the write lock. -/
def push (s : StreamData) (e : StreamEntry) : StreamData :=
  { s with
    entries := s.entries ++ [e]
    lastId := e.id
    entriesAdded := min (s.entriesAdded + 1) (2 ^ 64 - 1) }

/-- Keep the last `max` entries. -/
def trimMaxlen (s : StreamData) (max : Nat) : StreamData :=
  { s with entries := s.entries.drop (s.entries.length - max) }

/-- Drop the entries in front that are older than `min`. -/
def trimMinid (s : StreamData) (min : StreamId) : StreamData :=
  { s with entries := s.entries.dropWhile fun e => (StreamId.parse e.id).any (· < min) }

def trim (s : StreamData) (maxlen : Option Nat) (minid : Option StreamId) : StreamData :=
  let s := match maxlen with
    | some max => s.trimMaxlen max
    | none => s
  match minid with
  | some min => s.trimMinid min
  | none => s

end StreamData

/-- Largest parsed id in the stream for XADD validation. -/
def lastParsedId (s : StreamData) : Option StreamId :=
  let fromField := StreamId.parse s.lastGeneratedId
  let fromEntries := (s.entries.filterMap fun e => StreamId.parse e.id).max?
  match fromField, fromEntries with
  | some a, some b => some (max a b)
  | some a, none => some a
  | none, some b => some b
  | none, none => none

/-- The stream of the key, a new one where the key is missing. -/
def getStreamMut : Option DataType → Result StreamData
  | none => .ok .new
  | some (.stream s) => .ok s
  | some _ => .error .wrongType

/-! ## XADD -/

/-- What may stand in front of the id. -/
structure XaddOptions where
  nomkstream : Bool
  maxlen : Option Nat
  minid : Option StreamId
deriving DecidableEq

def XaddOptions.none : XaddOptions := ⟨false, .none, .none⟩

/-- The value of MAXLEN. -/
def XaddOptions.withMaxlen (o : XaddOptions) (a : Resp) : Result XaddOptions := do
  let n ← i64Arg "xadd" a
  if n < 0 then throw negativeMaxlen
  return { o with maxlen := some n.toInt.toNat }

/-- The value of MINID. -/
def XaddOptions.withMinid (o : XaddOptions) (a : Resp) : Result XaddOptions := do
  let id ← idOfStr (← strArg "xadd" a)
  return { o with minid := some id }

/-- An XADD that was read. -/
structure XaddCall extends XaddOptions where
  idStr : String
  fields : List (Bytes × Bytes)
deriving DecidableEq

section

variable (toUppercase : String → String)

/-- The trimming modifiers between the key and the entry id, and what is behind them. -/
def xaddOptions (o : XaddOptions) : List Resp → Result (XaddOptions × List Resp)
  | [] => throw (.wrongArity "xadd")
  | tok :: rest => match tok.asStr.map toUppercase with
    | none => throw (.wrongArity "xadd")
    | some "NOMKSTREAM" => xaddOptions { o with nomkstream := true } rest
    | some "MAXLEN" => match rest with
      | [] => throw (.wrongArity "xadd")
      | a :: rest => match isTrimHint a, rest with
        | false, rest => do xaddOptions (← o.withMaxlen a) rest
        | true, [] => throw (.wrongArity "xadd")
        | true, n :: rest => do xaddOptions (← o.withMaxlen n) rest
    | some "MINID" => match rest with
      | [] => throw (.wrongArity "xadd")
      | a :: rest => match isTrimHint a, rest with
        | false, rest => do xaddOptions (← o.withMinid a) rest
        | true, [] => throw (.wrongArity "xadd")
        | true, id :: rest => do xaddOptions (← o.withMinid id) rest
    | some _ => return (o, tok :: rest)

/-- The field names and values. -/
def xaddFields : List Resp → Result (List (Bytes × Bytes))
  | [] => return []
  | [_] => throw .syntaxError
  | k :: v :: rest => do
    let name ← bytesArg "xadd" k
    let value ← bytesArg "xadd" v
    return (name, value) :: (← xaddFields rest)

def parseXadd (args : List Resp) : Result XaddCall := do
  if args.length < 5 then throw (.wrongArity "xadd")
  let _key ← bytesArg "xadd" args[1]?
  let (options, rest) ← xaddOptions toUppercase .none (args.drop 2)
  let idStr ← strArg "xadd" rest.head?
  let fields ← xaddFields rest.tail
  if fields.isEmpty then throw (.wrongArity "xadd")
  return { options with idStr, fields }

end

/-- The sequence number of a new entry of millisecond `ms`: zero, or one more than the last entry of that
millisecond has. -/
def nextSeq (last : Option StreamId) (ms : UInt64) : UInt64 :=
  match last with
  | some l => if l.ms = ms then l.seq + 1 else 0
  | none => 0

def u64OfStr (s : String) : Result UInt64 :=
  match parseU64 s with
  | some n => .ok n
  | none => .error invalidStreamId

def notAboveTop : NexradeError :=
  .generic "The ID specified in XADD is equal or smaller than the target stream top item"

def notAboveZero : NexradeError := .generic "The ID specified in XADD must be greater than 0-0"

/-- The milliseconds of `*-seq`. -/
def autoMs (now : UInt64) (last : Option StreamId) : UInt64 :=
  match last with
  | some l => if now ≤ l.ms then l.ms else now
  | none => now

/-- The id of an explicit spec: `ms-seq`, `ms-*`, `*-seq` or a bare `ms`. -/
def specifiedId (now : UInt64) (spec : String) (last : Option StreamId) : Result StreamId :=
  match splitOnce '-' spec with
  | some (msPart, seqPart) => do
    let ms ← (if msPart = "*" then .ok (autoMs now last) else u64OfStr msPart)
    let seq ← (if seqPart = "*" then .ok (nextSeq last ms) else u64OfStr seqPart)
    return ⟨ms, seq⟩
  | none => do
    let ms ← u64OfStr spec
    return ⟨ms, 0⟩

/-- Resolve an explicit id spec and compare it with the last id. -/
def resolveXaddId (now : UInt64) (spec : String) (last : Option StreamId) : Result StreamId := do
  let id ← specifiedId now spec last
  match last with
  | some prev => if id ≤ prev then throw notAboveTop else return id
  | none => if id = ⟨0, 0⟩ then throw notAboveZero else return id

namespace XaddCall

/-- What XADD reads of the key before it computes the id. -/
def readLast (cell : Option DataType) : Option StreamId :=
  match cell with
  | some (.stream s) => lastParsedId s
  | _ => none

def resolve (c : XaddCall) (now : UInt64) (last : Option StreamId) : Result StreamId :=
  if c.idStr = "*" then .ok ⟨now, nextSeq last now⟩ else resolveXaddId now c.idStr last

/-- Append the entry and trim, under the write lock. -/
def append (c : XaddCall) (id : StreamId) (cell : Option DataType) : Option DataType × Result Resp :=
  match getStreamMut cell with
  | .error e => (cell, .error e)
  | .ok s =>
    let stream := (s.push ⟨id.toWire, c.fields⟩).trim c.maxlen c.minid
    (some (.stream stream), .ok (.bulkString (some (asBytes id.toWire))))

/-- NOMKSTREAM must not create the stream. -/
def skips (c : XaddCall) (cell : Option DataType) : Bool := c.nomkstream && cell.isNone

def run (c : XaddCall) (now : UInt64) (cell : Option DataType) : Option DataType × Result Resp :=
  let last := readLast cell
  if c.skips cell then (cell, .ok (.bulkString none))
  else match c.resolve now last with
    | .error e => (cell, .error e)
    | .ok id => c.append id cell

end XaddCall

def cmdXadd (toUppercase : String → String) (now : UInt64) (args : List Resp) (cell : Option DataType) :
    Option DataType × Result Resp :=
  match parseXadd toUppercase args with
  | .error e => (cell, .error e)
  | .ok c => c.run now cell

/-! ## XSETID -/

section

variable (toUppercase : String → String)

/-- The options of XSETID. -/
def xsetidOptions (entriesAdded : Option Nat) : List Resp → Result (Option Nat)
  | [] => return entriesAdded
  | opt :: rest => do
    let opt ← strArg "xsetid" opt
    match toUppercase opt, rest with
    | "ENTRIESADDED", [] => throw (.wrongArity "xsetid")
    | "ENTRIESADDED", n :: rest =>
      let n ← i64Arg "xsetid" n
      if n < 0 then throw (.generic "ENTRIESADDED must be a non-negative integer")
      xsetidOptions (some n.toInt.toNat) rest
    | "MAXDELETEDID", [] => throw (.wrongArity "xsetid")
    | "MAXDELETEDID", id :: rest =>
      let _ ← strArg "xsetid" id
      xsetidOptions entriesAdded rest
    | _, _ => throw .syntaxError

def parseXsetid (args : List Resp) : Result (StreamId × Option Nat) := do
  if args.length < 3 then throw (.wrongArity "xsetid")
  let _key ← bytesArg "xsetid" args[1]?
  let newId ← idOfStr (← strArg "xsetid" args[2]?)
  let entriesAdded ← xsetidOptions toUppercase none (args.drop 3)
  return (newId, entriesAdded)

def belowTop : NexradeError := .generic "The ID specified in XSETID is smaller than the current top entry"

def StreamData.setId (s : StreamData) (newId : StreamId) (entriesAdded : Option Nat) : StreamData :=
  { s with lastId := newId.toWire, entriesAdded := entriesAdded.getD s.entriesAdded }

def cmdXsetid (args : List Resp) (cell : Option DataType) : Option DataType × Result Resp :=
  match parseXsetid toUppercase args with
  | .error e => (cell, .error e)
  | .ok (newId, entriesAdded) => match cell with
    | none => (cell, .error noSuchKey)
    | some (.stream s) =>
      if (lastParsedId s).any (newId < ·) then (cell, .error belowTop)
      else (some (.stream (s.setId newId entriesAdded)), .ok (.simpleString "OK"))
    | some _ => (cell, .error .wrongType)

/-! ## XTRIM and XDEL -/

/-- The threshold of XTRIM: MAXLEN or MINID. -/
def parseXtrim (args : List Resp) : Result (Option Nat × Option StreamId) := do
  if args.length < 4 then throw (.wrongArity "xtrim")
  let _key ← bytesArg "xtrim" args[1]?
  let strategy := toUppercase (← strArg "xtrim" args[2]?)
  let token ← strArg "xtrim" (skipTrimHint (args.drop 3)).head?
  if strategy = "MAXLEN" then
    let n ← i64OfStr token
    if n < 0 then throw negativeMaxlen
    return (some n.toInt.toNat, none)
  else if strategy = "MINID" then
    let id ← idOfStr token
    return (none, some id)
  else throw .syntaxError

def cmdXtrim (args : List Resp) (cell : Option DataType) : Option DataType × Result Resp :=
  match parseXtrim toUppercase args with
  | .error e => (cell, .error e)
  | .ok (maxlen, minid) => match cell with
    | none => (cell, .ok (.integer 0))
    | some (.stream s) =>
      let trimmed := s.trim maxlen minid
      (some (.stream trimmed), .ok (.integer (.ofNat (s.entries.length - trimmed.entries.length))))
    | some _ => (cell, .error .wrongType)

end

/-- Delete the entries with this id. -/
def StreamData.deleteId (s : StreamData) (id : String) : StreamData :=
  { s with entries := s.entries.filter (·.id ≠ id) }

def StreamData.deleteIds (s : StreamData) (ids : List String) : StreamData := ids.foldl deleteId s

/-- An id that is no text is passed over. -/
def cmdXdel (args : List Resp) (cell : Option DataType) : Option DataType × Result Resp :=
  if args.length < 3 then (cell, .error (.wrongArity "xdel"))
  else match bytesArg "xdel" args[1]? with
    | .error e => (cell, .error e)
    | .ok _key => match cell with
      | none => (cell, .ok (.integer 0))
      | some (.stream s) =>
        let left := s.deleteIds ((args.drop 2).filterMap Resp.asStr)
        (some (.stream left), .ok (.integer (.ofNat (s.entries.length - left.entries.length))))
      | some _ => (cell, .error .wrongType)

end NexradeCache
