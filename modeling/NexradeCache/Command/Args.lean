import NexradeCache.Resp.Resp2

/-!
# The arguments of a command (`get_str`, `get_bytes_vec` and `get_i64` of
`nexrade-core/src/command/mod.rs`)
-/

namespace NexradeCache

open Utf8

/-- `Resp::as_str`: the text of a bulk or simple string. -/
def Resp.asStr : Resp → Option String
  | .bulkString (some b) => fromUtf8 b
  | .simpleString s => some s
  | _ => none

/-- `Resp::as_bytes`: the bytes of a bulk string. -/
def Resp.asBytes : Resp → Option Bytes
  | .bulkString (some b) => some b
  | _ => none

/-- The argument as `get_bytes_vec` takes it. -/
def Resp.toBytesVec : Resp → Option Bytes
  | .bulkString (some b) => some b
  | .simpleString s => some (Utf8.asBytes s)
  | _ => none

/-- `get_bytes_vec`, whose error is the handler's. -/
def getBytesVec (args : List Resp) (idx : Nat) : Option Bytes := args[idx]?.bind Resp.toBytesVec

/-- `get_str`, whose error is the handler's. -/
def getStr (args : List Resp) (idx : Nat) : Option String := args[idx]?.bind Resp.asStr

/-- `get_i64`: a text that is a 64-bit integer. -/
def getI64 (args : List Resp) (idx : Nat) : Option Int64 := (getStr args idx).bind Decimal.parseI64

/-- `NexradeError::WrongArity`, as clients see it. -/
def wrongArity (name : String) : Resp :=
  .error ("ERR wrong number of arguments for '" ++ name ++ "' command")

/-- How many arguments a command takes, its name included. -/
inductive Arity where
  | exactly (n : Nat)
  | atLeast (n : Nat)

/-- Whether a request of that many words passes. The name of the command counts. -/
def Arity.accepts (len : Nat) : Arity → Bool
  | .exactly n => len = n
  | .atLeast n => n ≤ len

end NexradeCache
