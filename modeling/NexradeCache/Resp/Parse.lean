import NexradeCache.Lib.Stream
import NexradeCache.Resp.Value

/-!
# The RESP parser

`parse_resp` of `resp.rs` and the functions it dispatches to, RESP2, RESP3 and inline commands,
with their error texts. The text-to-double conversion is a parameter. A recursive call is made on
the rest of the buffer behind a header, so each function takes the parser for nested values as an
argument; `parseFor k` ties the knot for values nested less than `k` deep, `parseResp` for all of
them, and `parseResp_eq` is the recursion the source writes.
-/

namespace NexradeCache

open Utf8 Decimal Stream

/-- More bytes are needed, or the input is malformed. -/
abbrev ParseError := Stop String

/-- A result of the parser. -/
abbrev ParseResult := Except ParseError

/-- `MAX_BULK_LEN`, in bytes. -/
def MAX_BULK_LEN : Nat := 512 * 1024 * 1024

/-- `MAX_ARRAY_LEN`, in elements. -/
def MAX_ARRAY_LEN : Nat := 1024000

/-- The position of the first CRLF. -/
def findCrlf : Bytes → Option Nat
  | 13 :: 10 :: _ => some 0
  | _ :: rest => (findCrlf rest).map (· + 1)
  | [] => none

/-- The text between the type byte and the first CRLF. -/
def parseLine (buf : Bytes) : ParseResult (Bytes × Nat) :=
  match findCrlf buf with
  | some pos => .ok ((buf.take pos).drop 1, pos + 2)
  | none => .error .incomplete

/-- An error with a message for what cannot be read. -/
def orInvalid {α : Type} (msg : String) : Option α → Except ParseError α
  | some a => .ok a
  | none => .error (.invalid msg)

/-- A line that holds one text `parse` understands. -/
def parseField {α : Type} (encoding : String) (text : String → String) (parse : String → Option α)
    (buf : Bytes) : ParseResult (α × Nat) := do
  let (line, consumed) ← parseLine buf
  let s ← orInvalid encoding (fromUtf8 line)
  let n ← orInvalid (text s) (parse s)
  return (n, consumed)

/-- `+` and a line. -/
def parseSimpleString (buf : Bytes) : ParseResult (Resp × Nat) := do
  let (line, consumed) ← parseLine buf
  return (.simpleString (fromUtf8Lossy line), consumed)

/-- `-` and a line. -/
def parseError (buf : Bytes) : ParseResult (Resp × Nat) := do
  let (line, consumed) ← parseLine buf
  return (.error (fromUtf8Lossy line), consumed)

/-- `:` and a number. -/
def parseInteger (buf : Bytes) : ParseResult (Resp × Nat) := do
  let (n, consumed) ← parseField "invalid integer encoding" (fun s => s!"invalid integer: {s}") parseI64 buf
  return (.integer n, consumed)

/-- `$`, a length and as many bytes; -1 is the null. -/
def parseBulkString (buf : Bytes) : ParseResult (Resp × Nat) := do
  let (len, headerLen) ←
    parseField "invalid bulk string length" (fun s => s!"invalid bulk length: {s}") parseI64 buf
  if len = -1 then return (.bulkString none, headerLen)
  else if len < 0 then throw (.invalid s!"invalid bulk length: {len}")
  else
    let len := len.toInt.toNat
    if len > MAX_BULK_LEN then throw (.invalid s!"invalid bulk length: {len}")
    else
      let total := headerLen + len + 2
      if buf.length < total then throw .incomplete
      else if (buf.drop (headerLen + len)).take 2 ≠ crlf then
        throw (.invalid "missing CRLF after bulk string")
      else return (.bulkString (some ((buf.drop headerLen).take len)), total)

/-- `_` and nothing else. -/
def parseResp3Null (buf : Bytes) : ParseResult (Resp × Nat) :=
  if buf.length < 3 then .error .incomplete
  else if (buf.drop 1).take 2 ≠ crlf then .error (.invalid "invalid RESP3 null")
  else .ok (.null, 3)

/-- `t` or `f`. -/
def boolByte : UInt8 → Option Bool
  | 116 => some true
  | 102 => some false
  | _ => none

/-- `#` and one byte. -/
def parseResp3Bool (buf : Bytes) : ParseResult (Resp × Nat) :=
  if buf.length < 4 then .error .incomplete
  else do
    let val ← orInvalid "invalid RESP3 boolean" (boolByte (buf.getD 1 0))
    if (buf.drop 2).take 2 ≠ crlf then throw (.invalid "invalid RESP3 boolean")
    else return (.bool val, 4)

/-- The escapes of a double-quoted inline token. -/
def unescape : UInt8 → UInt8
  | 110 => 10
  | 114 => 13
  | 116 => 9
  | other => other

/-- The rest of a quoted token and what follows its closing quote. -/
def readQuoted (quote : UInt8) (token : Bytes) : Bytes → Except ParseError (Bytes × Bytes)
  | [] => .error (.invalid "unterminated quoted string in inline command")
  | [c] => if c = quote then .ok (token, []) else readQuoted quote (token ++ [c]) []
  | c :: e :: rest =>
    if c = quote then .ok (token, e :: rest)
    else if quote = 34 ∧ c = 92 then readQuoted quote (token ++ [unescape e]) rest
    else readQuoted quote (token ++ [c]) (e :: rest)

/-- A quoted word takes at least nothing from its line. -/
theorem length_readQuoted {quote : UInt8} {token line t rest : Bytes}
    (h : readQuoted quote token line = .ok (t, rest)) : rest.length ≤ line.length := by
  fun_induction readQuoted quote token line with
  | case1 => cases h
  | case2 => cases h; simp
  | case3 _ _ _ ih => have := ih h; simp at this; simp [this]
  | case4 => cases h; simp
  | case5 _ _ _ _ _ _ ih => have := ih h; simp; omega
  | case6 _ _ _ _ _ _ ih => have := ih h; simp at this ⊢; omega

/-- Tokens separated by spaces, with quoting. -/
def tokenizeInline (line : Bytes) : Except ParseError (List Resp) :=
  match _ : line.dropWhile (· == 32) with
  | [] => .ok []
  | c :: rest =>
    if c = 34 ∨ c = 39 then
      match _ : readQuoted c [] rest with
      | .error e => .error e
      | .ok (token, after) => do
        let parts ← tokenizeInline after
        return .bulkString (some token) :: parts
    else do
      let parts ← tokenizeInline (rest.dropWhile (· != 32))
      return .bulkString (some (c :: rest.takeWhile (· != 32))) :: parts
termination_by line.length
decreasing_by
  all_goals have skipped := (List.dropWhile_suffix (l := line) (· == 32)).length_le
  · have read := length_readQuoted ‹readQuoted c [] rest = .ok (token, after)›
    rw [‹line.dropWhile _ = _›, List.length_cons] at skipped
    omega
  · have left := (List.dropWhile_suffix (l := rest) (· != 32)).length_le
    rw [‹line.dropWhile _ = _›, List.length_cons] at skipped
    omega

/-- A line of words, as a request. -/
def parseInline (buf : Bytes) : ParseResult (Resp × Nat) :=
  match findCrlf buf with
  | none => .error .incomplete
  | some pos => do
    let parts ← tokenizeInline (buf.take pos)
    if parts.isEmpty then throw (.invalid "empty inline command")
    else return (.array (some parts), pos + 2)

section Nested

variable (parse : Bytes → ParseResult (Resp × Nat))

/-- `n` values one after the other from `offset` on, and the offset behind them. -/
def parseItems (buf : Bytes) : Nat → Nat → ParseResult (List Resp × Nat)
  | 0, offset => .ok ([], offset)
  | n + 1, offset => do
    let (item, consumed) ← parse (buf.drop offset)
    let (items, last) ← parseItems buf n (offset + consumed)
    return (item :: items, last)

/-- `n` keys with their values. -/
def parsePairs (buf : Bytes) : Nat → Nat → ParseResult (List (Resp × Resp) × Nat)
  | 0, offset => .ok ([], offset)
  | n + 1, offset => do
    let (k, klen) ← parse (buf.drop offset)
    let (v, vlen) ← parse (buf.drop (offset + klen))
    let (pairs, last) ← parsePairs buf n (offset + klen + vlen)
    return ((k, v) :: pairs, last)

/-- `*` and elements; -1 is the null. -/
def parseArray (buf : Bytes) : ParseResult (Resp × Nat) := do
  let (len, headerLen) ←
    parseField "invalid array length" (fun s => s!"invalid array length: {s}") parseI64 buf
  if len = -1 then return (.array none, headerLen)
  else if len < 0 then throw (.invalid s!"invalid array length: {len}")
  else
    let len := len.toInt.toNat
    if len > MAX_ARRAY_LEN then throw (.invalid s!"invalid multibulk length: {len}")
    else
      let (items, offset) ← parseItems parse buf len headerLen
      return (.array (some items), offset)

/-- The count of a RESP3 aggregate, named `name` in its errors. -/
def parseCount (name : String) (buf : Bytes) : ParseResult (Nat × Nat) := do
  let (count, headerLen) ← parseField s!"invalid RESP3 {name} length"
    (fun s => s!"invalid {name} length: {s}") parseUsize buf
  if count > MAX_ARRAY_LEN then throw (.invalid s!"invalid {name} length: {count}")
  else return (count, headerLen)

/-- `%` and pairs. -/
def parseResp3Map (buf : Bytes) : ParseResult (Resp × Nat) := do
  let (count, headerLen) ← parseCount "map" buf
  let (pairs, offset) ← parsePairs parse buf count headerLen
  return (.map pairs, offset)

/-- `~` and elements. -/
def parseResp3Set (buf : Bytes) : ParseResult (Resp × Nat) := do
  let (count, headerLen) ← parseCount "set" buf
  let (items, offset) ← parseItems parse buf count headerLen
  return (.set items, offset)

/-- `>` and elements. -/
def parseResp3Push (buf : Bytes) : ParseResult (Resp × Nat) := do
  let (count, headerLen) ← parseCount "push" buf
  let (items, offset) ← parseItems parse buf count headerLen
  return (.push items, offset)

end Nested

section Dispatch

variable (parseF64 : String → Option F64)

/-- `,` and a number. -/
def parseResp3Double (buf : Bytes) : ParseResult (Resp × Nat) := do
  let (d, consumed) ←
    parseField "invalid RESP3 double" (fun s => s!"invalid double: {s}") parseF64 buf
  return (.double d, consumed)

/-- The body of `parse_resp`, with `parse` for the nested values. -/
def parseWith (parse : Bytes → ParseResult (Resp × Nat)) (buf : Bytes) : ParseResult (Resp × Nat) :=
  match buf with
  | [] => .error .incomplete
  | tag :: _ =>
    match tag with
    | Tag.simpleString => parseSimpleString buf
    | Tag.error => parseError buf
    | Tag.integer => parseInteger buf
    | Tag.bulkString => parseBulkString buf
    | Tag.array => parseArray parse buf
    | Tag.null => parseResp3Null buf
    | Tag.bool => parseResp3Bool buf
    | Tag.double => parseResp3Double parseF64 buf
    | Tag.map => parseResp3Map parse buf
    | Tag.set => parseResp3Set parse buf
    | Tag.push => parseResp3Push parse buf
    | _ => parseInline buf

/-- Frames that are nested no deeper than the fuel. -/
def parseFor : Nat → Bytes → ParseResult (Resp × Nat)
  | 0, _ => .error .incomplete
  | k + 1, buf => parseWith parseF64 (parseFor k) buf

/-- Parse one value from the front of `buf`. A nested value starts behind a header, so it is nested
less deep than the buffer is long. -/
def parseResp (buf : Bytes) : ParseResult (Resp × Nat) := parseFor parseF64 (buf.length + 1) buf

end Dispatch

end NexradeCache
