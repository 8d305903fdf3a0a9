import NexradeCache.Lib.Text
import NexradeCache.Lib.Float64

/-!
# RESP values and their serialisation

The `Resp` half of `resp.rs`: the value type, the hand-written integer formatting, the segmented
output buffer and the writers for the two protocol versions. `Fmt` holds the formatting code
outside the crate: `itoa` for lengths and the text of a double.

`writeToForVersion_contents` says a writer appends the same bytes, the `frame` of the value, to
any buffer; the frame of an aggregate is its header and the frames of its `children`.
-/

namespace NexradeCache

open Utf8 Decimal

/-- A RESP value (RESP2 and RESP3). -/
inductive Resp where
  | simpleString (s : String)
  | error (s : String)
  | integer (n : Int64)
  | bulkString (data : Option Bytes)
  | array (items : Option (List Resp))
  | null
  | bool (b : Bool)
  | double (d : F64)
  | map (pairs : List (Resp × Resp))
  | set (items : List Resp)
  | push (items : List Resp)
  | raw (bytes : Bytes)

/-- Text formatting done by other crates. -/
structure Fmt where
  itoa : Nat → Bytes
  float : F64 → Bytes

/-- `itoa` writes decimal numerals. -/
def Fmt.Decimal (fmt : Fmt) : Prop := ∀ n, fmt.itoa n = numeral n

/-- The end of a line. -/
def crlf : Bytes := [13, 10]

/-! The type bytes: `+ - : $ *` of RESP2, `_ # , % ~ >` of RESP3. -/

namespace Tag

@[match_pattern] abbrev simpleString : UInt8 := 43
@[match_pattern] abbrev error : UInt8 := 45
@[match_pattern] abbrev integer : UInt8 := 58
@[match_pattern] abbrev bulkString : UInt8 := 36
@[match_pattern] abbrev array : UInt8 := 42
@[match_pattern] abbrev null : UInt8 := 95
@[match_pattern] abbrev bool : UInt8 := 35
@[match_pattern] abbrev double : UInt8 := 44
@[match_pattern] abbrev map : UInt8 := 37
@[match_pattern] abbrev set : UInt8 := 126
@[match_pattern] abbrev push : UInt8 := 62

end Tag

/-- Digits are written into a scratch array of 20 bytes from its end, `0` and `1` directly. -/
def putI64 (n : Int64) : Bytes :=
  if n = 0 then [48]
  else if n = 1 then [49]
  else
    let neg : Bool := n < 0
    let v := if neg then n.toInt.natAbs else n.toInt.toNat
    if v = 0 then [48]
    else
      let tmp := fill 20 v []
      if neg then 45 :: tmp else tmp

/-- `put_usize`. -/
def putUsize (fmt : Fmt) (n : Nat) : Bytes := fmt.itoa n

/-- A line: the type byte, the text and the line end. -/
def line (tag : UInt8) (text : Bytes) : Bytes := [tag] ++ text ++ crlf

/-- The segmented output buffer: frozen segments and the bytes written since. -/
structure SegBuf where
  active : Bytes
  segments : List Bytes

namespace SegBuf

/-- No segment, and an empty one that is written to. -/
def new : SegBuf := ⟨[], []⟩

/-- Write to the active part. -/
def put (buf : SegBuf) (b : Bytes) : SegBuf := { buf with active := buf.active ++ b }

/-- What is being written becomes a segment. -/
def finalize (buf : SegBuf) : SegBuf :=
  if buf.active.isEmpty then buf else ⟨[], buf.segments ++ [buf.active]⟩

/-- Freeze what is pending and append `raw` as its own segment. -/
def pushRaw (buf : SegBuf) (raw : Bytes) : SegBuf :=
  { buf.finalize with segments := buf.finalize.segments ++ [raw] }

/-- The bytes a reader gets: the segments in order, then the active part. -/
def contents (buf : SegBuf) : Bytes := buf.segments.flatten ++ buf.active

end SegBuf

namespace Resp

variable (fmt : Fmt) (version : UInt8)

mutual

/-- `write_to_for_version`. Where the versions differ a branch looks at the version; the null of RESP3 is written
for both. -/
def writeToForVersion : Resp → SegBuf → SegBuf
  | .simpleString s, buf =>
    if s = "OK" then buf.put (asBytes "+OK\r\n")
    else if s = "PONG" then buf.put (asBytes "+PONG\r\n")
    else buf.put (line Tag.simpleString (asBytes s))
  | .error s, buf => buf.put (line Tag.error (asBytes s))
  | .integer n, buf => buf.put (line Tag.integer (putI64 n))
  | .bulkString none, buf =>
    if version ≥ 3 then buf.put (asBytes "_\r\n") else buf.put (asBytes "$-1\r\n")
  | .bulkString (some data), buf =>
    buf.put (line Tag.bulkString (putUsize fmt data.length) ++ data ++ crlf)
  | .array none, buf =>
    if version ≥ 3 then buf.put (asBytes "_\r\n") else buf.put (asBytes "*-1\r\n")
  | .array (some items), buf =>
    writeItems items (buf.put (line Tag.array (putUsize fmt items.length)))
  | .null, buf => buf.put (asBytes "_\r\n")
  | .bool b, buf =>
    if version ≥ 3 then buf.put (line Tag.bool [if b then 116 else 102])
    else buf.put (line Tag.integer [if b then 49 else 48])
  | .double d, buf =>
    if version ≥ 3 then buf.put (line Tag.double (fmt.float d))
    else
      let s := fmt.float d
      buf.put (line Tag.bulkString (putUsize fmt s.length) ++ s ++ crlf)
  | .map pairs, buf =>
    if version ≥ 3 then writePairs pairs (buf.put (line Tag.map (putUsize fmt pairs.length)))
    else writePairs pairs (buf.put (line Tag.array (putUsize fmt (pairs.length * 2))))
  | .set items, buf =>
    if version ≥ 3 then writeItems items (buf.put (line Tag.set (putUsize fmt items.length)))
    else writeItems items (buf.put (line Tag.array (putUsize fmt items.length)))
  | .push items, buf =>
    if version ≥ 3 then writeItems items (buf.put (line Tag.push (putUsize fmt items.length)))
    else writeItems items (buf.put (line Tag.array (putUsize fmt items.length)))
  | .raw bytes, buf => buf.pushRaw bytes

/-- The items of an aggregate, one after the other. -/
def writeItems : List Resp → SegBuf → SegBuf
  | [], buf => buf
  | item :: items, buf => writeItems items (writeToForVersion item buf)

/-- The pairs of a map, key before value. -/
def writePairs : List (Resp × Resp) → SegBuf → SegBuf
  | [], buf => buf
  | (k, v) :: pairs, buf => writePairs pairs (writeToForVersion v (writeToForVersion k buf))

end

/-- The owned writer moves pre-serialised bytes instead of sharing them. -/
def writeToForVersionOwned (v : Resp) (buf : SegBuf) : SegBuf :=
  match v with
  | .raw bytes => buf.pushRaw bytes
  | other => writeToForVersion fmt version other buf

/-- `serialize_for_version`. -/
def serializeForVersion (v : Resp) : Bytes :=
  let buf := (writeToForVersion fmt version v .new).finalize
  match buf.segments with
  | [segment] => segment
  | segments => segments.foldl (fun out segment => out ++ segment) []

/-- Keys and values of a map in wire order. -/
def flatPairs (pairs : List (Resp × Resp)) : List Resp := pairs.flatMap fun p => [p.1, p.2]

/-- The immediate sub-values. -/
def children : Resp → List Resp
  | .array (some items) => items
  | .map pairs => flatPairs pairs
  | .set items => items
  | .push items => items
  | _ => []

theorem sizeOf_children {c v : Resp} (mem : c ∈ v.children) : sizeOf c < sizeOf v := by
  cases v with
  | array items =>
    cases items with
    | none => cases mem
    | some items =>
      have less := List.sizeOf_lt_of_mem (show c ∈ items from mem)
      simp only [array.sizeOf_spec, Option.some.sizeOf_spec]
      omega
  | map pairs =>
    obtain ⟨p, mem, here⟩ := List.mem_flatMap.1 (show c ∈ flatPairs pairs from mem)
    have less := List.sizeOf_lt_of_mem mem
    obtain ⟨k, v⟩ := p
    simp only [map.sizeOf_spec, Prod.mk.sizeOf_spec, List.mem_cons, List.not_mem_nil, or_false] at *
    rcases here with rfl | rfl <;> omega
  | set items =>
    have less := List.sizeOf_lt_of_mem (show c ∈ items from mem)
    simp only [set.sizeOf_spec]
    omega
  | push items =>
    have less := List.sizeOf_lt_of_mem (show c ∈ items from mem)
    simp only [push.sizeOf_spec]
    omega
  | _ => cases mem

theorem induction_children {P : Resp → Prop} (step : ∀ v : Resp, (∀ c ∈ v.children, P c) → P v)
    (v : Resp) : P v := by
  induction h : sizeOf v using Nat.strongRecOn generalizing v with
  | _ n ih => exact step v fun c mem => ih _ (h ▸ sizeOf_children mem) c rfl

/-- The bytes of `v` on the wire. -/
def frame (v : Resp) : Bytes := (writeToForVersion fmt version v .new).contents

end Resp

namespace SegBuf

@[simp] theorem contents_new : new.contents = [] := rfl

@[simp] theorem contents_put (buf : SegBuf) (b : Bytes) : (buf.put b).contents = buf.contents ++ b := by
  simp [put, contents]

@[simp] theorem contents_finalize (buf : SegBuf) : buf.finalize.contents = buf.contents := by
  rw [finalize]
  split <;> simp [contents]

theorem active_finalize (buf : SegBuf) : buf.finalize.active = [] := by
  rw [finalize]
  split
  · simpa using ‹buf.active.isEmpty = true›
  · rfl

@[simp] theorem contents_pushRaw (buf : SegBuf) (raw : Bytes) :
    (buf.pushRaw raw).contents = buf.contents ++ raw := by
  rw [← contents_finalize buf]
  simp [pushRaw, contents, active_finalize]

end SegBuf

namespace Resp

variable {fmt : Fmt} {version : UInt8}

/-- The pairs of a map are written as the list of their parts. -/
theorem writePairs_eq (pairs : List (Resp × Resp)) (buf : SegBuf) :
    writePairs fmt version pairs buf = writeItems fmt version (flatPairs pairs) buf := by
  induction pairs generalizing buf with
  | nil => simp [writePairs, writeItems, flatPairs]
  | cons p pairs ih =>
    rw [writePairs, ih]
    simp [flatPairs, writeItems]

/-- Writing appends, for one value. -/
def Appends (fmt : Fmt) (version : UInt8) (v : Resp) : Prop :=
  ∀ buf, (writeToForVersion fmt version v buf).contents = buf.contents ++ v.frame fmt version

theorem writeItems_contents {items : List Resp} (each : ∀ c ∈ items, Appends fmt version c)
    (buf : SegBuf) : (writeItems fmt version items buf).contents =
      buf.contents ++ items.flatMap (frame fmt version) := by
  induction items generalizing buf with
  | nil => simp [writeItems]
  | cons c items ih =>
    rw [writeItems, ih fun d mem => each d (by simp [mem]), each c (by simp)]
    simp

/-- The part of a frame before its sub-values: the header of an aggregate, all of a leaf. -/
def head (fmt : Fmt) (version : UInt8) : Resp → Bytes
  | .simpleString s => line Tag.simpleString (asBytes s)
  | .error s => line Tag.error (asBytes s)
  | .integer n => line Tag.integer (putI64 n)
  | .bulkString none => if version ≥ 3 then asBytes "_\r\n" else asBytes "$-1\r\n"
  | .bulkString (some data) => line Tag.bulkString (putUsize fmt data.length) ++ data ++ crlf
  | .array none => if version ≥ 3 then asBytes "_\r\n" else asBytes "*-1\r\n"
  | .array (some items) => line Tag.array (putUsize fmt items.length)
  | .null => asBytes "_\r\n"
  | .bool b =>
    if version ≥ 3 then line Tag.bool [if b then 116 else 102]
    else line Tag.integer [if b then 49 else 48]
  | .double d =>
    if version ≥ 3 then line Tag.double (fmt.float d)
    else line Tag.bulkString (putUsize fmt (fmt.float d).length) ++ fmt.float d ++ crlf
  | .map pairs =>
    if version ≥ 3 then line Tag.map (putUsize fmt pairs.length)
    else line Tag.array (putUsize fmt (pairs.length * 2))
  | .set items => line (if version ≥ 3 then Tag.set else Tag.array) (putUsize fmt items.length)
  | .push items => line (if version ≥ 3 then Tag.push else Tag.array) (putUsize fmt items.length)
  | .raw bytes => bytes

/-- One step of the writer: the head, then the sub-values in order. -/
theorem writeToForVersion_step (v : Resp) (buf : SegBuf)
    (each : ∀ c ∈ v.children, Appends fmt version c) :
    (writeToForVersion fmt version v buf).contents =
      buf.contents ++ (v.head fmt version ++ v.children.flatMap (frame fmt version)) := by
  cases v with
  | simpleString s =>
    rw [writeToForVersion]
    split_ifs with ok pong
    · subst ok; simp [head, children]; decide
    · subst pong; simp [head, children]; decide
    · simp [head, children]
  | bulkString data =>
    cases data with
    | none => rw [writeToForVersion]; split <;> simp [head, children, *]
    | some data => simp [writeToForVersion, head, children]
  | array items =>
    cases items with
    | none => rw [writeToForVersion]; split <;> simp [head, children, *]
    | some items =>
      change ∀ c ∈ items, Appends fmt version c at each
      rw [writeToForVersion, writeItems_contents each]
      simp [head, children]
  | map pairs =>
    change ∀ c ∈ flatPairs pairs, Appends fmt version c at each
    rw [writeToForVersion, writePairs_eq, writePairs_eq]
    split <;> rw [writeItems_contents each] <;> simp [head, children, *]
  | set items =>
    change ∀ c ∈ items, Appends fmt version c at each
    rw [writeToForVersion]
    split <;> rw [writeItems_contents each] <;> simp [head, children, *]
  | push items =>
    change ∀ c ∈ items, Appends fmt version c at each
    rw [writeToForVersion]
    split <;> rw [writeItems_contents each] <;> simp [head, children, *]
  | bool b => rw [writeToForVersion]; split <;> simp [head, children, *]
  | double d => rw [writeToForVersion]; split <;> simp [head, children, *]
  | _ => simp [writeToForVersion, head, children]

/-- A frame is its head and the frames of the sub-values. -/
theorem frame_of_each {v : Resp} (each : ∀ c ∈ v.children, Appends fmt version c) :
    v.frame fmt version = v.head fmt version ++ v.children.flatMap (frame fmt version) := by
  rw [frame, writeToForVersion_step v .new each, SegBuf.contents_new, List.nil_append]

/-- **Writing appends the frame of the value**, whatever the buffer holds. -/
theorem writeToForVersion_contents (v : Resp) (buf : SegBuf) :
    (writeToForVersion fmt version v buf).contents = buf.contents ++ v.frame fmt version := by
  revert buf
  induction v using induction_children with
  | step v each =>
    intro buf
    rw [writeToForVersion_step v buf each, frame_of_each each]

/-- A frame is its head and the frames of the children. -/
theorem frame_eq (v : Resp) :
    v.frame fmt version = v.head fmt version ++ v.children.flatMap (frame fmt version) :=
  frame_of_each fun c _ => writeToForVersion_contents c

/-- The writer that owns its value writes the same. -/
theorem writeToForVersionOwned_eq (v : Resp) (buf : SegBuf) :
    writeToForVersionOwned fmt version v buf = writeToForVersion fmt version v buf := by
  cases v with
  | raw bytes => rw [writeToForVersionOwned, writeToForVersion]
  | _ => rfl

/-- Joining the segments loses nothing: the serialisation is the frame. -/
theorem serializeForVersion_eq (v : Resp) : v.serializeForVersion fmt version = v.frame fmt version := by
  rw [frame, ← SegBuf.contents_finalize, serializeForVersion, SegBuf.contents, SegBuf.active_finalize,
    List.append_nil]
  split
  · simp [*]
  · exact (List.foldl_append_eq_append (f := id)).trans (by rw [List.map_id, List.nil_append])

end Resp

end NexradeCache
