import NexradeCache.Command.Readers
import NexradeCache.Data.ListRefinement
import NexradeCache.Server.Connection

/-!
# The commands that write collections (`nexrade-core/src/command/{list,set,hash,zset,geo,generic}.rs`)

What each handler does to the keyspace, with the elements of a collection as a list. A handler that
fails leaves what it has done: `get_or_insert_with` comes before the elements are parsed. The replies,
the wakeups, the memory estimate and the encodings are left out, and so is the lazy deletion of expired
entries, which no client sees. A blocking command is one attempt; an attempt after a wakeup is another
request with the same arguments.
-/

namespace NexradeCache.Collections

open NexradeCache

/-! ## Values -/

/-- A value that is no collection. -/
inductive Plain where
  | string (v : Bytes)
  | int (v : Int64)
  | bitmap (v : Bytes)
  | hyperLogLog (v : Bytes)
  | stream (s : StreamData)

/-- A value, by its elements. Strings, bitmaps and streams are never empty collections, so they are one kind. -/
inductive Value where
  | list (items : List Bytes)
  | set (members : List Bytes)
  | hash (fields : List (Bytes × Bytes))
  | zset (pairs : List (Bytes × F64))
  | geo (points : List (Bytes × GeoPoint))
  | plain (v : Plain)

/-- A collection with nothing in it. -/
def Value.isEmpty : Value → Bool
  | .list items => items.isEmpty
  | .set members => members.isEmpty
  | .hash fields => fields.isEmpty
  | .zset pairs => pairs.isEmpty
  | .geo points => points.isEmpty
  | .plain _ => false

/-- A value with its deadline. -/
structure Stored where
  value : Value
  expiry : Option Nat

/-- The deadline is over. -/
def Stored.isExpired (now : Nat) (e : Stored) : Bool :=
  match e.expiry with
  | some expiresAtMs => expiresAtMs ≤ now
  | none => false

/-- One database. -/
abbrev Space := KeyMap Stored

/-- The entry a handler gets to see: an expired one is none. -/
def live (now : Nat) (s : Space) (key : Bytes) : Option Stored := (s.lookup key).filter fun e => !e.isExpired now

/-- One of the types of collections: how its elements are held, and how a handler gets at them. -/
structure Collection (α : Type) where
  wrap : List α → Value
  contents : Value → Option (List α)
  wrap_contents : ∀ {v l}, contents v = some l → v = wrap l
  isEmpty_wrap : ∀ l, (wrap l).isEmpty = l.isEmpty

/-- Lists are collections of their elements. -/
def lists : Collection Bytes where
  wrap := .list
  contents | .list items => some items | _ => none
  wrap_contents {v l} h := by cases v <;> simp_all
  isEmpty_wrap _ := rfl

/-- Sets are collections of their members. -/
def sets : Collection Bytes where
  wrap := .set
  contents | .set members => some members | _ => none
  wrap_contents {v l} h := by cases v <;> simp_all
  isEmpty_wrap _ := rfl

/-- Hashes are collections of pairs. -/
def hashes : Collection (Bytes × Bytes) where
  wrap := .hash
  contents | .hash fields => some fields | _ => none
  wrap_contents {v l} h := by cases v <;> simp_all
  isEmpty_wrap _ := rfl

/-- Sorted sets are collections of members with scores. -/
def zsets : Collection (Bytes × F64) where
  wrap := .zset
  contents | .zset pairs => some pairs | _ => none
  wrap_contents {v l} h := by cases v <;> simp_all
  isEmpty_wrap _ := rfl

/-- Geo values are collections of members with points. -/
def geos : Collection (Bytes × GeoPoint) where
  wrap := .geo
  contents | .geo points => some points | _ => none
  wrap_contents {v l} h := by cases v <;> simp_all
  isEmpty_wrap _ := rfl

/-! ## What the handlers do with an entry -/

section
variable {α β : Type} (c : Collection α) (now : Nat) (key : Bytes)

/-- `get_or_insert_with`, and what the handler does through the reference it got. Another type is an
error, and nothing is written. -/
def getOrCreate (f : List α → List α) (s : Space) : Space :=
  match live now s key with
  | none => s.insert key ⟨c.wrap (f []), none⟩
  | some e => match c.contents e.value with
    | none => s
    | some l => s.insert key { e with value := c.wrap (f l) }

/-- `get_mut`, and what the handler does through the reference. -/
def edit (f : List α → List α) (s : Space) : Space :=
  match live now s key with
  | none => s
  | some e => match c.contents e.value with
    | none => s
    | some l => s.insert key { e with value := c.wrap (f l) }

/-- `get_mut` and an edit that takes elements out; `remove_empty_key` if none is left. -/
def shrink (f : List α → List α) (s : Space) : Space :=
  match live now s key with
  | none => s
  | some e => match c.contents e.value with
    | none => s
    | some l => if (f l).isEmpty then s.erase key else s.insert key { e with value := c.wrap (f l) }

/-- The first key that has elements; `stops` is whether another type ends the search with an error. -/
def shrinkFirst (stops : Bool) (f : List α → List α) : (keys : List Bytes) → Space → Space
  | [], s => s
  | key :: keys, s =>
    match live now s key with
    | none => shrinkFirst stops f keys s
    | some e => match c.contents e.value with
      | none => if stops then s else shrinkFirst stops f keys s
      | some l => if l.isEmpty then shrinkFirst stops f keys s else shrink c now key f s

/-- A fresh entry, whatever was there. -/
def store (l : List α) (s : Space) : Space := s.insert key ⟨c.wrap l, none⟩

/-- Add what was parsed, up to the first argument that is not as it should be. -/
def addAll (add : β → List α → List α) : List (Option β) → List α → List α
  | [], l => l
  | none :: _, l => l
  | some x :: rest, l => addAll add rest (add x l)

end

/-- `insert` of a map. -/
def put {β : Type} (e : Bytes × β) (l : List (Bytes × β)) : List (Bytes × β) := e :: l.filter fun x => x.1 ≠ e.1

/-- The arguments two by two. -/
def pairs {β : Type} (f : Resp → Resp → Option β) : List Resp → List (Option β)
  | a :: b :: rest => f a b :: pairs f rest
  | _ => []

/-- The arguments three by three. -/
def triples {β : Type} (f : Resp → Resp → Resp → Option β) : List Resp → List (Option β)
  | a :: b :: c :: rest => f a b c :: triples f rest
  | _ => []

/-! ## Requests -/

/-- A request, when and in which database it runs, and the random choices it makes. -/
structure Request where
  /-- `now_unix_ms`. -/
  now : Nat
  db : Nat
  args : List Resp
  /-- What `pseudo_rand_idx` gets from the clock. -/
  roll : Nat → Nat

/-- The first word, in capitals. -/
def Request.name (r : Request) : String := cmdName r.args

/-- What a handler does to a database. -/
abbrev Write := Request → Space → Space

/-- What the handlers of strings, bitmaps, HyperLogLogs and streams do to a key. -/
inductive Touch where
  | drop
  | expireAt (deadline : Option Nat)
  | write (v : Plain) (deadline : Option Nat)

/-- The number of databases, the operations on doubles, and the handlers that see no collection. -/
structure Machine extends Env where
  dbCount : Nat
  parseF64 : String → Option F64
  add : F64 → F64 → F64
  mul : F64 → F64 → F64
  min : F64 → F64 → F64
  max : F64 → F64 → F64
  formatFloat : F64 → Bytes
  haversineM : (lon1 lat1 lon2 lat2 : F64) → F64
  toMeters : F64 → (unit : String) → Option F64
  fromMeters : F64 → (unit : String) → F64
  /-- `((w / 2.0).powi(2) + (h / 2.0).powi(2)).sqrt()`. -/
  diagonal : (w h : F64) → F64
  /-- `bincode::serde::decode_from_slice`. -/
  decode : Bytes → Option Value
  /-- SORT: the elements of the page, or what GET gives for them. -/
  sorted : (args : List Resp) → Space → (items : List Bytes) → List Bytes
  touches : Request → Space → List (Bytes × Touch)

variable (m : Machine)

/-- The text at a position, in capitals. -/
def Machine.upper (args : List Resp) (i : Nat) : Option String := (getStr args i).map m.toUppercase

/-- `get_f64`. -/
def getF64 (args : List Resp) (i : Nat) : Option F64 := (getStr args i).bind m.parseF64

/-- `args.len()` is what the handler asks for and the key is bytes or text. -/
def keyed (arity : Arity) (body : (key : Bytes) → Write) : Write := fun r s =>
  if !arity.accepts r.args.length then s
  else match getBytesVec r.args 1 with
    | none => s
    | some key => body key r s

/-! ## Lists -/

/-- One element is pushed on the left or on the right. -/
def pushOne (left : Bool) (v : Bytes) (l : List Bytes) : List Bytes := if left then v :: l else l ++ [v]

/-- What is left when `n` elements are popped at one end. -/
def popMany (left : Bool) (n : Nat) (l : List Bytes) : List Bytes :=
  if left then l.drop n else l.take (l.length - n)

/-- LPUSH and its family take bytes only. -/
def push (left onlyIfExists : Bool) : Write := fun r s =>
  if r.args.length < 3 then s
  else match r.args[1]?.bind Resp.asBytes with
    | none => s
    | some key =>
      if onlyIfExists && (live r.now s key).isNone then s
      else getOrCreate lists r.now key (addAll (pushOne left) ((r.args.drop 2).map Resp.asBytes)) s

/-- LPUSH. -/
def cmdLpush : Write := push true false

/-- RPUSH. -/
def cmdRpush : Write := push false false

/-- LPUSHX pushes to a key that is there. -/
def cmdLpushx : Write := push true true

/-- RPUSHX. -/
def cmdRpushx : Write := push false true

/-- The optional count of a pop, one if there is none; a negative one is an error. -/
def popCount (args : List Resp) : Option Nat :=
  if args.length < 3 then some 1
  else match getI64 args 2 with
    | none => none
    | some n => if n < 0 then none else some n.toInt.toNat

/-- LPOP and RPOP, of one element or of a count. -/
def pop (left : Bool) : Write := keyed (.atLeast 2) fun key r s =>
  match popCount r.args with
  | none => s
  | some n => shrink lists r.now key (popMany left n) s

def cmdLpop : Write := pop true

def cmdRpop : Write := pop false

/-- `normalize_idx`: a negative index counts from the end, and stops at the first element. -/
def normalizeIdx (idx : Int64) (len : Nat) : Nat :=
  if idx < 0 then (len + idx.toInt).toNat else idx.toInt.toNat

/-- LSET. -/
def cmdLset : Write := keyed (.exactly 4) fun key r s =>
  match getI64 r.args 2, r.args[3]?.bind Resp.asBytes with
  | some idx, some v => edit lists r.now key (fun l => l.set (normalizeIdx idx l.length) v) s
  | _, _ => s

/-- LINSERT. -/
def cmdLinsert : Write := keyed (.exactly 5) fun key r s =>
  match m.upper r.args 2, r.args[3]?.bind Resp.asBytes, r.args[4]?.bind Resp.asBytes with
  | some whereOpt, some pivot, some element =>
    if whereOpt = "BEFORE" then edit lists r.now key (fun l => (ListSpec.insertAt 0 pivot element l).1) s
    else if whereOpt = "AFTER" then edit lists r.now key (fun l => (ListSpec.insertAt 1 pivot element l).1) s
    else s
  | _, _, _ => s

/-- LREM. -/
def cmdLrem : Write := keyed (.exactly 4) fun key r s =>
  match getI64 r.args 2, r.args[3]?.bind Resp.asBytes with
  | some count, some element => shrink lists r.now key (ListSpec.rem count.toInt element) s
  | _, _ => s

/-- What LTRIM leaves of a list. -/
def trimmed (start stop : Int64) (l : List Bytes) : List Bytes :=
  let start := normalizeIdx start l.length
  let stop := normalizeIdx stop l.length
  if l.length ≤ start || stop < start then []
  else ListSpec.range start (Nat.min stop (l.length - 1)) l

/-- LTRIM. -/
def cmdLtrim : Write := keyed (.exactly 4) fun key r s =>
  match getI64 r.args 2, getI64 r.args 3 with
  | some start, some stop => shrink lists r.now key (trimmed start stop) s
  | _, _ => s

/-- Pop an element at one end of `src` and push it at an end of `dst`; a destination of another type is
refused before the pop. -/
def lmoveAtomic (now : Nat) (src dst : Bytes) (fromLeft toLeft : Bool) (s : Space) : Space :=
  if (live now s dst).any fun e => (lists.contents e.value).isNone then s
  else match live now s src with
    | none => s
    | some e => match lists.contents e.value with
      | none => s
      | some l => match if fromLeft then l.head? else l.getLast? with
        | none => s
        | some v => getOrCreate lists now dst (pushOne toLeft v) (shrink lists now src (popMany fromLeft 1) s)

/-- LMOVE. -/
def cmdLmove : Write := keyed (.exactly 5) fun src r s =>
  match getBytesVec r.args 2, m.upper r.args 3, m.upper r.args 4 with
  | some dst, some wherefrom, some whereto => lmoveAtomic r.now src dst (wherefrom = "LEFT") (whereto = "LEFT") s
  | _, _, _ => s

/-- RPOPLPUSH. -/
def cmdRpoplpush : Write := keyed (.exactly 3) fun src r s =>
  match getBytesVec r.args 2 with
  | some dst => lmoveAtomic r.now src dst false true s
  | none => s

/-- BLMOVE, when it does not wait. -/
def cmdBlmove : Write := keyed (.exactly 6) fun src r s =>
  match getBytesVec r.args 2, m.upper r.args 3, m.upper r.args 4, getF64 m r.args 5 with
  | some dst, some wherefrom, some whereto, some _ =>
    if ["LEFT", "RIGHT"].contains wherefrom && ["LEFT", "RIGHT"].contains whereto then
      lmoveAtomic r.now src dst (wherefrom = "LEFT") (whereto = "LEFT") s
    else s
  | _, _, _, _ => s

/-- `blocking_duration`: the timeout is finite and not negative. -/
def blockingDuration (timeoutSecs : F64) : Bool :=
  timeoutSecs.mag < 0x7FF0000000000000 && 0 ≤ timeoutSecs.key

/-- The keys between the command and the timeout. -/
def blockingKeys (args : List Resp) : Option (List Bytes) := parseKeys ((args.drop 1).dropLast)

/-- `blocking_pop`, when it does not wait: the first of the keys that has an element gives one. -/
def blockingPop (left : Bool) : Write := fun r s =>
  if r.args.length < 3 then s
  else match getF64 m r.args (r.args.length - 1), blockingKeys r.args with
    | some timeoutSecs, some keys =>
      if blockingDuration timeoutSecs then shrinkFirst lists r.now false (popMany left 1) keys s else s
    | _, _ => s

def cmdBlpop : Write := blockingPop m true

def cmdBrpop : Write := blockingPop m false

/-- `numkeys` at a position and the keys behind it; what is left are the options. -/
def keysFrom (args : List Resp) (idx : Nat) : Option (List Bytes × List Resp) :=
  match getI64 args idx with
  | none => none
  | some n => if n ≤ 0 then none
    else if args.length < idx + 1 + n.toInt.toNat then none
    else (parseKeys ((args.drop (idx + 1)).take n.toInt.toNat)).map fun keys =>
      (keys, args.drop (idx + 1 + n.toInt.toNat))

/-- `first|second [COUNT count]`. -/
def mpopTail (first second : String) (args : List Resp) : Option (Bool × Nat) :=
  match (getStr args 0).map toAsciiUppercase with
  | none => none
  | some dir =>
    if dir ≠ first && dir ≠ second then none
    else match args.drop 1 with
      | [] => some (dir = first, 1)
      | [opt, n] =>
        if opt.asStr.map toAsciiUppercase ≠ some "COUNT" then none
        else match getI64 [n] 0 with
          | none => none
          | some n => if n < 0 then none else some (dir = first, n.toInt.toNat)
      | _ => none

/-- `lmpop_once`: as many elements as asked for from the first of the keys that has any. The key names begin behind
the position of their number. -/
def lmpop (least idx : Nat) : Write := fun r s =>
  if r.args.length < least then s
  else match keysFrom r.args idx with
    | none => s
    | some (keys, rest) => match mpopTail "LEFT" "RIGHT" rest with
      | none => s
      | some (left, count) => shrinkFirst lists r.now false (popMany left count) keys s

/-- LMPOP. -/
def cmdLmpop : Write := lmpop 4 1

/-- BLMPOP, when it does not wait. It reads its timeout before the rest. -/
def cmdBlmpop : Write := fun r s =>
  if r.args.length < 5 then s
  else match getF64 m r.args 1 with
    | none => s
    | some _ => lmpop 5 2 r s

/-! ## Hashes -/

/-- A field and its value. -/
def fieldPair (a b : Resp) : Option (Bytes × Bytes) :=
  match a.toBytesVec, b.toBytesVec with
  | some field, some val => some (field, val)
  | _, _ => none

/-- HSET and HMSET differ in their replies. -/
def hset : Write := fun r s =>
  if r.args.length < 4 || r.args.length % 2 ≠ 0 then s
  else match getBytesVec r.args 1 with
    | none => s
    | some key => getOrCreate hashes r.now key (addAll put (pairs fieldPair (r.args.drop 2))) s

/-- HSET. -/
def cmdHset : Write := hset

/-- HMSET. -/
def cmdHmset : Write := hset

/-- The arguments that are bytes or text; the loops of SREM, HDEL and ZREM pass over the others. -/
def named (args : List Resp) : List Bytes := (args.drop 2).filterMap Resp.toBytesVec

/-- HDEL. -/
def cmdHdel : Write := keyed (.atLeast 3) fun key r s =>
  shrink hashes r.now key (fun l => l.filter fun e => e.1 ∉ named r.args) s

/-- HSETNX. -/
def cmdHsetnx : Write := keyed (.exactly 4) fun key r s =>
  match getBytesVec r.args 2, getBytesVec r.args 3 with
  | some field, some val =>
    getOrCreate hashes r.now key (fun l => if (l.lookup field).isSome then l else put (field, val) l) s
  | _, _ => s

/-- The field after HINCRBY, if there is an integer in it and the sum is one. -/
def incremented (field : Bytes) (delta : Int64) (l : List (Bytes × Bytes)) : List (Bytes × Bytes) :=
  let current : Option Int64 :=
    match l.lookup field with
    | none => some 0
    | some v => (Utf8.fromUtf8 v).bind Decimal.parseI64
  match current.bind (checkedAddI64 · delta) with
  | none => l
  | some v => put (field, putI64 v) l

/-- HINCRBY. -/
def cmdHincrby : Write := keyed (.exactly 4) fun key r s =>
  match getBytesVec r.args 2, getI64 r.args 3 with
  | some field, some delta => getOrCreate hashes r.now key (incremented field delta) s
  | _, _ => s

/-- The value of the field before HINCRBYFLOAT; the hash is looked up, not created. -/
def currentFloat (now : Nat) (s : Space) (key field : Bytes) : Option F64 :=
  match live now s key with
  | none => some ⟨0⟩
  | some e => match hashes.contents e.value with
    | none => none
    | some l => match l.lookup field with
      | none => some ⟨0⟩
      | some v => (Utf8.fromUtf8 v).bind m.parseF64

/-- HINCRBYFLOAT. -/
def cmdHincrbyfloat : Write := keyed (.exactly 4) fun key r s =>
  match getBytesVec r.args 2, getF64 m r.args 3 with
  | some field, some delta => match currentFloat m r.now s key field with
    | none => s
    | some current =>
      let new := m.add current delta
      if new.mag < 0x7FF0000000000000 then getOrCreate hashes r.now key (put (field, m.formatFloat new)) s else s
  | _, _ => s

/-! ## Sets -/

/-- SADD. -/
def cmdSadd : Write := keyed (.atLeast 3) fun key r s =>
  getOrCreate sets r.now key (addAll List.insert ((r.args.drop 2).map Resp.toBytesVec)) s

/-- SREM. -/
def cmdSrem : Write := keyed (.atLeast 3) fun key r s =>
  shrink sets r.now key (fun l => l.filter fun x => x ∉ named r.args) s

/-- `remove_at(pseudo_rand_idx(len))`, round after round. -/
def popRandom (roll : Nat → Nat) : Nat → List Bytes → List Bytes
  | 0, l => l
  | n + 1, l => if l.isEmpty then l else popRandom roll n (l.eraseIdx (roll n % l.length))

/-- SPOP. Which members it takes is one of the choices of the request. -/
def cmdSpop : Write := keyed (.atLeast 2) fun key r s =>
  match popCount r.args with
  | none => s
  | some n => shrink sets r.now key (popRandom r.roll n) s

/-- A source of a set operation: refused, missing, or its members. -/
def members (now : Nat) (s : Space) (a : Resp) : Option (Option (List Bytes)) :=
  match a.toBytesVec with
  | none => none
  | some key => match live now s key with
    | none => some none
    | some e => (sets.contents e.value).map some

/-- The loop of SUNIONSTORE over its sources; one that is no set ends it. -/
def collectUnion (now : Nat) (s : Space) : (rest : List Resp) → (result : List Bytes) → Option (List Bytes)
  | [], result => some result
  | a :: rest, result => match members now s a with
    | none => none
    | some none => collectUnion now s rest result
    | some (some l) => collectUnion now s rest (result ∪ l)

/-- A missing source ends the loop, before the sources behind it are looked at. -/
def collectInter (now : Nat) (s : Space) :
    (rest : List Resp) → (result : Option (List Bytes)) → Option (List Bytes)
  | [], result => some (result.getD [])
  | a :: rest, result => match members now s a with
    | none => none
    | some none => some []
    | some (some l) => collectInter now s rest (some ((result.map (· ∩ l)).getD l))

/-- The loop of SDIFFSTORE over the sources behind the first. -/
def collectDiff (now : Nat) (s : Space) : (rest : List Resp) → (result : List Bytes) → Option (List Bytes)
  | [], result => some result
  | a :: rest, result => match members now s a with
    | none => none
    | some none => collectDiff now s rest result
    | some (some l) => collectDiff now s rest (result.filter (· ∉ l))

/-- The first source is what the others are taken from. -/
def collectDiffFrom (now : Nat) (s : Space) : (sources : List Resp) → Option (List Bytes)
  | [] => none
  | a :: rest => match members now s a with
    | none => none
    | some first => collectDiff now s rest (first.getD [])

/-- The result is stored, whatever it is. -/
def setStore (collect : (now : Nat) → Space → (sources : List Resp) → Option (List Bytes)) : Write :=
  keyed (.atLeast 3) fun dst r s =>
    match collect r.now s (r.args.drop 2) with
    | none => s
    | some result => store sets dst result s

/-- SUNIONSTORE. -/
def cmdSunionstore : Write := setStore fun now s sources => collectUnion now s sources []

/-- SINTERSTORE. -/
def cmdSinterstore : Write := setStore fun now s sources => collectInter now s sources none

/-- SDIFFSTORE. -/
def cmdSdiffstore : Write := setStore collectDiffFrom

/-- A destination of another type is refused, expired or not. -/
def smoveAtomic (now : Nat) (src dst member : Bytes) (s : Space) : Space :=
  if (s.lookup dst).any fun e => (sets.contents e.value).isNone then s
  else match live now s src with
    | none => s
    | some e => match sets.contents e.value with
      | none => s
      | some l =>
        if member ∉ l then s
        else getOrCreate sets now dst (List.insert member)
          (shrink sets now src (fun l => l.filter fun x => x ≠ member) s)

/-- SMOVE. -/
def cmdSmove : Write := keyed (.exactly 4) fun src r s =>
  match getBytesVec r.args 2, getBytesVec r.args 3 with
  | some dst, some member => smoveAtomic r.now src dst member s
  | _, _ => s

/-! ## Sorted sets -/

/-- `<=` of doubles. -/
def leF64 (a b : F64) : Bool := !a.isNaN && !b.isNaN && a.key ≤ b.key

/-- `<` of doubles. -/
def ltF64 (a b : F64) : Bool := !a.isNaN && !b.isNaN && a.key < b.key

/-- `to_pairs_sorted`: by score, then by member. -/
def toPairsSorted (l : List (Bytes × F64)) : List (Bytes × F64) :=
  l.mergeSort fun a b => zKey (a.2, a.1) ≤ zKey (b.2, b.1)

/-- A bound and whether it is exclusive. -/
def parseScoreBound (text : String) : Option (F64 × Bool) :=
  let (body, excl) : String × Bool :=
    match text.toList with
    | '(' :: rest => (.ofList rest, true)
    | '[' :: rest => (.ofList rest, false)
    | _ => (text, false)
  let v : Option F64 :=
    if body = "+inf" || body = "+INF" then some ⟨0x7FF0000000000000⟩
    else if body = "-inf" || body = "-INF" then some ⟨0xFFF0000000000000⟩
    else m.parseF64 body
  match v with
  | none => none
  | some v => if v.isNaN then none else some (v, excl)

/-- A score, as ZADD reads it. -/
def parseScore (a : Resp) : Option F64 := (a.asStr.bind (parseScoreBound m)).map Prod.fst

/-- The options of ZADD. -/
structure ZaddFlags where
  nx : Bool := false
  xx : Bool := false
  gt : Bool := false
  lt : Bool := false
  ch : Bool := false
  incr : Bool := false

/-- The flags in front of the first score; an argument that is no text is an error. -/
def zaddFlags : (rest : List Resp) → ZaddFlags → Option (ZaddFlags × List Resp)
  | [], flags => some (flags, [])
  | a :: rest, flags => match a.asStr.map m.toUppercase with
    | none => none
    | some opt =>
      if opt = "NX" then zaddFlags rest { flags with nx := true }
      else if opt = "XX" then zaddFlags rest { flags with xx := true }
      else if opt = "GT" then zaddFlags rest { flags with gt := true }
      else if opt = "LT" then zaddFlags rest { flags with lt := true }
      else if opt = "CH" then zaddFlags rest { flags with ch := true }
      else if opt = "INCR" then zaddFlags rest { flags with incr := true }
      else some (flags, a :: rest)

/-- Flags that exclude each other, and pairs that are not whole. -/
def ZaddFlags.refuse (flags : ZaddFlags) (rest : List Resp) : Bool :=
  flags.nx && (flags.gt || flags.lt || flags.incr) || flags.gt && flags.lt ||
    if flags.incr then rest.length ≠ 2 else rest.length < 2 || rest.length % 2 ≠ 0

/-- A score and its member. -/
def scorePair (a b : Resp) : Option (Bytes × F64) :=
  match parseScore m a, b.toBytesVec with
  | some score, some member => some (member, score)
  | _, _ => none

/-- One pair of ZADD. -/
def zaddOne (flags : ZaddFlags) (e : Bytes × F64) (l : List (Bytes × F64)) : List (Bytes × F64) :=
  match l.lookup e.1 with
  | none => if flags.xx then l else put e l
  | some old =>
    if flags.nx || flags.gt && leF64 e.2 old || flags.lt && leF64 old e.2 then l else put e l

/-- The pair of ZADD INCR and of ZINCRBY. -/
def zincr (e : Bytes × F64) (l : List (Bytes × F64)) : List (Bytes × F64) :=
  put (e.1, m.add ((l.lookup e.1).getD ⟨0⟩) e.2) l

/-- ZADD. The options end at the first word that is none. -/
def cmdZadd : Write := keyed (.atLeast 4) fun key r s =>
  match zaddFlags m (r.args.drop 2) {} with
  | none => s
  | some (flags, rest) =>
    if flags.refuse rest || flags.xx && (live r.now s key).isNone then s
    else getOrCreate zsets r.now key
      (addAll (if flags.incr then zincr m else zaddOne flags) (pairs (scorePair m) rest)) s

/-- ZINCRBY. -/
def cmdZincrby : Write := keyed (.exactly 4) fun key r s =>
  match (r.args[2]?).bind (parseScore m), getBytesVec r.args 3 with
  | some delta, some member => getOrCreate zsets r.now key (zincr m (member, delta)) s
  | _, _ => s

/-- ZREM. -/
def cmdZrem : Write := keyed (.atLeast 3) fun key r s =>
  shrink zsets r.now key (fun l => l.filter fun e => e.1 ∉ named r.args) s

/-- `range_by_rank`. -/
def rangeByRank (start stop : Int64) (rev : Bool) (l : List (Bytes × F64)) : List (Bytes × F64) :=
  let entries := if rev then (toPairsSorted l).reverse else toPairsSorted l
  let start := Nat.min (normalizeIdx start l.length) l.length
  let stop := normalizeIdx stop l.length
  if entries.length ≤ start || stop < start then []
  else (entries.take (Nat.min stop (entries.length - 1) + 1)).drop start

/-- `range_by_score`, with LIMIT. -/
def rangeByScore (min max : F64 × Bool) (rev : Bool) (offset : Nat) (count : Option Nat)
    (l : List (Bytes × F64)) : List (Bytes × F64) :=
  let entries := (toPairsSorted l).filter fun e =>
    (if min.2 then ltF64 min.1 e.2 else leF64 min.1 e.2) && (if max.2 then ltF64 e.2 max.1 else leF64 e.2 max.1)
  let entries := (if rev then entries.reverse else entries).drop offset
  match count with
  | some n => entries.take n
  | none => entries

/-- The pairs that stay when the pairs of a range are removed. -/
def without (range l : List (Bytes × F64)) : List (Bytes × F64) := l.filter fun e => e.1 ∉ range.map Prod.fst

/-- ZREMRANGEBYRANK. -/
def cmdZremrangebyrank : Write := keyed (.exactly 4) fun key r s =>
  match getI64 r.args 2, getI64 r.args 3 with
  | some start, some stop => shrink zsets r.now key (fun l => without (rangeByRank start stop false l) l) s
  | _, _ => s

/-- ZREMRANGEBYSCORE. -/
def cmdZremrangebyscore : Write := keyed (.exactly 4) fun key r s =>
  match (getStr r.args 2).bind (parseScoreBound m), (getStr r.args 3).bind (parseScoreBound m) with
  | some min, some max => shrink zsets r.now key (fun l => without (rangeByScore min max false 0 none l) l) s
  | _, _ => s

/-- What is left when `pop_extreme` has taken `n` pairs. -/
def popExtremes (max : Bool) (n : Nat) (l : List (Bytes × F64)) : List (Bytes × F64) :=
  if max then (toPairsSorted l).take (l.length - n) else (toPairsSorted l).drop n

/-- ZPOPMIN and ZPOPMAX. -/
def zpop (max : Bool) : Write := keyed (.atLeast 2) fun key r s =>
  match popCount r.args with
  | none => s
  | some n => shrink zsets r.now key (popExtremes max n) s

/-- ZPOPMIN. -/
def cmdZpopmin : Write := zpop false

/-- ZPOPMAX. -/
def cmdZpopmax : Write := zpop true

/-- A key of another type ends the search with an error. The timeout counts only when nothing was there. -/
def bzpop (max : Bool) : Write := fun r s =>
  if r.args.length < 3 then s
  else match getF64 m r.args (r.args.length - 1), blockingKeys r.args with
    | some _, some keys => shrinkFirst zsets r.now true (popExtremes max 1) keys s
    | _, _ => s

/-- BZPOPMIN. -/
def cmdBzpopmin : Write := bzpop m false

/-- BZPOPMAX. -/
def cmdBzpopmax : Write := bzpop m true

/-- `zmpop_once`, the counterpart of `lmpop_once`. -/
def zmpop (least idx : Nat) : Write := fun r s =>
  if r.args.length < least then s
  else match keysFrom r.args idx with
    | none => s
    | some (keys, rest) => match mpopTail "MIN" "MAX" rest with
      | none => s
      | some (min, count) => shrinkFirst zsets r.now false (popExtremes (!min) count) keys s

/-- ZMPOP. -/
def cmdZmpop : Write := zmpop 4 1

/-- BZMPOP, when it does not wait. -/
def cmdBzmpop : Write := fun r s =>
  if r.args.length < 5 then s
  else match getF64 m r.args 1 with
    | none => s
    | some _ => zmpop 5 2 r s

/-! ### Results that are stored -/

/-- How the scores of one member come together. -/
inductive Aggregate where
  | sum
  | min
  | max
deriving DecidableEq, Repr

/-- `apply_aggregate`. The first score is taken as it is. -/
def applyAggregate (agg : Aggregate) (existing : Option F64) (new : F64) : F64 :=
  match existing, agg with
  | none, _ => new
  | some e, .sum => m.add e new
  | some e, .min => m.min e new
  | some e, .max => m.max e new

/-- As many weights as there are keys. -/
def takeWeights : Nat → List Resp → Option (List F64 × List Resp)
  | 0, rest => some ([], rest)
  | _ + 1, [] => none
  | n + 1, a :: rest => match parseScore m a, takeWeights n rest with
    | some w, some (ws, rest) => some (w :: ws, rest)
    | _, _ => none

/-- The options behind the keys, at most `fuel` of them. -/
def aggregateWeights (numKeys : Nat) :
    (fuel : Nat) → (rest : List Resp) → List F64 → Aggregate → Option (List F64 × Aggregate)
  | _, [], weights, agg => some (weights, agg)
  | 0, _ :: _, _, _ => none
  | fuel + 1, a :: rest, weights, agg =>
    match a.asStr.map m.toUppercase with
    | some "WEIGHTS" => match takeWeights m numKeys rest with
      | some (ws, rest) => aggregateWeights numKeys fuel rest ws agg
      | none => none
    | some "AGGREGATE" => match (getStr rest 0).map m.toUppercase with
      | some "SUM" => aggregateWeights numKeys fuel (rest.drop 1) weights .sum
      | some "MIN" => aggregateWeights numKeys fuel (rest.drop 1) weights .min
      | some "MAX" => aggregateWeights numKeys fuel (rest.drop 1) weights .max
      | _ => none
    | _ => none

/-- WEIGHTS and AGGREGATE; weights that are not given are 1. -/
def parseAggregateWeights (numKeys : Nat) (rest : List Resp) : Option (List F64 × Aggregate) :=
  aggregateWeights m numKeys rest.length rest (List.replicate numKeys ⟨0x3FF0000000000000⟩) .sum

/-- The pairs of a key, if it holds a sorted set. -/
def zpairs (now : Nat) (s : Space) (key : Bytes) : Option (List (Bytes × F64)) :=
  (live now s key).bind fun e => zsets.contents e.value

/-- A key of another type counts as missing here. -/
def computeZunionResult (now : Nat) (s : Space) (agg : Aggregate) :
    (keys : List (Bytes × F64)) → (result : List (Bytes × F64)) → List (Bytes × F64)
  | [], result => result
  | (key, weight) :: keys, result =>
    computeZunionResult now s agg keys <|
      ((zpairs now s key).getD []).foldl
        (fun result e => put (e.1, applyAggregate m agg (result.lookup e.1) (m.mul e.2 weight)) result) result

/-- The sorted sets of the keys: refused, some key is missing, or all of them. -/
def zsources (now : Nat) (s : Space) : (keys : List Bytes) → Option (Option (List (List (Bytes × F64))))
  | [] => some (some [])
  | key :: keys => match live now s key with
    | none => some none
    | some e => match zsets.contents e.value with
      | none => none
      | some l => (zsources now s keys).map fun rest => rest.map (l :: ·)

/-- The score of a member in every set, combined from the first on. -/
def combined (agg : Aggregate) (member : Bytes) (acc : F64) : List (List (Bytes × F64) × F64) → Option F64
  | [] => some acc
  | (l, weight) :: rest => match l.lookup member with
    | none => none
    | some score => combined agg member (applyAggregate m agg (some acc) (m.mul score weight)) rest

/-- `compute_zinter_result`. -/
def computeZinterResult (now : Nat) (s : Space) (keys : List Bytes) (weights : List F64) (agg : Aggregate) :
    Option (List (Bytes × F64)) :=
  (zsources now s keys).map fun sources =>
    match sources.map (·.zip weights) with
    | none => []
    | some [] => []
    | some ((first, weight) :: rest) =>
      first.filterMap fun e => (combined m agg e.1 (m.mul e.2 weight) rest).map fun acc => (e.1, acc)

/-- Only the first key is refused when it is of another type. -/
def computeZdiffResult (now : Nat) (s : Space) : (keys : List Bytes) → Option (List (Bytes × F64))
  | [] => some []
  | first :: rest => match live now s first with
    | none => some []
    | some e => (zsets.contents e.value).map fun l =>
      l.filter fun x => ∀ key ∈ rest, x.1 ∉ ((zpairs now s key).getD []).map Prod.fst

/-- ZUNIONSTORE. -/
def cmdZunionstore : Write := keyed (.atLeast 4) fun dst r s =>
  match keysFrom r.args 2 with
  | none => s
  | some (keys, rest) => match parseAggregateWeights m keys.length rest with
    | none => s
    | some (weights, agg) => store zsets dst (computeZunionResult m r.now s agg (keys.zip weights) []) s

/-- ZINTERSTORE. -/
def cmdZinterstore : Write := keyed (.atLeast 4) fun dst r s =>
  match keysFrom r.args 2 with
  | none => s
  | some (keys, rest) => match parseAggregateWeights m keys.length rest with
    | none => s
    | some (weights, agg) => match computeZinterResult m r.now s keys weights agg with
      | none => s
      | some result => store zsets dst result s

/-- ZDIFFSTORE. -/
def cmdZdiffstore : Write := keyed (.atLeast 4) fun dst r s =>
  match keysFrom r.args 2 with
  | some (keys, []) => match computeZdiffResult r.now s keys with
    | none => s
    | some result => store zsets dst result s
  | _ => s

/-- The options of ZRANGESTORE. -/
structure RangeOptions where
  byscore : Bool := false
  bylex : Bool := false
  rev : Bool := false
  offset : Nat := 0
  count : Option Nat := none

/-- `BYSCORE | BYLEX`, `REV` and `LIMIT offset count`; a negative number is a large one. -/
def rangeOptions : (rest : List Resp) → RangeOptions → Option RangeOptions
  | [], opts => some opts
  | a :: rest, opts =>
    match a.asStr.map toAsciiUppercase with
    | some "BYSCORE" => rangeOptions rest { opts with byscore := true }
    | some "BYLEX" => rangeOptions rest { opts with bylex := true }
    | some "REV" => rangeOptions rest { opts with rev := true }
    | some "LIMIT" => match rest with
      | offset :: count :: rest => match getI64 [offset] 0, getI64 [count] 0 with
        | some offset, some count =>
          rangeOptions rest { opts with offset := offset.toUInt64.toNat, count := some count.toUInt64.toNat }
        | _, _ => none
      | _ => none
    | _ => none

/-- A lexicographic bound: none if it is the open end, and whether it is exclusive. -/
def lexBound (openEnd text : String) : Option Bytes × Bool :=
  (if text = openEnd then none
   else some (Utf8.asBytes (.ofList (text.toList.dropWhile fun c => c = '[' || c = '('))),
   text.toList.head? = some '(')

/-- `range_by_lex`, with LIMIT. -/
def rangeByLex (min max : Option Bytes × Bool) (rev : Bool) (offset : Nat) (count : Option Nat)
    (l : List (Bytes × F64)) : List (Bytes × F64) :=
  let entries := (l.mergeSort fun a b => a.1 ≤ b.1).filter fun e =>
    (min.1.all fun b => if min.2 then b < e.1 else b ≤ e.1) && (max.1.all fun b => if max.2 then e.1 < b else e.1 ≤ b)
  let entries := (if rev then entries.reverse else entries).drop offset
  match count with
  | some n => entries.take n
  | none => entries

/-- The pairs of the source that the two bounds select; none if a bound is not one. -/
def selected (opts : RangeOptions) (start stop : String) (l : List (Bytes × F64)) : Option (List (Bytes × F64)) :=
  if opts.byscore then
    match parseScoreBound m start, parseScoreBound m stop with
    | some min, some max => some (rangeByScore min max opts.rev opts.offset opts.count l)
    | _, _ => none
  else if opts.bylex then
    some (rangeByLex (lexBound "-" start) (lexBound "+" stop) opts.rev opts.offset opts.count l)
  else match Decimal.parseI64 start, Decimal.parseI64 stop with
    | some start, some stop => some (rangeByRank start stop opts.rev l)
    | _, _ => none

/-- A missing source gives an empty result, and that is stored. -/
def cmdZrangestore : Write := keyed (.atLeast 5) fun dst r s =>
  match getBytesVec r.args 2, getStr r.args 3, getStr r.args 4, rangeOptions (r.args.drop 5) {} with
  | some src, some start, some stop, some opts =>
    if opts.byscore && opts.bylex then s
    else match live r.now s src with
      | none => store zsets dst [] s
      | some e => match (zsets.contents e.value).bind (selected m opts start stop) with
        | none => s
        | some entries => store zsets dst entries s
  | _, _, _, _ => s

/-! ## Geo values -/

/-- The options of GEOADD. -/
structure GeoFlags where
  nx : Bool := false
  xx : Bool := false

/-- The flags in front of the first longitude; an argument that is no text ends them. -/
def geoFlags : (rest : List Resp) → GeoFlags → GeoFlags × List Resp
  | [], flags => (flags, [])
  | a :: rest, flags => match a.asStr.map m.toUppercase with
    | some "NX" => geoFlags rest { flags with nx := true }
    | some "XX" => geoFlags rest { flags with xx := true }
    | some "CH" => geoFlags rest flags
    | _ => (flags, a :: rest)

/-- The member as the geo commands take it: what is neither bytes nor text is the empty name. -/
def geoMember (a : Resp) : Bytes := (a.asBytes).getD (Utf8.asBytes (a.asStr.getD ""))

/-- `-180.0..=180.0` and `-85.051_129..=85.051_129`. -/
def inWorld (lon lat : F64) : Bool :=
  leF64 ⟨0xC066800000000000⟩ lon && leF64 lon ⟨0x4066800000000000⟩ &&
    leF64 ⟨0xC0554345B291B824⟩ lat && leF64 lat ⟨0x40554345B291B824⟩

/-- A point and its member. -/
def geoTriple (a b c : Resp) : Option (Bytes × GeoPoint) :=
  match a.asStr.bind m.parseF64, b.asStr.bind m.parseF64 with
  | some lon, some lat => if inWorld lon lat then some (geoMember c, ⟨lon, lat⟩) else none
  | _, _ => none

/-- GEOADD of one member, under the options. -/
def geoaddOne (flags : GeoFlags) (e : Bytes × GeoPoint) (l : List (Bytes × GeoPoint)) : List (Bytes × GeoPoint) :=
  if (l.lookup e.1).isSome then (if flags.nx then l else put e l) else if flags.xx then l else put e l

/-- GEOADD. -/
def cmdGeoadd : Write := fun r s =>
  if r.args.length < 5 then s
  else match strKey r.args with
    | none => s
    | some key =>
      let (flags, rest) := geoFlags m (r.args.drop 2) {}
      if rest.length % 3 ≠ 0 || flags.xx && (live r.now s key).isNone then s
      else getOrCreate geos r.now key (addAll (geoaddOne flags) (triples (geoTriple m) rest)) s

/-- The options of GEOSEARCHSTORE. -/
structure SearchOptions where
  asc : Bool := false
  desc : Bool := false
  count : Option Nat := none
  storedist : Bool := false

/-- The options behind the shape; an unknown one is passed over. -/
def searchOptions : (rest : List Resp) → SearchOptions → Option SearchOptions
  | [], opts => some opts
  | a :: rest, opts =>
    match m.toUppercase (a.asStr.getD "") with
    | "ASC" => searchOptions rest { opts with asc := true }
    | "DESC" => searchOptions rest { opts with desc := true }
    | "STOREDIST" => searchOptions rest { opts with storedist := true }
    | "COUNT" => match rest with
      | [] => some { opts with count := none }
      | n :: rest => searchOptions rest { opts with count := n.asStr.bind Decimal.parseUsize }
    | "WITHCOORD" => none
    | "WITHDIST" => none
    | "WITHHASH" => none
    | _ => searchOptions rest opts

/-- The center, and the position behind it. -/
def searchCenter (now : Nat) (s : Space) (key : Bytes) (args : List Resp) : Option (F64 × F64 × Nat) :=
  match m.upper args 3 with
  | some "FROMLONLAT" => match getF64 m args 4, getF64 m args 5 with
    | some lon, some lat => some (lon, lat, 6)
    | _, _ => none
  | some "FROMMEMBER" => match (live now s key).bind fun e => geos.contents e.value with
    | none => none
    | some l => ((args[4]?).bind fun a => l.lookup (geoMember a)).map fun p => (p.longitude, p.latitude, 5)
  | _ => none

/-- The radius in meters, the unit, and the position behind them. -/
def searchShape (args : List Resp) (idx : Nat) : Option (F64 × String × Nat) :=
  match m.upper args idx with
  | some "BYRADIUS" => match getF64 m args (idx + 1), getStr args (idx + 2) with
    | some radius, some unit => (m.toMeters radius unit).map fun rm => (rm, unit, idx + 3)
    | _, _ => none
  | some "BYBOX" => match getF64 m args (idx + 1), getF64 m args (idx + 2), getStr args (idx + 3) with
    | some w, some h, some unit => match m.toMeters w unit, m.toMeters h unit with
      | some wm, some hm => some (m.diagonal wm hm, unit, idx + 4)
      | _, _ => none
    | _, _, _ => none
  | _ => none

/-- The points within the radius, with their distances. -/
def hits (lon lat radius : F64) (l : List (Bytes × GeoPoint)) : List (Bytes × F64 × GeoPoint) :=
  (l.map fun e => (e.1, m.haversineM lon lat e.2.longitude e.2.latitude, e.2)).filter fun e => leF64 e.2.1 radius

/-- What was found, in the order and number that was asked for. -/
def arranged (opts : SearchOptions) (found : List (Bytes × F64 × GeoPoint)) : List (Bytes × F64 × GeoPoint) :=
  let found :=
    if opts.asc then found.mergeSort fun a b => !ltF64 b.2.1 a.2.1
    else if opts.desc then found.mergeSort fun a b => !ltF64 a.2.1 b.2.1
    else found
  match opts.count with
  | some n => found.take n
  | none => found

/-- GEOSEARCHSTORE. -/
def cmdGeosearchstore : Write := fun r s =>
  if r.args.length < 7 then s
  else match strKey r.args, (getStr r.args 2).map Utf8.asBytes with
    | some dest, some key => match searchCenter m r.now s key r.args with
      | none => s
      | some (lon, lat, idx) => match searchShape m r.args idx with
        | none => s
        | some (radius, unit, idx) => match searchOptions m (r.args.drop idx) {} with
          | none => s
          | some opts => match live r.now s key with
            | none => s.erase dest
            | some e => match geos.contents e.value with
              | none => s
              | some l =>
                let found := arranged opts (hits m lon lat radius l)
                if opts.storedist then store zsets dest (found.map fun e => (e.1, m.fromMeters e.2.1 unit)) s
                else store geos dest (found.map fun e => (e.1, e.2.2)) s
    | _, _ => s

/-! ## Commands on keys -/

/-- DEL and UNLINK, up to the first argument that is no key. -/
def delete : (rest : List Resp) → Space → Space
  | [], s => s
  | a :: rest, s => match a.toBytesVec with
    | none => s
    | some key => delete rest (s.erase key)

/-- DEL. -/
def cmdDel : Write := fun r s => delete (r.args.drop 1) s

/-- UNLINK. -/
def cmdUnlink : Write := fun r s => delete (r.args.drop 1) s

/-- The options of EXPIRE and its family. -/
structure ExpireFlags where
  nx : Bool := false
  xx : Bool := false
  gt : Bool := false
  lt : Bool := false

/-- The options are read to the end, and no two of them may be given. -/
def expireFlags : (rest : List Resp) → ExpireFlags → Option ExpireFlags
  | [], flags => if 1 < flags.nx.toNat + flags.xx.toNat + flags.gt.toNat + flags.lt.toNat then none else some flags
  | a :: rest, flags => match a.asStr.map m.toUppercase with
    | some "NX" => expireFlags rest { flags with nx := true }
    | some "XX" => expireFlags rest { flags with xx := true }
    | some "GT" => expireFlags rest { flags with gt := true }
    | some "LT" => expireFlags rest { flags with lt := true }
    | _ => none

/-- The condition of the flags; no deadline is the latest. -/
def ExpireFlags.holds (flags : ExpireFlags) (current : Option Nat) (target : Int) : Bool :=
  !(flags.nx && current.isSome) && !(flags.xx && current.isNone) &&
    !(flags.gt && current.all fun cur => target ≤ cur) && !(flags.lt && current.any fun cur => (cur : Int) ≤ target)

/-- The deadline, kept signed. -/
def expireTarget (millis absolute : Bool) (now : Nat) (val : Int64) : Int :=
  let unit : Int := if millis then 1 else 1000
  if absolute then val.toInt * unit else now + val.toInt * unit

/-- A deadline that has passed deletes the key. -/
def setExpire (millis absolute : Bool) : Write := keyed (.atLeast 3) fun key r s =>
  match getI64 r.args 2, expireFlags m (r.args.drop 3) {} with
  | some val, some flags =>
    let target := expireTarget millis absolute r.now val
    match live r.now s key with
    | none => s
    | some e =>
      if !flags.holds e.expiry target then s
      else if target ≤ r.now then s.erase key
      else s.insert key { e with expiry := some (Nat.min target.toNat (2 ^ 64 - 1)) }
  | _, _ => s

/-- EXPIRE. -/
def cmdExpire : Write := setExpire m false false

/-- PEXPIRE. -/
def cmdPexpire : Write := setExpire m true false

/-- EXPIREAT. -/
def cmdExpireat : Write := setExpire m false true

/-- PEXPIREAT. -/
def cmdPexpireat : Write := setExpire m true true

/-- PERSIST. -/
def cmdPersist : Write := keyed (.exactly 2) fun key r s =>
  match live r.now s key with
  | none => s
  | some e => s.insert key { e with expiry := none }

/-- `ShardedDatabase::rename`. It removes the source whether it is expired or not. -/
def rename (src dst : Bytes) (s : Space) : Space :=
  match s.lookup src with
  | none => s
  | some e => (s.erase src).insert dst e

/-- RENAME. -/
def cmdRename : Write := keyed (.exactly 3) fun src r s =>
  match getBytesVec r.args 2 with
  | none => s
  | some dst => rename src dst s

/-- RENAMENX. -/
def cmdRenamenx : Write := keyed (.exactly 3) fun src r s =>
  match getBytesVec r.args 2 with
  | none => s
  | some dst => if (live r.now s dst).isSome then s else rename src dst s

/-- COPY. -/
def cmdCopy : Write := keyed (.atLeast 3) fun src r s =>
  match getBytesVec r.args 2 with
  | none => s
  | some dst =>
    let replace := r.args.any fun a => (a.asStr.map (eqIgnoreAsciiCase · "REPLACE")).getD false
    if !replace && (live r.now s dst).isSome then s
    else match live r.now s src with
      | none => s
      | some e => s.insert dst e

/-- Whether REPLACE and ABSTTL are there. -/
def restoreOptions : (rest : List Resp) → (replace absttl : Bool) → Option (Bool × Bool)
  | [], replace, absttl => some (replace, absttl)
  | a :: rest, replace, absttl => match a.asStr.map m.toUppercase with
    | some "REPLACE" => restoreOptions rest true absttl
    | some "ABSTTL" => restoreOptions rest replace true
    | some "IDLETIME" | some "FREQ" => match rest with
      | [] => some (replace, absttl)
      | _ :: rest => restoreOptions rest replace absttl
    | _ => none

/-- `NEXD`, the first bytes of a dumped value. -/
def DUMP_MAGIC : Bytes := [78, 69, 88, 68]

/-- The version byte behind them. -/
def DUMP_VERSION : UInt8 := 1

/-- The value of a payload that DUMP could have written. -/
def restored (payload : Bytes) : Option Value :=
  if payload.take 4 = DUMP_MAGIC && payload[4]? = some DUMP_VERSION then m.decode (payload.drop 5) else none

/-- The deadline of RESTORE, none if it is refused. -/
def restoreDeadline (now : Nat) (ttl : Int64) (absttl : Bool) : Option (Option Nat) :=
  if ttl < 0 then none
  else if ttl = 0 && !absttl then some none
  else
    let deadline := if absttl then ttl.toInt.toNat else now + ttl.toInt.toNat
    if deadline ≤ now then none else some (some deadline)

/-- RESTORE. What decodes a payload is a parameter. -/
def cmdRestore : Write := keyed (.atLeast 4) fun key r s =>
  match getI64 r.args 2, r.args[3]?.bind Resp.asBytes, restoreOptions m (r.args.drop 4) false false with
  | some ttl, some payload, some (replace, absttl) =>
    match restored m payload, restoreDeadline r.now ttl absttl with
    | some value, some deadline =>
      if !replace && (live r.now s key).isSome then s else s.insert key ⟨value, deadline⟩
    | _, _ => s
  | _, _, _ => s

/-- The elements SORT sorts. -/
def sortItems (v : Value) : Option (List Bytes) :=
  match lists.contents v with
  | some items => some items
  | none => sets.contents v

/-- With STORE an empty result deletes the destination. -/
def cmdSort : Write := keyed (.atLeast 2) fun key r s =>
  match (live r.now s key).bind fun e => sortItems e.value with
  | none => s
  | some items => match sortOptions m.toEnv true (r.args.drop 2) none with
    | .ok (some dst) =>
      let page := m.sorted r.args s items
      if page.isEmpty then s.erase dst else store lists dst page s
    | _ => s

/-- FLUSHDB. -/
def cmdFlushdb : Write := fun _ _ => ∅

/-! ## The dispatcher -/

/-- The commands whose handlers write collections or whole keys. -/
inductive Command where
  | lpush | rpush | lpushx | rpushx | lpop | rpop | lset | linsert | lrem | ltrim | lmove | rpoplpush | blpop
  | brpop | blmove | lmpop | blmpop
  | hset | hmset | hdel | hsetnx | hincrby | hincrbyfloat
  | sadd | srem | sunionstore | sinterstore | sdiffstore | smove | spop
  | zadd | zincrby | zrem | zremrangebyrank | zremrangebyscore | zpopmin | zpopmax | zunionstore | zinterstore
  | zrangestore | zdiffstore | zmpop | bzmpop | bzpopmin | bzpopmax
  | del | unlink | expire | pexpire | expireat | pexpireat | persist | rename | renamenx | copy | restore | sort
  | flushdb
  | geoadd | geosearchstore
deriving DecidableEq, Repr

/-- Their names in the table of `dispatch_inner`. -/
def commandNames : List (String × Command) :=
  [("LPUSH", .lpush), ("RPUSH", .rpush), ("LPUSHX", .lpushx), ("RPUSHX", .rpushx), ("LPOP", .lpop), ("RPOP", .rpop),
   ("LSET", .lset), ("LINSERT", .linsert), ("LREM", .lrem), ("LTRIM", .ltrim), ("LMOVE", .lmove),
   ("RPOPLPUSH", .rpoplpush), ("BLPOP", .blpop), ("BRPOP", .brpop), ("BLMOVE", .blmove), ("LMPOP", .lmpop),
   ("BLMPOP", .blmpop), ("HSET", .hset), ("HMSET", .hmset), ("HDEL", .hdel), ("HSETNX", .hsetnx),
   ("HINCRBY", .hincrby), ("HINCRBYFLOAT", .hincrbyfloat), ("SADD", .sadd), ("SREM", .srem),
   ("SUNIONSTORE", .sunionstore), ("SINTERSTORE", .sinterstore), ("SDIFFSTORE", .sdiffstore), ("SMOVE", .smove),
   ("SPOP", .spop), ("ZADD", .zadd), ("ZINCRBY", .zincrby), ("ZREM", .zrem),
   ("ZREMRANGEBYRANK", .zremrangebyrank), ("ZREMRANGEBYSCORE", .zremrangebyscore), ("ZPOPMIN", .zpopmin),
   ("ZPOPMAX", .zpopmax), ("ZUNIONSTORE", .zunionstore), ("ZINTERSTORE", .zinterstore),
   ("ZRANGESTORE", .zrangestore), ("ZDIFFSTORE", .zdiffstore), ("ZMPOP", .zmpop), ("BZMPOP", .bzmpop),
   ("BZPOPMIN", .bzpopmin), ("BZPOPMAX", .bzpopmax), ("DEL", .del), ("UNLINK", .unlink), ("EXPIRE", .expire),
   ("PEXPIRE", .pexpire), ("EXPIREAT", .expireat), ("PEXPIREAT", .pexpireat), ("PERSIST", .persist),
   ("RENAME", .rename), ("RENAMENX", .renamenx), ("COPY", .copy), ("RESTORE", .restore), ("SORT", .sort),
   ("FLUSHDB", .flushdb), ("GEOADD", .geoadd), ("GEOSEARCHSTORE", .geosearchstore)]

/-- Their handlers. -/
def Command.run : Command → Write
  | .lpush => cmdLpush
  | .rpush => cmdRpush
  | .lpushx => cmdLpushx
  | .rpushx => cmdRpushx
  | .lpop => cmdLpop
  | .rpop => cmdRpop
  | .lset => cmdLset
  | .linsert => cmdLinsert m
  | .lrem => cmdLrem
  | .ltrim => cmdLtrim
  | .lmove => cmdLmove m
  | .rpoplpush => cmdRpoplpush
  | .blpop => cmdBlpop m
  | .brpop => cmdBrpop m
  | .blmove => cmdBlmove m
  | .lmpop => cmdLmpop
  | .blmpop => cmdBlmpop m
  | .hset => cmdHset
  | .hmset => cmdHmset
  | .hdel => cmdHdel
  | .hsetnx => cmdHsetnx
  | .hincrby => cmdHincrby
  | .hincrbyfloat => cmdHincrbyfloat m
  | .sadd => cmdSadd
  | .srem => cmdSrem
  | .sunionstore => cmdSunionstore
  | .sinterstore => cmdSinterstore
  | .sdiffstore => cmdSdiffstore
  | .smove => cmdSmove
  | .spop => cmdSpop
  | .zadd => cmdZadd m
  | .zincrby => cmdZincrby m
  | .zrem => cmdZrem
  | .zremrangebyrank => cmdZremrangebyrank
  | .zremrangebyscore => cmdZremrangebyscore m
  | .zpopmin => cmdZpopmin
  | .zpopmax => cmdZpopmax
  | .zunionstore => cmdZunionstore m
  | .zinterstore => cmdZinterstore m
  | .zrangestore => cmdZrangestore m
  | .zdiffstore => cmdZdiffstore
  | .zmpop => cmdZmpop
  | .bzmpop => cmdBzmpop m
  | .bzpopmin => cmdBzpopmin m
  | .bzpopmax => cmdBzpopmax m
  | .del => cmdDel
  | .unlink => cmdUnlink
  | .expire => cmdExpire m
  | .pexpire => cmdPexpire m
  | .expireat => cmdExpireat m
  | .pexpireat => cmdPexpireat m
  | .persist => cmdPersist
  | .rename => cmdRename
  | .renamenx => cmdRenamenx
  | .copy => cmdCopy
  | .restore => cmdRestore m
  | .sort => cmdSort m
  | .flushdb => cmdFlushdb
  | .geoadd => cmdGeoadd m
  | .geosearchstore => cmdGeosearchstore m

/-- The commands whose handlers write strings, integers, bitmaps, HyperLogLogs and streams. -/
def plainCommands : List String :=
  ["SET", "GETSET", "GETDEL", "GETEX", "MSET", "MSETNX", "SETNX", "SETEX", "PSETEX", "INCR", "INCRBY",
   "INCRBYFLOAT", "DECR", "DECRBY", "APPEND", "SETRANGE", "XADD", "XTRIM", "XDEL", "XGROUP", "XREADGROUP", "XACK",
   "XCLAIM", "XAUTOCLAIM", "XSETID", "SETBIT", "BITOP", "BITFIELD", "PFADD", "PFMERGE"]

/-- Every command that counts as a write is one of these. -/
example : writeCommands.all (fun name => (commandNames.lookup name).isSome || plainCommands.contains name ||
    name = "MOVE" || name = "FLUSHALL") = true := by decide +kernel

/-- What another command does to a key: drop it, give it a deadline, or write a value that is no collection. -/
def touch (t : Bytes × Touch) (s : Space) : Space :=
  match t.2 with
  | .drop => s.erase t.1
  | .expireAt deadline => match s.lookup t.1 with
    | none => s
    | some e => s.insert t.1 { e with expiry := deadline }
  | .write v deadline => s.insert t.1 ⟨.plain v, deadline⟩

/-- All databases. -/
abbrev Databases := Nat → Space

/-- The entry leaves its database first, and is put back when the target has the key. -/
def cmdMove (r : Request) (d : Databases) : Databases :=
  if r.args.length ≠ 3 then d
  else match getBytesVec r.args 1, getI64 r.args 2 with
    | some key, some target =>
      if target < 0 || m.dbCount ≤ target.toInt.toNat || target.toInt.toNat = r.db then d
      else match (d r.db).lookup key with
        | none => d
        | some e =>
          if (live r.now (d target.toInt.toNat) key).isSome then
            Function.update d r.db (((d r.db).erase key).insert key e)
          else
            Function.update (Function.update d r.db ((d r.db).erase key)) target.toInt.toNat
              ((d target.toInt.toNat).insert key e)
    | _, _ => d

/-- A dispatched command. The commands of no list only look. -/
def dispatch (r : Request) (d : Databases) : Databases :=
  match commandNames.lookup r.name with
  | some c => Function.update d r.db (c.run m r (d r.db))
  | none =>
    if r.name = "MOVE" then cmdMove m r d
    else if r.name = "FLUSHALL" then fun _ => ∅
    else if plainCommands.contains r.name then
      Function.update d r.db ((m.touches r (d r.db)).foldl (fun s t => touch t s) (d r.db))
    else d

/-- A request, or a key that expires or is evicted. -/
inductive Event where
  | request (r : Request)
  /-- Eviction, and the deletion of what has expired. -/
  | gone (db : Nat) (key : Bytes)

/-- One event. -/
def step : Event → Databases → Databases
  | .request r, d => dispatch m r d
  | .gone db key, d => Function.update d db ((d db).erase key)

end NexradeCache.Collections
