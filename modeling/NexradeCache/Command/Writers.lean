import NexradeCache.Command.Collections
import NexradeCache.Command.Dispatch

/-!
# The keys of the handlers that write (`nexrade-core/src/command/*.rs`)

Where each of these handlers takes its keys from, argument by argument. What it does with them (the
order of its accesses, the values it writes, the reply) is left open in `Effects`: a handler looks at
its keys and operates on them, each step chosen from the answers of the steps before, and on nothing
else.
-/

namespace NexradeCache

/-- The byte strings or texts in front of the first argument that is neither. -/
def leadingKeys : List Resp → List Bytes
  | [] => []
  | a :: rest => match a.toBytesVec with
    | none => []
    | some key => key :: leadingKeys rest

/-- MSET: the first argument of each pair. -/
def pairKeys : List Resp → Option (List Bytes)
  | a :: _ :: rest => match a.asBytes, pairKeys rest with
    | some key, some keys => some (key :: keys)
    | _, _ => none
  | _ => some []

def textAt (args : List Resp) (i : Nat) : Option Bytes := (getStr args i).map Utf8.asBytes

/-- How a handler takes its keys. -/
inductive KeyParser where
  /-- `as_bytes` of the first argument. -/
  | firstBytes
  | first
  /-- `get_str` of the first argument. -/
  | firstText
  | second
  | both
  | bothText
  /-- MSET and MSETNX. -/
  | pairs
  /-- Every argument, parsed where the loop gets to it. -/
  | loop
  /-- Every argument from a position on, parsed before the first access. -/
  | all (start : Nat)
  /-- A destination, then the loop. -/
  | destLoop
  /-- A destination, then `numkeys` and the keys. -/
  | destNumkeys
  | numkeys (idx : Nat)
  /-- All arguments but the last, which is the timeout. -/
  | between
  /-- XREADGROUP: the first half of what is behind STREAMS. -/
  | streams
deriving DecidableEq, Repr

/-- What a handler does to one key. -/
inductive KeyOp where
  | get
  | insert (entry : FreshEntry)
  | setPlain (value : Bytes)
  | getMut (edit : Option FreshValue)
  | getOrInsertWith (fresh : FreshEntry) (edit : Option FreshValue)
  | incrInt (delta : Int64)
  | incrIntLocked (delta : Int64)
  | remove
  | setExpiry (expiry : Option Nat)

/-- The operation at a key. -/
def KeyOp.on (key : Bytes) : KeyOp → ClientOp
  | .get => ⟨.get key, rfl⟩
  | .insert entry => ⟨.insert key entry, rfl⟩
  | .setPlain value => ⟨.setPlain key value, StoreOp.client_setPlain key value⟩
  | .getMut edit => ⟨.getMut key edit, rfl⟩
  | .getOrInsertWith fresh edit => ⟨.getOrInsertWith key fresh edit, rfl⟩
  | .incrInt delta => ⟨.incrInt key delta, rfl⟩
  | .incrIntLocked delta => ⟨.incrIntLocked key delta, rfl⟩
  | .remove => ⟨.remove key, StoreOp.client_remove key⟩
  | .setExpiry expiry => ⟨.setExpiry key expiry, rfl⟩

theorem KeyOp.keys_on (key : Bytes) (op : KeyOp) : (op.on key).1.keys = {key} := by
  cases op <;> rfl

/-- The next step of a handler: its keys are numbered as it has parsed them. MOVE goes to another
database. -/
inductive Act where
  | reply (r : Resp)
  | look (lock : Lock) (db i : Nat)
  | call (db i : Nat) (op : KeyOp)
  | rename (i j : Nat)
  | copyEntry (i j : Nat) (replace : Bool)

/-- What the writers do besides taking their keys from the arguments: the errors, the operations they make, and
their replies. -/
structure Effects where
  toUppercase : String → String
  /-- The error of an argument that is found before the keys are used. -/
  refuse : (name : String) → (args : List Resp) → Option Resp
  act : (name : String) → (db : Nat) → (args : List Resp) → (keys : List Bytes) → (seen : List Answer) → Act
  /-- How many steps there are at most, and the reply behind the last. -/
  rounds : Nat
  last : (name : String) → (args : List Resp) → (seen : List Answer) → Resp
  bitOp : (args : List Resp) → (i : Nat) → Option Content → Option KeyOp
  sortStore : (rows : List Resp) → KeyOp
  /-- SAVE, BGSAVE and BGREWRITEAOF. -/
  saved : (name : String) → (args : List Resp) → Resp

namespace Effects

variable (fx : Effects)

/-- The options of XREADGROUP up to STREAMS; one that is not known is passed over. -/
def groupOptions (args : List Resp) : (fuel i : Nat) → Option Nat
  | 0, i => some i
  | fuel + 1, i =>
    if args.length ≤ i then some i
    else match (getStr args i).map fx.toUppercase with
      | none => none
      | some opt =>
        if opt = "COUNT" || opt = "BLOCK" then groupOptions args fuel (i + 2)
        else if opt = "STREAMS" then some (i + 1)
        else groupOptions args fuel (i + 1)

def keys (args : List Resp) : KeyParser → Option (List Bytes)
  | .firstBytes => (args[1]?.bind Resp.asBytes).map fun key => [key]
  | .first => (getBytesVec args 1).map fun key => [key]
  | .firstText => (textAt args 1).map fun key => [key]
  | .second => (getBytesVec args 2).map fun key => [key]
  | .both => match getBytesVec args 1, getBytesVec args 2 with
    | some src, some dst => some [src, dst]
    | _, _ => none
  | .bothText => match textAt args 1, textAt args 2 with
    | some dest, some key => some [dest, key]
    | _, _ => none
  | .pairs => pairKeys (args.drop 1)
  | .loop => some (leadingKeys (args.drop 1))
  | .all start => parseKeys (args.drop start)
  | .destLoop => (getBytesVec args 1).map fun dst => dst :: leadingKeys (args.drop 2)
  | .destNumkeys => match getBytesVec args 1, Collections.keysFrom args 2 with
    | some dst, some (keys, _) => some (dst :: keys)
    | _, _ => none
  | .numkeys idx => (Collections.keysFrom args idx).map Prod.fst
  | .between => Collections.blockingKeys args
  | .streams => (fx.groupOptions args args.length 4).bind fun i =>
    parseKeys ((args.drop i).take ((args.length - i) / 2))

/-- The steps of a handler on its keys. -/
def steps (name : String) (db : Nat) (args : List Resp) (keys : List Bytes) :
    (fuel : Nat) → (seen : List Answer) → Handler
  | 0, seen => .done (fx.last name args seen)
  | fuel + 1, seen =>
    match fx.act name db args keys seen with
    | .reply r => .done r
    | .look lock index i => match keys[i]? with
      | none => .done (fx.last name args seen)
      | some key => .lookup lock index key fun c => steps name db args keys fuel (seen ++ [.value c])
    | .call index i op => match keys[i]? with
      | none => .done (fx.last name args seen)
      | some key => .call index (op.on key) fun a => steps name db args keys fuel (seen ++ [a])
    | .rename i j => match keys[i]?, keys[j]? with
      | some src, some dst => .call db ⟨.rename src dst, rfl⟩ fun a => steps name db args keys fuel (seen ++ [a])
      | _, _ => .done (fx.last name args seen)
    | .copyEntry i j replace => match keys[i]?, keys[j]? with
      | some src, some dst =>
        .call db ⟨.copyEntry src dst replace, rfl⟩ fun a => steps name db args keys fuel (seen ++ [a])
      | _, _ => .done (fx.last name args seen)

def writer (name : String) (p : KeyParser) : Cmd := fun db args =>
  match fx.refuse name args with
  | some error => .done error
  | none => match fx.keys args p with
    | none => .done (wrongArity (toAsciiLowercase name))
    | some keys => fx.steps name db args keys fx.rounds []

end Effects

/-- The handlers of the table, with the way they take their keys. -/
def writeParsers : List (String × KeyParser) :=
  [("SET", .firstBytes), ("GETSET", .first), ("GETDEL", .first), ("GETEX", .first), ("MSET", .pairs),
   ("MSETNX", .pairs), ("SETNX", .first), ("SETEX", .first), ("PSETEX", .first), ("INCR", .first),
   ("INCRBY", .first), ("INCRBYFLOAT", .first), ("DECR", .first), ("DECRBY", .first), ("APPEND", .first),
   ("SETRANGE", .first), ("LPUSH", .firstBytes), ("RPUSH", .firstBytes), ("LPUSHX", .firstBytes),
   ("RPUSHX", .firstBytes), ("LPOP", .first), ("RPOP", .first), ("LSET", .first), ("LINSERT", .first),
   ("LREM", .first), ("LTRIM", .first), ("LMOVE", .both), ("BLMOVE", .both), ("RPOPLPUSH", .both),
   ("BLPOP", .between), ("BRPOP", .between), ("LMPOP", .numkeys 1), ("BLMPOP", .numkeys 2), ("HSET", .first),
   ("HMSET", .first), ("HDEL", .first), ("HSETNX", .first), ("HINCRBY", .first), ("HINCRBYFLOAT", .first),
   ("SADD", .first), ("SREM", .first), ("SUNIONSTORE", .destLoop), ("SINTERSTORE", .destLoop),
   ("SDIFFSTORE", .destLoop), ("SMOVE", .both), ("SPOP", .first), ("ZADD", .first), ("ZINCRBY", .first),
   ("ZREM", .first), ("ZREMRANGEBYRANK", .first), ("ZREMRANGEBYSCORE", .first), ("ZPOPMIN", .first),
   ("ZPOPMAX", .first), ("BZPOPMIN", .between), ("BZPOPMAX", .between), ("ZUNIONSTORE", .destNumkeys),
   ("ZINTERSTORE", .destNumkeys), ("ZRANGESTORE", .both), ("ZMPOP", .numkeys 1), ("BZMPOP", .numkeys 2),
   ("ZDIFFSTORE", .destNumkeys), ("DEL", .loop), ("UNLINK", .loop), ("EXPIRE", .first), ("PEXPIRE", .first),
   ("EXPIREAT", .first), ("PEXPIREAT", .first), ("PERSIST", .first), ("RENAME", .both), ("RENAMENX", .both),
   ("COPY", .both), ("MOVE", .first), ("RESTORE", .first), ("XADD", .first), ("XTRIM", .first), ("XDEL", .first),
   ("XGROUP", .second), ("XREADGROUP", .streams), ("XACK", .first), ("XCLAIM", .first), ("XAUTOCLAIM", .first),
   ("XSETID", .first), ("SETBIT", .first), ("BITOP", .all 2), ("GEOADD", .firstText),
   ("GEOSEARCHSTORE", .bothText), ("PFADD", .first), ("PFMERGE", .all 1)]

/-- Flush one database after the other. -/
def flushEach : (dbs : List Nat) → Handler
  | [] => .done (.simpleString "OK")
  | db :: dbs => .call db ⟨.flush, rfl⟩ fun _ => flushEach dbs

/-- FLUSHDB and FLUSHALL are what the table does not have. -/
def Effects.write (fx : Effects) (name : String) : Cmd :=
  match writeParsers.lookup name with
  | some p => fx.writer name p
  | none => if name = "FLUSHALL" then fun _ _ => .look fun s => flushEach (List.range s.dbs.length)
    else fun db _ => flushEach [db]

/-- The environment with these handlers. -/
def Env.withWriters (env : Env) (fx : Effects) : Env :=
  { env with
    toUppercase := fx.toUppercase
    write := fx.write
    bitOp := fun args i c => (getBytesVec args 1).bind fun key => (fx.bitOp args i c).map fun op => op.on key
    sortStore := fun dst rows => (fx.sortStore rows).on dst
    report := fun name args s =>
      if ["save", "bgsave", "bgrewriteaof"].contains name then fx.saved name args else env.report name args s }

end NexradeCache
