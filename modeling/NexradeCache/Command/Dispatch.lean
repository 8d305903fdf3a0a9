import NexradeCache.Command.Readers

/-!
# The dispatcher (`dispatch_inner` of `nexrade-core/src/command/mod.rs`)

The table from names to handlers, and the list of the commands that count as writes. The handlers of
those are left open here; `dispatchInner_sameLive` is about the others: none of them changes what
clients see of the store.
-/

namespace NexradeCache

/-- The names that `is_write_command` matches. Aliases that are not in it, such as SUBSTR, are commands that only
look. -/
def writeCommands : List String :=
  ["SET", "GETSET", "GETDEL", "GETEX", "MSET", "MSETNX", "SETNX", "SETEX", "PSETEX", "INCR", "INCRBY",
   "INCRBYFLOAT", "DECR", "DECRBY", "APPEND", "SETRANGE", "LPUSH", "RPUSH", "LPUSHX", "RPUSHX", "LPOP", "RPOP",
   "LSET", "LINSERT", "LREM", "LTRIM", "LMOVE", "RPOPLPUSH", "BLPOP", "BRPOP", "BLMOVE", "LMPOP", "BLMPOP",
   "HSET", "HMSET", "HDEL", "HSETNX", "HINCRBY", "HINCRBYFLOAT", "SADD", "SREM", "SUNIONSTORE", "SINTERSTORE",
   "SDIFFSTORE", "SMOVE", "SPOP", "ZADD", "ZINCRBY", "ZREM", "ZREMRANGEBYRANK", "ZREMRANGEBYSCORE", "ZPOPMIN",
   "ZPOPMAX", "ZUNIONSTORE", "ZINTERSTORE", "ZRANGESTORE", "ZDIFFSTORE", "ZMPOP", "BZMPOP", "BZPOPMIN",
   "BZPOPMAX", "DEL", "UNLINK", "EXPIRE", "PEXPIRE", "EXPIREAT", "PEXPIREAT", "PERSIST", "RENAME", "RENAMENX",
   "COPY", "MOVE", "RESTORE", "SORT", "FLUSHDB", "FLUSHALL", "XADD", "XTRIM", "XDEL", "XGROUP", "XREADGROUP",
   "XACK", "XCLAIM", "XAUTOCLAIM", "XSETID", "SETBIT", "BITOP", "BITFIELD", "GEOADD", "GEOSEARCHSTORE", "PFADD",
   "PFMERGE"]

/-- Whether a command counts as a write: it takes a permit, is logged, is replicated and is refused on a replica. -/
def isWriteCommand (cmd : String) : Bool := writeCommands.contains cmd

/-- These take their permit at the mutation, not while they wait. -/
def isBlockingWriteCommand (cmd : String) : Bool :=
  ["BLPOP", "BRPOP", "BLMOVE", "BLMPOP", "BZMPOP", "BZPOPMIN", "BZPOPMAX", "XREADGROUP"].contains cmd

/-! ## Keys -/

/-- The commands whose only key is the first argument. -/
def singleKeyCommands : List String :=
  ["GET", "GETSET", "GETDEL", "GETEX", "SET", "SETNX", "SETEX", "PSETEX", "STRLEN", "GETRANGE", "SETRANGE",
   "APPEND", "INCR", "INCRBY", "INCRBYFLOAT", "DECR", "DECRBY", "EXPIRE", "PEXPIRE", "EXPIREAT", "PEXPIREAT",
   "EXPIRETIME", "PEXPIRETIME", "TTL", "PTTL", "PERSIST", "DUMP", "RESTORE", "TYPE", "OBJECT", "RENAMENX",
   "TOUCH", "MOVE", "BITCOUNT", "BITPOS", "GETBIT", "SETBIT", "BITFIELD", "LPUSH", "LPUSHX", "RPUSH", "RPUSHX",
   "LPOP", "RPOP", "LLEN", "LRANGE", "LINDEX", "LINSERT", "LSET", "LREM", "LTRIM", "LMPOP", "BLMPOP", "HSET",
   "HMSET", "HGET", "HMGET", "HDEL", "HEXISTS", "HGETALL", "HKEYS", "HVALS", "HLEN", "HSETNX", "HINCRBY",
   "HINCRBYFLOAT", "HSCAN", "HRANDFIELD", "SADD", "SREM", "SISMEMBER", "SMISMEMBER", "SMEMBERS", "SCARD",
   "SRANDMEMBER", "SPOP", "SSCAN", "SMOVE", "ZADD", "ZREM", "ZSCORE", "ZMSCORE", "ZINCRBY", "ZCARD", "ZCOUNT",
   "ZLEXCOUNT", "ZRANGE", "ZRANGEBYSCORE", "ZRANGEBYLEX", "ZREVRANGE", "ZREVRANGEBYSCORE", "ZRANK", "ZREVRANK",
   "ZPOPMIN", "ZPOPMAX", "ZRANDMEMBER", "ZSCAN", "ZREMRANGEBYRANK", "ZREMRANGEBYSCORE", "PFADD", "PFCOUNT",
   "PFMERGE", "GEOADD", "GEOPOS", "GEODIST", "GEOHASH", "XADD", "XLEN", "XRANGE", "XREVRANGE", "XTRIM", "XDEL",
   "XGROUP", "XACK", "XPENDING", "XCLAIM", "XAUTOCLAIM", "XSETID", "WAIT", "BZPOPMIN", "BZPOPMAX",
   "BITFIELD_RO"]

/-- Where the keys of a command stand: the first position, the stride, how many there are. -/
def keySpec (cmd : String) : Option (Nat × Nat × Option Nat) :=
  if singleKeyCommands.contains cmd then some (1, 0, some 1)
  else if cmd = "XINFO" then some (2, 0, some 1)
  else if ["DEL", "UNLINK", "EXISTS", "MGET"].contains cmd then some (1, 1, none)
  else if ["MSET", "MSETNX"].contains cmd then some (1, 2, none)
  else if ["RENAME", "COPY", "LMOVE", "BLMOVE", "LCS", "GEOSEARCHSTORE"].contains cmd then some (1, 1, some 2)
  else if ["BITOP", "ZUNIONSTORE", "ZINTERSTORE", "ZDIFFSTORE", "ZRANGESTORE", "ZUNION", "ZINTER", "ZDIFF", "ZMPOP",
      "BZMPOP", "ZINTERCARD", "SINTERCARD"].contains cmd then some (2, 1, none)
  else none

/-- The byte strings at the positions of a specification. -/
def keysAt (args : List Resp) (stride : Nat) : (fuel idx : Nat) → (limit : Option Nat) → List Bytes
  | 0, _, _ => []
  | fuel + 1, idx, limit =>
    if args.length ≤ idx then []
    else
      let key := (args[idx]?.bind Resp.asBytes).toList
      match limit with
      | some (n + 1) => if n = 0 then key else key ++ keysAt args stride fuel (idx + (1 + (stride - 1))) (some n)
      | some 0 => key
      | none => key ++ keysAt args stride fuel (idx + (1 + (stride - 1))) none

/-- The keys of a command, read off its arguments by position. What the table does not know has none. -/
def extractKeys (cmd : String) (args : List Resp) : List Bytes :=
  match keySpec cmd with
  | none => []
  | some (start, stride, count) => keysAt args stride args.length start count

variable (env : Env)

/-! ## The handlers that only look -/

/-- GET takes bytes only. -/
def cmdGet : Cmd := oneKey env "get" (.exactly 2) .read fun args => args[1]?.bind Resp.asBytes

/-- MGET takes its keys one by one, each under its own lock. -/
def cmdMget : Cmd := eachArg env "mget" .read

/-- STRLEN takes texts and numbers as keys. -/
def cmdStrlen : Cmd := readKey env "strlen" (.exactly 2)

/-- GETRANGE, and SUBSTR under the older name. -/
def cmdGetrange : Cmd := readKey env "getrange" (.exactly 4)

/-- LCS reads both keys before it looks at either. -/
def cmdLcs : Cmd := someKeys env "lcs" (.atLeast 3) .read fun args => parseKeys ((args.drop 1).take 2)

/-- LLEN. -/
def cmdLlen : Cmd := readKey env "llen" (.exactly 2)

/-- LRANGE takes bytes only. -/
def cmdLrange : Cmd := oneKey env "lrange" (.exactly 4) .read fun args => args[1]?.bind Resp.asBytes

def cmdLindex : Cmd := readKey env "lindex" (.exactly 3)

/-- LPOS reads its options after the key. -/
def cmdLpos : Cmd := readKey env "lpos" (.atLeast 3)

def cmdHget : Cmd := readKey env "hget" (.exactly 3)

def cmdHmget : Cmd := readKey env "hmget" (.atLeast 3)

def cmdHexists : Cmd := readKey env "hexists" (.exactly 3)

def cmdHgetall : Cmd := readKey env "hgetall" (.exactly 2)

def cmdHkeys : Cmd := readKey env "hkeys" (.exactly 2)

def cmdHvals : Cmd := readKey env "hvals" (.exactly 2)

def cmdHlen : Cmd := readKey env "hlen" (.exactly 2)

/-- HSCAN walks the fields of one key. -/
def cmdHscan : Cmd := readKey env "hscan" (.atLeast 3)

/-- HRANDFIELD looks with `get`, which drops an expired key. -/
def cmdHrandfield : Cmd := getKey env "hrandfield" (.atLeast 2)

def cmdSismember : Cmd := readKey env "sismember" (.exactly 3)

def cmdSmismember : Cmd := readKey env "smismember" (.atLeast 3)

def cmdSmembers : Cmd := readKey env "smembers" (.exactly 2)

def cmdScard : Cmd := readKey env "scard" (.exactly 2)

/-- SUNION looks under the write locks, and drops what has expired. -/
def cmdSunion : Cmd := eachArg env "sunion" .write

/-- SINTER looks under the write locks, and drops what has expired. -/
def cmdSinter : Cmd := eachArg env "sinter" .write

/-- SDIFF looks under the write locks, and drops what has expired. -/
def cmdSdiff : Cmd := eachArg env "sdiff" .write

/-- SINTERCARD says how many keys follow. -/
def cmdSintercard : Cmd := someKeys env "sintercard" (.atLeast 3) .read numKeys

/-- SRANDMEMBER leaves the members it picks. -/
def cmdSrandmember : Cmd := readKey env "srandmember" (.atLeast 2)

/-- SSCAN walks the members of one key. -/
def cmdSscan : Cmd := readKey env "sscan" (.atLeast 3)

def cmdZcard : Cmd := readKey env "zcard" (.exactly 2)

def cmdZscore : Cmd := readKey env "zscore" (.exactly 3)

def cmdZmscore : Cmd := readKey env "zmscore" (.atLeast 3)

/-- ZRANK names itself in capitals in its errors. -/
def cmdZrank : Cmd := readKey env "ZRANK" (.atLeast 3)

/-- ZREVRANK names itself in capitals in its errors. -/
def cmdZrevrank : Cmd := readKey env "ZREVRANK" (.atLeast 3)

/-- ZRANGE, by rank, score or name. -/
def cmdZrange : Cmd := readKey env "zrange" (.atLeast 4)

def cmdZrevrange : Cmd := readKey env "zrevrange" (.atLeast 4)

/-- ZRANGEBYSCORE names itself in capitals in its errors. -/
def cmdZrangebyscore : Cmd := readKey env "ZRANGEBYSCORE" (.atLeast 4)

/-- ZREVRANGEBYSCORE names itself in capitals in its errors. -/
def cmdZrevrangebyscore : Cmd := readKey env "ZREVRANGEBYSCORE" (.atLeast 4)

def cmdZrangebylex : Cmd := readKey env "zrangebylex" (.atLeast 4)

def cmdZcount : Cmd := readKey env "zcount" (.exactly 4)

def cmdZlexcount : Cmd := readKey env "zlexcount" (.exactly 4)

def cmdZrandmember : Cmd := readKey env "zrandmember" (.atLeast 2)

/-- ZSCAN walks the members of one key. -/
def cmdZscan : Cmd := readKey env "zscan" (.atLeast 3)

/-- ZINTER looks under the write locks, and drops what has expired. -/
def cmdZinter : Cmd := someKeys env "zinter" (.atLeast 3) .write numKeys

/-- ZUNION looks under the write locks, and drops what has expired. -/
def cmdZunion : Cmd := someKeys env "zunion" (.atLeast 3) .write numKeys

/-- ZDIFF looks under the write locks, and drops what has expired. -/
def cmdZdiff : Cmd := someKeys env "zdiff" (.atLeast 3) .write numKeys

/-- ZINTERCARD looks under the write locks, and drops what has expired. -/
def cmdZintercard : Cmd := someKeys env "zintercard" (.atLeast 3) .write numKeys

/-- EXISTS counts a key as often as it is given. -/
def cmdExists : Cmd := eachArg env "exists" .read

/-- EXPIRETIME answers in seconds. -/
def cmdExpiretime : Cmd := readKey env "EXPIRETIME" (.exactly 2)

/-- PEXPIRETIME answers in milliseconds. -/
def cmdPexpiretime : Cmd := readKey env "PEXPIRETIME" (.exactly 2)

/-- TTL answers in seconds. -/
def cmdTtl : Cmd := readKey env "TTL" (.exactly 2)

/-- PTTL answers in milliseconds. -/
def cmdPttl : Cmd := readKey env "PTTL" (.exactly 2)

/-- TYPE. -/
def cmdType : Cmd := readKey env "type" (.exactly 2)

/-- SCAN reads the whole store. -/
def cmdScan : Cmd := looking env "scan" (.atLeast 2)

/-- RANDOMKEY reads the whole store. -/
def cmdRandomkey : Cmd := looking env "randomkey" (.atLeast 0)

/-- DUMP leaves the key it writes down. -/
def cmdDump : Cmd := readKey env "dump" (.exactly 2)

/-- TOUCH counts a key as often as it is given; it leaves the value and the deadline. -/
def cmdTouch : Cmd := eachArg env "touch" .read

/-- PING does not look at the store. -/
def cmdPing : Cmd := noStore env "ping"

def cmdEcho : Cmd := noStore env "echo"

def cmdQuit : Cmd := noStore env "quit"

/-- SELECT changes the connection, not the store. -/
def cmdSelect : Cmd := noStore env "select"

/-- DBSIZE reads the whole store. -/
def cmdDbsize : Cmd := looking env "dbsize" (.atLeast 0)

/-- INFO reads the whole store. -/
def cmdInfo : Cmd := looking env "info" (.atLeast 0)

/-- CONFIG changes settings, not the store. -/
def cmdConfig : Cmd := noStore env "config"

def cmdCommand : Cmd := noStore env "command"

/-- SAVE reads the whole store. -/
def cmdSave : Cmd := looking env "save" (.atLeast 0)

/-- BGSAVE reads the whole store. -/
def cmdBgsave : Cmd := looking env "bgsave" (.atLeast 0)

/-- BGREWRITEAOF reads the whole store. -/
def cmdBgrewriteaof : Cmd := looking env "bgrewriteaof" (.atLeast 0)

def cmdLastsave : Cmd := noStore env "lastsave"

def cmdDebug : Cmd := noStore env "debug"

/-- SHUTDOWN ends the process; the save that goes with it reads only. -/
def cmdShutdown : Cmd := noStore env "shutdown"

def cmdSlowlog : Cmd := noStore env "slowlog"

/-- WAIT looks at the replicas. -/
def cmdWait : Cmd := noStore env "wait"

def cmdLatency : Cmd := noStore env "latency"

/-- ACL changes users, not the store. -/
def cmdAcl : Cmd := noStore env "acl"

def cmdReset : Cmd := noStore env "reset"

def cmdTime : Cmd := noStore env "time"

def cmdRole : Cmd := noStore env "role"

/-- The part of CLIENT that the dispatcher answers. -/
def cmdClient : Cmd := noStore env "client"

/-- The part of HELLO that the dispatcher answers. -/
def cmdHello : Cmd := noStore env "hello"

/-- PUBLISH, and SPUBLISH under the other name. -/
def cmdPublish : Cmd := noStore env "publish"

def cmdPubsub : Cmd := noStore env "pubsub"

/-- REPLICAOF changes the role. The full sync that follows is no part of the command. -/
def cmdReplicaof : Cmd := noStore env "replicaof"

def cmdReplconf : Cmd := noStore env "replconf"

/-- The part of PSYNC that the dispatcher answers. -/
def cmdPsync : Cmd := noStore env "psync"

/-- SENTINEL is in the table to be refused. -/
def cmdSentinel : Cmd := fun _ _ => .done (.error (
  "ERR SENTINEL is not supported by nexrade-cache (standalone server). " ++
  "See docs/redis-sentinel-compat.md for failover guidance."))

/-- XLEN looks with `get`, which drops an expired key. -/
def cmdXlen : Cmd := getKey env "xlen" (.exactly 2)

/-- XRANGE. -/
def cmdXrange : Cmd := getKey env "xrange" (.atLeast 4)

/-- XREVRANGE, with its bounds the other way round. -/
def cmdXrevrange : Cmd := getKey env "xrevrange" (.atLeast 4)

/-- XPENDING reads the group, and moves nothing in it. -/
def cmdXpending : Cmd := getKey env "xpending" (.atLeast 3)

/-- GETBIT. -/
def cmdGetbit : Cmd := getKey env "getbit" (.exactly 3)

/-- BITCOUNT, with or without a range. -/
def cmdBitcount : Cmd := getKey env "bitcount" (.atLeast 2)

/-- BITPOS, with or without a range. -/
def cmdBitpos : Cmd := getKey env "bitpos" (.atLeast 3)

/-- GEOPOS takes its key as text. -/
def cmdGeopos : Cmd := oneKey env "geopos" (.atLeast 3) .read strKey

/-- GEODIST takes its key as text. -/
def cmdGeodist : Cmd := oneKey env "geodist" (.atLeast 4) .read strKey

/-- GEOHASH takes its key as text. -/
def cmdGeohash : Cmd := oneKey env "geohash" (.atLeast 3) .read strKey

/-- GEORADIUS has no STORE here. -/
def cmdGeoradius : Cmd := oneKey env "georadius" (.atLeast 6) .read strKey

/-- GEORADIUSBYMEMBER has no STORE here. -/
def cmdGeoradiusbymember : Cmd := oneKey env "georadiusbymember" (.atLeast 5) .read strKey

/-- PFCOUNT reads all keys before it looks at the first. It does not cache what it counts. -/
def cmdPfcount : Cmd := someKeys env "pfcount" (.atLeast 2) .read fun args => parseKeys (args.drop 1)

/-! ## The table -/

/-- The rows of the strings. -/
def stringCommands : List (String × Cmd) :=
  [("SET", env.write "SET"), ("GET", cmdGet env), ("GETSET", env.write "GETSET"),
   ("GETDEL", env.write "GETDEL"), ("GETEX", env.write "GETEX"), ("MSET", env.write "MSET"),
   ("MSETNX", env.write "MSETNX"), ("MGET", cmdMget env), ("SETNX", env.write "SETNX"),
   ("SETEX", env.write "SETEX"), ("PSETEX", env.write "PSETEX"), ("INCR", env.write "INCR"),
   ("INCRBY", env.write "INCRBY"), ("INCRBYFLOAT", env.write "INCRBYFLOAT"), ("DECR", env.write "DECR"),
   ("DECRBY", env.write "DECRBY"), ("APPEND", env.write "APPEND"), ("STRLEN", cmdStrlen env),
   ("GETRANGE", cmdGetrange env), ("SUBSTR", cmdGetrange env), ("SETRANGE", env.write "SETRANGE"),
   ("LCS", cmdLcs env)]

/-- The rows of the lists. -/
def listCommands : List (String × Cmd) :=
  [("LPUSH", env.write "LPUSH"), ("RPUSH", env.write "RPUSH"), ("LPUSHX", env.write "LPUSHX"),
   ("RPUSHX", env.write "RPUSHX"), ("LPOP", env.write "LPOP"), ("RPOP", env.write "RPOP"),
   ("LLEN", cmdLlen env), ("LRANGE", cmdLrange env), ("LINDEX", cmdLindex env), ("LSET", env.write "LSET"),
   ("LINSERT", env.write "LINSERT"), ("LREM", env.write "LREM"), ("LTRIM", env.write "LTRIM"),
   ("LMOVE", env.write "LMOVE"), ("BLMOVE", env.write "BLMOVE"), ("RPOPLPUSH", env.write "RPOPLPUSH"),
   ("LPOS", cmdLpos env), ("BLPOP", env.write "BLPOP"), ("BRPOP", env.write "BRPOP"),
   ("LMPOP", env.write "LMPOP"), ("BLMPOP", env.write "BLMPOP")]

/-- The rows of the hashes. -/
def hashCommands : List (String × Cmd) :=
  [("HSET", env.write "HSET"), ("HMSET", env.write "HMSET"), ("HGET", cmdHget env), ("HMGET", cmdHmget env),
   ("HDEL", env.write "HDEL"), ("HEXISTS", cmdHexists env), ("HGETALL", cmdHgetall env),
   ("HKEYS", cmdHkeys env), ("HVALS", cmdHvals env), ("HLEN", cmdHlen env), ("HSETNX", env.write "HSETNX"),
   ("HINCRBY", env.write "HINCRBY"), ("HINCRBYFLOAT", env.write "HINCRBYFLOAT"), ("HSCAN", cmdHscan env),
   ("HRANDFIELD", cmdHrandfield env)]

/-- The rows of the sets. -/
def setCommands : List (String × Cmd) :=
  [("SADD", env.write "SADD"), ("SREM", env.write "SREM"), ("SISMEMBER", cmdSismember env),
   ("SMISMEMBER", cmdSmismember env), ("SMEMBERS", cmdSmembers env), ("SCARD", cmdScard env),
   ("SUNION", cmdSunion env), ("SUNIONSTORE", env.write "SUNIONSTORE"), ("SINTER", cmdSinter env),
   ("SINTERSTORE", env.write "SINTERSTORE"), ("SINTERCARD", cmdSintercard env), ("SDIFF", cmdSdiff env),
   ("SDIFFSTORE", env.write "SDIFFSTORE"), ("SMOVE", env.write "SMOVE"), ("SRANDMEMBER", cmdSrandmember env),
   ("SPOP", env.write "SPOP"), ("SSCAN", cmdSscan env)]

/-- The rows of the sorted sets. -/
def zsetCommands : List (String × Cmd) :=
  [("ZADD", env.write "ZADD"), ("ZCARD", cmdZcard env), ("ZSCORE", cmdZscore env), ("ZMSCORE", cmdZmscore env),
   ("ZINCRBY", env.write "ZINCRBY"), ("ZRANK", cmdZrank env), ("ZREVRANK", cmdZrevrank env),
   ("ZRANGE", cmdZrange env), ("ZREVRANGE", cmdZrevrange env), ("ZRANGEBYSCORE", cmdZrangebyscore env),
   ("ZREVRANGEBYSCORE", cmdZrevrangebyscore env), ("ZRANGEBYLEX", cmdZrangebylex env),
   ("ZCOUNT", cmdZcount env), ("ZLEXCOUNT", cmdZlexcount env), ("ZREM", env.write "ZREM"),
   ("ZREMRANGEBYRANK", env.write "ZREMRANGEBYRANK"), ("ZREMRANGEBYSCORE", env.write "ZREMRANGEBYSCORE"),
   ("ZPOPMIN", env.write "ZPOPMIN"), ("ZPOPMAX", env.write "ZPOPMAX"), ("BZPOPMIN", env.write "BZPOPMIN"),
   ("BZPOPMAX", env.write "BZPOPMAX"), ("ZRANDMEMBER", cmdZrandmember env),
   ("ZUNIONSTORE", env.write "ZUNIONSTORE"), ("ZINTERSTORE", env.write "ZINTERSTORE"), ("ZSCAN", cmdZscan env),
   ("ZRANGESTORE", env.write "ZRANGESTORE"), ("ZMPOP", env.write "ZMPOP"), ("BZMPOP", env.write "BZMPOP"),
   ("ZINTER", cmdZinter env), ("ZUNION", cmdZunion env), ("ZDIFF", cmdZdiff env),
   ("ZDIFFSTORE", env.write "ZDIFFSTORE"), ("ZINTERCARD", cmdZintercard env)]

/-- The rows of the commands on keys of any type. SORT is a write for its STORE option, SORT_RO is not. -/
def genericCommands : List (String × Cmd) :=
  [("DEL", env.write "DEL"), ("UNLINK", env.write "UNLINK"), ("EXISTS", cmdExists env),
   ("EXPIRE", env.write "EXPIRE"), ("PEXPIRE", env.write "PEXPIRE"), ("EXPIREAT", env.write "EXPIREAT"),
   ("PEXPIREAT", env.write "PEXPIREAT"), ("EXPIRETIME", cmdExpiretime env), ("PEXPIRETIME", cmdPexpiretime env),
   ("TTL", cmdTtl env), ("PTTL", cmdPttl env), ("PERSIST", env.write "PERSIST"), ("TYPE", cmdType env),
   ("RENAME", env.write "RENAME"), ("RENAMENX", env.write "RENAMENX"), ("KEYS", cmdKeys env),
   ("SCAN", cmdScan env), ("RANDOMKEY", cmdRandomkey env), ("COPY", env.write "COPY"),
   ("MOVE", env.write "MOVE"), ("OBJECT", cmdObject env), ("DUMP", cmdDump env),
   ("RESTORE", env.write "RESTORE"), ("SORT", cmdSort env), ("SORT_RO", cmdSortRo env), ("TOUCH", cmdTouch env)]

/-- The rows of the server, of the connection and of replication. -/
def serverCommands : List (String × Cmd) :=
  [("PING", cmdPing env), ("ECHO", cmdEcho env), ("QUIT", cmdQuit env), ("SELECT", cmdSelect env),
   ("DBSIZE", cmdDbsize env), ("FLUSHDB", env.write "FLUSHDB"), ("FLUSHALL", env.write "FLUSHALL"),
   ("INFO", cmdInfo env), ("CONFIG", cmdConfig env), ("COMMAND", cmdCommand env), ("SAVE", cmdSave env),
   ("BGSAVE", cmdBgsave env), ("BGREWRITEAOF", cmdBgrewriteaof env), ("LASTSAVE", cmdLastsave env),
   ("DEBUG", cmdDebug env), ("SHUTDOWN", cmdShutdown env), ("SLOWLOG", cmdSlowlog env), ("WAIT", cmdWait env),
   ("MEMORY", cmdMemory env), ("LATENCY", cmdLatency env), ("ACL", cmdAcl env), ("RESET", cmdReset env),
   ("TIME", cmdTime env), ("ROLE", cmdRole env), ("CLIENT", cmdClient env), ("CLUSTER", cmdCluster env),
   ("HELLO", cmdHello env), ("PUBLISH", cmdPublish env), ("SPUBLISH", cmdPublish env),
   ("PUBSUB", cmdPubsub env), ("SENTINEL", cmdSentinel), ("REPLICAOF", cmdReplicaof env),
   ("SLAVEOF", cmdReplicaof env), ("REPLCONF", cmdReplconf env), ("PSYNC", cmdPsync env)]

/-- The rows of the streams. XREADGROUP moves the group, XREAD and XPENDING do not. -/
def streamCommands : List (String × Cmd) :=
  [("XADD", env.write "XADD"), ("XLEN", cmdXlen env), ("XRANGE", cmdXrange env),
   ("XREVRANGE", cmdXrevrange env), ("XREAD", cmdXread env), ("XTRIM", env.write "XTRIM"),
   ("XDEL", env.write "XDEL"), ("XGROUP", env.write "XGROUP"), ("XREADGROUP", env.write "XREADGROUP"),
   ("XACK", env.write "XACK"), ("XPENDING", cmdXpending env), ("XINFO", cmdXinfo env),
   ("XCLAIM", env.write "XCLAIM"), ("XAUTOCLAIM", env.write "XAUTOCLAIM"), ("XSETID", env.write "XSETID")]

/-- The rows of the bitmaps. BITFIELD_RO takes GET only. -/
def bitCommands : List (String × Cmd) :=
  [("SETBIT", env.write "SETBIT"), ("GETBIT", cmdGetbit env), ("BITCOUNT", cmdBitcount env),
   ("BITOP", env.write "BITOP"), ("BITPOS", cmdBitpos env), ("BITFIELD", cmdBitfield env),
   ("BITFIELD_RO", cmdBitfieldRo env)]

/-- The rows of the positions. -/
def geoCommands : List (String × Cmd) :=
  [("GEOADD", env.write "GEOADD"), ("GEOPOS", cmdGeopos env), ("GEODIST", cmdGeodist env),
   ("GEOHASH", cmdGeohash env), ("GEORADIUS", cmdGeoradius env),
   ("GEORADIUSBYMEMBER", cmdGeoradiusbymember env), ("GEOSEARCH", cmdGeosearch env),
   ("GEOSEARCHSTORE", env.write "GEOSEARCHSTORE")]

/-- The rows of the cardinality estimates. -/
def hllCommands : List (String × Cmd) :=
  [("PFADD", env.write "PFADD"), ("PFCOUNT", cmdPfcount env), ("PFMERGE", env.write "PFMERGE")]

/-- The table of `dispatch_inner`, in the order of its match. -/
def handlers : List (String × Cmd) :=
  stringCommands env ++ listCommands env ++ hashCommands env ++ setCommands env ++ zsetCommands env ++
    genericCommands env ++ serverCommands env ++ streamCommands env ++ bitCommands env ++ geoCommands env ++
    hllCommands env

/-- The error for a name that is not in the table. It shows the first three arguments. -/
def unknownCommand (cmd : String) (args : List Resp) : Resp :=
  let preview := " ".intercalate ((((args.drop 1).take 3).filterMap Resp.asStr).map fun s => "'" ++ s ++ "'")
  let suffix := if preview.isEmpty then "" else ", with args beginning with: " ++ preview ++ " "
  .error ("ERR unknown command '" ++ cmd ++ "'" ++ suffix)

/-- The handler that runs, or the error: the permission of the user comes first. -/
def dispatchInner (acl : AclManager) (user : String) (keys : List Bytes) (cmd : String) (db : Nat)
    (args : List Resp) : Handler :=
  if args.isEmpty then .done (.error "ERR Protocol error: empty command")
  else match acl.checkPermission user cmd keys with
    | .error e => .done (.error e.display)
    | .ok () =>
      match (handlers env).lookup cmd with
      | some run => run db args
      | none => .done (unknownCommand cmd args)

/-! ## The classification -/

/-- A row of the table is classified right. -/
def Classified (row : String × Cmd) : Prop := isWriteCommand row.1 = true ∨ ∀ db args, (row.2 db args).Readonly

variable {env}

theorem isWriteCommand_of_mem {cmd : String} (mem : cmd ∈ writeCommands) : isWriteCommand cmd = true :=
  List.contains_iff_mem.2 mem

/-- The strings. A row that is no write is one of the handlers that only look. -/
theorem string_classified : ∀ row ∈ stringCommands env, Classified row := by
  simp [stringCommands, Classified, cmdGet, cmdMget, cmdStrlen, cmdGetrange, cmdLcs]
  and_intros <;> exact .inl (isWriteCommand_of_mem (by repeat constructor))

theorem list_classified : ∀ row ∈ listCommands env, Classified row := by
  simp [listCommands, Classified, cmdLlen, cmdLrange, cmdLindex, cmdLpos]
  and_intros <;> exact .inl (isWriteCommand_of_mem (by repeat constructor))

theorem hash_classified : ∀ row ∈ hashCommands env, Classified row := by
  simp [hashCommands, Classified, cmdHget, cmdHmget, cmdHexists, cmdHgetall, cmdHkeys, cmdHvals,
    cmdHlen, cmdHscan, cmdHrandfield]
  and_intros <;> exact .inl (isWriteCommand_of_mem (by repeat constructor))

theorem set_classified : ∀ row ∈ setCommands env, Classified row := by
  simp [setCommands, Classified, cmdSismember, cmdSmismember, cmdSmembers, cmdScard, cmdSunion,
    cmdSinter, cmdSintercard, cmdSdiff, cmdSrandmember, cmdSscan]
  and_intros <;> exact .inl (isWriteCommand_of_mem (by repeat constructor))

theorem zset_classified : ∀ row ∈ zsetCommands env, Classified row := by
  simp [zsetCommands, Classified, cmdZcard, cmdZscore, cmdZmscore, cmdZrank,
    cmdZrevrank, cmdZrange, cmdZrevrange, cmdZrangebyscore, cmdZrevrangebyscore, cmdZrangebylex, cmdZcount,
    cmdZlexcount, cmdZrandmember, cmdZscan, cmdZinter, cmdZunion, cmdZdiff, cmdZintercard]
  and_intros <;> exact .inl (isWriteCommand_of_mem (by repeat constructor))

/-- The keys of any type. KEYS, OBJECT, SORT and SORT_RO are simp lemmas of their own. -/
theorem generic_classified : ∀ row ∈ genericCommands env, Classified row := by
  simp [genericCommands, Classified, cmdExists, cmdExpiretime, cmdPexpiretime,
    cmdTtl, cmdPttl, cmdType, cmdScan, cmdRandomkey, cmdDump, cmdTouch]
  and_intros <;> exact .inl (isWriteCommand_of_mem (by repeat constructor))

theorem server_classified : ∀ row ∈ serverCommands env, Classified row := by
  simp [serverCommands, Classified, cmdPing, cmdEcho, cmdQuit, cmdSelect,
    cmdDbsize, cmdInfo, cmdConfig, cmdCommand, cmdSave, cmdBgsave, cmdBgrewriteaof, cmdLastsave, cmdDebug,
    cmdShutdown, cmdSlowlog, cmdWait, cmdLatency, cmdAcl, cmdReset, cmdTime, cmdRole, cmdClient, cmdHello,
    cmdPublish, cmdPubsub, cmdSentinel, cmdReplicaof, cmdReplconf, cmdPsync]
  and_intros <;> exact .inl (isWriteCommand_of_mem (by repeat constructor))

theorem stream_classified : ∀ row ∈ streamCommands env, Classified row := by
  simp [streamCommands, Classified, cmdXlen, cmdXrange, cmdXrevrange, cmdXpending]
  and_intros <;> exact .inl (isWriteCommand_of_mem (by repeat constructor))

/-- The bitmaps. BITFIELD is a write, whatever its subcommands are. -/
theorem bit_classified : ∀ row ∈ bitCommands env, Classified row := by
  simp [bitCommands, Classified, cmdGetbit, cmdBitcount, cmdBitpos]
  and_intros <;> exact .inl (isWriteCommand_of_mem (by repeat constructor))

theorem geo_classified : ∀ row ∈ geoCommands env, Classified row := by
  simp [geoCommands, Classified, cmdGeopos, cmdGeodist, cmdGeohash, cmdGeoradius, cmdGeoradiusbymember]
  and_intros <;> exact .inl (isWriteCommand_of_mem (by repeat constructor))

theorem hll_classified : ∀ row ∈ hllCommands env, Classified row := by
  simp [hllCommands, Classified, cmdPfcount]
  and_intros <;> exact .inl (isWriteCommand_of_mem (by repeat constructor))

/-- **Every row of the table is classified right.** -/
theorem handlers_classified : ∀ row ∈ handlers env, Classified row := by
  intro row mem
  simp only [handlers, List.mem_append] at mem
  rcases mem with ((((((((((h | h) | h) | h) | h) | h) | h) | h) | h) | h) | h)
  · exact string_classified row h
  · exact list_classified row h
  · exact hash_classified row h
  · exact set_classified row h
  · exact zset_classified row h
  · exact generic_classified row h
  · exact server_classified row h
  · exact stream_classified row h
  · exact bit_classified row h
  · exact geo_classified row h
  · exact hll_classified row h

/-- The handler of a command that is no write makes no write. -/
theorem dispatchInner_readonly {cmd : String} (read : isWriteCommand cmd = false) (acl : AclManager) (user : String)
    (keys : List Bytes) (db : Nat) (args : List Resp) :
    (dispatchInner env acl user keys cmd db args).Readonly := by
  unfold dispatchInner
  split
  · exact trivial
  · split
    · exact trivial
    · split
      · rename_i run found
        obtain ⟨before, after, table, -⟩ := List.lookup_eq_some_iff.1 found
        have row : (cmd, run) ∈ handlers env := by simp [table]
        rcases handlers_classified _ row with write | readonly
        · rw [read] at write
          cases write
        · exact readonly db args
      · exact trivial

/-- **The write classification is complete**: a command that is not classified as a write leaves the live
keyspace of every database as it is, for every user, every argument vector and every state of the store. -/
theorem dispatchInner_sameLive {cmd : String} (read : isWriteCommand cmd = false) (acl : AclManager)
    (user : String) (keys : List Bytes) (db : Nat) (args : List Resp) {clock : Nat → Nat} {now : Nat}
    (later : ∀ i, clock i ≤ now) (s : Store) :
    Store.SameLive now s ((dispatchInner env acl user keys cmd db args).exec clock 0 s).1 :=
  Handler.exec_sameLive (dispatchInner_readonly read acl user keys db args) later 0 s

/-- The replies for texts and missing keys; the rest is of no use here. -/
def getEnv : Env where
  toUppercase s := .ofList (s.toList.map Char.toUpper)
  refuse _ _ := none
  stop _ _ _ := none
  reply _ _ seen :=
    match seen with
    | [some (.string v, _)] => .bulkString (some v)
    | [none] => .bulkString none
    | _ => wrongType
  listing _ _ _ := .array (some [])
  report _ _ _ := .array (some [])
  answer _ _ := .simpleString "OK"
  items _ := none
  pattern _ _ _ := none
  comparisons := 0
  rows _ _ _ := []
  sortStore dst _ := ⟨.remove dst, StoreOp.client_remove dst⟩
  typeOffset _ _ := none
  noBitmap _ := none
  bitOp _ _ _ := none
  fields _ _ := .array (some [])
  hasEntries _ _ := false
  rounds := 0
  enough _ _ := false
  write _ _ _ := .done (.simpleString "OK")

/-- A text under "k", and under "e" one whose deadline is over at 3. -/
def stale : Store :=
  ⟨[⟨[(Database.new.insert [107] (.new (.string [118]))).insert [101] ⟨.string [118], some 3, 0⟩], by simp⟩]⟩

/-- HRANDFIELD of the key whose deadline is over, by the default user. -/
def askStale : Handler :=
  dispatchInner getEnv .new "default" [[101]] "HRANDFIELD" 0
    [.bulkString (some (Utf8.asBytes "HRANDFIELD")), .bulkString (some [101])]

/-- The look drops the key. Of the live keyspace nothing is lost. -/
theorem dispatchInner_sameLive_stale :
    isWriteCommand "HRANDFIELD" = false ∧ ((stale.db 0).keyspace [101]).isSome = true ∧
      (((askStale.exec (fun i => (i + 4).min 5) 0 stale).1.db 0).keyspace [101]).isSome = false ∧
      (((askStale.exec (fun i => (i + 4).min 5) 0 stale).1.db 0).keyspace [107]).isSome = true ∧
      Store.SameLive 5 stale (askStale.exec (fun i => (i + 4).min 5) 0 stale).1 :=
  ⟨by decide, by decide +kernel, by decide +kernel, by decide +kernel,
    dispatchInner_sameLive (by decide) .new "default" [[101]] 0 _ (fun i => Nat.min_le_right (i + 4) 5) _⟩

end NexradeCache
