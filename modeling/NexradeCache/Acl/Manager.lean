import Mathlib.Data.List.AList
import NexradeCache.Lib.Text
import NexradeCache.Store.Glob

/-!
# Users and their permissions (`nexrade-core/src/acl.rs`)

The users of the server with their passwords, command rules and key patterns, and the flag `open` of
the fast path. The log of denied requests is left out. `AclText` stands for two functions of
libraries: SHA-256 in hexadecimal, and Unicode lower case.
-/

namespace NexradeCache

open Utf8

/-! ## Texts -/

/-- What the model of users takes from the outside: hashes and Unicode case. -/
structure AclText where
  hashPassword : String → String
  toLowercase : String → String

/-- ASCII letters in lower case; other characters stay. -/
def toAsciiLowercase (s : String) : String := .ofList (s.toList.map Char.toLower)

/-- `eq_ignore_ascii_case`. -/
def eqIgnoreAsciiCase (a b : String) : Bool := a.toList.map Char.toLower = b.toList.map Char.toLower

/-- `strip_prefix` of one character. -/
def stripPrefix (c : Char) (s : String) : Option String :=
  match s.toList with
  | d :: rest => if d = c then some (.ofList rest) else none
  | [] => none

/-! ## Categories -/

/-- The commands of each category. -/
def COMMAND_CATEGORIES : List (String × List String) :=
  [("keyspace", ["DEL", "UNLINK", "EXISTS", "TYPE", "RENAME", "RENAMENX", "COPY", "MOVE", "SORT", "SORT_RO",
     "OBJECT", "TOUCH", "EXPIRE", "PEXPIRE", "EXPIREAT", "PEXPIREAT", "EXPIRETIME", "PEXPIRETIME", "TTL",
     "PTTL", "PERSIST", "KEYS", "SCAN", "RANDOMKEY", "DUMP", "RESTORE"]),
   ("read", ["GET", "MGET", "GETRANGE", "STRLEN", "GETBIT", "BITCOUNT", "BITPOS", "BITFIELD_RO", "HGET",
     "HMGET", "HKEYS", "HVALS", "HGETALL", "HEXISTS", "HLEN", "HRANDFIELD", "HSCAN", "LRANGE", "LINDEX",
     "LLEN", "LPOS", "SMEMBERS", "SISMEMBER", "SMISMEMBER", "SCARD", "SRANDMEMBER", "SSCAN", "SINTERCARD",
     "ZRANGE", "ZRANGEBYSCORE", "ZRANGEBYLEX", "ZSCORE", "ZMSCORE", "ZCARD", "ZCOUNT", "ZLEXCOUNT", "ZRANK",
     "ZREVRANK", "ZRANDMEMBER", "ZSCAN", "GETRANGE", "GETEX", "GETDEL", "GETSET", "LCS", "PFCOUNT",
     "GEOPOS", "GEODIST", "GEOHASH", "GEOSEARCH", "XLEN", "XRANGE", "XREVRANGE", "XREAD", "XPENDING",
     "EXISTS"]),
   ("write", ["SET", "MSET", "MSETNX", "SETNX", "SETEX", "PSETEX", "SETRANGE", "SETBIT", "BITOP",
     "BITFIELD", "INCR", "INCRBY", "INCRBYFLOAT", "DECR", "DECRBY", "APPEND", "HSET", "HMSET", "HDEL",
     "HSETNX", "HINCRBY", "HINCRBYFLOAT", "LPUSH", "LPUSHX", "RPUSH", "RPUSHX", "LPOP", "RPOP", "LINSERT",
     "LSET", "LREM", "LTRIM", "LMOVE", "LMPOP", "BLMPOP", "BLPOP", "BRPOP", "BLMOVE", "SADD", "SREM",
     "SPOP", "SMOVE", "ZADD", "ZREM", "ZINCRBY", "ZPOPMIN", "ZPOPMAX", "BZPOPMIN", "BZPOPMAX",
     "ZREMRANGEBYRANK", "ZREMRANGEBYSCORE", "ZUNIONSTORE", "ZINTERSTORE", "ZDIFFSTORE", "ZRANGESTORE",
     "ZINTER", "ZUNION", "ZDIFF", "ZINTERCARD", "ZMPOP", "BZMPOP", "PFADD", "PFMERGE", "GEOADD",
     "GEOSEARCHSTORE", "XADD", "XTRIM", "XDEL", "XACK", "XSETID", "COPY", "RENAME", "RENAMENX", "MOVE"]),
   ("set", ["SADD", "SREM", "SPOP", "SMOVE", "SMEMBERS", "SISMEMBER", "SMISMEMBER", "SCARD", "SRANDMEMBER",
     "SSCAN", "SINTERCARD"]),
   ("sortedset", ["ZADD", "ZREM", "ZINCRBY", "ZPOPMIN", "ZPOPMAX", "BZPOPMIN", "BZPOPMAX",
     "ZREMRANGEBYRANK", "ZREMRANGEBYSCORE", "ZRANGE", "ZRANGEBYSCORE", "ZRANGEBYLEX", "ZREVRANGE",
     "ZREVRANGEBYSCORE", "ZRANGEBYLEX", "ZSCORE", "ZMSCORE", "ZCARD", "ZCOUNT", "ZLEXCOUNT", "ZRANK",
     "ZREVRANK", "ZRANDMEMBER", "ZSCAN", "ZUNIONSTORE", "ZINTERSTORE", "ZDIFFSTORE", "ZRANGESTORE",
     "ZINTER", "ZUNION", "ZDIFF", "ZINTERCARD", "ZMPOP", "BZMPOP"]),
   ("list", ["LPUSH", "LPUSHX", "RPUSH", "RPUSHX", "LPOP", "RPOP", "LRANGE", "LINDEX", "LLEN", "LINSERT",
     "LSET", "LREM", "LTRIM", "LMOVE", "LMPOP", "BLMPOP", "BLPOP", "BRPOP", "BLMOVE"]),
   ("hash", ["HSET", "HMSET", "HGET", "HMGET", "HDEL", "HEXISTS", "HGETALL", "HKEYS", "HVALS", "HLEN",
     "HSETNX", "HINCRBY", "HINCRBYFLOAT", "HSCAN", "HRANDFIELD"]),
   ("string", ["SET", "GET", "MSET", "MSETNX", "SETNX", "SETEX", "PSETEX", "GETSET", "GETDEL", "GETEX",
     "GETRANGE", "SETRANGE", "STRLEN", "INCR", "INCRBY", "INCRBYFLOAT", "DECR", "DECRBY", "APPEND"]),
   ("bitmap", ["SETBIT", "GETBIT", "BITCOUNT", "BITPOS", "BITOP", "BITFIELD"]),
   ("hyperloglog", ["PFADD", "PFCOUNT", "PFMERGE"]),
   ("geo", ["GEOADD", "GEOPOS", "GEODIST", "GEOHASH", "GEORADIUS", "GEORADIUSBYMEMBER", "GEOSEARCH",
     "GEOSEARCHSTORE"]),
   ("stream", ["XADD", "XLEN", "XRANGE", "XREVRANGE", "XREAD", "XREADGROUP", "XTRIM", "XDEL", "XACK",
     "XPENDING", "XGROUP"]),
   ("pubsub", ["SUBSCRIBE", "UNSUBSCRIBE", "PSUBSCRIBE", "PUNSUBSCRIBE", "PUBLISH", "PUBSUB"]),
   ("connection", ["AUTH", "PING", "ECHO", "QUIT", "SELECT", "HELLO", "CLIENT", "RESET", "WAIT"]),
   ("transaction", ["MULTI", "EXEC", "DISCARD", "WATCH", "UNWATCH"]),
   ("scripting", ["EVAL", "EVALSHA", "SCRIPT"]),
   ("admin", ["ACL", "BGREWRITEAOF", "BGSAVE", "COMMAND", "CONFIG", "DBSIZE", "DEBUG", "FLUSHALL",
     "FLUSHDB", "INFO", "LASTSAVE", "LATENCY", "MEMORY", "MODULE", "MONITOR", "REPLICAOF", "REPLCONF",
     "PSYNC", "RESET", "SAVE", "SHUTDOWN", "SLAVEOF", "SLOWLOG", "SWAPDB", "SYNC", "TIME", "WAIT"]),
   ("dangerous", ["FLUSHDB", "FLUSHALL", "SHUTDOWN", "BGREWRITEAOF", "DEBUG", "CONFIG", "REPLICAOF",
     "SLAVEOF", "ACL", "KEYS", "MIGRATE", "RESTORE", "SORT", "WAIT"]),
   ("slow", ["KEYS", "SCAN", "DBSIZE", "FLUSHDB", "FLUSHALL"]),
   ("blocking", ["BLPOP", "BRPOP", "BLMPOP", "BZPOPMIN", "BZPOPMAX", "XREAD", "XREADGROUP"]),
   ("fast", ["GET", "SET", "INCR", "DECR", "LPUSH", "RPUSH", "EXPIRE"])]

/-- Whether a category contains a command; `all` is the union of the categories. -/
def categoryContains (cat cmd : String) : Bool :=
  if cat = "all" then COMMAND_CATEGORIES.any fun (_, cmds) => cmds.contains cmd
  else COMMAND_CATEGORIES.any fun (c, cmds) => c = cat && cmds.contains cmd

/-! ## Errors -/

/-- The errors of the manager. -/
inductive AclError where
  | wrongPass
  | permissionDenied (what : String)
  | unknownUser (user : String)
  | syntaxError
  | unknownCategory (category : String)
deriving DecidableEq, Repr

/-- As clients see them. -/
def AclError.display : AclError → String
  | .wrongPass => "WRONGPASS invalid username-password pair or user is disabled"
  | .permissionDenied what => "NOPERM " ++ what
  | .unknownUser user => "ERR unknown user '" ++ user ++ "'"
  | .syntaxError => "ERR syntax error"
  | .unknownCategory category => "ERR unknown command category '" ++ category ++ "'"

/-! ## Users -/

/-- A user, with the rules in the order they were given. -/
structure AclUser where
  name : String
  /-- `none` is `nopass`. -/
  passwordHash : Option String
  enabled : Bool
  allCommands : Bool
  allKeys : Bool
  commandRules : List (String × Bool)
  keyPatterns : List String
deriving DecidableEq, Repr

namespace AclUser

/-- A user who may do everything and needs no password. -/
def new (name : String) : AclUser := ⟨name, none, true, true, true, [], []⟩

/-- The user of a new connection. -/
def defaultUser : AclUser := new "default"

/-- A rule is a command, a category or `all`. -/
def ruleMatches (rule cmd : String) : Bool :=
  match stripPrefix '@' rule with
  | some cat => categoryContains cat cmd
  | none => eqIgnoreAsciiCase rule cmd

/-- The last rule that matches decides. -/
def commandAllowed (u : AclUser) (cmd : String) : Bool :=
  if u.allCommands && u.commandRules.isEmpty then true
  else u.commandRules.foldl (fun allowed rule => if ruleMatches rule.1 cmd then rule.2 else allowed) false

/-- By the patterns. -/
def keyAllowed (u : AclUser) (key : Bytes) : Bool :=
  if u.allKeys && u.keyPatterns.isEmpty then true
  else u.keyPatterns.reverse.any fun pattern =>
    pattern = "allkeys" || pattern = "*" || globMatch (asBytes ((stripPrefix '~' pattern).getD pattern)) key

/-- One rule token. -/
def applyRule (text : AclText) (u : AclUser) (rule : String) : Except AclError AclUser :=
  if rule = "on" then .ok { u with enabled := true }
  else if rule = "off" then .ok { u with enabled := false }
  else if rule = "reset" then
    .ok { u with allCommands := true, allKeys := true, commandRules := [], keyPatterns := [], passwordHash := none }
  else if rule = "resetpass" then .ok { u with passwordHash := none }
  else if let some pwd := stripPrefix '>' rule then .ok { u with passwordHash := some (text.hashPassword pwd) }
  else if (stripPrefix '<' rule).isSome then .ok { u with passwordHash := none }
  else if let some hash := stripPrefix '#' rule then .ok { u with passwordHash := some (text.toLowercase hash) }
  else if rule = "nopass" then .ok { u with passwordHash := none }
  else if let some pat := stripPrefix '~' rule then
    .ok { u with allKeys := false, keyPatterns := u.keyPatterns.filter (· ≠ pat) ++ [pat] }
  else if let some rest := stripPrefix '+' rule then
    .ok { u with allCommands := false, commandRules := u.commandRules ++ [(toAsciiLowercase rest, true)] }
  else if let some rest := stripPrefix '-' rule then
    .ok { u with allCommands := false, commandRules := u.commandRules ++ [(toAsciiLowercase rest, false)] }
  else if (stripPrefix '@' rule).isSome then .error (.unknownCategory rule)
  else .error .syntaxError

/-- The rules in order; the rules before a bad one stay applied. -/
def applyRules (text : AclText) : AclUser → List String → AclUser × Option AclError
  | u, [] => (u, none)
  | u, rule :: rules =>
    match u.applyRule text rule with
    | .ok u' => u'.applyRules text rules
    | .error e => (u, some e)

end AclUser

/-! ## The manager -/

/-- The users, and the flag that lets a permission check return at once. -/
structure AclManager where
  users : AList fun _ : String => AclUser
  /-- The only user is an unrestricted `default`, as of the last update that did not fail. -/
  isOpen : Bool

namespace AclManager

/-- One user, who may do everything. -/
def new : AclManager := ⟨AList.singleton "default" .defaultUser, true⟩

/-- Whether the flag may be set: there is no user but default, who is enabled and unrestricted. -/
def computeOpen (users : AList fun _ : String => AclUser) : Bool :=
  match users.lookup "default" with
  | some u => users.keys.length = 1 && u.enabled && u.allCommands && u.allKeys && u.commandRules.isEmpty &&
      u.keyPatterns.isEmpty
  | none => false

/-- A login. -/
def authenticate (text : AclText) (acl : AclManager) (user pass : String) : Except AclError Unit :=
  match acl.users.lookup user with
  | none => .error (.unknownUser user)
  | some u =>
    if !u.enabled then .error .wrongPass
    else match u.passwordHash with
      | some expected => if expected ≠ text.hashPassword pass then .error .wrongPass else .ok ()
      | none => .ok ()

/-- The check of a command and its keys. -/
def checkPermission (acl : AclManager) (user cmd : String) (keys : List Bytes) : Except AclError Unit :=
  if acl.isOpen && user = "default" then .ok ()
  else match acl.users.lookup user with
    | none => .error (.unknownUser user)
    | some u =>
      if !u.enabled then .error .wrongPass
      else if !u.commandAllowed cmd then
        .error (.permissionDenied ("this user has no permissions to run the '" ++ cmd ++ "' command"))
      else match keys.find? (fun k => !u.keyAllowed k) with
        | some k =>
          .error (.permissionDenied ("this user has no permissions to access the '" ++ fromUtf8Lossy k ++ "' key"))
        | none => .ok ()

/-- An error keeps what the rules before it did, and the flag as it was. -/
def setuser (text : AclText) (acl : AclManager) (name : String) (rules : List String) :
    AclManager × Except AclError AclUser :=
  let user := (acl.users.lookup name).getD (.new name)
  let (user', failed) := user.applyRules text rules
  let users := acl.users.insert name user'
  match failed with
  | some e => (⟨users, acl.isOpen⟩, .error e)
  | none => (⟨users, computeOpen users⟩, .ok user')

/-- `default` is made anew. -/
def deluser (acl : AclManager) (name : String) : AclManager × Bool :=
  if name = "default" then
    let users := (acl.users.erase name).insert "default" .defaultUser
    (⟨users, computeOpen users⟩, true)
  else if (acl.users.lookup name).isSome then
    let users := acl.users.erase name
    (⟨users, computeOpen users⟩, true)
  else (acl, false)

/-! ## What the checks say -/

/-- **A login is a user that is enabled, with its password.** -/
theorem authenticate_ok {text : AclText} {acl : AclManager} {user pass : String} :
    acl.authenticate text user pass = .ok () ↔
      ∃ u, acl.users.lookup user = some u ∧ u.enabled = true ∧
        (u.passwordHash = none ∨ u.passwordHash = some (text.hashPassword pass)) := by
  unfold authenticate
  cases found : acl.users.lookup user with
  | none => simp
  | some u => cases enabled : u.enabled <;> cases hash : u.passwordHash <;> simp [enabled, hash]

/-- **A check that passes**: the flag vouches for `default`, or the rules of the user allow the command. -/
theorem checkPermission_ok {acl : AclManager} {user cmd : String} {keys : List Bytes}
    (h : acl.checkPermission user cmd keys = .ok ()) :
    (acl.isOpen = true ∧ user = "default") ∨
      ∃ u, acl.users.lookup user = some u ∧ u.enabled = true ∧ u.commandAllowed cmd = true ∧
        ∀ k ∈ keys, u.keyAllowed k = true := by
  unfold checkPermission at h
  split at h
  · rename_i fast
    simp only [Bool.and_eq_true, decide_eq_true_eq] at fast
    exact .inl fast
  · split at h
    · cases h
    · rename_i u found
      refine .inr ⟨u, found, ?_⟩
      split at h
      · cases h
      · rename_i enabled
        split at h
        · cases h
        · rename_i allowed
          split at h
          · cases h
          · rename_i none
            refine ⟨by simpa using enabled, by simpa using allowed, ?_⟩
            intro k mem
            have := List.find?_eq_none.1 none k mem
            simpa using this

end AclManager

end NexradeCache
