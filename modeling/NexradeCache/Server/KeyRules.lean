import NexradeCache.Acl.Updates
import NexradeCache.Command.Reach
import NexradeCache.Server.Connection

/-!
# Key patterns and the keys of a command (`extract_keys` of `nexrade-core/src/command/mod.rs`)

The permission of a user is checked against the keys that `extract_keys` finds, in a list of positions
that is kept apart from the handlers. `spans` says where the handlers take their keys from; `covered`
compares the two, row by row. What the list does not have is named: `sweeping` are the commands that
reach keys no argument names, `unlisted` those whose keys are not all listed.
-/

namespace NexradeCache

/-! ## Where the handlers take their keys from -/

/-- The key is the first argument. -/
def firstArg : Span := .only [1]

/-- No argument is a key. -/
def keyless : Span := .only []

/-- The row of a handler that writes. -/
def written (name : String) : String × Span := (name, Effects.span name)

/-- The keys of the commands on strings. -/
def stringSpans : List (String × Span) :=
  [written "SET", ("GET", firstArg), written "GETSET", written "GETDEL", written "GETEX", written "MSET",
   written "MSETNX", ("MGET", .behind 1), written "SETNX", written "SETEX", written "PSETEX", written "INCR",
   written "INCRBY", written "INCRBYFLOAT", written "DECR", written "DECRBY", written "APPEND", ("STRLEN", firstArg),
   ("GETRANGE", firstArg), ("SUBSTR", firstArg), written "SETRANGE", ("LCS", .only [1, 2])]

/-- The keys of the commands on lists. -/
def listSpans : List (String × Span) :=
  [written "LPUSH", written "RPUSH", written "LPUSHX", written "RPUSHX", written "LPOP", written "RPOP",
   ("LLEN", firstArg), ("LRANGE", firstArg), ("LINDEX", firstArg), written "LSET", written "LINSERT", written "LREM",
   written "LTRIM", written "LMOVE", written "BLMOVE", written "RPOPLPUSH", ("LPOS", firstArg), written "BLPOP",
   written "BRPOP", written "LMPOP", written "BLMPOP"]

/-- The keys of the commands on hashes. -/
def hashSpans : List (String × Span) :=
  [written "HSET", written "HMSET", ("HGET", firstArg), ("HMGET", firstArg), written "HDEL", ("HEXISTS", firstArg),
   ("HGETALL", firstArg), ("HKEYS", firstArg), ("HVALS", firstArg), ("HLEN", firstArg), written "HSETNX", written "HINCRBY",
   written "HINCRBYFLOAT", ("HSCAN", firstArg), ("HRANDFIELD", firstArg)]

/-- The keys of the commands on sets. -/
def setSpans : List (String × Span) :=
  [written "SADD", written "SREM", ("SISMEMBER", firstArg), ("SMISMEMBER", firstArg), ("SMEMBERS", firstArg),
   ("SCARD", firstArg), ("SUNION", .behind 1), written "SUNIONSTORE", ("SINTER", .behind 1), written "SINTERSTORE",
   ("SINTERCARD", .behind 2), ("SDIFF", .behind 1), written "SDIFFSTORE", written "SMOVE", ("SRANDMEMBER", firstArg),
   written "SPOP", ("SSCAN", firstArg)]

/-- The keys of the commands on sorted sets. -/
def zsetSpans : List (String × Span) :=
  [written "ZADD", ("ZCARD", firstArg), ("ZSCORE", firstArg), ("ZMSCORE", firstArg), written "ZINCRBY", ("ZRANK", firstArg),
   ("ZREVRANK", firstArg), ("ZRANGE", firstArg), ("ZREVRANGE", firstArg), ("ZRANGEBYSCORE", firstArg),
   ("ZREVRANGEBYSCORE", firstArg), ("ZRANGEBYLEX", firstArg), ("ZCOUNT", firstArg), ("ZLEXCOUNT", firstArg), written "ZREM",
   written "ZREMRANGEBYRANK", written "ZREMRANGEBYSCORE", written "ZPOPMIN", written "ZPOPMAX", written "BZPOPMIN",
   written "BZPOPMAX", ("ZRANDMEMBER", firstArg), written "ZUNIONSTORE", written "ZINTERSTORE", ("ZSCAN", firstArg),
   written "ZRANGESTORE", written "ZMPOP", written "BZMPOP", ("ZINTER", .behind 2), ("ZUNION", .behind 2),
   ("ZDIFF", .behind 2), written "ZDIFFSTORE", ("ZINTERCARD", .behind 2)]

/-- The keys of the commands on keys of any type. -/
def genericSpans : List (String × Span) :=
  [written "DEL", written "UNLINK", ("EXISTS", .behind 1), written "EXPIRE", written "PEXPIRE", written "EXPIREAT",
   written "PEXPIREAT", ("EXPIRETIME", firstArg), ("PEXPIRETIME", firstArg), ("TTL", firstArg), ("PTTL", firstArg),
   written "PERSIST", ("TYPE", firstArg), written "RENAME", written "RENAMENX", ("KEYS", .sweep), ("SCAN", .sweep),
   ("RANDOMKEY", .sweep), written "COPY", written "MOVE", ("OBJECT", .only [2]), ("DUMP", firstArg),
   written "RESTORE", ("SORT", .sweep), ("SORT_RO", .sweep), ("TOUCH", .behind 1)]

/-- The keys of the commands of the server. -/
def serverSpans : List (String × Span) :=
  [("PING", keyless), ("ECHO", keyless), ("QUIT", keyless), ("SELECT", keyless), ("DBSIZE", .sweep),
   written "FLUSHDB", written "FLUSHALL", ("INFO", .sweep), ("CONFIG", keyless), ("COMMAND", keyless),
   ("SAVE", keyless), ("BGSAVE", keyless), ("BGREWRITEAOF", keyless), ("LASTSAVE", keyless), ("DEBUG", keyless),
   ("SHUTDOWN", keyless), ("SLOWLOG", keyless), ("WAIT", keyless), ("MEMORY", .sweep), ("LATENCY", keyless),
   ("ACL", keyless), ("RESET", keyless), ("TIME", keyless), ("ROLE", keyless), ("CLIENT", keyless),
   ("CLUSTER", .sweep), ("HELLO", keyless), ("PUBLISH", keyless), ("SPUBLISH", keyless), ("PUBSUB", keyless),
   ("SENTINEL", keyless), ("REPLICAOF", keyless), ("SLAVEOF", keyless), ("REPLCONF", keyless),
   ("PSYNC", keyless)]

/-- The keys of the commands on streams. -/
def streamSpans : List (String × Span) :=
  [written "XADD", ("XLEN", firstArg), ("XRANGE", firstArg), ("XREVRANGE", firstArg), ("XREAD", .behind 1), written "XTRIM",
   written "XDEL", written "XGROUP", written "XREADGROUP", written "XACK", ("XPENDING", firstArg),
   ("XINFO", .only [2]), written "XCLAIM", written "XAUTOCLAIM", written "XSETID"]

/-- The keys of the commands on bitmaps. -/
def bitSpans : List (String × Span) :=
  [written "SETBIT", ("GETBIT", firstArg), ("BITCOUNT", firstArg), written "BITOP", ("BITPOS", firstArg), ("BITFIELD", firstArg),
   ("BITFIELD_RO", firstArg)]

/-- The keys of the commands on geo values. -/
def geoSpans : List (String × Span) :=
  [written "GEOADD", ("GEOPOS", firstArg), ("GEODIST", firstArg), ("GEOHASH", firstArg), ("GEORADIUS", firstArg),
   ("GEORADIUSBYMEMBER", firstArg), ("GEOSEARCH", firstArg), written "GEOSEARCHSTORE"]

/-- The keys of the commands on HyperLogLogs. -/
def hllSpans : List (String × Span) := [written "PFADD", ("PFCOUNT", .behind 1), written "PFMERGE"]

/-- All of them. -/
def spans : List (String × Span) :=
  stringSpans ++ listSpans ++ hashSpans ++ setSpans ++ zsetSpans ++ genericSpans ++ serverSpans ++ streamSpans ++
    bitSpans ++ geoSpans ++ hllSpans

/-- The two rows are about one command, whose handler takes its keys from there. -/
def Matches (row : String × Cmd) (span : String × Span) : Prop := row.1 = span.1 ∧ Takes span.2 row.2

section
variable {env : Env} {fx : Effects}

@[simp] theorem matches_written (name : String) :
    Matches (name, (env.withWriters fx).write name) (written name) := ⟨rfl, Effects.write_takes name⟩

@[simp] theorem matches_iff {name : String} {run : Cmd} {span : Span} :
    Matches (name, run) (name, span) ↔ Takes span run := by simp [Matches]

end

/-! ## What `extract_keys` finds -/

/-- `extract_keys` looks at this position. -/
def Listed (cmd : String) (i : Nat) : Prop :=
  ∃ start stride count n, keySpec cmd = some (start, stride, count) ∧ i = start + n * (1 + (stride - 1)) ∧
    ∀ limit, count = some limit → n < limit

/-- A key at a position of the table is extracted. -/
theorem mem_keysAt {args : List Resp} {stride n i : Nat} {key : Bytes} (text : args[i]?.bind Resp.asBytes = some key)
    {fuel idx : Nat} {count : Option Nat} (position : i = idx + n * (1 + (stride - 1)))
    (limited : ∀ limit, count = some limit → n < limit) (enough : n < fuel) :
    key ∈ keysAt args stride fuel idx count := by
  have inside : i < args.length := by
    obtain ⟨a, at_i, -⟩ := Option.bind_eq_some_iff.1 text
    exact (List.getElem?_eq_some_iff.1 at_i).1
  induction n generalizing fuel idx count with
  | zero =>
    obtain ⟨fuel, rfl⟩ : ∃ f, fuel = f + 1 := ⟨fuel - 1, by omega⟩
    obtain rfl : i = idx := by omega
    have here : key ∈ (args[i]?.bind Resp.asBytes).toList := by simp [text]
    unfold keysAt
    rw [if_neg (by omega)]
    dsimp only
    split
    · split
      · exact here
      · exact List.mem_append_left _ here
    · exact here
    · exact List.mem_append_left _ here
  | succ n ih =>
    obtain ⟨fuel, rfl⟩ : ∃ f, fuel = f + 1 := ⟨fuel - 1, by omega⟩
    have next : i = idx + (1 + (stride - 1)) + n * (1 + (stride - 1)) := by
      rw [position, Nat.add_mul, Nat.one_mul]
      omega
    unfold keysAt
    rw [if_neg (by omega)]
    dsimp only
    split
    · rename_i m
      have more := limited _ rfl
      rw [if_neg (by omega)]
      refine List.mem_append_right _ (ih next (fun limit h => ?_) (by omega))
      have := Option.some.inj h
      omega
    · have := limited 0 rfl
      omega
    · exact List.mem_append_right _ (ih next (fun limit h => by cases h) (by omega))

/-- **What `extract_keys` lists it extracts.** -/
theorem mem_extractKeys {cmd : String} {args : List Resp} {i : Nat} {key : Bytes} (listed : Listed cmd i)
    (text : args[i]?.bind Resp.asBytes = some key) : key ∈ extractKeys cmd args := by
  obtain ⟨start, stride, count, n, spec, position, limited⟩ := listed
  have inside : i < args.length := by
    obtain ⟨a, at_i, -⟩ := Option.bind_eq_some_iff.1 text
    exact (List.getElem?_eq_some_iff.1 at_i).1
  have le : n ≤ n * (1 + (stride - 1)) := Nat.le_mul_of_pos_right n (by omega)
  rw [extractKeys, spec]
  exact mem_keysAt text position limited (by omega)

/-! ## The comparison -/

/-- The specification has every position of the span. -/
def covers : Option (Nat × Nat × Option Nat) → Span → Bool
  | _, .only [] => true
  | some (start, stride, some count), .only positions =>
    stride ≤ 1 && positions.all fun i => start ≤ i && i < start + count
  | some (start, stride, none), .behind first => stride ≤ 1 && start ≤ first
  | some (start, stride, none), .odd => stride = 2 && start = 1
  | _, _ => false

/-- The commands that reach keys no argument names. -/
def sweeping : List String :=
  ["KEYS", "SCAN", "RANDOMKEY", "SORT", "SORT_RO", "DBSIZE", "FLUSHDB", "FLUSHALL", "INFO", "MEMORY", "CLUSTER"]

/-- The commands with a key that `extract_keys` does not find. -/
def unlisted : List String :=
  ["SUBSTR", "LPOS", "RPOPLPUSH", "BLPOP", "BRPOP", "LMPOP", "BLMPOP", "SUNION", "SUNIONSTORE", "SINTER", "SINTERSTORE",
   "SDIFF", "SDIFFSTORE", "SMOVE", "BZPOPMIN", "BZPOPMAX", "ZUNIONSTORE", "ZINTERSTORE", "ZRANGESTORE", "ZDIFFSTORE",
   "RENAMENX", "OBJECT", "TOUCH", "XREAD", "XGROUP", "XREADGROUP", "GEORADIUS", "GEORADIUSBYMEMBER", "GEOSEARCH",
   "PFCOUNT", "PFMERGE"]

/-- The table of `extract_keys` covers what the handler takes. -/
def covered (row : String × Span) : Bool :=
  if row.2 = .sweep then sweeping.contains row.1
  else unlisted.contains row.1 || covers (keySpec row.1) row.2

/-- The handler takes keys from this position, and `extract_keys` does not look there. -/
def Missed (cmd : String) (i : Nat) : Prop :=
  (∃ span, (cmd, span) ∈ spans ∧ span.has i = true) ∧ ¬Listed cmd i

/-- If the command has the key `k`, `extract_keys` finds it: it takes byte strings only. -/
structure Named (cmd : String) (args : List Resp) (k : Bytes) : Prop where
  sweeps : sweeping.contains cmd = false
  listed : ∀ i, Missed cmd i → getBytesVec args i ≠ some k
  bulk : ∀ s, Resp.simpleString s ∈ args → Utf8.asBytes s ≠ k

/-- A key that is not among the extracted ones is not named. -/
theorem Named.ne {cmd : String} {args : List Resp} {k : Bytes} (named : Named cmd args k) {span : Span}
    (row : (cmd, span) ∈ spans) (found : ∀ key ∈ extractKeys cmd args, key ≠ k) : span.Allows (· ≠ k) args := by
  intro i key has at_i same
  subst same
  by_cases listed : Listed cmd i
  · obtain ⟨a, there, text⟩ := Option.bind_eq_some_iff.1 at_i
    unfold Resp.toBytesVec at text
    split at text
    · exact found key (mem_extractKeys listed (by rw [there]; exact text)) rfl
    · rename_i s
      exact named.bulk s (List.mem_of_getElem? there) (Option.some.inj text)
    · cases text
  · exact named.listed i ⟨⟨span, row, has⟩, listed⟩ at_i

section
variable {env : Env} {fx : Effects} {shared : Shared} {user : String} {u : AclUser} {k : Bytes} {cmd : String}
  {args : List Resp}

end

/-- One request with `k` at a position that `extract_keys` does not have, a value of `k`, and what the handler
answers and does when it finds `k` and when it finds nothing. The operations are on the keys in the order in
which the handler takes them. -/
structure Probe where
  words : List String
  value : DataType
  hit : Resp
  miss : Resp
  onHit : Option (Nat × KeyOp)
  onMiss : Option (Nat × KeyOp)

namespace Probe

/-- A string. -/
def text : DataType := .string [118]

/-- A request that only looks at `k`, which holds a string. -/
def look (words : List String) (hit miss : Resp) : Probe := ⟨words, text, hit, miss, none, none⟩

/-- The element of a list is taken, and with it the key. -/
def pop (words : List String) (hit : Resp) : Probe :=
  ⟨words, .list (.compact (CompactList.new.pushBack [118])), hit, .array none, some (0, .remove), none⟩

/-- A set of sources is stored. -/
def storeSet (cmd : String) : Probe :=
  ⟨[cmd, "ac", "k"], text, wrongType, .integer 0, none, some (0, .insert ⟨.new (.set .new), rfl⟩)⟩

/-- The destination is replaced whatever it holds. -/
def storeZset (words : List String) : Probe :=
  ⟨words, text, .integer 0, .integer 0, some (0, .insert ⟨.new (.zset .new), rfl⟩),
    some (0, .insert ⟨.new (.zset .new), rfl⟩)⟩

end Probe

/-- The error of a missing key. -/
def noKey : Resp := .error "ERR no such key"

/-- The kind of a value. -/
def Content.sort : Option Content → Nat
  | none => 0
  | some (.string _, _) => 1
  | some _ => 2

end NexradeCache
