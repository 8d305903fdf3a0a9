import NexradeCache.Acl.Manager
import NexradeCache.Command.Args
import NexradeCache.Command.Handler

/-!
# The handlers that read (`nexrade-core/src/command/*.rs`)

What each handler looks up, under which lock and in which order, up to the first error. `Env` stands
for what the handlers compute from it (the checks of further arguments and the replies) and from the
rest of the server; no statement about the store depends on it. SORT and BITFIELD are here too: their
read-only forms run the same code.
-/

namespace NexradeCache

/-- A handler by the database and the arguments. -/
abbrev Cmd := (db : Nat) → (args : List Resp) → Handler

/-- What the replies are made of, and the parts of handlers that this embedding leaves open. -/
structure Env where
  toUppercase : String → String
  /-- The error of an argument, if it is found before the first lookup. -/
  refuse : (name : String) → (args : List Resp) → Option Resp
  /-- The reply that ends a row of lookups early. -/
  stop : (name : String) → (args : List Resp) → (seen : List (Option Content)) → Option Resp
  reply : (name : String) → (args : List Resp) → (seen : List (Option Content)) → Resp
  listing : (name : String) → (args : List Resp) → (keys : List Bytes) → Resp
  report : (name : String) → (args : List Resp) → Store → Resp
  /-- The reply of a command that does not touch the store. -/
  answer : (name : String) → (args : List Resp) → Resp
  /-- SORT: the members of the value, the next key that a pattern gives and how many of them there are
  at most, the rows of the reply, and the operation of STORE. -/
  items : Content → Option (List Bytes)
  pattern : (args : List Resp) → (items : List Bytes) → (seen : List (Option Content)) → Option Bytes
  comparisons : Nat
  rows : (args : List Resp) → (items : List Bytes) → (seen : List (Option Content)) → List Resp
  sortStore : (dst : Bytes) → (rows : List Resp) → ClientOp
  /-- BITFIELD: the error of a type and offset, a value that is no bitmap, what SET and INCRBY write,
  and the reply. -/
  typeOffset : (args : List Resp) → (i : Nat) → Option Resp
  noBitmap : Option Content → Option Resp
  bitOp : (args : List Resp) → (i : Nat) → Option Content → Option ClientOp
  fields : (args : List Resp) → (seen : List (Option Content)) → Resp
  /-- XREAD: whether a round has entries, and how many rounds there are before the time is up. -/
  hasEntries : (args : List Resp) → (seen : List (Option Content)) → Bool
  rounds : Nat
  /-- CLUSTER GETKEYSINSLOT: enough keys of the slot. -/
  enough : (args : List Resp) → (keys : List Bytes) → Bool
  /-- The handlers of the other commands. -/
  write : (name : String) → Cmd

variable (env : Env)

namespace Env

/-- `to_uppercase` of the argument at a position. -/
def upper (args : List Resp) (i : Nat) : Option String := (getStr args i).map env.toUppercase

end Env

/-! ## Families -/

/-- The number of arguments, then what else is wrong with them. -/
def checked (name : String) (arity : Arity) (args : List Resp) (body : Handler) : Handler :=
  if !arity.accepts args.length then .done (wrongArity name)
  else match env.refuse name args with
    | some error => .done error
    | none => body

/-- A handler that looks up one key. -/
def oneKey (name : String) (arity : Arity) (lock : Lock) (key : List Resp → Option Bytes) : Cmd := fun db args =>
  checked env name arity args <|
    match key args with
    | none => .done (wrongArity (toAsciiLowercase name))
    | some k => .lookup lock db k fun c => .done (env.reply name args [c])

/-- `read_for(key).get_ro(key)` for the key in the first argument. -/
def readKey (name : String) (arity : Arity) : Cmd := oneKey env name arity .read (getBytesVec · 1)

/-- `write_for(key).get(key)`. -/
def getKey (name : String) (arity : Arity) : Cmd := oneKey env name arity .write (getBytesVec · 1)

/-- A text as a key, as the geo commands take it. -/
def strKey (args : List Resp) : Option Bytes := (getStr args 1).map Utf8.asBytes

/-- Parse an argument, look it up, go on to the next. -/
def lookupArgs (name : String) (lock : Lock) (db : Nat) (args : List Resp) :
    (rest : List Resp) → (seen : List (Option Content)) → Handler
  | [], seen => .done (env.reply name args seen)
  | a :: rest, seen =>
    match a.toBytesVec with
    | none => .done (wrongArity name)
    | some key => .lookup lock db key fun c =>
      match env.stop name args (seen ++ [c]) with
      | some reply => .done reply
      | none => lookupArgs name lock db args rest (seen ++ [c])

/-- A loop over the arguments that parses and looks up each in turn. -/
def eachArg (name : String) (lock : Lock) : Cmd := fun db args =>
  checked env name (.atLeast 2) args (lookupArgs env name lock db args (args.drop 1) [])

/-- Look up keys that are parsed already. -/
def lookupAll (name : String) (lock : Lock) (db : Nat) (args : List Resp)
    (last : List (Option Content) → Handler) : (keys : List Bytes) → (seen : List (Option Content)) → Handler
  | [], seen => last seen
  | key :: keys, seen => .lookup lock db key fun c =>
    match env.stop name args (seen ++ [c]) with
    | some reply => .done reply
    | none => lookupAll name lock db args last keys (seen ++ [c])

/-- All keys, or none if one of them is no key. -/
def parseKeys (args : List Resp) : Option (List Bytes) := args.mapM Resp.toBytesVec

/-- All keys are parsed before the first lookup. -/
def someKeys (name : String) (arity : Arity) (lock : Lock) (keys : List Resp → Option (List Bytes)) : Cmd :=
  fun db args => checked env name arity args <|
    match keys args with
    | none => .done (wrongArity name)
    | some ks => lookupAll env name lock db args (fun seen => .done (env.reply name args seen)) ks []

/-- The keys behind a `numkeys` in the first argument. -/
def numKeys (args : List Resp) : Option (List Bytes) :=
  match getI64 args 1 with
  | none => none
  | some n => if n ≤ 0 then none
    else if args.length < 2 + n.toInt.toNat then none
    else parseKeys ((args.drop 2).take n.toInt.toNat)

/-- A command that is answered without a look at the store. -/
def noStore (name : String) : Cmd := fun _ args => .done (env.answer name args)

/-- Counts and copies of the store. -/
def looking (name : String) (arity : Arity) : Cmd := fun _ args =>
  checked env name arity args (.look fun s => .done (env.report name args s))

section
variable {env} {name : String} {arity : Arity} {lock : Lock} {db : Nat} {args : List Resp}

theorem checked_readonly {body : Handler} (h : body.Readonly) : (checked env name arity args body).Readonly := by
  unfold checked
  split
  · exact trivial
  · split
    · exact trivial
    · exact h

@[simp] theorem oneKey_readonly {key : List Resp → Option Bytes} :
    (oneKey env name arity lock key db args).Readonly := by
  apply checked_readonly
  split
  · exact trivial
  · intro c
    exact trivial

@[simp] theorem readKey_readonly : (readKey env name arity db args).Readonly := oneKey_readonly

@[simp] theorem getKey_readonly : (getKey env name arity db args).Readonly := oneKey_readonly

/-- A loop of looks, by induction on the arguments. -/
theorem lookupArgs_readonly (rest : List Resp) (seen : List (Option Content)) :
    (lookupArgs env name lock db args rest seen).Readonly := by
  induction rest generalizing seen with
  | nil => exact trivial
  | cons a rest ih =>
    unfold lookupArgs
    split
    · exact trivial
    · rw [Handler.readonly_lookup]
      intro c
      split
      · exact trivial
      · exact ih _

@[simp] theorem eachArg_readonly : (eachArg env name lock db args).Readonly :=
  checked_readonly (lookupArgs_readonly _ _)

theorem lookupAll_readonly {last : List (Option Content) → Handler} (h : ∀ seen, (last seen).Readonly)
    (keys : List Bytes) (seen : List (Option Content)) :
    (lookupAll env name lock db args last keys seen).Readonly := by
  induction keys generalizing seen with
  | nil => exact h seen
  | cons key keys ih =>
    rw [lookupAll, Handler.readonly_lookup]
    intro c
    split
    · exact trivial
    · exact ih _

@[simp] theorem someKeys_readonly {keys : List Resp → Option (List Bytes)} :
    (someKeys env name arity lock keys db args).Readonly := by
  apply checked_readonly
  split
  · exact trivial
  · exact lookupAll_readonly (fun seen => Handler.readonly_done _) _ _

@[simp] theorem noStore_readonly : (noStore env name db args).Readonly := trivial

@[simp] theorem looking_readonly : (looking env name arity db args).Readonly :=
  checked_readonly fun _ => trivial

end

/-! ## SORT -/

/-- `NexradeError::NotInteger`. -/
def notInteger : Resp := .error "ERR value is not an integer or out of range"

/-- `NexradeError::SyntaxError`. -/
def sortSyntax : Resp := .error "ERR syntax error"

/-- The refusal of SORT_RO. -/
def noSortStore : Resp := .error "ERR SORT_RO does not support STORE"

/-- `NexradeError::WrongType`. -/
def wrongType : Resp := .error "WRONGTYPE Operation against a key holding the wrong kind of value"

/-- The argument as `get_i64` takes it. -/
def parseI64 (name : String) (a : Resp) : Except Resp Int64 :=
  match a.asStr with
  | none => .error (wrongArity name)
  | some s => match Decimal.parseI64 s with
    | none => .error notInteger
    | some n => .ok n

/-- The options behind the key; what is left of them is the destination of STORE. -/
def sortOptions (takeWriteLock : Bool) : (rest : List Resp) → (storeDst : Option Bytes) → Except Resp (Option Bytes)
  | [], storeDst => .ok storeDst
  | a :: rest, storeDst =>
    let opt := (a.asStr.map env.toUppercase).getD ""
    if opt = "ASC" || opt = "DESC" || opt = "ALPHA" then sortOptions takeWriteLock rest storeDst
    else if opt = "LIMIT" then
      match rest with
      | off :: cnt :: rest =>
        match parseI64 "sort" off, parseI64 "sort" cnt with
        | .error e, _ => .error e
        | _, .error e => .error e
        | .ok o, .ok c => if o < 0 || c < 0 then .error sortSyntax else sortOptions takeWriteLock rest storeDst
      | _ => .error sortSyntax
    else if opt = "BY" || opt = "GET" then
      match rest with
      | pattern :: rest =>
        match pattern.toBytesVec with
        | none => .error (wrongArity "sort")
        | some _ => sortOptions takeWriteLock rest storeDst
      | [] => .error sortSyntax
    else if opt = "STORE" then
      if !takeWriteLock then .error noSortStore
      else match rest with
        | dst :: rest =>
          match dst.toBytesVec with
          | none => .error (wrongArity "sort")
          | some dst => sortOptions takeWriteLock rest (some dst)
        | [] => .error sortSyntax
    else .error sortSyntax

/-- The keys of BY and GET, each chosen from what was seen before. -/
def patternKeys (db : Nat) (choose : List (Option Content) → Option Bytes)
    (last : List (Option Content) → Handler) : (fuel : Nat) → (seen : List (Option Content)) → Handler
  | 0, seen => last seen
  | fuel + 1, seen =>
    match choose seen with
    | none => last seen
    | some key => .lookup .read db key fun c => patternKeys db choose last fuel (seen ++ [c])

/-- `sort_inner`: SORT and SORT_RO, which differ in the lock of the key and in STORE. -/
def sortInner (takeWriteLock : Bool) : Cmd := fun db args =>
  if args.length < 2 then .done (wrongArity "sort")
  else match getBytesVec args 1 with
    | none => .done (wrongArity "sort")
    | some key => .lookup (if takeWriteLock then .write else .read) db key fun
      | none => .done (.array (some []))
      | some c =>
        match env.items c with
        | none => .done wrongType
        | some items =>
          match sortOptions env takeWriteLock (args.drop 2) none with
          | .error e => .done e
          | .ok storeDst =>
            patternKeys db (env.pattern args items) (fun seen =>
              let rows := env.rows args items seen
              match storeDst with
              | none => .done (.array (some rows))
              | some dst => .call db (env.sortStore dst rows) fun _ => .done (.integer (.ofNat rows.length)))
              env.comparisons []

/-- SORT takes the write lock, for STORE. -/
def cmdSort : Cmd := sortInner env true

/-- SORT_RO refuses STORE before it looks. -/
def cmdSortRo : Cmd := fun db args =>
  if args.any fun a => (a.asStr.map (eqIgnoreAsciiCase · "STORE")).getD false then .done noSortStore
  else sortInner env false db args

section
variable {env} {db : Nat} {args : List Resp}

/-- The keys of BY and GET are looked up, one at a time. -/
theorem patternKeys_readonly {choose : List (Option Content) → Option Bytes}
    {last : List (Option Content) → Handler} (h : ∀ seen, (last seen).Readonly) (fuel : Nat)
    (seen : List (Option Content)) : (patternKeys db choose last fuel seen).Readonly := by
  induction fuel generalizing seen with
  | zero => exact h seen
  | succ fuel ih =>
    unfold patternKeys
    split
    · exact h seen
    · rw [Handler.readonly_lookup]
      intro c
      exact ih _

/-- Without the write lock the options never give a destination, whatever the upper case of an
argument is. -/
theorem sortOptions_readonly {rest : List Resp} {before storeDst : Option Bytes}
    (h : sortOptions env false rest before = .ok storeDst) : storeDst = before := by
  fun_induction sortOptions env false rest before <;> simp_all

theorem sortInner_readonly : (sortInner env false db args).Readonly := by
  unfold sortInner
  split
  · exact trivial
  · split
    · exact trivial
    · rw [Handler.readonly_lookup]
      intro c
      split
      · exact trivial
      · split
        · exact trivial
        · split
          · exact trivial
          · rename_i storeDst options
            rw [sortOptions_readonly options]
            exact patternKeys_readonly (fun seen => Handler.readonly_done _) _ _

@[simp] theorem cmdSortRo_readonly : (cmdSortRo env db args).Readonly := by
  unfold cmdSortRo
  split
  · exact trivial
  · exact sortInner_readonly

end

/-! ## BITFIELD -/

/-- The loop over the subcommands; each takes at least one argument. -/
def bitfieldLoop (db : Nat) (args : List Resp) (key : Bytes) :
    (fuel i : Nat) → (seen : List (Option Content)) → Handler
  | 0, _, seen => .done (env.fields args seen)
  | fuel + 1, i, seen =>
    if args.length ≤ i then .done (env.fields args seen)
    else match env.upper args i with
      | none => .done (wrongArity "bitfield")
      | some sub =>
        if sub = "OVERFLOW" then
          if (getStr args (i + 1)).isNone then .done (wrongArity "bitfield")
          else bitfieldLoop db args key fuel (i + 2) seen
        else if sub = "GET" then
          match env.typeOffset args (i + 1) with
          | some error => .done error
          | none => .lookup .write db key fun c =>
            match env.noBitmap c with
            | some error => .done error
            | none => bitfieldLoop db args key fuel (i + 3) (seen ++ [c])
        else if sub = "SET" || sub = "INCRBY" then
          match env.typeOffset args (i + 1) with
          | some error => .done error
          | none =>
            match (args[i + 3]?).elim (.error (wrongArity "bitfield")) (parseI64 "bitfield") with
            | .error e => .done e
            | .ok _ => .lookup .write db key fun c =>
              match env.noBitmap c with
              | some error => .done error
              | none =>
                match env.bitOp args i c with
                | none => bitfieldLoop db args key fuel (i + 4) (seen ++ [c])
                | some op => .call db op fun _ => bitfieldLoop db args key fuel (i + 4) (seen ++ [c])
        else bitfieldLoop db args key fuel (i + 1) seen

/-- BITFIELD: a look for GET, a write for SET and INCRBY, each under a lock of its own. -/
def cmdBitfield : Cmd := fun db args =>
  if args.length < 2 then .done (wrongArity "bitfield")
  else match getBytesVec args 1 with
    | none => .done (wrongArity "bitfield")
    | some key => bitfieldLoop env db args key args.length 2 []

/-- The check of BITFIELD_RO: GET at the positions 2, 5, 8 and so on. -/
def bitfieldRoCheck (args : List Resp) : (fuel i : Nat) → Option Resp
  | 0, _ => none
  | fuel + 1, i =>
    if args.length ≤ i then none
    else match env.upper args i with
      | none => some (wrongArity "bitfield_ro")
      | some sub =>
        if sub = "GET" then bitfieldRoCheck args fuel (i + 3)
        else if sub = "SET" || sub = "INCRBY" || sub = "OVERFLOW" then
          some (.error "ERR BITFIELD_RO only supports the GET subcommand")
        else some (.error ("ERR ERR unknown BITFIELD_RO subcommand '" ++ sub ++ "'"))

/-- BITFIELD_RO refuses everything but GET before it looks. -/
def cmdBitfieldRo : Cmd := fun db args =>
  if args.length < 2 then .done (wrongArity "bitfield_ro")
  else match bitfieldRoCheck env args args.length 2 with
    | some error => .done error
    | none => cmdBitfield env db args

section
variable {env} {db : Nat} {args : List Resp}

/-- The check and the loop visit the same positions. -/
theorem bitfieldLoop_readonly {key : Bytes} {fuel i : Nat} (h : bitfieldRoCheck env args fuel i = none)
    (seen : List (Option Content)) : (bitfieldLoop env db args key fuel i seen).Readonly := by
  induction fuel generalizing i seen with
  | zero => exact trivial
  | succ fuel ih =>
    unfold bitfieldRoCheck at h
    unfold bitfieldLoop
    split
    · exact trivial
    · rename_i inside
      rw [if_neg inside] at h
      split at h
      · cases h
      · rename_i sub found
        split at h
        · rename_i get
          subst get
          simp only [reduceIte, String.reduceEq]
          split
          · exact trivial
          · rw [Handler.readonly_lookup]
            intro c
            split
            · exact trivial
            · exact ih h _
        · split at h <;> cases h

@[simp] theorem cmdBitfieldRo_readonly : (cmdBitfieldRo env db args).Readonly := by
  unfold cmdBitfieldRo
  split
  · exact trivial
  · split
    · exact trivial
    · rename_i accepted
      unfold cmdBitfield
      split
      · exact trivial
      · split
        · exact trivial
        · exact bitfieldLoop_readonly accepted []

end

/-! ## Subcommands, listings and XREAD -/

/-- OBJECT. Only ENCODING looks the key up. -/
def cmdObject : Cmd := fun db args =>
  checked env "object" (.atLeast 3) args <|
    match env.upper args 1, getBytesVec args 2 with
    | some sub, some key =>
      if sub = "ENCODING" then .lookup .write db key fun c => .done (env.reply "object" args [c])
      else .done (env.answer "object" args)
    | _, _ => .done (wrongArity "object")

/-- MEMORY: USAGE looks at a key, STATS and DOCTOR at the whole store. -/
def cmdMemory : Cmd := fun db args =>
  checked env "memory" (.atLeast 2) args <|
    match env.upper args 1 with
    | none => .done (wrongArity "memory")
    | some sub =>
      if sub = "USAGE" then
        if args.length < 3 then .done (wrongArity "memory usage")
        else match getBytesVec args 2 with
          | none => .done (wrongArity "memory")
          | some key => .lookup .read db key fun c => .done (env.reply "memory" args [c])
      else if sub = "STATS" || sub = "DOCTOR" then .look fun s => .done (env.report "memory" args s)
      else .done (env.answer "memory" args)

/-- XINFO: STREAM, GROUPS and CONSUMERS look at one key. -/
def cmdXinfo : Cmd := fun db args =>
  checked env "xinfo" (.atLeast 2) args <|
    match env.upper args 1 with
    | none => .done (wrongArity "xinfo")
    | some sub =>
      if sub = "STREAM" || sub = "GROUPS" || sub = "CONSUMERS" then
        let least := if sub = "CONSUMERS" then 4 else 3
        if args.length < least then .done (wrongArity ("XINFO " ++ sub))
        else match getBytesVec args 2 with
          | none => .done (wrongArity (toAsciiLowercase ("XINFO " ++ sub)))
          | some key => .lookup .read db key fun c => .done (env.reply "xinfo" args [c])
      else .done (env.answer "xinfo" args)

/-- GEOSEARCH from the rest of its arguments on. -/
def geosearchIn (db : Nat) (args : List Resp) (key : Bytes) (seen : List (Option Content)) : Handler :=
  match env.refuse "geosearch" args with
  | some error => .done error
  | none => .lookup .read db key fun c => .done (env.reply "geosearch" args (seen ++ [c]))

/-- FROMMEMBER looks the key up once more, before the rest of the arguments is read. -/
def cmdGeosearch : Cmd := fun db args =>
  if args.length < 6 then .done (wrongArity "geosearch")
  else match strKey args with
    | none => .done (wrongArity "geosearch")
    | some key =>
      if env.upper args 2 = some "FROMMEMBER" then
        .lookup .read db key fun c =>
          match env.stop "geosearch" args [c] with
          | some error => .done error
          | none => geosearchIn env db args key [c]
      else geosearchIn env db args key []

/-- KEYS walks the store; what has expired is dropped on the way. -/
def cmdKeys : Cmd := fun db args =>
  checked env "keys" (.exactly 2) args <|
    match getBytesVec args 1 with
    | none => .done (wrongArity "keys")
    | some pattern => .keysMatching db pattern fun keys => .done (env.listing "keys" args keys)

/-- `keys_matching("*")` in one database after the other, until there are enough. -/
def slotKeys (args : List Resp) : (dbs : List Nat) → (keys : List Bytes) → Handler
  | [], keys => .done (env.listing "cluster" args keys)
  | db :: dbs, keys => .keysMatching db [42] fun more =>
    if env.enough args (keys ++ more) then .done (env.listing "cluster" args (keys ++ more))
    else slotKeys args dbs (keys ++ more)

/-- CLUSTER: COUNTKEYSINSLOT and GETKEYSINSLOT walk the keys of all databases. -/
def cmdCluster : Cmd := fun _ args =>
  checked env "cluster" (.atLeast 2) args <|
    match env.upper args 1 with
    | none => .done (wrongArity "cluster")
    | some sub =>
      if sub = "COUNTKEYSINSLOT" then .look fun s => slotKeys env args (List.range s.dbs.length) []
      else if sub = "GETKEYSINSLOT" then
        if env.enough args [] then .done (env.listing "cluster" args [])
        else .look fun s => slotKeys env args (List.range s.dbs.length) []
      else .done (env.answer "cluster" args)

/-- COUNT, BLOCK and STREAMS: where the keys start, and whether BLOCK is there. -/
def xreadOptions (args : List Resp) : (fuel i : Nat) → (block : Bool) → Except Resp (Nat × Bool)
  | 0, i, block => .ok (i, block)
  | fuel + 1, i, block =>
    if args.length ≤ i then .ok (i, block)
    else match env.upper args i with
      | none => .error (wrongArity "xread")
      | some opt =>
        if opt = "COUNT" || opt = "BLOCK" then
          match (args[i + 1]?).elim (.error (wrongArity "xread")) (parseI64 "xread") with
          | .error e => .error e
          | .ok n =>
            if n < 0 then
              .error (.error (if opt = "COUNT" then "ERR value is not an integer or out of range"
                else "ERR value is out of range"))
            else xreadOptions args fuel (i + 2) (block || opt = "BLOCK")
        else if opt = "STREAMS" then .ok (i + 1, block)
        else xreadOptions args fuel (i + 1) block

/-- The rounds of a blocked XREAD. -/
def xreadRounds (db : Nat) (args : List Resp) (keys : List Bytes) : (rounds : Nat) → Handler
  | 0 => .done (.array none)
  | rounds + 1 => lookupAll env "xread" .write db args (fun seen =>
      if env.hasEntries args seen then .done (env.reply "xread" args seen)
      else xreadRounds db args keys rounds) keys []

/-- XREAD looks once, or again and again with BLOCK. -/
def cmdXread : Cmd := fun db args =>
  if args.length < 4 then .done (wrongArity "xread")
  else match xreadOptions env args args.length 1 false with
    | .error e => .done e
    | .ok (i, block) =>
      let remaining := args.length - i
      if remaining = 0 || remaining % 2 ≠ 0 then .done (wrongArity "xread")
      else match parseKeys ((args.drop i).take (remaining / 2)), env.refuse "xread" args with
        | none, _ => .done (wrongArity "xread")
        | _, some error => .done error
        | some keys, none => lookupAll env "xread" .write db args (fun seen =>
          if !block || env.hasEntries args seen then .done (env.reply "xread" args seen)
          else xreadRounds env db args keys env.rounds) keys []

section
variable {env} {db : Nat} {args : List Resp}

@[simp] theorem cmdObject_readonly : (cmdObject env db args).Readonly := by
  apply checked_readonly
  split
  · split <;> simp
  · exact trivial

@[simp] theorem cmdMemory_readonly : (cmdMemory env db args).Readonly := by
  apply checked_readonly
  split
  · exact trivial
  · split
    · split
      · exact trivial
      · split <;> simp
    · split
      · exact fun s => Handler.readonly_done _
      · exact trivial

@[simp] theorem cmdXinfo_readonly : (cmdXinfo env db args).Readonly := by
  apply checked_readonly
  split
  · exact trivial
  · split
    · extract_lets least
      split
      · exact trivial
      · split <;> simp
    · exact trivial

theorem geosearchIn_readonly (key : Bytes) (seen : List (Option Content)) :
    (geosearchIn env db args key seen).Readonly := by
  unfold geosearchIn
  split <;> simp

@[simp] theorem cmdGeosearch_readonly : (cmdGeosearch env db args).Readonly := by
  unfold cmdGeosearch
  split
  · exact trivial
  · split
    · exact trivial
    · split
      · rw [Handler.readonly_lookup]
        intro c
        split
        · exact trivial
        · exact geosearchIn_readonly _ _
      · exact geosearchIn_readonly _ _

@[simp] theorem cmdKeys_readonly : (cmdKeys env db args).Readonly := by
  apply checked_readonly
  split <;> simp

theorem slotKeys_readonly (dbs : List Nat) (keys : List Bytes) : (slotKeys env args dbs keys).Readonly := by
  induction dbs generalizing keys with
  | nil => exact trivial
  | cons db dbs ih =>
    rw [slotKeys, Handler.readonly_keysMatching]
    intro more
    split
    · exact trivial
    · exact ih _

@[simp] theorem cmdCluster_readonly : (cmdCluster env db args).Readonly := by
  apply checked_readonly
  split
  · exact trivial
  · split
    · exact fun s => slotKeys_readonly _ _
    · split
      · split
        · exact trivial
        · exact fun s => slotKeys_readonly _ _
      · exact trivial

theorem xreadRounds_readonly (keys : List Bytes) (rounds : Nat) :
    (xreadRounds env db args keys rounds).Readonly := by
  induction rounds with
  | zero => exact trivial
  | succ rounds ih =>
    refine lookupAll_readonly (fun seen => ?_) _ _
    split
    · exact trivial
    · exact ih

@[simp] theorem cmdXread_readonly : (cmdXread env db args).Readonly := by
  unfold cmdXread
  split
  · exact trivial
  · split
    · exact trivial
    · dsimp only
      split
      · exact trivial
      · split
        · exact trivial
        · exact trivial
        · refine lookupAll_readonly (fun seen => ?_) _ _
          split
          · exact trivial
          · exact xreadRounds_readonly _ _

end

end NexradeCache
