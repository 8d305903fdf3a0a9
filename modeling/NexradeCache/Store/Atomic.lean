import NexradeCache.Store.Twins

/-!
# Operations over two or more shards (`ShardedDatabase` of `nexrade-core/src/store.rs`)

`renamenx`, `lmove_atomic`, `smove_atomic` and `msetnx` hold the locks of all their shards, so each is one step
that goes from shard to shard. A panic in a container is an answer of its own.
-/

namespace NexradeCache

/-- How an operation fails. -/
inductive OpError where
  | wrongType
  | panicked
deriving DecidableEq, Repr

namespace Database

/-- `fetch_add`, or the saturating subtraction. -/
def adjustLiveBytes (s : Database) (delta : Int) : Database := { s with liveBytes := (s.liveBytes + delta).toNat }

/-- `bump_version`: the slot of the key goes one up, or starts at 1. -/
def bumpVersion (s : Database) (key : Bytes) : Database := { s with keyVersions := s.keyVersions.bumpVersion key }

/-- What `pop_list` and the removal of `smove_atomic` find. -/
inductive Taken (α : Type) where
  | value (v : α) (delta : Int) (emptied : Bool)
  | nothing
  | failed (e : OpError)

/-- `pop_list` on an entry. The flag says that the list is empty afterwards; the caller then removes the key. -/
def popEdit (thr : ListThresholds) (fromLeft : Bool) (e : Entry) : DataType × Taken Bytes :=
  match e.value with
  | .list l =>
    match if fromLeft then l.popFront thr else l.popBack thr with
    | some (l, some v) => (.list l, .value v (-(v.length : Int)) (l.len == 0))
    | some (l, none) => (.list l, .nothing)
    | none => (e.value, .failed .panicked)
  | value => (value, .failed .wrongType)

/-- `ShardedDatabase::pop_list`, on the shard of the key: an expired entry is taken away first, and a key that is
not there gives nothing. -/
def popList (thr : ListThresholds) (now : Nat) (s : Database) (key : Bytes) (fromLeft : Bool) : Database × Taken Bytes :=
  let (s, taken) := s.getMutWith now key (popEdit thr fromLeft)
  (s, taken.getD .nothing)

/-- The payload that was added; the entry is a list already, or new. -/
def pushEdit (thr : ListThresholds) (toLeft : Bool) (v : Bytes) (e : Entry) : DataType × Option Int :=
  match e.value with
  | .list l =>
    match if toLeft then l.pushFront thr v else l.pushBack thr v with
    | some l => (.list l, some v.length)
    | none => (e.value, none)
  | value => (value, some v.length)

/-- `push_list`: a list is created where none is, and the version of the key goes up whatever is found. -/
def pushList (thr : ListThresholds) (now : Nat) (s : Database) (key v : Bytes) (toLeft : Bool) : Database × Option Int :=
  let (s, delta) := s.getOrInsertWithEdit now key (.new (.list .new)) (pushEdit thr toLeft v)
  (s.bumpVersion key, delta)

/-- The removal of `smove_atomic` on an entry. The flag says that the set is empty afterwards. -/
def takeEdit (thr : SetThresholds) (member : Bytes) (e : Entry) : DataType × Taken Unit :=
  match e.value with
  | .set set =>
    match set.remove thr member with
    | some (set, true, delta) => (.set set, .value () delta set.isEmpty)
    | some (set, false, _) => (.set set, .nothing)
    | none => (e.value, .failed .panicked)
  | value => (value, .failed .wrongType)

/-- The removal under the lock of the source. -/
def takeMember (thr : SetThresholds) (now : Nat) (s : Database) (key member : Bytes) : Database × Taken Unit :=
  let (s, taken) := s.getMutWith now key (takeEdit thr member)
  (s, taken.getD .nothing)

/-- The insertion of `smove_atomic` on an entry. The destination was looked at before, so another type is left as it
is. -/
def addEdit (thr : SetThresholds) (member : Bytes) (e : Entry) : DataType × Option Int :=
  match e.value with
  | .set set =>
    match set.insert thr member with
    | some (set, _, delta) => (.set set, some delta)
    | none => (e.value, none)
  | value => (value, some 0)

/-- The insertion under the lock of the destination. -/
def addMember (thr : SetThresholds) (now : Nat) (s : Database) (key member : Bytes) : Database × Option Int :=
  let (s, delta) := s.getOrInsertWithEdit now key (.new (.set .new)) (addEdit thr member)
  (s.bumpVersion key, delta)

end Database

namespace ShardedDatabase

variable (now : Nat) (db : ShardedDatabase)

/-- `contains_key`. It goes through `get`, so it removes an expired entry. -/
def containsKey (key : Bytes) : ShardedDatabase × Bool :=
  let (db, e) := db.writeFor key fun s => s.get now key
  (db, e.isSome)

/-- RENAMENX. -/
def renamenx (src dst : Bytes) : ShardedDatabase × Option Nat :=
  match db.containsKey now dst with
  | (db, true) => (db, some 0)
  | (db, false) =>
    match db.writeFor src fun s => s.remove src with
    | (db, some entry) => ((db.writeFor dst fun s => (s.insert dst entry, ())).1, some 1)
    | (db, none) => (db, none)

/-- What is left of the source when something was taken out of it. -/
def afterTaking (src : Bytes) (delta : Int) (emptied : Bool) : ShardedDatabase :=
  let db := (db.writeFor src fun s => (s.adjustLiveBytes delta, ())).1
  if emptied then (db.writeFor src fun s => ((s.remove src).1, ())).1 else db

/-- The destination is a list, or there is none. -/
def dstOk (dst : Bytes) : Bool :=
  match (db.shardFor dst).getRo now dst with
  | none => true
  | some e => match e.value with
    | .list _ => true
    | _ => false

/-- The end of a move, when the destination has what was added. -/
def added {α : Type} (dst : Bytes) (answer : α) (db : ShardedDatabase) (delta : Option Int) :
    ShardedDatabase × Except OpError α :=
  match delta with
  | none => (db, .error .panicked)
  | some delta => ((db.writeFor dst fun s => (s.adjustLiveBytes delta, ())).1, .ok answer)

/-- The second half of `lmove_atomic`: what was popped is pushed to the destination. Nothing comes between the
halves, since both locks are held from the first to the last. -/
def lmoveTaken (thr : ListThresholds) (src dst : Bytes) (toLeft : Bool) (taken : Database.Taken Bytes) :
    ShardedDatabase × Except OpError (Option Bytes) :=
  match taken with
  | .failed e => (db, .error e)
  | .nothing => (db, .ok none)
  | .value v delta emptied =>
    let (db, delta) := (db.afterTaking src delta emptied).writeFor dst fun s => s.pushList thr now dst v toLeft
    added dst (some v) db delta

/-- LMOVE and RPOPLPUSH. -/
def lmoveAtomic (thr : ListThresholds) (src dst : Bytes) (fromLeft toLeft : Bool) :
    ShardedDatabase × Except OpError (Option Bytes) :=
  if db.dstOk now dst then
    let (db, taken) := db.writeFor src fun s => s.popList thr now src fromLeft
    db.lmoveTaken now thr src dst toLeft taken
  else (db, .error .wrongType)

/-- Reads the map directly. -/
def dstIsUsable (dst : Bytes) : Bool :=
  match (db.shardFor dst).entries.lookup dst with
  | none => true
  | some e => match e.value with
    | .set _ => true
    | _ => false

/-- The second half of `smove_atomic`. -/
def smoveTaken (thr : SetThresholds) (src dst member : Bytes) (taken : Database.Taken Unit) :
    ShardedDatabase × Except OpError Nat :=
  match taken with
  | .failed e => (db, .error e)
  | .nothing => (db, .ok 0)
  | .value () delta emptied =>
    let (db, delta) := (db.afterTaking src delta emptied).writeFor dst fun s => s.addMember thr now dst member
    added dst 1 db delta

/-- SMOVE. -/
def smoveAtomic (thr : SetThresholds) (src dst member : Bytes) : ShardedDatabase × Except OpError Nat :=
  if db.dstIsUsable dst then
    let (db, taken) := db.writeFor src fun s => s.takeMember thr now src member
    db.smoveTaken now thr src dst member taken
  else (db, .error .wrongType)

/-- The pairs in the order of their shards. -/
def tagAndSortPairs (pairs : List (Bytes × Entry)) : List (Bytes × Entry) :=
  pairs.mergeSort fun a b => decide (db.shardIdx a.1 ≤ db.shardIdx b.1)

/-- The pairs are inserted from left to right, so of two with one key the later stays. -/
def insertAll (db : ShardedDatabase) (pairs : List (Bytes × Entry)) : ShardedDatabase :=
  pairs.foldl (fun db p => (db.writeFor p.1 fun s => (s.insert p.1 p.2, ())).1) db

/-- `msetnx`: all keys are looked at before any is written. -/
def msetnx (pairs : List (Bytes × Entry)) : ShardedDatabase × Bool :=
  let tagged := db.tagAndSortPairs pairs
  if tagged.any fun p => ((db.shardFor p.1).getRo now p.1).isSome then (db, false)
  else (db.insertAll tagged, true)

/-- The first key of the first shard that has one. -/
def randomKey : Option Bytes := db.shards.findSome? fun s => s.entries.keys.head?

end ShardedDatabase

/-! ## Operations that are blind -/

namespace Database

variable (now : Nat) (key : Bytes)

/-- A pop does not tell an expired list from none. -/
theorem blind_popList (thr : ListThresholds) (fromLeft : Bool) : Blind now fun s => s.popList thr now key fromLeft :=
  (blind_getMutWith now key (popEdit thr fromLeft)).map (·.getD .nothing)

theorem blind_takeMember (thr : SetThresholds) (member : Bytes) : Blind now fun s => s.takeMember thr now key member :=
  (blind_getMutWith now key (takeEdit thr member)).map (·.getD .nothing)

/-- A push replaces an expired entry by a new list, as if nothing had been there. -/
theorem blind_pushList (thr : ListThresholds) (v : Bytes) (toLeft : Bool) :
    Blind now fun s => s.pushList thr now key v toLeft :=
  (blind_getOrInsertWithEdit now key (.new (.list .new)) (pushEdit thr toLeft v)).bind fun delta =>
    Blind.of_entries (·.bumpVersion key) delta (fun _ => rfl) fun _ => rfl

theorem blind_addMember (thr : SetThresholds) (member : Bytes) : Blind now fun s => s.addMember thr now key member :=
  (blind_getOrInsertWithEdit now key (.new (.set .new)) (addEdit thr member)).bind fun delta =>
    Blind.of_entries (·.bumpVersion key) delta (fun _ => rfl) fun _ => rfl

/-- The accounting of the payload is not seen by a read. -/
theorem blind_adjustLiveBytes (delta : Int) : Blind now fun s => (s.adjustLiveBytes delta, ()) :=
  Blind.of_entries (·.adjustLiveBytes delta) () (fun _ => rfl) fun _ => rfl

end Database

namespace ShardedDatabase

variable (now : Nat)

theorem blind_containsKey (key : Bytes) : Blind now fun db => db.containsKey now key :=
  (Blind.writeFor (Database.blind_get now key) key).map Option.isSome

/-- The deletion of a key, without the answer. -/
theorem blind_remove (key : Bytes) : Blind now fun db => db.writeFor key fun s => ((s.remove key).1, ()) :=
  Blind.writeFor (Database.blind_remove now key) key

/-- What is left of the source is the same for twins. -/
theorem blind_afterTaking (src : Bytes) (delta : Int) (emptied : Bool) :
    Blind now fun db => (db.afterTaking src delta emptied, ()) := by
  have adjusted := Blind.writeFor (Database.blind_adjustLiveBytes now delta) src
  cases emptied with
  | false => exact adjusted.map fun _ => ()
  | true => exact (adjusted.bind fun _ => blind_remove now src).map fun _ => ()

theorem blind_added {α : Type} (dst : Bytes) (answer : α) (delta : Option Int) :
    Blind now fun db => added dst answer db delta := by
  cases delta with
  | none => exact Respects.pure _
  | some delta =>
    have adjusted := Blind.writeFor (Database.blind_adjustLiveBytes now delta) dst
    exact adjusted.map fun _ => (Except.ok answer : Except OpError α)

/-- The second half of a move is the same for twins. -/
theorem blind_lmoveTaken (thr : ListThresholds) (src dst : Bytes) (toLeft : Bool) (taken : Database.Taken Bytes) :
    Blind now fun db => db.lmoveTaken now thr src dst toLeft taken := by
  cases taken with
  | failed e => exact Respects.pure _
  | nothing => exact Respects.pure _
  | value v delta emptied =>
    have pushed := Blind.writeFor (Database.blind_pushList now dst thr v toLeft) dst
    exact ((blind_afterTaking now src delta emptied).bind fun _ => pushed).bind fun delta =>
      blind_added now dst (some v) delta

/-- LMOVE does not see what is expired, at the source or at the destination. -/
theorem blind_lmoveAtomic (thr : ListThresholds) (src dst : Bytes) (fromLeft toLeft : Bool) :
    Blind now fun db => db.lmoveAtomic now thr src dst fromLeft toLeft := by
  have move := (Blind.writeFor (Database.blind_popList now src thr fromLeft) src).bind
    (blind_lmoveTaken now thr src dst toLeft)
  refine ⟨fun {db db'} twin => ?_⟩
  have ok : db.dstOk now dst = db'.dstOk now dst := by
    unfold dstOk
    rw [twin.getRo dst]
  unfold lmoveAtomic
  rw [ok]
  split
  · exact move.related twin
  · exact ⟨rfl, twin⟩

/-- The second half of SMOVE is the same for twins. -/
theorem blind_smoveTaken (thr : SetThresholds) (src dst member : Bytes) (taken : Database.Taken Unit) :
    Blind now fun db => db.smoveTaken now thr src dst member taken := by
  cases taken with
  | failed e => exact Respects.pure _
  | nothing => exact Respects.pure _
  | value v delta emptied =>
    have put := Blind.writeFor (Database.blind_addMember now dst thr member) dst
    exact ((blind_afterTaking now src delta emptied).bind fun _ => put).bind fun delta => blind_added now dst 1 delta

/-- Twins that get the same entries are twins. -/
theorem blind_insertAll (pairs : List (Bytes × Entry)) : Blind now fun db => (db.insertAll pairs, ()) :=
  Respects.foldl pairs fun p _ => Blind.writeFor (Database.blind_insert now p.1 p.2) p.1

/-- MSETNX writes over expired keys as if they were not there. -/
theorem blind_msetnx (pairs : List (Bytes × Entry)) : Blind now fun db => db.msetnx now pairs := by
  refine ⟨fun {db db'} twin => ?_⟩
  have tagged : db'.tagAndSortPairs pairs = db.tagAndSortPairs pairs := by
    unfold tagAndSortPairs
    simp only [twin.shardIdx]
  unfold msetnx
  simp only [tagged, twin.getRo]
  split
  · exact ⟨rfl, twin⟩
  · exact ⟨rfl, ((blind_insertAll now _).related twin).2⟩

end ShardedDatabase

end NexradeCache
