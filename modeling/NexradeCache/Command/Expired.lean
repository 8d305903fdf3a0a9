import NexradeCache.Server.Transaction
import NexradeCache.Store.Drops

/-!
# What an operation makes of expired entries (`nexrade-core/src/store.rs`, `nexrade-core/src/command/generic.rs`)

`KeyspaceOp` are the operations of the keyspace, with the handlers that are made of `remove`. Most of them
look at an entry only where it is live. Those that take an entry out with `remove`, SMOVE's look at its
destination and RANDOMKEY see entries that have expired; `Spared` says when that makes no difference.
-/

namespace NexradeCache

namespace ShardedDatabase

/-! ## Handlers made of `remove` -/

/-- DEL: how many keys it took out. -/
def cmdDel (db : ShardedDatabase) : (keys : List Bytes) → ShardedDatabase × Nat
  | [] => (db, 0)
  | key :: keys =>
    let (db, removed) := db.writeFor key fun s => s.remove key
    let (db, deleted) := db.cmdDel keys
    (db, if removed.isSome then deleted + 1 else deleted)

/-- UNLINK: the entries it took out, which are dropped elsewhere. -/
def unlinked (db : ShardedDatabase) : (keys : List Bytes) → ShardedDatabase × List Entry
  | [] => (db, [])
  | key :: keys =>
    let (db, removed) := db.writeFor key fun s => s.remove key
    let (db, evicted) := db.unlinked keys
    (db, removed.toList ++ evicted)

/-- UNLINK, which is DEL here. -/
def cmdUnlink (db : ShardedDatabase) (keys : List Bytes) : ShardedDatabase × Nat :=
  let (db, evicted) := db.unlinked keys
  (db, evicted.length)

/-- What GETDEL makes of the entry it has removed. -/
def getdelAnswer : Option Entry → Except OpError (Option Bytes)
  | none => .ok none
  | some e => match e.value.asStringBytes with
    | some v => .ok (some v)
    | none => .error .wrongType

/-- GETDEL. It removes the key before it looks at the type. -/
def cmdGetdel (db : ShardedDatabase) (key : Bytes) : ShardedDatabase × Except OpError (Option Bytes) :=
  let (db, removed) := db.writeFor key fun s => s.remove key
  (db, getdelAnswer removed)

end ShardedDatabase

/-- An operation, with the type of its result. -/
inductive KeyspaceOp : Type → Type 1 where
  | get (key : Bytes) : KeyspaceOp (Option Entry)
  | getRo (key : Bytes) : KeyspaceOp (Option Entry)
  | getMut {α : Type} (key : Bytes) (edit : Entry → DataType × α) : KeyspaceOp (Option α)
  | getOrInsertWith {α : Type} (key : Bytes) (fresh : Entry) (edit : Entry → DataType × α) : KeyspaceOp α
  | setPlain (key value : Bytes) : KeyspaceOp Unit
  | insert (key : Bytes) (entry : Entry) : KeyspaceOp Unit
  | incrInt (key : Bytes) (delta : Int64) : KeyspaceOp (Except IncrError Int64)
  | containsKey (key : Bytes) : KeyspaceOp Bool
  | rename (src dst : Bytes) : KeyspaceOp Bool
  | renamenx (src dst : Bytes) : KeyspaceOp (Option Nat)
  | copyEntry (src dst : Bytes) (replace : Bool) : KeyspaceOp Bool
  | lmoveAtomic (thr : ListThresholds) (src dst : Bytes) (fromLeft toLeft : Bool) :
    KeyspaceOp (Except OpError (Option Bytes))
  | smoveAtomic (thr : SetThresholds) (src dst member : Bytes) : KeyspaceOp (Except OpError Nat)
  | msetnx (pairs : List (Bytes × Entry)) : KeyspaceOp Bool
  | keysMatching (pattern : Bytes) : KeyspaceOp (List Bytes)
  | scanPage (cursor count : Nat) (pattern : Bytes) (keep : Bytes → Entry → Bool) : KeyspaceOp (List Bytes × Nat)
  | randomKey : KeyspaceOp (Option Bytes)
  | del (keys : List Bytes) : KeyspaceOp Nat
  | unlink (keys : List Bytes) : KeyspaceOp Nat
  | getdel (key : Bytes) : KeyspaceOp (Except OpError (Option Bytes))

namespace KeyspaceOp

/-- What an operation does to a database. -/
def run {α : Type} (now : Nat) (db : ShardedDatabase) : KeyspaceOp α → ShardedDatabase × α
  | .get key => db.writeFor key fun s => s.get now key
  | .getRo key => (db, (db.shardFor key).getRo now key)
  | .getMut key edit => db.writeFor key fun s => s.getMutWith now key edit
  | .getOrInsertWith key fresh edit => db.writeFor key fun s => s.getOrInsertWithEdit now key fresh edit
  | .setPlain key value => db.writeFor key fun s => (s.setPlain now key value, ())
  | .insert key entry => db.writeFor key fun s => (s.insert key entry, ())
  | .incrInt key delta => db.incrInt now key delta
  | .containsKey key => db.containsKey now key
  | .rename src dst => db.rename src dst
  | .renamenx src dst => db.renamenx now src dst
  | .copyEntry src dst replace => db.copyEntry now src dst replace
  | .lmoveAtomic thr src dst fromLeft toLeft => db.lmoveAtomic now thr src dst fromLeft toLeft
  | .smoveAtomic thr src dst member => db.smoveAtomic now thr src dst member
  | .msetnx pairs => db.msetnx now pairs
  | .keysMatching pattern => db.keysMatching now pattern
  | .scanPage cursor count pattern keep => (db, db.scanPage now cursor count pattern scanOrderKey keep)
  | .randomKey => (db, db.randomKey)
  | .del keys => db.cmdDel keys
  | .unlink keys => db.cmdUnlink keys
  | .getdel key => db.cmdGetdel key

/-- Where an operation sees an expired entry, it is not one of those that were removed. -/
def Spared {α : Type} (now : Nat) (db db' : ShardedDatabase) : KeyspaceOp α → Prop
  | .rename src _ => db.Kept db' src
  | .renamenx src dst => db.Kept db' src ∨ src = dst ∨ ((db.shardFor dst).getRo now dst).isSome
  | .smoveAtomic _ src dst _ =>
    db.Kept db' dst ∨ (∃ e set, db.stored dst = some e ∧ e.value = .set set) ∨
      ∃ e, (db.shardFor src).getRo now src = some e ∧ ∀ set, e.value ≠ .set set
  | .randomKey => ∀ key ∈ db.storedKeys.head?, key ∈ db'.storedKeys
  | .del keys => ∀ key ∈ keys, db.Kept db' key
  | .unlink keys => ∀ key ∈ keys, db.Kept db' key
  | .getdel key => db.Kept db' key
  | _ => True

/-- The same result on both, and again the same but for expired entries. -/
def Alike {α : Type} (now : Nat) (op : KeyspaceOp α) (db db' : ShardedDatabase) : Prop :=
  (op.run now db).2 = (op.run now db').2 ∧ ShardedDatabase.Twin now (op.run now db).1 (op.run now db').1

end KeyspaceOp

/-- A caller that writes back the value it is handed. -/
theorem Database.twin_getMutWith {α : Type} {now : Nat} {s : Database} {key : Bytes} {e : Entry}
    {edit : Entry → DataType × α} (found : s.getRo now key = some e) (same : (edit e).1 = e.value) :
    Twin now s (s.getMutWith now key edit).1 := by
  have acts := acts_getMutWith now key edit
  refine ⟨(acts.clock s).symm, fun x => ?_⟩
  rw [acts.getRo]
  split
  · rename_i eq
    rw [eq, found, Option.map_some, same]
  · rfl

namespace ShardedDatabase

variable {α : Type} {now : Nat} {db db' : ShardedDatabase}

/-! ## Taking an entry out -/

/-- `remove`, in the shard of the key. -/
def take (db : ShardedDatabase) (key : Bytes) : ShardedDatabase × Option Entry := db.writeFor key fun s => s.remove key

/-- `remove` answers with the entry, expired or not. -/
theorem take_answer (db : ShardedDatabase) (key : Bytes) : (db.take key).2 = db.stored key := by
  show ((db.shardFor key).remove key).2 = _
  unfold Database.remove stored
  cases (db.shardFor key).entries.lookup key <;> rfl

theorem stored_take (db : ShardedDatabase) (key x : Bytes) :
    (db.take key).1.stored x = if x = key then none else db.stored x := by
  obtain ⟨here, other⟩ := view_writeFor (Database.moves_remove key) db
  split
  · rename_i same
    rw [same]
    refine here.entry.trans ?_
    cases h : (db.view key).entry <;> simp [View.removed, h]
  · rename_i ne
    exact (other ne).entry

/-- Twins are twins when a key is taken from both. -/
theorem Twin.take (twin : Twin now db db') (key : Bytes) : Twin now (db.take key).1 (db'.take key).1 :=
  ((blind_remove now key).related twin).2

/-- What follows depends on the entry that was taken out. -/
theorem Twin.after_take {g : Option Entry → ShardedDatabase → ShardedDatabase × α} (hg : ∀ a, Blind now (g a))
    (twin : Twin now db db') {key : Bytes} (kept : db.Kept db' key) :
    (g (db.take key).2 (db.take key).1).2 = (g (db'.take key).2 (db'.take key).1).2 ∧
      Twin now (g (db.take key).2 (db.take key).1).1 (g (db'.take key).2 (db'.take key).1).1 := by
  have same : (db'.take key).2 = (db.take key).2 := by rw [take_answer, take_answer, kept]
  rw [same]
  exact (hg _).related (twin.take key)

/-- What RENAME and RENAMENX do with the entry of the source. -/
def placed (answer : Option Entry → α) (dst : Bytes) (taken : Option Entry) (db : ShardedDatabase) :
    ShardedDatabase × α :=
  match taken with
  | some entry => ((db.writeFor dst fun s => (s.insert dst entry, ())).1, answer taken)
  | none => (db, answer taken)

/-- What is placed under a key does not depend on what is expired. -/
theorem blind_placed (now : Nat) (answer : Option Entry → α) (dst : Bytes) (taken : Option Entry) :
    Blind now (placed answer dst taken) := by
  cases taken with
  | none => exact Respects.pure _
  | some entry => exact (Blind.writeFor (Database.blind_insert now dst entry) dst).map fun _ => answer (some entry)

/-- The answer depends on what was taken only. -/
theorem placed_answer (answer : Option Entry → α) (dst : Bytes) (taken : Option Entry) (db : ShardedDatabase) :
    (placed answer dst taken db).2 = answer taken := by
  cases taken <;> rfl

theorem rename_eq (db : ShardedDatabase) (src dst : Bytes) :
    db.rename src dst = placed Option.isSome dst (db.take src).2 (db.take src).1 := by
  unfold rename take
  rcases db.writeFor src fun s => s.remove src with ⟨db, _ | entry⟩ <;> rfl

theorem renamenx_eq (now : Nat) (db : ShardedDatabase) (src dst : Bytes) :
    db.renamenx now src dst =
      if (db.containsKey now dst).2 then ((db.containsKey now dst).1, some 0)
      else placed (Option.map fun _ => 1) dst ((db.containsKey now dst).1.take src).2
        ((db.containsKey now dst).1.take src).1 := by
  unfold renamenx take
  rcases db.containsKey now dst with ⟨db, _ | _⟩
  · rcases eq : db.writeFor src fun s => s.remove src with ⟨db, _ | entry⟩ <;> simp [eq, placed]
  · rfl

/-- The entry of a key is kept, or is one of those that were removed. -/
theorem Drops.kept_or_taken (drops : Drops now db db') (key : Bytes) :
    db.Kept db' key ∨ (∃ e, db.stored key = some e) ∧ db'.stored key = none := by
  rcases drops.stored key with same | ⟨⟨e, found, -⟩, none'⟩
  · exact .inl same
  · exact .inr ⟨⟨e, found⟩, none'⟩

/-- **RENAME does not see what is expired, but for its source.** -/
theorem rename_alike (drops : Drops now db db') (src dst : Bytes) :
    ((db.rename src dst).2 = (db'.rename src dst).2 ∧ Twin now (db.rename src dst).1 (db'.rename src dst).1) ↔
      db.Kept db' src := by
  rw [rename_eq, rename_eq]
  constructor
  · rintro ⟨same, -⟩
    rw [placed_answer, placed_answer, take_answer, take_answer] at same
    rcases drops.kept_or_taken src with kept | ⟨⟨e, found⟩, none'⟩
    · exact kept
    · simp [found, none'] at same
  · exact drops.twin.after_take (blind_placed now Option.isSome dst)

theorem containsKey_answer (now : Nat) (db : ShardedDatabase) (key : Bytes) :
    (db.containsKey now key).2 = ((db.shardFor key).getRo now key).isSome := by
  show ((db.shardFor key).get now key).2.isSome = _
  unfold Database.get Database.getRo
  cases (db.shardFor key).entries.lookup key with
  | none => rfl
  | some e => cases expired : e.isExpired now <;> simp [expired]

/-- When the key is not live, the look at it deletes it. -/
theorem stored_containsKey {key : Bytes} (absent : (db.shardFor key).getRo now key = none) (x : Bytes) :
    (db.containsKey now key).1.stored x = if x = key then none else db.stored x := by
  obtain ⟨here, other⟩ := view_writeFor (Database.moves_get now key) db
  split
  · rename_i same
    rw [same]
    refine here.entry.trans ?_
    show View.entry (match (db.shardFor key).entries.lookup key with | some e => _ | none => _) = none
    rw [getRo_stored, stored] at absent
    cases found : (db.shardFor key).entries.lookup key with
    | none => exact found
    | some e =>
      rw [found] at absent
      cases expired : e.isExpired now with
      | false => simp [seen_of_live expired] at absent
      | true => simp [View.removed, view, Database.view, found, expired]
  · rename_i ne
    exact (other ne).entry

/-- **RENAMENX does not, but for its source**, and that only if it gets as far. -/
theorem renamenx_alike (drops : Drops now db db') (src dst : Bytes) :
    ((db.renamenx now src dst).2 = (db'.renamenx now src dst).2 ∧
        Twin now (db.renamenx now src dst).1 (db'.renamenx now src dst).1) ↔
      (db.Kept db' src ∨ src = dst ∨ ((db.shardFor dst).getRo now dst).isSome) := by
  obtain ⟨same, twin⟩ := (blind_containsKey now dst).related drops.twin
  have answer := containsKey_answer now db dst
  have getRo := drops.twin.getRo dst
  rw [renamenx_eq, renamenx_eq, ← same, answer]
  cases found : (db.shardFor dst).getRo now dst with
  | some e => simpa using twin
  | none =>
    have stored := stored_containsKey found
    have stored' := stored_containsKey (getRo ▸ found)
    simp only [Option.isSome_none, Bool.false_eq_true, if_false, or_false]
    have kept : (db.containsKey now dst).1.Kept (db'.containsKey now dst).1 src ↔ db.Kept db' src ∨ src = dst := by
      rw [Kept, Kept, stored, stored']
      by_cases eq : src = dst <;> simp [eq]
    rw [← kept]
    constructor
    · rintro ⟨same, -⟩
      rw [placed_answer, placed_answer, take_answer, take_answer] at same
      rw [kept]
      rcases drops.kept_or_taken src with kept | ⟨⟨e, there⟩, none'⟩
      · exact .inl kept
      · by_cases eq : src = dst
        · exact .inr eq
        · simp [stored, stored', eq, there, none'] at same
    · exact twin.after_take (blind_placed now _ dst)

/-- **GETDEL sees an expired entry of its key.** -/
theorem getdel_alike (drops : Drops now db db') (key : Bytes) :
    ((db.cmdGetdel key).2 = (db'.cmdGetdel key).2 ∧ Twin now (db.cmdGetdel key).1 (db'.cmdGetdel key).1) ↔
      db.Kept db' key := by
  have answer (db : ShardedDatabase) : (db.cmdGetdel key).2 = getdelAnswer (db.stored key) := by
    rw [← take_answer]
    rfl
  constructor
  · rintro ⟨same, -⟩
    rw [answer, answer] at same
    rcases drops.kept_or_taken key with kept | ⟨⟨e, found⟩, none'⟩
    · exact kept
    · rw [found, none'] at same
      cases value : e.value.asStringBytes <;> simp [getdelAnswer, value] at same
  · intro kept
    exact ⟨by rw [answer, answer, kept], drops.twin.take key⟩

/-! ## DEL and UNLINK -/

theorem unlinked_eq (db : ShardedDatabase) (keys : List Bytes) : db.cmdUnlink keys = db.cmdDel keys := by
  induction keys generalizing db with
  | nil => rfl
  | cons key keys ih =>
    have rest := ih (db.take key).1
    have state : ((db.take key).1.unlinked keys).1 = ((db.take key).1.cmdDel keys).1 := congrArg Prod.fst rest
    have count : ((db.take key).1.unlinked keys).2.length = ((db.take key).1.cmdDel keys).2 := congrArg Prod.snd rest
    refine Prod.ext state ?_
    show ((db.take key).2.toList ++ ((db.take key).1.unlinked keys).2).length =
      if (db.take key).2.isSome then ((db.take key).1.cmdDel keys).2 + 1 else ((db.take key).1.cmdDel keys).2
    rw [List.length_append, count]
    cases (db.take key).2 with
    | none => simp
    | some e => simp [Nat.add_comm]

theorem twin_cmdDel (twin : Twin now db db') (keys : List Bytes) : Twin now (db.cmdDel keys).1 (db'.cmdDel keys).1 := by
  induction keys generalizing db db' with
  | nil => exact twin
  | cons key keys ih => exact ih (twin.take key)

/-- DEL counts less where there is less, and the same only if nothing it names is missing. -/
theorem cmdDel_count (less : ∀ key, db.Kept db' key ∨ (∃ e, db.stored key = some e) ∧ db'.stored key = none)
    (keys : List Bytes) :
    (db'.cmdDel keys).2 ≤ (db.cmdDel keys).2 ∧
      ((db.cmdDel keys).2 = (db'.cmdDel keys).2 ↔ ∀ key ∈ keys, db.Kept db' key) := by
  induction keys generalizing db db' with
  | nil => simp [cmdDel]
  | cons key keys ih =>
    have count (db : ShardedDatabase) : (db.cmdDel (key :: keys)).2 =
        if (db.stored key).isSome then ((db.take key).1.cmdDel keys).2 + 1 else ((db.take key).1.cmdDel keys).2 := by
      rw [← take_answer]
      rfl
    have kept (x : Bytes) : (db.take key).1.Kept (db'.take key).1 x ↔ x = key ∨ db.Kept db' x := by
      rw [Kept, stored_take, stored_take, Kept]
      by_cases eq : x = key <;> simp [eq]
    have less' (x : Bytes) : (db.take key).1.Kept (db'.take key).1 x ∨
        (∃ e, (db.take key).1.stored x = some e) ∧ (db'.take key).1.stored x = none := by
      rw [kept, stored_take, stored_take]
      by_cases eq : x = key
      · exact .inl (.inl eq)
      · simpa [eq] using less x
    obtain ⟨le, same⟩ := ih less'
    simp only [kept] at same
    rw [count, count, List.forall_mem_cons]
    rcases less key with here | ⟨⟨e, found⟩, none'⟩
    · rw [here]
      have rest : (∀ x ∈ keys, x = key ∨ db.Kept db' x) ↔ ∀ x ∈ keys, db.Kept db' x := by
        refine forall₂_congr fun x _ => or_iff_right_of_imp ?_
        rintro rfl
        exact here
      rw [rest] at same
      split
      · exact ⟨Nat.succ_le_succ le, by rw [Nat.add_right_cancel_iff, same]; exact (and_iff_right here).symm⟩
      · exact ⟨le, by rw [same]; exact (and_iff_right here).symm⟩
    · have gone : ¬db.Kept db' key := by simp [Kept, found, none']
      simp only [found, none', Option.isSome_some, Option.isSome_none, if_true, Bool.false_eq_true, if_false]
      exact ⟨by omega, ⟨fun eq => by omega, fun h => absurd h.1 gone⟩⟩

theorem del_alike (drops : Drops now db db') (keys : List Bytes) :
    ((db.cmdDel keys).2 = (db'.cmdDel keys).2 ∧ Twin now (db.cmdDel keys).1 (db'.cmdDel keys).1) ↔
      ∀ key ∈ keys, db.Kept db' key := by
  rw [(cmdDel_count drops.kept_or_taken keys).2]
  exact and_iff_left (twin_cmdDel drops.twin keys)

/-! ## SMOVE -/

/-- An operation that leaves its shard a twin of what it was. -/
theorem twin_writeFor {f : Database → Database × α} {key : Bytes}
    (twin : Database.Twin now (db.shardFor key) (f (db.shardFor key)).1) : Twin now db (db.writeFor key f).1 := by
  refine forall₂_set_right Database.Twin.refl fun s here => ?_
  have owner : db.shards[db.shardIdx key]? = some (db.shardFor key) := List.getElem?_eq_getElem (db.shardIdx_lt key)
  obtain rfl : db.shardFor key = s := Option.some.inj (owner.symm.trans here)
  exact twin

/-- The key is live, and not a set. -/
def LiveOther (now : Nat) (db : ShardedDatabase) (key : Bytes) : Prop :=
  ∃ e, (db.shardFor key).getRo now key = some e ∧ ∀ set, e.value ≠ .set set

theorem takeEdit_wrongType {thr : SetThresholds} {member : Bytes} {e : Entry} :
    (Database.takeEdit thr member e).2 = .failed .wrongType ↔ ∀ set, e.value ≠ .set set := by
  unfold Database.takeEdit
  cases value : e.value with
  | set set => rcases removed : set.remove thr member with _ | ⟨left, _ | _, delta⟩ <;> simp [removed]
  | _ => simp

theorem takeMember_answer (thr : SetThresholds) (src member : Bytes) :
    (db.writeFor src fun s => s.takeMember thr now src member).2 =
      (((db.shardFor src).getRo now src).map fun e => (Database.takeEdit thr member e).2).getD .nothing := by
  show ((db.shardFor src).takeMember thr now src member).2 = _
  unfold Database.takeMember Database.getMutWith
  cases (db.shardFor src).getRo now src <;> rfl

theorem takeMember_wrongType (thr : SetThresholds) (src member : Bytes) :
    (db.writeFor src fun s => s.takeMember thr now src member).2 = .failed .wrongType ↔ db.LiveOther now src := by
  rw [takeMember_answer, LiveOther]
  cases (db.shardFor src).getRo now src with
  | none => simp
  | some e => simpa using takeEdit_wrongType

/-- Nothing is written to a source that is not a set. -/
theorem twin_takeMember {thr : SetThresholds} {src member : Bytes} (other : db.LiveOther now src) :
    Twin now db (db.writeFor src fun s => s.takeMember thr now src member).1 := by
  obtain ⟨e, found, notSet⟩ := other
  refine twin_writeFor (Database.twin_getMutWith found ?_)
  unfold Database.takeEdit
  cases value : e.value with
  | set set => exact absurd value (notSet set)
  | _ => rfl

theorem smove_wrongType (thr : SetThresholds) {src : Bytes} (dst member : Bytes) (other : db.LiveOther now src) :
    (db.smoveAtomic now thr src dst member).2 = .error .wrongType ∧
      Twin now db (db.smoveAtomic now thr src dst member).1 := by
  have failed := (takeMember_wrongType thr src member).2 other
  have twin : Twin now db (db.writeFor src fun s => s.takeMember thr now src member).1 := twin_takeMember other
  unfold smoveAtomic
  split
  · dsimp only
    rw [failed]
    exact ⟨rfl, twin⟩
  · exact ⟨rfl, Twin.refl now db⟩

theorem smoveTaken_wrongType {thr : SetThresholds} {src dst member : Bytes} {taken : Database.Taken Unit}
    (h : (db.smoveTaken now thr src dst member taken).2 = .error .wrongType) : taken = .failed .wrongType := by
  cases taken with
  | failed e => exact congrArg Database.Taken.failed (Except.error.inj h)
  | nothing => nomatch h
  | value v delta emptied =>
    have done (db : ShardedDatabase) (delta : Option Int) : (added dst 1 db delta).2 ≠ .error OpError.wrongType := by
      cases delta <;> simp [added]
    exact absurd h (done _ _)

theorem dstIsUsable_eq (db : ShardedDatabase) (dst : Bytes) :
    db.dstIsUsable dst = true ↔ db.stored dst = none ∨ ∃ e set, db.stored dst = some e ∧ e.value = .set set := by
  unfold dstIsUsable stored
  cases (db.shardFor dst).entries.lookup dst with
  | none => simp
  | some e => cases value : e.value <;> simp [value]

theorem smove_of_usable {thr : SetThresholds} {src dst member : Bytes} (usable : db.dstIsUsable dst = true) :
    db.smoveAtomic now thr src dst member =
      (db.writeFor src fun s => s.takeMember thr now src member).1.smoveTaken now thr src dst member
        (db.writeFor src fun s => s.takeMember thr now src member).2 := by
  rw [smoveAtomic, if_pos usable]

/-- **SMOVE sees an expired destination**, if that is no set and the source is good. -/
theorem smove_alike (drops : Drops now db db') (thr : SetThresholds) (src dst member : Bytes) :
    ((db.smoveAtomic now thr src dst member).2 = (db'.smoveAtomic now thr src dst member).2 ∧
        Twin now (db.smoveAtomic now thr src dst member).1 (db'.smoveAtomic now thr src dst member).1) ↔
      (db.Kept db' dst ∨ (∃ e set, db.stored dst = some e ∧ e.value = .set set) ∨ db.LiveOther now src) := by
  have twin := drops.twin
  have other : db.LiveOther now src ↔ db'.LiveOther now src := by rw [LiveOther, LiveOther, twin.getRo]
  by_cases fails : db.LiveOther now src
  · -- it fails in both, whether it is the destination or the source that is looked at
    obtain ⟨answer, after⟩ := smove_wrongType thr dst member fails
    obtain ⟨answer', after'⟩ := smove_wrongType thr dst member (other.1 fails)
    exact iff_of_true ⟨answer.trans answer'.symm, after.symm.trans (twin.trans after')⟩ (.inr (.inr fails))
  · have moved (usable : db.dstIsUsable dst = true) (usable' : db'.dstIsUsable dst = true) :
        (db.smoveAtomic now thr src dst member).2 = (db'.smoveAtomic now thr src dst member).2 ∧
          Twin now (db.smoveAtomic now thr src dst member).1 (db'.smoveAtomic now thr src dst member).1 := by
      rw [smove_of_usable usable, smove_of_usable usable']
      exact ((Blind.writeFor (Database.blind_takeMember now src thr member) src).bind
        (blind_smoveTaken now thr src dst member)).related twin
    rcases drops.kept_or_taken dst with kept | ⟨⟨e, found⟩, none'⟩
    · refine iff_of_true ?_ (.inl kept)
      have same : db'.dstIsUsable dst = db.dstIsUsable dst := by
        rw [Bool.eq_iff_iff, dstIsUsable_eq, dstIsUsable_eq, kept]
      cases usable : db.dstIsUsable dst with
      | true => exact moved usable (same.trans usable)
      | false =>
        have usable' := same.trans usable
        simp [smoveAtomic, usable, usable', twin]
    · have usable' : db'.dstIsUsable dst = true := (dstIsUsable_eq db' dst).2 (.inl none')
      by_cases set : ∃ e set, db.stored dst = some e ∧ e.value = .set set
      · exact iff_of_true (moved ((dstIsUsable_eq db dst).2 (.inr set)) usable') (.inr (.inl set))
      · have unusable : ¬db.dstIsUsable dst = true := by
          rw [dstIsUsable_eq]
          simpa [found] using set
        refine iff_of_false ?_ ?_
        · rintro ⟨same, -⟩
          rw [smove_of_usable usable', smoveAtomic, if_neg unusable] at same
          exact fails (other.2 ((takeMember_wrongType thr src member).1 (smoveTaken_wrongType same.symm)))
        · rintro (kept | isSet | live)
          · simp [Kept, found, none'] at kept
          · exact set isSet
          · exact fails live

end ShardedDatabase

/-! ## MOVE -/

namespace Store

variable {α : Type} {now : Nat} {s s' : Store}

/-- One operation on one database. -/
def onDb (s : Store) (index : Nat) (f : ShardedDatabase → ShardedDatabase × α) : Store × α :=
  let (db, answer) := f (s.db index)
  (s.setDb index db, answer)

/-- MOVE, without other clients between its steps. -/
def cmdMove (now : Nat) (s : Store) (index : Nat) (key : Bytes) (target : Int64) : Store × Except String Nat :=
  if target.toInt < 0 ∨ s.dbs.length ≤ target.toInt.toNat then (s, .error "DB index is out of range")
  else
    let target := target.toInt.toNat
    if target = index then (s, .ok 0)
    else
      match s.onDb index fun db => db.writeFor key fun shard => shard.remove key with
      | (s, none) => (s, .ok 0)
      | (s, some e) =>
        match s.onDb target fun db => db.containsKey now key with
        | (s, true) =>
          -- put it back
          ((s.onDb index fun db => db.writeFor key fun shard => (shard.insert key e, ())).1, .ok 0)
        | (s, false) => ((s.onDb target fun db => db.writeFor key fun shard => (shard.insert key e, ())).1, .ok 1)

/-- Twins, database by database. -/
def Twin (now : Nat) (s s' : Store) : Prop := List.Forall₂ (ShardedDatabase.Twin now) s.dbs s'.dbs

/-- Without some expired entries, in any of the databases. -/
def Drops (now : Nat) (s s' : Store) : Prop := List.Forall₂ (ShardedDatabase.Drops now) s.dbs s'.dbs

/-- What differs by expired entries are twins. -/
theorem Drops.twin (h : Drops now s s') : Twin now s s' := h.imp fun _ _ => ShardedDatabase.Drops.twin

theorem Drops.db (h : Drops now s s') (index : Nat) : ShardedDatabase.Drops now (s.db index) (s'.db index) := by
  unfold Store.db
  rw [← List.Forall₂.length_eq h]
  exact forall₂_getD h _ (ShardedDatabase.Drops.refl now _)

theorem Twin.symm (h : Twin now s s') : Twin now s' s := (h.imp fun _ _ => ShardedDatabase.Twin.symm).flip

theorem Twin.trans {s'' : Store} (h : Twin now s s') (h' : Twin now s' s'') : Twin now s s'' :=
  forall₂_trans h h' fun _ _ _ => ShardedDatabase.Twin.trans

theorem Twin.db (h : Twin now s s') (index : Nat) : ShardedDatabase.Twin now (s.db index) (s'.db index) := by
  unfold Store.db
  rw [← List.Forall₂.length_eq h]
  exact forall₂_getD h _ (ShardedDatabase.Twin.refl now _)

/-- What one database does not see, the store does not. -/
theorem Blind.onDb {f : ShardedDatabase → ShardedDatabase × α} (h : ShardedDatabase.Blind now f) (index : Nat) :
    Respects (Twin now) fun s => s.onDb index f := by
  constructor
  intro s s' twin
  obtain ⟨same, after⟩ := h.related (twin.db index)
  refine ⟨same, ?_⟩
  simp only [Twin, Store.onDb, setDb, List.Forall₂.length_eq twin]
  exact forall₂_set twin _ after

/-- An operation that leaves its database a twin of what it was. -/
theorem twin_onDb {f : ShardedDatabase → ShardedDatabase × α} {index : Nat}
    (twin : ShardedDatabase.Twin now (s.db index) (f (s.db index)).1) : Twin now s (s.onDb index f).1 := by
  refine forall₂_set_right (ShardedDatabase.Twin.refl now) fun db here => ?_
  have found : s.db index = db := by rw [Store.db, here]; rfl
  exact found ▸ twin

/-- What a reader sees of a key in one database. -/
def getRo (now : Nat) (s : Store) (index : Nat) (key : Bytes) : Option Entry :=
  ((s.db index).shardFor key).getRo now key

theorem Twin.getRo (twin : Twin now s s') (index : Nat) (key : Bytes) : s.getRo now index key = s'.getRo now index key :=
  (twin.db index).getRo key

theorem db_onDb_self (nonempty : s.dbs ≠ []) (index : Nat) (f : ShardedDatabase → ShardedDatabase × α) :
    (s.onDb index f).1.db index = (f (s.db index)).1 := by
  have inside : index % s.dbs.length < s.dbs.length := Nat.mod_lt _ (List.length_pos_iff.2 nonempty)
  show (s.dbs.set (index % s.dbs.length) (f (s.db index)).1)[index % (s.dbs.set _ _).length]?.getD _ = _
  rw [List.length_set, List.getElem?_set_self inside]
  rfl

/-- A database where the key is live is not the one where it is not. -/
theorem db_onDb_of_live {i j : Nat} {key : Bytes} {e : Entry} (absent : s.getRo now i key = none)
    (live : s.getRo now j key = some e) (f : ShardedDatabase → ShardedDatabase × α) :
    (s.onDb i f).1.db j = s.db j := by
  rcases db_setDb s i (f (s.db i)).1 j with same | ⟨here, -⟩
  · exact same
  · rw [getRo, here] at live
    exact nomatch absent.symm.trans live

end Store

namespace ShardedDatabase

variable {now : Nat} {db : ShardedDatabase} {key : Bytes}

theorem getRo_take (db : ShardedDatabase) (key : Bytes) : ((db.take key).1.shardFor key).getRo now key = none := by
  rw [getRo_stored, stored_take, if_pos rfl]
  rfl

/-- To take what is not live makes no difference. -/
theorem twin_take (absent : (db.shardFor key).getRo now key = none) : Twin now db (db.take key).1 := by
  refine twin_writeFor (Database.Twin.of_moves (Database.moves_remove key) (Database.lruClock_remove _ _) ?_)
  rw [absent]
  cases found : ((db.shardFor key).view key).entry <;> simp [View.removed, found]

/-- Nor does an entry that is expired when it comes. -/
theorem twin_insert_expired {e : Entry} (absent : (db.shardFor key).getRo now key = none)
    (expired : e.isExpired now = true) : Twin now db (db.writeFor key fun shard => (shard.insert key e, ())).1 := by
  refine twin_writeFor (Database.Twin.of_moves (Database.moves_insert key e) (Database.lruClock_insert _ _ _) ?_)
  rw [absent]
  cases found : ((db.shardFor key).view key).entry <;> simp [View.inserted, found, seen_of_expired expired]

theorem seen_get {s : Database} {e : Entry} (found : s.getRo now key = some e) :
    seen now (match (s.view key).entry with
      | some e => if e.isExpired now then (s.view key).removed else ⟨some { e with lruClock := s.lruClock }, (s.view key).slot⟩
      | none => s.view key).entry = some (Database.touched s.lruClock e) := by
  rw [Database.getRo_eq] at found
  cases there : (s.view key).entry with
  | none => simp [there] at found
  | some e' =>
    cases expired : e'.isExpired now with
    | true => simp [there, seen_of_expired expired] at found
    | false =>
      obtain rfl : e' = e := by simpa [there, seen_of_live expired] using found
      have live : ({ e' with lruClock := s.lruClock } : Entry).isExpired now = false := expired
      simp [expired, seen_of_live live, Database.touched]

theorem getRo_containsKey {e : Entry} (found : (db.shardFor key).getRo now key = some e) :
    ((db.containsKey now key).1.shardFor key).getRo now key = some (Database.touched (db.shardFor key).lruClock e) := by
  show ((db.writeFor key fun s => s.get now key).1.shardFor key).getRo now key = _
  rw [shardFor_writeFor_self, Database.getRo_of_moves (Database.moves_get now key), if_pos rfl]
  exact seen_get found

/-- A look at a key notes its access, which makes no difference if it was noted at this clock. -/
theorem twin_containsKey {e : Entry} (found : (db.shardFor key).getRo now key = some e)
    (noted : e.lruClock = (db.shardFor key).lruClock) : Twin now db (db.containsKey now key).1 := by
  have same : Database.touched (db.shardFor key).lruClock e = e := by rw [Database.touched, ← noted]
  have twin : Database.Twin now (db.shardFor key) ((db.shardFor key).get now key).1 :=
    Database.Twin.of_moves (Database.moves_get now key) (Database.lruClock_get _ _ _)
      ((seen_get found).trans (by rw [same, found]))
  show Twin now db (db.writeFor key fun s => s.get now key).1
  exact twin_writeFor twin

end ShardedDatabase

namespace Store

variable {now : Nat} {s s' : Store} {index target : Nat} {key : Bytes}

/-- MOVE behind its checks, with the entry it took out. -/
def moved (now index target : Nat) (key : Bytes) (taken : Option Entry) (s : Store) : Store × Except String Nat :=
  match taken with
  | none => (s, .ok 0)
  | some e =>
    let (s, there) := s.onDb target fun db => db.containsKey now key
    if there then ((s.onDb index fun db => db.writeFor key fun shard => (shard.insert key e, ())).1, .ok 0)
    else ((s.onDb target fun db => db.writeFor key fun shard => (shard.insert key e, ())).1, .ok 1)

/-- MOVE takes the key from one database and places it in the other. -/
theorem cmdMove_eq (now : Nat) (s : Store) (index : Nat) (key : Bytes) (target : Int64) :
    s.cmdMove now index key target =
      if target.toInt < 0 ∨ s.dbs.length ≤ target.toInt.toNat then (s, .error "DB index is out of range")
      else if target.toInt.toNat = index then (s, .ok 0)
      else moved now index target.toInt.toNat key (s.onDb index fun db => db.take key).2
        (s.onDb index fun db => db.take key).1 := by
  unfold cmdMove
  split
  · rfl
  · dsimp only
    generalize target.toInt.toNat = target
    split
    · rfl
    · show (match s.onDb index fun db => db.take key with | (s, none) => _ | (s, some e) => _) = _
      rcases s.onDb index fun db => db.take key with ⟨s, _ | e⟩
      · rfl
      · rcases h : s.onDb target fun db => db.containsKey now key with ⟨s, _ | _⟩ <;> simp [moved, h]

/-- What is moved does not depend on what is expired. -/
theorem blind_moved (now index target : Nat) (key : Bytes) (taken : Option Entry) :
    Respects (Twin now) (moved now index target key taken) := by
  cases taken with
  | none => exact Respects.pure _
  | some e =>
    have put (i : Nat) (n : Nat) : Respects (Twin now) fun s =>
        ((s.onDb i fun db => db.writeFor key fun shard => (shard.insert key e, ())).1, (Except.ok n : Except String Nat)) :=
      (Blind.onDb (ShardedDatabase.Blind.writeFor (Database.blind_insert now key e) key) i).map fun _ => Except.ok n
    have look := Blind.onDb (ShardedDatabase.blind_containsKey now key) target
    refine ⟨fun {s s'} twin => ?_⟩
    obtain ⟨same, after⟩ := look.related twin
    simp only [moved, ← same]
    split
    · exact (put index 0).related after
    · exact (put target 1).related after

theorem getRo_taken (nonempty : s.dbs ≠ []) : (s.onDb index fun db => db.take key).1.getRo now index key = none := by
  rw [getRo, db_onDb_self nonempty]
  exact ShardedDatabase.getRo_take _ _

/-- Without the key in its target, MOVE says that it moved. -/
theorem moved_absent {e : Entry} (absent : s.getRo now target key = none) :
    (moved now index target key (some e) s).2 = .ok 1 := by
  have there : (s.onDb target fun db => db.containsKey now key).2 = false :=
    (ShardedDatabase.containsKey_answer now _ key).trans (by rw [getRo] at absent; rw [absent]; rfl)
  simp [moved, there]

/-- What MOVE takes out and puts back has expired: the target's key is left as `get` leaves it. -/
theorem moved_live {e e' : Entry} (absent : s.getRo now index key = none) (expired : e.isExpired now = true)
    (live : s.getRo now target key = some e') :
    (moved now index target key (some e) s).2 = .ok 0 ∧
      Twin now (s.onDb target fun db => db.containsKey now key).1 (moved now index target key (some e) s).1 := by
  have there : (s.onDb target fun db => db.containsKey now key).2 = true :=
    (ShardedDatabase.containsKey_answer now _ key).trans (by rw [getRo] at live; rw [live]; rfl)
  simp only [moved, there, if_true, true_and]
  refine twin_onDb (ShardedDatabase.twin_insert_expired ?_ expired)
  rcases db_setDb s target ((s.db target).containsKey now key).1 index with same | ⟨here, -⟩
  · exact (congrArg (fun db => (db.shardFor key).getRo now key) same).trans absent
  · rw [getRo, here] at absent
    exact nomatch absent.symm.trans live

/-- What is not the same in both is MOVE's look at the target. -/
theorem move_taken {e : Entry} (drops : Drops now s s') (nonempty : s.dbs ≠ []) (there : (s.db index).stored key = some e)
    (expired : e.isExpired now = true) :
    ((moved now index target key (some e) (s.onDb index fun db => db.take key).1).2 = .ok 0 ∧
        Twin now (moved now index target key (some e) (s.onDb index fun db => db.take key).1).1
          (s'.onDb index fun db => db.take key).1) ↔
      ∃ e', s.getRo now target key = some e' ∧ e'.lruClock = ((s.db target).shardFor key).lruClock := by
  have absent : s.getRo now index key = none := by
    rw [getRo, ShardedDatabase.getRo_stored, there, seen_of_expired expired]
  have absent' : s'.getRo now index key = none := (drops.twin.getRo index key).symm.trans absent
  have after : (s.onDb index fun db => db.take key).1.getRo now index key = none := getRo_taken nonempty
  have other : (s.onDb index fun db => db.take key).1.getRo now target key = s.getRo now target key := by
    cases found : s.getRo now target key with
    | some e' => rwa [getRo, db_onDb_of_live absent found]
    | none =>
      rcases db_setDb s index ((s.db index).take key).1 target with same | ⟨-, same⟩
      · exact (congrArg (fun db => (db.shardFor key).getRo now key) same).trans found
      · exact (congrArg (fun db => (db.shardFor key).getRo now key) same).trans (ShardedDatabase.getRo_take _ _)
  cases found : s.getRo now target key with
  | none =>
    have answer : (moved now index target key (some e) (s.onDb index fun db => db.take key).1).2 = .ok 1 :=
      moved_absent (other.trans found)
    rw [answer]
    simp
  | some e' =>
    obtain ⟨answer, left⟩ := moved_live after expired (other.trans found)
    have same : (s.onDb index fun db => db.take key).1.db target = s.db target := db_onDb_of_live absent found _
    have gone : Twin now s' (s'.onDb index fun db => db.take key).1 := twin_onDb (ShardedDatabase.twin_take absent')
    rw [answer]
    constructor
    · rintro ⟨-, twin⟩
      have seen := (left.trans twin).getRo target key
      have nonempty' : (s.onDb index fun db => db.take key).1.dbs ≠ [] := by simpa [onDb, setDb] using nonempty
      rw [getRo, db_onDb_self nonempty', same, ShardedDatabase.getRo_containsKey found, ← gone.getRo target key,
        ← drops.twin.getRo target key, found] at seen
      exact ⟨e', rfl, (congrArg Entry.lruClock (Option.some.inj seen)).symm⟩
    · rintro ⟨e'', is, noted⟩
      obtain rfl : e' = e'' := Option.some.inj is
      have looked : Twin now (s.onDb index fun db => db.take key).1
          ((s.onDb index fun db => db.take key).1.onDb target fun db => db.containsKey now key).1 := by
        refine twin_onDb ?_
        rw [same]
        exact ShardedDatabase.twin_containsKey found noted
      have taken : Twin now s (s.onDb index fun db => db.take key).1 := twin_onDb (ShardedDatabase.twin_take absent)
      exact ⟨rfl, left.symm.trans ((taken.trans looked).symm.trans (drops.twin.trans gone))⟩

/-- When MOVE does not depend on the entries that were removed. -/
def MoveSpared (now : Nat) (s s' : Store) (index : Nat) (key : Bytes) (target : Int64) : Prop :=
  (target.toInt < 0 ∨ s.dbs.length ≤ target.toInt.toNat ∨ target.toInt.toNat = index) ∨
    (s.db index).Kept (s'.db index) key ∨
      ∃ e, ((s.db target.toInt.toNat).shardFor key).getRo now key = some e ∧
        e.lruClock = ((s.db target.toInt.toNat).shardFor key).lruClock

/-- **MOVE sees an expired entry of its key**, unless it gets nowhere or the target has the key. -/
theorem move_alike (drops : Drops now s s') (index : Nat) (key : Bytes) (target : Int64) :
    ((s.cmdMove now index key target).2 = (s'.cmdMove now index key target).2 ∧
        Twin now (s.cmdMove now index key target).1 (s'.cmdMove now index key target).1) ↔
      MoveSpared now s s' index key target := by
  have len : s'.dbs.length = s.dbs.length := (List.Forall₂.length_eq drops).symm
  rw [cmdMove_eq, cmdMove_eq, len, MoveSpared]
  by_cases bad : target.toInt < 0 ∨ s.dbs.length ≤ target.toInt.toNat
  · rw [if_pos bad, if_pos bad]
    exact iff_of_true ⟨rfl, drops.twin⟩ (by tauto)
  · have nonempty : s.dbs ≠ [] := by
      rintro none'
      exact bad (.inr (by simp [none']))
    rw [if_neg bad, if_neg bad]
    generalize target.toInt.toNat = number at *
    by_cases same : number = index
    · rw [if_pos same, if_pos same]
      exact iff_of_true ⟨rfl, drops.twin⟩ (.inl (.inr (.inr same)))
    · rw [if_neg same, if_neg same]
      have answer (s : Store) : (s.onDb index fun db => db.take key).2 = (s.db index).stored key :=
        ShardedDatabase.take_answer _ _
      have taken : Twin now (s.onDb index fun db => db.take key).1 (s'.onDb index fun db => db.take key).1 := by
        exact ((Blind.onDb (ShardedDatabase.blind_remove now key) index).related drops.twin).2
      rw [answer, answer]
      rcases (drops.db index).stored key with kept | ⟨⟨e, there, expired⟩, gone⟩
      · rw [kept]
        exact iff_of_true ((blind_moved now index number key _).related taken) (.inr (.inl kept))
      · have lost : ¬(s.db index).Kept (s'.db index) key := by simp [ShardedDatabase.Kept, there, gone]
        have checked : ¬(target.toInt < 0 ∨ s.dbs.length ≤ number ∨ number = index) := by tauto
        rw [there, gone, or_iff_right checked, or_iff_right lost]
        exact move_taken drops nonempty there expired

end Store

/-! ## Which operations see expired entries -/

open ShardedDatabase in
/-- **An operation does the same with and without the expired entries if and only if it is spared them.** The two
databases differ by entries that have expired, any set of them. Reads and the operations built on them look at the
deadline themselves; those that are built on `remove` do not, and for each of them the condition names the key whose
entry must not be among those that differ. -/
theorem expired_invisible (now : Nat) :
    (∀ {α : Type} (op : KeyspaceOp α) {db db' : ShardedDatabase}, db.Drops now db' →
        (op.Alike now db db' ↔ op.Spared now db db')) ∧
      ∀ (index : Nat) (key : Bytes) (target : Int64) {s s' : Store}, s.Drops now s' →
        ((s.cmdMove now index key target).2 = (s'.cmdMove now index key target).2 ∧
            Store.Twin now (s.cmdMove now index key target).1 (s'.cmdMove now index key target).1 ↔
          Store.MoveSpared now s s' index key target) := by
  refine ⟨fun op db db' drops => ?_, fun index key target s s' drops => Store.move_alike drops index key target⟩
  have twin := drops.twin
  cases op with
  | get key => exact iff_of_true ((Blind.writeFor (Database.blind_get now key) key).related twin) trivial
  | getRo key => exact iff_of_true ⟨twin.getRo key, twin⟩ trivial
  | getMut key edit => exact iff_of_true ((Blind.writeFor (Database.blind_getMutWith now key edit) key).related twin) trivial
  | getOrInsertWith key fresh edit =>
    exact iff_of_true ((Blind.writeFor (Database.blind_getOrInsertWithEdit now key fresh edit) key).related twin) trivial
  | setPlain key value =>
    exact iff_of_true ((Blind.writeFor (Database.blind_setPlain now key value) key).related twin) trivial
  | insert key entry =>
    exact iff_of_true ((Blind.writeFor (Database.blind_insert now key entry) key).related twin) trivial
  | incrInt key delta => exact iff_of_true ((blind_incrInt now key delta).related twin) trivial
  | containsKey key => exact iff_of_true ((blind_containsKey now key).related twin) trivial
  | rename src dst => exact rename_alike drops src dst
  | renamenx src dst => exact renamenx_alike drops src dst
  | copyEntry src dst replace => exact iff_of_true ((blind_copyEntry now src dst replace).related twin) trivial
  | lmoveAtomic thr src dst fromLeft toLeft =>
    exact iff_of_true ((blind_lmoveAtomic now thr src dst fromLeft toLeft).related twin) trivial
  | smoveAtomic thr src dst member => exact smove_alike drops thr src dst member
  | msetnx pairs => exact iff_of_true ((blind_msetnx now pairs).related twin) trivial
  | keysMatching pattern => exact iff_of_true (keysMatching_alike drops pattern) trivial
  | scanPage cursor count pattern keep =>
    exact iff_of_true ⟨twin.scanPage cursor count pattern scanOrderKey keep, twin⟩ trivial
  | randomKey => exact (and_iff_left twin).trans (randomKey_alike drops)
  | del keys => exact del_alike drops keys
  | unlink keys =>
    show ((db.cmdUnlink keys).2 = (db'.cmdUnlink keys).2 ∧ Twin now (db.cmdUnlink keys).1 (db'.cmdUnlink keys).1) ↔ _
    rw [unlinked_eq, unlinked_eq]
    exact del_alike drops keys
  | getdel key => exact getdel_alike drops key

/-- One key, whose deadline is 5. -/
def lapsed : ShardedDatabase := ⟨[Database.new.insert [107] ⟨.string [118], some 5, 0⟩], List.cons_ne_nil _ _⟩

/-- The same without it. -/
def reaped : ShardedDatabase := lapsed.without fun _ => true

theorem lapsed_drops : lapsed.Drops 5 reaped := by
  refine ⟨fun _ => true, fun s there key e found _ => ?_, rfl⟩
  obtain rfl := List.mem_singleton.1 there
  by_cases same : key = [107]
  · subst same
    obtain rfl : (⟨.string [118], some 5, 0⟩ : Entry) = e := Option.some.inj found
    rfl
  · have absent : (Database.new.insert [107] ⟨.string [118], some 5, 0⟩).entries.lookup key = none := by
      show (AList.insert [107] _ ∅).lookup key = none
      rw [AList.lookup_insert_ne same]
      rfl
    exact nomatch absent.symm.trans found

/-- A look at the expired key, a deletion of a key that is not there, and a move of one that is not there. -/
theorem expired_invisible_lapsed :
    (KeyspaceOp.get [107]).Alike 5 lapsed reaped ∧ (KeyspaceOp.del [[108]]).Alike 5 lapsed reaped ∧
      ((Store.mk [lapsed]).cmdMove 5 0 [107] 1).2 = ((Store.mk [reaped]).cmdMove 5 0 [107] 1).2 := by
  have move := (expired_invisible 5).2 0 [107] 1 (List.Forall₂.cons lapsed_drops .nil)
  exact ⟨((expired_invisible 5).1 _ lapsed_drops).2 trivial,
    ((expired_invisible 5).1 _ lapsed_drops).2 fun key there => by obtain rfl := List.mem_singleton.1 there; rfl,
    (move.2 (.inl (.inr (.inl (by decide +kernel))))).1⟩

/-- Operations that answer by a key that has expired. -/
theorem expired_visible :
    lapsed.Drops 5 reaped ∧
      (lapsed.rename [107] [108]).2 = true ∧ (reaped.rename [107] [108]).2 = false ∧
      (lapsed.renamenx 5 [107] [108]).2 = some 1 ∧ (reaped.renamenx 5 [107] [108]).2 = none ∧
      lapsed.randomKey = some [107] ∧ reaped.randomKey = none ∧
      (lapsed.cmdDel [[107]]).2 = 1 ∧ (reaped.cmdDel [[107]]).2 = 0 ∧
      (lapsed.cmdUnlink [[107]]).2 = 1 ∧ (reaped.cmdUnlink [[107]]).2 = 0 ∧
      (lapsed.cmdGetdel [107]).2 = .ok (some [118]) ∧ (reaped.cmdGetdel [107]).2 = .ok none ∧
      (∀ thr, (lapsed.smoveAtomic 5 thr [108] [107] [109]).2 = .error .wrongType) ∧
      (∀ thr, (reaped.smoveAtomic 5 thr [108] [107] [109]).2 = .ok 0) ∧
      ((Store.mk [lapsed, .new 1 Nat.one_pos]).cmdMove 5 0 [107] 1).2 = .ok 1 ∧
      ((Store.mk [reaped, .new 1 Nat.one_pos]).cmdMove 5 0 [107] 1).2 = .ok 0 := by
  refine ⟨lapsed_drops, by decide +kernel, by decide +kernel, by decide +kernel, by decide +kernel, by decide +kernel,
    by decide +kernel, by decide +kernel, by decide +kernel, by decide +kernel, by decide +kernel, by rfl,
    by rfl, fun thr => rfl, fun thr => rfl, by rfl, by rfl⟩

end NexradeCache
