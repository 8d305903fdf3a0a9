import NexradeCache.Lib.Serial
import NexradeCache.Store.Watch

/-!
# The keyspace clients see

`Keyspace` is what the store is for: a map from keys to values with deadlines. `ClientOp.apply` says
what each operation of a client does to it and answers, without shards, counters, indexes and access
clocks. `keyspace_step` is the refinement: the operations of `Database` and `ShardedDatabase` do
exactly this, in every state.
-/

namespace NexradeCache

open View

/-- A value and its deadline. -/
abbrev Content := DataType × Option Nat

/-- The value and the deadline. The LRU clock is not what clients see. -/
def Entry.content (e : Entry) : Content := (e.value.content, e.expiry)

namespace Content

/-- Whether the deadline is over. -/
def isExpired (now : Nat) (c : Content) : Bool :=
  match c.2 with
  | some expiresAtMs => expiresAtMs ≤ now
  | none => false

/-- What is left of an entry at a time. -/
def live (now : Nat) (c : Option Content) : Option Content := c.filter fun c => !c.isExpired now

/-- The value a caller writes through the reference it got, if it writes one. -/
def edited (edit : Option FreshValue) (c : Content) : Content :=
  match edit with
  | some d => (d.1.content, c.2)
  | none => c

/-- INCRBY on the entry of a key. -/
def incrBy (now : Nat) (delta : Int64) (c : Option Content) : Option Content × Except IncrError Int64 :=
  match live now c with
  | some (.int cell, expiry) =>
    match checkedAddI64 cell.value delta with
    | some n => (some (.int (.new n), expiry), .ok n)
    | none => (c, .error .overflow)
  | some (.string s, expiry) =>
    match Database.parseValue s with
    | some current =>
      match checkedAddI64 current delta with
      | some n => (some (.int (.new n), expiry), .ok n)
      | none => (c, .error .overflow)
    | none => (c, .error .notInteger)
  | some _ => (c, .error .wrongType)
  | none => (some (.int (.new delta), none), .ok delta)

end Content

open Content

/-- What is stored under the keys of one database. -/
abbrev Keyspace := Bytes → Option Content

/-- What an operation returns. -/
inductive Answer where
  | unit
  | value (v : Option Content)
  | flag (b : Bool)
  | incr (r : Except IncrError Int64)

/-- The operation is one a client's command can make. -/
def StoreOp.client : StoreOp → Bool
  | .expireBatch _ | .tick _ => false
  | _ => true

/-- An operation that the commands of clients are made of. -/
abbrev ClientOp := { op : StoreOp // op.client = true }

theorem StoreOp.client_setPlain (key value : Bytes) : (StoreOp.setPlain key value).client = true := rfl

theorem StoreOp.client_remove (key : Bytes) : (StoreOp.remove key).client = true := rfl

namespace Keyspace

open Function

/-- COPY with REPLACE, on keyspaces. -/
def copyFrom (now : Nat) (K : Keyspace) (src dst : Bytes) : Keyspace × Bool :=
  match live now (K src) with
  | some c => (update (update K src (some c)) dst (some c), true)
  | none => (update K src none, false)

/-- COPY, on keyspaces. -/
def copyEntry (now : Nat) (K : Keyspace) (src dst : Bytes) (replace : Bool) : Keyspace × Bool :=
  if replace then K.copyFrom now src dst
  else
    match live now (K dst) with
    | some c => (update K dst (some c), false)
    | none => copyFrom now (update K dst none) src dst

/-- RENAME, on keyspaces. It takes an expired entry along. -/
def rename (K : Keyspace) (src dst : Bytes) : Keyspace × Bool :=
  match K src with
  | some c => (update (update K src none) dst (some c), true)
  | none => (K, false)

end Keyspace

open Function in
/-- What an operation does to the keyspace, and its answer. -/
def ClientOp.apply (now : Nat) (K : Keyspace) : ClientOp → Keyspace × Answer
  | ⟨.get key, _⟩ => (update K key (live now (K key)), .value (live now (K key)))
  | ⟨.insert key entry, _⟩ => (update K key (some entry.1.content), .unit)
  | ⟨.setPlain key value, _⟩ => (update K key (some (.string value, none)), .unit)
  | ⟨.getMut key edit, _⟩ =>
    (update K key ((live now (K key)).map (edited edit)), .flag (live now (K key)).isSome)
  | ⟨.getOrInsertWith key fresh edit, _⟩ =>
    (update K key (some (edited edit ((live now (K key)).getD fresh.1.content))), .unit)
  | ⟨.incrInt key delta, _⟩ =>
    (update K key (incrBy now delta (K key)).1, .incr (incrBy now delta (K key)).2)
  | ⟨.incrIntLocked key delta, _⟩ =>
    (update K key (incrBy now delta (K key)).1, .incr (incrBy now delta (K key)).2)
  | ⟨.remove key, _⟩ => (update K key none, .value (K key))
  | ⟨.setExpiry key expiry, _⟩ => (update K key ((K key).map fun c => (c.1, expiry)), .unit)
  | ⟨.rename src dst, _⟩ => ((K.rename src dst).1, .flag (K.rename src dst).2)
  | ⟨.copyEntry src dst replace, _⟩ =>
    ((K.copyEntry now src dst replace).1, .flag (K.copyEntry now src dst replace).2)
  | ⟨.flush, _⟩ => (fun _ => none, .unit)
  | ⟨.expireBatch _, h⟩ => (Bool.false_ne_true h).elim
  | ⟨.tick _, h⟩ => (Bool.false_ne_true h).elim

/-- The keys an operation is about. -/
def StoreOp.keys : StoreOp → Set Bytes
  | .get key | .insert key _ | .setPlain key _ | .getMut key _ | .getOrInsertWith key _ _
  | .incrInt key _ | .incrIntLocked key _ | .remove key | .setExpiry key _ => {key}
  | .rename src dst | .copyEntry src dst _ => {src, dst}
  | .flush | .expireBatch _ | .tick _ => Set.univ

namespace Keyspace

variable {now : Nat} {F : Set Bytes} {src dst : Bytes}

/-- `f` does to the keyspace what depends on the keys `F` only, and only there. -/
abbrev Within {α : Type} (F : Set Bytes) (f : Keyspace → Keyspace × α) : Prop :=
  Serial.Local (fun (_ : Unit) => f) () F

/-- An operation on one key reads and writes this key. -/
theorem within_key {α : Type} (key : Bytes) (f : Option Content → Option Content) (g : Option Content → α) :
    Within {key} fun K => (Function.update K key (f (K key)), g (K key)) where
  frame K k other := Function.update_of_ne other _ K
  change K K' same := by
    have here : K key = K' key := same key rfl
    refine ⟨fun k hk => ?_, congrArg g here⟩
    rw [Set.mem_singleton_iff.1 hk]
    simp only [Function.update_self, here]

theorem within_rename (src dst : Bytes) : Within {src, dst} fun K => K.rename src dst where
  frame K k other := by
    rw [Set.mem_insert_iff, Set.mem_singleton_iff, not_or] at other
    cases h : K src <;> simp [rename, h, Function.update_of_ne other.1, Function.update_of_ne other.2]
  change K K' same := by
    have here : K src = K' src := same src (by simp)
    refine ⟨fun k hk => ?_, ?_⟩
    · have there := same k hk
      cases h : K' src <;> simp only [rename, here, h, there, Function.update_apply]
    · cases h : K' src <;> simp [rename, here, h]

theorem within_copyFrom (now : Nat) (src dst : Bytes) : Within {src, dst} fun K => K.copyFrom now src dst where
  frame K k other := by
    rw [Set.mem_insert_iff, Set.mem_singleton_iff, not_or] at other
    cases h : live now (K src) <;>
      simp [copyFrom, h, Function.update_of_ne other.1, Function.update_of_ne other.2]
  change K K' same := by
    have here : K src = K' src := same src (by simp)
    refine ⟨fun k hk => ?_, ?_⟩
    · have there := same k hk
      cases h : live now (K' src) <;> simp only [copyFrom, here, h, there, Function.update_apply]
    · cases h : live now (K' src) <;> simp [copyFrom, here, h]

theorem within_copyEntry (now : Nat) (src dst : Bytes) (replace : Bool) :
    Within {src, dst} fun K => K.copyEntry now src dst replace := by
  cases replace with
  | true => exact within_copyFrom now src dst
  | false =>
    have copy := within_copyFrom now src dst
    refine ⟨fun K k other => ?_, fun K K' same => ?_⟩
    · have outside := other
      rw [Set.mem_insert_iff, Set.mem_singleton_iff, not_or] at other
      cases h : live now (K dst) with
      | some c => simp [copyEntry, h, Function.update_of_ne other.2]
      | none =>
        simp only [copyEntry, h, Bool.false_eq_true, if_false]
        exact (copy.frame _ k outside).trans (Function.update_of_ne other.2 _ K)
    · have here : K dst = K' dst := same dst (by simp)
      cases h : live now (K' dst) with
      | some c =>
        simp only [copyEntry, here, h, Bool.false_eq_true, if_false]
        refine ⟨fun k hk => ?_, trivial⟩
        rw [Function.update_apply, Function.update_apply, same k hk]
      | none =>
        simp only [copyEntry, here, h, Bool.false_eq_true, if_false]
        refine copy.change _ _ fun k hk => ?_
        rw [Function.update_apply, Function.update_apply, same k hk]

theorem within_flush : Within Set.univ fun _ => ((fun _ => none : Keyspace), Answer.unit) where
  frame _ _ other := (other trivial).elim
  change _ _ _ := ⟨fun _ _ => rfl, rfl⟩

/-- The answer is read off what the operation has found. -/
theorem Within.answer {α β : Type} {f : Keyspace → Keyspace × α} (h : Within F f) (g : α → β) :
    Within F fun K => ((f K).1, g (f K).2) where
  frame K k other := h.frame K k other
  change K K' same := ⟨(h.change K K' same).1, congrArg g (h.change K K' same).2⟩

end Keyspace

open Keyspace in
/-- An operation of a client depends on its own keys, and changes no others. -/
theorem ClientOp.local_apply (now : Nat) (op : ClientOp) :
    Keyspace.Within op.1.keys fun K => op.apply now K := by
  obtain ⟨op, client⟩ := op
  cases op with
  | get key => exact within_key key (live now) fun c => Answer.value (live now c)
  | insert key entry => exact within_key key (fun _ => some entry.1.content) fun _ => Answer.unit
  | setPlain key value => exact within_key key (fun _ => some (.string value, none)) fun _ => Answer.unit
  | getMut key edit =>
    exact within_key key (fun c => (live now c).map (edited edit)) fun c => Answer.flag (live now c).isSome
  | getOrInsertWith key fresh edit =>
    exact within_key key (fun c => some (edited edit ((live now c).getD fresh.1.content))) fun _ => Answer.unit
  | incrInt key delta => exact within_key key (fun c => (incrBy now delta c).1) fun c => Answer.incr (incrBy now delta c).2
  | incrIntLocked key delta =>
    exact within_key key (fun c => (incrBy now delta c).1) fun c => Answer.incr (incrBy now delta c).2
  | remove key => exact within_key key (fun _ => none) Answer.value
  | setExpiry key expiry => exact within_key key (fun c => c.map fun c => (c.1, expiry)) fun _ => Answer.unit
  | rename src dst => exact (within_rename src dst).answer Answer.flag
  | copyEntry src dst replace => exact (within_copyEntry now src dst replace).answer Answer.flag
  | flush => exact within_flush
  | expireBatch maxTotal => cases client
  | tick now => cases client

namespace World

/-- What is stored under the keys of a world. -/
def keyspace (w : World) : Keyspace := fun key => w.content key

/-- What an operation returns in the store. -/
def answer (w : World) : ClientOp → Answer
  | ⟨.get key, _⟩ => .value ((w.db.writeFor key fun s => s.get w.now key).2.map Entry.content)
  | ⟨.insert _ _, _⟩ | ⟨.setPlain _ _, _⟩ | ⟨.getOrInsertWith _ _ _, _⟩ | ⟨.setExpiry _ _, _⟩
  | ⟨.flush, _⟩ => .unit
  | ⟨.getMut key edit, _⟩ =>
    .flag (w.db.writeFor key fun s => s.getMut w.now key (edit.map Subtype.val)).2
  | ⟨.incrInt key delta, _⟩ => .incr (w.db.incrInt w.now key delta).2
  | ⟨.incrIntLocked key delta, _⟩ => .incr (w.db.writeFor key fun s => s.incrInt w.now key delta).2
  | ⟨.remove key, _⟩ => .value ((w.db.writeFor key fun s => s.remove key).2.map Entry.content)
  | ⟨.rename src dst, _⟩ => .flag (w.db.rename src dst).2
  | ⟨.copyEntry src dst replace, _⟩ => .flag (w.db.copyEntry w.now src dst replace).2
  | ⟨.expireBatch _, h⟩ => (Bool.false_ne_true h).elim
  | ⟨.tick _, h⟩ => (Bool.false_ne_true h).elim

end World

/-! ## Refinement -/

/-- The content has the deadline of the entry. -/
theorem Entry.content_isExpired (now : Nat) (e : Entry) : e.content.isExpired now = e.isExpired now := rfl

namespace ShardedDatabase

variable {α : Type} {f : Database → Database × α} {key : Bytes} {t : Database → View → View}
  {db : ShardedDatabase} {now : Nat}

/-- What is stored under the keys of a database. -/
def keyspace (db : ShardedDatabase) : Keyspace := fun key => (db.view key).content

/-- An operation under the lock of a key changes what is stored under this key, as its view says. -/
theorem keyspace_writeFor (moves : Database.Moves f key t) (db : ShardedDatabase) :
    (db.writeFor key f).1.keyspace =
      Function.update db.keyspace key (t (db.shardFor key) (db.view key)).content := by
  have seen := view_writeFor moves db
  funext x
  by_cases same : x = key
  · subst same
    rw [Function.update_self]
    exact congrArg (Option.map Entry.content) seen.1.entry
  · rw [Function.update_of_ne same]
    exact congrArg (Option.map Entry.content) (seen.2 same).entry

/-- A key is absent, expired or live, in the store as in the keyspace. -/
theorem key_cases (now : Nat) (db : ShardedDatabase) (key : Bytes) :
    ((db.view key).entry = none ∧ db.keyspace key = none ∧ live now (db.keyspace key) = none) ∨
    (∃ e, (db.view key).entry = some e ∧ e.isExpired now = true ∧ db.keyspace key = some e.content ∧
      live now (db.keyspace key) = none) ∨
    ∃ e, (db.view key).entry = some e ∧ e.isExpired now = false ∧ db.keyspace key = some e.content ∧
      live now (db.keyspace key) = some e.content := by
  cases he : (db.view key).entry with
  | none =>
    have known : db.keyspace key = none := congrArg (Option.map Entry.content) he
    exact .inl ⟨rfl, known, by rw [known]; rfl⟩
  | some e =>
    have known : db.keyspace key = some e.content := congrArg (Option.map Entry.content) he
    cases expired : e.isExpired now with
    | true =>
      refine .inr (.inl ⟨e, rfl, expired, known, ?_⟩)
      rw [known, live, Option.filter_some, Entry.content_isExpired, expired]
      rfl
    | false =>
      refine .inr (.inr ⟨e, rfl, expired, known, ?_⟩)
      rw [known, live, Option.filter_some, Entry.content_isExpired, expired]
      rfl

theorem getRo_content (now : Nat) (db : ShardedDatabase) (key : Bytes) :
    ((db.shardFor key).getRo now key).map Entry.content = live now (db.keyspace key) := by
  have entry : (db.view key).entry = (db.shardFor key).entries.lookup key := rfl
  rcases db.key_cases now key with ⟨he, -, alive⟩ | ⟨e, he, expired, -, alive⟩ | ⟨e, he, expired, -, alive⟩
  · rw [entry] at he
    simp [Database.getRo, he, alive]
  · rw [entry] at he
    simp [Database.getRo, he, expired, alive]
  · rw [entry] at he
    simp [Database.getRo, he, expired, alive]

theorem content_removed (v : View) : v.removed.content = none := by
  cases he : v.entry <;> simp [removed, View.content, he]

theorem content_inserted (e : Entry) (v : View) : (v.inserted e).content = some e.content := by
  cases he : v.entry <;> simp [inserted, View.content, he, Entry.content]

theorem content_edited {e e' : Entry} {edit : Option FreshValue}
    (value : e'.value = (edit.map Subtype.val).getD e.value) (expiry : e'.expiry = e.expiry) :
    e'.content = edited edit e.content := by
  rw [Entry.content, value, expiry]
  cases edit <;> rfl

/-- A look drops an expired entry and returns a live one. -/
theorem keyspace_get (key : Bytes) :
    (db.writeFor key fun s => s.get now key).1.keyspace =
        Function.update db.keyspace key (live now (db.keyspace key)) ∧
      (db.writeFor key fun s => s.get now key).2.map Entry.content = live now (db.keyspace key) := by
  rw [keyspace_writeFor (Database.moves_get now key)]
  show _ ∧ ((db.shardFor key).get now key).2.map Entry.content = _
  have entry : (db.view key).entry = (db.shardFor key).entries.lookup key := rfl
  rcases db.key_cases now key with ⟨he, -, alive⟩ | ⟨e, he, expired, -, alive⟩ | ⟨e, he, expired, -, alive⟩
  · rw [alive, he]
    refine ⟨by simp only [View.content, he, Option.map_none], ?_⟩
    rw [entry] at he
    simp [Database.get, he]
  · rw [alive, he]
    refine ⟨by simp only [expired, if_true, content_removed], ?_⟩
    rw [entry] at he
    simp [Database.get, he, expired]
  · rw [alive, he]
    refine ⟨by simp [expired, View.content, Entry.content], ?_⟩
    rw [entry] at he
    simp [Database.get, he, expired, Entry.content]

/-- An edit of a live value; an expired one is dropped. -/
theorem keyspace_getMut (key : Bytes) (edit : Option FreshValue) :
    (db.writeFor key fun s => s.getMut now key (edit.map Subtype.val)).1.keyspace =
        Function.update db.keyspace key ((live now (db.keyspace key)).map (edited edit)) ∧
      (db.writeFor key fun s => s.getMut now key (edit.map Subtype.val)).2 =
        (live now (db.keyspace key)).isSome := by
  rw [keyspace_writeFor (Database.moves_getMut now key _)]
  show _ ∧ ((db.shardFor key).getMut now key (edit.map Subtype.val)).2 = _
  have entry : (db.view key).entry = (db.shardFor key).entries.lookup key := rfl
  rcases db.key_cases now key with ⟨he, -, alive⟩ | ⟨e, he, expired, -, alive⟩ | ⟨e, he, expired, -, alive⟩
  · rw [alive, he]
    refine ⟨by simp [View.content, he], ?_⟩
    rw [entry] at he
    simp [Database.getMut, he]
  · rw [alive, he]
    refine ⟨by simp [expired, content_removed], ?_⟩
    rw [entry] at he
    simp [Database.getMut, he, expired]
  · rw [alive, he]
    have new : Entry.content { e with value := (edit.map Subtype.val).getD e.value } = edited edit e.content :=
      content_edited rfl rfl
    refine ⟨?_, ?_⟩
    · simp only [expired, Bool.false_eq_true, if_false, Option.map_some]
      rw [← new]
      rfl
    · rw [entry] at he
      simp [Database.getMut, he, expired]

/-- SET without options writes, whatever is there. -/
theorem keyspace_setPlain (key value : Bytes) :
    (db.writeFor key fun s => (s.setPlain now key value, ())).1.keyspace =
      Function.update db.keyspace key (some (.string value, none)) := by
  rw [keyspace_writeFor (Database.moves_setPlain now key value)]
  have fresh : (Entry.new (.string value)).content = (.string value, none) := rfl
  rcases db.key_cases now key with ⟨he, -, -⟩ | ⟨e, he, expired, -, -⟩ | ⟨e, he, expired, -, -⟩
  · rw [he]
    simp only [content_inserted, fresh]
  · rw [he]
    simp only [expired, if_true, content_inserted, fresh]
  · rw [he]
    simp [expired, written, View.content, DataType.content]

/-- A live entry is edited, else a fresh one. -/
theorem keyspace_getOrInsertWith (key : Bytes) (fresh : FreshEntry) (edit : Option FreshValue) :
    (db.writeFor key fun s =>
      (s.getOrInsertWith now key fresh.1 (edit.map Subtype.val), ())).1.keyspace =
      Function.update db.keyspace key
        (some (edited edit ((live now (db.keyspace key)).getD fresh.1.content))) := by
  rw [keyspace_writeFor (Database.moves_getOrInsertWith now key _ _)]
  refine congrArg (Function.update db.keyspace key) ?_
  rcases db.key_cases now key with ⟨he, -, alive⟩ | ⟨e, he, expired, -, alive⟩ | ⟨e, he, expired, -, alive⟩
  · rw [alive, he]
    exact congrArg some (content_edited rfl rfl)
  · rw [alive, he]
    simp only [expired, if_true]
    exact congrArg some (content_edited rfl rfl)
  · rw [alive, he]
    simp only [expired, Bool.false_eq_true, if_false]
    exact congrArg some (content_edited rfl rfl)

/-- A removal returns what was stored, expired or not. -/
theorem keyspace_remove (key : Bytes) :
    (db.writeFor key fun s => s.remove key).1.keyspace = Function.update db.keyspace key none ∧
      (db.writeFor key fun s => s.remove key).2.map Entry.content = db.keyspace key := by
  rw [keyspace_writeFor (Database.moves_remove key), content_removed]
  refine ⟨rfl, ?_⟩
  show ((db.shardFor key).remove key).2.map Entry.content = ((db.shardFor key).entries.lookup key).map _
  cases h : (db.shardFor key).entries.lookup key <;> simp [Database.remove, h, Entry.content]

theorem keyspace_insert (key : Bytes) (e : Entry) :
    (db.writeFor key fun s => (s.insert key e, ())).1.keyspace =
      Function.update db.keyspace key (some e.content) := by
  rw [keyspace_writeFor (Database.moves_insert key e), content_inserted]

/-- The deadline of what is stored, expired or not. -/
theorem keyspace_setExpiry (key : Bytes) (expiry : Option Nat) :
    (db.writeFor key fun s => (s.setExpiry key expiry, ())).1.keyspace =
      Function.update db.keyspace key ((db.keyspace key).map fun c => (c.1, expiry)) := by
  rw [keyspace_writeFor (Database.moves_setExpiry key expiry)]
  cases he : (db.view key).entry <;>
    simp [keyspace, View.content, he, written]

/-- The increment of an absent or expired key. -/
theorem incrBy_of_not_live {delta : Int64} {c : Option Content} (gone : live now c = none) :
    incrBy now delta c = (some (.int (.new delta), none), .ok delta) := by
  rw [incrBy, gone]

/-- On a live entry the write-lock increment is the increment of its content. -/
theorem incrBy_of_live {e : Entry} {delta : Int64} (alive : live now (some e.content) = some e.content)
    (lru : Nat) :
    (incrBy now delta (some e.content)).1 =
      some ((Database.incremented e delta lru).elim e.content Entry.content) := by
  rw [incrBy, alive]
  cases hv : e.value with
  | int cell =>
    have known : e.content = (.int (.new cell.value), e.expiry) := by rw [Entry.content, hv]; rfl
    rw [known]
    cases hn : checkedAddI64 cell.value delta <;>
      simp [Database.incremented, hv, hn, AtomicIntCell.new, Entry.content, DataType.content]
  | string v =>
    have known : e.content = (.string v, e.expiry) := by rw [Entry.content, hv]; rfl
    rw [known]
    cases hp : Database.parseValue v with
    | none => simp [Database.incremented, hv, hp]
    | some current =>
      cases hn : checkedAddI64 current delta <;>
        simp [Database.incremented, hv, hp, hn, Entry.content, DataType.content, AtomicIntCell.new]
  | _ => simp [Database.incremented, hv, Entry.content, DataType.content]

/-- The counter operation, under the write lock. -/
theorem keyspace_incrIntLocked (key : Bytes) (delta : Int64) :
    (db.writeFor key fun s => s.incrInt now key delta).1.keyspace =
        Function.update db.keyspace key (incrBy now delta (db.keyspace key)).1 ∧
      (db.writeFor key fun s => s.incrInt now key delta).2 = (incrBy now delta (db.keyspace key)).2 := by
  rw [keyspace_writeFor (Database.moves_incrInt now key delta)]
  show _ ∧ ((db.shardFor key).incrInt now key delta).2 = _
  have entry : (db.view key).entry = (db.shardFor key).entries.lookup key := rfl
  rcases db.key_cases now key with
    ⟨he, -, gone⟩ | ⟨e, he, expired, -, gone⟩ | ⟨e, he, expired, known, alive⟩
  · rw [incrBy_of_not_live gone, he]
    refine ⟨rfl, ?_⟩
    rw [entry] at he
    simp [Database.incrInt, he]
  · rw [incrBy_of_not_live gone, he]
    refine ⟨by simp only [expired, if_true]; rfl, ?_⟩
    rw [entry] at he
    simp [Database.incrInt, he, expired]
  · rw [known] at alive ⊢
    refine ⟨?_, ?_⟩
    · rw [incrBy_of_live alive (db.shardFor key).lruClock, he]
      simp only [expired, Bool.false_eq_true, if_false]
      cases inc : Database.incremented e delta (db.shardFor key).lruClock with
      | none => simp only [Option.elim, View.content, he]; rfl
      | some e' => rfl
    · rw [entry] at he
      rw [incrBy, alive]
      cases hv : e.value with
      | int cell =>
        have shape : e.content = (.int (.new cell.value), e.expiry) := by rw [Entry.content, hv]; rfl
        rw [shape]
        cases hn : checkedAddI64 cell.value delta <;>
          simp [Database.incrInt, he, expired, hv, hn, AtomicIntCell.new]
      | string v =>
        have shape : e.content = (.string v, e.expiry) := by rw [Entry.content, hv]; rfl
        rw [shape]
        cases hp : Database.parseValue v with
        | none => simp [Database.incrInt, he, expired, hv, hp]
        | some current =>
          cases hn : checkedAddI64 current delta <;> simp [Database.incrInt, he, expired, hv, hp, hn]
      | _ => simp [Database.incrInt, he, expired, hv, Entry.content, DataType.content]

/-- The counter operation, under the read lock where it can. What it does is the same. -/
theorem keyspace_incrInt (key : Bytes) (delta : Int64) :
    (db.incrInt now key delta).1.keyspace =
        Function.update db.keyspace key (incrBy now delta (db.keyspace key)).1 ∧
      (db.incrInt now key delta).2 = (incrBy now delta (db.keyspace key)).2 := by
  have content {e : Entry} {cell : AtomicIntCell} (he : (db.view key).entry = some e)
      (live' : e.isExpired now = false) (value : e.value = .int cell) :
      incrBy now delta (db.keyspace key) = match checkedAddI64 cell.value delta with
        | some n => (some (.int (.new n), e.expiry), .ok n)
        | none => (db.keyspace key, .error .overflow) := by
    rcases db.key_cases now key with ⟨he', -, -⟩ | ⟨e', he', expired, -, -⟩ | ⟨e', he', -, -, alive⟩
    · rw [he] at he'
      cases he'
    · rw [he] at he'
      cases he'
      rw [live'] at expired
      cases expired
    · rw [he] at he'
      cases he'
      rw [incrBy, alive, Entry.content, value]
      rfl
  rcases db.incrInt_cases now key delta with
    ⟨e, cell, cell', he, live', value, add, state, ans⟩ | ⟨e, cell, he, live', value, add, h⟩ | h
  · obtain ⟨n, sum, same⟩ := Option.bind_eq_some_iff.1 add
    cases same
    rw [content he live' value, sum, state, keyspace_writeFor (Database.moves_put key _)]
    exact ⟨rfl, ans⟩
  · have sum : checkedAddI64 cell.value delta = none := by
      cases hs : checkedAddI64 cell.value delta with
      | none => rfl
      | some n => simp [AtomicIntCell.checkedAdd, hs] at add
    rw [content he live' value, sum, h]
    exact ⟨(Function.update_eq_self key _).symm, rfl⟩
  · rw [h]
    exact keyspace_incrIntLocked key delta

/-- RENAME of the code is RENAME on keyspaces. -/
theorem keyspace_rename (db : ShardedDatabase) (src dst : Bytes) :
    (db.rename src dst).1.keyspace = (db.keyspace.rename src dst).1 ∧
      (db.rename src dst).2 = (db.keyspace.rename src dst).2 := by
  obtain ⟨state, ans⟩ := @keyspace_remove db src
  rw [rename, Keyspace.rename, ← ans, ← Prod.eta (db.writeFor src _)]
  cases h : (db.writeFor src fun s => s.remove src).2 with
  | none =>
    rw [h, Option.map_none] at ans
    rw [ans, Function.update_eq_self] at state
    exact ⟨state, rfl⟩
  | some e =>
    refine ⟨?_, rfl⟩
    rw [← state]
    exact keyspace_insert dst e

theorem keyspace_copyFrom (now : Nat) (db : ShardedDatabase) (src dst : Bytes) :
    (db.copyFrom now src dst).1.keyspace = (db.keyspace.copyFrom now src dst).1 ∧
      (db.copyFrom now src dst).2 = (db.keyspace.copyFrom now src dst).2 := by
  obtain ⟨state, ans⟩ := @keyspace_get db now src
  rw [copyFrom, Keyspace.copyFrom, ← ans, ← Prod.eta (db.writeFor src _)]
  rw [← ans] at state
  cases h : (db.writeFor src fun s => s.get now src).2 with
  | none =>
    rw [h] at state
    exact ⟨state, rfl⟩
  | some e =>
    rw [h] at state
    refine ⟨?_, rfl⟩
    show _ = Function.update (Function.update db.keyspace src (some e.content)) dst (some e.content)
    rw [← Option.map_some, ← state]
    exact keyspace_insert dst e

theorem keyspace_copyEntry (now : Nat) (db : ShardedDatabase) (src dst : Bytes) (replace : Bool) :
    (db.copyEntry now src dst replace).1.keyspace = (db.keyspace.copyEntry now src dst replace).1 ∧
      (db.copyEntry now src dst replace).2 = (db.keyspace.copyEntry now src dst replace).2 := by
  cases replace with
  | true => exact keyspace_copyFrom now db src dst
  | false =>
    obtain ⟨state, ans⟩ := @keyspace_get db now dst
    simp only [copyEntry, Keyspace.copyEntry, Bool.false_eq_true, if_false]
    rw [← ans, ← Prod.eta (db.writeFor dst _)]
    rw [← ans] at state
    cases h : (db.writeFor dst fun s => s.get now dst).2 with
    | some e =>
      rw [h] at state
      exact ⟨state, rfl⟩
    | none =>
      rw [h, Option.map_none] at state
      have rest := keyspace_copyFrom now (db.writeFor dst fun s => s.get now dst).1 src dst
      rw [state] at rest
      exact rest

end ShardedDatabase

namespace World

/-- **Refinement, one step.** An operation of a client does to the keyspace what `apply` says, and
answers so. -/
theorem keyspace_step (w : World) (op : ClientOp) :
    (w.step op.1).keyspace = (op.apply w.now w.keyspace).1 ∧ w.answer op = (op.apply w.now w.keyspace).2 := by
  obtain ⟨op, client⟩ := op
  cases op with
  | get key =>
    obtain ⟨state, ans⟩ := @ShardedDatabase.keyspace_get w.db w.now key
    exact ⟨state, congrArg Answer.value ans⟩
  | insert key entry => exact ⟨ShardedDatabase.keyspace_insert key entry.1, rfl⟩
  | setPlain key value => exact ⟨ShardedDatabase.keyspace_setPlain key value, rfl⟩
  | getMut key edit =>
    obtain ⟨state, ans⟩ := @ShardedDatabase.keyspace_getMut w.db w.now key edit
    exact ⟨state, congrArg Answer.flag ans⟩
  | getOrInsertWith key fresh edit => exact ⟨ShardedDatabase.keyspace_getOrInsertWith key fresh edit, rfl⟩
  | incrInt key delta =>
    obtain ⟨state, ans⟩ := @ShardedDatabase.keyspace_incrInt w.db w.now key delta
    exact ⟨state, congrArg Answer.incr ans⟩
  | incrIntLocked key delta =>
    obtain ⟨state, ans⟩ := @ShardedDatabase.keyspace_incrIntLocked w.db w.now key delta
    exact ⟨state, congrArg Answer.incr ans⟩
  | remove key =>
    obtain ⟨state, ans⟩ := @ShardedDatabase.keyspace_remove w.db key
    exact ⟨state, congrArg Answer.value ans⟩
  | setExpiry key expiry => exact ⟨ShardedDatabase.keyspace_setExpiry key expiry, rfl⟩
  | expireBatch maxTotal => cases client
  | rename src dst =>
    obtain ⟨state, ans⟩ := w.db.keyspace_rename src dst
    exact ⟨state, congrArg Answer.flag ans⟩
  | copyEntry src dst replace =>
    obtain ⟨state, ans⟩ := w.db.keyspace_copyEntry w.now src dst replace
    exact ⟨state, congrArg Answer.flag ans⟩
  | flush =>
    refine ⟨funext fun x => ?_, rfl⟩
    show (w.db.flush.view x).content = none
    rw [ShardedDatabase.view_flush]
    rfl
  | tick now => cases client

theorem now_step (w : World) (op : ClientOp) : (w.step op.1).now = w.now := by
  obtain ⟨op, client⟩ := op
  cases op <;> first | rfl | cases client

end World

end NexradeCache
