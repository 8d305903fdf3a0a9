import NexradeCache.Resp.Value
import NexradeCache.Store.Databases

/-!
# Command handlers as programs over the store

A handler is the store accesses it makes, one after the other, and what it does with their answers.
`exec` runs it: the access number `i` reads the clock as `clock i`. A handler that makes no `call` is
`Readonly`, and `exec_sameLive` is what follows: it leaves the live keyspace of every database as it
is, although `get` and `keys_matching` delete what has expired.
-/

namespace NexradeCache

/-- The lock of the shard a lookup is made under: `read_for(key).get_ro(key)` or
`write_for(key).get(key)`. -/
inductive Lock where
  | read
  | write
deriving DecidableEq, Repr

/-- A handler: it is done, or makes an access and goes on with the answer. `call` is the only access that writes. -/
inductive Handler where
  | done (reply : Resp)
  | lookup (lock : Lock) (db : Nat) (key : Bytes) (next : Option Content → Handler)
  | keysMatching (db : Nat) (pattern : Bytes) (next : List Bytes → Handler)
  /-- Counts, pages and copies of the store, under read locks. -/
  | look (next : Store → Handler)
  | call (db : Nat) (op : ClientOp) (next : Answer → Handler)

namespace Handler

/-- Run the handler; `i` accesses were made before. -/
def exec (clock : Nat → Nat) : Handler → Nat → Store → Store × Resp
  | .done reply, _, s => (s, reply)
  | .lookup .read db key next, i, s =>
    (next ((((s.db db).shardFor key).getRo (clock i) key).map Entry.content)).exec clock (i + 1) s
  | .lookup .write db key next, i, s =>
    let (db', entry) := (s.db db).writeFor key fun shard => shard.get (clock i) key
    (next (entry.map Entry.content)).exec clock (i + 1) (s.setDb db db')
  | .keysMatching db pattern next, i, s =>
    let (db', keys) := (s.db db).keysMatching (clock i) pattern
    (next keys).exec clock (i + 1) (s.setDb db db')
  | .look next, i, s => (next s).exec clock (i + 1) s
  | .call db op next, i, s =>
    let w : World := ⟨clock i, s.db db⟩
    (next (w.answer op)).exec clock (i + 1) (s.setDb db (w.step op.1).db)

/-- One access at a time: what it leaves of the store, and of the handler. -/
def access (now : Nat) (s : Store) : Handler → Store × Handler
  | .done reply => (s, .done reply)
  | .lookup .read db key next => (s, next ((((s.db db).shardFor key).getRo now key).map Entry.content))
  | .lookup .write db key next =>
    let (db', entry) := (s.db db).writeFor key fun shard => shard.get now key
    (s.setDb db db', next (entry.map Entry.content))
  | .keysMatching db pattern next =>
    let (db', keys) := (s.db db).keysMatching now pattern
    (s.setDb db db', next keys)
  | .look next => (s, next s)
  | .call db op next =>
    let w : World := ⟨now, s.db db⟩
    (s.setDb db (w.step op.1).db, next (w.answer op))

/-- **A handler runs access by access.** -/
theorem exec_access (clock : Nat → Nat) (h : Handler) (i : Nat) (s : Store) :
    h.exec clock i s = (h.access (clock i) s).2.exec clock (i + 1) (h.access (clock i) s).1 := by
  cases h with
  | lookup lock db key next => cases lock <;> rfl
  | _ => rfl

/-- The handler makes no operation that writes. -/
def Readonly : Handler → Prop
  | .done _ => True
  | .lookup _ _ _ next => ∀ c, (next c).Readonly
  | .keysMatching _ _ next => ∀ keys, (next keys).Readonly
  | .look next => ∀ s, (next s).Readonly
  | .call _ _ _ => False

@[simp] theorem readonly_done (reply : Resp) : (done reply).Readonly := trivial

@[simp] theorem readonly_lookup {lock : Lock} {db : Nat} {key : Bytes} {next : Option Content → Handler} :
    (lookup lock db key next).Readonly ↔ ∀ c, (next c).Readonly := .rfl

@[simp] theorem readonly_keysMatching {db : Nat} {pattern : Bytes} {next : List Bytes → Handler} :
    (keysMatching db pattern next).Readonly ↔ ∀ keys, (next keys).Readonly := .rfl

theorem readonly_access {h : Handler} (readonly : h.Readonly) (now : Nat) (s : Store) :
    (h.access now s).2.Readonly := by
  cases h with
  | done reply => exact trivial
  | lookup lock db key next => cases lock <;> exact readonly _
  | keysMatching db pattern next => exact readonly _
  | look next => exact readonly s
  | call db op next => exact readonly.elim

/-- An access that is no operation that writes changes nothing that is live. -/
theorem access_sameLive {h : Handler} (noCall : ∀ db op next, h ≠ .call db op next) {now later : Nat}
    (le : now ≤ later) (s : Store) : Store.SameLive later s (h.access now s).1 := by
  cases h with
  | done reply => exact .refl later s
  | lookup lock db key next =>
    cases lock with
    | read => exact .refl later s
    | write => exact Store.sameLive_setDb (ShardedDatabase.sameLive_get le key)
  | keysMatching db pattern next => exact Store.sameLive_setDb (ShardedDatabase.sameLive_keysMatching le pattern)
  | look next => exact .refl later s
  | call db op next => exact absurd rfl (noCall db op next)

theorem Readonly.noCall {h : Handler} (readonly : h.Readonly) (db : Nat) (op : ClientOp) (next : Answer → Handler) :
    h ≠ .call db op next := by
  rintro rfl
  exact readonly

/-- **Looking changes nothing that is live.** -/
theorem exec_sameLive {h : Handler} (readonly : h.Readonly) {clock : Nat → Nat} {now : Nat}
    (later : ∀ i, clock i ≤ now) (i : Nat) (s : Store) : Store.SameLive now s (h.exec clock i s).1 := by
  induction h generalizing i s with
  | done reply => exact .refl now s
  | lookup lock db key next ih =>
    have first := access_sameLive (Readonly.noCall readonly) (later i) s
    cases lock <;> exact first.trans (ih _ (readonly _) (i + 1) _)
  | keysMatching db pattern next ih =>
    have first := access_sameLive (Readonly.noCall readonly) (later i) s
    exact first.trans (ih _ (readonly _) (i + 1) _)
  | look next ih => exact ih s (readonly s) (i + 1) s
  | call db op next => exact readonly.elim

end Handler

end NexradeCache
