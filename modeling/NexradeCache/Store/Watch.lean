import NexradeCache.Store.Versions

/-!
# WATCH over runs of the store

The operations of `ShardedDatabase` that write a key, as steps of a `World` with a clock.
`EXEC` trusts that a watched key whose `key_version` is what it was has not been touched. That
holds as long as no step loses a counter of the key (`StoreOp.Keeps`): `Database::insert` over an
absent key starts its slot at 1 again, and dropping an integer cell drops its counter.
-/

namespace NexradeCache

open Stamp View

/-- A value a client supplies: the cell of an integer is new. -/
abbrev FreshValue := { d : DataType // d.cellVersion = 0 }

/-- An entry a client supplies. -/
abbrev FreshEntry := { e : Entry // e.value.cellVersion = 0 }

/-- An operation on a database that can touch a watched key, with the arguments it is called with. -/
inductive StoreOp where
  | get (key : Bytes)
  | insert (key : Bytes) (entry : FreshEntry)
  | setPlain (key value : Bytes)
  | getMut (key : Bytes) (edit : Option FreshValue)
  | getOrInsertWith (key : Bytes) (fresh : FreshEntry) (edit : Option FreshValue)
  /-- `ShardedDatabase::incr_int`. -/
  | incrInt (key : Bytes) (delta : Int64)
  /-- `Database::incr_int`, under the write lock. -/
  | incrIntLocked (key : Bytes) (delta : Int64)
  | remove (key : Bytes)
  | setExpiry (key : Bytes) (expiry : Option Nat)
  | expireBatch (maxTotal : Nat)
  | rename (src dst : Bytes)
  | copyEntry (src dst : Bytes) (replace : Bool)
  | flush
  /-- The system clock moves. -/
  | tick (now : Nat)

/-- A database and the time of the clock. Operations read the time but do not move it. -/
structure World where
  now : Nat
  db : ShardedDatabase

namespace World

def new (numShards : Nat) (positive : 0 < numShards) (now : Nat) : World :=
  ⟨now, .new numShards positive⟩

def step (w : World) : StoreOp → World
  | .get key => { w with db := (w.db.writeFor key fun s => s.get w.now key).1 }
  | .insert key entry => { w with db := (w.db.writeFor key fun s => (s.insert key entry.1, ())).1 }
  | .setPlain key value => { w with db := (w.db.writeFor key fun s => (s.setPlain w.now key value, ())).1 }
  | .getMut key edit =>
    { w with db := (w.db.writeFor key fun s => s.getMut w.now key (edit.map Subtype.val)).1 }
  | .getOrInsertWith key fresh edit =>
    { w with db := (w.db.writeFor key fun s =>
        (s.getOrInsertWith w.now key fresh.1 (edit.map Subtype.val), ())).1 }
  | .incrInt key delta => { w with db := (w.db.incrInt w.now key delta).1 }
  | .incrIntLocked key delta => { w with db := (w.db.writeFor key fun s => s.incrInt w.now key delta).1 }
  | .remove key => { w with db := (w.db.writeFor key fun s => s.remove key).1 }
  | .setExpiry key expiry => { w with db := (w.db.writeFor key fun s => (s.setExpiry key expiry, ())).1 }
  | .expireBatch maxTotal => { w with db := (w.db.expireBatch w.now maxTotal).1 }
  | .rename src dst => { w with db := (w.db.rename src dst).1 }
  | .copyEntry src dst replace => { w with db := (w.db.copyEntry w.now src dst replace).1 }
  | .flush => { w with db := w.db.flush }
  | .tick now => { w with now }

def run (w : World) (ops : List StoreOp) : World := ops.foldl step w

/-- The value and the deadline of a key. -/
def content (key : Bytes) (w : World) : Option (DataType × Option Nat) := (w.db.view key).content

def keyVersion (w : World) (key : Bytes) : Nat := w.db.keyVersion w.now key

end World

/-- Every operation but the clock counts as a write. -/
def StoreOp.writes : StoreOp → Nat
  | .tick _ => 0
  | _ => 1

/-- The step loses no counter of `k`, nor starts one again. -/
def StoreOp.Keeps (k : Bytes) (w : World) : StoreOp → Prop
  | .get _ | .expireBatch _ | .flush => True
  | .insert key _ | .setPlain key _ =>
    key = k → (w.db.view k).entry.isSome ∧ (w.db.view k).liveCell w.now = 0
  | .getMut key edit => key = k → edit.isSome → (w.db.view k).liveCell w.now = 0
  | .getOrInsertWith key _ edit =>
    key = k → (w.db.view k).slot.isSome ∧ (edit.isSome → (w.db.view k).liveCell w.now = 0)
  | .incrInt key _ | .incrIntLocked key _ => key = k → (w.db.view k).slot.isSome
  | .remove key => key = k → (w.db.view k).liveCell w.now = 0
  | .setExpiry key expiry => key = k → (∃ ms, expiry = some ms ∧ ms ≤ w.now) →
    (w.db.view k).liveCell w.now = 0
  | .rename src dst =>
    ∀ e, (w.db.view src).entry = some e →
      (src = k → (w.db.view k).liveCell w.now = 0 ∧ dst ≠ k) ∧
      (src ≠ k → dst = k → (w.db.view k).entry.isSome ∧ (w.db.view k).liveCell w.now ≤ e.liveCell w.now)
  | .copyEntry src dst replace =>
    dst = k → ∀ e, (w.db.view src).entry = some e → e.isExpired w.now = false →
      if replace then (w.db.view k).entry.isSome ∧ (w.db.view k).liveCell w.now ≤ e.liveCell w.now
      else (w.db.view k).Live w.now
  | .tick now => (w.db.view k).liveCell w.now ≤ (w.db.view k).liveCell now

/-! ## The moves of the single operations -/

theorem cellVersion_edit (edit : Option FreshValue) (d : DataType) :
    ((edit.map Subtype.val).getD d).cellVersion ≤ d.cellVersion := by
  cases edit with
  | none => exact le_rfl
  | some d' => simp [d'.2]

theorem liveCell_edit {now : Nat} {v : View} {e e' : Entry} {edit : Option FreshValue} (he : v.entry = some e)
    (value : e'.value = (edit.map Subtype.val).getD e.value) (expiry : e'.expiry = e.expiry)
    (keeps : edit.isSome → v.liveCell now = 0) : v.liveCell now ≤ e'.liveCell now := by
  cases edit with
  | some d => rw [keeps rfl]; exact Nat.zero_le _
  | none =>
    have expired : e'.isExpired now = e.isExpired now := by rw [Entry.isExpired, expiry, Entry.isExpired]
    have same : e'.value = e.value := value
    simp only [liveCell, he, Entry.liveCell, expired, same]
    exact le_rfl

theorem liveCell_of_expired {now : Nat} {v : View} {e : Entry} (he : v.entry = some e)
    (expired : e.isExpired now = true) : v.liveCell now = 0 := by
  simp only [liveCell, he, Entry.liveCell_of_expired expired]

/-- The write-lock increment keeps the deadline and the counter of the cell. -/
theorem Database.incremented_keeps {e e' : Entry} {delta : Int64} {lru : Nat}
    (h : incremented e delta lru = some e') :
    e'.expiry = e.expiry ∧ e'.value.cellVersion = e.value.cellVersion := by
  unfold incremented at h
  split at h
  · rename_i cell hv
    obtain ⟨n, -, rfl⟩ := Option.map_eq_some_iff.1 h
    exact ⟨rfl, by rw [hv]; rfl⟩
  · rename_i s hv
    obtain ⟨n, -, rfl⟩ := Option.map_eq_some_iff.1 h
    exact ⟨rfl, by rw [hv]; rfl⟩
  · cases h

namespace ShardedDatabase

variable {db : ShardedDatabase} {now S C : Nat} {k : Bytes}

section Bounds

variable (within : db.Within S S C) (small : S + 1 < 2 ^ 64)
include within small

omit small in
/-- The bounds while an operation is under way. -/
theorem Within.open : db.Within S (S + 1) C := within.mono le_rfl (Nat.le_succ S) le_rfl

theorem Within.setPlain (now : Nat) (key value : Bytes) :
    (db.writeFor key fun s => (s.setPlain now key value, ())).1.Within (S + 1) (S + 1) C := by
  refine within.writeFor (Database.moves_setPlain now key value) (by omega) (by omega) le_rfl ?_
  have mid := within.open key
  cases he : (db.view key).entry with
  | none => exact mid.inserted small (Nat.zero_le C)
  | some e =>
    dsimp only
    split
    · exact mid.inserted small (Nat.zero_le C)
    · exact (within key).written small (Nat.zero_le C)

theorem Within.getMut (now : Nat) (key : Bytes) (edit : Option FreshValue) :
    (db.writeFor key fun s => s.getMut now key (edit.map Subtype.val)).1.Within (S + 1) (S + 1) C := by
  refine within.writeFor (Database.moves_getMut now key _) (by omega) (by omega) le_rfl ?_
  have here := within key
  cases he : (db.view key).entry with
  | none => exact here.mono (by omega) (by omega) le_rfl
  | some e =>
    dsimp only
    split
    · exact ((within.open key).removed small).mono (by omega) le_rfl le_rfl
    · exact here.written small ((cellVersion_edit edit e.value).trans (here.cell e he))

theorem Within.getOrInsertWith (now : Nat) (key : Bytes) (fresh : FreshEntry) (edit : Option FreshValue) :
    (db.writeFor key fun s => (s.getOrInsertWith now key fresh.1 (edit.map Subtype.val), ())).1.Within
      (S + 1) (S + 1) C := by
  refine within.writeFor (Database.moves_getOrInsertWith now key _ _) (by omega) (by omega) le_rfl ?_
  have here := within key
  have new : ((edit.map Subtype.val).getD fresh.1.value).cellVersion ≤ C :=
    (cellVersion_edit edit _).trans (by rw [fresh.2]; exact Nat.zero_le C)
  cases he : (db.view key).entry with
  | none => exact here.written small new
  | some e =>
    dsimp only
    split
    · exact here.written small new
    · exact here.written small ((cellVersion_edit edit e.value).trans (here.cell e he))

theorem Within.setExpiry (key : Bytes) (expiry : Option Nat) :
    (db.writeFor key fun s => (s.setExpiry key expiry, ())).1.Within (S + 1) (S + 1) C := by
  refine within.writeFor (Database.moves_setExpiry key expiry) (by omega) (by omega) le_rfl ?_
  have here := within key
  cases he : (db.view key).entry with
  | none => exact here.mono (by omega) (by omega) le_rfl
  | some e => exact here.written small (here.cell e he)

/-- So does the counter operation under the write lock. -/
theorem Within.incrIntLocked (now : Nat) (key : Bytes) (delta : Int64) :
    (db.writeFor key fun s => s.incrInt now key delta).1.Within (S + 1) (S + 1) C := by
  refine within.writeFor (Database.moves_incrInt now key delta) (by omega) (by omega) le_rfl ?_
  have here := within key
  cases he : (db.view key).entry with
  | none => exact here.written small (Nat.zero_le C)
  | some e =>
    dsimp only
    split
    · exact here.written small (Nat.zero_le C)
    · split
      · rename_i e' inc
        exact here.written small ((Database.incremented_keeps inc).2.trans_le (here.cell e he))
      · exact here.mono (by omega) (by omega) le_rfl

theorem Within.rename (src dst : Bytes) : (db.rename src dst).1.Within (S + 1) (S + 1) C := by
  have taken := within.open.remove small src
  rcases db.rename_cases src dst with ⟨e, he, h⟩ | ⟨-, h⟩
  · rw [h]
    exact taken.insert small dst ((within src).cell e he)
  · rw [h]
    exact taken.mono (by omega) le_rfl le_rfl

omit within in
theorem Within.copyFrom (mid : db.Within S (S + 1) C) (now : Nat) (src dst : Bytes) :
    (db.copyFrom now src dst).1.Within (S + 1) (S + 1) C := by
  have read := mid.get small now src
  rw [ShardedDatabase.copyFrom]
  rcases db.get_cases now src with ⟨e, e', he, -, value, -, got, -⟩ | ⟨-, got, -⟩
  · rw [← Prod.eta (db.writeFor src _), got]
    exact read.insert small dst (value ▸ (mid src).cell e he)
  · rw [← Prod.eta (db.writeFor src _), got]
    exact read.mono (by omega) le_rfl le_rfl

theorem Within.copyEntry (now : Nat) (src dst : Bytes) (replace : Bool) :
    (db.copyEntry now src dst replace).1.Within (S + 1) (S + 1) C := by
  have checked := within.open.get small now dst
  rw [ShardedDatabase.copyEntry]
  split
  · exact copyFrom small within.open now src dst
  · rw [← Prod.eta (db.writeFor dst _)]
    split
    · rename_i db' e h
      rw [Prod.mk.injEq] at h
      rw [h.1] at checked
      exact checked.mono (by omega) le_rfl le_rfl
    · rename_i db' h
      rw [Prod.mk.injEq] at h
      rw [h.1] at checked
      exact copyFrom small checked now src dst

theorem Within.expireBatch (now maxTotal : Nat) :
    (db.expireBatch now maxTotal).1.Within (S + 1) (S + 1) C := by
  intro x
  rw [view, shardFor_expireBatch]
  refine View.Within.settles ?_ (Database.view_expireBatch now _ _ x)
  split
  · exact ((within.open x).removed small).mono (by omega) le_rfl le_rfl
  · exact (within x).mono (by omega) (by omega) le_rfl

omit small in
theorem Within.incrInt (now : Nat) (key : Bytes) (delta : Int64) (small : S + C + 1 < 2 ^ 64) :
    ∃ S' C', S' + C' ≤ S + C + 1 ∧ (db.incrInt now key delta).1.Within S' S' C' := by
  rcases db.incrInt_cases now key delta with
    ⟨e, cell, cell', he, -, value, add, h, -⟩ | ⟨-, -, -, -, -, -, h⟩ | h
  · refine ⟨S, C + 1, by omega, ?_⟩
    rw [h]
    refine within.writeFor (Database.moves_put key _) le_rfl le_rfl (Nat.le_succ C) ?_
    refine (within key).entry he ?_
    obtain ⟨sum, -, same⟩ := Option.bind_eq_some_iff.1 add
    cases same
    have bound : cell.version ≤ C := by simpa [value, DataType.cellVersion] using (within key).cell e he
    show wrappingSucc cell.version ≤ C + 1
    rw [wrappingSucc]
    omega
  · exact ⟨S, C, by omega, by rwa [h]⟩
  · exact ⟨S + 1, C, by omega, by rw [h]; exact within.incrIntLocked (by omega) now key delta⟩

end Bounds

section Covers

variable (within : db.Within S S C) (small : S + 1 < 2 ^ 64)
include within small

theorem covers_bumped {e : Entry} (slot : (db.view k).slot ≠ none)
    (cell : (db.view k).liveCell now ≤ e.liveCell now) :
    Covers (stamp now) View.content (db.view k) ((db.view k).written e) := by
  refine covers_written (fun n hn => ?_) slot cell
  have := (within k).absent n hn
  omega

/-- SET without options, over a value that shows no cell. -/
theorem covers_setPlain (key value : Bytes)
    (keeps : key = k → (db.view k).entry.isSome ∧ (db.view k).liveCell now = 0) :
    Covers (stamp now) View.content (db.view k)
      ((db.writeFor key fun s => (s.setPlain now key value, ())).1.view k) := by
  refine covers_writeFor (Database.moves_setPlain now key value) fun same => ?_
  obtain ⟨there, cell⟩ := keeps same
  have here := within k
  cases he : (db.view k).entry with
  | none => simp [he] at there
  | some e =>
    have any (e' : Entry) : (db.view k).liveCell now ≤ e'.liveCell now := by
      rw [cell]
      exact Nat.zero_le _
    dsimp only
    split
    · exact covers_inserted here small (by simp [he]) (any _)
    · exact covers_bumped within small (here.slotted (by simp [he])) (any _)

theorem covers_getMut (key : Bytes) (edit : Option FreshValue)
    (keeps : key = k → edit.isSome → (db.view k).liveCell now = 0) :
    Covers (stamp now) View.content (db.view k)
      ((db.writeFor key fun s => s.getMut now key (edit.map Subtype.val)).1.view k) := by
  refine covers_writeFor (Database.moves_getMut now key _) fun same => ?_
  have here := within k
  cases he : (db.view k).entry with
  | none => exact .refl _
  | some e =>
    dsimp only
    split
    · exact covers_removed here small (liveCell_of_expired he ‹_›)
    · exact covers_bumped within small (here.slotted (by simp [he])) (liveCell_edit he rfl rfl (keeps same))

/-- An edit of what may be fresh, over a slot that is there. -/
theorem covers_getOrInsertWith (key : Bytes) (fresh : FreshEntry) (edit : Option FreshValue)
    (keeps : key = k → (db.view k).slot.isSome ∧ (edit.isSome → (db.view k).liveCell now = 0)) :
    Covers (stamp now) View.content (db.view k)
      ((db.writeFor key fun s =>
        (s.getOrInsertWith now key fresh.1 (edit.map Subtype.val), ())).1.view k) := by
  refine covers_writeFor (Database.moves_getOrInsertWith now key _ _) fun same => ?_
  obtain ⟨slot, cell⟩ := keeps same
  have here := within k
  have slot : (db.view k).slot ≠ none := Option.isSome_iff_ne_none.1 slot
  cases he : (db.view k).entry with
  | none => exact covers_bumped within small slot (by simp [View.liveCell, he])
  | some e =>
    dsimp only
    split
    · refine covers_bumped within small slot ?_
      rw [liveCell_of_expired he ‹_›]
      exact Nat.zero_le _
    · exact covers_bumped within small slot (liveCell_edit he rfl rfl cell)

/-- An increment is seen by the cell, a fresh counter by the slot. -/
theorem covers_incrIntLocked (key : Bytes) (delta : Int64) (keeps : key = k → (db.view k).slot.isSome) :
    Covers (stamp now) View.content (db.view k)
      ((db.writeFor key fun s => s.incrInt now key delta).1.view k) := by
  refine covers_writeFor (Database.moves_incrInt now key delta) fun same => ?_
  have here := within k
  have slot : (db.view k).slot ≠ none := Option.isSome_iff_ne_none.1 (keeps same)
  cases he : (db.view k).entry with
  | none => exact covers_bumped within small slot (by simp [View.liveCell, he])
  | some e =>
    dsimp only
    split
    · refine covers_bumped within small slot ?_
      rw [liveCell_of_expired he ‹_›]
      exact Nat.zero_le _
    · split
      · rename_i live e' inc
        obtain ⟨expiry, cell⟩ := Database.incremented_keeps inc
        have expired : e'.isExpired now = e.isExpired now := by
          rw [Entry.isExpired, expiry, Entry.isExpired]
        refine covers_bumped within small slot (le_of_eq ?_)
        simp only [View.liveCell, he, Entry.liveCell, expired, cell]
      · exact .refl _

theorem covers_incrInt (key : Bytes) (delta : Int64) (cells : C + 1 < 2 ^ 64)
    (keeps : key = k → (db.view k).slot.isSome) :
    Covers (stamp now) View.content (db.view k) ((db.incrInt now key delta).1.view k) := by
  rcases db.incrInt_cases now key delta with
    ⟨e, cell, cell', he, live, value, add, h, -⟩ | ⟨-, -, -, -, -, -, h⟩ | h
  · rw [h]
    refine covers_writeFor (Database.moves_put key _) fun same => ?_
    subst same
    exact covers_cell (within key) cells he live value add
  · rw [h]
    exact .refl _
  · rw [h]
    exact covers_incrIntLocked within small key delta keeps

/-- A deadline is seen, unless it lies behind and the cell shows. -/
theorem covers_setExpiry (key : Bytes) (expiry : Option Nat)
    (keeps : key = k → (∃ ms, expiry = some ms ∧ ms ≤ now) → (db.view k).liveCell now = 0) :
    Covers (stamp now) View.content (db.view k)
      ((db.writeFor key fun s => (s.setExpiry key expiry, ())).1.view k) := by
  refine covers_writeFor (Database.moves_setExpiry key expiry) fun same => ?_
  have here := within k
  cases he : (db.view k).entry with
  | none => exact .refl _
  | some e =>
    refine covers_bumped within small (here.slotted (by simp [he])) ?_
    by_cases past : ∃ ms, expiry = some ms ∧ ms ≤ now
    · rw [keeps same past]
      exact Nat.zero_le _
    · have live : Entry.isExpired now { e with expiry } = false := by
        cases expiry with
        | none => rfl
        | some ms => simpa [Entry.isExpired] using past
      rw [Entry.liveCell_of_live live]
      simp only [View.liveCell, he, Entry.liveCell]
      split
      · exact Nat.zero_le _
      · exact le_rfl

/-- A batch deletes expired keys only, whose cells no longer count. -/
theorem covers_expireBatch (indexed : db.Indexed) (maxTotal : Nat) :
    Covers (stamp now) View.content (db.view k) ((db.expireBatch now maxTotal).1.view k) := by
  show Covers _ _ _ (((db.expireBatch now maxTotal).1.shardFor k).view k)
  rw [shardFor_expireBatch]
  refine Covers.trans ?_ (covers_settles (Database.view_expireBatch now _ _ k))
  split
  · rename_i batch
    obtain ⟨e, he, expired⟩ := (indexed.shardFor k).expired_of_due batch
    exact covers_removed (within k) small (liveCell_of_expired he expired)
  · exact .refl _

omit small in
/-- A flush is seen by every key that was there. -/
theorem covers_flush : Covers (stamp now) View.content (db.view k) (db.flush.view k) := by
  rw [view_flush]
  exact covers_gone (within k)

end Covers

section Pairs

variable (within : db.Within S (S + 1) C) (small : S + 1 < 2 ^ 64)
include within small

theorem covers_rename (src dst : Bytes)
    (keeps : ∀ e, (db.view src).entry = some e →
      (src = k → (db.view k).liveCell now = 0 ∧ dst ≠ k) ∧
      (src ≠ k → dst = k → (db.view k).entry.isSome ∧ (db.view k).liveCell now ≤ e.liveCell now)) :
    Covers (stamp now) View.content (db.view k) ((db.rename src dst).1.view k) := by
  have bounded := within.remove small src
  have cellZero (same : src = k) : (db.view k).liveCell now = 0 := by
    cases he : (db.view src).entry with
    | none => rw [View.liveCell, ← same, he]
    | some e => exact ((keeps e he).1 same).1
  have taken := covers_remove within small src cellZero
  rcases db.rename_cases src dst with ⟨e, he, h⟩ | ⟨-, h⟩
  · rw [h]
    refine taken.trans (covers_insert bounded small dst fun onto => ?_)
    have other : src ≠ k := fun same => ((keeps e he).1 same).2 onto
    obtain ⟨there, cell⟩ := (keeps e he).2 other onto
    have there := Option.isSome_iff_ne_none.1 there
    have same := ((view_writeFor (Database.moves_remove src) db).2 (Ne.symm other)).same_of_present there
    rw [same]
    exact ⟨there, cell⟩
  · rw [h]
    exact taken

theorem covers_copyFrom (src dst : Bytes)
    (keeps : dst = k → ∀ e, (db.view src).entry = some e → e.isExpired now = false →
      (db.view k).entry ≠ none ∧ (db.view k).liveCell now ≤ e.liveCell now) :
    Covers (stamp now) View.content (db.view k) ((db.copyFrom now src dst).1.view k) := by
  have bounded := within.get small now src
  have read : Covers (stamp now) View.content (db.view k)
      ((db.writeFor src fun s => s.get now src).1.view k) := covers_get within small src
  rw [copyFrom]
  rcases db.get_cases now src with ⟨e, e', he, live, value, expiry, got, stays⟩ | ⟨-, got, -⟩
  · have cell : e'.liveCell now = e.liveCell now := by
      have expired : e'.isExpired now = e.isExpired now := by rw [Entry.isExpired, expiry, Entry.isExpired]
      rw [Entry.liveCell, Entry.liveCell, expired, value]
    rw [← Prod.eta (db.writeFor src _), got]
    refine read.trans (covers_insert bounded small dst fun onto => ?_)
    obtain ⟨there, le⟩ := keeps onto e he live
    by_cases same : src = k
    · subst same
      exact ⟨by rw [stays]; simp, by rw [View.liveCell, stays]⟩
    · have kept := ((view_writeFor (Database.moves_get now src) db).2 (Ne.symm same)).same_of_present there
      rw [kept, cell]
      exact ⟨there, le⟩
  · rw [← Prod.eta (db.writeFor src _), got]
    exact read

/-- Without REPLACE a copy onto a live key stops at the check. -/
theorem covers_copyEntry (src dst : Bytes) (replace : Bool)
    (keeps : dst = k → ∀ e, (db.view src).entry = some e → e.isExpired now = false →
      if replace then (db.view k).entry.isSome ∧ (db.view k).liveCell now ≤ e.liveCell now
      else (db.view k).Live now) :
    Covers (stamp now) View.content (db.view k) ((db.copyEntry now src dst replace).1.view k) := by
  have bounded := within.get small now dst
  have checked : Covers (stamp now) View.content (db.view k)
      ((db.writeFor dst fun s => s.get now dst).1.view k) := covers_get within small dst
  cases replace with
  | true =>
    refine covers_copyFrom within small src dst fun onto e he live => ?_
    obtain ⟨there, le⟩ := keeps onto e he live
    exact ⟨Option.isSome_iff_ne_none.1 there, le⟩
  | false =>
    simp only [copyEntry, Bool.false_eq_true, if_false]
    rcases db.get_cases now dst with ⟨e, e', he, live, -, -, got, -⟩ | ⟨vacant, got, absent⟩
    · rw [← Prod.eta (db.writeFor dst _), got]
      exact checked
    · rw [← Prod.eta (db.writeFor dst _), got]
      refine checked.trans (covers_copyFrom bounded small src dst fun onto e he live => ?_)
      subst onto
      by_cases same : src = dst
      · subst same
        rw [absent] at he
        cases he
      · have kept := (view_writeFor (Database.moves_get now dst) db).2 same
        rw [kept.entry] at he
        exact (vacant (keeps rfl e he live)).elim

end Pairs

end ShardedDatabase

/-! ## Runs -/

namespace World

/-- The index agrees with the entries, and the counters are bounded by the writes so far. -/
def Sound (writes : Nat) (w : World) : Prop :=
  w.db.Indexed ∧ ∃ S C, S + C ≤ writes ∧ w.db.Within S S C

theorem sound_new (numShards : Nat) (positive : 0 < numShards) (now : Nat) :
    (new numShards positive now).Sound 0 :=
  ⟨ShardedDatabase.indexed_new numShards positive, 0, 0, le_rfl, ShardedDatabase.within_new numShards positive⟩

variable {n : Nat} {w : World}

theorem Sound.indexed_step (h : w.Sound n) (op : StoreOp) : (w.step op).db.Indexed := by
  have indexed := h.1
  cases op with
  | get key => exact indexed.writeFor key fun h => h.get w.now key
  | insert key entry => exact indexed.insertFor key entry.1
  | setPlain key value => exact indexed.writeFor (f := fun s => (s.setPlain w.now key value, ())) key fun h => h.setPlain w.now key value
  | getMut key edit => exact indexed.writeFor key fun h => h.getMut w.now key _
  | getOrInsertWith key fresh edit =>
    exact indexed.writeFor (f := fun s => (s.getOrInsertWith w.now key fresh.1 _, ())) key fun h =>
      h.getOrInsertWith w.now key fresh.1 _
  | incrInt key delta => exact indexed.incrInt w.now key delta
  | incrIntLocked key delta => exact indexed.writeFor key fun h => h.incrInt w.now key delta
  | remove key => exact indexed.writeFor key fun h => h.remove key
  | setExpiry key expiry => exact indexed.writeFor (f := fun s => (s.setExpiry key expiry, ())) key fun h => h.setExpiry key expiry
  | expireBatch maxTotal => exact indexed.expireBatch w.now maxTotal
  | rename src dst => exact indexed.rename src dst
  | copyEntry src dst replace => exact indexed.copyEntry w.now src dst replace
  | flush => exact ShardedDatabase.Indexed.flush w.db
  | tick now => exact indexed

/-- Every operation raises the bounds by what it writes. -/
theorem within_step {S C : Nat} (h : w.db.Within S S C) (op : StoreOp) (small : S + C + op.writes < 2 ^ 64) :
    ∃ S' C', S' + C' ≤ S + C + op.writes ∧ (w.step op).db.Within S' S' C' := by
  have one {db : ShardedDatabase} (bumped : S + 1 < 2 ^ 64 → db.Within (S + 1) (S + 1) C)
      (counted : op.writes = 1) : ∃ S' C', S' + C' ≤ S + C + op.writes ∧ db.Within S' S' C' :=
    ⟨S + 1, C, by omega, bumped (by omega)⟩
  cases op with
  | get key => exact one (fun slots => (h.open.get slots w.now key).mono (by omega) le_rfl le_rfl) rfl
  | insert key entry => exact one (fun slots => h.open.insert slots key (entry.2.trans_le (Nat.zero_le C))) rfl
  | setPlain key value => exact one (fun slots => h.setPlain slots w.now key value) rfl
  | getMut key edit => exact one (fun slots => h.getMut slots w.now key edit) rfl
  | getOrInsertWith key fresh edit => exact one (fun slots => h.getOrInsertWith slots w.now key fresh edit) rfl
  | incrInt key delta => exact h.incrInt w.now key delta small
  | incrIntLocked key delta => exact one (fun slots => h.incrIntLocked slots w.now key delta) rfl
  | remove key => exact one (fun slots => (h.open.remove slots key).mono (by omega) le_rfl le_rfl) rfl
  | setExpiry key expiry => exact one (fun slots => h.setExpiry slots key expiry) rfl
  | expireBatch maxTotal => exact one (fun slots => h.expireBatch slots w.now maxTotal) rfl
  | rename src dst => exact one (fun slots => h.rename slots src dst) rfl
  | copyEntry src dst replace => exact one (fun slots => h.copyEntry slots w.now src dst replace) rfl
  | flush =>
    refine ⟨S, C, Nat.le_add_right _ _, fun x => ?_⟩
    rw [step, ShardedDatabase.view_flush]
    exact within_gone
  | tick now => exact ⟨S, C, le_rfl, h⟩

/-- Every operation keeps the state sound, as long as the versions do not wrap around. -/
theorem Sound.step (h : w.Sound n) (op : StoreOp) (small : n + op.writes < 2 ^ 64) :
    (w.step op).Sound (n + op.writes) := by
  refine ⟨h.indexed_step op, ?_⟩
  obtain ⟨-, S, C, le, within⟩ := h
  obtain ⟨S', C', le', within'⟩ := within_step within op (by omega)
  exact ⟨S', C', by omega, within'⟩

/-- The stamp of a key over the states of the store. -/
def stamp (k : Bytes) (w : World) : WithTop Nat := (w.db.view k).stamp w.now

/-- **One step.** An operation that keeps the counters of `k` is covered by its stamp. -/
theorem Sound.covers_step (h : w.Sound n) {op : StoreOp} (small : n + op.writes < 2 ^ 64) {k : Bytes}
    (keeps : op.Keeps k w) : Covers (stamp k) (content k) w (w.step op) := by
  obtain ⟨indexed, S, C, le, within⟩ := h
  have slots (counted : op.writes = 1) : S + 1 < 2 ^ 64 := by omega
  have cells (counted : op.writes = 1) : C + 1 < 2 ^ 64 := by omega
  have lift {db : ShardedDatabase} (c : Covers (View.stamp w.now) View.content (w.db.view k) (db.view k)) :
      Covers (stamp k) (content k) w { w with db } := ⟨c.le, c.grows⟩
  cases op with
  | get key => exact lift (ShardedDatabase.covers_get within (slots rfl) key)
  | insert key entry =>
    refine lift (ShardedDatabase.covers_insert within (slots rfl) key fun same => ?_)
    obtain ⟨there, cell⟩ := keeps same
    exact ⟨Option.isSome_iff_ne_none.1 there, cell.trans_le (Nat.zero_le _)⟩
  | setPlain key value => exact lift (ShardedDatabase.covers_setPlain within (slots rfl) key value keeps)
  | getMut key edit => exact lift (ShardedDatabase.covers_getMut within (slots rfl) key edit keeps)
  | getOrInsertWith key fresh edit =>
    exact lift (ShardedDatabase.covers_getOrInsertWith within (slots rfl) key fresh edit keeps)
  | incrInt key delta =>
    exact lift (ShardedDatabase.covers_incrInt within (slots rfl) key delta (cells rfl) keeps)
  | incrIntLocked key delta =>
    exact lift (ShardedDatabase.covers_incrIntLocked within (slots rfl) key delta keeps)
  | remove key => exact lift (ShardedDatabase.covers_remove within (slots rfl) key keeps)
  | setExpiry key expiry =>
    exact lift (ShardedDatabase.covers_setExpiry within (slots rfl) key expiry keeps)
  | expireBatch maxTotal =>
    exact lift (ShardedDatabase.covers_expireBatch within (slots rfl) indexed maxTotal)
  | rename src dst => exact lift (ShardedDatabase.covers_rename within.open (slots rfl) src dst keeps)
  | copyEntry src dst replace =>
    exact lift (ShardedDatabase.covers_copyEntry within.open (slots rfl) src dst replace keeps)
  | flush => exact lift (ShardedDatabase.covers_flush within)
  | tick now =>
    refine .of_same ?_ rfl
    show View.stamp w.now (w.db.view k) ≤ View.stamp now (w.db.view k)
    rw [View.stamp, View.stamp]
    cases (w.db.view k).slot with
    | none => exact le_rfl
    | some m => exact WithTop.coe_le_coe.2 (Nat.add_le_add_left keeps m)

/-- The writes of a run. -/
def writes (ops : List StoreOp) : Nat := (ops.map StoreOp.writes).sum

theorem Sound.run (h : w.Sound n) {ops : List StoreOp} (few : n + writes ops < 2 ^ 64) :
    (w.run ops).Sound (n + writes ops) := by
  induction ops generalizing w n with
  | nil => exact h
  | cons op ops ih =>
    have split : writes (op :: ops) = op.writes + writes ops := List.sum_cons
    rw [split, ← Nat.add_assoc] at few ⊢
    exact ih (h.step op (by omega)) few

/-- Along a run that keeps the counters, every step is taken in a sound state. -/
theorem Sound.along (h : w.Sound n) {k : Bytes} {ops : List StoreOp} (few : n + writes ops < 2 ^ 64)
    (keeps : Along World.step (fun w op => op.Keeps k w) w ops) :
    Along World.step (fun w op => op.Keeps k w ∧ ∃ n, w.Sound n ∧ n + op.writes < 2 ^ 64) w ops := by
  induction ops generalizing w n with
  | nil => trivial
  | cons op ops ih =>
    have split : writes (op :: ops) = op.writes + writes ops := List.sum_cons
    rw [split, ← Nat.add_assoc] at few
    exact ⟨⟨keeps.1, n, h, by omega⟩, ih (h.step op (by omega)) few keeps.2⟩

/-- In a sound state the version of a key is its stamp, zero if it has no slot. -/
theorem Sound.keyVersion_eq (h : w.Sound n) (small : n < 2 ^ 64) (k : Bytes) :
    (w.stamp k = ⊤ ∧ w.keyVersion k = 0) ∨ (w.stamp k = (w.keyVersion k : WithTop Nat) ∧ 0 < w.keyVersion k) := by
  obtain ⟨-, S, C, le, within⟩ := h
  have here := within k
  have sum : w.keyVersion k = (w.db.view k).slot.getD 0 + (w.db.view k).liveCell w.now :=
    Database.keyVersion_eq here (by omega)
  rw [sum, stamp, View.stamp]
  cases slot : (w.db.view k).slot with
  | none =>
    have absent : (w.db.view k).entry = none := by
      by_contra there
      exact here.slotted there slot
    exact .inl ⟨rfl, by simp [View.liveCell, absent]⟩
  | some m =>
    have positive := here.positive m slot
    exact .inr ⟨rfl, by simp only [Option.getD_some]; omega⟩

end World

/-- **WATCH.** A run that changes a key at least once leaves it with another version, also if the
key is deleted and made again, as long as no step loses a counter of the key. -/
theorem keyVersion_detects_changes (numShards : Nat) (positive : 0 < numShards) (now : Nat)
    (past ops : List StoreOp) (k : Bytes) {w : World} (reached : (World.new numShards positive now).run past = w)
    (few : World.writes past + World.writes ops < 2 ^ 64)
    (keeps : Along World.step (fun w op => op.Keeps k w) w ops)
    (changes : Changes World.step (World.content k) w ops) :
    (w.run ops).keyVersion k ≠ w.keyVersion k := by
  have start : w.Sound (World.writes past) := by
    have sound : ((World.new numShards positive now).run past).Sound (0 + World.writes past) :=
      (World.sound_new numShards positive now).run (by omega)
    rwa [reached, Nat.zero_add] at sound
  have sound := start.along few keeps
  have moved : w.stamp k < (w.run ops).stamp k :=
    lt_of_changes (fun w op h => h.2.choose_spec.1.covers_step h.2.choose_spec.2 h.1) sound changes
  rcases start.keyVersion_eq (by omega) k with ⟨top, -⟩ | ⟨before, pos⟩
  · rw [top] at moved
    exact (not_top_lt moved).elim
  · rcases (start.run few).keyVersion_eq few k with ⟨-, zero⟩ | ⟨after, -⟩
    · omega
    · rw [before, after] at moved
      exact (WithTop.coe_lt_coe.1 moved).ne'

/-- A counter created, incremented twice (once through its cell) and given a deadline. -/
theorem keyVersion_detects_incr :
    let w := (World.new 64 (by decide) 0).run [.setPlain [107] [49]]
    (w.run [.incrInt [107] 1, .incrInt [107] 1, .setExpiry [107] (some 50), .tick 10]).keyVersion [107] ≠
      w.keyVersion [107] := by
  refine keyVersion_detects_changes 64 (by decide) 0 _ _ _ rfl (by decide) ?_ ?_
  · refine ⟨fun _ => ?_, fun _ => ?_, fun _ past => ?_, ?_, trivial⟩
    · decide +kernel
    · decide +kernel
    · simp [World.step, World.run, World.new] at past
    · show _ ≤ _
      decide +kernel
  · refine .inr (.inr (.inl fun same => ?_))
    exact absurd (congrArg (fun c => c.bind Prod.snd) same) (by decide +kernel)

/-- A live key that is deleted and written again has its old version back: `insert` over an absent
key starts the slot at 1. -/
theorem keyVersion_recreated :
    let w := (World.new 64 (by decide) 0).run [.setPlain [107] [49]]
    let ops : List StoreOp := [.remove [107], .setPlain [107] [50]]
    (w.db.view [107]).Live w.now ∧ Changes World.step (World.content [107]) w ops ∧
      World.writes [.setPlain [107] [49]] + World.writes ops < 2 ^ 64 ∧
      (w.run ops).keyVersion [107] = w.keyVersion [107] := by
  intro w ops
  refine ⟨by decide +kernel, .inl fun same => ?_, by decide, by decide +kernel⟩
  exact absurd (congrArg Option.isSome same) (by decide +kernel)

end NexradeCache
