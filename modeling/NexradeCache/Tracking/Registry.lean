import Mathlib.Data.Finset.Card
import NexradeCache.Lib.Trace
import NexradeCache.Server.Connection

/-!
# The tracking registry (`nexrade-core/src/tracking.rs`, and what `dispatch_tracked` of
`nexrade-core/src/command/mod.rs` does with it)

The clients with their options, the keys that each of them is to be told about, and the number of
clients that track. An operation takes the lock of the registry once, but for `on_write` and `flush_all`,
which send under a second one. A send that a full channel drops is a send here.

`Kept` is what the registry promises after an event, `Fits` when it is so.
-/

namespace NexradeCache

open Trace

/-! ## The registry -/

/-- What a client is told: keys, or everything. -/
inductive TrackingPush where
  | keys (keys : List Bytes)
  | flushAll
deriving DecidableEq

/-- `key_index` as a function: the clients that track a key. -/
structure TrackingRegistry where
  clients : AList fun _ : Nat => TrackedClient
  keyIndex : Bytes → Option (Finset Nat)
  enabledCount : Nat

namespace TrackingRegistry

/-- No clients, no keys. -/
def new : TrackingRegistry := ⟨∅, fun _ => none, 0⟩

/-- `retain` of the key index: the client is dropped, and what is empty then. -/
def forget (index : Bytes → Option (Finset Nat)) (id : Nat) : Bytes → Option (Finset Nat) :=
  fun key => ((index key).map (·.erase id)).filter (· ≠ ∅)

/-- A connection comes. -/
def register (id : Nat) (r : TrackingRegistry) : TrackingRegistry :=
  { r with clients := r.clients.insert id ⟨false, .off, none⟩ }

/-- A connection goes, and the index forgets it. -/
def unregister (id : Nat) (r : TrackingRegistry) : TrackingRegistry where
  clients := r.clients.erase id
  keyIndex := forget r.keyIndex id
  enabledCount :=
    match r.clients.lookup id with
    | some c => if c.enabled then r.enabledCount - 1 else r.enabledCount
    | none => r.enabledCount

/-- CLIENT TRACKING ON. -/
def enable (id : Nat) (opts : TrackingOptions) (r : TrackingRegistry) : TrackingRegistry :=
  match r.clients.lookup id with
  | none => r
  | some c =>
    { r with
      clients := r.clients.insert id { c with enabled := true, opts }
      enabledCount := if c.enabled then r.enabledCount else r.enabledCount + 1 }

/-- CLIENT TRACKING OFF. -/
def disable (id : Nat) (r : TrackingRegistry) : TrackingRegistry :=
  match r.clients.lookup id with
  | none => { r with keyIndex := forget r.keyIndex id }
  | some c =>
    { clients := r.clients.insert id { c with enabled := false, opts := .off }
      keyIndex := forget r.keyIndex id
      enabledCount := if c.enabled then r.enabledCount - 1 else r.enabledCount }

/-- CLIENT CACHING. -/
def setCachingOverride (id : Nat) (yes : Bool) (r : TrackingRegistry) : TrackingRegistry :=
  match r.clients.lookup id with
  | none => r
  | some c => { r with clients := r.clients.insert id { c with cachingOverride := some yes } }

/-- The mode of the client and its override say whether a read is remembered. -/
def shouldTrack (c : TrackedClient) : Bool :=
  if c.opts.optin then c.cachingOverride.getD false
  else if c.opts.optout then c.cachingOverride.getD true
  else true

/-- The keys of a read go to the index, and the override is used up. -/
def trackRead (id : Nat) (keys : List Bytes) (r : TrackingRegistry) : TrackingRegistry :=
  if keys = [] || r.enabledCount = 0 then r
  else match r.clients.lookup id with
    | none => r
    | some c =>
      if !c.enabled || c.opts.bcast then r
      else
        { r with
          clients := r.clients.insert id { c with cachingOverride := none }
          keyIndex := fun key =>
            if shouldTrack c && keys.contains key then some (insert id ((r.keyIndex key).getD ∅)) else r.keyIndex key }

/-- The client is to hear of a write of the keys. -/
def isTarget (r : TrackingRegistry) (keys : List Bytes) (id : Nat) (c : TrackedClient) : Bool :=
  keys.any (fun key => id ∈ (r.keyIndex key).getD ∅) ||
    (c.enabled && c.opts.bcast && (c.opts.prefixes.isEmpty || keys.any fun key => c.opts.prefixes.any (·.isPrefixOf key)))

/-- Where a push for the client goes. -/
def destination (r : TrackingRegistry) (id : Nat) (c : TrackedClient) (push : TrackingPush) : List (Nat × TrackingPush) :=
  let dest := c.opts.redirect.getD id
  if (r.clients.lookup dest).isSome then [(dest, push)] else []

/-- Also what is sent, and to whom. -/
def onWrite (keys : List Bytes) (writer : Nat) (r : TrackingRegistry) : TrackingRegistry × List (Nat × TrackingPush) :=
  if keys = [] || r.enabledCount = 0 then (r, [])
  else
    ({ r with keyIndex := fun key => if keys.contains key then none else r.keyIndex key },
      r.clients.entries.flatMap fun ⟨id, c⟩ =>
        if r.isTarget keys id c && !(id = writer && c.opts.noloop) then r.destination id c (.keys keys) else [])

/-- A flush tells every client that tracks, and clears the index. -/
def flushAll (r : TrackingRegistry) : TrackingRegistry × List (Nat × TrackingPush) :=
  ({ r with keyIndex := fun _ => none },
    r.clients.entries.flatMap fun ⟨id, c⟩ =>
      if c.enabled then
        -- A redirect to 0 is none.
        r.destination id { c with opts := { c.opts with redirect := c.opts.redirect.filter (· ≠ 0) } } .flushAll
      else [])

/-! ## What the dispatcher does with it -/

/-- A command that was dispatched for a client: its kind, its outcome and the keys that were extracted. -/
structure Dispatched where
  client : Nat
  isFlush : Bool
  isWrite : Bool
  succeeded : Bool
  keys : List Bytes

/-- What `dispatch_tracked` does with the registry after a command. -/
def bookkeeping (d : Dispatched) (r : TrackingRegistry) : TrackingRegistry × List (Nat × TrackingPush) :=
  if d.succeeded then
    if d.isFlush then r.flushAll
    else if d.keys = [] then (r, [])
    else if d.isWrite then r.onWrite d.keys d.client
    else (r.trackRead d.client d.keys, [])
  else (r, [])

/-- What happens to a registry. -/
inductive Event where
  | register (id : Nat)
  | unregister (id : Nat)
  | enable (id : Nat) (opts : TrackingOptions)
  | disable (id : Nat)
  | setCachingOverride (id : Nat) (yes : Bool)
  | trackRead (id : Nat) (keys : List Bytes)
  | onWrite (keys : List Bytes) (writer : Nat)
  | flushAll
  | dispatched (d : Dispatched)

/-- One event. -/
def step : Event → TrackingRegistry → TrackingRegistry
  | .register id, r => r.register id
  | .unregister id, r => r.unregister id
  | .enable id opts, r => r.enable id opts
  | .disable id, r => r.disable id
  | .setCachingOverride id yes, r => r.setCachingOverride id yes
  | .trackRead id keys, r => r.trackRead id keys
  | .onWrite keys writer, r => (r.onWrite keys writer).1
  | .flushAll, r => r.flushAll.1
  | .dispatched d, r => (r.bookkeeping d).1

/-! ## What it promises -/

/-- The override of a client. -/
def override (r : TrackingRegistry) (id : Nat) : Option Bool := (r.clients.lookup id).bind TrackedClient.cachingOverride

/-- The registered clients with tracking on. -/
def enabledIds (r : TrackingRegistry) : Finset Nat :=
  r.clients.keys.toFinset.filter fun id => (r.clients.lookup id).any TrackedClient.enabled

/-- The counter, the clients and the index agree. -/
structure Consistent (r : TrackingRegistry) : Prop where
  count : r.enabledCount = r.enabledIds.card
  indexed : ∀ key ids, r.keyIndex key = some ids → ∀ id ∈ ids,
    ∃ c, r.clients.lookup id = some c ∧ c.enabled = true ∧ c.opts.bcast = false
  nonempty : ∀ key ids, r.keyIndex key = some ids → ids ≠ ∅

/-- The event may change the override of the client: it is its own. -/
def Event.concerns (id : Nat) : Event → Bool
  | .register id' | .unregister id' | .setCachingOverride id' _ | .trackRead id' _ => id' = id
  | .dispatched d => d.client = id
  | _ => false

/-- After the event. -/
structure Kept (e : Event) (r : TrackingRegistry) : Prop where
  consistent : (step e r).Consistent
  /-- The next command of the client uses its override up. -/
  consumed : ∀ d, e = .dispatched d → (step e r).override d.client = none
  /-- Nothing else does. -/
  waits : ∀ id, e.concerns id = false → (step e r).override id = r.override id

/-- The command is a read that `track_read` looks at. -/
def Dispatched.tracked (d : Dispatched) (r : TrackingRegistry) : Bool :=
  d.succeeded && !d.isFlush && !d.isWrite && d.keys ≠ [] &&
    (r.clients.lookup d.client).any fun c => c.enabled && !c.opts.bcast

/-- The condition of an event, on the state before it. -/
def Fits (e : Event) (r : TrackingRegistry) : Prop :=
  match e with
  | .register id => id ∉ r.enabledIds
  | .enable id opts => opts.bcast = true → ∀ key ids, r.keyIndex key = some ids → id ∉ ids
  | .dispatched d => r.override d.client ≠ none → d.tracked r = true
  | _ => True

/-! ## The client table -/

section
variable {r : TrackingRegistry} {id : Nat}

theorem mem_enabledIds : id ∈ r.enabledIds ↔ ∃ c, r.clients.lookup id = some c ∧ c.enabled = true := by
  unfold enabledIds
  rw [Finset.mem_filter, List.mem_toFinset, Option.any_eq_true]
  constructor
  · exact fun h => h.2
  · rintro ⟨c, found, enabled⟩
    refine ⟨AList.mem_keys.1 (AList.lookup_isSome.1 ?_), c, found, enabled⟩
    rw [found]
    rfl

/-- The same clients, and the same enabled ones. -/
theorem enabledIds_insert (c : TrackedClient) (index : Bytes → Option (Finset Nat)) (count : Nat) :
    (TrackingRegistry.mk (r.clients.insert id c) index count).enabledIds =
      if c.enabled then insert id r.enabledIds else r.enabledIds.erase id := by
  ext x
  rw [mem_enabledIds]
  dsimp only
  by_cases same : x = id
  · subst same
    rw [AList.lookup_insert]
    cases enabled : c.enabled <;> simp [enabled]
  · rw [AList.lookup_insert_ne same, ← mem_enabledIds]
    split <;> simp [same]

theorem enabledIds_erase (index : Bytes → Option (Finset Nat)) (count : Nat) :
    (TrackingRegistry.mk (r.clients.erase id) index count).enabledIds = r.enabledIds.erase id := by
  ext x
  rw [mem_enabledIds]
  dsimp only
  by_cases same : x = id
  · subst same
    rw [AList.lookup_erase]
    simp
  · rw [AList.lookup_erase_ne same, ← mem_enabledIds]
    simp [same]

theorem lookup_insert_iff {clients : AList fun _ : Nat => TrackedClient} {c : TrackedClient} (x : Nat) :
    (clients.insert id c).lookup x = if x = id then some c else clients.lookup x := by
  split
  · rename_i same
    rw [same, AList.lookup_insert]
  · rename_i other
    exact AList.lookup_insert_ne other

/-! ## The key index -/

/-- A key is forgotten when no client is left that reads it. -/
theorem forget_eq_some {index : Bytes → Option (Finset Nat)} {key : Bytes} {ids : Finset Nat}
    (h : forget index id key = some ids) : ∃ old, index key = some old ∧ ids = old.erase id ∧ ids ≠ ∅ := by
  unfold forget at h
  obtain ⟨some, nonempty⟩ := Option.filter_eq_some_iff.1 h
  obtain ⟨old, found, rfl⟩ := Option.map_eq_some_iff.1 some
  exact ⟨old, found, rfl, by simpa using nonempty⟩

/-- A change of one client that leaves tracking on or off. -/
theorem enabledIds_change {c : TrackedClient} (c' : TrackedClient) (index : Bytes → Option (Finset Nat)) (count : Nat)
    (found : r.clients.lookup id = some c) (enabled : c'.enabled = c.enabled) :
    (TrackingRegistry.mk (r.clients.insert id c') index count).enabledIds = r.enabledIds := by
  rw [enabledIds_insert]
  split
  · rename_i on
    exact Finset.insert_eq_self.2 (mem_enabledIds.2 ⟨c, found, enabled ▸ on⟩)
  · rename_i off
    refine Finset.erase_eq_self.2 fun mem => ?_
    obtain ⟨d, there, on⟩ := mem_enabledIds.1 mem
    rw [found] at there
    cases there
    exact off (enabled.trans on)

/-- A change of one client that keeps its place in the index. -/
theorem Consistent.change (h : r.Consistent) {c : TrackedClient} (c' : TrackedClient) (found : r.clients.lookup id = some c)
    (enabled : c'.enabled = c.enabled) (bcast : c'.opts.bcast = c.opts.bcast) :
    { r with clients := r.clients.insert id c' }.Consistent where
  count := by
    rw [enabledIds_change c' _ _ found enabled]
    exact h.count
  indexed key ids indexed x mem := by
    obtain ⟨d, there, on, plain⟩ := h.indexed key ids indexed x mem
    by_cases same : x = id
    · subst same
      rw [found] at there
      cases there
      exact ⟨c', AList.lookup_insert _, enabled.trans on, bcast.trans plain⟩
    · exact ⟨d, (AList.lookup_insert_ne same).trans there, on, plain⟩
  nonempty := h.nonempty

theorem Consistent.less (h : r.Consistent) {index : Bytes → Option (Finset Nat)}
    (less : ∀ key, index key = none ∨ index key = r.keyIndex key) : { r with keyIndex := index }.Consistent where
  count := h.count
  indexed key ids indexed := by
    have indexed : index key = some ids := indexed
    rcases less key with none | same
    · rw [none] at indexed
      cases indexed
    · exact h.indexed key ids (same ▸ indexed)
  nonempty key ids indexed := by
    have indexed : index key = some ids := indexed
    rcases less key with none | same
    · rw [none] at indexed
      cases indexed
    · exact h.nonempty key ids (same ▸ indexed)

/-- A client that is dropped from the index and is off, or gone. -/
theorem Consistent.drop (h : r.Consistent) {clients : AList fun _ : Nat => TrackedClient} {count : Nat}
    (others : ∀ x, x ≠ id → clients.lookup x = r.clients.lookup x)
    (counted : count = (TrackingRegistry.mk clients (forget r.keyIndex id) count).enabledIds.card) :
    (TrackingRegistry.mk clients (forget r.keyIndex id) count).Consistent where
  count := counted
  indexed key ids indexed x mem := by
    obtain ⟨old, found, rfl, -⟩ := forget_eq_some indexed
    obtain ⟨other, inside⟩ := Finset.mem_erase.1 mem
    obtain ⟨c, there, rest⟩ := h.indexed key old found x inside
    exact ⟨c, (others x other).trans there, rest⟩
  nonempty key ids indexed := by
    obtain ⟨old, -, -, nonempty⟩ := forget_eq_some indexed
    exact nonempty

/-! ## The operations keep it consistent -/

theorem Consistent.register (h : r.Consistent) (off : id ∉ r.enabledIds) : (r.register id).Consistent where
  count := by
    have same : (r.register id).enabledIds = r.enabledIds.erase id := enabledIds_insert _ _ _
    rw [same, Finset.erase_eq_of_notMem off]
    exact h.count
  indexed key ids indexed x mem := by
    obtain ⟨c, there, on, plain⟩ := h.indexed key ids indexed x mem
    have other : x ≠ id := by
      rintro rfl
      exact off (mem_enabledIds.2 ⟨c, there, on⟩)
    exact ⟨c, (AList.lookup_insert_ne other).trans there, on, plain⟩
  nonempty := h.nonempty

/-- A client that is not there does not track. -/
theorem notMem_enabledIds (none : r.clients.lookup id = none) : id ∉ r.enabledIds := by
  intro mem
  obtain ⟨c, there, -⟩ := mem_enabledIds.1 mem
  rw [none] at there
  cases there

theorem Consistent.count_erase (h : r.Consistent) {c : TrackedClient} (found : r.clients.lookup id = some c) :
    (if c.enabled then r.enabledCount - 1 else r.enabledCount) = (r.enabledIds.erase id).card := by
  split
  · rename_i on
    rw [Finset.card_erase_of_mem (mem_enabledIds.2 ⟨c, found, on⟩), h.count]
  · rename_i off
    have outside : id ∉ r.enabledIds := by
      intro mem
      obtain ⟨d, there, on⟩ := mem_enabledIds.1 mem
      rw [found] at there
      cases there
      exact off on
    rw [Finset.erase_eq_of_notMem outside]
    exact h.count

/-- A connection that goes takes its part of the counter along. -/
theorem Consistent.unregister (h : r.Consistent) : (r.unregister id).Consistent := by
  refine h.drop (fun x other => AList.lookup_erase_ne other) ?_
  rw [enabledIds_erase]
  cases found : r.clients.lookup id with
  | none =>
    rw [Finset.erase_eq_of_notMem (notMem_enabledIds found)]
    exact h.count
  | some c => exact h.count_erase found

theorem Consistent.disable (h : r.Consistent) : (r.disable id).Consistent := by
  unfold TrackingRegistry.disable
  split
  · exact h.drop (fun _ _ => rfl) h.count
  · rename_i c found
    refine h.drop (fun x other => AList.lookup_insert_ne other) ?_
    rw [enabledIds_insert]
    exact h.count_erase found

/-- A client that starts. In the broadcasting mode it must not be in the index. -/
theorem Consistent.enable (h : r.Consistent) {opts : TrackingOptions}
    (plain : opts.bcast = true → ∀ key ids, r.keyIndex key = some ids → id ∉ ids) : (r.enable id opts).Consistent := by
  unfold TrackingRegistry.enable
  split
  · exact h
  · rename_i c found
    refine ⟨?_, ?_, h.nonempty⟩
    · rw [enabledIds_insert, if_pos rfl]
      dsimp only
      split
      · rename_i on
        rw [Finset.insert_eq_self.2 (mem_enabledIds.2 ⟨c, found, on⟩)]
        exact h.count
      · rename_i off
        have outside : id ∉ r.enabledIds := by
          intro mem
          obtain ⟨d, there, on⟩ := mem_enabledIds.1 mem
          rw [found] at there
          cases there
          exact off on
        rw [Finset.card_insert_of_notMem outside, h.count]
    · intro key ids indexed x mem
      obtain ⟨d, there, on, quiet⟩ := h.indexed key ids indexed x mem
      by_cases same : x = id
      · subst same
        refine ⟨_, AList.lookup_insert _, rfl, ?_⟩
        cases bcast : opts.bcast with
        | false => rfl
        | true => exact absurd mem (plain bcast key ids indexed)
      · exact ⟨d, (AList.lookup_insert_ne same).trans there, on, quiet⟩

/-- An override is no part of the bookkeeping. -/
theorem Consistent.setCachingOverride (h : r.Consistent) (yes : Bool) : (r.setCachingOverride id yes).Consistent := by
  unfold TrackingRegistry.setCachingOverride
  split
  · exact h
  · rename_i c found
    exact h.change _ found rfl rfl

theorem Consistent.trackRead (h : r.Consistent) (keys : List Bytes) : (r.trackRead id keys).Consistent := by
  unfold TrackingRegistry.trackRead
  split
  · exact h
  split
  · exact h
  rename_i c found
  split
  · exact h
  · rename_i tracking
    have on : c.enabled = true ∧ c.opts.bcast = false := by simpa using tracking
    have changed := h.change { c with cachingOverride := none } found rfl rfl
    refine ⟨changed.count, ?_, ?_⟩
    · intro key ids indexed x mem
      have indexed : (if TrackingRegistry.shouldTrack c && keys.contains key then
        some (insert id ((r.keyIndex key).getD ∅)) else r.keyIndex key) = some ids := indexed
      split at indexed
      · cases indexed
        rcases Finset.mem_insert.1 mem with rfl | old
        · exact ⟨_, AList.lookup_insert _, on⟩
        · cases found : r.keyIndex key with
          | none =>
            rw [found] at old
            cases old
          | some ids =>
            rw [found] at old
            exact changed.indexed key ids found x old
      · exact changed.indexed key ids indexed x mem
    · intro key ids indexed
      have indexed : (if TrackingRegistry.shouldTrack c && keys.contains key then
        some (insert id ((r.keyIndex key).getD ∅)) else r.keyIndex key) = some ids := indexed
      split at indexed
      · cases indexed
        exact Finset.insert_ne_empty _ _
      · exact h.nonempty key ids indexed

theorem Consistent.onWrite (h : r.Consistent) (keys : List Bytes) (writer : Nat) : (r.onWrite keys writer).1.Consistent := by
  unfold TrackingRegistry.onWrite
  split
  · exact h
  · refine h.less fun key => ?_
    split
    · exact .inl rfl
    · exact .inr rfl

theorem Consistent.flushAll (h : r.Consistent) : r.flushAll.1.Consistent := h.less fun _ => .inl rfl

theorem Consistent.bookkeeping (h : r.Consistent) (d : Dispatched) : (r.bookkeeping d).1.Consistent := by
  unfold TrackingRegistry.bookkeeping
  split
  · split
    · exact h.flushAll
    split
    · exact h
    split
    · exact h.onWrite d.keys d.client
    · exact h.trackRead d.keys
  · exact h

/-! ## The override -/

/-- A client is changed, its override is not. -/
theorem override_insert {c : TrackedClient} (c' : TrackedClient) (index : Bytes → Option (Finset Nat)) (count : Nat)
    (found : r.clients.lookup id = some c) (same : c'.cachingOverride = c.cachingOverride) (x : Nat) :
    (TrackingRegistry.mk (r.clients.insert id c') index count).override x = r.override x := by
  unfold override
  dsimp only
  rw [lookup_insert_iff]
  split
  · rename_i here
    rw [here, found]
    exact same
  · rfl

theorem override_other {clients : AList fun _ : Nat => TrackedClient} (index : Bytes → Option (Finset Nat)) (count : Nat)
    {x : Nat} (same : clients.lookup x = r.clients.lookup x) :
    (TrackingRegistry.mk clients index count).override x = r.override x := by
  unfold override
  rw [same]

/-- A read that is tracked uses the override up. -/
theorem override_trackRead (h : r.Consistent) (keys : List Bytes) (x : Nat) :
    (r.trackRead id keys).override x =
      if x = id ∧ keys ≠ [] ∧ (r.clients.lookup id).any (fun c => c.enabled && !c.opts.bcast) = true then none
      else r.override x := by
  unfold trackRead
  by_cases none : keys = []
  · rw [if_pos (by simp [none]), if_neg (by simp [none])]
  cases found : r.clients.lookup id with
  | none => simp
  | some c =>
    by_cases idle : r.enabledCount = 0
    · -- Nobody tracks, so the client does not.
      have off : c.enabled = false := by
        cases on : c.enabled with
        | false => rfl
        | true =>
          have count := h.count
          rw [idle] at count
          have mem := mem_enabledIds.2 ⟨c, found, on⟩
          rw [Finset.card_eq_zero.1 count.symm] at mem
          cases mem
      rw [if_pos (by simp [idle]), if_neg (by simp [off])]
    rw [if_neg (by simp [none, idle])]
    dsimp only
    by_cases skipped : (!c.enabled || c.opts.bcast) = true
    · rw [if_pos skipped, if_neg]
      rintro ⟨-, -, tracking⟩
      have tracking : c.enabled = true ∧ c.opts.bcast = false := by simpa using tracking
      rw [tracking.1, tracking.2] at skipped
      cases skipped
    · rw [if_neg skipped]
      have tracking : (c.enabled && !c.opts.bcast) = true := by simpa using skipped
      unfold override
      dsimp only
      rw [lookup_insert_iff]
      by_cases same : x = id
      · simp [same, none, tracking]
      · simp [same]

theorem override_onWrite (keys : List Bytes) (writer x : Nat) : (r.onWrite keys writer).1.override x = r.override x := by
  unfold onWrite
  split <;> rfl

/-- **Only a read that is looked at uses an override up.** -/
theorem override_bookkeeping (h : r.Consistent) (d : Dispatched) (x : Nat) :
    (r.bookkeeping d).1.override x = if x = d.client ∧ d.tracked r = true then none else r.override x := by
  unfold bookkeeping Dispatched.tracked
  cases succeeded : d.succeeded with
  | false => simp
  | true =>
    cases flush : d.isFlush with
    | true => simp [flushAll, override]
    | false =>
      by_cases none : d.keys = []
      · simp [none]
      cases write : d.isWrite with
      | true => simp [none, override_onWrite]
      | false =>
        rw [if_pos rfl, if_neg Bool.false_ne_true, if_neg none, if_neg Bool.false_ne_true]
        dsimp only
        rw [override_trackRead h]
        simp [none]

/-- An event about other clients leaves the override. -/
theorem override_step (e : Event) (h : r.Consistent) (apart : e.concerns id = false) :
    (step e r).override id = r.override id := by
  cases e with
  | register id' => exact override_other _ _ (AList.lookup_insert_ne (by simpa [Event.concerns, eq_comm] using apart))
  | unregister id' => exact override_other _ _ (AList.lookup_erase_ne (by simpa [Event.concerns, eq_comm] using apart))
  | enable id' opts =>
    simp only [step, enable]
    split
    · rfl
    · rename_i c found
      exact override_insert { c with enabled := true, opts } _ _ found rfl id
  | disable id' =>
    simp only [step, disable]
    split
    · rfl
    · rename_i c found
      exact override_insert { c with enabled := false, opts := .off } _ _ found rfl id
  | setCachingOverride id' yes =>
    simp only [step, setCachingOverride]
    split
    · rfl
    · exact override_other _ _ (AList.lookup_insert_ne (by simpa [Event.concerns, eq_comm] using apart))
  | trackRead id' keys =>
    have other : id ≠ id' := by simpa [Event.concerns, eq_comm] using apart
    simp only [step]
    rw [override_trackRead h, if_neg (by simp [other])]
  | onWrite keys writer => exact override_onWrite keys writer id
  | flushAll => rfl
  | dispatched d =>
    have other : id ≠ d.client := by simpa [Event.concerns, eq_comm] using apart
    simp only [step]
    rw [override_bookkeeping h, if_neg (by simp [other])]

/-! ## Runs -/

theorem new_consistent : new.Consistent where
  count := by decide
  indexed _ _ indexed := by cases indexed
  nonempty _ _ indexed := by cases indexed

/-- An event that fits keeps the registry consistent. -/
theorem Consistent.step {e : Event} (h : r.Consistent) (fits : Fits e r) : (step e r).Consistent := by
  cases e with
  | register id => exact h.register fits
  | unregister id => exact h.unregister
  | enable id opts => exact h.enable fits
  | disable id => exact h.disable
  | setCachingOverride id yes => exact h.setCachingOverride yes
  | trackRead id keys => exact h.trackRead keys
  | onWrite keys writer => exact h.onWrite keys writer
  | flushAll => exact h.flushAll
  | dispatched d => exact h.bookkeeping d

theorem kept_iff_fits {e : Event} (h : r.Consistent) : Kept e r ↔ Fits e r := by
  constructor
  · intro kept
    cases e with
    | register id =>
      intro mem
      have count : r.enabledCount = (r.register id).enabledIds.card := kept.consistent.count
      have same : (r.register id).enabledIds = r.enabledIds.erase id := enabledIds_insert _ _ _
      rw [same, h.count] at count
      exact absurd count.symm (Nat.ne_of_lt (Finset.card_erase_lt_of_mem mem))
    | enable id opts =>
      intro bcast key ids indexed mem
      obtain ⟨c, found, -⟩ := h.indexed key ids indexed id mem
      have consistent : (r.enable id opts).Consistent := kept.consistent
      simp only [enable, found] at consistent
      obtain ⟨c', there, -, plain⟩ := consistent.indexed key ids indexed id mem
      rw [AList.lookup_insert] at there
      cases there
      rw [bcast] at plain
      cases plain
    | dispatched d =>
      intro pending
      have consumed : (r.bookkeeping d).1.override d.client = none := kept.consumed d rfl
      rw [override_bookkeeping h] at consumed
      by_contra untracked
      rw [if_neg (by simp [untracked])] at consumed
      exact pending consumed
    | _ => exact trivial
  · intro fits
    refine ⟨h.step fits, ?_, fun id apart => override_step e h apart⟩
    rintro d rfl
    simp only [TrackingRegistry.step]
    rw [override_bookkeeping h]
    split
    · rfl
    · rename_i untracked
      by_contra pending
      exact untracked ⟨rfl, fits pending⟩

end

end TrackingRegistry

open TrackingRegistry

/-- **The registry keeps its promises in a run if and only if** no registered client with tracking on is registered
again, none goes over to BCAST with keys in the index, and a pending override meets a read that is looked at. -/
theorem registry_kept_iff (events : List Event) :
    Always step Kept events .new ↔ Always step TrackingRegistry.Fits events .new :=
  Always.congr new_consistent (fun _ _ h => kept_iff_fits h) fun _ _ h fits => h.step fits

/-- CLIENT CACHING YES, a SET and then a GET: the override is still there for the GET. -/
theorem registry_override_survives : ¬ ∀ events : List Event, Always step Kept events .new := by
  intro kept
  have consumed := (kept [.register 1, .enable 1 { TrackingOptions.off with optin := true }, .setCachingOverride 1 true,
    .dispatched ⟨1, false, true, true, [[107]]⟩]).2.2.2.1.consumed _ rfl
  revert consumed
  decide

end NexradeCache
