import NexradeCache.Command.PendingEntries
import NexradeCache.Command.PendingReports

/-!
# Where pending ids come from

An id becomes pending when its entry is delivered or claimed, and the ids of entries are those XADD writes.
So in every state of every run the pending entries of a group are what `Keyed` says: kept by the text of
ids in wire form.
-/

namespace NexradeCache

open Trace

/-- An id as XADD writes it. -/
def InWireForm (id : String) : Prop := ∃ i : StreamId, id = i.toWire

namespace ConsumerGroup

variable {g g' : ConsumerGroup} {id : String}

/-- The property is one of the pending entries only. -/
theorem Keyed.congr (keyed : g.Keyed) (same : g'.pending = g.pending) : g'.Keyed :=
  ⟨same ▸ keyed.ordered, same ▸ keyed.wire⟩

theorem keyed_new (name : Bytes) (lastId : String) : (new name lastId).Keyed := ⟨.nil, nofun⟩

/-- An acknowledged id leaves the keys as distinct as they were. -/
theorem Keyed.removePending (keyed : g.Keyed) (id : String) : (g.removePending id).Keyed where
  ordered := keyed.ordered.sublist List.filter_sublist
  wire p mem := keyed.wire p (List.mem_of_mem_filter mem)

/-- A delivery writes its entry under an id in the form of the wire. -/
theorem Keyed.insertPending (keyed : g.Keyed) (wire : InWireForm id) (p : PendingEntry) :
    (g.insertPending id p).Keyed where
  ordered := by
    refine (keyed.removePending id).ordered.insertBy fun e mem => ?_
    simpa using (List.mem_filter.1 mem).2
  wire q mem := by
    rcases List.mem_cons.1 ((List.insertBy_perm Prod.fst (id, p) _).mem_iff.1 mem) with rfl | old
    · exact wire
    · exact (keyed.removePending id).wire q old

/-- A new consumer has nothing pending. -/
theorem pending_ensureConsumer (g : ConsumerGroup) (c : Bytes) : (g.ensureConsumer c).pending = g.pending := by
  unfold ensureConsumer
  split <;> rfl

/-- The list of a consumer is kept apart from the pending entries. -/
theorem pending_retainOthers (g : ConsumerGroup) (c : Bytes) (id : String) : (g.retainOthers c id).pending = g.pending := by
  unfold retainOthers
  split <;> rfl

/-- So it is when an id is added to it. -/
theorem pending_pushId (g : ConsumerGroup) (c : Bytes) (id : String) : (g.pushId c id).pending = g.pending := by
  unfold pushId
  split
  · split <;> rfl
  · rfl

/-- A claim of a deleted entry removes its id. -/
theorem Keyed.dropPending (keyed : g.Keyed) (id : String) (p : PendingEntry) : (g.dropPending id p).Keyed :=
  (keyed.removePending id).congr (pending_retainOthers _ _ _)

/-- A claim writes the entry anew, under the same id. -/
theorem Keyed.reassign (keyed : g.Keyed) (wire : InWireForm id) (prev : Option PendingEntry) (p : PendingEntry) :
    (g.reassign id prev p).Keyed := by
  unfold ConsumerGroup.reassign
  dsimp only
  refine Keyed.congr ?_ (pending_pushId _ _ _)
  cases prev with
  | none => exact keyed.insertPending wire p
  | some q => exact (keyed.congr (pending_retainOthers _ _ _)).insertPending wire p

theorem Keyed.acks (keyed : g.Keyed) (ids : List String) (acked : Nat) :
    (ids.foldl ConsumerGroup.ack (g, acked)).1.Keyed := by
  induction ids generalizing g acked with
  | nil => exact keyed
  | cons id ids ih =>
    rw [List.foldl_cons]
    unfold ConsumerGroup.ack
    dsimp only
    cases g.pendingFor id with
    | none => exact ih keyed acked
    | some p => exact ih (keyed.dropPending id p) (acked + 1)

/-- XGROUP DELCONSUMER removes the entries of one consumer. -/
theorem Keyed.removeConsumer (keyed : g.Keyed) (c : Bytes) : (g.removeConsumer c).Keyed := by
  have all (ids : List String) {g : ConsumerGroup} (keyed : g.Keyed) : (ids.foldl ConsumerGroup.removePending g).Keyed := by
    induction ids generalizing g with
    | nil => exact keyed
    | cons id ids ih => exact ih (keyed.removePending id)
  unfold ConsumerGroup.removeConsumer
  split
  · exact keyed
  · exact all _ (keyed.congr rfl)

section

variable {entries : List StreamEntry} (wired : ∀ e ∈ entries, InWireForm e.id)
include wired

/-- The id of a stored entry is in the form of the wire. -/
theorem inWireForm_of_stored (stored : ¬(!entries.any (·.id = id)) = true) : InWireForm id := by
  rw [Bool.not_eq_true', Bool.not_eq_false] at stored
  obtain ⟨e, mem, same⟩ := List.any_eq_true.1 stored
  rw [decide_eq_true_eq] at same
  exact same ▸ wired e mem

theorem Keyed.claims (keyed : g.Keyed) (now : Nat) (k : ClaimCall) (ids : List String) (claimed : List Resp) :
    (ids.foldl (ConsumerGroup.claim now k entries) (g, claimed)).1.Keyed := by
  have one {g : ConsumerGroup} (keyed : g.Keyed) (claimed : List Resp) (id : String) :
      (ConsumerGroup.claim now k entries (g, claimed) id).1.Keyed := by
    unfold ConsumerGroup.claim
    dsimp only
    split
    · exact keyed
    · split
      · exact keyed
      · split
        · cases g.pendingFor id with
          | none => exact keyed
          | some p => exact keyed.dropPending id p
        · rename_i stored
          split
          · exact keyed
          · exact keyed.reassign (inWireForm_of_stored wired stored) _ _
  induction ids generalizing g claimed with
  | nil => exact keyed
  | cons id ids ih => exact ih (one keyed claimed id) _

/-- A page of XAUTOCLAIM, by induction on the ids it visits. -/
theorem Keyed.autoclaim (now : Nat) (k : AutoclaimCall) (ids : List String) {acc : Autoclaimed} (keyed : acc.group.Keyed) :
    (ConsumerGroup.autoclaim now k entries ids acc).group.Keyed := by
  induction ids generalizing acc with
  | nil => exact keyed
  | cons id ids ih =>
    unfold ConsumerGroup.autoclaim
    split
    · exact keyed
    · cases acc.group.pendingFor id with
      | none => exact ih keyed
      | some p =>
        dsimp only
        split
        · exact ih (Keyed.removePending (keyed.congr (pending_retainOthers _ _ _)) id)
        · rename_i stored
          split
          · exact ih keyed
          · refine ih ?_
            dsimp only
            exact keyed.reassign (inWireForm_of_stored wired stored) _ _

theorem Keyed.read (keyed : g.Keyed) (now : Nat) (c : ReadGroupCall) (id : String) :
    (g.read now c id entries).1.Keyed := by
  have cut (items : List StreamEntry) : takeCount c.count items ⊆ items := by
    unfold takeCount
    split
    · exact List.take_subset _ _
    · exact List.Subset.refl _
  have ensured : (g.ensureConsumer c.consumer).Keyed := keyed.congr (pending_ensureConsumer _ _)
  have selected : (g.select c id entries).1.Keyed ∧ ∀ e ∈ (g.select c id entries).2, InWireForm e.id := by
    unfold ConsumerGroup.select
    dsimp only
    split
    · refine ⟨ensured.congr ?_, fun e mem => wired e (List.mem_of_mem_filter (cut _ mem))⟩
      unfold advanceTo
      split <;> rfl
    · exact ⟨ensured, fun e mem => wired e (List.mem_of_mem_filter (cut _ mem))⟩
  have delivered (items : List StreamEntry) (wire : ∀ e ∈ items, InWireForm e.id) {g : ConsumerGroup} (keyed : g.Keyed) :
      (items.foldl (ConsumerGroup.deliver now c.consumer) g).Keyed := by
    induction items generalizing g with
    | nil => exact keyed
    | cons e items ih =>
      refine ih (fun e mem => wire e (.tail _ mem)) ?_
      exact (keyed.insertPending (wire e (.head _)) _).congr (pending_pushId _ _ _)
  unfold ConsumerGroup.read
  dsimp only
  split
  · exact selected.1
  · exact delivered _ selected.2 selected.1

end

end ConsumerGroup

/-! ## The commands on a key -/

/-- The stream of a key has ids in wire form only, in its entries and in its groups. -/
structure Wired (s : StreamData) : Prop where
  entries : ∀ e ∈ s.entries, InWireForm e.id
  groups : ∀ name g, s.groups.lookup name = some g → g.Keyed

/-- What a key holds, when it is a stream, is wired. -/
def WiredCell (cell : Option DataType) : Prop := ∀ s, cell = some (.stream s) → Wired s

section

variable {cell : Option DataType} {s : StreamData}

/-- An empty stream has neither entries nor groups. -/
theorem wired_new : Wired .new := ⟨nofun, nofun⟩

/-- A stream that is written back under its key. -/
theorem Wired.inCell (wired : Wired s) : WiredCell (some (.stream s)) := fun t is => by
  cases is
  exact wired

/-- A group that is written back into its stream. -/
theorem Wired.insert (wired : Wired s) {g : ConsumerGroup} (keyed : g.Keyed) (name : Bytes) :
    Wired { s with groups := s.groups.insert name g } where
  entries := wired.entries
  groups name' g' found := by
    by_cases same : name' = name
    · subst same
      rw [AList.lookup_insert] at found
      cases found
      exact keyed
    · rw [AList.lookup_insert_ne same] at found
      exact wired.groups name' g' found

/-- Entries that go leave the ids of the others, and the groups. -/
theorem Wired.trimmed (wired : Wired s) {s' : StreamData} (trimmed : s.TrimmedTo s') : Wired s' := by
  obtain ⟨entries, sub, rfl⟩ := trimmed
  exact ⟨fun e mem => wired.entries e (sub.subset mem), wired.groups⟩

/-- XDEL and XTRIM, in whichever of their cases. -/
theorem WiredCell.trimmed {cell' : Option DataType} (wired : WiredCell cell) (cases : cell' = cell ∨ ∃ s s',
    cell = some (.stream s) ∧ s.TrimmedTo s' ∧ cell' = some (.stream s')) : WiredCell cell' := by
  rcases cases with rfl | ⟨s, s', rfl, trimmed, rfl⟩
  · exact wired
  · exact ((wired s rfl).trimmed trimmed).inCell

/-- XADD stores the id it has made or checked, as it prints it. -/
theorem WiredCell.xadd (wired : WiredCell cell) (toUppercase : String → String) (now : UInt64) (args : List Resp) :
    WiredCell (cmdXadd toUppercase now args cell).1 := by
  unfold cmdXadd
  cases parseXadd toUppercase args with
  | error e => exact wired
  | ok c =>
    dsimp only
    rcases c.run_cases now cell with ⟨same, -⟩ | ⟨s, id, stream, -, done, -⟩
    · rw [same]
      exact wired
    · rw [done]
      have first : Wired s := by
        unfold getStreamMut at stream
        split at stream
        · cases stream
          exact wired_new
        · cases stream
          exact wired _ rfl
        · cases stream
      have pushed : Wired (s.push ⟨id.toWire, c.fields⟩) := by
        refine ⟨fun e mem => ?_, first.groups⟩
        rcases List.mem_append.1 mem with old | new
        · exact first.entries e old
        · rw [List.mem_singleton.1 new]
          exact ⟨id, rfl⟩
      exact (pushed.trimmed (StreamData.trimmedTo_trim _ _ _)).inCell

/-- A command on one group keeps what its body keeps of this group. -/
theorem WiredCell.withGroup (wired : WiredCell cell) {group : Bytes} {missingKey missingGroup : Result Resp}
    {body : StreamData → ConsumerGroup → ConsumerGroup × Result Resp}
    (keep : ∀ s g, Wired s → g.Keyed → (body s g).1.Keyed) :
    WiredCell (withGroup group missingKey missingGroup cell body).1 := by
  rcases withGroup_cases group missingKey missingGroup cell body with same | ⟨s, g, rfl, found, done⟩
  · rw [same]
    exact wired
  · rw [done]
    have first := wired s rfl
    exact (first.insert (keep s g first (first.groups group g found)) group).inCell

/-- Arguments that are refused change nothing. -/
theorem WiredCell.onArgs {A : Type} {parsed : Result A} {body : A → Option DataType × Result Resp} (wired : WiredCell cell)
    (each : ∀ a, WiredCell (body a).1) : WiredCell (onArgs parsed cell body).1 := by
  rcases onArgs_cases parsed cell body with same | ⟨a, done⟩
  · rw [same]
    exact wired
  · rw [done]
    exact each a

/-- XGROUP, one case for each subcommand. -/
theorem WiredCell.xgroup (wired : WiredCell cell) (toUppercase : String → String) (args : List Resp) :
    WiredCell (cmdXgroup toUppercase args cell).1 := by
  refine wired.onArgs fun sub => ?_
  split
  · refine wired.onArgs fun ⟨_, group, lastId⟩ => ?_
    have create {s : StreamData} (first : Wired s) :
        WiredCell (if (s.groups.lookup group).isSome then
          (some (.stream s), .error (.generic "BUSYGROUP Consumer Group name already exists"))
        else (some (.stream { s with groups := s.groups.insert group (.new group (resolveGroupId s lastId)) }),
          (.ok (.simpleString "OK") : Result Resp))).1 := by
      split
      · exact first.inCell
      · exact (first.insert (ConsumerGroup.keyed_new _ _) group).inCell
    dsimp only
    split
    · split
      · exact create wired_new
      · exact wired
    · exact create (wired _ rfl)
    · exact wired
  · refine wired.onArgs fun ⟨_, group, lastId⟩ => ?_
    exact wired.withGroup fun s g _ keyed => keyed.congr rfl
  · refine wired.onArgs fun ⟨_, group⟩ => ?_
    dsimp only
    split
    · exact wired
    · rename_i s
      refine Wired.inCell ⟨(wired s rfl).entries, fun name g found => ?_⟩
      by_cases same : name = group
      · subst same
        rw [AList.lookup_erase] at found
        cases found
      · rw [AList.lookup_erase_ne same] at found
        exact (wired s rfl).groups name g found
    · exact wired
  · refine wired.onArgs fun ⟨_, group, consumer⟩ => ?_
    exact wired.withGroup fun s g _ keyed => keyed.congr (g.pending_ensureConsumer consumer)
  · refine wired.onArgs fun ⟨_, group, consumer⟩ => ?_
    exact wired.withGroup fun s g _ keyed => keyed.removeConsumer consumer
  · exact wired

theorem WiredCell.xack (wired : WiredCell cell) (args : List Resp) : WiredCell (cmdXack args cell).1 :=
  wired.onArgs fun ⟨_, _⟩ => wired.withGroup fun _ _ _ keyed => keyed.acks _ 0

/-- XCLAIM, which with FORCE makes an entry for an id of the stream. -/
theorem WiredCell.xclaim (wired : WiredCell cell) (toUppercase : String → String) (now : Nat) (args : List Resp) :
    WiredCell (cmdXclaim toUppercase now args cell).1 :=
  wired.onArgs fun c => wired.withGroup fun _ g stream keyed =>
    ConsumerGroup.Keyed.claims stream.entries (keyed.congr (g.pending_ensureConsumer c.consumer)) now c c.ids []

theorem WiredCell.xautoclaim (wired : WiredCell cell) (toUppercase : String → String) (now : Nat) (args : List Resp) :
    WiredCell (cmdXautoclaim toUppercase now args cell).1 :=
  wired.onArgs fun c => wired.withGroup fun _ g stream keyed =>
    ConsumerGroup.Keyed.autoclaim stream.entries now c _ (keyed.congr (g.pending_ensureConsumer c.consumer))

/-- The part of XREADGROUP that reads one stream. -/
theorem WiredCell.readStream (wired : WiredCell cell) (now : Nat) (c : ReadGroupCall) (id : String) :
    WiredCell (readStream now c id cell).1 := by
  unfold NexradeCache.readStream
  split
  · exact wired
  · rename_i s
    have first := wired s rfl
    cases found : s.groups.lookup c.group with
    | none => exact wired
    | some g => exact (first.insert (ConsumerGroup.Keyed.read first.entries (first.groups c.group g found) now c id) c.group).inCell
  · exact wired

end

/-! ## Runs -/

/-- One key is written, the others keep what they hold. -/
theorem wired_update {cells : Cells} (wired : ∀ key, WiredCell (cells key)) {key : Bytes} {cell : Option DataType}
    (here : WiredCell cell) (key' : Bytes) : WiredCell (Function.update cells key cell key') := by
  by_cases same : key' = key
  · subst same
    rw [Function.update_self]
    exact here
  · rw [Function.update_of_ne same]
    exact wired key'

/-- XREADGROUP, by induction on the keys it reads. -/
theorem wired_readOnce (now : Nat) (c : ReadGroupCall) (specs : List (Bytes × String)) {cells : Cells}
    (wired : ∀ key, WiredCell (cells key)) (key : Bytes) : WiredCell ((readOnce now c specs cells).1 key) := by
  induction specs generalizing cells with
  | nil => exact wired key
  | cons spec specs ih =>
    have first (key : Bytes) : WiredCell (Function.update cells spec.1 (readStream now c spec.2 (cells spec.1)).1 key) :=
      wired_update wired ((wired spec.1).readStream now c spec.2) key
    unfold readOnce
    dsimp only
    cases (readStream now c spec.2 (cells spec.1)).2 with
    | error e => exact first key
    | ok delivered => exact ih first

/-- A command that works on the key at one position. -/
theorem wired_onKey {cells : Cells} (wired : ∀ key, WiredCell (cells key)) (args : List Resp) (i : Nat)
    {op : Option DataType → Option DataType × Result Resp} (keep : ∀ {cell}, WiredCell cell → WiredCell (op cell).1)
    (key : Bytes) : WiredCell (onKey args i op cells key) := by
  unfold onKey
  cases getBytesVec args i with
  | none => exact wired key
  | some here => exact wired_update wired (keep (wired here)) key

/-- **One step of the run.** -/
theorem wired_step (toUppercase : String → String) (e : GroupEvent) {cells : Cells}
    (wired : ∀ key, WiredCell (cells key)) (key : Bytes) : WiredCell (e.step toUppercase cells key) := by
  cases e with
  | xadd now args => exact wired_onKey wired args 1 (fun h => h.xadd toUppercase now args) key
  | xdel args => exact wired_onKey wired args 1 (fun h => h.trimmed (cmdXdel_cases args _)) key
  | xtrim args => exact wired_onKey wired args 1 (fun h => h.trimmed (cmdXtrim_cases toUppercase args _)) key
  | xgroup args => exact wired_onKey wired args 2 (fun h => h.xgroup toUppercase args) key
  | xack args => exact wired_onKey wired args 1 (fun h => h.xack args) key
  | xclaim now args => exact wired_onKey wired args 1 (fun h => h.xclaim toUppercase now.toNat args) key
  | xautoclaim now args => exact wired_onKey wired args 1 (fun h => h.xautoclaim toUppercase now.toNat args) key
  | xreadgroup now args =>
    unfold GroupEvent.step
    dsimp only
    cases parseXreadgroup toUppercase args with
    | error e => exact wired key
    | ok c => exact wired_readOnce now.toNat c c.specs wired key

/-- **Every group of every state of a run is keyed by ids in wire form.** -/
theorem keyed_run (toUppercase : String → String) (events : List GroupEvent) {cells : Cells}
    (start : ∀ key, WiredCell (cells key)) {key name : Bytes} {s : StreamData} {g : ConsumerGroup}
    (reached : run (GroupEvent.step toUppercase) events cells key = some (.stream s))
    (found : s.groups.lookup name = some g) : g.Keyed := by
  have wired : ∀ key, WiredCell (run (GroupEvent.step toUppercase) events cells key) := by
    induction events generalizing cells with
    | nil => exact start
    | cons e events ih => exact ih (fun key => wired_step toUppercase e start key) reached
  exact (wired key s reached).groups name g found

end NexradeCache
