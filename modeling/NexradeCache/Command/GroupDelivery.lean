import NexradeCache.Command.PendingEntries
import NexradeCache.Lib.Paging

/-!
# A consumer group delivers each entry once

The cursor of a group is its last-delivered id. A `>` read takes a front part of the entries behind it and
moves it to the last of them. Since the entries are in the order of their ids, the part that is left out is
behind the new cursor, and what is added later is behind it too. `UpTo` is the invariant.
-/

namespace NexradeCache

open Trace

namespace ConsumerGroup

variable {g : ConsumerGroup} {c : ReadGroupCall} {entries : List StreamEntry}

@[simp] theorem lastDeliveredId_ensureConsumer (consumer : Bytes) :
    (g.ensureConsumer consumer).lastDeliveredId = g.lastDeliveredId := by
  unfold ensureConsumer
  split <;> rfl

theorem lastDeliveredId_deliver (now : Nat) (consumer : Bytes) (e : StreamEntry) :
    (deliver now consumer g e).lastDeliveredId = g.lastDeliveredId := by
  unfold deliver pushId
  dsimp only
  split
  · split <;> rfl
  · rfl

theorem lastDeliveredId_delivers (now : Nat) (consumer : Bytes) (delivered : List StreamEntry) :
    (delivered.foldl (deliver now consumer) g).lastDeliveredId = g.lastDeliveredId := by
  induction delivered generalizing g with
  | nil => rfl
  | cons e delivered ih => exact ih.trans (lastDeliveredId_deliver now consumer e)

/-- Noting the deliveries does not move the cursor. -/
theorem lastDeliveredId_read (now : Nat) (id : String) :
    (g.read now c id entries).1.lastDeliveredId = (g.select c id entries).1.lastDeliveredId := by
  unfold ConsumerGroup.read
  dsimp only
  split
  · rfl
  · exact lastDeliveredId_delivers _ _ _

theorem newEntries_ensureConsumer (consumer : Bytes) (count : Option Nat) :
    (g.ensureConsumer consumer).newEntries entries count = g.newEntries entries count := by
  have same : (g.ensureConsumer consumer).lastDelivered = g.lastDelivered := by
    rw [lastDelivered, lastDeliveredId_ensureConsumer, lastDelivered]
  rw [newEntries, same, newEntries]

/-- What a `>` read returns. -/
theorem read_new (now : Nat) : (g.read now c ">" entries).2 = g.newEntries entries c.count := by
  simp only [ConsumerGroup.read, select, if_pos, newEntries_ensureConsumer]

theorem lastDeliveredId_read_new (now : Nat) : (g.read now c ">" entries).1.lastDeliveredId =
    (((g.newEntries entries c.count).getLast?.map (·.id)).getD g.lastDeliveredId) := by
  rw [lastDeliveredId_read]
  simp only [select, if_pos, newEntries_ensureConsumer, advanceTo]
  cases (g.newEntries entries c.count).getLast? with
  | none => exact lastDeliveredId_ensureConsumer _
  | some e => rfl

theorem lastDeliveredId_read_history (now : Nat) {id : String} (history : id ≠ ">") :
    (g.read now c id entries).1.lastDeliveredId = g.lastDeliveredId := by
  rw [lastDeliveredId_read]
  simp only [select, if_neg history, lastDeliveredId_ensureConsumer]

end ConsumerGroup

/-! ## What a read takes -/

theorem takeCount_eq_take {A : Type} (count : Option Nat) (l : List A) : ∃ n, takeCount count l = l.take n := by
  cases count with
  | some n => exact ⟨n, rfl⟩
  | none => exact ⟨l.length, (List.take_length).symm⟩

section

variable {s : StreamData} {g : ConsumerGroup}

/-- The entries behind the cursor. -/
def StreamData.behind (s : StreamData) (cursor : StreamId) : List StreamEntry :=
  s.entries.filter fun e => cursor < e.number

theorem StreamData.Ascending.newEntries (asc : s.Ascending) (count : Option Nat) :
    g.newEntries s.entries count = takeCount count (s.behind g.lastDelivered) := by
  have same : s.entries.filter (fun e => (StreamId.parse e.id).any (g.lastDelivered < ·)) = s.behind g.lastDelivered :=
    List.filter_congr fun e mem => by rw [asc.readable e mem, Option.any_some]
  rw [ConsumerGroup.newEntries, same]

theorem StreamData.mem_behind {cursor : StreamId} {e : StreamEntry} : e ∈ s.behind cursor ↔ e ∈ s.entries ∧ cursor < e.number := by
  rw [behind, List.mem_filter, decide_eq_true_eq]

theorem StreamData.Ascending.behind (asc : s.Ascending) (cursor : StreamId) :
    (s.behind cursor).Pairwise fun a b => a.number < b.number :=
  asc.sorted.sublist List.filter_sublist

end

/-! ## Runs of one group -/

/-- The value of the key, and the ids the `>` reads of a group have taken so far. -/
structure GroupHistory where
  cell : Option DataType
  delivered : List StreamId

/-- XREADGROUP is here one key of one read; another key of the same call is an event of another stream. -/
inductive DeliveryEvent where
  | xadd (now : UInt64) (args : List Resp)
  | xdel (args : List Resp)
  | xtrim (args : List Resp)
  | xreadgroup (now : UInt64) (c : ReadGroupCall) (id : String)

/-- The ids of a `>` read of the group. -/
def takenIds (name : Bytes) (c : ReadGroupCall) (id : String) (read : Result (List StreamEntry)) : List StreamId :=
  if c.group = name ∧ id = ">" then
    match read with
    | .ok delivered => delivered.map StreamEntry.number
    | .error _ => []
  else []

section

variable (toUppercase : String → String) (name : Bytes)

def DeliveryEvent.step (e : DeliveryEvent) (h : GroupHistory) : GroupHistory :=
  match e with
  | .xadd now args => { h with cell := (cmdXadd toUppercase now args h.cell).1 }
  | .xdel args => { h with cell := (cmdXdel args h.cell).1 }
  | .xtrim args => { h with cell := (cmdXtrim toUppercase args h.cell).1 }
  | .xreadgroup now c id =>
    let (cell, read) := readStream now.toNat c id h.cell
    ⟨cell, h.delivered ++ takenIds name c id read⟩

/-- XADD keeps the ids strictly increasing. -/
def DeliveryEvent.Increasing (e : DeliveryEvent) (h : GroupHistory) : Prop :=
  match e with
  | .xadd now args => ∀ s id, h.cell = some (.stream s) →
      XaddCall.addedId (cmdXadd toUppercase now args h.cell).2 = some id → s.topId < id
  | _ => True

/-- The group has delivered the entries from `start` up to its cursor. -/
structure UpTo (start : StreamId) (h : GroupHistory) (s : StreamData) (g : ConsumerGroup) : Prop where
  stream : h.cell = some (.stream s)
  group : s.groups.lookup name = some g
  ascending : s.Ascending
  cursor : start ≤ g.lastDelivered
  inside : g.lastDelivered ≤ start ∨ g.lastDelivered ≤ s.topId
  sorted : h.delivered.Pairwise (· < ·)
  range : ∀ id ∈ h.delivered, id ≤ g.lastDelivered
  all : ∀ e ∈ s.entries, start < e.number → e.number ≤ g.lastDelivered → e.number ∈ h.delivered

end

namespace UpTo

variable {name : Bytes} {start : StreamId} {h : GroupHistory} {s : StreamData} {g : ConsumerGroup}

theorem trimmed (upTo : UpTo name start h s g) {s' : StreamData} (only : s.TrimmedTo s') :
    UpTo name start { h with cell := some (.stream s') } s' g := by
  obtain ⟨asc, top⟩ := only.ascending upTo.ascending
  obtain ⟨entries, sub, rfl⟩ := only
  refine ⟨rfl, upTo.group, asc, upTo.cursor, ?_, upTo.sorted, upTo.range, fun e mem => upTo.all e (sub.subset mem)⟩
  rw [top]
  exact upTo.inside

theorem push (upTo : UpTo name start h s g) {id : StreamId} (above : s.topId < id) (fields : List (Bytes × Bytes)) :
    UpTo name start { h with cell := some (.stream (s.push ⟨id.toWire, fields⟩)) } (s.push ⟨id.toWire, fields⟩) g := by
  have asc := upTo.ascending
  refine ⟨rfl, upTo.group, asc.push (fun e mem => (asc.below e mem).trans_lt above) _, upTo.cursor, ?_, upTo.sorted,
    upTo.range, fun e mem new old => ?_⟩
  · rw [StreamData.topId_push]
    exact upTo.inside.imp (fun le => le) fun le => le.trans above.le
  · rcases List.mem_append.1 mem with mem | mem
    · exact upTo.all e mem new old
    · have number : e.number = id := by rw [List.mem_singleton.1 mem]; simp [StreamEntry.number]
      rw [number] at new old
      rcases upTo.inside with before | before
      · exact absurd (old.trans before) (not_le.2 new)
      · exact absurd (old.trans before) (not_le.2 above)

/-- The group is stored with the same cursor, or another group is stored. -/
theorem insert (upTo : UpTo name start h s g) {name' : Bytes} {g' : ConsumerGroup}
    (same : name' = name → g'.lastDeliveredId = g.lastDeliveredId) :
    ∃ g'', UpTo name start { h with cell := some (.stream { s with groups := s.groups.insert name' g' }) }
      { s with groups := s.groups.insert name' g' } g'' := by
  have asc : ({ s with groups := s.groups.insert name' g' } : StreamData).Ascending := by
    obtain ⟨readable, topReadable, stored, sorted, below⟩ := upTo.ascending
    exact ⟨readable, topReadable, stored, sorted, below⟩
  by_cases here : name = name'
  · have cursor : g'.lastDelivered = g.lastDelivered := by
      rw [ConsumerGroup.lastDelivered, ConsumerGroup.lastDelivered, same here.symm]
    refine ⟨g', rfl, ?_, asc, ?_, ?_, upTo.sorted, ?_, ?_⟩
    · rw [here]
      exact AList.lookup_insert _
    · rw [cursor]
      exact upTo.cursor
    · rw [cursor]
      exact upTo.inside
    · rw [cursor]
      exact upTo.range
    · rw [cursor]
      exact upTo.all
  · exact ⟨g, rfl, (AList.lookup_insert_ne here).trans upTo.group, asc, upTo.cursor, upTo.inside, upTo.sorted, upTo.range,
      upTo.all⟩

/-- **A `>` read of the group.** -/
theorem readNew (upTo : UpTo name start h s g) (now : Nat) (c : ReadGroupCall) :
    let read := g.read now c ">" s.entries
    UpTo name start ⟨some (.stream { s with groups := s.groups.insert name read.1 }), h.delivered ++ read.2.map StreamEntry.number⟩
      { s with groups := s.groups.insert name read.1 } read.1 := by
  intro read
  have asc := upTo.ascending
  obtain ⟨n, batch⟩ := takeCount_eq_take c.count (s.behind g.lastDelivered)
  have taken : read.2 = (s.behind g.lastDelivered).take n := by
    rw [← batch, ← asc.newEntries]
    exact ConsumerGroup.read_new now
  have sorted := asc.behind g.lastDelivered
  have sortedTaken : read.2.Pairwise fun a b => a.number < b.number := by
    rw [taken]
    exact sorted.sublist (List.take_sublist _ _)
  have fresh (e : StreamEntry) (mem : e ∈ read.2) : e ∈ s.entries ∧ g.lastDelivered < e.number := by
    rw [taken] at mem
    exact StreamData.mem_behind.1 (List.mem_of_mem_take mem)
  have moved : read.1.lastDeliveredId = ((read.2.getLast?.map (·.id)).getD g.lastDeliveredId) := by
    have second : read.2 = g.newEntries s.entries c.count := ConsumerGroup.read_new now
    rw [second]
    exact ConsumerGroup.lastDeliveredId_read_new now
  have asc' : ({ s with groups := s.groups.insert name read.1 } : StreamData).Ascending := by
    obtain ⟨readable, topReadable, stored, sorted, below⟩ := asc
    exact ⟨readable, topReadable, stored, sorted, below⟩
  cases last : read.2.getLast? with
  | none =>
    have nothing : read.2 = [] := List.getLast?_eq_none_iff.1 last
    have cursor : read.1.lastDelivered = g.lastDelivered := by
      rw [ConsumerGroup.lastDelivered, moved, last]
      rfl
    rw [nothing, List.map_nil, List.append_nil]
    exact ⟨rfl, AList.lookup_insert _, asc', cursor ▸ upTo.cursor, by rw [cursor]; exact upTo.inside, upTo.sorted,
      by rw [cursor]; exact upTo.range, by rw [cursor]; exact upTo.all⟩
  | some l =>
    have memLast := List.mem_of_getLast? last
    obtain ⟨memLast, beyond⟩ := fresh l memLast
    have cursor : read.1.lastDelivered = l.number := by
      rw [ConsumerGroup.lastDelivered, moved, last]
      rfl
    refine ⟨rfl, AList.lookup_insert _, asc', ?_, ?_, ?_, fun id mem => ?_, fun e mem new old => ?_⟩
    · rw [cursor]
      exact upTo.cursor.trans beyond.le
    · rw [cursor]
      exact .inr (asc.below l memLast)
    · refine List.pairwise_append.2 ⟨upTo.sorted, List.pairwise_map.2 sortedTaken, fun a old b new => ?_⟩
      obtain ⟨e, mem, rfl⟩ := List.mem_map.1 new
      exact (upTo.range a old).trans_lt (fresh e mem).2
    · rw [cursor]
      rcases List.mem_append.1 mem with mem | mem
      · exact (upTo.range id mem).trans beyond.le
      · obtain ⟨e, inTaken, rfl⟩ := List.mem_map.1 mem
        exact Paging.le_of_getLast? sortedTaken inTaken last
    · rw [cursor] at old
      refine List.mem_append.2 ?_
      by_cases before : e.number ≤ g.lastDelivered
      · exact .inl (upTo.all e mem new before)
      · refine .inr (List.mem_map_of_mem ?_)
        rw [taken] at last ⊢
        exact Paging.mem_take_of_le sorted (StreamData.mem_behind.2 ⟨mem, not_le.1 before⟩) last old

/-- **One step of the run.** -/
theorem step (upTo : UpTo name start h s g) {toUppercase : String → String} {e : DeliveryEvent}
    (increasing : e.Increasing toUppercase h) : ∃ s' g', UpTo name start (e.step toUppercase name h) s' g' := by
  have trim {cell : Option DataType} (cases : cell = h.cell ∨ ∃ s s', h.cell = some (.stream s) ∧ s.TrimmedTo s' ∧
      cell = some (.stream s')) : ∃ s' g', UpTo name start { h with cell } s' g' := by
    rcases cases with rfl | ⟨t, s', is, only, rfl⟩
    · exact ⟨s, g, upTo⟩
    · cases upTo.stream.symm.trans is
      exact ⟨s', g, upTo.trimmed only⟩
  cases e with
  | xadd now args =>
    have ran : (DeliveryEvent.xadd now args).step toUppercase name h = { h with cell := (cmdXadd toUppercase now args h.cell).1 } :=
      rfl
    rw [ran]
    rw [DeliveryEvent.Increasing] at increasing
    unfold cmdXadd at increasing ⊢
    cases parsed : parseXadd toUppercase args with
    | error e => exact ⟨s, g, upTo⟩
    | ok c =>
      rw [parsed] at increasing
      dsimp only at increasing ⊢
      rcases c.run_cases now h.cell with ⟨same, -⟩ | ⟨t, id, stream, -, done, added⟩
      · rw [same]
        exact ⟨s, g, upTo⟩
      · rw [upTo.stream] at stream
        cases stream
        have above := increasing s id upTo.stream added
        rw [done]
        exact ⟨_, g, (upTo.push above c.fields).trimmed (StreamData.trimmedTo_trim _ c.maxlen c.minid)⟩
  | xdel args => exact trim (cmdXdel_cases args h.cell)
  | xtrim args => exact trim (cmdXtrim_cases toUppercase args h.cell)
  | xreadgroup now c id =>
    have ran : (DeliveryEvent.xreadgroup now c id).step toUppercase name h =
        ⟨(readStream now.toNat c id h.cell).1, h.delivered ++ takenIds name c id (readStream now.toNat c id h.cell).2⟩ := rfl
    rw [ran, upTo.stream, readStream]
    cases found : s.groups.lookup c.group with
    | none =>
      have none : takenIds name c id (.error (.prefixed "NOGROUP No such consumer group")) = [] := by
        unfold takenIds
        split <;> rfl
      dsimp only
      rw [none, List.append_nil]
      exact ⟨s, g, upTo.stream ▸ upTo⟩
    | some g' =>
      dsimp only
      by_cases mine : c.group = name ∧ id = ">"
      · obtain ⟨rfl, rfl⟩ := mine
        cases upTo.group.symm.trans found
        rw [takenIds, if_pos ⟨rfl, rfl⟩]
        exact ⟨_, _, upTo.readNew now.toNat c⟩
      · rw [takenIds, if_neg mine, List.append_nil]
        have kept : c.group = name → (g'.read now.toNat c id s.entries).1.lastDeliveredId = g.lastDeliveredId := by
          intro same
          subst same
          cases upTo.group.symm.trans found
          exact ConsumerGroup.lastDeliveredId_read_history _ fun new => mine ⟨rfl, new⟩
        obtain ⟨g'', upTo⟩ := upTo.insert kept
        exact ⟨_, g'', upTo⟩

end UpTo

/-- **Each entry once.** In every state reached no id was taken by two `>` reads of the group, and every entry of
the stream above the id the group started with was taken by one, or will be by the next without COUNT. A read moves
the last-delivered id to the last entry it has taken, which is the largest so far since the entries are in order. -/
theorem groupDelivery_once (toUppercase : String → String) (name : Bytes) (events : List DeliveryEvent) {s₀ : StreamData}
    {g₀ : ConsumerGroup} (ascending : s₀.Ascending) (found : s₀.groups.lookup name = some g₀)
    (increasing : Always (DeliveryEvent.step toUppercase name) (DeliveryEvent.Increasing toUppercase) events
      ⟨some (.stream s₀), []⟩) :
    let h := run (DeliveryEvent.step toUppercase name) events ⟨some (.stream s₀), []⟩
    ∃ s g, h.cell = some (.stream s) ∧ s.groups.lookup name = some g ∧ h.delivered.Nodup ∧
      ∀ e ∈ s.entries, g₀.lastDelivered < e.number →
        e.number ≤ g.lastDelivered ∧ e.number ∈ h.delivered ∨
          g.lastDelivered < e.number ∧ ∀ (now : Nat) (c : ReadGroupCall), c.group = name → c.count = none →
            ∃ delivered, (readStream now c ">" h.cell).2 = .ok delivered ∧ e ∈ delivered := by
  intro h
  have start : UpTo name g₀.lastDelivered ⟨some (.stream s₀), []⟩ s₀ g₀ :=
    ⟨rfl, found, ascending, le_rfl, .inl le_rfl, .nil, nofun, fun e _ new old => absurd old (not_le.2 new)⟩
  obtain ⟨s, g, upTo⟩ := (@Always.of_invariant _ _ _ _ (fun _ _ => True)
    (fun h => ∃ s g, UpTo name g₀.lastDelivered h s g) _ _ increasing ⟨s₀, g₀, start⟩
    (fun e h ⟨s, g, upTo⟩ increasing => upTo.step increasing) fun _ _ _ _ => trivial).2
  refine ⟨s, g, upTo.stream, upTo.group, upTo.sorted.imp fun less same => absurd same less.ne, fun e mem new => ?_⟩
  by_cases old : e.number ≤ g.lastDelivered
  · exact .inl ⟨old, upTo.all e mem new old⟩
  · refine .inr ⟨not_le.1 old, fun now c mine unlimited => ⟨g.newEntries s.entries c.count, ?_, ?_⟩⟩
    · rw [upTo.stream, readStream, mine, upTo.group]
      exact congrArg Except.ok (ConsumerGroup.read_new now)
    · rw [upTo.ascending.newEntries, unlimited]
      exact StreamData.mem_behind.2 ⟨mem, not_le.1 old⟩

/-! ## Three entries, one of them deleted between two reads -/

def twoEntries : StreamData :=
  ⟨[⟨"1-0", [([102], [118])]⟩, ⟨"2-0", [([102], [118])]⟩], AList.insert [103] (.new [103] "0-0") ∅, "2-0", 2⟩

theorem ascending_twoEntries : twoEntries.Ascending where
  readable := by decide +kernel
  topReadable := by decide +kernel
  stored := nofun
  sorted := by decide +kernel
  below := by decide +kernel

def readCount (consumer : Bytes) (count : Option Nat) : DeliveryEvent :=
  .xreadgroup 5 ⟨[103], consumer, count, false, none, [([115], ">")]⟩ ">"

def countedReads : List DeliveryEvent :=
  [.xadd 5 (xaddArgs "3-0"), readCount [97] (some 1), .xdel (groupWords ["XDEL", "s", "2-0"]), readCount [98] none]

/-- Two reads of group 103, with an XADD and an XDEL around the first, deliver what is left once. -/
theorem groupDelivery_once_countedReads :
    let h := run (DeliveryEvent.step upperAscii [103]) countedReads ⟨some (.stream twoEntries), []⟩
    h.delivered = [⟨1, 0⟩, ⟨3, 0⟩] ∧
      ∃ s g, h.cell = some (.stream s) ∧ s.groups.lookup [103] = some g ∧ h.delivered.Nodup ∧
        ∀ e ∈ s.entries, StreamId.MIN < e.number → e.number ≤ g.lastDelivered ∧ e.number ∈ h.delivered ∨
          g.lastDelivered < e.number ∧ ∀ (now : Nat) (c : ReadGroupCall), c.group = [103] → c.count = none →
            ∃ delivered, (readStream now c ">" h.cell).2 = .ok delivered ∧ e ∈ delivered := by
  intro h
  have third : XaddCall.addedId (cmdXadd upperAscii 5 (xaddArgs "3-0") (some (.stream twoEntries))).2 = some ⟨3, 0⟩ := by
    decide +kernel
  have fromStart : (ConsumerGroup.new [103] "0-0").lastDelivered = StreamId.MIN := by decide +kernel
  have increasing : Always (DeliveryEvent.step upperAscii [103]) (DeliveryEvent.Increasing upperAscii) countedReads
      ⟨some (.stream twoEntries), []⟩ := by
    refine ⟨fun s id is added => ?_, trivial, trivial, trivial, trivial⟩
    cases third.symm.trans added
    cases is
    decide +kernel
  have claim := groupDelivery_once upperAscii [103] countedReads ascending_twoEntries (AList.lookup_insert _) increasing
  rw [fromStart] at claim
  exact ⟨by decide +kernel, claim⟩

end NexradeCache
