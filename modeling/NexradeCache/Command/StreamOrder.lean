import NexradeCache.Command.Streams
import NexradeCache.Lib.Trace

/-!
# The ids of a stream grow

`StreamData.Ascending` is what XRANGE, MINID and the consumer groups take for granted: the entries are in
the order of their ids and none is above the last-generated id. XSETID, XTRIM and XDEL keep it; an entry
that is appended keeps it if its id is above the last-generated one. XADD makes sure of this for the ids
it checks. `*` is not checked: it takes the clock as it is.
-/

namespace NexradeCache

open Trace

def StreamEntry.number (e : StreamEntry) : StreamId := (StreamId.parse e.id).getD .MIN

namespace StreamData

/-- The last-generated id as a number. -/
def topId (s : StreamData) : StreamId := (StreamId.parse s.lastGeneratedId).getD .MIN

/-- **Well-formed streams.** All ids are read back as numbers, grow from entry to entry, and are not above the last
one that was given. -/
structure Ascending (s : StreamData) : Prop where
  readable : ∀ e ∈ s.entries, StreamId.parse e.id = some e.number
  topReadable : StreamId.parse s.lastGeneratedId = some s.topId
  stored : s.lastId = "" → s.entries = []
  sorted : s.entries.Pairwise fun a b => a.number < b.number
  below : ∀ e ∈ s.entries, e.number ≤ s.topId

theorem ascending_new : new.Ascending where
  readable := nofun
  topReadable := by decide
  stored _ := rfl
  sorted := .nil
  below := nofun

variable {s : StreamData}

/-- What XADD and XSETID compare with is the last-generated id. -/
theorem Ascending.lastParsedId (asc : s.Ascending) : lastParsedId s = some s.topId := by
  unfold NexradeCache.lastParsedId
  rw [asc.topReadable]
  cases largest : (s.entries.filterMap fun e => StreamId.parse e.id).max? with
  | none => rfl
  | some b =>
    obtain ⟨e, mem, parsed⟩ := List.mem_filterMap.1 (List.max?_mem largest)
    have number : e.number = b := Option.some.inj ((asc.readable e mem).symm.trans parsed)
    exact congrArg some (max_eq_left (number ▸ asc.below e mem))

@[simp] theorem lastGeneratedId_push (e : StreamEntry) (named : e.id ≠ "") : (s.push e).lastGeneratedId = e.id := by
  rw [lastGeneratedId, push, if_pos named]

theorem topId_push (id : StreamId) (fields : List (Bytes × Bytes)) : (s.push ⟨id.toWire, fields⟩).topId = id := by
  rw [topId, lastGeneratedId_push _ id.toWire_ne_empty, StreamId.parse_toWire, Option.getD_some]

/-- An id above those of all entries may be appended. -/
theorem Ascending.push (asc : s.Ascending) {id : StreamId} (older : ∀ e ∈ s.entries, e.number < id)
    (fields : List (Bytes × Bytes)) : (s.push ⟨id.toWire, fields⟩).Ascending := by
  have number : (StreamEntry.mk id.toWire fields).number = id := by simp [StreamEntry.number]
  constructor
  · intro e mem
    rcases List.mem_append.1 mem with mem | mem
    · exact asc.readable e mem
    · rw [List.mem_singleton.1 mem, number]
      exact id.parse_toWire
  · rw [topId_push, lastGeneratedId_push _ id.toWire_ne_empty, StreamId.parse_toWire]
  · exact fun empty => absurd empty id.toWire_ne_empty
  · refine List.pairwise_append.2 ⟨asc.sorted, List.pairwise_singleton _ _, fun a mem b last => ?_⟩
    rw [List.mem_singleton.1 last, number]
    exact older a mem
  · intro e mem
    rw [topId_push]
    rcases List.mem_append.1 mem with mem | mem
    · exact (older e mem).le
    · rw [List.mem_singleton.1 mem, number]

theorem lastGeneratedId_entries (asc : s.Ascending) {entries : List StreamEntry} (sub : entries.Sublist s.entries) :
    ({ s with entries } : StreamData).lastGeneratedId = s.lastGeneratedId := by
  unfold lastGeneratedId
  by_cases stored : s.lastId = ""
  · have none : s.entries = [] := asc.stored stored
    rw [none] at sub
    rw [List.sublist_nil.1 sub, none]
  · rw [if_pos stored, if_pos stored]

theorem Ascending.entries (asc : s.Ascending) {entries : List StreamEntry} (sub : entries.Sublist s.entries) :
    ({ s with entries } : StreamData).Ascending ∧ ({ s with entries } : StreamData).topId = s.topId := by
  have same := lastGeneratedId_entries asc sub
  have top : ({ s with entries } : StreamData).topId = s.topId := by rw [topId, topId, same]
  refine ⟨⟨fun e mem => asc.readable e (sub.subset mem), ?_, fun stored => ?_, asc.sorted.sublist sub, fun e mem => ?_⟩, top⟩
  · rw [same, top]
    exact asc.topReadable
  · have none : s.entries = [] := asc.stored stored
    rw [none] at sub
    exact List.sublist_nil.1 sub
  · rw [top]
    exact asc.below e (sub.subset mem)

/-- Only entries of the stream have gone. -/
def TrimmedTo (s s' : StreamData) : Prop := ∃ entries, entries.Sublist s.entries ∧ s' = { s with entries }

theorem TrimmedTo.refl (s : StreamData) : s.TrimmedTo s := ⟨s.entries, .refl _, rfl⟩

theorem TrimmedTo.trans {s s' s'' : StreamData} (h : s.TrimmedTo s') (h' : s'.TrimmedTo s'') : s.TrimmedTo s'' := by
  obtain ⟨entries, sub, rfl⟩ := h
  obtain ⟨entries', sub', rfl⟩ := h'
  exact ⟨entries', sub'.trans sub, rfl⟩

theorem TrimmedTo.ascending {s' : StreamData} (h : s.TrimmedTo s') (asc : s.Ascending) :
    s'.Ascending ∧ s'.topId = s.topId := by
  obtain ⟨entries, sub, rfl⟩ := h
  exact asc.entries sub

theorem trimmedTo_trim (s : StreamData) (maxlen : Option Nat) (minid : Option StreamId) :
    s.TrimmedTo (s.trim maxlen minid) := by
  have first (max : Nat) : s.TrimmedTo (s.trimMaxlen max) := ⟨_, List.drop_sublist _ _, rfl⟩
  have second (s : StreamData) (min : StreamId) : s.TrimmedTo (s.trimMinid min) := ⟨_, List.dropWhile_sublist _, rfl⟩
  cases maxlen with
  | none =>
    cases minid with
    | none => exact .refl s
    | some min => exact second s min
  | some max =>
    cases minid with
    | none => exact first max
    | some min => exact (first max).trans (second _ min)

theorem trimmedTo_deleteIds (s : StreamData) (ids : List String) : s.TrimmedTo (s.deleteIds ids) := by
  induction ids generalizing s with
  | nil => exact .refl s
  | cons id ids ih => exact .trans ⟨_, List.filter_sublist, rfl⟩ (ih (s.deleteId id))

/-- An id may be set that is not below the last-generated one. -/
theorem Ascending.setId (asc : s.Ascending) {newId : StreamId} (notBelow : s.topId ≤ newId) (added : Option Nat) :
    (s.setId newId added).Ascending ∧ (s.setId newId added).topId = newId := by
  have same : (s.setId newId added).lastGeneratedId = newId.toWire := by
    rw [lastGeneratedId, StreamData.setId, if_pos newId.toWire_ne_empty]
  have top : (s.setId newId added).topId = newId := by
    rw [topId, same, StreamId.parse_toWire, Option.getD_some]
  refine ⟨⟨asc.readable, ?_, fun empty => absurd empty newId.toWire_ne_empty, asc.sorted, fun e mem => ?_⟩, top⟩
  · rw [same, top, StreamId.parse_toWire]
  · rw [top]
    exact (asc.below e mem).trans notBelow

end StreamData

/-! ## The id of a call of XADD -/

namespace XaddCall

/-- The millisecond a call asks for, and the sequence number unless it is to be computed. -/
def asked (c : XaddCall) (now : UInt64) (last : Option StreamId) : Option (UInt64 × Option UInt64) :=
  if c.idStr = "*" then some (now, none)
  else match splitOnce '-' c.idStr with
    | some (msPart, seqPart) => do
      let ms ← (if msPart = "*" then some (autoMs now last) else parseU64 msPart)
      if seqPart = "*" then some (ms, none) else (parseU64 seqPart).map fun seq => (ms, some seq)
    | none => (parseU64 c.idStr).map fun ms => (ms, some 0)

theorem parseU64_of_u64OfStr {s : String} {n : UInt64} (h : u64OfStr s = .ok n) : parseU64 s = some n := by
  unfold u64OfStr at h
  split at h
  · cases h
    assumption
  · cases h

theorem asked_of_specifiedId {c : XaddCall} {now : UInt64} {last : Option StreamId} {id : StreamId}
    (explicit : c.idStr ≠ "*") (specified : specifiedId now c.idStr last = .ok id) :
    ∃ ms seq, c.asked now last = some (ms, seq) ∧ id = ⟨ms, seq.getD (nextSeq last ms)⟩ := by
  rw [asked, if_neg explicit]
  unfold specifiedId at specified
  rcases parts : splitOnce '-' c.idStr with _ | ⟨msPart, seqPart⟩
  · rw [parts] at specified
    obtain ⟨ms, readMs, specified⟩ := exists_of_bind_ok specified
    cases specified
    exact ⟨ms, some 0, congrArg (Option.map _) (parseU64_of_u64OfStr readMs), rfl⟩
  · rw [parts] at specified
    obtain ⟨ms, readMs, specified⟩ := exists_of_bind_ok specified
    obtain ⟨seq, readSeq, specified⟩ := exists_of_bind_ok specified
    cases specified
    have ms' : (if msPart = "*" then some (autoMs now last) else parseU64 msPart) = some ms := by
      split at readMs
      · cases readMs
        exact if_pos ‹_›
      · rw [if_neg ‹_›, parseU64_of_u64OfStr readMs]
    simp only [ms', Option.bind_eq_bind, Option.bind_some]
    split at readSeq
    · cases readSeq
      exact ⟨ms, none, if_pos ‹_›, rfl⟩
    · refine ⟨ms, some seq, ?_, rfl⟩
      rw [if_neg ‹_›, parseU64_of_u64OfStr readSeq, Option.map_some]

/-- The clock is not behind the last id where `*` asks for the time, and the last id leaves room for one
more where a sequence number is to be computed in its millisecond. -/
structure Fits (c : XaddCall) (now : UInt64) (l : StreamId) : Prop where
  clock : c.idStr = "*" → l.ms ≤ now
  room : c.asked now (some l) = some (l.ms, none) → l.seq.toNat < 2 ^ 64 - 1

/-- The next sequence number is the next number. -/
theorem Fits.nextSeq {c : XaddCall} {now : UInt64} {l : StreamId} (fits : c.Fits now l)
    (asked : c.asked now (some l) = some (l.ms, none)) : (nextSeq (some l) l.ms).toNat = l.seq.toNat + 1 := by
  have room := fits.room asked
  have one : (1 : UInt64).toNat = 1 := rfl
  rw [NexradeCache.nextSeq, if_pos rfl, UInt64.toNat_add, one]
  omega

/-- An explicit id is compared with the last one. -/
theorem lt_of_resolveXaddId {now : UInt64} {spec : String} {l id : StreamId}
    (resolved : resolveXaddId now spec (some l) = .ok id) : l < id := by
  unfold resolveXaddId at resolved
  obtain ⟨id', -, checked⟩ := exists_of_bind_ok resolved
  dsimp only at checked
  split at checked
  · cases checked
  · cases checked
    exact not_le.1 ‹_›

theorem asked_of_resolve {c : XaddCall} {now : UInt64} {last : Option StreamId} {id : StreamId}
    (resolved : c.resolve now last = .ok id) :
    ∃ ms seq, c.asked now last = some (ms, seq) ∧ id = ⟨ms, seq.getD (nextSeq last ms)⟩ := by
  unfold resolve at resolved
  split at resolved
  · rename_i auto
    cases resolved
    exact ⟨now, none, if_pos auto, rfl⟩
  · obtain ⟨id', specified, checked⟩ := exists_of_bind_ok resolved
    have same : id' = id := by
      split at checked <;> split at checked <;> cases checked <;> rfl
    rw [← same]
    exact asked_of_specifiedId ‹_› specified

/-- **The id of a call that fits is above the last one.** -/
theorem Fits.lt {c : XaddCall} {now : UInt64} {l id : StreamId} (fits : c.Fits now l)
    (resolved : c.resolve now (some l) = .ok id) : l < id := by
  unfold resolve at resolved
  split at resolved
  · rename_i auto
    cases resolved
    refine StreamId.lt_iff.2 ?_
    by_cases same : l.ms = now
    · have asked : c.asked now (some l) = some (l.ms, none) := by rw [asked, if_pos auto, same]
      have next := fits.nextSeq asked
      refine .inr ⟨same, UInt64.lt_iff_toNat_lt.2 ?_⟩
      rw [← same, next]
      exact Nat.lt_succ_self _
    · exact .inl (UInt64.lt_of_le_of_ne (fits.clock auto) same)
  · exact lt_of_resolveXaddId resolved

/-- The id an XADD has replied with. -/
def addedId : Result Resp → Option StreamId
  | .ok reply => reply.asStr.bind StreamId.parse
  | .error _ => none

/-- What XADD does: nothing, or one entry more. -/
theorem run_cases (c : XaddCall) (now : UInt64) (cell : Option DataType) :
    ((c.run now cell).1 = cell ∧ addedId (c.run now cell).2 = none) ∨
      ∃ s id, getStreamMut cell = .ok s ∧ c.resolve now (readLast cell) = .ok id ∧
        (c.run now cell).1 = some (.stream ((s.push ⟨id.toWire, c.fields⟩).trim c.maxlen c.minid)) ∧
        addedId (c.run now cell).2 = some id := by
  unfold run
  dsimp only
  by_cases skips : c.skips cell = true
  · rw [if_pos skips]
    exact .inl ⟨rfl, rfl⟩
  · rw [if_neg skips]
    cases resolved : c.resolve now (readLast cell) with
    | error e => exact .inl ⟨rfl, rfl⟩
    | ok id =>
      dsimp only
      unfold append
      cases stream : getStreamMut cell with
      | error e => exact .inl ⟨rfl, rfl⟩
      | ok s => exact .inr ⟨s, id, rfl, rfl, rfl, by simp [addedId, Resp.asStr]⟩

end XaddCall

/-! ## What the other commands do -/

variable {toUppercase : String → String}

variable (toUppercase) in
theorem cmdXsetid_cases (args : List Resp) (cell : Option DataType) :
    (cmdXsetid toUppercase args cell).1 = cell ∨ ∃ s newId added, cell = some (.stream s) ∧
      (∀ l, lastParsedId s = some l → l ≤ newId) ∧
      (cmdXsetid toUppercase args cell).1 = some (.stream (s.setId newId added)) := by
  unfold cmdXsetid
  split
  · exact .inl rfl
  · rename_i newId added _
    split
    · exact .inl rfl
    · rename_i s
      by_cases lower : (lastParsedId s).any (newId < ·) = true
      · rw [if_pos lower]
        exact .inl rfl
      · rw [if_neg lower]
        refine .inr ⟨s, newId, added, rfl, fun l last => ?_, rfl⟩
        rw [last, Option.any_some, decide_eq_true_eq] at lower
        exact not_lt.1 lower
    · exact .inl rfl

variable (toUppercase) in
theorem cmdXtrim_cases (args : List Resp) (cell : Option DataType) :
    (cmdXtrim toUppercase args cell).1 = cell ∨ ∃ s s', cell = some (.stream s) ∧ s.TrimmedTo s' ∧
      (cmdXtrim toUppercase args cell).1 = some (.stream s') := by
  unfold cmdXtrim
  split
  · exact .inl rfl
  · split
    · exact .inl rfl
    · exact .inr ⟨_, _, rfl, StreamData.trimmedTo_trim _ _ _, rfl⟩
    · exact .inl rfl

theorem cmdXdel_cases (args : List Resp) (cell : Option DataType) :
    (cmdXdel args cell).1 = cell ∨ ∃ s s', cell = some (.stream s) ∧ s.TrimmedTo s' ∧
      (cmdXdel args cell).1 = some (.stream s') := by
  unfold cmdXdel
  split
  · exact .inl rfl
  · split
    · exact .inl rfl
    · split
      · exact .inl rfl
      · exact .inr ⟨_, _, rfl, StreamData.trimmedTo_deleteIds _ _, rfl⟩
      · exact .inl rfl

/-! ## Runs on one stream -/

/-- A command that changes a stream, with the clock it reads. -/
inductive StreamEvent where
  | xadd (now : UInt64) (args : List Resp)
  | xsetid (args : List Resp)
  | xtrim (args : List Resp)
  | xdel (args : List Resp)

/-- The value of the key, and the ids XADD has replied with so far. -/
structure StreamHistory where
  cell : Option DataType
  added : List StreamId

section

variable (toUppercase : String → String)

def StreamEvent.step (e : StreamEvent) (h : StreamHistory) : StreamHistory :=
  match e with
  | .xadd now args =>
    let (cell, reply) := cmdXadd toUppercase now args h.cell
    ⟨cell, h.added ++ (XaddCall.addedId reply).toList⟩
  | .xsetid args => { h with cell := (cmdXsetid toUppercase args h.cell).1 }
  | .xtrim args => { h with cell := (cmdXtrim toUppercase args h.cell).1 }
  | .xdel args => { h with cell := (cmdXdel args h.cell).1 }

/-- An XADD that finds a stream fits its last id. -/
def StreamEvent.Fits (e : StreamEvent) (h : StreamHistory) : Prop :=
  match e with
  | .xadd now args => ∀ c l, parseXadd toUppercase args = .ok c → XaddCall.readLast h.cell = some l → c.Fits now l
  | _ => True

/-- Where XADD computes a sequence number from the last one, it is the next number. -/
def StreamEvent.NoWrap (e : StreamEvent) (h : StreamHistory) : Prop :=
  match e with
  | .xadd now args => ∀ c l, parseXadd toUppercase args = .ok c → XaddCall.readLast h.cell = some l →
      c.asked now (some l) = some (l.ms, none) → (nextSeq (some l) l.ms).toNat = l.seq.toNat + 1
  | _ => True

end

namespace StreamHistory

/-- The stream is well formed, and the ids XADD answered have grown from call to call. -/
structure Grown (h : StreamHistory) : Prop where
  entries : ∀ s, h.cell = some (.stream s) → s.Ascending
  added : h.added.Pairwise (· < ·)
  below : ∀ id ∈ h.added, ∃ s, h.cell = some (.stream s) ∧ id ≤ s.topId

/-- The last-generated id has not decreased. -/
def NotBack (h h' : StreamHistory) : Prop :=
  ∀ s, h.cell = some (.stream s) → ∃ s', h'.cell = some (.stream s') ∧ s.topId ≤ s'.topId

theorem NotBack.refl (h : StreamHistory) : h.NotBack h := fun s is => ⟨s, is, le_rfl⟩

variable {h : StreamHistory}

theorem Grown.cell (grown : h.Grown) {s s' : StreamData} (is : h.cell = some (.stream s)) (asc : s'.Ascending)
    (top : s.topId ≤ s'.topId) :
    ({ h with cell := some (.stream s') } : StreamHistory).Grown ∧ h.NotBack { h with cell := some (.stream s') } := by
  refine ⟨⟨fun t same => ?_, grown.added, fun id mem => ?_⟩, fun t same => ?_⟩
  · cases same
    exact asc
  · obtain ⟨t, same, le⟩ := grown.below id mem
    cases is.symm.trans same
    exact ⟨s', rfl, le.trans top⟩
  · cases is.symm.trans same
    exact ⟨s', rfl, top⟩

/-- **One XADD.** -/
theorem Grown.xadd (grown : h.Grown) {c : XaddCall} {now : UInt64}
    (fits : ∀ l, XaddCall.readLast h.cell = some l → c.Fits now l) :
    let h' : StreamHistory := ⟨(c.run now h.cell).1, h.added ++ (XaddCall.addedId (c.run now h.cell).2).toList⟩
    h'.Grown ∧ h.NotBack h' := by
  intro h'
  rcases c.run_cases now h.cell with ⟨cell, none⟩ | ⟨s, id, stream, resolved, cell, added⟩
  · have same : h' = h := by simp only [h', cell, none, Option.toList_none, List.append_nil]
    rw [same]
    exact ⟨grown, .refl h⟩
  · -- The id is above the last one of a stream that was there.
    have above (t : StreamData) (is : h.cell = some (.stream t)) : t = s ∧ t.topId < id := by
      have last : XaddCall.readLast h.cell = some t.topId := by
        rw [is]
        exact (grown.entries t is).lastParsedId
      rw [last] at resolved
      rw [is] at stream
      exact ⟨Except.ok.inj stream, (fits _ last).lt resolved⟩
    have pushed : (s.push ⟨id.toWire, c.fields⟩).Ascending := by
      unfold getStreamMut at stream
      split at stream
      · cases stream
        exact StreamData.ascending_new.push nofun _
      · rename_i t is
        obtain ⟨rfl, less⟩ := above t is
        have asc := grown.entries t is
        exact asc.push (fun e mem => (asc.below e mem).trans_lt less) _
      · cases stream
    obtain ⟨asc, top⟩ := (StreamData.trimmedTo_trim _ c.maxlen c.minid).ascending pushed
    rw [StreamData.topId_push] at top
    have old (i : StreamId) (mem : i ∈ h.added) : i < id := by
      obtain ⟨t, is, le⟩ := grown.below i mem
      exact le.trans_lt (above t is).2
    have same : h' = ⟨some (.stream ((s.push ⟨id.toWire, c.fields⟩).trim c.maxlen c.minid)), h.added ++ [id]⟩ := by
      simp only [h', cell, added, Option.toList_some]
    rw [same]
    refine ⟨⟨fun t is => ?_, ?_, fun i mem => ?_⟩, fun t is => ?_⟩
    · cases is
      exact asc
    · refine List.pairwise_append.2 ⟨grown.added, List.pairwise_singleton _ _, fun i mem j last => ?_⟩
      rw [List.mem_singleton.1 last]
      exact old i mem
    · refine ⟨_, rfl, ?_⟩
      rw [top]
      rcases List.mem_append.1 mem with mem | mem
      · exact (old i mem).le
      · exact (List.mem_singleton.1 mem).le
    · refine ⟨_, rfl, ?_⟩
      rw [top]
      exact (above t is).2.le

/-- Entries have gone, or nothing has happened. -/
theorem Grown.trimmed (grown : h.Grown) {cell : Option DataType} (cases : cell = h.cell ∨ ∃ s s',
    h.cell = some (.stream s) ∧ s.TrimmedTo s' ∧ cell = some (.stream s')) :
    ({ h with cell } : StreamHistory).Grown ∧ h.NotBack { h with cell } := by
  rcases cases with rfl | ⟨s, s', is, trimmed, rfl⟩
  · exact ⟨grown, .refl h⟩
  · obtain ⟨asc, top⟩ := trimmed.ascending (grown.entries s is)
    exact grown.cell is asc top.ge

/-- **One step of the run.** -/
theorem Grown.step (grown : h.Grown) {e : StreamEvent} (fits : e.Fits toUppercase h) :
    (e.step toUppercase h).Grown ∧ h.NotBack (e.step toUppercase h) := by
  cases e with
  | xadd now args =>
    have ran : (StreamEvent.xadd now args).step toUppercase h =
        ⟨(cmdXadd toUppercase now args h.cell).1,
          h.added ++ (XaddCall.addedId (cmdXadd toUppercase now args h.cell).2).toList⟩ := rfl
    rw [ran]
    unfold cmdXadd
    cases parsed : parseXadd toUppercase args with
    | error e =>
      dsimp only
      rw [XaddCall.addedId, Option.toList_none, List.append_nil]
      exact ⟨grown, .refl h⟩
    | ok c => exact grown.xadd fun l last => fits c l parsed last
  | xsetid args =>
    have ran : (StreamEvent.xsetid args).step toUppercase h = { h with cell := (cmdXsetid toUppercase args h.cell).1 } := rfl
    rw [ran]
    rcases cmdXsetid_cases toUppercase args h.cell with same | ⟨s, newId, added, is, above, done⟩
    · rw [same]
      exact ⟨grown, .refl h⟩
    · have asc := grown.entries s is
      have notBelow := above _ asc.lastParsedId
      obtain ⟨asc', top⟩ := asc.setId notBelow added
      rw [done]
      exact grown.cell is asc' (notBelow.trans top.ge)
  | xtrim args =>
    have ran : (StreamEvent.xtrim args).step toUppercase h = { h with cell := (cmdXtrim toUppercase args h.cell).1 } := rfl
    rw [ran]
    exact grown.trimmed (cmdXtrim_cases toUppercase args h.cell)
  | xdel args =>
    have ran : (StreamEvent.xdel args).step toUppercase h = { h with cell := (cmdXdel args h.cell).1 } := rfl
    rw [ran]
    exact grown.trimmed (cmdXdel_cases args h.cell)

end StreamHistory

/-- **Stream ids grow** in every run whose calls of XADD fit: in every state reached the entries are in
strict order of their ids and none is above the last-generated id, the ids added are in strict order, the
last-generated id does not decrease and no sequence number wraps. -/
theorem streamIds_grow (toUppercase : String → String) (events : List StreamEvent) (h : StreamHistory)
    (start : h.Grown)
    (fits : Always (StreamEvent.step toUppercase) (StreamEvent.Fits toUppercase) events h) :
    Always (StreamEvent.step toUppercase) (fun e h => h.Grown ∧ h.NotBack (e.step toUppercase h) ∧ e.NoWrap toUppercase h)
        events h ∧
      (run (StreamEvent.step toUppercase) events h).Grown := by
  refine fits.of_invariant start (fun e h grown fits => (grown.step fits).1) fun e h grown fits => ?_
  refine ⟨grown, (grown.step fits).2, ?_⟩
  cases e with
  | xadd now args => exact fun c l parsed last asked => (fits c l parsed last).nextSeq asked
  | _ => exact trivial

/-! ## Four calls on a missing key, and two with the clock behind -/

def upperAscii (s : String) : String := .ofList (s.toList.map Char.toUpper)

/-- `XADD s <id> f v`. -/
def xaddArgs (id : String) : List Resp :=
  ["XADD", "s", id, "f", "v"].map fun word => .bulkString (some (Utf8.asBytes word))

def xaddCall (id : String) : XaddCall := { XaddOptions.none with idStr := id, fields := [([102], [118])] }

/-- The ids of the entries. -/
def entryIds (cell : Option DataType) : List String :=
  match cell with
  | some (.stream s) => s.entries.map (·.id)
  | _ => []

theorem grown_missing : (⟨none, []⟩ : StreamHistory).Grown := ⟨nofun, .nil, nofun⟩

/-- Two in one millisecond, the top entry deleted, and the clock back for `*-*`. -/
def fourCalls : List StreamEvent :=
  [.xadd 5 (xaddArgs "*"), .xadd 5 (xaddArgs "*"),
    .xdel (["XDEL", "s", "5-1"].map fun word => .bulkString (some (Utf8.asBytes word))), .xadd 4 (xaddArgs "*-*")]

/-- The id that was deleted is not given again, and the ids grow with the clock back. -/
theorem streamIds_grow_fourCalls :
    (run (StreamEvent.step upperAscii) fourCalls ⟨none, []⟩).Grown ∧
      (run (StreamEvent.step upperAscii) fourCalls ⟨none, []⟩).added = [⟨5, 0⟩, ⟨5, 1⟩, ⟨5, 2⟩] ∧
      entryIds (run (StreamEvent.step upperAscii) fourCalls ⟨none, []⟩).cell = ["5-0", "5-2"] := by
  have star : parseXadd upperAscii (xaddArgs "*") = .ok (xaddCall "*") := by decide +kernel
  have stars : parseXadd upperAscii (xaddArgs "*-*") = .ok (xaddCall "*-*") := by decide +kernel
  refine ⟨(streamIds_grow upperAscii fourCalls _ grown_missing ⟨?_, ?_, trivial, ?_, trivial⟩).2, by decide +kernel,
    by decide +kernel⟩
  · nofun
  · intro c l parsed last
    cases star.symm.trans parsed
    have is : XaddCall.readLast (run (StreamEvent.step upperAscii) (fourCalls.take 1) ⟨none, []⟩).cell = some ⟨5, 0⟩ := by
      decide +kernel
    cases is.symm.trans last
    exact ⟨fun _ => by decide, fun _ => by decide⟩
  · intro c l parsed last
    cases stars.symm.trans parsed
    have is : XaddCall.readLast (run (StreamEvent.step upperAscii) (fourCalls.take 3) ⟨none, []⟩).cell = some ⟨5, 1⟩ := by
      decide +kernel
    cases is.symm.trans last
    exact ⟨fun star => absurd star (by decide), fun _ => by decide⟩

/-- **The clock goes back below an explicit id**: `*` adds a smaller id behind a larger one. And `*` wraps
behind the largest sequence number. -/
theorem streamIds_clock_back :
    let back := [StreamEvent.xadd 5 (xaddArgs "7-0"), .xadd 5 (xaddArgs "*")]
    let wrap := [StreamEvent.xadd 7 (xaddArgs "7-18446744073709551615"), .xadd 7 (xaddArgs "*")]
    (⟨none, []⟩ : StreamHistory).Grown ∧
      (run (StreamEvent.step upperAscii) back ⟨none, []⟩).added = [⟨7, 0⟩, ⟨5, 0⟩] ∧
      entryIds (run (StreamEvent.step upperAscii) back ⟨none, []⟩).cell = ["7-0", "5-0"] ∧
      ¬ (run (StreamEvent.step upperAscii) back ⟨none, []⟩).Grown ∧
      entryIds (run (StreamEvent.step upperAscii) wrap ⟨none, []⟩).cell = ["7-18446744073709551615", "7-0"] := by
  intro back wrap
  have added : (run (StreamEvent.step upperAscii) back ⟨none, []⟩).added = [⟨7, 0⟩, ⟨5, 0⟩] := by decide +kernel
  refine ⟨grown_missing, added, by decide +kernel, fun grown => ?_, by decide +kernel⟩
  have sorted := grown.added
  rw [added] at sorted
  revert sorted
  decide

end NexradeCache
