import NexradeCache.Command.StreamOrder
import NexradeCache.Lib.Interleave

/-!
# Many clients adding to one stream

XADD reads the last id under the read lock of the shard, releases it, looks under it again for NOMKSTREAM,
computes the id with the clock of that moment and appends under the write lock, without another look at the
last id. `Task.next` has one step for each of these. The clock is a task of its own that moves forward.

`Task.Fits` is the condition under which the entries stay in order: a computed sequence number is used on
the last id it was computed from, or in a later millisecond; an explicit one is above the last id there is.
-/

namespace NexradeCache.ConcurrentXadd

open Interleave Trace XaddCall

/-- The cell of the key, and the clock. -/
structure Shared where
  cell : Option DataType
  clock : UInt64

/-- An XADD by the step it takes next: to read the last id, to look for NOMKSTREAM, to compute the new id, or to
append. -/
inductive Task where
  | start (c : XaddCall)
  | read (c : XaddCall) (last : Option StreamId)
  | checked (c : XaddCall) (last : Option StreamId)
  | resolved (c : XaddCall) (now : UInt64) (last : Option StreamId) (id : StreamId)
  | done (reply : Result Resp)
  | clock (time : UInt64)

namespace Task

def next (s : Shared) : Task → List (Shared × Task)
  | start c => [(s, read c (readLast s.cell))]
  | read c last => if c.skips s.cell then [(s, done (.ok (.bulkString none)))] else [(s, checked c last)]
  | checked c last => match c.resolve s.clock last with
    | .error e => [(s, done (.error e))]
    | .ok id => [(s, resolved c s.clock last id)]
  | resolved c _ _ id =>
    let (cell, reply) := c.append id s.cell
    [({ s with cell }, done reply)]
  | clock time => [({ s with clock := if s.clock ≤ time then time else s.clock }, clock time)]
  | done _ => []

/-- What may be started. -/
def entry : Task → Bool
  | start _ => true
  | clock _ => true
  | _ => false

end Task

/-- The id that was asked for is above the last one now: a computed sequence number is still the next one
or belongs to a later millisecond. -/
def Clear (c : XaddCall) (now : UInt64) (last : Option StreamId) (l : StreamId) : Prop :=
  match c.asked now last with
  | some (ms, none) => last = some l ∨ l.ms < ms
  | some (ms, some seq) => l < ⟨ms, seq⟩
  | none => True

/-- The steps that compute and use an id. -/
def Task.Fits (pool : Pool Shared Task) (t : Task) (_ : Shared) (_ : Task) : Prop :=
  match t with
  | .checked c last => ∀ l, last = some l → c.Fits pool.shared.clock l
  | .resolved c now last _ => ∀ l, readLast pool.shared.cell = some l → Clear c now last l
  | _ => True

/-! ## The invariant -/

/-- An id that was computed is what was asked for, and above the last one that was read. -/
def Task.Sound : Task → Prop
  | .resolved c now last id =>
    (∃ ms seq, c.asked now last = some (ms, seq) ∧ id = ⟨ms, seq.getD (nextSeq last ms)⟩) ∧
      ∀ l, last = some l → l < id
  | _ => True

/-- The stream is in the order of its ids, and an id that a call has computed is above the last one it read. -/
structure Inv (pool : Pool Shared Task) : Prop where
  ascending : ∀ s, pool.shared.cell = some (.stream s) → s.Ascending
  sound : ∀ t ∈ pool.tasks, t.Sound

variable {s s' : Shared} {before after : List Task} {t t' : Task}

theorem Inv.spawn {tasks : List Task} (inv : Inv ⟨s, tasks⟩) (starts : t.entry = true) : Inv ⟨s, tasks ++ [t]⟩ := by
  refine ⟨inv.ascending, fun u mem => ?_⟩
  rcases List.mem_append.1 mem with mem | mem
  · exact inv.sound u mem
  · rw [List.mem_singleton.1 mem]
    cases t <;> first | exact trivial | cases starts

theorem Inv.move (inv : Inv ⟨s, before ++ t :: after⟩) (cell : s'.cell = s.cell) (sound : t'.Sound) :
    Inv ⟨s', before ++ t' :: after⟩ := by
  refine ⟨fun d is => inv.ascending d (cell ▸ is), fun u mem => ?_⟩
  rcases List.mem_append.1 mem with mem | mem
  · exact inv.sound u (List.mem_append_left _ mem)
  · rcases List.mem_cons.1 mem with rfl | mem
    · exact sound
    · exact inv.sound u (List.mem_append_right _ (.tail _ mem))

/-- **A clear id is above the last one there is.** -/
theorem lt_of_clear {c : XaddCall} {now : UInt64} {last : Option StreamId} {id l : StreamId}
    (sound : (Task.resolved c now last id).Sound) (clear : Clear c now last l) : l < id := by
  obtain ⟨⟨ms, seq, asked, rfl⟩, above⟩ := sound
  unfold Clear at clear
  rw [asked] at clear
  cases seq with
  | some seq => exact clear
  | none =>
    rcases clear with same | earlier
    · exact above l same
    · exact StreamId.lt_iff.2 (.inl earlier)

theorem Inv.append {c : XaddCall} {now : UInt64} {last : Option StreamId} {id : StreamId}
    (inv : Inv ⟨s, before ++ .resolved c now last id :: after⟩)
    (clear : ∀ l, readLast s.cell = some l → Clear c now last l) :
    Inv ⟨{ s with cell := (c.append id s.cell).1 }, before ++ .done (c.append id s.cell).2 :: after⟩ := by
  have sound := inv.sound (.resolved c now last id) (by simp)
  have moved : Inv ⟨s, before ++ .done (c.append id s.cell).2 :: after⟩ := inv.move rfl trivial
  refine ⟨fun d is => ?_, moved.sound⟩
  dsimp only at is
  unfold XaddCall.append at is
  cases stream : getStreamMut s.cell with
  | error e =>
    rw [stream] at is
    exact inv.ascending d is
  | ok t =>
    rw [stream] at is
    cases is
    refine ((StreamData.trimmedTo_trim _ c.maxlen c.minid).ascending ?_).1
    unfold getStreamMut at stream
    split at stream
    · cases stream
      exact StreamData.ascending_new.push nofun _
    · rename_i u there
      have same : u = t := Except.ok.inj stream
      subst same
      have asc := inv.ascending _ there
      have last : readLast s.cell = some u.topId := by
        rw [there]
        exact asc.lastParsedId
      have less := lt_of_clear sound (clear _ last)
      exact asc.push (fun e mem => (asc.below e mem).trans_lt less) _
    · cases stream

theorem Inv.step (inv : Inv ⟨s, before ++ t :: after⟩) (mem : (s', t') ∈ t.next s)
    (fits : t.Fits ⟨s, before ++ t :: after⟩ s' t') : Inv ⟨s', before ++ t' :: after⟩ := by
  cases t with
  | start c =>
    cases List.mem_singleton.1 mem
    exact inv.move rfl trivial
  | read c last =>
    rw [Task.next] at mem
    split at mem <;> cases List.mem_singleton.1 mem <;> exact inv.move rfl trivial
  | checked c last =>
    rw [Task.next] at mem
    cases resolved : c.resolve s.clock last with
    | error e =>
      rw [resolved] at mem
      cases List.mem_singleton.1 mem
      exact inv.move rfl trivial
    | ok id =>
      rw [resolved] at mem
      cases List.mem_singleton.1 mem
      refine inv.move rfl ⟨asked_of_resolve resolved, fun l is => ?_⟩
      subst is
      exact (fits l rfl).lt resolved
  | resolved c now last id =>
    cases List.mem_singleton.1 mem
    exact inv.append fits
  | done reply => cases mem
  | clock time =>
    cases List.mem_singleton.1 mem
    exact inv.move rfl trivial

/-- **XADDs side by side**: in every schedule whose steps fit, the entries are in strict order of their ids, so that
no two have the same. A call reads the last id and computes its own before it takes the lock to append, and does not
read it again; so the condition is on the append, in the state that it meets. -/
theorem concurrentXadd_ordered (turns : List (Interleave.Turn Task)) (cell : Option DataType) (clock : UInt64)
    (start : ∀ s, cell = some (.stream s) → s.Ascending)
    (fits : Always (Pool.advance Task.next Task.entry) (fun t p => p.Meets Task.next Task.Fits t) turns
      ⟨⟨cell, clock⟩, []⟩) (s : StreamData)
    (reached : (run (Pool.advance Task.next Task.entry) turns ⟨⟨cell, clock⟩, []⟩).shared.cell = some (.stream s)) :
    (s.entries.Pairwise fun a b => a.number < b.number) ∧ (s.entries.map (·.id)).Nodup := by
  have start : Inv ⟨⟨cell, clock⟩, []⟩ := ⟨start, nofun⟩
  have asc := (advance_invariant fits start Inv.spawn Inv.step).ascending s reached
  refine ⟨asc.sorted, List.pairwise_map.2 (asc.sorted.imp fun less same => ?_)⟩
  rw [StreamEntry.number, StreamEntry.number, same] at less
  exact lt_irrefl _ less

/-! ## Two clients that both ask for `*` -/

def star : Task := .start (xaddCall "*")

/-- Both have read before the first appends, but the second asks the clock in a later millisecond. -/
def laterMs : List (Interleave.Turn Task) :=
  [.start star, .start star, .start (.clock 6), .step 0 0, .step 1 0, .step 0 0, .step 0 0, .step 0 0, .step 2 0,
    .step 1 0, .step 1 0, .step 1 0]

/-- Both have read before the first appends, in the same millisecond. -/
def sameMs : List (Interleave.Turn Task) :=
  [.start star, .start star, .step 0 0, .step 1 0, .step 0 0, .step 0 0, .step 0 0, .step 1 0, .step 1 0, .step 1 0]

def cellAfter (turns : List (Interleave.Turn Task)) : Option DataType :=
  (run (Pool.advance Task.next Task.entry) turns ⟨⟨none, 5⟩, []⟩).shared.cell

/-- Both calls append, and the second id is greater. -/
theorem concurrentXadd_ordered_laterMs :
    entryIds (cellAfter laterMs) = ["5-0", "6-0"] ∧
      ∀ s, cellAfter laterMs = some (.stream s) → s.entries.Pairwise fun a b => a.number < b.number := by
  refine ⟨by decide +kernel, fun s is => (concurrentXadd_ordered laterMs none 5 nofun ⟨trivial, trivial, trivial, ?_, ?_, ?_,
    ?compute, ?append, ?_, ?_, ?compute', ?append', trivial⟩ s is).1⟩
  case compute =>
    intro t s' t' task chosen
    cases task
    nofun
  case append =>
    intro t s' t' task chosen
    cases task
    nofun
  case compute' =>
    intro t s' t' task chosen
    cases task
    nofun
  case append' =>
    intro t s' t' task chosen
    cases task
    intro l last
    have first : readLast (cellAfter (laterMs.take 8)) = some ⟨5, 0⟩ := by decide +kernel
    cases first.symm.trans last
    exact .inr (by decide)
  all_goals
    intro t s' t' task chosen
    cases task
    exact trivial

/-- **The same id twice**: both read that there is no stream, and both take `5-0`. -/
theorem concurrentXadd_duplicate :
    entryIds (cellAfter sameMs) = ["5-0", "5-0"] ∧ ¬ (entryIds (cellAfter sameMs)).Nodup := by
  have ids : entryIds (cellAfter sameMs) = ["5-0", "5-0"] := by decide +kernel
  refine ⟨ids, ?_⟩
  rw [ids]
  decide

end NexradeCache.ConcurrentXadd
