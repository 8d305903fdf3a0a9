import Mathlib.Tactic.Ring
import NexradeCache.Replication.Primary

/-!
# What WAIT counts

The primary counts the bytes of the writes it sends, a replica the bytes it reads: also those of the
REPLCONF GETACKs, which the primary does not count. So a replica that answered one GETACK is ahead of
the primary's count by that many bytes. `CaughtUp` is what WAIT promises, `counts` the condition on a
step under which the two counters stay comparable, and `wait_caught_up` the promise for all runs
whose steps meet it.
-/

namespace NexradeCache

open Interleave

namespace Replication

variable {l : Layout}

/-- **WAIT counts replicas that hold what had been sent when it began.** -/
structure CaughtUp (s : Primary l) : Prop where
  acked : ∀ q ∈ s.waits, ∀ r ∈ s.replicas, ∀ offset, r.info = some offset → q.1 ≤ offset → q.2 ⊆ r.holds
  returned : ∀ q ∈ s.returned, q.2 ≤ s.holders q.1

/-- A write that is sent is in the snapshot of every session behind its shard that is not yet
subscribed. -/
def Reaches (s : Primary l) (w : Write l) (propagate : Bool) : Prop :=
  propagate = true → s.replicas.any Replica.subscribed = true →
    ∀ r ∈ s.replicas, r.phase ≠ .closed → r.subscribed = false → r.copied w = true → w ∈ r.snapshot

instance (s : Primary l) (w : Write l) (propagate : Bool) : Decidable (Reaches s w propagate) :=
  inferInstanceAs (Decidable (_ → _ → ∀ r ∈ s.replicas, _))

/-- No byte of a GETACK is in the replica's offset. -/
def Replica.unasked (r : Replica l) : Bool := r.asked = 0 && (r.read = 0 || r.wire.head? ≠ some .getack)

/-- **A step that keeps the counters comparable.** A write is sent when no receiver is full, and
`Reaches` the sessions under way; a session registers when its replica has loaded the snapshot; a
replica acknowledges before it has counted any byte of a GETACK; WAIT loads its target when every
write sent is counted. -/
def counts (s : Primary l) (others : List (Task l)) (t : Task l) (s' : Primary l) (_ : Task l) : Bool :=
  match t with
  | .send w propagate => s.Room ∧ Reaches s w propagate
  | .lookup .. | .awaits .. => s.Room
  | .session i => s.replicas[i]?.all fun r => r.phase ≠ .register || r.loaded
  | .replica i => s.replicas[i]?.all fun r => r.unasked || (s'.replicas[i]?.all fun r' => r'.asked = r.asked)
  | .wait _ => others.filterMap Task.counting = []
  | _ => true

/-! ## Bytes -/

theorem total_append (ws ws' : List (Write l)) : total (ws ++ ws') = total ws + total ws' := by
  simp [total]

theorem total_perm {ws ws' : List (Write l)} (h : ws.Perm ws') : total ws = total ws' :=
  (h.map Write.size).sum_nat

/-- A list of writes that fits into the bytes of an initial part of it is that part. -/
theorem prefix_of_total_le {ws part rest : List (Write l)} (h : ws <+: part ++ rest)
    (le : total ws ≤ total part) : ws <+: part := by
  rcases List.prefix_or_prefix_of_prefix h (List.prefix_append part rest) with inside | beyond
  · exact inside
  · obtain ⟨more, rfl⟩ := beyond
    rw [total_append] at le
    cases more with
    | nil => simp
    | cons w more =>
      have positive := w.size_pos
      simp only [total, List.map_cons, List.sum_cons] at le
      omega

def sizes (ms : List (Message l)) : Nat := (ms.map Message.size).sum

theorem Message.size_pos (m : Message l) : 0 < m.size := by
  cases m with
  | write w => exact w.size_pos
  | getack =>
    show 0 < GETACK.length
    decide

/-- The bytes of messages are those of their writes and their GETACKs. -/
theorem sizes_eq (ms : List (Message l)) :
    sizes ms = total (writes ms) + GETACK.length * ms.countP fun m => m.write?.isNone := by
  induction ms with
  | nil => rfl
  | cons m ms ih =>
    have cons : sizes (m :: ms) = m.size + sizes ms := rfl
    rw [cons, ih]
    cases m with
    | write w =>
      have here : total (writes (.write w :: ms)) = w.size + total (writes ms) := rfl
      rw [here, List.countP_cons_of_neg (by simp [Message.write?]), Message.size]
      omega
    | getack =>
      have here : total (writes (.getack :: ms)) = total (writes ms) := rfl
      rw [here, List.countP_cons_of_pos (by simp [Message.write?]), Message.size]
      ring

namespace Replica

/-- What is read of the first message is less than the message. -/
def Partial (read : Nat) : List (Message l) → Prop
  | [] => read = 0
  | m :: _ => read < m.size

theorem consume_partial (n read : Nat) (wire : List (Message l)) :
    Partial (consume n read wire).2.1 (consume n read wire).2.2 := by
  induction wire generalizing n read with
  | nil => rfl
  | cons m rest ih =>
    unfold consume
    split
    · assumption
    · exact ih _ 0

/-- The bytes of a chunk are those of the messages it completes and the part of the next. -/
theorem consume_sizes {n read : Nat} {wire : List (Message l)} (part : Partial read wire)
    (there : n ≤ sizes wire - read) :
    read + n = sizes (consume n read wire).1 + (consume n read wire).2.1 := by
  induction wire generalizing n read with
  | nil =>
    have zero : read = 0 := part
    have none : n ≤ 0 - read := there
    show read + n = 0 + 0
    omega
  | cons m rest ih =>
    have within : read < m.size := part
    have cons : sizes (m :: rest) = m.size + sizes rest := rfl
    rw [cons] at there
    unfold consume
    split
    · show read + n = 0 + (read + n)
      omega
    · have fresh : Partial 0 rest := by
        cases rest with
        | nil => rfl
        | cons m' _ => exact m'.size_pos
      have tail := ih fresh (show n - (m.size - read) ≤ sizes rest - 0 by omega)
      have head : sizes (m :: (consume (n - (m.size - read)) 0 rest).1) =
          m.size + sizes (consume (n - (m.size - read)) 0 rest).1 := rfl
      show read + n = sizes (m :: (consume (n - (m.size - read)) 0 rest).1) +
        (consume (n - (m.size - read)) 0 rest).2.1
      rw [head]
      omega

theorem Partial.snoc {read : Nat} {wire : List (Message l)} (h : Partial read wire) (m : Message l) :
    Partial read (wire ++ [m]) := by
  cases wire with
  | nil =>
    have zero : read = 0 := h
    rw [zero]
    exact m.size_pos
  | cons m' rest => exact h

end Replica

/-! ## The invariant -/

/-- How far a replica is in what was sent. -/
structure Tracked (sent : List (Write l)) (r : Replica l) : Prop where
  room : r.queue.length ≤ CHANNEL
  part : Replica.Partial r.read r.wire
  /-- Before it subscribes, what was sent is in the shards it has copied. -/
  copied : r.subscribed = false → ∀ w ∈ sent, r.copied w = true → w ∈ r.snapshot
  base : r.subscribed = false → r.base ≤ total sent ∧ r.stream = []
  /-- Then it gets the rest of what is sent. -/
  stream : r.subscribed = true → ∃ before, sent = before ++ r.stream ∧ before ⊆ r.snapshot ∧ r.base ≤ total before
  fresh : r.loaded = false → r.applied = [] ∧ r.read = 0 ∧ r.asked = 0
  offset : r.loaded = true → r.offset = r.base + total r.applied + GETACK.length * r.asked + r.read
  registered : r.info.isSome = true → r.loaded = true
  behind : ∀ w, r.info.isSome = true → r.copied w = true
  acks : ∀ offset, r.info = some offset ∨ offset ∈ r.acks → offset ≤ r.base + total r.applied

/-- **The invariant behind WAIT.** The offset counts what was sent, a session's acknowledgement what that replica
has got, and WAIT's answer replicas that have what was sent before. -/
structure Counted (s : Primary l) (pending counted : List (Write l)) (asking : List (Nat × List (Write l))) : Prop where
  balance : s.replicationOffset + total counted = total s.sent
  pending : ∀ w ∈ pending, w ∈ s.mutated
  sent : ∀ w ∈ s.sent, w ∈ s.mutated
  waits : ∀ q ∈ s.waits, q.2 <+: s.sent ∧ q.1 = total q.2
  asking : ∀ q ∈ asking, q ∈ s.waits
  sessions : ∀ r ∈ s.replicas, r.phase ≠ .closed → Tracked s.sent r
  closed : ∀ r ∈ s.replicas, r.phase = .closed → r.info = none
  returned : ∀ q ∈ s.returned, q.2 ≤ s.holders q.1

variable {mutated sent before : List (Write l)} {r : Replica l} {w : Write l}

/-- A replica that acknowledged the bytes of an initial part of what was sent holds that part. -/
theorem Tracked.holds (h : Tracked sent r) {offset : Nat} (info : r.info = some offset)
    (part : before <+: sent) (le : total before ≤ offset) : before ⊆ r.holds := by
  have registered : r.info.isSome = true := by rw [info]; rfl
  have loaded := h.registered registered
  have bound := h.acks offset (.inl info)
  rw [Replica.holds, loaded, if_pos rfl]
  cases subscribed : r.subscribed with
  | false =>
    intro w hw
    have copied := h.copied subscribed w (part.subset hw) (h.behind w registered)
    exact List.mem_append_left _ copied
  | true =>
    obtain ⟨first, rfl, inside, base⟩ := h.stream subscribed
    have split : first ++ r.stream = (first ++ r.applied) ++ (writes r.wire ++ writes r.queue) := by
      simp only [Replica.stream, List.append_assoc]
    rw [split] at part
    have fits : total before ≤ total (first ++ r.applied) := by
      rw [total_append]
      omega
    intro w hw
    rcases List.mem_append.1 ((prefix_of_total_le part fits).subset hw) with early | late
    · exact List.mem_append_left _ (inside early)
    · exact List.mem_append_right _ late

/-! ## The steps of a replica -/

theorem Tracked.new {base : Nat} (le : base ≤ total sent) : Tracked sent (Replica.new base) where
  room := Nat.zero_le _
  part := rfl
  copied _ w _ done := by
    have behind : w.unit < 0 := of_decide_eq_true done
    omega
  base _ := ⟨le, rfl⟩
  stream := by
    intro subscribed
    cases subscribed
  fresh _ := ⟨rfl, rfl, rfl⟩
  offset := by
    intro loaded
    cases loaded
  registered := by
    intro some
    cases some
  behind := by
    intro w some
    cases some
  acks := by
    rintro offset (some | some) <;> cases some

theorem Tracked.session {r' : Replica l} (h : Tracked sent r) (known : ∀ w ∈ sent, w ∈ mutated)
    (step : SessionStep mutated r r') (loaded : r.phase = .register → r.loaded = true) : Tracked sent r' := by
  cases step with
  | @copy unit here more =>
    have off : r.subscribed = false := by
      rw [Replica.subscribed, here]
      rfl
    have before (w : Write l) : r.copied w = true ↔ w.unit < unit := by
      rw [Replica.copied, here]
      exact decide_eq_true_iff
    refine ⟨h.room, h.part, fun _ w hw copied => ?_, fun _ => h.base off, fun on => ?_, h.fresh, h.offset,
      h.registered, fun w some => ?_, h.acks⟩
    · have upTo : w.unit < unit + 1 := of_decide_eq_true copied
      rcases Nat.lt_succ_iff_lt_or_eq.1 upTo with lt | same
      · exact List.mem_append_left _ (h.copied off w hw ((before w).2 lt))
      · exact List.mem_append_right _ (List.mem_filter.2 ⟨known w hw, decide_eq_true same⟩)
    · cases on
    · exact decide_eq_true (Nat.lt_succ_of_lt ((before w).1 (h.behind w some)))
  | @copied unit here all =>
    have off : r.subscribed = false := by
      rw [Replica.subscribed, here]
      rfl
    have done (w : Write l) : r.copied w = true := by
      rw [Replica.copied, here]
      exact decide_eq_true (w.unit_lt.trans_le all)
    refine ⟨h.room, h.part, fun _ w hw _ => h.copied off w hw (done w), fun _ => h.base off, fun on => ?_, h.fresh,
      h.offset, h.registered, fun _ _ => rfl, h.acks⟩
    cases on
  | register here =>
    have off : r.subscribed = false := by
      rw [Replica.subscribed, here]
      rfl
    have done (w : Write l) : r.copied w = true := by
      rw [Replica.copied, here]
    refine ⟨h.room, h.part, fun _ w hw _ => h.copied off w hw (done w), fun _ => h.base off, fun on => ?_, h.fresh,
      h.offset, fun _ => loaded here, fun _ _ => rfl, fun offset some => ?_⟩
    · cases on
    · rcases some with same | old
      · cases same
        exact Nat.le_add_right _ _
      · exact h.acks offset (.inr old)
  | subscribe here =>
    have off : r.subscribed = false := by
      rw [Replica.subscribed, here]
      rfl
    have done (w : Write l) : r.copied w = true := by
      rw [Replica.copied, here]
    obtain ⟨le, nothing⟩ := h.base off
    refine ⟨h.room, h.part, fun on => ?_, fun on => ?_, fun _ => ⟨sent, ?_, ?_, le⟩, h.fresh, h.offset, h.registered,
      fun _ _ => rfl, h.acks⟩
    · cases on
    · cases on
    · show sent = sent ++ r.stream
      rw [nothing, List.append_nil]
    · exact fun w hw => h.copied off w hw (done w)
  | lag here full => exact absurd h.room (Nat.not_le_of_lt full)
  | @recv m queue here head =>
    have stream : ({ r with queue, wire := r.wire ++ [m] } : Replica l).stream = r.stream := by
      simp only [Replica.stream, head, writes_append, List.append_assoc]
      rw [← writes_append, List.singleton_append]
    have room := h.room
    rw [head] at room
    refine ⟨Nat.le_of_succ_le room, h.part.snoc m, h.copied, ?_, ?_, h.fresh, h.offset, h.registered, h.behind, h.acks⟩
    · rw [stream]
      exact h.base
    · rw [stream]
      exact h.stream
  | @ack offset acks here head =>
    have known (o : Nat) (old : r.info = some o ∨ o = offset ∨ o ∈ acks) : o ≤ r.base + total r.applied := by
      refine h.acks o ?_
      rw [head, List.mem_cons]
      exact old
    refine ⟨h.room, h.part, h.copied, h.base, h.stream, h.fresh, h.offset, fun some => ?_, fun w some => ?_, ?_⟩
    · exact h.registered (by simpa [Replica.updateOffset] using some)
    · exact h.behind w (by simpa [Replica.updateOffset] using some)
    · rintro o (some | later)
      · obtain ⟨was, info, rfl⟩ := Option.map_eq_some_iff.1 some
        show (if offset > was then offset else was) ≤ r.base + total r.applied
        split
        · exact known offset (.inr (.inl rfl))
        · exact known was (.inl info)
      · exact known o (.inr (.inr later))

theorem Tracked.load (h : Tracked sent r) (first : r.loaded = false) :
    Tracked sent { r with loaded := true, offset := r.base } := by
  obtain ⟨applied, read, asked⟩ := h.fresh first
  refine ⟨h.room, h.part, h.copied, h.base, h.stream, ?_, ?_, fun _ => rfl, h.behind, h.acks⟩
  · intro off
    cases off
  · intro _
    simp only [applied, read, asked]
    rfl

/-- A chunk that completes a GETACK, read before any byte of one was counted, completes the write
that was read in part. -/
theorem Replica.read_le_total {n : Nat} (part : Partial r.read r.wire) (unasked : r.unasked = true)
    (asked : 0 < (consume n r.read r.wire).1.countP fun m => m.write?.isNone) :
    r.read ≤ total (writes (consume n r.read r.wire).1) := by
  have parts := consume_append n r.read r.wire
  cases done : (consume n r.read r.wire).1 with
  | nil =>
    rw [done] at asked
    cases asked
  | cons m more =>
    rw [done, List.cons_append] at parts
    rw [← parts] at part
    rw [Replica.unasked, Bool.and_eq_true_iff, Bool.or_eq_true_iff, ← parts] at unasked
    rcases unasked.2 with zero | other
    · rw [of_decide_eq_true zero]
      exact Nat.zero_le _
    · cases m with
      | write w =>
        have less : r.read < w.size := part
        have sum : total (writes (.write w :: more)) = w.size + total (writes more) := rfl
        omega
      | getack => exact absurd rfl (of_decide_eq_true other)

theorem Tracked.receive (h : Tracked sent r) {n : Nat} (loaded : r.loaded = true)
    (there : n + 1 ≤ sizes r.wire - r.read) (fair : r.unasked = true ∨ (r.receive (n + 1)).asked = r.asked) :
    Tracked sent (r.receive (n + 1)) := by
  have stream := r.stream_receive (n + 1)
  have bytes := Replica.consume_sizes h.part there
  have parts := sizes_eq (Replica.consume (n + 1) r.read r.wire).1
  have offset := h.offset loaded
  refine ⟨h.room, Replica.consume_partial _ _ _, h.copied, ?_, ?_, fun off => ?_, fun _ => ?_, h.registered, h.behind,
    fun o some => ?_⟩
  · rw [stream]
    exact h.base
  · rw [stream]
    exact h.stream
  · rw [show r.loaded = false from off] at loaded
    cases loaded
  · show r.offset + (n + 1) = r.base + total (r.applied ++ writes (Replica.consume (n + 1) r.read r.wire).1) +
      GETACK.length * (r.asked + (Replica.consume (n + 1) r.read r.wire).1.countP fun m => m.write?.isNone) +
      (Replica.consume (n + 1) r.read r.wire).2.1
    rw [total_append, Nat.mul_add]
    omega
  · show o ≤ r.base + total (r.applied ++ writes (Replica.consume (n + 1) r.read r.wire).1)
    rw [total_append]
    have old : o ≤ r.base + total r.applied ∨ o = r.offset ∧
        0 < (Replica.consume (n + 1) r.read r.wire).1.countP fun m => m.write?.isNone := by
      rcases some with info | acked
      · exact .inl (h.acks o (.inl info))
      · rcases List.mem_append.1 acked with old | new
        · exact .inl (h.acks o (.inr old))
        · obtain ⟨some, same⟩ := List.mem_replicate.1 new
          exact .inr ⟨same, Nat.pos_of_ne_zero some⟩
    rcases old with old | ⟨rfl, asked⟩
    · omega
    · have unasked : r.unasked = true := by
        refine fair.resolve_right fun same => ?_
        have more : r.asked + _ = r.asked := same
        omega
      have covered := Replica.read_le_total h.part unasked asked
      have first : r.asked = 0 := of_decide_eq_true (Bool.and_eq_true_iff.1 unasked).1
      rw [offset, first]
      omega

theorem Tracked.getack (h : Tracked sent r) (room : r.subscribed = true → r.queue.length < CHANNEL) :
    Tracked sent (r.push .getack) := by
  unfold Replica.push
  split
  · rename_i subscribed
    have stream : ({ r with queue := r.queue ++ [.getack] } : Replica l).stream = r.stream := by
      simp only [Replica.stream, writes_append]
      exact congrArg (r.applied ++ writes r.wire ++ ·) (List.append_nil _)
    refine ⟨?_, h.part, h.copied, ?_, ?_, h.fresh, h.offset, h.registered, h.behind, h.acks⟩
    · rw [List.length_append]
      exact room subscribed
    · rw [stream]
      exact h.base
    · rw [stream]
      exact h.stream
  · exact h

theorem Tracked.propagated (h : Tracked sent r) (room : r.subscribed = true → r.queue.length < CHANNEL)
    (reaches : r.subscribed = false → r.copied w = true → w ∈ r.snapshot) :
    Tracked (sent ++ [w]) (r.push (.write w)) := by
  unfold Replica.push
  split
  · rename_i subscribed
    have stream : ({ r with queue := r.queue ++ [.write w] } : Replica l).stream = r.stream ++ [w] := by
      simp only [Replica.stream, writes_append, List.append_assoc]
      rfl
    have on {P : Prop} (off : r.subscribed = false) : P := by
      rw [off] at subscribed
      cases subscribed
    refine ⟨?_, h.part, fun off => on off, fun off => on off, ?_, h.fresh, h.offset, h.registered, h.behind, h.acks⟩
    · rw [List.length_append]
      exact room subscribed
    · intro _
      obtain ⟨first, rfl, inside, base⟩ := h.stream subscribed
      exact ⟨first, by rw [stream, List.append_assoc], inside, base⟩
  · rename_i off
    have off := Bool.eq_false_of_not_eq_true off
    refine ⟨h.room, h.part, fun _ w' hw' copied => ?_, fun _ => ?_, fun on => ?_, h.fresh, h.offset, h.registered,
      h.behind, h.acks⟩
    · rcases List.mem_append.1 hw' with old | new
      · exact h.copied off w' old copied
      · rw [List.mem_singleton.1 new] at copied ⊢
        exact reaches off copied
    · obtain ⟨le, nothing⟩ := h.base off
      rw [total_append]
      exact ⟨le.trans (Nat.le_add_right _ _), nothing⟩
    · rw [on] at off
      cases off

/-! ## Every run -/

variable {s s' : Primary l} {others : List (Task l)} {t t' : Task l} {pending counted : List (Write l)}
  {asking : List (Nat × List (Write l))}

/-- What a task of `cmd_wait` compares with. -/
def Task.asks : Task l → Option (Nat × List (Write l))
  | .compare target _ before | .lookup target _ before | .awaits target _ before => some (target, before)
  | _ => none

theorem countP_le_set {p : Replica l → Bool} {rs : List (Replica l)} {i : Nat} {x x' : Replica l}
    (found : rs[i]? = some x) (keeps : p x = true → p x' = true) : rs.countP p ≤ (rs.set i x').countP p := by
  induction rs generalizing i with
  | nil => cases found
  | cons y rs ih =>
    cases i with
    | zero =>
      cases found
      rw [List.set_cons_zero, List.countP_cons, List.countP_cons]
      split
      · rw [if_pos (keeps ‹_›)]
      · exact Nat.le_add_right _ _
    | succ i =>
      rw [List.set_cons_succ, List.countP_cons, List.countP_cons]
      exact Nat.add_le_add_right (ih found) _

/-- The acknowledged offsets say what the replicas hold. -/
theorem Counted.acked (h : Counted s pending counted asking) {q : Nat × List (Write l)} (mem : q ∈ s.waits) :
    ∀ r ∈ s.replicas, ∀ offset, r.info = some offset → q.1 ≤ offset → q.2 ⊆ r.holds := by
  intro r hr offset info le
  have live : r.phase ≠ .closed := by
    intro closed
    rw [h.closed r hr closed] at info
    cases info
  obtain ⟨part, target⟩ := h.waits q mem
  exact (h.sessions r hr live).holds info part (target ▸ le)

theorem Counted.replicasAtOrBeyond_le (h : Counted s pending counted asking) {q : Nat × List (Write l)}
    (mem : q ∈ s.waits) : s.replicasAtOrBeyond q.1 ≤ s.holders q.2 := by
  refine List.countP_mono_left fun r hr beyond => ?_
  cases info : r.info with
  | none =>
    rw [info] at beyond
    cases beyond
  | some offset =>
    rw [info] at beyond
    exact decide_eq_true (h.acked mem r hr offset info (of_decide_eq_true beyond))

theorem Counted.returns {q : Nat × List (Write l)} (h : Counted s pending counted (q :: asking)) {n : Nat}
    (le : n ≤ s.holders before) :
    Counted { s with returned := s.returned ++ [(before, n)] } pending counted asking where
  balance := h.balance
  pending := h.pending
  sent := h.sent
  waits := h.waits
  asking q' hq' := h.asking q' (List.mem_cons_of_mem q hq')
  sessions := h.sessions
  closed := h.closed
  returned q hq := by
    rcases List.mem_append.1 hq with old | new
    · exact h.returned q old
    · rw [List.mem_singleton.1 new]
      exact le

theorem Counted.set (h : Counted s pending counted asking) {i n : Nat} {x x' : Replica l}
    (found : s.replicas[i]? = some x) (open' : x'.phase ≠ .closed → x.phase ≠ .closed)
    (tracked : Tracked s.sent x → x'.phase ≠ .closed → Tracked s.sent x')
    (closed : x'.phase = .closed → x'.info = none) (holds : x.holds ⊆ x'.holds) :
    Counted { s with replicas := s.replicas.set i x', propagateSubscribers := n } pending counted asking where
  balance := h.balance
  pending := h.pending
  sent := h.sent
  waits := h.waits
  asking := h.asking
  sessions := by
    refine forall_mem_set h.sessions x' fun live => ?_
    exact tracked (h.sessions x (List.mem_of_getElem? found) (open' live)) live
  closed := forall_mem_set h.closed x' closed
  returned q hq := by
    refine (h.returned q hq).trans (countP_le_set found fun all => ?_)
    exact decide_eq_true (List.Subset.trans (of_decide_eq_true all) holds)

theorem Replica.holds_push (m : Message l) (r : Replica l) : (r.push m).holds = r.holds := by
  unfold push
  split <;> rfl

theorem Replica.info_push (m : Message l) (r : Replica l) : (r.push m).info = r.info := by
  unfold push
  split <;> rfl

theorem Counted.broadcast (h : Counted s pending counted asking) (m : Message l) {sent counted' : List (Write l)}
    (known : ∀ w ∈ sent, w ∈ s.mutated) (more : s.sent <+: sent)
    (balance : s.replicationOffset + total counted' = total sent)
    (tracked : ∀ r ∈ s.replicas, r.phase ≠ .closed → Tracked s.sent r → Tracked sent (r.push m)) :
    Counted { s.broadcast m with sent } pending counted' asking where
  balance := balance
  pending := h.pending
  sent := known
  waits q hq := ⟨(h.waits q hq).1.trans more, (h.waits q hq).2⟩
  asking := h.asking
  sessions r hr live := by
    obtain ⟨x, hx, rfl⟩ := List.mem_map.1 hr
    rw [Replica.phase_push] at live
    exact tracked x hx live (h.sessions x hx live)
  closed r hr closed := by
    obtain ⟨x, hx, rfl⟩ := List.mem_map.1 hr
    rw [Replica.phase_push] at closed
    rw [Replica.info_push]
    exact h.closed x hx closed
  returned q hq := by
    refine (h.returned q hq).trans (le_of_eq ?_)
    simp only [Primary.holders, Primary.broadcast, List.countP_map]
    congr 1
    funext r
    simp only [Function.comp, Replica.holds_push]

theorem Counted.mutate (h : Counted s pending counted asking) (w : Write l) :
    Counted { s with mutated := s.mutated ++ [w] } (w :: pending) counted asking where
  balance := h.balance
  pending w' hw' := by
    rcases List.mem_cons.1 hw' with rfl | old
    · exact List.mem_append_right _ (List.mem_singleton.2 rfl)
    · exact List.mem_append_left _ (h.pending w' old)
  sent w' hw' := List.mem_append_left _ (h.sent w' hw')
  waits := h.waits
  asking := h.asking
  sessions := h.sessions
  closed := h.closed
  returned := h.returned

theorem Counted.send (h : Counted s (w :: pending) counted asking) (room : s.Room) (reaches : Reaches s w true)
    (somebody : s.replicas.any Replica.subscribed = true) :
    Counted { s.broadcast (.write w) with sent := s.sent ++ [w] } pending (w :: counted) asking := by
  have all : Counted { s.broadcast (.write w) with sent := s.sent ++ [w] } (w :: pending) (w :: counted) asking := by
    refine h.broadcast (.write w) ?_ (List.prefix_append _ _) ?_ ?_
    · intro w' hw'
      rcases List.mem_append.1 hw' with old | new
      · exact h.sent w' old
      · rw [List.mem_singleton.1 new]
        exact h.pending w List.mem_cons_self
    · have balance := h.balance
      rw [total_append]
      simp only [total, List.map_cons, List.sum_cons, List.map_nil, List.sum_nil] at balance ⊢
      omega
    · intro r hr live tracked
      exact tracked.propagated (room r hr) (reaches rfl somebody r hr live)
  exact { all with pending := fun w' hw' => all.pending w' (List.mem_cons_of_mem w hw') }

theorem Counted.count (h : Counted s pending (w :: counted) asking) :
    Counted { s with
      replicationOffset := s.replicationOffset + w.size, acknowledged := s.acknowledged ++ [w] }
      pending counted asking where
  balance := by
    have balance := h.balance
    simp only [total, List.map_cons, List.sum_cons] at balance ⊢
    omega
  pending := h.pending
  sent := h.sent
  waits := h.waits
  asking := h.asking
  sessions := h.sessions
  closed := h.closed
  returned := h.returned

theorem Counted.psync (h : Counted s pending counted asking) :
    Counted { s with replicas := s.replicas ++ [.new s.replicationOffset] } pending counted asking where
  balance := h.balance
  pending := h.pending
  sent := h.sent
  waits := h.waits
  asking := h.asking
  sessions r hr live := by
    rcases List.mem_append.1 hr with old | new
    · exact h.sessions r old live
    · rw [List.mem_singleton.1 new]
      exact Tracked.new (h.balance ▸ Nat.le_add_right _ _)
  closed r hr closed := by
    rcases List.mem_append.1 hr with old | new
    · exact h.closed r old closed
    · rw [List.mem_singleton.1 new]
      rfl
  returned q hq := by
    refine (h.returned q hq).trans ?_
    simp only [Primary.holders, List.countP_append]
    exact Nat.le_add_right _ _

/-- WAIT loads its target when all that was sent is counted. -/
theorem Counted.wait (h : Counted s pending [] asking) :
    Counted { s with waits := s.waits ++ [(s.replicationOffset, s.sent)] } pending []
      ((s.replicationOffset, s.sent) :: asking) where
  balance := h.balance
  pending := h.pending
  sent := h.sent
  waits q hq := by
    rcases List.mem_append.1 hq with old | new
    · exact h.waits q old
    · rw [List.mem_singleton.1 new]
      exact ⟨List.prefix_refl _, h.balance⟩
  asking q hq := by
    rcases List.mem_cons.1 hq with rfl | old
    · exact List.mem_append_right _ (List.mem_singleton.2 rfl)
    · exact List.mem_append_left _ (h.asking q old)
  sessions := h.sessions
  closed := h.closed
  returned := h.returned

theorem SessionStep.holds {x x' : Replica l} (step : SessionStep mutated x x') : x.holds ⊆ x'.holds := by
  cases step with
  | copy here more =>
    intro w hw
    rcases List.mem_append.1 hw with old | applied
    · refine List.mem_append_left _ ?_
      cases loaded : x.loaded with
      | true =>
        rw [loaded, if_pos rfl] at old
        rw [if_pos rfl]
        exact List.mem_append_left _ old
      | false =>
        rw [loaded, if_neg Bool.false_ne_true] at old
        cases old
    · exact List.mem_append_right _ applied
  | _ =>
    unfold Replica.holds
    exact List.Subset.refl _

theorem SessionStep.open {x x' : Replica l} (step : SessionStep mutated x x') :
    x.phase ≠ .closed ∧ x'.phase ≠ .closed := by
  cases step <;> simp_all [Replica.updateOffset]

theorem Counted.step {P C : List (Write l)} {Q : List (Nat × List (Write l))}
    (h : Counted s (t.sending.toList ++ P) (t.counting.toList ++ C) (t.asks.toList ++ Q))
    (known : C = others.filterMap Task.counting) (step : Step s t s' t') (fair : counts s others t s' t' = true) :
    Counted s' (t'.sending.toList ++ P) (t'.counting.toList ++ C) (t'.asks.toList ++ Q) := by
  cases step with
  | test | fail | short => exact h
  | mutate => exact h.mutate _
  | send somebody => exact h.send (of_decide_eq_true fair).1 (of_decide_eq_true fair).2 somebody
  | @skip w propagate nobody =>
    exact ⟨h.balance, fun w' hw' => h.pending w' (List.mem_cons_of_mem w hw'), h.sent, h.waits, h.asking, h.sessions,
      h.closed, h.returned⟩
  | count => exact h.count
  | psync => exact h.psync
  | @session i x x' n found step =>
    refine h.set found (fun _ => step.open.1) (fun tracked _ => ?_) (fun closed => absurd closed step.open.2) step.holds
    refine tracked.session h.sent step fun here => ?_
    have cond : s.replicas[i]?.all (fun r => r.phase ≠ .register || r.loaded) = true := fair
    rw [found] at cond
    simpa [here] using cond
  | @load i x found rdb first =>
    refine h.set found id (fun tracked _ => tracked.load first) (h.closed x (List.mem_of_getElem? found)) ?_
    rw [Replica.holds, first, if_neg Bool.false_ne_true]
    exact List.subset_append_right _ _
  | @receive i x n found loaded there =>
    refine h.set found id (fun tracked _ => tracked.receive loaded there ?_)
      (h.closed x (List.mem_of_getElem? found)) ?_
    · have cond : s.replicas[i]?.all (fun r => r.unasked ||
          ((s.putReplica i (x.receive (n + 1))).replicas[i]?.all fun r' => r'.asked = r.asked)) = true := fair
      have inside : i < s.replicas.length := (List.getElem?_eq_some_iff.1 found).1
      rw [found, Primary.putReplica, List.getElem?_set_self inside] at cond
      exact (Bool.or_eq_true_iff.1 cond).imp id of_decide_eq_true
    · refine List.append_subset.2 ⟨List.subset_append_left _ _, ?_⟩
      exact List.Subset.trans (List.subset_append_left _ _) (List.subset_append_right _ _)
  | @disconnect i x found =>
    refine h.set found (fun live => absurd rfl live) (fun _ live => absurd rfl live) (fun _ => rfl) ?_
    exact List.Subset.refl _
  | wait =>
    have settled : C = [] := known.trans (of_decide_eq_true fair)
    subst settled
    exact h.wait
  | compared | woken => exact h.returns (h.replicasAtOrBeyond_le (h.asking _ List.mem_cons_self))
  | alone => exact h.returns (Nat.zero_le _)
  | ask | askAgain =>
    refine h.broadcast .getack h.sent (List.prefix_refl _) h.balance fun r hr _ tracked => ?_
    exact tracked.getack (of_decide_eq_true fair r hr)

def Counted.Of (p : Pool (Primary l) (Task l)) : Prop :=
  Counted p.shared (p.tasks.filterMap Task.sending) (p.tasks.filterMap Task.counting)
    (p.tasks.filterMap Task.asks)

theorem Counted.of_cut {before after : List (Task l)} : Counted.Of ⟨s, before ++ t :: after⟩ ↔
    Counted s (t.sending.toList ++ (before ++ after).filterMap Task.sending)
      (t.counting.toList ++ (before ++ after).filterMap Task.counting)
      (t.asks.toList ++ (before ++ after).filterMap Task.asks) := by
  have sends := filterMap_cut Task.sending before after t
  have counts := filterMap_cut Task.counting before after t
  have asks := filterMap_cut Task.asks before after t
  constructor
  · intro h
    exact { h with
      balance := total_perm counts ▸ h.balance
      pending := fun w hw => h.pending w (sends.mem_iff.2 hw)
      asking := fun q hq => h.asking q (asks.mem_iff.2 hq) }
  · intro h
    exact { h with
      balance := total_perm counts ▸ h.balance
      pending := fun w hw => h.pending w (sends.mem_iff.1 hw)
      asking := fun q hq => h.asking q (asks.mem_iff.1 hq) }

/-- **WAIT counts only replicas that are caught up, in every run whose steps meet the condition.** The offset a
replica acknowledges counts the bytes it has received. That it stands for the writes up to the target needs that
nothing else was counted into it, on either side, and that its snapshot has what was sent before it subscribed. -/
theorem wait_caught_up {p : Pool (Primary l) (Task l)} (run : FairReachable next entry counts ⟨.new, []⟩ p) :
    CaughtUp p.shared := by
  have counted : Counted.Of p := by
    refine run.invariant ?_ ?_ ?_
    · exact ⟨rfl, fun w hw => (by cases hw), fun w hw => (by cases hw), fun q hq => (by cases hq),
        fun q hq => (by cases hq), fun r hr => (by cases hr), fun r hr => (by cases hr), fun q hq => (by cases hq)⟩
    · intro s ts t counted begins
      have cut := @Counted.of_cut l s t ts []
      rw [cut, List.append_nil]
      cases t <;> first | exact counted | cases begins
    · intro s before t after s' t' counted mem fair
      rw [Counted.of_cut] at counted ⊢
      exact counted.step rfl (step_of_mem_next mem) fair
  exact ⟨fun q hq => counted.acked hq, counted.returned⟩

/-- A replica gets a write, and a WAIT for one replica returns one. -/
theorem wait_caught_up_setA :
    ∃ p : Pool (Primary oneShard) (Task oneShard), FairReachable next entry counts ⟨.new, []⟩ p ∧
      p.shared.returned.map Prod.snd = [1] ∧ CaughtUp p.shared := by
  have run : FairReachable next entry counts ⟨.new, []⟩ _ :=
    ⟨[.start .psync, .step 0 0, .step 0 0, .step 0 0, .start (.replica 0), .step 1 0, .step 0 0, .step 0 0,
      .start setA, .step 2 0, .step 2 0, .step 2 0, .step 2 0, .step 0 0, .step 1 26,
      .start (.wait 1), .step 3 0, .step 3 0, .step 3 0, .step 0 0, .step 1 36, .step 0 0, .step 3 0], rfl⟩
  exact ⟨_, run, rfl, wait_caught_up run⟩

/-- The first WAIT asks twice. Its second GETACK is answered with an offset that counts the first, so
a later WAIT takes the replica to have a write that is still in the channel. -/
theorem wait_not_caught_up :
    ∃ p : Pool (Primary oneShard) (Task oneShard), Reachable next entry ⟨.new, []⟩ p ∧ ¬CaughtUp p.shared := by
  have run : Reachable next entry ⟨.new, []⟩ _ :=
    ⟨[.start .psync, .step 0 0, .step 0 0, .step 0 0, .start (.replica 0), .step 1 0, .step 0 0, .step 0 0,
      .start setA, .step 2 0, .step 2 0, .step 2 0, .step 2 0, .step 0 0, .step 1 26,
      .start (.wait 1), .step 3 0, .step 3 0, .step 3 0, .step 3 1, .step 0 0, .step 0 0, .step 1 36, .step 1 36,
      .step 0 0, .step 0 0, .step 3 0,
      .start setA, .step 4 0, .step 4 0, .step 4 0, .step 4 0, .start (.wait 1), .step 5 0, .step 5 0], rfl⟩
  refine ⟨_, run, fun caughtUp => ?_⟩
  have counted := caughtUp.returned _ (.tail _ (.head _))
  exact absurd counted (by decide)

end Replication

end NexradeCache
