import NexradeCache.Replication.Primary

/-!
# The hand-off from the snapshot to the stream

`HandedOff` says what a replica needs of `run_psync_mode`: each acknowledged write is in the snapshot
or on the stream, once, behind the earlier writes of its key. The session copies the shards before it
subscribes, and a client tests for subscribers before it mutates and sends after it; `Meets` is the
condition on a send under which these steps fall into a harmless order, and `handoff` the
invariant's consequence for all runs whose sends meet it.
-/

namespace NexradeCache

open Interleave

namespace Replication

variable {l : Layout}

/-- **No gap and no overlap.** -/
structure HandedOff (s : Primary l) (r : Replica l) : Prop where
  exactlyOnce : ∀ w ∈ s.acknowledged,
    (w ∈ r.snapshot ∧ w ∉ r.stream) ∨ (w ∉ r.snapshot ∧ r.stream.count w = 1)
  inOrder : ∀ w ∈ s.acknowledged, ∀ w' ∈ s.mutated, w'.Conflicts w → w'.id < w.id →
    (w ∈ r.snapshot → w' ∈ r.snapshot) ∧ (w ∈ r.stream → w' ∈ r.snapshot ∨ [w', w].Sublist r.stream)

/-- **A send that does no harm.** A session that has copied the shard of the write gets it on the
stream just if its snapshot misses it; and before it gets it, the earlier writes of the key that its
snapshot misses were sent. -/
def Meets (s : Primary l) (others : List (Task l)) (w : Write l) (propagate : Bool) : Prop :=
  ∀ r ∈ s.replicas, r.phase ≠ .closed →
    (r.copied w = true → ((propagate && r.subscribed) = true ↔ w ∉ r.snapshot)) ∧
    ((propagate && r.subscribed) = true → ∀ w' ∈ others.filterMap Task.sending,
      w'.Conflicts w → w'.id < w.id → w' ∈ r.snapshot)

instance (s : Primary l) (others : List (Task l)) (w : Write l) (propagate : Bool) :
    Decidable (Meets s others w propagate) :=
  inferInstanceAs (Decidable (∀ r ∈ s.replicas, r.phase ≠ .closed → _ ∧ _))

/-- The condition on a step. -/
def meets (s : Primary l) (others : List (Task l)) (t : Task l) (_ : Primary l) (_ : Task l) : Bool :=
  match t with
  | .send w propagate => s.Room ∧ Meets s others w propagate
  | .lookup .. | .awaits .. => s.Room
  | _ => true

/-! ## The invariant -/

/-- What a session has of the writes, `pending` being those still to be sent. -/
structure Handed (mutated pending : List (Write l)) (r : Replica l) : Prop where
  known : ∀ w ∈ r.snapshot, w ∈ mutated ∧ r.copied w = true
  earlier : ∀ w ∈ r.snapshot, ∀ w' ∈ mutated, w'.unit = w.unit → w'.id < w.id → w' ∈ r.snapshot
  idle : r.subscribed = false → r.stream = []
  once : r.stream.Nodup
  gone : ∀ w ∈ r.stream, w ∈ mutated ∧ w ∉ pending
  settled : ∀ w ∈ mutated, w ∉ pending → r.copied w = true → (w ∈ r.stream ↔ w ∉ r.snapshot)
  ordered : ∀ w ∈ r.stream, ∀ w' ∈ mutated, w'.Conflicts w → w'.id < w.id →
    w' ∈ r.snapshot ∨ [w', w].Sublist r.stream
  room : r.queue.length ≤ CHANNEL

/-- What holds of the shared state, with the writes that tasks have still to send and to count. -/
structure Core (mutated acknowledged : List (Write l)) (replicas : List (Replica l))
    (pending counted : List (Write l)) : Prop where
  ids : ∀ w ∈ mutated, w.id < mutated.length
  nodup : pending.Nodup
  waiting : ∀ w ∈ pending, w ∈ mutated
  settled : ∀ w, w ∈ acknowledged ∨ w ∈ counted → w ∈ mutated ∧ w ∉ pending
  sessions : ∀ r ∈ replicas, r.phase ≠ .closed → Handed mutated pending r

def Core.Of (p : Pool (Primary l) (Task l)) : Prop :=
  Core p.shared.mutated p.shared.acknowledged p.shared.replicas (p.tasks.filterMap Task.sending)
    (p.tasks.filterMap Task.counting)

variable {mutated acknowledged pending pending' counted counted' : List (Write l)}
  {replicas : List (Replica l)} {r : Replica l} {w : Write l}

theorem Handed.perm (h : Handed mutated pending r) (same : pending.Perm pending') :
    Handed mutated pending' r where
  known := h.known
  earlier := h.earlier
  idle := h.idle
  once := h.once
  gone w hw := ⟨(h.gone w hw).1, fun later => (h.gone w hw).2 (same.mem_iff.2 later)⟩
  settled w hw still := h.settled w hw fun now => still (same.mem_iff.1 now)
  ordered := h.ordered
  room := h.room

theorem Core.perm (h : Core mutated acknowledged replicas pending counted) (same : pending.Perm pending')
    (same' : counted.Perm counted') : Core mutated acknowledged replicas pending' counted' where
  ids := h.ids
  nodup := same.nodup_iff.1 h.nodup
  waiting w hw := h.waiting w (same.mem_iff.2 hw)
  settled w hw := by
    rw [← same'.mem_iff] at hw
    rw [← same.mem_iff]
    exact h.settled w hw
  sessions r hr live := (h.sessions r hr live).perm same

theorem Core.of_cut {s : Primary l} {before after : List (Task l)} {t : Task l} :
    Core.Of ⟨s, before ++ t :: after⟩ ↔ Core s.mutated s.acknowledged s.replicas
      (t.sending.toList ++ (before ++ after).filterMap Task.sending)
      (t.counting.toList ++ (before ++ after).filterMap Task.counting) := by
  have sends := filterMap_cut Task.sending before after t
  have counts := filterMap_cut Task.counting before after t
  constructor
  · intro h
    exact Core.perm h sends counts
  · intro h
    exact Core.perm h sends.symm counts.symm

/-! ## The steps of a session -/

theorem Handed.new (base : Nat) : Handed mutated pending (Replica.new base) where
  known w hw := by cases hw
  earlier w hw := by cases hw
  idle _ := rfl
  once := List.nodup_nil
  gone w hw := by cases hw
  settled w _ _ done := by
    have behind : w.unit < 0 := of_decide_eq_true done
    omega
  ordered w hw := by cases hw
  room := Nat.zero_le _

/-- A step that keeps the snapshot, the stream and which shards are copied. -/
theorem Handed.same {r' : Replica l} (h : Handed mutated pending r) (snapshot : r'.snapshot = r.snapshot)
    (stream : r'.stream = r.stream) (copied : ∀ w, r'.copied w = r.copied w)
    (subscribed : r'.subscribed = false → r.subscribed = false)
    (room : r'.queue.length ≤ CHANNEL) : Handed mutated pending r' := by
  refine ⟨?_, ?_, ?_, ?_, ?_, ?_, ?_, room⟩
  · intro w hw
    rw [copied]
    exact h.known w (snapshot ▸ hw)
  · rw [snapshot]
    exact h.earlier
  · intro idle
    rw [stream]
    exact h.idle (subscribed idle)
  · rw [stream]
    exact h.once
  · rw [stream]
    exact h.gone
  · intro w hw still
    rw [snapshot, stream, copied]
    exact h.settled w hw still
  · rw [snapshot, stream]
    exact h.ordered

theorem Handed.copy (h : Handed mutated pending r) {unit : Nat} (here : r.phase = .snapshot unit) :
    Handed mutated pending { r with
      phase := .snapshot (unit + 1)
      snapshot := r.snapshot ++ mutated.filter fun w => w.unit = unit } := by
  have before (w : Write l) : r.copied w = true ↔ w.unit < unit := by
    rw [Replica.copied, here]
    exact decide_eq_true_iff
  have nothing : r.stream = [] := by
    apply h.idle
    rw [Replica.subscribed, here]
    rfl
  have found (w : Write l) : w ∈ mutated.filter (fun w => w.unit = unit) ↔ w ∈ mutated ∧ w.unit = unit := by
    simp
  refine ⟨?_, ?_, fun _ => nothing, h.once, h.gone, ?_, ?_, h.room⟩
  · intro w hw
    show _ ∧ decide (w.unit < unit + 1) = true
    rw [decide_eq_true_iff]
    rcases List.mem_append.1 hw with old | new
    · obtain ⟨there, copied⟩ := h.known w old
      exact ⟨there, Nat.lt_succ_of_lt ((before w).1 copied)⟩
    · obtain ⟨there, same⟩ := (found w).1 new
      exact ⟨there, by omega⟩
  · intro w hw w' hw' same lt
    rcases List.mem_append.1 hw with old | new
    · exact List.mem_append_left _ (h.earlier w old w' hw' same lt)
    · exact List.mem_append_right _ ((found w').2 ⟨hw', same.trans ((found w).1 new).2⟩)
  · intro w hw still copied
    have upTo : w.unit < unit + 1 := of_decide_eq_true copied
    have inSnapshot : w ∈ r.snapshot ++ mutated.filter fun w => w.unit = unit := by
      rcases Nat.lt_succ_iff_lt_or_eq.1 upTo with lt | same
      · have settled := h.settled w hw still ((before w).2 lt)
        rw [nothing] at settled
        refine List.mem_append_left _ (Classical.not_not.1 fun out => ?_)
        cases settled.2 out
      · exact List.mem_append_right _ ((found w).2 ⟨hw, same⟩)
    show w ∈ r.stream ↔ _
    rw [nothing]
    simp [inSnapshot]
  · intro w hw
    have none : w ∈ r.stream := hw
    rw [nothing] at none
    cases none

theorem Handed.session {r' : Replica l} (h : Handed mutated pending r) (step : SessionStep mutated r r') :
    Handed mutated pending r' := by
  cases step with
  | copy here _ => exact h.copy here
  | copied here all =>
    refine h.same rfl rfl (fun w => ?_) (fun _ => ?_) h.room
    · rw [Replica.copied, Replica.copied, here]
      exact (decide_eq_true (w.unit_lt.trans_le all)).symm
    · rw [Replica.subscribed, here]
      rfl
  | register here =>
    refine h.same rfl rfl (fun w => ?_) (fun _ => ?_) h.room
    · rw [Replica.copied, Replica.copied, here]
    · rw [Replica.subscribed, here]
      rfl
  | subscribe here =>
    refine h.same rfl rfl (fun w => ?_) (fun off => ?_) h.room
    · rw [Replica.copied, Replica.copied, here]
    · cases off
  | lag here full => exact absurd h.room (Nat.not_le_of_lt full)
  | @recv m queue here head =>
    have room := h.room
    rw [head] at room
    refine h.same rfl ?_ (fun w => rfl) id (Nat.le_of_succ_le room)
    simp only [Replica.stream, head, writes_append, List.append_assoc]
    rw [← writes_append, List.singleton_append]
  | ack here head => exact h.same rfl rfl (fun w => rfl) id h.room

/-! ## The steps of a write -/

theorem Handed.mutate (h : Handed mutated pending r) (ids : ∀ w ∈ mutated, w.id < mutated.length)
    (fresh : w.id = mutated.length) : Handed (mutated ++ [w]) (w :: pending) r := by
  have other : ∀ w' ∈ mutated, w' ≠ w := by
    rintro w' hw' rfl
    have := ids w' hw'
    omega
  have before {w' w'' : Write l} (hw' : w' ∈ mutated ++ [w]) (hw'' : w'' ∈ mutated) (lt : w'.id < w''.id) :
      w' ∈ mutated := by
    rcases List.mem_append.1 hw' with old | new
    · exact old
    · have := ids w'' hw''
      rw [List.mem_singleton.1 new] at lt
      omega
  refine ⟨?_, ?_, h.idle, h.once, ?_, ?_, ?_, h.room⟩
  · intro w' hw'
    exact ⟨List.mem_append_left _ (h.known w' hw').1, (h.known w' hw').2⟩
  · intro w₁ hw₁ w' hw' same lt
    exact h.earlier w₁ hw₁ w' (before hw' (h.known w₁ hw₁).1 lt) same lt
  · intro w' hw'
    obtain ⟨there, sent⟩ := h.gone w' hw'
    refine ⟨List.mem_append_left _ there, ?_⟩
    rw [List.mem_cons, not_or]
    exact ⟨other w' there, sent⟩
  · intro w' hw' still
    rw [List.mem_cons, not_or] at still
    refine h.settled w' ?_ still.2
    rcases List.mem_append.1 hw' with old | new
    · exact old
    · exact absurd (List.mem_singleton.1 new) still.1
  · intro w₁ hw₁ w' hw' conflict lt
    exact h.ordered w₁ hw₁ w' (before hw' (h.gone w₁ hw₁).1 lt) conflict lt

theorem Handed.sent (h : Handed mutated (w :: pending) r) (mem : w ∈ mutated) (out : w ∉ pending)
    (subscribed : r.subscribed = true) (room : r.queue.length < CHANNEL) (missed : w ∉ r.snapshot)
    (first : ∀ w' ∈ pending, w'.Conflicts w → w'.id < w.id → w' ∈ r.snapshot) :
    Handed mutated pending (r.push (.write w)) := by
  have pushed : r.push (.write w) = { r with queue := r.queue ++ [.write w] } := if_pos subscribed
  have stream : (r.push (.write w)).stream = r.stream ++ [w] := by
    rw [pushed]
    simp only [Replica.stream, writes_append, List.append_assoc]
    rfl
  have new : w ∉ r.stream := fun there => (h.gone w there).2 List.mem_cons_self
  rw [pushed] at stream ⊢
  refine ⟨h.known, h.earlier, ?_, ?_, ?_, ?_, ?_, ?_⟩
  · intro idle
    rw [show r.subscribed = false from idle] at subscribed
    cases subscribed
  · rw [stream]
    exact List.nodup_append.2 ⟨h.once, List.nodup_singleton w, by
      rintro a ha b hb rfl
      exact new (List.mem_singleton.1 hb ▸ ha)⟩
  · rw [stream]
    intro w' hw'
    rcases List.mem_append.1 hw' with old | here
    · obtain ⟨there, gone⟩ := h.gone w' old
      exact ⟨there, fun later => gone (List.mem_cons_of_mem w later)⟩
    · rw [List.mem_singleton.1 here]
      exact ⟨mem, out⟩
  · rw [stream]
    intro w' hw' still copied
    by_cases same : w' = w
    · subst same
      simp [missed]
    · have settled := h.settled w' hw' (by simp [same, still]) copied
      simpa [same] using settled
  · rw [stream]
    intro w₁ hw₁ w' hw' conflict lt
    rcases List.mem_append.1 hw₁ with old | here
    · refine (h.ordered w₁ old w' hw' conflict lt).imp id fun sub => ?_
      exact sub.trans (List.sublist_append_left _ _)
    · rw [List.mem_singleton.1 here] at conflict lt ⊢
      by_cases later : w' ∈ pending
      · exact .inl (first w' later conflict lt)
      · by_cases inSnapshot : w' ∈ r.snapshot
        · exact .inl inSnapshot
        · have differs : w' ≠ w := by
            rintro rfl
            exact Nat.lt_irrefl _ lt
          have settled := h.settled w' hw' (by simp [differs, later]) (r.copied_of_subscribed subscribed w')
          exact .inr ((List.singleton_sublist.2 (settled.2 inSnapshot)).append (List.Sublist.refl [w]))
  · show (r.queue ++ [Message.write w]).length ≤ CHANNEL
    rw [List.length_append]
    exact room

theorem Handed.skipped (h : Handed mutated (w :: pending) r) (there : r.copied w = true → w ∈ r.snapshot) :
    Handed mutated pending r where
  known := h.known
  earlier := h.earlier
  idle := h.idle
  once := h.once
  gone w' hw' := ⟨(h.gone w' hw').1, fun later => (h.gone w' hw').2 (List.mem_cons_of_mem w later)⟩
  settled w' hw' still copied := by
    by_cases same : w' = w
    · subst same
      have out : w' ∉ r.stream := fun now => (h.gone w' now).2 List.mem_cons_self
      simp [out, there copied]
    · exact h.settled w' hw' (by simp [same, still]) copied
  ordered := h.ordered
  room := h.room

theorem Handed.getack (h : Handed mutated pending r) (room : r.subscribed = true → r.queue.length < CHANNEL) :
    Handed mutated pending (r.push .getack) := by
  unfold Replica.push
  split
  · rename_i subscribed
    refine h.same rfl ?_ (fun w => rfl) id ?_
    · simp only [Replica.stream, writes_append]
      exact congrArg (r.applied ++ writes r.wire ++ ·) (List.append_nil _)
    · rw [List.length_append]
      exact room subscribed
  · exact h

/-! ## Every run -/

variable {s s' : Primary l} {others : List (Task l)} {t t' : Task l}

theorem Core.set (core : Core mutated acknowledged replicas pending counted) {i : Nat} {x x' : Replica l}
    (found : replicas[i]? = some x) (closed : x.phase = .closed → x'.phase = .closed)
    (step : Handed mutated pending x → x'.phase ≠ .closed → Handed mutated pending x') :
    Core mutated acknowledged (replicas.set i x') pending counted where
  ids := core.ids
  nodup := core.nodup
  waiting := core.waiting
  settled := core.settled
  sessions := by
    refine forall_mem_set core.sessions x' fun live => ?_
    exact step (core.sessions x (List.mem_of_getElem? found) fun was => live (closed was)) live

theorem Core.getack (core : Core mutated acknowledged replicas pending counted)
    (room : ∀ r ∈ replicas, r.subscribed = true → r.queue.length < CHANNEL) :
    Core mutated acknowledged (replicas.map (Replica.push .getack)) pending counted where
  ids := core.ids
  nodup := core.nodup
  waiting := core.waiting
  settled := core.settled
  sessions := by
    intro r hr live
    obtain ⟨x, hx, rfl⟩ := List.mem_map.1 hr
    rw [Replica.phase_push] at live
    exact (core.sessions x hx live).getack (room x hx)

theorem Core.mutate (core : Core mutated acknowledged replicas pending counted) (fresh : w.id = mutated.length) :
    Core (mutated ++ [w]) acknowledged replicas (w :: pending) counted := by
  have other : ∀ w' ∈ mutated, w' ≠ w := by
    rintro w' hw' rfl
    have := core.ids w' hw'
    omega
  refine ⟨?_, ?_, ?_, ?_, ?_⟩
  · intro w' hw'
    rw [List.length_append, List.length_singleton]
    rcases List.mem_append.1 hw' with old | new
    · exact Nat.lt_succ_of_lt (core.ids w' old)
    · rw [List.mem_singleton.1 new, fresh]
      exact Nat.lt_succ_self _
  · exact List.nodup_cons.2 ⟨fun there => other w (core.waiting w there) rfl, core.nodup⟩
  · intro w' hw'
    rcases List.mem_cons.1 hw' with rfl | old
    · exact List.mem_append_right _ (List.mem_singleton.2 rfl)
    · exact List.mem_append_left _ (core.waiting w' old)
  · intro w' hw'
    obtain ⟨there, sent⟩ := core.settled w' hw'
    refine ⟨List.mem_append_left _ there, ?_⟩
    rw [List.mem_cons, not_or]
    exact ⟨other w' there, sent⟩
  · intro r hr live
    exact (core.sessions r hr live).mutate core.ids fresh

/-- A write leaves the tasks that have still to send. -/
theorem Core.leave {acknowledged' : List (Write l)} {replicas' : List (Replica l)}
    (core : Core mutated acknowledged replicas (w :: pending) counted)
    (here : ∀ w', w' ∈ acknowledged' ∨ w' ∈ counted' → w' = w ∨ w' ∈ acknowledged ∨ w' ∈ counted)
    (sessions : ∀ r ∈ replicas', r.phase ≠ .closed → Handed mutated pending r) :
    Core mutated acknowledged' replicas' pending counted' := by
  obtain ⟨out, nodup⟩ := List.nodup_cons.1 core.nodup
  refine ⟨core.ids, nodup, fun w' hw' => core.waiting w' (List.mem_cons_of_mem w hw'), ?_, sessions⟩
  intro w' hw'
  rcases here w' hw' with rfl | old
  · exact ⟨core.waiting w' List.mem_cons_self, out⟩
  · obtain ⟨there, sent⟩ := core.settled w' old
    exact ⟨there, fun later => sent (List.mem_cons_of_mem w later)⟩

theorem Core.skip {propagate : Bool} (core : Core s.mutated s.acknowledged s.replicas (w :: pending) counted)
    (fair : Meets s others w propagate) (nobody : ∀ r ∈ s.replicas, (propagate && r.subscribed) = false) :
    Core s.mutated (s.acknowledged ++ [w]) s.replicas pending counted := by
  refine core.leave ?_ ?_
  · intro w' hw'
    simp only [List.mem_append, List.mem_singleton] at hw'
    tauto
  · intro r hr live
    have cond := (fair r hr live).1
    rw [nobody r hr] at cond
    refine (core.sessions r hr live).skipped fun copied => ?_
    have missed := cond copied
    simpa using missed

theorem Core.send (core : Core s.mutated s.acknowledged s.replicas (w :: pending) counted)
    (fair : Meets s others w true) (known : pending = others.filterMap Task.sending) (room : s.Room) :
    Core s.mutated s.acknowledged (s.replicas.map (Replica.push (.write w))) pending (w :: counted) := by
  refine core.leave ?_ ?_
  · intro w' hw'
    rw [List.mem_cons] at hw'
    tauto
  · intro r hr live
    obtain ⟨x, hx, rfl⟩ := List.mem_map.1 hr
    rw [Replica.phase_push] at live
    obtain ⟨cond, first⟩ := fair x hx live
    rw [Bool.true_and] at cond first
    have handed := core.sessions x hx live
    obtain ⟨out, -⟩ := List.nodup_cons.1 core.nodup
    cases subscribed : x.subscribed with
    | true =>
      have missed := (cond (x.copied_of_subscribed subscribed w)).1 subscribed
      exact handed.sent (core.waiting w List.mem_cons_self) out subscribed (room x hx subscribed) missed
        (known ▸ first subscribed)
    | false =>
      rw [Replica.push, subscribed, if_neg Bool.false_ne_true]
      refine handed.skipped fun copied => ?_
      have missed := cond copied
      simpa [subscribed] using missed

theorem Core.step {P C : List (Write l)}
    (core : Core s.mutated s.acknowledged s.replicas (t.sending.toList ++ P) (t.counting.toList ++ C))
    (known : P = others.filterMap Task.sending) (step : Step s t s' t') (fair : meets s others t s' t' = true) :
    Core s'.mutated s'.acknowledged s'.replicas (t'.sending.toList ++ P) (t'.counting.toList ++ C) := by
  cases step with
  | test | fail | wait | compared | short | alone | woken => exact core
  | mutate => exact core.mutate rfl
  | send _ => exact core.send (of_decide_eq_true fair).2 known (of_decide_eq_true fair).1
  | skip nobody => exact core.skip (of_decide_eq_true fair).2 nobody
  | @count w =>
    refine ⟨core.ids, core.nodup, core.waiting, fun w' hw' => core.settled w' ?_, core.sessions⟩
    show w' ∈ s.acknowledged ∨ w' ∈ w :: C
    have hw' : w' ∈ s.acknowledged ++ [w] ∨ w' ∈ C := hw'
    rw [List.mem_append, List.mem_singleton] at hw'
    rw [List.mem_cons]
    tauto
  | psync =>
    refine ⟨core.ids, core.nodup, core.waiting, core.settled, ?_⟩
    intro r hr live
    rcases List.mem_append.1 hr with old | new
    · exact core.sessions r old live
    · rw [List.mem_singleton.1 new]
      exact Handed.new _
  | session found step =>
    refine core.set found ?_ fun handed _ => handed.session step
    intro closed
    cases step <;> simp_all
  | load found _ _ => exact core.set found id fun handed _ => handed.same rfl rfl (fun _ => rfl) id handed.room
  | receive found _ _ =>
    exact core.set found id fun handed _ =>
      handed.same rfl (Replica.stream_receive _ _) (fun _ => rfl) id handed.room
  | disconnect found => exact core.set found (fun _ => rfl) fun _ live => absurd rfl live
  | ask | askAgain => exact core.getack (of_decide_eq_true fair)

/-- **The hand-off, in every run whose sends meet the condition.** A session that streams has every acknowledged
write once, in its snapshot or on its stream, and behind the earlier writes of the same key. The session copies
before it subscribes, so a write can fall between the two; the condition on a send says when one does not. -/
theorem handoff {p : Pool (Primary l) (Task l)} (run : FairReachable next entry meets ⟨.new, []⟩ p) :
    ∀ r ∈ p.shared.replicas, r.phase = .stream → HandedOff p.shared r := by
  have core : Core.Of p := by
    refine run.invariant ?_ ?_ ?_
    · exact ⟨fun w hw => (by cases hw), List.nodup_nil, fun w hw => (by cases hw),
        fun w hw => (by rcases hw with hw | hw <;> cases hw), fun r hr => (by cases hr)⟩
    · intro s ts t core begins
      have cut := @Core.of_cut l s ts [] t
      rw [cut, List.append_nil]
      cases t <;> first | exact core | cases begins
    · intro s before t after s' t' core mem fair
      rw [Core.of_cut] at core ⊢
      exact core.step rfl (step_of_mem_next mem) fair
  intro r hr streaming
  have handed := core.sessions r hr (by rw [streaming]; exact Phase.noConfusion)
  have copied (w : Write l) : r.copied w = true := r.copied_of_subscribed (decide_eq_true streaming) w
  constructor
  · intro w hw
    obtain ⟨there, sent⟩ := core.settled w (.inl hw)
    have settled := handed.settled w there sent (copied w)
    by_cases inSnapshot : w ∈ r.snapshot
    · exact .inl ⟨inSnapshot, fun both => settled.1 both inSnapshot⟩
    · exact .inr ⟨inSnapshot, List.count_eq_one_of_mem handed.once (settled.2 inSnapshot)⟩
  · intro w hw w' hw' conflict lt
    exact ⟨fun inSnapshot => handed.earlier w inSnapshot w' hw' conflict.unit_eq lt,
      fun streamed => handed.ordered w streamed w' hw' conflict lt⟩

/-- One write before a session, one after it has subscribed. -/
theorem handoff_setA :
    ∃ p : Pool (Primary oneShard) (Task oneShard), FairReachable next entry meets ⟨.new, []⟩ p ∧
      ∃ r ∈ p.shared.replicas, r.snapshot.length = 1 ∧ r.stream.length = 1 ∧ HandedOff p.shared r := by
  have run : FairReachable next entry meets ⟨.new, []⟩ _ :=
    ⟨[.start setA, .step 0 0, .step 0 0, .step 0 0, .start .psync, .step 1 0, .step 1 0, .step 1 0, .step 1 0,
      .step 1 0, .start setA, .step 2 0, .step 2 0, .step 2 0, .step 2 0], rfl⟩
  exact ⟨_, run, _, List.mem_singleton.2 rfl, rfl, rfl, handoff run _ (List.mem_singleton.2 rfl) rfl⟩

/-- A write that tests before the session registers and mutates behind its snapshot is lost. -/
theorem handoff_gap :
    ∃ p : Pool (Primary oneShard) (Task oneShard), Reachable next entry ⟨.new, []⟩ p ∧
      ∃ r ∈ p.shared.replicas, r.phase = .stream ∧ ¬HandedOff p.shared r := by
  refine ⟨_, ⟨[.start setA, .step 0 0, .start .psync, .step 1 0, .step 1 0, .step 0 0, .step 0 0, .step 1 0,
    .step 1 0, .step 1 0], rfl⟩, _, List.mem_singleton.2 rfl, rfl, fun handed => ?_⟩
  rcases handed.exactlyOnce _ (List.mem_singleton.2 rfl) with ⟨there, -⟩ | ⟨-, once⟩
  · cases there
  · cases once

/-- A write that a first replica lets propagate, and that a second session copies before it is sent
and receives after, is applied twice. -/
theorem handoff_overlap :
    ∃ p : Pool (Primary oneShard) (Task oneShard), Reachable next entry ⟨.new, []⟩ p ∧
      ∃ r ∈ p.shared.replicas, r.phase = .stream ∧ ∃ w ∈ p.shared.acknowledged, w ∈ r.snapshot ∧ w ∈ r.stream := by
  have run : Reachable next entry ⟨.new, []⟩ _ :=
    ⟨[.start .psync, .step 0 0, .step 0 0, .step 0 0, .step 0 0, .step 0 0, .start setA, .step 1 0, .step 1 0,
      .start .psync, .step 2 0, .step 2 0, .step 2 0, .step 2 0, .step 2 0, .step 1 0, .step 1 0], rfl⟩
  refine ⟨_, run, _, .tail _ (.head _), rfl, _, .head _, ?_, .head _⟩
  decide

end Replication

end NexradeCache
