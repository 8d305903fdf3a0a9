import NexradeCache.Persistence.Saving

/-!
# The dirty counter misses no change

A change is counted behind it, and a save reads the counter before it copies the store. So what a save has
read was there to be copied, and if nothing was counted since, and nothing is about to be, its copy is what the
store has (`Covers`). At most one save runs at a time (`rdb_save_job`), hence what it takes off the counter was
not taken off before. The coordinator of mutations is not needed for any of this.
-/

namespace NexradeCache

open Interleave Trace

namespace Saving

open Persistence (Coordinator Task Write Outcome hasFastPath)
open Replication (Layout Entries Keyspaces unitOf unitOf_lt unitOf_eq shardOf)

variable {l : Layout} {H : Type}

/-! ## What a save has done -/

variable (l) in
/-- The shard is still to be looked at. -/
def Cursor.ahead : Cursor → Nat → Bool
  | .scan db shard, unit | .copy db shard, unit => db * l.numShards + shard ≤ unit
  | .complete, _ => false

variable (l) in
/-- Nothing of the shard is copied. -/
def Cursor.blank : Cursor → Nat → Bool
  | .scan db _, unit => db * l.numShards ≤ unit
  | .copy db shard, unit => db * l.numShards + shard ≤ unit || (db + 1) * l.numShards ≤ unit
  | .complete, _ => false

/-- What a save has read, how far it has copied, and whether its file is written. -/
structure Progress where
  read : Nat
  cursor : Cursor
  written : Bool

namespace Phase

/-- What a save has done, from when it has read the counter until it has taken that off. -/
def progress : Phase l H → Option Progress
  | .snapshot _ read at_ => some ⟨read, at_, false⟩
  | .release _ (some read) _ | .write _ read => some ⟨read, .complete, false⟩
  | .subtract _ read => some ⟨read, .complete, true⟩
  | _ => none

/-- The task has `rdb_save_job`. -/
def holdsJob : Phase l H → Bool
  | .quiesce _ _ | .load _ | .snapshot _ _ _ | .release _ _ _ | .write _ _ | .subtract _ _ | .clear _ | .unlock => true
  | _ => false

/-- A save that has no job has not begun to copy. -/
theorem progress_eq_none {t : Phase l H} (free : t.holdsJob = false) : t.progress = none := by
  cases t <;> first | rfl | cases free

end Phase

/-- What the copy of a save is worth. -/
structure Covers (quiet : Prop) (s : Server l) (g : Progress) : Prop where
  read : g.read ≤ s.dirtyKeys
  same : quiet → s.dirtyKeys = g.read → ∀ db key, g.cursor.ahead l (unitOf db key) = false →
    (s.captured db).entry key = (s.store db).entry key
  blank : ∀ db key, g.cursor.blank l (unitOf db key) = true → (s.captured db).entry key = none
  written : g.written = true → s.saved = s.captured

/-- The invariant: one save at most, a counter at zero is right, and the copy of a save is worth what it promises.
-/
structure Inv (p : Pool (Server l) (Phase l H)) : Prop where
  job : p.count Phase.holdsJob = p.shared.rdbSaveJob.toNat
  sound : p.count Phase.uncounted = 0 → p.shared.dirtyKeys = 0 → p.shared.store = p.shared.saved
  covers : ∀ t ∈ p.tasks, ∀ g, t.progress = some g → Covers (p.count Phase.uncounted = 0) p.shared g

/-! ## What a step can do -/

/-- What a step can do, one constructor for each kind. -/
inductive Step (s : Server l) : Phase l H → Server l → Phase l H → Prop where
  | silent {t t' : Phase l H} (c : Coordinator) (flag : Bool) (uncounted : t'.uncounted = t.uncounted)
      (job : t'.holdsJob = t.holdsJob) (progress : t'.progress = none ∨ t'.progress = t.progress) :
      Step s t { s with coordinator := c, bgsaveInProgress := flag } t'
  | change {t t' : Phase l H} (store : Keyspaces l) (uncounted : t'.uncounted = true) (job : t.holdsJob = false)
      (job' : t'.holdsJob = false) : Step s t { s with store } t'
  | count {t t' : Phase l H} (counted : t'.uncounted = false) (job : t.holdsJob = false)
      (job' : t'.holdsJob = false) : Step s t { s with dirtyKeys := s.dirtyKeys + 1 } t'
  | lock {t t' : Phase l H} (free : s.rdbSaveJob = false) (uncounted : t'.uncounted = t.uncounted)
      (job : t.holdsJob = false) (job' : t'.holdsJob = true) (progress : t'.progress = none) :
      Step s t { s with rdbSaveJob := true } t'
  | load (k : Kind) :
      Step s (.load k) { s with captured := fun _ => .empty } (.snapshot k s.dirtyKeys (.scan 0 0))
  | copy (k : Kind) (read : Nat) (at_ : Cursor) :
      Step s (.snapshot k read at_) (s.copyStep at_).1 (.snapshot k read (s.copyStep at_).2)
  | write (k : Kind) (read : Nat) : Step s (.write k read) { s with saved := s.captured } (.subtract k read)
  | subtract (k : Kind) (read : Nat) :
      Step s (.subtract k read) { s with dirtyKeys := s.dirtyKeys - read } (.clear k)
  | unlock : Step s .unlock { s with rdbSaveJob := false } .done
  | expire (db : Fin l.dbCount) (key : Bytes) : Step s (.expire db key) (s.expire db key) .done

section
variable {handlers : Handlers l H} {p : Pool (Server l) (Phase l H)} {s s' : Server l} {t t' : Phase l H}

theorem apply_entry (c : Change l) (k : Keyspaces l) (db : Fin l.dbCount) (key : Bytes) :
    (c.apply k db).entry key = if db = c.db ∧ key = c.key then c.value else (k db).entry key := by
  unfold Change.apply
  by_cases same : db = c.db
  · subst same
    simp [putEntry, Function.update_apply]
  · simp [same]

theorem apply_same {k : Keyspaces l} {db : Fin l.dbCount} {key : Bytes} {c : Content} (there : (k db).entry key = some c) :
    (Change.mk db key (some c)).apply k = k := by
  funext i
  refine Entries.ext fun other => ?_
  rw [apply_entry]
  split
  · rename_i here
    rw [here.1, here.2, there]
  · rfl

theorem Step.same (uncounted : t'.uncounted = t.uncounted) (job : t'.holdsJob = t.holdsJob)
    (progress : t'.progress = none ∨ t'.progress = t.progress) : Step s t s t' :=
  .silent s.coordinator s.bgsaveInProgress uncounted job progress

theorem step_of_coordinate {task : Task} (phase : Task → Phase l H) (mem : (s', t') ∈ s.coordinate task phase)
    (uncounted : ∀ x, (phase x).uncounted = (phase task).uncounted) (job : ∀ x, (phase x).holdsJob = (phase task).holdsJob)
    (progress : ∀ x, (phase x).progress = (phase task).progress) : Step s (phase task) s' t' := by
  obtain ⟨⟨c, task'⟩, -, same⟩ := List.mem_map.1 mem
  obtain ⟨rfl, rfl⟩ := Prod.mk.inj same
  exact .silent c s.bgsaveInProgress (uncounted task') (job task') (.inr (progress task'))

theorem Mode.ended_holdsJob (w : Write) (outcome : Outcome) (changed : Bool) (mode : Mode) :
    (mode.ended w outcome changed : Phase l H).holdsJob = false := by
  cases mode <;> cases outcome <;> rfl

/-- A handler that ends has its changes counted, or none were made. -/
theorem Mode.ended_uncounted (w : Write) (outcome : Outcome) (changed : Bool) (mode : Mode) :
    (mode.ended w outcome changed : Phase l H).uncounted = (changed && outcome = .reply) := by
  cases mode <;> cases outcome <;> simp [Mode.ended, Phase.uncounted]

/-- A handler that ends without a reply has changed nothing, if the step fits. -/
theorem fits_ended {w : Write} {mode : Mode} {h : H} {changed changed' : Bool} {outcome : Outcome}
    (fits : Fits p (.handle w mode h changed) s' (mode.ended w outcome changed')) (failed : outcome ≠ .reply) :
    changed = false ∧ s'.store = p.shared.store := by
  cases mode <;> cases outcome <;> first | exact fits | exact absurd rfl failed

/-- A handler goes on or ends; what it has changed is still to be counted. -/
theorem step_of_handle {w : Write} {mode : Mode} {h : H} {changed : Bool}
    (mem : (s', t') ∈ p.shared.next handlers (.handle w mode h changed))
    (fits : Fits p (.handle w mode h changed) s' t') : Step p.shared (.handle w mode h changed) s' t' := by
  obtain ⟨⟨change, rest⟩, -, same⟩ := List.mem_map.1 mem
  obtain ⟨rfl, rfl⟩ := Prod.mk.inj same
  cases rest with
  | inl h' =>
    cases change with
    | none => exact .same (by simp [Phase.uncounted]) rfl (.inl rfl)
    | some c => exact .change _ (by simp [Phase.uncounted]) rfl rfl
  | inr outcome =>
    by_cases reply : outcome = .reply
    · cases change with
      | none =>
        refine .same ?_ (Mode.ended_holdsJob _ _ _ _) (.inl (Phase.progress_eq_none (Mode.ended_holdsJob _ _ _ _)))
        rw [Mode.ended_uncounted]
        simp [Phase.uncounted, reply]
      | some c =>
        refine .change _ ?_ rfl (Mode.ended_holdsJob _ _ _ _)
        rw [Mode.ended_uncounted]
        simp [reply]
    · obtain ⟨unchanged, store⟩ := fits_ended fits reply
      dsimp only at store ⊢
      rw [store]
      refine .same ?_ (Mode.ended_holdsJob _ _ _ _) (.inl (Phase.progress_eq_none (Mode.ended_holdsJob _ _ _ _)))
      rw [Mode.ended_uncounted]
      simp [Phase.uncounted, unchanged, reply]

/-- A write is refused, or looks which way it goes. -/
theorem step_of_dispatch {w : Write} (mem : (s', t') ∈ s.next handlers (.dispatch w)) : Step s (.dispatch w) s' t' := by
  simp only [Server.next, List.mem_cons, List.not_mem_nil, or_false, Prod.mk.injEq] at mem
  rcases mem with ⟨rfl, rfl⟩ | ⟨rfl, rfl⟩
  · exact .same rfl rfl (.inl rfl)
  · split_ifs
    · exact .same rfl rfl (.inl rfl)
    · exact .same rfl rfl (.inl rfl)
    · exact .same rfl rfl (.inl rfl)

theorem step_of_acquire {w : Write} {task : Task} (mem : (s', t') ∈ s.next handlers (.acquire w task)) :
    Step s (.acquire w task) s' t' := by
  cases task
  case permit | done =>
    cases List.mem_singleton.1 mem
    exact .same rfl rfl (.inl rfl)
  all_goals exact step_of_coordinate (.acquire w) mem (fun _ => rfl) (fun _ => rfl) fun _ => rfl

theorem step_of_leave {task : Task} (mem : (s', t') ∈ s.next handlers (.leave task)) : Step s (.leave task) s' t' := by
  cases task
  case done =>
    cases List.mem_singleton.1 mem
    exact .same rfl rfl (.inl rfl)
  all_goals exact step_of_coordinate .leave mem (fun _ => rfl) (fun _ => rfl) fun _ => rfl

/-- A blocking write waits for the permit of an attempt. -/
theorem step_of_enter {w : Write} {task : Task} (mem : (s', t') ∈ s.next handlers (.enter w task)) :
    Step s (.enter w task) s' t' := by
  cases task
  case permit | done =>
    cases List.mem_singleton.1 mem
    exact .same rfl rfl (.inl rfl)
  all_goals exact step_of_coordinate (.enter w) mem (fun _ => rfl) (fun _ => rfl) fun _ => rfl

theorem step_of_drop {w : Write} {next : After} {task : Task} (mem : (s', t') ∈ s.next handlers (.drop w next task)) :
    Step s (.drop w next task) s' t' := by
  cases task
  case done =>
    cases List.mem_singleton.1 mem
    cases next
    · exact .same rfl rfl (.inl rfl)
    · exact .same rfl rfl (.inl rfl)
    · exact .same rfl rfl (.inl rfl)
  all_goals
    refine step_of_coordinate (.drop w next) mem ?_ (fun _ => rfl) fun _ => rfl
    cases next <;> exact fun _ => rfl

theorem step_of_wait {w : Write} (mem : (s', t') ∈ s.next handlers (.wait w)) : Step s (.wait w) s' t' := by
  simp only [Server.next, List.mem_cons, List.not_mem_nil, or_false, Prod.mk.injEq] at mem
  rcases mem with ⟨rfl, rfl⟩ | ⟨rfl, rfl⟩
  · exact .same rfl rfl (.inl rfl)
  · exact .same rfl rfl (.inl rfl)

/-- A save begins, or an automatic one finds too little to save. -/
theorem step_of_begin {k : Kind} (mem : (s', t') ∈ s.next handlers (.begin k)) : Step s (.begin k) s' t' := by
  cases k with
  | save | bgsave =>
    cases List.mem_singleton.1 mem
    exact .same rfl rfl (.inl rfl)
  | auto =>
    simp only [Server.next, List.mem_cons] at mem
    rcases mem with same | mem
    · obtain ⟨rfl, rfl⟩ := Prod.mk.inj same
      exact .same rfl rfl (.inl rfl)
    · split at mem
      · cases mem
      · cases List.mem_singleton.1 mem
        exact .same rfl rfl (.inl rfl)

/-- A save in the background is the only one. -/
theorem step_of_swap {k : Kind} (mem : (s', t') ∈ s.next handlers (.swap k)) : Step s (.swap k) s' t' := by
  simp only [Server.next] at mem
  split at mem <;> cases List.mem_singleton.1 mem
  · exact .same rfl rfl (.inl rfl)
  · exact .silent _ _ rfl rfl (.inl rfl)

/-- `rdb_save_job` is taken only when it is free. -/
theorem step_of_lock {k : Kind} (mem : (s', t') ∈ s.next handlers (.lock k)) : Step s (.lock k) s' t' := by
  simp only [Server.next] at mem
  split at mem
  · cases List.mem_singleton.1 mem
    split
    · exact .same rfl rfl (.inl rfl)
    · exact .same rfl rfl (.inl rfl)
  · rename_i free
    have free := Bool.eq_false_iff.2 free
    rcases List.mem_cons.1 mem with same | mem
    · obtain ⟨rfl, rfl⟩ := Prod.mk.inj same
      exact .lock free rfl rfl rfl rfl
    · split at mem
      · cases List.mem_singleton.1 mem
        exact .lock free rfl rfl rfl rfl
      · cases mem

/-- A save waits until no write has a permit. -/
theorem step_of_quiesce {k : Kind} {task : Task} (mem : (s', t') ∈ s.next handlers (.quiesce k task)) :
    Step s (.quiesce k task) s' t' := by
  cases task
  case guard =>
    simp only [Server.next, List.mem_cons] at mem
    rcases mem with same | mem
    · obtain ⟨rfl, rfl⟩ := Prod.mk.inj same
      exact .same rfl rfl (.inl rfl)
    · split at mem
      · cases List.mem_singleton.1 mem
        exact .same rfl rfl (.inl rfl)
      · cases mem
  all_goals exact step_of_coordinate (.quiesce k) mem (fun _ => rfl) (fun _ => rfl) fun _ => rfl

/-- A shard is copied, or all are and the copy is kept as it is. -/
theorem step_of_snapshot {k : Kind} {read : Nat} {at_ : Cursor}
    (mem : (s', t') ∈ s.next handlers (.snapshot k read at_)) : Step s (.snapshot k read at_) s' t' := by
  cases at_ with
  | complete =>
    cases List.mem_singleton.1 mem
    exact .same rfl rfl (.inr rfl)
  | scan | copy =>
    cases List.mem_singleton.1 mem
    exact .copy k read _

theorem step_of_release {k : Kind} {read : Option Nat} {task : Task}
    (mem : (s', t') ∈ s.next handlers (.release k read task)) : Step s (.release k read task) s' t' := by
  cases task
  case done =>
    cases List.mem_singleton.1 mem
    cases read
    · exact .same rfl rfl (.inl rfl)
    · exact .same rfl rfl (.inr rfl)
  all_goals
    refine step_of_coordinate (.release k read) mem (fun _ => rfl) (fun _ => rfl) ?_
    cases read <;> exact fun _ => rfl

/-- What a full sync inserts is there already when the step fits. -/
theorem step_of_insert {entries : List (Fin l.dbCount × Bytes × Content)} (mem : (s', t') ∈ p.shared.next handlers (.insert entries))
    (fits : Fits p (.insert entries) s' t') : Step p.shared (.insert entries) s' t' := by
  cases entries with
  | nil =>
    cases List.mem_singleton.1 mem
    exact .same rfl rfl (.inl rfl)
  | cons first rest =>
    obtain ⟨db, key, c⟩ := first
    cases List.mem_singleton.1 mem
    rw [apply_same fits]
    exact .same rfl rfl (.inl rfl)

/-- **Every step is one of these.** -/
theorem step_of_next (mem : (s', t') ∈ p.shared.next handlers t) (fits : Fits p t s' t') :
    Step p.shared t s' t' := by
  cases t with
  | dispatch w => exact step_of_dispatch mem
  | acquire w task => exact step_of_acquire mem
  | handle w mode h changed => exact step_of_handle mem fits
  | count permit changed =>
    cases List.mem_singleton.1 mem
    have bounded : p.shared.dirtyKeys + 1 < 2 ^ 64 := fits
    rw [Nat.mod_eq_of_lt bounded]
    cases permit
    · exact .count rfl rfl rfl
    · exact .count rfl rfl rfl
  | leave task => exact step_of_leave mem
  | enter w task => exact step_of_enter mem
  | drop w next task => exact step_of_drop mem
  | wait w => exact step_of_wait mem
  | begin k => exact step_of_begin mem
  | swap k => exact step_of_swap mem
  | lock k => exact step_of_lock mem
  | giveUp =>
    cases List.mem_singleton.1 mem
    exact .silent _ _ rfl rfl (.inl rfl)
  | quiesce k task => exact step_of_quiesce mem
  | load k =>
    cases List.mem_singleton.1 mem
    exact .load k
  | snapshot k read at_ => exact step_of_snapshot mem
  | release k read task => exact step_of_release mem
  | write k read =>
    simp only [Server.next, List.mem_cons, List.not_mem_nil, or_false, Prod.mk.injEq] at mem
    rcases mem with ⟨rfl, rfl⟩ | ⟨rfl, rfl⟩
    · exact .write k read
    · exact .same rfl rfl (.inl rfl)
  | subtract k read =>
    cases List.mem_singleton.1 mem
    exact .subtract k read
  | clear k =>
    cases List.mem_singleton.1 mem
    exact .silent _ _ rfl rfl (.inl rfl)
  | unlock =>
    cases List.mem_singleton.1 mem
    exact .unlock
  | insert entries => exact step_of_insert mem fits
  | expire db key =>
    cases List.mem_singleton.1 mem
    exact .expire db key
  | done => cases mem

/-! ## The copy -/

/-- A shard that is empty has been copied; when all of a database are looked at, its copy begins or the next
database follows. -/
theorem Covers.scan {quiet : Prop} {read db shard : Nat} (h : Covers quiet s ⟨read, .scan db shard, false⟩) :
    Covers quiet (s.copyStep (.scan db shard)).1 ⟨read, (s.copyStep (.scan db shard)).2, false⟩ := by
  have same (still : quiet) (none : s.dirtyKeys = read) (i : Fin l.dbCount) (key : Bytes)
      (lt : unitOf i key < db * l.numShards + shard) : (s.captured i).entry key = (s.store i).entry key :=
    h.same still none i key (by simpa [Cursor.ahead] using lt)
  have blank (i : Fin l.dbCount) (key : Bytes) (le : db * l.numShards ≤ unitOf i key) :
      (s.captured i).entry key = none :=
    h.blank i key (by simpa [Cursor.blank] using le)
  have row : (db + 1) * l.numShards = db * l.numShards + l.numShards := Nat.succ_mul _ _
  unfold Server.copyStep
  dsimp only
  split_ifs with inside more bare
  · -- The shard is empty, and so is its part of the copy.
    refine ⟨h.read, ?_, ?_, nofun⟩
    · intro still none i key behind
      have behind : unitOf i key < db * l.numShards + (shard + 1) := by simpa [Cursor.ahead] using behind
      by_cases here : unitOf i key = db * l.numShards + shard
      · obtain ⟨is, place⟩ := (unitOf_eq more i key).1 here
        obtain rfl : i = ⟨db, inside⟩ := Fin.ext is
        rw [blank _ key (by omega)]
        exact (Entries.entry_of_bare bare place).symm
      · exact same still none i key (by omega)
    · exact fun i key le => blank i key (by simpa [Cursor.blank] using le)
  · refine ⟨h.read, ?_, ?_, nofun⟩
    · intro still none i key behind
      have behind : unitOf i key < db * l.numShards := by simpa [Cursor.ahead] using behind
      exact same still none i key (by omega)
    · intro i key le
      have le : db * l.numShards ≤ unitOf i key ∨ (db + 1) * l.numShards ≤ unitOf i key := by
        simpa [Cursor.blank] using le
      exact blank i key (by omega)
  · refine ⟨h.read, ?_, ?_, nofun⟩
    · intro still none i key behind
      have behind : unitOf i key < (db + 1) * l.numShards := by simpa [Cursor.ahead] using behind
      exact same still none i key (by omega)
    · intro i key le
      have le : (db + 1) * l.numShards ≤ unitOf i key := by simpa [Cursor.blank] using le
      exact blank i key (by omega)
  · -- All databases are copied.
    refine ⟨h.read, ?_, nofun, nofun⟩
    intro still none i key _
    refine same still none i key ?_
    have lt := unitOf_lt i key
    have rows : l.dbCount * l.numShards ≤ db * l.numShards := Nat.mul_le_mul_right _ (Nat.le_of_not_lt inside)
    omega

/-- A shard is copied under its lock, so the copy has what the store has at that moment. -/
theorem Covers.copy {quiet : Prop} {read db shard : Nat} (h : Covers quiet s ⟨read, .copy db shard, false⟩) :
    Covers quiet (s.copyStep (.copy db shard)).1 ⟨read, (s.copyStep (.copy db shard)).2, false⟩ := by
  have same (still : quiet) (none : s.dirtyKeys = read) (i : Fin l.dbCount) (key : Bytes)
      (lt : unitOf i key < db * l.numShards + shard) : (s.captured i).entry key = (s.store i).entry key :=
    h.same still none i key (by simpa [Cursor.ahead] using lt)
  have blank (i : Fin l.dbCount) (key : Bytes)
      (le : db * l.numShards + shard ≤ unitOf i key ∨ (db + 1) * l.numShards ≤ unitOf i key) :
      (s.captured i).entry key = none :=
    h.blank i key (by simpa [Cursor.blank] using le)
  have row : (db + 1) * l.numShards = db * l.numShards + l.numShards := Nat.succ_mul _ _
  unfold Server.copyStep
  dsimp only
  split_ifs with more
  · have taken (i : Fin l.dbCount) (key : Bytes) :
        (if i.val = db then ((s.store i).shard l shard).insertAll (s.captured i) else s.captured i).entry key =
          if unitOf i key = db * l.numShards + shard then ((s.store i).entry key).or ((s.captured i).entry key)
          else (s.captured i).entry key := by
      have here : unitOf i key = db * l.numShards + shard ↔ i.val = db ∧ shardOf l key = shard := unitOf_eq more i key
      by_cases is : i.val = db
      · rw [if_pos is, Entries.insertAll_entry, Entries.shard_entry]
        by_cases place : shardOf l key = shard
        · rw [if_pos (here.2 ⟨is, place⟩), if_pos place]
        · rw [if_neg fun unit => place (here.1 unit).2, if_neg place]
          rfl
      · rw [if_neg is, if_neg fun unit => is (here.1 unit).1]
    refine ⟨h.read, ?_, ?_, nofun⟩
    · intro still none i key behind
      have behind : unitOf i key < db * l.numShards + (shard + 1) := by simpa [Cursor.ahead] using behind
      dsimp only
      rw [taken]
      split
      · rename_i here
        rw [blank i key (by omega), Option.or_none]
      · exact same still none i key (by omega)
    · intro i key le
      have le : db * l.numShards + (shard + 1) ≤ unitOf i key ∨ (db + 1) * l.numShards ≤ unitOf i key := by
        simpa [Cursor.blank] using le
      dsimp only
      rw [taken, if_neg (by omega)]
      exact blank i key (by omega)
  · refine ⟨h.read, ?_, ?_, nofun⟩
    · intro still none i key behind
      have behind : unitOf i key < (db + 1) * l.numShards := by simpa [Cursor.ahead] using behind
      exact same still none i key (by omega)
    · intro i key le
      exact blank i key (.inr (by simpa [Cursor.blank] using le))

theorem Covers.copyStep {quiet : Prop} {read : Nat} {at_ : Cursor} (h : Covers quiet s ⟨read, at_, false⟩) :
    Covers quiet (s.copyStep at_).1 ⟨read, (s.copyStep at_).2, false⟩ := by
  cases at_ with
  | scan db shard => exact h.scan
  | copy db shard => exact h.copy
  | complete => exact h

@[simp] theorem copyStep_store (s : Server l) (at_ : Cursor) : (s.copyStep at_).1.store = s.store := by
  cases at_ <;> simp only [Server.copyStep] <;> split_ifs <;> rfl

@[simp] theorem copyStep_saved (s : Server l) (at_ : Cursor) : (s.copyStep at_).1.saved = s.saved := by
  cases at_ <;> simp only [Server.copyStep] <;> split_ifs <;> rfl

@[simp] theorem copyStep_dirtyKeys (s : Server l) (at_ : Cursor) : (s.copyStep at_).1.dirtyKeys = s.dirtyKeys := by
  cases at_ <;> simp only [Server.copyStep] <;> split_ifs <;> rfl

@[simp] theorem copyStep_rdbSaveJob (s : Server l) (at_ : Cursor) : (s.copyStep at_).1.rdbSaveJob = s.rdbSaveJob := by
  cases at_ <;> simp only [Server.copyStep] <;> split_ifs <;> rfl

/-- What is dropped from the store is dropped from the copy. -/
theorem Covers.expire {quiet : Prop} {g : Progress} (h : Covers quiet s g) (db : Fin l.dbCount) (key : Bytes) :
    Covers quiet (s.expire db key) g where
  read := h.read
  same still none i other behind := by
    change (Change.apply _ s.captured i).entry other = (Change.apply _ s.store i).entry other
    rw [apply_entry, apply_entry, h.same still none i other behind]
  blank i other blank := by
    change (Change.apply _ s.captured i).entry other = none
    rw [apply_entry, h.blank i other blank]
    split <;> rfl
  written done := by
    change Change.apply _ s.saved = Change.apply _ s.captured
    rw [h.written done]

theorem Covers.complete {quiet : Prop} {written : Bool} {read : Nat} (h : Covers quiet s ⟨read, .complete, written⟩)
    (still : quiet) (none : s.dirtyKeys = read) : s.captured = s.store := by
  funext db
  exact Entries.ext fun key => h.same still none db key rfl

/-! ## The invariant -/

section
variable {before after : List (Phase l H)}

theorem Inv.alone (h : Inv ⟨s, before ++ t :: after⟩) (job : t.holdsJob = true) :
    ∀ x ∈ before ++ after, x.progress = none := by
  intro x mem
  have counted := h.job
  rw [Pool.count_cut, job] at counted
  have most : s.rdbSaveJob.toNat ≤ 1 := Bool.toNat_le _
  have none : (before ++ after).countP Phase.holdsJob = 0 := by
    simp only [Bool.toNat_true] at counted
    omega
  exact Phase.progress_eq_none (Bool.eq_false_iff.2 (List.countP_eq_zero.1 none x mem))

/-- A step, from what it does to the task and to the copies of the others. -/
theorem Inv.of_step (h : Inv ⟨s, before ++ t :: after⟩)
    (job : (Pool.mk s' (before ++ t' :: after)).count Phase.holdsJob = s'.rdbSaveJob.toNat)
    (sound : (before ++ after).countP Phase.uncounted + t'.uncounted.toNat = 0 → s'.dirtyKeys = 0 → s'.store = s'.saved)
    (others : ∀ x ∈ before ++ after, ∀ g, x.progress = some g →
      Covers ((before ++ after).countP Phase.uncounted + t.uncounted.toNat = 0) s g →
      Covers ((before ++ after).countP Phase.uncounted + t'.uncounted.toNat = 0) s' g)
    (own : ∀ g, t'.progress = some g →
      Covers ((before ++ after).countP Phase.uncounted + t'.uncounted.toNat = 0) s' g) :
    Inv ⟨s', before ++ t' :: after⟩ := by
  refine ⟨job, ?_, ?_⟩
  · rw [Pool.count_cut]
    exact sound
  · rw [Pool.count_cut]
    intro x mem g progress
    rcases List.mem_append.1 mem with left | right
    · have covers := h.covers x (List.mem_append_left _ left) g progress
      rw [Pool.count_cut] at covers
      exact others x (List.mem_append_left _ left) g progress covers
    · rcases List.mem_cons.1 right with rfl | right
      · exact own g progress
      · have covers := h.covers x (List.mem_append_right _ (List.mem_cons_of_mem _ right)) g progress
        rw [Pool.count_cut] at covers
        exact others x (List.mem_append_right _ right) g progress covers

theorem Inv.own (h : Inv ⟨s, before ++ t :: after⟩) {g : Progress} (progress : t.progress = some g) :
    Covers ((before ++ after).countP Phase.uncounted + t.uncounted.toNat = 0) s g := by
  have covers := h.covers t (by simp) g progress
  rw [Pool.count_cut] at covers
  exact covers

theorem Inv.count_job (h : Inv ⟨s, before ++ t :: after⟩) :
    (before ++ after).countP Phase.holdsJob + t.holdsJob.toNat = s.rdbSaveJob.toNat := by
  rw [← Pool.count_cut]
  exact h.job

/-- A counter at zero is right, the task included. -/
theorem Inv.sound_cut (h : Inv ⟨s, before ++ t :: after⟩)
    (still : (before ++ after).countP Phase.uncounted + t.uncounted.toNat = 0) (none : s.dirtyKeys = 0) :
    s.store = s.saved :=
  h.sound (by rw [Pool.count_cut]; exact still) none

theorem Inv.silent (h : Inv ⟨s, before ++ t :: after⟩) (c : Coordinator) (flag : Bool)
    (uncounted : t'.uncounted = t.uncounted) (job : t'.holdsJob = t.holdsJob)
    (progress : t'.progress = none ∨ t'.progress = t.progress) :
    Inv ⟨{ s with coordinator := c, bgsaveInProgress := flag }, before ++ t' :: after⟩ := by
  refine h.of_step ?_ ?_ ?_ ?_
  · rw [Pool.count_cut, job]
    exact h.count_job
  · rw [uncounted]
    exact h.sound_cut
  · intro x _ g _ covers
    rw [uncounted]
    exact ⟨covers.read, covers.same, covers.blank, covers.written⟩
  · intro g here
    have before : t.progress = some g := by
      rcases progress with none | same
      · rw [none] at here
        cases here
      · exact same ▸ here
    have covers := h.own before
    rw [uncounted]
    exact ⟨covers.read, covers.same, covers.blank, covers.written⟩

/-- A change that is still to be counted makes no copy worth less than it promised. -/
theorem Inv.change (h : Inv ⟨s, before ++ t :: after⟩) (store : Keyspaces l) (uncounted : t'.uncounted = true)
    (free : t.holdsJob = false) (free' : t'.holdsJob = false) :
    Inv ⟨{ s with store }, before ++ t' :: after⟩ := by
  have job := h.count_job
  refine h.of_step ?_ ?_ ?_ ?_
  · rw [Pool.count_cut, free']
    rwa [free] at job
  · rw [uncounted]
    intro none
    cases none
  · intro x _ g _ covers
    rw [uncounted]
    exact ⟨covers.read, nofun, covers.blank, covers.written⟩
  · intro g here
    rw [Phase.progress_eq_none free'] at here
    cases here

/-- Once something is counted, the counter is above what any save has read. -/
theorem Inv.count (h : Inv ⟨s, before ++ t :: after⟩) (free : t.holdsJob = false) (free' : t'.holdsJob = false) :
    Inv ⟨{ s with dirtyKeys := s.dirtyKeys + 1 }, before ++ t' :: after⟩ := by
  have job := h.count_job
  refine h.of_step ?_ nofun ?_ ?_
  · rw [Pool.count_cut, free']
    rwa [free] at job
  · intro x _ g _ covers
    have read : g.read ≤ s.dirtyKeys := covers.read
    refine ⟨Nat.le_succ_of_le read, fun _ same => ?_, covers.blank, covers.written⟩
    dsimp only at same
    omega
  · intro g here
    rw [Phase.progress_eq_none free'] at here
    cases here

theorem Inv.lock (h : Inv ⟨s, before ++ t :: after⟩) (free : s.rdbSaveJob = false)
    (uncounted : t'.uncounted = t.uncounted) (free' : t.holdsJob = false) (holds : t'.holdsJob = true)
    (progress : t'.progress = none) : Inv ⟨{ s with rdbSaveJob := true }, before ++ t' :: after⟩ := by
  have job := h.count_job
  refine h.of_step ?_ ?_ ?_ ?_
  · rw [Pool.count_cut, holds]
    rw [free', free] at job
    simpa using job
  · rw [uncounted]
    exact h.sound_cut
  · intro x _ g _ covers
    rw [uncounted]
    exact ⟨covers.read, covers.same, covers.blank, covers.written⟩
  · intro g here
    rw [progress] at here
    cases here

/-- What holds of a step of the task that has `rdb_save_job`: no other has a copy. -/
theorem Inv.of_job (h : Inv ⟨s, before ++ t :: after⟩) (holds : t.holdsJob = true)
    (job : (Pool.mk s' (before ++ t' :: after)).count Phase.holdsJob = s'.rdbSaveJob.toNat)
    (sound : (before ++ after).countP Phase.uncounted + t'.uncounted.toNat = 0 → s'.dirtyKeys = 0 → s'.store = s'.saved)
    (own : ∀ g, t'.progress = some g →
      Covers ((before ++ after).countP Phase.uncounted + t'.uncounted.toNat = 0) s' g) :
    Inv ⟨s', before ++ t' :: after⟩ := by
  refine h.of_step job sound ?_ own
  intro x mem g here
  rw [h.alone holds x mem] at here
  cases here

/-- The counter is read before anything is copied. -/
theorem Inv.load {k : Kind} (h : Inv ⟨s, before ++ .load k :: after⟩) :
    Inv ⟨{ s with captured := fun _ => .empty }, before ++ .snapshot k s.dirtyKeys (.scan 0 0) :: after⟩ := by
  refine h.of_job rfl ?_ h.sound_cut ?_
  · rw [Pool.count_cut]
    exact h.count_job
  · rintro g ⟨rfl⟩
    refine ⟨le_rfl, fun _ _ db key behind => ?_, fun _ _ _ => rfl, nofun⟩
    simp [Cursor.ahead] at behind

theorem Inv.copy {k : Kind} {read : Nat} {at_ : Cursor} (h : Inv ⟨s, before ++ .snapshot k read at_ :: after⟩) :
    Inv ⟨(s.copyStep at_).1, before ++ .snapshot k read (s.copyStep at_).2 :: after⟩ := by
  have covers := (h.own rfl).copyStep
  refine h.of_job rfl ?_ ?_ ?_
  · rw [Pool.count_cut, copyStep_rdbSaveJob]
    exact h.count_job
  · rw [copyStep_dirtyKeys, copyStep_store, copyStep_saved]
    exact h.sound_cut
  · rintro g ⟨rfl⟩
    exact covers

/-- With the counter at zero, and nothing still to be counted, the copy that is written is the store. -/
theorem Inv.write {k : Kind} {read : Nat} (h : Inv ⟨s, before ++ .write k read :: after⟩) :
    Inv ⟨{ s with saved := s.captured }, before ++ .subtract k read :: after⟩ := by
  have covers := h.own rfl
  refine h.of_job rfl ?_ ?_ ?_
  · rw [Pool.count_cut]
    exact h.count_job
  · intro still none
    have least : read ≤ s.dirtyKeys := covers.read
    have none : s.dirtyKeys = 0 := none
    exact (covers.complete still (by omega)).symm
  · rintro g ⟨rfl⟩
    exact ⟨covers.read, covers.same, covers.blank, fun _ => rfl⟩

/-- If nothing is left when what the save has read is taken off, nothing was counted since. -/
theorem Inv.subtract {k : Kind} {read : Nat} (h : Inv ⟨s, before ++ .subtract k read :: after⟩) :
    Inv ⟨{ s with dirtyKeys := s.dirtyKeys - read }, before ++ .clear k :: after⟩ := by
  have covers := h.own rfl
  refine h.of_job rfl ?_ ?_ nofun
  · rw [Pool.count_cut]
    exact h.count_job
  · intro still none
    have least : read ≤ s.dirtyKeys := covers.read
    have none : s.dirtyKeys - read = 0 := none
    change s.store = s.saved
    rw [covers.written rfl, covers.complete still (by omega)]

theorem Inv.unlock (h : Inv ⟨s, before ++ (.unlock : Phase l H) :: after⟩) :
    Inv ⟨{ s with rdbSaveJob := false }, before ++ .done :: after⟩ := by
  have job := h.count_job
  refine h.of_job rfl ?_ h.sound_cut nofun
  rw [Pool.count_cut]
  have most : s.rdbSaveJob.toNat ≤ 1 := Bool.toNat_le _
  simp only [Phase.holdsJob, Bool.toNat_true, Bool.toNat_false] at job ⊢
  omega

/-- Expiry and eviction take the key out of the store, the copy and what stands for the file alike: they are not to
be counted. -/
theorem Inv.expire {db : Fin l.dbCount} {key : Bytes} (h : Inv ⟨s, before ++ (.expire db key : Phase l H) :: after⟩) :
    Inv ⟨s.expire db key, before ++ .done :: after⟩ := by
  refine h.of_step ?_ ?_ ?_ nofun
  · rw [Pool.count_cut]
    exact h.count_job
  · intro still none
    change Change.apply _ s.store = Change.apply _ s.saved
    rw [h.sound_cut still none]
  · intro x _ g _ covers
    exact covers.expire db key

/-- **Every step keeps the invariant**, one case for each kind. -/
theorem Inv.step (h : Inv ⟨s, before ++ t :: after⟩) (step : Step s t s' t') : Inv ⟨s', before ++ t' :: after⟩ := by
  cases step with
  | silent c flag uncounted job progress => exact h.silent c flag uncounted job progress
  | change store uncounted free free' => exact h.change store uncounted free free'
  | count counted free free' => exact h.count free free'
  | lock free uncounted free' holds progress => exact h.lock free uncounted free' holds progress
  | load k => exact h.load
  | copy k read at_ => exact h.copy
  | write k read => exact h.write
  | subtract k read => exact h.subtract
  | unlock => exact h.unlock
  | expire db key => exact h.expire

theorem Inv.spawn {tasks : List (Phase l H)} (h : Inv ⟨s, tasks⟩) (begins : t.entry = true) : Inv ⟨s, tasks ++ [t]⟩ := by
  have free : t.holdsJob = false ∧ t.uncounted = false := by
    cases t <;> first | exact ⟨rfl, rfl⟩ | cases begins
  have job := h.job
  have sound := h.sound
  have covers := h.covers
  refine ⟨?_, ?_, ?_⟩
  · rw [Pool.count_start, free.1]
    exact job
  · rw [Pool.count_start, free.2]
    exact sound
  · rw [Pool.count_start, free.2]
    intro x mem g here
    rcases List.mem_append.1 mem with old | new
    · exact covers x old g here
    · obtain rfl := List.mem_singleton.1 new
      rw [Phase.progress_eq_none free.1] at here
      cases here

theorem Inv.isSound (h : Inv p) : Sound p := by
  intro still differs
  by_contra none
  exact differs (h.sound still (by omega))

end

/-- **What is not in the last file is in the counter**, in every schedule whose steps fit. -/
theorem dirty_sound {store : Keyspaces l} {turns : List (Interleave.Turn (Phase l H))}
    (meets : Always (Pool.advance (Server.next handlers) Phase.entry)
      (fun t p => p.Meets (Server.next handlers) Fits t) turns ⟨.start store, []⟩) :
    Sound (run (Pool.advance (Server.next handlers) Phase.entry) turns ⟨.start store, []⟩) := by
  have kept := advance_invariant (P := Inv) meets ?_ Inv.spawn fun h mem fits => h.step (step_of_next mem fits)
  · exact kept.isSound
  · exact ⟨rfl, fun _ _ => rfl, nofun⟩

end

/-! ## A full sync is not counted -/

/-- One database with one shard. -/
def oneShard : Layout := ⟨1, 1, Nat.one_pos⟩

/-- SET of a key in the one database. -/
def onlySet : Handlers oneShard Write where
  start w := w
  access w _ :=
    match w.args with
    | [_, .bulkString (some key), .bulkString (some v)] =>
      [(some ⟨⟨0, by decide⟩, key, some (.string v, none)⟩, .inr .reply)]
    | _ => [(none, .inr .error)]

/-- SET k v. -/
def setKey : Write :=
  ⟨0, "SET", [.bulkString (some (Utf8.asBytes "SET")), .bulkString (some [107]), .bulkString (some [118])]⟩

/-- SET of another key. -/
def setOther : Write :=
  ⟨1, "SET", [.bulkString (some (Utf8.asBytes "SET")), .bulkString (some [108]), .bulkString (some [119])]⟩

/-- A SET that is counted and a SAVE that takes it off again; another SET gets its permit when the copy is complete, and
is counted before that. -/
def setAndSave : List (Interleave.Turn (Phase oneShard Write)) :=
  .start (.dispatch setKey) :: .step 0 1 :: List.replicate 9 (.step 0 0) ++
    .start (.begin .save) :: List.replicate 14 (.step 1 0) ++
    .start (.dispatch setOther) :: .step 2 1 :: List.replicate 9 (.step 2 0) ++ List.replicate 6 (.step 1 0)

/-- The second SET is not in the file, and the counter says so. -/
theorem dirty_sound_set :
    Sound (run (Pool.advance (Server.next onlySet) Phase.entry) setAndSave ⟨.start fun _ => .empty, []⟩) ∧
      (run (Pool.advance (Server.next onlySet) Phase.entry) setAndSave ⟨.start fun _ => .empty, []⟩).shared.dirtyKeys = 1 := by
  refine ⟨dirty_sound ?_, by decide +kernel⟩
  repeat' apply And.intro
  all_goals try trivial
  all_goals
    intro t s' t' task chosen
    cases task
    cases chosen
    first | exact trivial | exact (by decide : 0 + 1 < 2 ^ 64) | exact (by decide : 1 + 1 < 2 ^ 64)

/-- A replica loads a key in a full sync. -/
theorem sync_uncounted :
    ¬ ∀ (turns : List (Interleave.Turn (Phase oneShard Write))) (store : Keyspaces oneShard),
      Sound (run (Pool.advance (Server.next onlySet) Phase.entry) turns ⟨.start store, []⟩) := by
  intro sound
  have counted := sound [.start (.insert [(⟨0, by decide⟩, [107], (.string [118], none))]), .step 0 0]
    (fun _ => .empty) (by decide) ?_
  · revert counted
    decide
  · intro same
    have entry := congrArg (fun k : Keyspaces oneShard => ((k ⟨0, by decide⟩).entry [107]).isSome) same
    revert entry
    decide

end Saving

end NexradeCache
