import NexradeCache.Persistence.Aof

/-!
# What a rewrite of the append-only file keeps

BGREWRITEAOF is to lose nothing and to double nothing: at rest the file replays to the
keyspace, each acknowledged write is in the file once, and no client is told of an error of the file.
The guard of the coordinator gives that for writes that hold a permit until they have appended. For the
others `Fits` says what must not happen: a blocking write that is between its mutation and its append
when the writer is taken, or one that mutates or times out without a permit while the writer is out.
The rest of `Fits` is about the log as such: a command must do what its replay does, an append must not
overtake one it does not commute with, and the rewritten commands must stand for the keyspace.
-/

namespace NexradeCache

open Interleave Replay Trace

namespace Persistence

variable {K : Type}

/-! ## What the file stands for -/

/-- The file, replayed into an empty store. -/
def Aof.replayed (cmds : Commands K) (s : Aof K) : K := all cmds.replay (s.file.map Appended.write) cmds.empty

/-- The mutations that are in the file, by their effect or as a command. -/
def Aof.represented (s : Aof K) : List Nat := s.base ++ s.file.filterMap Appended.origin

/-- A server that has loaded its file. -/
def Aof.start (cmds : Commands K) (file : List Write) : Aof K where
  coordinator := .new
  store := all cmds.replay file cmds.empty
  writer := true
  file := file.map (Appended.mk none)
  aofFailed := false
  rewriteInProgress := false
  mutations := 0
  pending := []
  base := []
  acknowledged := []

/-- Nothing is left to do. -/
def Phase.finished : Phase K → Bool
  | .answered _ => true
  | .done => true
  | _ => false

/-- Nothing is lost or doubled, and no client is told of an error of the file. -/
structure Kept (cmds : Commands K) (p : Pool (Aof K) (Phase K)) : Prop where
  keyspace : (∀ l ∈ p.tasks, l.finished = true) → p.shared.replayed cmds = p.shared.store
  once : (∀ l ∈ p.tasks, l.finished = true) → ∀ id ∈ p.shared.acknowledged, p.shared.represented.count id = 1
  failed : p.shared.aofFailed = false
  answers : ∀ a, .answered a ∈ p.tasks → a.aofError = false

/-! ## What must not happen -/

/-- The writer is out of its slot. -/
def Phase.isRewriting : Phase K → Bool
  | .snapshot | .rewrite _ _ | .reopen => true
  | _ => false

/-- The write has been applied and is appended without a permit. -/
def Phase.isAppending : Phase K → Bool
  | .append _ _ | .drop _ (.append _) _ => true
  | _ => false

/-- What goes to the file is what its replay does, and what does not go there changes nothing. -/
def Aof.Follows (cmds : Commands K) (s s' : Aof K) (w : Write) : Prop :=
  s'.store = if s'.mutations = s.mutations then s.store else cmds.replay w s.store

/-- The condition of a step, on the state before it. -/
def Fits (cmds : Commands K) (p : Pool (Aof K) (Phase K)) (l : Phase K) (s' : Aof K) (_ : Phase K) : Prop :=
  match l with
  | .acquire w .permit | .enter w .permit => p.shared.Follows cmds s' w
  | .fast w | .wait w =>
    p.shared.Follows cmds s' w ∧ (s'.mutations ≠ p.shared.mutations → p.count Phase.isRewriting = 0)
  | .commit w id | .append w id => InOrder cmds.replay p.shared.pending ⟨id, w⟩
  | .quiesce .guard => p.count Phase.isAppending = 0
  | .rewrite dbs _ => all cmds.replay (cmds.rewrite dbs) cmds.empty = dbs
  | _ => True

/-! ## What a step can do -/

/-- The mutation a task has on its way to the file. -/
def Phase.pending : Phase K → Option (Pending Write)
  | .commit w id | .append w id | .drop w (.append id) _ => some ⟨id, w⟩
  | _ => none

/-- The task is about to tell a client of an error of the file. -/
def Phase.aofError : Phase K → Bool
  | .answered a | .leave a _ | .drop _ (.answer a) _ => a.aofError
  | _ => false

/-- What a step can do, one constructor for each kind. -/
inductive Step (cmds : Commands K) (p : Pool (Aof K) (Phase K)) : Phase K → Aof K → Phase K → Prop where
  | silent {l l' : Phase K} (c : Coordinator) (flag : Bool) (pending : l'.pending = l.pending)
      (rewriting : l'.isRewriting = l.isRewriting) (other : ∀ dbs n, l' ≠ .rewrite dbs n)
      (error : l.aofError = false → p.shared.aofFailed = false → l'.aofError = false) :
      Step cmds p l { p.shared with coordinator := c, rewriteInProgress := flag } l'
  | mutate {l l' : Phase K} (w : Write) (none : l.pending = none) (pending : l'.pending = some ⟨p.shared.mutations, w⟩)
      (before : l.isRewriting = false) (after : l'.isRewriting = false) (error : l'.aofError = false)
      (free : l.task = .permit ∨ p.count Phase.isRewriting = 0) :
      Step cmds p l (p.shared.mutate w (cmds.replay w p.shared.store)) l'
  | append {l l' : Phase K} (w : Write) (id : Nat) (pending : l.pending = some ⟨id, w⟩) (none : l'.pending = none)
      (before : l.isRewriting = false) (after : l'.isRewriting = false)
      (error : l'.aofError = (p.shared.append w id).2.aofError) (order : InOrder cmds.replay p.shared.pending ⟨id, w⟩) :
      Step cmds p l (p.shared.append w id).1 l'
  | take (none : p.count Phase.isAppending = 0) : Step cmds p (.quiesce .guard) { p.shared with writer := false } .snapshot
  | snapshot : Step cmds p .snapshot p.shared (.rewrite p.shared.store p.shared.mutations)
  | rewrite (dbs : K) (n : Nat) (same : all cmds.replay (cmds.rewrite dbs) cmds.empty = dbs) :
      Step cmds p (.rewrite dbs n)
        { p.shared with file := (cmds.rewrite dbs).map (Appended.mk none), base := List.range n } .reopen
  | reopen : Step cmds p .reopen { p.shared with writer := true } .finish

section
variable {cmds : Commands K} {p : Pool (Aof K) (Phase K)} {l l' : Phase K} {s s' : Aof K}

theorem mem_coordinate {t : Task} {phase : Task → Phase K} (mem : (s', l') ∈ s.coordinate t phase) :
    ∃ c t', (c, t') ∈ Persistence.next s.coordinator t ∧ s' = { s with coordinator := c } ∧ l' = phase t' := by
  obtain ⟨⟨c, t'⟩, step, same⟩ := List.mem_map.1 mem
  obtain ⟨rfl, rfl⟩ := Prod.mk.inj same
  exact ⟨c, t', step, rfl, rfl⟩

/-- What an attempt of a blocking handler comes to. -/
theorem mem_attempt {w : Write} {after : After} (mem : (s', after) ∈ s.attempt cmds w)
    (follows : s.Follows cmds s' w) :
    (s' = s.mutate w (cmds.replay w s.store) ∧ after = .append s.mutations) ∨
      (s' = s ∧ (after = .answer .error ∨ after = .wait)) := by
  obtain ⟨⟨store, outcome⟩, -, same⟩ := List.mem_map.1 mem
  cases outcome with
  | reply =>
    obtain ⟨rfl, rfl⟩ := Prod.mk.inj same
    have store : store = cmds.replay w s.store := by simpa [Aof.Follows, Aof.mutate] using follows
    exact .inl ⟨by rw [store], rfl⟩
  | error =>
    obtain ⟨rfl, rfl⟩ := Prod.mk.inj same
    have store : store = s.store := by simpa [Aof.Follows] using follows
    exact .inr ⟨by rw [store], .inl rfl⟩
  | nothing =>
    obtain ⟨rfl, rfl⟩ := Prod.mk.inj same
    have store : store = s.store := by simpa [Aof.Follows] using follows
    exact .inr ⟨by rw [store], .inr rfl⟩

theorem step_coordinate {t : Task} {phase : Task → Phase K} (mem : (s', l') ∈ p.shared.coordinate t phase)
    (pending : ∀ t', (phase t').pending = (phase t).pending)
    (rewriting : ∀ t', (phase t').isRewriting = (phase t).isRewriting) (other : ∀ t' dbs n, phase t' ≠ .rewrite dbs n)
    (error : ∀ t', (phase t').aofError = (phase t).aofError) : Step cmds p (phase t) s' l' := by
  obtain ⟨c, t', -, rfl, rfl⟩ := mem_coordinate mem
  exact .silent c p.shared.rewriteInProgress (pending t') (rewriting t') (other t') fun none _ => (error t').trans none

theorem Step.same (pending : l'.pending = l.pending) (rewriting : l'.isRewriting = l.isRewriting)
    (other : ∀ dbs n, l' ≠ .rewrite dbs n)
    (error : l.aofError = false → p.shared.aofFailed = false → l'.aofError = false) : Step cmds p l p.shared l' :=
  .silent p.shared.coordinator p.shared.rewriteInProgress pending rewriting other error

/-- A write asks for its permit, or is a blocking one. -/
theorem step_of_dispatch {w : Write} (mem : (s', l') ∈ Aof.next cmds p.shared (.dispatch w)) :
    Step cmds p (.dispatch w) s' l' := by
  simp only [Aof.next] at mem
  split at mem
  · rename_i failed
    cases List.mem_singleton.1 mem
    refine .same rfl rfl (by simp) fun _ ok => ?_
    rw [failed] at ok
    cases ok
  · split at mem
    · cases List.mem_singleton.1 mem
      exact .same rfl rfl (by simp) fun _ _ => rfl
    · split at mem <;> cases List.mem_singleton.1 mem
      · exact .same rfl rfl (by simp) fun _ _ => rfl
      · exact .same rfl rfl (by simp) fun _ _ => rfl

theorem step_of_acquired {w : Write} (mem : (s', l') ∈ Aof.next cmds p.shared (.acquire w .permit))
    (follows : p.shared.Follows cmds s' w) : Step cmds p (.acquire w .permit) s' l' := by
  obtain ⟨⟨store, outcome⟩, -, same⟩ := List.mem_map.1 mem
  have unchanged (eq : ({ p.shared with store }, .leave .error .permit) = (s', l')) :
      Step cmds p (.acquire w .permit) s' l' := by
    obtain ⟨rfl, rfl⟩ := Prod.mk.inj eq
    have store : store = p.shared.store := by simpa [Aof.Follows] using follows
    rw [store]
    exact .same rfl rfl (by simp) fun _ _ => rfl
  cases outcome with
  | reply =>
    obtain ⟨rfl, rfl⟩ := Prod.mk.inj same
    have store : store = cmds.replay w p.shared.store := by simpa [Aof.Follows, Aof.mutate] using follows
    rw [store]
    exact .mutate w rfl rfl rfl rfl rfl (.inl rfl)
  | error => exact unchanged same
  | nothing => exact unchanged same

/-- The first attempt of a blocking write, without a permit. -/
theorem step_of_fast {w : Write} (mem : (s', l') ∈ Aof.next cmds p.shared (.fast w))
    (follows : p.shared.Follows cmds s' w)
    (free : s'.mutations ≠ p.shared.mutations → p.count Phase.isRewriting = 0) : Step cmds p (.fast w) s' l' := by
  obtain ⟨⟨s'', after⟩, tried, same⟩ := List.mem_map.1 mem
  obtain ⟨rfl, rfl⟩ := Prod.mk.inj same
  rcases mem_attempt tried follows with ⟨rfl, rfl⟩ | ⟨rfl, rfl | rfl⟩
  · exact .mutate w rfl rfl rfl rfl rfl (.inr (free (by simp [Aof.mutate])))
  · exact .same rfl rfl (by simp [After.phase]) fun _ _ => rfl
  · exact .same rfl rfl (by simp) fun _ _ => rfl

/-- A blocking write that has its permit is applied. -/
theorem step_of_entered {w : Write} (mem : (s', l') ∈ Aof.next cmds p.shared (.enter w .permit))
    (follows : p.shared.Follows cmds s' w) : Step cmds p (.enter w .permit) s' l' := by
  obtain ⟨⟨s'', after⟩, tried, same⟩ := List.mem_map.1 mem
  obtain ⟨rfl, rfl⟩ := Prod.mk.inj same
  rcases mem_attempt tried follows with ⟨rfl, rfl⟩ | ⟨rfl, rfl | rfl⟩
  · exact .mutate w rfl rfl rfl rfl rfl (.inl rfl)
  · exact .same rfl rfl (by simp) fun _ _ => rfl
  · exact .same rfl rfl (by simp) fun _ _ => rfl

theorem step_of_wait {w : Write} (mem : (s', l') ∈ Aof.next cmds p.shared (.wait w))
    (follows : p.shared.Follows cmds s' w)
    (free : s'.mutations ≠ p.shared.mutations → p.count Phase.isRewriting = 0) : Step cmds p (.wait w) s' l' := by
  simp only [Aof.next, List.mem_cons, List.not_mem_nil, or_false] at mem
  rcases mem with woken | timeout
  · obtain ⟨rfl, rfl⟩ := Prod.mk.inj woken
    exact .same rfl rfl (by simp) fun _ _ => rfl
  · obtain ⟨rfl, rfl⟩ := Prod.mk.inj timeout
    have store : p.shared.store = cmds.replay w p.shared.store := by simpa [Aof.Follows, Aof.mutate] using follows
    rw [store]
    exact .mutate w rfl rfl rfl rfl rfl (.inr (free (by simp [Aof.mutate])))

theorem step_of_dropped {w : Write} {after : After} : Step cmds p (.drop w after .done) p.shared (after.phase w) := by
  cases after with
  | wait => exact .same rfl rfl (by simp [After.phase]) fun _ _ => rfl
  | append id => exact .same rfl rfl (by simp [After.phase]) fun _ _ => rfl
  | answer a => exact .same rfl rfl (by simp [After.phase]) fun none _ => none

/-- **Every step is one of these.** -/
theorem step_of_next (mem : (s', l') ∈ Aof.next cmds p.shared l) (fits : Fits cmds p l s' l') :
    Step cmds p l s' l' := by
  cases l with
  | dispatch w => exact step_of_dispatch mem
  | acquire w t =>
    cases t with
    | permit => exact step_of_acquired mem fits
    | done =>
      cases List.mem_singleton.1 mem
      exact .same rfl rfl (by simp) fun _ _ => rfl
    | _ => exact step_coordinate mem (fun _ => rfl) (fun _ => rfl) (by simp) fun _ => rfl
  | commit w id =>
    cases List.mem_singleton.1 mem
    exact .append w id rfl rfl rfl rfl rfl fits
  | leave a t =>
    cases t with
    | done =>
      cases List.mem_singleton.1 mem
      exact .same rfl rfl (by simp) fun none _ => none
    | _ => exact step_coordinate mem (fun _ => rfl) (fun _ => rfl) (by simp) fun _ => rfl
  | fast w => exact step_of_fast mem fits.1 fits.2
  | enter w t =>
    cases t with
    | permit => exact step_of_entered mem fits
    | done =>
      cases List.mem_singleton.1 mem
      exact .same rfl rfl (by simp) fun _ _ => rfl
    | _ => exact step_coordinate mem (fun _ => rfl) (fun _ => rfl) (by simp) fun _ => rfl
  | drop w after t =>
    cases t with
    | done =>
      cases List.mem_singleton.1 mem
      exact step_of_dropped
    | _ =>
      refine step_coordinate mem (fun _ => ?_) (fun _ => rfl) (by simp) fun _ => ?_ <;> cases after <;> rfl
  | wait w => exact step_of_wait mem fits.1 fits.2
  | append w id =>
    cases List.mem_singleton.1 mem
    exact .append w id rfl rfl rfl rfl rfl fits
  | answered a => cases mem
  | swap =>
    simp only [Aof.next] at mem
    split at mem <;> cases List.mem_singleton.1 mem
    · exact .same rfl rfl (by simp) fun _ _ => rfl
    · exact .silent p.shared.coordinator true rfl rfl (by simp) fun _ _ => rfl
  | quiesce t =>
    cases t with
    | guard =>
      cases List.mem_singleton.1 mem
      exact .take fits
    | _ => exact step_coordinate mem (fun _ => rfl) (fun _ => rfl) (by simp) fun _ => rfl
  | snapshot =>
    cases List.mem_singleton.1 mem
    exact .snapshot
  | rewrite dbs n =>
    cases List.mem_singleton.1 mem
    exact .rewrite dbs n fits
  | reopen =>
    cases List.mem_singleton.1 mem
    exact .reopen
  | finish =>
    cases List.mem_singleton.1 mem
    exact .silent p.shared.coordinator false rfl rfl (by simp) fun _ _ => rfl
  | release t =>
    cases t with
    | done =>
      cases List.mem_singleton.1 mem
      exact .same rfl rfl (by simp) fun _ _ => rfl
    | _ => exact step_coordinate mem (fun _ => rfl) (fun _ => rfl) (by simp) fun _ => rfl
  | done => cases mem

/-! ## The coordinator in it -/

/-- A task takes a step of its call of the coordinator, or it stays where it is counted. -/
def Coordinated (s s' : Aof K) (l l' : Phase K) : Prop :=
  (s'.coordinator, l'.task) ∈ Persistence.next s.coordinator l.task ∨
    (s'.coordinator = s.coordinator ∧ l'.task.marks = l.task.marks)

/-- A step of the coordinator is one of its task. -/
theorem coordinated_of_coordinate {t : Task} {phase : Task → Phase K} (mem : (s', l') ∈ s.coordinate t phase)
    (task : ∀ t', (phase t').task = t') : Coordinated s s' (phase t) l' := by
  obtain ⟨c, t', step, rfl, rfl⟩ := mem_coordinate mem
  refine .inl ?_
  rw [task, task]
  exact step

theorem coordinated_of_attempt {w : Write} {after : After} (mem : (s', after) ∈ s.attempt cmds w) :
    s'.coordinator = s.coordinator := by
  obtain ⟨⟨store, outcome⟩, -, same⟩ := List.mem_map.1 mem
  cases outcome <;> obtain ⟨rfl, rfl⟩ := Prod.mk.inj same <;> rfl

/-- After an attempt the task is done with the coordinator. -/
theorem After.phase_task (w : Write) (after : After) : (after.phase w : Phase K).task = .done := by
  cases after <;> rfl

theorem append_coordinator (s : Aof K) (w : Write) (id : Nat) :
    (s.append w id).1.coordinator = s.coordinator := by
  unfold Aof.append
  split <;> rfl

/-- So the coordinator takes its own steps, whatever is rewritten. -/
theorem coordinated_of_next (mem : (s', l') ∈ Aof.next cmds s l) : Coordinated s s' l l' := by
  cases l with
  | dispatch w =>
    simp only [Aof.next] at mem
    refine .inr ?_
    split at mem
    · cases List.mem_singleton.1 mem
      exact ⟨rfl, rfl⟩
    · split at mem
      · cases List.mem_singleton.1 mem
        exact ⟨rfl, rfl⟩
      · split at mem <;> cases List.mem_singleton.1 mem <;> exact ⟨rfl, rfl⟩
  | acquire w t =>
    cases t with
    | permit =>
      obtain ⟨⟨store, outcome⟩, -, same⟩ := List.mem_map.1 mem
      cases outcome <;> obtain ⟨rfl, rfl⟩ := Prod.mk.inj same <;> exact .inr ⟨rfl, rfl⟩
    | done =>
      cases List.mem_singleton.1 mem
      exact .inr ⟨rfl, rfl⟩
    | _ => exact coordinated_of_coordinate mem fun _ => rfl
  | commit w id =>
    cases List.mem_singleton.1 mem
    exact .inr ⟨append_coordinator s w id, rfl⟩
  | leave a t =>
    cases t with
    | done =>
      cases List.mem_singleton.1 mem
      exact .inr ⟨rfl, rfl⟩
    | _ => exact coordinated_of_coordinate mem fun _ => rfl
  | fast w =>
    obtain ⟨⟨s'', after⟩, tried, same⟩ := List.mem_map.1 mem
    obtain ⟨rfl, rfl⟩ := Prod.mk.inj same
    refine .inr ⟨coordinated_of_attempt tried, ?_⟩
    cases after <;> rfl
  | enter w t =>
    cases t with
    | permit =>
      obtain ⟨⟨s'', after⟩, tried, same⟩ := List.mem_map.1 mem
      obtain ⟨rfl, rfl⟩ := Prod.mk.inj same
      exact .inr ⟨coordinated_of_attempt tried, rfl⟩
    | done =>
      cases List.mem_singleton.1 mem
      exact .inr ⟨rfl, rfl⟩
    | _ => exact coordinated_of_coordinate mem fun _ => rfl
  | drop w after t =>
    cases t with
    | done =>
      cases List.mem_singleton.1 mem
      exact .inr ⟨rfl, by rw [After.phase_task]; rfl⟩
    | _ => exact coordinated_of_coordinate mem fun _ => rfl
  | wait w =>
    simp only [Aof.next, List.mem_cons, List.not_mem_nil, or_false] at mem
    rcases mem with woken | timeout
    · obtain ⟨rfl, rfl⟩ := Prod.mk.inj woken
      exact .inr ⟨rfl, rfl⟩
    · obtain ⟨rfl, rfl⟩ := Prod.mk.inj timeout
      exact .inr ⟨rfl, rfl⟩
  | append w id =>
    cases List.mem_singleton.1 mem
    exact .inr ⟨append_coordinator s w id, rfl⟩
  | answered a => cases mem
  | swap =>
    simp only [Aof.next] at mem
    split at mem <;> cases List.mem_singleton.1 mem <;> exact .inr ⟨rfl, rfl⟩
  | quiesce t =>
    cases t with
    | guard =>
      cases List.mem_singleton.1 mem
      exact .inr ⟨rfl, rfl⟩
    | _ => exact coordinated_of_coordinate mem fun _ => rfl
  | snapshot | rewrite dbs n | reopen | finish =>
    cases List.mem_singleton.1 mem
    exact .inr ⟨rfl, rfl⟩
  | release t =>
    cases t with
    | done =>
      cases List.mem_singleton.1 mem
      exact .inr ⟨rfl, rfl⟩
    | _ => exact coordinated_of_coordinate mem fun _ => rfl
  | done => cases mem

/-- The invariant of the coordinator, among the tasks of clients and rewrites. -/
theorem inv_of_coordinated {before after : List (Phase K)}
    (inv : Inv ⟨s.coordinator, (before ++ l :: after).map Phase.task⟩) (step : Coordinated s s' l l') :
    Inv ⟨s'.coordinator, (before ++ l' :: after).map Phase.task⟩ :=
  inv.moved step

/-! ## The invariant -/

/-- What holds in every schedule: the file and then the pending writes lead to the store. -/
structure Sound (cmds : Commands K) (p : Pool (Aof K) (Phase K)) : Prop where
  coordinator : Inv ⟨p.shared.coordinator, p.tasks.map Phase.task⟩
  failed : p.shared.aofFailed = false
  /-- What is on its way completes the file. -/
  keyspace : all cmds.replay (p.shared.file.map Appended.write ++ p.shared.pending.map Pending.op) cmds.empty =
    p.shared.store
  held : (p.tasks.filterMap Phase.pending).Perm p.shared.pending
  ids : (p.shared.represented ++ p.shared.pending.map Pending.id).Perm (List.range p.shared.mutations)
  writer : p.count Phase.isRewriting = if p.shared.writer then 0 else 1
  /-- Nothing is on its way while the writer is out, and the snapshot stays up to date. -/
  clean : p.shared.writer = false → p.shared.pending = []
  snapshot : ∀ dbs n, .rewrite dbs n ∈ p.tasks → dbs = p.shared.store ∧ n = p.shared.mutations
  answers : ∀ l ∈ p.tasks, l.aofError = false
  acknowledged : ∀ id ∈ p.shared.acknowledged, id ∈ p.shared.represented

variable {before after : List (Phase K)}

theorem isGuard_of_isRewriting (h : l.isRewriting = true) : l.task.isGuard = true := by
  cases l with
  | snapshot | rewrite dbs n | reopen => rfl
  | _ => cases h

theorem count_isRewriting_le (tasks : List (Phase K)) :
    tasks.countP Phase.isRewriting ≤ (tasks.map Phase.task).countP Task.isGuard := by
  rw [List.countP_map]
  exact List.countP_mono_left fun l _ => isGuard_of_isRewriting

/-- Who mutates with a permit meets no rewrite that has taken the writer. -/
theorem Sound.free (h : Sound cmds p) (mem : l ∈ p.tasks)
    (free : l.task = .permit ∨ p.count Phase.isRewriting = 0) : p.count Phase.isRewriting = 0 := by
  rcases free with permit | none
  · have live : (p.tasks.map Phase.task).countP Task.isPermit ≠ 0 := by
      have pos : 0 < (p.tasks.map Phase.task).countP Task.isPermit :=
        List.countP_pos_iff.2 ⟨.permit, List.mem_map.2 ⟨l, mem, permit⟩, rfl⟩
      omega
    have noGuard : (p.tasks.map Phase.task).countP Task.isGuard = 0 := by
      by_contra out
      exact live (h.coordinator.excluded out)
    have le := count_isRewriting_le p.tasks
    unfold Pool.count
    omega
  · exact none

theorem guard_alone (inv : Inv ⟨s.coordinator, (before ++ l :: after).map Phase.task⟩) (guard : l.task = .guard) :
    (before ++ after).countP Phase.isRewriting = 0 := by
  have mutex := inv.mutex
  have locked : ((before ++ l :: after).map Phase.task).countP Task.locked ≤ 1 := by
    change Pool.count ⟨s.coordinator, (before ++ l :: after).map Phase.task⟩ Task.locked ≤ 1
    rw [mutex]
    split <;> omega
  have guards : ((before ++ l :: after).map Phase.task).countP Task.isGuard ≤
      ((before ++ l :: after).map Phase.task).countP Task.locked :=
    List.countP_mono_left fun t _ => by cases t <;> simp [Task.isGuard, Task.locked, Task.closing]
  have le := count_isRewriting_le (before ++ after)
  simp only [List.map_append, List.map_cons, List.countP_append, List.countP_cons, guard, Task.isGuard, if_true]
    at guards locked le
  rw [List.countP_append]
  omega

/-- Behind a guard nothing is on its way to the file but what blocking writes have still to append. -/
theorem Sound.clean_of_guard (h : Sound cmds p) (mem : l ∈ p.tasks) (guard : l.task = .guard)
    (none : p.count Phase.isAppending = 0) : p.shared.pending = [] := by
  have out : (p.tasks.map Phase.task).countP Task.isGuard ≠ 0 := by
    have pos : 0 < (p.tasks.map Phase.task).countP Task.isGuard :=
      List.countP_pos_iff.2 ⟨.guard, List.mem_map.2 ⟨l, mem, guard⟩, rfl⟩
    omega
  have noPermit : (p.tasks.map Phase.task).countP Task.isPermit = 0 := h.coordinator.excluded out
  have nothing : p.tasks.filterMap Phase.pending = [] := by
    refine List.filterMap_eq_nil_iff.2 fun x mem => ?_
    have permit := List.countP_eq_zero.1 noPermit x.task (List.mem_map.2 ⟨x, mem, rfl⟩)
    have appending := List.countP_eq_zero.1 none x mem
    cases x with
    | commit w id => exact absurd rfl permit
    | append w id => exact absurd rfl appending
    | drop w after t =>
      cases after with
      | append id => exact absurd rfl appending
      | _ => rfl
    | _ => rfl
  have held := h.held
  rw [nothing] at held
  exact held.nil_eq.symm

theorem Sound.silent {c : Coordinator} {flag : Bool} (h : Sound cmds ⟨s, before ++ l :: after⟩)
    (inv : Inv ⟨c, (before ++ l' :: after).map Phase.task⟩) (pending : l'.pending = l.pending)
    (rewriting : l'.isRewriting = l.isRewriting) (other : ∀ dbs n, l' ≠ .rewrite dbs n)
    (error : l'.aofError = false) :
    Sound cmds ⟨{ s with coordinator := c, rewriteInProgress := flag }, before ++ l' :: after⟩ where
  coordinator := inv
  failed := h.failed
  keyspace := h.keyspace
  held := by
    refine (filterMap_cut Phase.pending before after l').trans ?_
    rw [pending]
    exact (filterMap_cut Phase.pending before after l).symm.trans h.held
  ids := h.ids
  writer := by
    have writer := h.writer
    rw [Pool.count_cut] at writer ⊢
    rw [rewriting]
    exact writer
  clean := h.clean
  snapshot dbs n mem := by
    rcases mem_of_cut mem with new | old
    · exact absurd new.symm (other dbs n)
    · exact h.snapshot dbs n old
  answers x mem := by
    rcases mem_of_cut mem with rfl | old
    · exact error
    · exact h.answers x old
  acknowledged := h.acknowledged

/-- When nobody rewrites, the writer is there. -/
theorem writer_of_free (h : Sound cmds p) (free : p.count Phase.isRewriting = 0) : p.shared.writer = true := by
  have writer := h.writer
  rw [free] at writer
  by_contra out
  rw [if_neg out] at writer
  cases writer

theorem Sound.mutate {w : Write} (h : Sound cmds ⟨s, before ++ l :: after⟩)
    (inv : Inv ⟨s.coordinator, (before ++ l' :: after).map Phase.task⟩) (none : l.pending = none)
    (pending : l'.pending = some ⟨s.mutations, w⟩) (old : l.isRewriting = false) (new : l'.isRewriting = false)
    (error : l'.aofError = false) (free : l.task = .permit ∨ Pool.count ⟨s, before ++ l :: after⟩ Phase.isRewriting = 0) :
    Sound cmds ⟨s.mutate w (cmds.replay w s.store), before ++ l' :: after⟩ := by
  have nobody : Pool.count ⟨s, before ++ l :: after⟩ Phase.isRewriting = 0 := h.free (by simp) free
  have writer : s.writer = true := writer_of_free h nobody
  constructor
  · exact inv
  · exact h.failed
  · show all cmds.replay (s.file.map Appended.write ++ (s.pending ++ [Pending.mk s.mutations w]).map Pending.op)
      cmds.empty = cmds.replay w s.store
    rw [List.map_append, ← List.append_assoc, all_append, h.keyspace]
    rfl
  · show ((before ++ l' :: after).filterMap Phase.pending).Perm (s.pending ++ [Pending.mk s.mutations w])
    have held := (filterMap_cut Phase.pending before after l).symm.trans h.held
    rw [none] at held
    refine (filterMap_cut Phase.pending before after l').trans ?_
    rw [pending]
    exact (List.Perm.cons _ held).trans (List.perm_append_singleton _ _).symm
  · show (s.represented ++ (s.pending ++ [Pending.mk s.mutations w]).map Pending.id).Perm (List.range (s.mutations + 1))
    rw [List.map_append, ← List.append_assoc, List.range_succ]
    exact h.ids.append_right _
  · have count := h.writer
    rw [Pool.count_cut] at count ⊢
    rw [new]
    rw [old] at count
    exact count
  · intro out
    have out : s.writer = false := out
    rw [writer] at out
    cases out
  · intro dbs n mem
    rcases mem_of_cut mem with is | old
    · rw [← is] at new
      cases new
    · have rewriting := List.countP_eq_zero.1 nobody _ old
      exact absurd rfl rewriting
  · intro x mem
    rcases mem_of_cut mem with rfl | old
    · exact error
    · exact h.answers x old
  · exact h.acknowledged

/-- A write is appended, and no longer pending. -/
theorem Sound.append {w : Write} {id : Nat} (h : Sound cmds ⟨s, before ++ l :: after⟩)
    (inv : Inv ⟨s.coordinator, (before ++ l' :: after).map Phase.task⟩) (pending : l.pending = some ⟨id, w⟩)
    (none : l'.pending = none) (old : l.isRewriting = false) (new : l'.isRewriting = false)
    (error : l'.aofError = (s.append w id).2.aofError) (order : InOrder cmds.replay s.pending ⟨id, w⟩) :
    Sound cmds ⟨(s.append w id).1, before ++ l' :: after⟩ := by
  have held := (filterMap_cut Phase.pending before after l).symm.trans h.held
  rw [pending] at held
  have mem : Pending.mk id w ∈ s.pending := held.subset (.head _)
  have writer : s.writer = true := by
    by_contra out
    have clean : s.pending = [] := h.clean (by simpa using out)
    rw [clean] at mem
    cases mem
  have done : s.append w id =
      ({ s with
          file := s.file ++ [⟨some id, w⟩], pending := settle s.pending id
          acknowledged := s.acknowledged ++ [id] }, .reply) := by
    unfold Aof.append
    rw [if_pos writer]
  have distinct : (s.pending.map Pending.id).Nodup :=
    (List.nodup_append.1 (h.ids.nodup_iff.2 List.nodup_range)).2.1
  obtain ⟨logged, settled⟩ := all_settle _ mem distinct order cmds.empty
  have represented : (s.append w id).1.represented = s.represented ++ [id] := by
    rw [done]
    simp [Aof.represented]
  constructor
  · show Inv ⟨(s.append w id).1.coordinator, (before ++ l' :: after).map Phase.task⟩
    rw [append_coordinator]
    exact inv
  · rw [done]
    exact h.failed
  · rw [done]
    dsimp only
    rw [List.map_append, List.map_cons, List.map_nil, logged]
    exact h.keyspace
  · rw [done]
    refine (filterMap_cut Phase.pending before after l').trans ?_
    rw [none]
    exact List.Perm.cons_inv (held.trans settled)
  · show ((s.append w id).1.represented ++ (s.append w id).1.pending.map Pending.id).Perm _
    rw [represented, done, List.append_assoc]
    exact (List.Perm.append_left _ (settled.map Pending.id).symm).trans h.ids
  · have count := h.writer
    rw [Pool.count_cut] at count ⊢
    rw [new, done]
    rw [old] at count
    exact count
  · intro out
    rw [done] at out
    have out : s.writer = false := out
    rw [writer] at out
    cases out
  · intro dbs n mem
    rw [done]
    rcases mem_of_cut mem with is | old
    · rw [← is] at new
      cases new
    · exact h.snapshot dbs n old
  · intro x mem
    rcases mem_of_cut mem with rfl | old
    · rw [error, done]
      rfl
    · exact h.answers x old
  · intro x mem
    show x ∈ (s.append w id).1.represented
    rw [represented]
    rw [done] at mem
    rcases List.mem_append.1 mem with old | new
    · exact List.mem_append_left _ (h.acknowledged x old)
    · exact List.mem_append_right _ new

/-- The writer is taken when nothing is pending. -/
theorem Sound.take (h : Sound cmds ⟨s, before ++ .quiesce .guard :: after⟩)
    (inv : Inv ⟨s.coordinator, (before ++ Phase.snapshot :: after).map Phase.task⟩) (clean : s.pending = []) :
    Sound cmds ⟨{ s with writer := false }, before ++ .snapshot :: after⟩ where
  coordinator := inv
  failed := h.failed
  keyspace := h.keyspace
  held := (filterMap_cut Phase.pending before after .snapshot).trans
    ((filterMap_cut Phase.pending before after (.quiesce .guard)).symm.trans h.held)
  ids := h.ids
  writer := by
    rw [Pool.count_cut, guard_alone h.coordinator rfl]
    rfl
  clean _ := clean
  snapshot dbs n mem := by
    rcases mem_of_cut mem with new | old
    · cases new
    · exact h.snapshot dbs n old
  answers x mem := by
    rcases mem_of_cut mem with rfl | old
    · rfl
    · exact h.answers x old
  acknowledged := h.acknowledged

/-- The snapshot is the store of this moment. -/
theorem Sound.takeSnapshot (h : Sound cmds ⟨s, before ++ .snapshot :: after⟩)
    (inv : Inv ⟨s.coordinator, (before ++ Phase.rewrite s.store s.mutations :: after).map Phase.task⟩) :
    Sound cmds ⟨s, before ++ .rewrite s.store s.mutations :: after⟩ where
  coordinator := inv
  failed := h.failed
  keyspace := h.keyspace
  held := (filterMap_cut Phase.pending before after (.rewrite s.store s.mutations)).trans
    ((filterMap_cut Phase.pending before after .snapshot).symm.trans h.held)
  ids := h.ids
  writer := by
    have writer := h.writer
    rw [Pool.count_cut] at writer ⊢
    exact writer
  clean := h.clean
  snapshot dbs n mem := by
    rcases mem_of_cut mem with new | old
    · cases new
      exact ⟨rfl, rfl⟩
    · exact h.snapshot dbs n old
  answers x mem := by
    rcases mem_of_cut mem with rfl | old
    · rfl
    · exact h.answers x old
  acknowledged := h.acknowledged

/-- Who rewrites has taken the writer, and is the only one. -/
theorem writer_of_rewriting (h : Sound cmds ⟨s, before ++ l :: after⟩) (rewriting : l.isRewriting = true) :
    s.writer = false ∧ (before ++ after).countP Phase.isRewriting = 0 := by
  have writer := h.writer
  rw [Pool.count_cut, rewriting] at writer
  dsimp only at writer
  cases is : s.writer with
  | false =>
    rw [is] at writer
    simp only [Bool.false_eq_true, if_false, Bool.toNat_true] at writer
    exact ⟨rfl, by omega⟩
  | true =>
    rw [is] at writer
    simp only [if_true, Bool.toNat_true] at writer
    omega

/-- The new file leads to the snapshot, which is still the store. -/
theorem Sound.rewrite {dbs : K} {n : Nat} (h : Sound cmds ⟨s, before ++ .rewrite dbs n :: after⟩)
    (inv : Inv ⟨s.coordinator, (before ++ (Phase.reopen : Phase K) :: after).map Phase.task⟩)
    (same : all cmds.replay (cmds.rewrite dbs) cmds.empty = dbs) :
    Sound cmds ⟨{ s with file := (cmds.rewrite dbs).map (Appended.mk none), base := List.range n },
      before ++ .reopen :: after⟩ := by
  obtain ⟨store, mutations⟩ := h.snapshot dbs n (by simp)
  dsimp only at store mutations
  have clean : s.pending = [] := h.clean (writer_of_rewriting h rfl).1
  have noOrigin : ((cmds.rewrite dbs).map (Appended.mk none)).filterMap Appended.origin = [] := by simp
  constructor
  · exact inv
  · exact h.failed
  · dsimp only
    rw [clean, List.map_map, List.map_nil, List.append_nil]
    rw [← store]
    exact (congrArg (all cmds.replay · cmds.empty) (List.map_id _)).trans same
  · exact (filterMap_cut Phase.pending before after .reopen).trans
      ((filterMap_cut Phase.pending before after (.rewrite dbs n)).symm.trans h.held)
  · unfold Aof.represented
    dsimp only
    rw [noOrigin, clean, mutations]
    simp
  · have writer := h.writer
    rw [Pool.count_cut] at writer ⊢
    exact writer
  · exact fun _ => clean
  · intro dbs' n' mem
    rcases mem_of_cut mem with new | old
    · cases new
    · exact h.snapshot dbs' n' old
  · intro x mem
    rcases mem_of_cut mem with rfl | old
    · rfl
    · exact h.answers x old
  · intro x mem
    unfold Aof.represented
    dsimp only
    rw [noOrigin, List.append_nil, mutations]
    exact h.ids.subset (List.mem_append_left _ (h.acknowledged x mem))

theorem Sound.reopen (h : Sound cmds ⟨s, before ++ .reopen :: after⟩)
    (inv : Inv ⟨s.coordinator, (before ++ (Phase.finish : Phase K) :: after).map Phase.task⟩) :
    Sound cmds ⟨{ s with writer := true }, before ++ .finish :: after⟩ where
  coordinator := inv
  failed := h.failed
  keyspace := h.keyspace
  held := (filterMap_cut Phase.pending before after .finish).trans
    ((filterMap_cut Phase.pending before after .reopen).symm.trans h.held)
  ids := h.ids
  writer := by
    rw [Pool.count_cut, (writer_of_rewriting h rfl).2]
    rfl
  clean out := by cases out
  snapshot dbs n mem := by
    rcases mem_of_cut mem with new | old
    · cases new
    · exact h.snapshot dbs n old
  answers x mem := by
    rcases mem_of_cut mem with rfl | old
    · rfl
    · exact h.answers x old
  acknowledged := h.acknowledged

/-- **Every step keeps it**, one case for each kind. -/
theorem Sound.step (h : Sound cmds ⟨s, before ++ l :: after⟩)
    (inv : Inv ⟨s'.coordinator, (before ++ l' :: after).map Phase.task⟩)
    (step : Step cmds ⟨s, before ++ l :: after⟩ l s' l') : Sound cmds ⟨s', before ++ l' :: after⟩ := by
  cases step with
  | silent c flag pending rewriting other error =>
    exact h.silent inv pending rewriting other (error (h.answers l (by simp)) h.failed)
  | mutate w none pending before after error free => exact h.mutate inv none pending before after error free
  | append w id pending none old new error order =>
    rw [append_coordinator] at inv
    exact h.append inv pending none old new error order
  | take none =>
    have mem : Phase.quiesce Task.guard ∈ before ++ .quiesce .guard :: after := by simp
    exact h.take inv (h.clean_of_guard mem rfl none)
  | snapshot => exact h.takeSnapshot inv
  | rewrite dbs n same => exact h.rewrite inv same
  | reopen => exact h.reopen inv

theorem start_sound (cmds : Commands K) (file : List Write) : Sound cmds ⟨.start cmds file, []⟩ where
  coordinator := Inv.new
  failed := rfl
  keyspace := by
    unfold Aof.start
    dsimp only
    rw [List.map_map, List.map_nil, List.append_nil]
    exact congrArg (all cmds.replay · cmds.empty) (List.map_id _)
  held := List.Perm.refl _
  ids := by
    unfold Aof.represented Aof.start
    simp
  writer := rfl
  clean _ := rfl
  snapshot dbs n mem := by cases mem
  answers l mem := by cases mem
  acknowledged id mem := by cases mem

theorem Sound.spawn {tasks : List (Phase K)} (h : Sound cmds ⟨s, tasks⟩) (request : l.entry = true) :
    Sound cmds ⟨s, tasks ++ [l]⟩ := by
  have fresh : l.task = .done ∧ l.pending = none ∧ l.isRewriting = false ∧ l.aofError = false := by
    cases l with
    | dispatch w => exact ⟨rfl, rfl, rfl, rfl⟩
    | swap => exact ⟨rfl, rfl, rfl, rfl⟩
    | _ => cases request
  obtain ⟨task, none, notRewriting, noError⟩ := fresh
  constructor
  · rw [List.map_append, List.map_cons, List.map_nil, task]
    exact h.coordinator.add rfl
  · exact h.failed
  · exact h.keyspace
  · rw [List.filterMap_append, List.filterMap_cons, none, List.filterMap_nil, List.append_nil]
    exact h.held
  · exact h.ids
  · rw [Pool.count_start, notRewriting]
    exact h.writer
  · exact h.clean
  · intro dbs n mem
    rcases List.mem_append.1 mem with old | new
    · exact h.snapshot dbs n old
    · rw [← List.mem_singleton.1 new] at notRewriting
      cases notRewriting
  · intro x mem
    rcases List.mem_append.1 mem with old | new
    · exact h.answers x old
    · rw [List.mem_singleton.1 new]
      exact noError
  · exact h.acknowledged

theorem Sound.kept (h : Sound cmds p) : Kept cmds p := by
  have none (rest : ∀ l ∈ p.tasks, l.finished = true) : p.shared.pending = [] := by
    have nothing : p.tasks.filterMap Phase.pending = [] := by
      refine List.filterMap_eq_nil_iff.2 fun l mem => ?_
      cases l with
      | answered a => rfl
      | done => rfl
      | _ => cases rest _ mem
    have held := h.held
    rw [nothing] at held
    exact held.nil_eq.symm
  constructor
  · intro rest
    have whole := h.keyspace
    rw [none rest, List.map_nil, List.append_nil] at whole
    exact whole
  · intro rest id mem
    have ids := h.ids
    rw [none rest, List.map_nil, List.append_nil] at ids
    exact List.count_eq_one_of_mem (ids.nodup_iff.2 List.nodup_range) (h.acknowledged id mem)
  · exact h.failed
  · intro a mem
    exact h.answers _ mem

end

end Persistence

open Persistence

/-- **A rewrite of the append-only file loses and doubles nothing** in every schedule whose steps fit. At every
moment the file, and behind it the writes that are still on their way to it, replay to the keyspace. The rewrite may
replace the file by the commands of a snapshot since nothing is on its way then: what holds a permit is excluded by
the guard, and the rest is excluded by the condition. -/
theorem rewrite_keeps {K : Type} {cmds : Commands K} {file : List Write} {turns : List (Interleave.Turn (Phase K))}
    (meets : Always (Pool.advance (Aof.next cmds) Phase.entry) (fun t p => p.Meets (Aof.next cmds) (Fits cmds) t) turns
      ⟨.start cmds file, []⟩) :
    Kept cmds (run (Pool.advance (Aof.next cmds) Phase.entry) turns ⟨.start cmds file, []⟩) := by
  refine Sound.kept (advance_invariant meets (start_sound cmds file) Sound.spawn ?_)
  intro s before l after s' l' sound mem fits
  exact sound.step (inv_of_coordinated sound.coordinator (coordinated_of_next mem)) (step_of_next mem fits)

/-! ## A pop that falls into the gap -/

namespace Persistence

/-- A word of a request. -/
def bulkText (s : String) : Resp := .bulkString (some (Utf8.asBytes s))

/-- The values of a push. -/
def values (w : Write) : List Bytes := (w.args.drop 2).filterMap Resp.toBytesVec

/-- The list at one key, with RPUSH and BLPOP. -/
def oneList : Commands (List Bytes) where
  empty := []
  attempt w k :=
    if w.cmd = "BLPOP" then
      match k with
      | [] => [([], .nothing)]
      | _ :: rest => [(rest, .reply)]
    else [(k ++ values w, .reply)]
  replay w k := if w.cmd = "BLPOP" then k.tail else k ++ values w
  rewrite k :=
    if k = [] then [] else [⟨0, "RPUSH", bulkText "RPUSH" :: bulkText "l" :: k.map fun v => .bulkString (some v)⟩]

/-- An RPUSH of one element. -/
def push : Write := ⟨0, "RPUSH", [bulkText "RPUSH", bulkText "l", bulkText "a"]⟩

/-- A BLPOP of the same list. -/
def pop : Write := ⟨0, "BLPOP", [bulkText "BLPOP", bulkText "l", bulkText "0"]⟩

end Persistence

/-- A client that pushes, and a rewrite behind it. -/
theorem rewrite_keeps_push :
    Kept oneList (run (Pool.advance (Aof.next oneList) Phase.entry)
      (.start (.dispatch push) :: List.replicate 9 (.step 0 0) ++ .start .swap :: List.replicate 13 (.step 1 0))
      ⟨.start oneList [], []⟩) := by
  refine rewrite_keeps ⟨trivial, ?_, ?_, ?_, ?_, ?_, ?append, ?_, ?_, ?_, trivial, ?_, ?_, ?_, ?_, ?_, ?_, ?_, ?_, ?_, ?_,
    ?_, ?_, ?_, trivial⟩
  case append =>
    intro l s' l' task chosen
    cases task
    cases chosen
    exact InOrder.alone _
  all_goals
    intro l s' l' task chosen
    cases task
    cases chosen
    first | exact trivial | exact rfl

/-- The append of a BLPOP finds no writer. -/
theorem rewrite_pop_in_gap :
    ¬ ∀ (turns : List (Interleave.Turn (Phase (List Bytes)))) (file : List Write),
      Kept oneList (run (Pool.advance (Aof.next oneList) Phase.entry) turns ⟨.start oneList file, []⟩) := by
  intro kept
  have failed := (kept (.start (.dispatch pop) :: List.replicate 8 (.step 0 0) ++
    .start .swap :: List.replicate 5 (.step 1 0) ++ [.step 0 0]) [push]).failed
  revert failed
  decide

end NexradeCache
