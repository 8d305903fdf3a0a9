import NexradeCache.Persistence.Aof
import NexradeCache.Store.Atomic

/-!
# Snapshots among writes (`dispatch_tracked` of `nexrade-core/src/command/mod.rs`, the blocking commands of
`list.rs`, `zset.rs` and `stream.rs`, `snapshot_dbs` of `store.rs`)

Clients that dispatch write commands and any number of snapshots, as tasks over the coordinator of mutations. A
task steps from one access of the coordinator, or one group of locks it holds at once, to the next. What a
handler does under its locks and what an eviction removes is open; `K` is the live content of a shard.

An ordinary write holds its permit from before the evictions in front of its handler until behind those after
it. A blocking one evicts without a permit, and so do the first attempts of all but BLPOP and BRPOP. In the
wait loop each attempt takes a permit; BLMOVE keeps it while it waits.
-/

namespace NexradeCache

open Interleave Trace

namespace Persistence

namespace Snapshot

/-! ## Handlers -/

/-- The databases, each with its shards. -/
abbrev Store (K : Type) := List (List K)

/-- What a handler comes to under the locks it takes at once: it looked and goes on, it changed something and goes
on, or it is at its end. -/
inductive Progress (H S : Type) where
  | look (h : H)
  | change (store : S) (h : H)
  | reply (store : S)
  | error (store : S)
  | nothing

/-- Handlers of write commands in steps, with any local state, and the evictions around them. -/
structure Handlers (K : Type) where
  State : Type
  start : Write → State
  step : Write → State → Store K → List (Progress State (Store K))
  /-- The next step of the evictions of a call. -/
  evict : Store K → List (Store K)
  isEmpty : K → Bool

/-- BLPOP and BRPOP take a permit for each key they look at. -/
def permitPerKey (cmd : String) : Bool := !hasFastPath cmd

/-- The permit is a variable of the loop's body, and the await is in it. -/
def holdsWhileWaiting (cmd : String) : Bool := cmd == "BLMOVE"

/-! ## The scan of the databases -/

section

variable {K : Type} (isEmpty : K → Bool)

/-- Where `snapshot_dbs` is: at a shard in `is_empty` of a database, or behind the shards it has cloned. -/
inductive Scan (K : Type) where
  | look (db shard : Nat)
  | read (db : Nat) (shards : List K)

/-- The databases that are not empty. -/
def dataset (store : Store K) : List (Nat × List K) :=
  (store.zipIdx.map Prod.swap).filter fun d => !d.2.all isEmpty

/-- One lock of the scan; without a position it is through. -/
def scanStep (store : Store K) (dbs : List (Nat × List K)) : Scan K → List (Nat × List K) × Option (Scan K)
  | .look db shard => match store[db]? with
    | none => (dbs, none)
    | some shards => match shards[shard]? with
      | none => (dbs, some (.look (db + 1) 0))
      | some s => (dbs, some (if isEmpty s then .look db (shard + 1) else .read db []))
  | .read db taken => match (store[db]?).bind (·[taken.length]?) with
    | some s => (dbs, some (.read db (taken ++ [s])))
    | none => (dbs ++ [(db, taken)], some (.look (db + 1) 0))

end

/-! ## Tasks -/

/-- What a blocking write does when it has dropped its permit. -/
inductive After (H : Type) where
  | again (h : H)
  | wait
  | post
  | answer

/-- A write by where it is between its arrival and its answer, or a snapshot. -/
inductive Phase (H K : Type) where
  | dispatch (w : Write)
  | acquire (w : Write) (t : Task)
  /-- The evictions, the handler and the evictions behind it, with or without a permit. -/
  | pre (w : Write) (held : Bool)
  | handle (w : Write) (h : H) (applied held : Bool)
  | post (held : Bool)
  | leave (t : Task)
  /-- The wait loop of a blocking write. -/
  | enter (w : Write) (h : H) (t : Task)
  | loop (w : Write) (h : H) (applied : Bool)
  | drop (w : Write) (after : After H) (t : Task)
  | wait (w : Write) (held : Bool)
  | answered
  /-- A snapshot. -/
  | quiesce (t : Task)
  | capture (dbs : List (Nat × List K)) (scan : Scan K)
  | captured (dbs : List (Nat × List K))
  | release (dbs : List (Nat × List K)) (t : Task)
  | saved (dbs : List (Nat × List K))

/-- The coordinator that grants permits, and the store. -/
structure Server (K : Type) where
  coordinator : Coordinator
  store : Store K

def heldTask (held : Bool) : Task := if held then .permit else .done

section

variable {K : Type} {H : Type}

/-- The call of the coordinator that a task is in. -/
def Phase.task : Phase H K → Task
  | .acquire _ t | .leave t | .enter _ _ t | .drop _ _ t | .quiesce t | .release _ t => t
  | .pre _ held | .handle _ _ _ held | .post held | .wait _ held => heldTask held
  | .loop _ _ _ => .permit
  | .capture _ _ | .captured _ => .guard
  | .dispatch _ | .answered | .saved _ => .done

/-- Part of the command is applied, and the rest is not yet. -/
def Phase.halfway : Phase H K → Bool
  | .handle _ _ applied _ | .loop _ _ applied => applied
  | _ => false

/-- Parked on a wait channel, with a permit. -/
def Phase.parkedHolding : Phase H K → Bool
  | .wait _ held => held
  | _ => false

/-- What a snapshot has captured. -/
def Phase.dataset : Phase H K → Option (List (Nat × List K))
  | .captured dbs | .release dbs _ | .saved dbs => some dbs
  | _ => none

def finish (held : Bool) : Phase H K := if held then .leave .permit else .answered

def Server.coordinate (s : Server K) (t : Task) (phase : Task → Phase H K) : List (Server K × Phase H K) :=
  (Persistence.next s.coordinator t).map fun (c, t') => ({ s with coordinator := c }, phase t')

def Server.withStore (s : Server K) (store : Store K) : Server K := { s with store }

end

variable {K : Type} (handlers : Handlers K)

def begin (w : Write) (held : Bool) : Phase handlers.State K :=
  if held || hasFastPath w.cmd then .handle w (handlers.start w) false held
  else .enter w (handlers.start w) (.load .once)

def After.phase (w : Write) : After handlers.State → Phase handlers.State K
  | .again h => .enter w h (.load .once)
  | .wait => .wait w false
  | .post => .post false
  | .answer => .answered

/-- How the handler goes on outside the wait loop. -/
def handled (s : Server K) (w : Write) (applied held : Bool) :
    Progress handlers.State (Store K) → List (Server K × Phase handlers.State K)
  | .look h => [(s, .handle w h applied held)]
  | .change store h => [(s.withStore store, .handle w h true held)]
  | .reply store => [(s.withStore store, .post held)]
  | .error store => [(s.withStore store, finish held)]
  | .nothing =>
    if held then [(s, .post true)] else [(s, .enter w (handlers.start w) (.load .once)), (s, .answered)]

/-- How an attempt in the wait loop goes on. -/
def attempted (s : Server K) (w : Write) (applied : Bool) :
    Progress handlers.State (Store K) → Server K × Phase handlers.State K
  | .look h => (s, if permitPerKey w.cmd && !applied then .drop w (.again h) .permit else .loop w h applied)
  | .change store h => (s.withStore store, .loop w h true)
  | .reply store => (s.withStore store, .drop w .post .permit)
  | .error store => (s.withStore store, .drop w .answer .permit)
  | .nothing => (s, if holdsWhileWaiting w.cmd then .wait w true else .drop w .wait .permit)

def next (s : Server K) : Phase handlers.State K → List (Server K × Phase handlers.State K)
  | .dispatch w => [(s, if isBlockingWriteCommand w.cmd then .pre w false else .acquire w (.load .fast))]
  | .acquire w .permit => [(s, .pre w true)]
  | .acquire _ .done => [(s, .answered)]
  | .acquire w t => s.coordinate t (.acquire w)
  | .pre w held =>
    (handlers.evict s.store).map (fun store => (s.withStore store, .pre w held)) ++ [(s, begin handlers w held)]
  | .handle w h applied held => (handlers.step w h s.store).flatMap (handled handlers s w applied held)
  | .post held => (handlers.evict s.store).map (fun store => (s.withStore store, .post held)) ++ [(s, finish held)]
  | .leave .done => [(s, .answered)]
  | .leave t => s.coordinate t .leave
  | .enter w h .permit => [(s, .loop w h false)]
  | .enter _ _ .done => [(s, .answered)]
  | .enter w h t => s.coordinate t (.enter w h)
  | .loop w h applied => (handlers.step w h s.store).map (attempted handlers s w applied)
  | .drop w after .done => [(s, after.phase handlers w)]
  | .drop w after t => s.coordinate t (.drop w after)
  /- Woken up, or timed out. -/
  | .wait w true =>
    [(s, .drop w (.again (handlers.start w)) .permit), (s, .drop w .post .permit)]
  | .wait w false => [(s, .enter w (handlers.start w) (.load .once)), (s, .post false)]
  | .answered => []
  | .quiesce .guard => [(s, .capture [] (.look 0 0))]
  | .quiesce t => s.coordinate t .quiesce
  | .capture dbs scan => match scanStep handlers.isEmpty s.store dbs scan with
    | (dbs, some scan) => [(s, .capture dbs scan)]
    | (dbs, none) => [(s, .captured dbs)]
  | .captured dbs => [(s, .release dbs .guard)]
  | .release dbs .done => [(s, .saved dbs)]
  | .release dbs t => s.coordinate t (.release dbs)
  | .saved _ => []

/-- The requests there are. -/
def entry : Phase handlers.State K → Bool
  | .dispatch w => isWriteCommand w.cmd
  | .quiesce .lock => true
  | _ => false

def startPool (store : Store K) : Pool (Server K) (Phase handlers.State K) := ⟨⟨.new, store⟩, []⟩

abbrev play := Pool.advance (next handlers) (entry handlers)

/-! ## One moment of the keyspace -/

/-- The keyspace changes only in the hands of a task with a permit. -/
def Permitted (p : Pool (Server K) (Phase handlers.State K)) (l : Phase handlers.State K) (s' : Server K)
    (_ : Phase handlers.State K) : Prop := s'.store ≠ p.shared.store → l.task = .permit

/-- What a snapshot captured is the keyspace at a moment of the run at which no command is half applied; all
changes are made with a permit, and nobody is parked with one. -/
structure PointInTime (turns : List (Interleave.Turn (Phase handlers.State K))) (store : Store K) : Prop where
  permitted : Always (play handlers) (fun t p => p.Meets (next handlers) (Permitted handlers) t) turns
    (startPool handlers store)
  parked : ∀ l ∈ (run (play handlers) turns (startPool handlers store)).tasks, l.parkedHolding = false
  moment : ∀ l ∈ (run (play handlers) turns (startPool handlers store)).tasks, ∀ dbs, l.dataset = some dbs →
    ∃ early late, turns = early ++ late ∧
      dbs = dataset handlers.isEmpty (run (play handlers) early (startPool handlers store)).shared.store ∧
      ∀ l ∈ (run (play handlers) early (startPool handlers store)).tasks, l.halfway = false

/-- What must not happen: a blocking command evicts something, its attempt without a permit changes something, or
BLMOVE comes to wait. -/
def Fits (p : Pool (Server K) (Phase handlers.State K)) (l : Phase handlers.State K) (s' : Server K)
    (l' : Phase handlers.State K) : Prop :=
  match l with
  | .pre _ false | .post false => s'.store = p.shared.store
  | .handle _ _ _ false => s'.store = p.shared.store ∧ l'.halfway = false
  | .loop _ _ _ => l'.parkedHolding = false
  | _ => True

/-! ## The scan of a store that does not change -/

section

variable {isEmpty : K → Bool} {store : Store K} {dbs dbs' : List (Nat × List K)} {scan scan' : Scan K}

/-- What is captured so far, and what the databases in front of the scan have. -/
def Scanned (isEmpty : K → Bool) (store : Store K) (dbs : List (Nat × List K)) : Scan K → Prop
  | .look db shard =>
    dbs = dataset isEmpty (store.take db) ∧ ∀ shards, store[db]? = some shards → (shards.take shard).all isEmpty = true
  | .read db taken =>
    dbs = dataset isEmpty (store.take db) ∧ ∃ shards, store[db]? = some shards ∧ taken = shards.take taken.length ∧
      shards.all isEmpty = false

theorem dataset_next {db : Nat} {shards : List K} (found : store[db]? = some shards) :
    dataset isEmpty (store.take (db + 1)) =
      dataset isEmpty (store.take db) ++ if shards.all isEmpty then [] else [(db, shards)] := by
  obtain ⟨inside, rfl⟩ := List.getElem?_eq_some_iff.1 found
  have next : store.take (db + 1) = store.take db ++ [store[db]] := (List.take_concat_get' store db inside).symm
  have length : (store.take db).length = db := by rw [List.length_take, Nat.min_eq_left inside.le]
  rw [dataset, next, List.zipIdx_append, List.map_append, List.filter_append, length, Nat.zero_add]
  refine congrArg _ ?_
  by_cases empty : store[db].all isEmpty = true
  · simp [empty]
  · simp [empty]

theorem Scanned.step (scanned : Scanned isEmpty store dbs scan)
    (step : scanStep isEmpty store dbs scan = (dbs', some scan')) : Scanned isEmpty store dbs' scan' := by
  cases scan with
  | look db shard =>
    obtain ⟨rfl, empty⟩ := scanned
    simp only [scanStep] at step
    split at step
    · cases step
    rename_i shards found
    split at step
    · rename_i through
      cases step
      have all : shards.all isEmpty = true := by
        rw [← empty shards found, List.take_of_length_le (List.getElem?_eq_none_iff.1 through)]
      refine ⟨?_, fun shards _ => rfl⟩
      rw [dataset_next found, if_pos all, List.append_nil]
    · rename_i s here
      obtain ⟨inside, rfl⟩ := List.getElem?_eq_some_iff.1 here
      obtain ⟨rfl, is⟩ := Prod.mk.inj step
      rw [Option.some.injEq] at is
      subst is
      split
      · rename_i idle
        refine ⟨rfl, fun others same => ?_⟩
        rw [found, Option.some.injEq] at same
        subst same
        rw [← List.take_concat_get' shards shard inside, List.all_append, empty shards found]
        simpa using idle
      · rename_i full
        refine ⟨rfl, shards, found, rfl, ?_⟩
        rw [List.all_eq_false]
        exact ⟨_, List.getElem_mem inside, full⟩
  | read db taken =>
    obtain ⟨rfl, shards, found, prefix', full⟩ := scanned
    simp only [scanStep, found, Option.bind_some] at step
    split at step
    · rename_i s here
      cases step
      obtain ⟨inside, rfl⟩ := List.getElem?_eq_some_iff.1 here
      refine ⟨rfl, shards, found, ?_, full⟩
      rw [List.length_append, List.length_singleton, ← List.take_concat_get' shards _ inside, ← prefix']
    · rename_i through
      cases step
      have all : taken = shards := by
        rw [prefix', List.take_of_length_le (List.getElem?_eq_none_iff.1 through)]
      refine ⟨?_, fun shards _ => rfl⟩
      rw [dataset_next found, full, all]
      rfl

theorem Scanned.through (scanned : Scanned isEmpty store dbs scan)
    (step : scanStep isEmpty store dbs scan = (dbs', none)) : dbs' = dataset isEmpty store := by
  cases scan with
  | look db shard =>
    obtain ⟨rfl, -⟩ := scanned
    simp only [scanStep] at step
    split at step
    · rename_i past
      cases step
      rw [List.take_of_length_le (List.getElem?_eq_none_iff.1 past)]
    · split at step <;> cases step
  | read db taken =>
    simp only [scanStep] at step
    split at step <;> cases step

end

/-! ## What a step can do -/

section

variable {handlers : Handlers K} {s s' : Server K} {l l' : Phase handlers.State K}

/-- What a snapshot has read is what the store has. -/
def Phase.Scans (isEmpty : K → Bool) (store : Store K) : Phase handlers.State K → Prop
  | .capture dbs scan => Scanned isEmpty store dbs scan
  | .captured dbs => dbs = Snapshot.dataset isEmpty store
  | _ => True

/-- What is half applied is so with a permit. -/
def Phase.Covered (l : Phase handlers.State K) : Prop := l.halfway = true → l.task = .permit

/-- A step, seen from what a snapshot needs. -/
structure Step (s : Server K) (l : Phase handlers.State K) (s' : Server K) (l' : Phase handlers.State K) : Prop where
  moved : Moved s.coordinator s'.coordinator l.task l'.task
  permitted : s'.store ≠ s.store → l.task = .permit
  covered : l.Covered → l'.Covered
  parked : l'.parkedHolding = false
  scans : l.Scans handlers.isEmpty s.store → s'.store = s.store → l'.Scans handlers.isEmpty s'.store
  dataset : ∀ dbs, l'.dataset = some dbs → l.dataset = some dbs ∨ l' = .captured dbs

theorem step_of_coordinate {t : Task} {phase : Task → Phase handlers.State K} (mem : (s', l') ∈ s.coordinate t phase)
    (task : ∀ t, (phase t).task = t) (halfway : ∀ t, (phase t).halfway = false)
    (parked : ∀ t, (phase t).parkedHolding = false)
    (scans : ∀ t store, (phase t).Scans handlers.isEmpty store)
    (dataset : ∀ t u, (phase t).dataset = (phase u).dataset) : Step s (phase t) s' l' := by
  obtain ⟨⟨c, t'⟩, step, same⟩ := List.mem_map.1 mem
  obtain ⟨rfl, rfl⟩ := Prod.mk.inj same
  refine ⟨.inl ?_, fun changed => absurd rfl changed, fun _ half => ?_, parked t', fun _ _ => scans t' _, fun dbs is => .inl ?_⟩
  · rw [task, task]
    exact step
  · rw [halfway] at half
    cases half
  · rw [← is]
    exact dataset t t'

/-- A step that leaves the coordinator alone, outside the scan. -/
theorem Step.aside (same : s'.coordinator = s.coordinator) (marks : l'.task.marks = l.task.marks)
    (permitted : s'.store ≠ s.store → l.task = .permit) (covered : l.Covered → l'.Covered)
    (parked : l'.parkedHolding = false) (scans : ∀ store, l'.Scans handlers.isEmpty store)
    (dataset : l'.dataset = none) : Step s l s' l' := by
  refine ⟨.inr ⟨same, marks⟩, permitted, covered, parked, fun _ _ => scans _, fun dbs is => ?_⟩
  rw [dataset] at is
  cases is

theorem Phase.Covered.of_whole (whole : l.halfway = false) : l.Covered := by
  intro half
  rw [whole] at half
  cases half

theorem Step.stay (marks : l'.task.marks = l.task.marks) (whole : l'.halfway = false) (parked : l'.parkedHolding = false)
    (scans : ∀ store, l'.Scans handlers.isEmpty store) (dataset : l'.dataset = none) : Step s l s l' :=
  .aside rfl marks (absurd rfl) (fun _ => .of_whole whole) parked scans dataset

/-- The evictions of a call, or what comes behind them. -/
theorem step_of_evictions {held : Bool} {l₂ : Phase handlers.State K}
    (mem : (s', l') ∈ (handlers.evict s.store).map (fun store => (s.withStore store, l)) ++ [(s, l₂)])
    (task : l.task = heldTask held) (fits : held = false → s'.store = s.store) (whole : l.halfway = false)
    (parked : l.parkedHolding = false) (scans : ∀ store, l.Scans handlers.isEmpty store)
    (dataset : l.dataset = none) (behind : Step s l s l₂) : Step s l s' l' := by
  rcases List.mem_append.1 mem with evicted | rest
  · obtain ⟨store, -, same⟩ := List.mem_map.1 evicted
    obtain ⟨rfl, rfl⟩ := Prod.mk.inj same
    refine .aside rfl rfl (fun changed => ?_) (fun _ => .of_whole whole) parked scans dataset
    cases held with
    | false => exact absurd (fits rfl) changed
    | true => exact task
  · cases List.mem_singleton.1 rest
    exact behind

theorem step_of_pre {w : Write} {held : Bool} (mem : (s', l') ∈ next handlers s (.pre w held))
    (fits : held = false → s'.store = s.store) : Step s (.pre w held) s' l' := by
  have task : (Phase.pre w held : Phase handlers.State K).task = heldTask held := rfl
  refine step_of_evictions mem task fits rfl rfl (fun _ => trivial) rfl ?_
  unfold begin
  split
  · exact .stay rfl rfl rfl (fun _ => trivial) rfl
  · rename_i outside
    have unheld : held = false := by
      cases held with
      | false => rfl
      | true => simp at outside
    subst unheld
    exact .stay rfl rfl rfl (fun _ => trivial) rfl

/-- Behind the handler, and behind the evictions. -/
theorem step_finish {held : Bool} {s' : Server K} (task : l.task = heldTask held) (same : s'.coordinator = s.coordinator)
    (permitted : s'.store ≠ s.store → l.task = .permit) : Step s l s' (finish held) := by
  cases held with
  | false =>
    exact .aside same (by rw [task]; rfl) permitted (fun _ => .of_whole rfl) rfl (fun _ => trivial) rfl
  | true =>
    exact .aside same (by rw [task]; rfl) permitted (fun _ => .of_whole rfl) rfl (fun _ => trivial) rfl

theorem step_of_handle {w : Write} {h : handlers.State} {applied held : Bool}
    (mem : (s', l') ∈ next handlers s (.handle w h applied held))
    (fits : held = false → s'.store = s.store ∧ l'.halfway = false) : Step s (.handle w h applied held) s' l' := by
  have permitted : s'.store ≠ s.store → (Phase.handle w h applied held : Phase handlers.State K).task = .permit := by
    intro changed
    cases held with
    | false => exact absurd (fits rfl).1 changed
    | true => rfl
  have covered : l'.task = heldTask held → l'.Covered := by
    intro task half
    cases held with
    | false => rw [(fits rfl).2] at half; cases half
    | true => exact task
  obtain ⟨progress, -, mem⟩ := List.mem_flatMap.1 mem
  cases progress with
  | look h =>
    cases List.mem_singleton.1 mem
    exact .aside rfl rfl permitted (fun _ => covered rfl) rfl (fun _ => trivial) rfl
  | change store h =>
    cases List.mem_singleton.1 mem
    exact .aside rfl rfl permitted (fun _ => covered rfl) rfl (fun _ => trivial) rfl
  | reply store =>
    cases List.mem_singleton.1 mem
    exact .aside rfl rfl permitted (fun _ => .of_whole rfl) rfl (fun _ => trivial) rfl
  | error store =>
    cases List.mem_singleton.1 mem
    exact step_finish rfl rfl permitted
  | nothing =>
    cases held with
    | true =>
      cases List.mem_singleton.1 mem
      exact .aside rfl rfl permitted (fun _ => .of_whole rfl) rfl (fun _ => trivial) rfl
    | false =>
      rcases List.mem_pair.1 mem with same | same <;> obtain ⟨rfl, rfl⟩ := Prod.mk.inj same <;>
        exact .aside rfl rfl permitted (fun _ => .of_whole rfl) rfl (fun _ => trivial) rfl

theorem step_of_loop {w : Write} {h : handlers.State} {applied : Bool}
    (mem : (s', l') ∈ next handlers s (.loop w h applied)) (fits : l'.parkedHolding = false) :
    Step s (.loop w h applied) s' l' := by
  obtain ⟨progress, -, same⟩ := List.mem_map.1 mem
  have held (phase : Phase handlers.State K) (is : phase.task = .permit) : phase.Covered := fun _ => is
  cases progress with
  | look h =>
    simp only [attempted] at same
    split at same <;> obtain ⟨rfl, rfl⟩ := Prod.mk.inj same
    · exact .aside rfl rfl (fun _ => rfl) (fun _ => .of_whole rfl) rfl (fun _ => trivial) rfl
    · exact .aside rfl rfl (fun _ => rfl) (fun _ => held _ rfl) rfl (fun _ => trivial) rfl
  | change store h =>
    obtain ⟨rfl, rfl⟩ := Prod.mk.inj same
    exact .aside rfl rfl (fun _ => rfl) (fun _ => held _ rfl) rfl (fun _ => trivial) rfl
  | reply store =>
    obtain ⟨rfl, rfl⟩ := Prod.mk.inj same
    exact .aside rfl rfl (fun _ => rfl) (fun _ => .of_whole rfl) rfl (fun _ => trivial) rfl
  | error store =>
    obtain ⟨rfl, rfl⟩ := Prod.mk.inj same
    exact .aside rfl rfl (fun _ => rfl) (fun _ => .of_whole rfl) rfl (fun _ => trivial) rfl
  | nothing =>
    simp only [attempted] at same
    split at same <;> obtain ⟨rfl, rfl⟩ := Prod.mk.inj same
    · cases fits
    · exact .aside rfl rfl (fun _ => rfl) (fun _ => .of_whole rfl) rfl (fun _ => trivial) rfl

theorem step_of_capture {dbs : List (Nat × List K)} {scan : Scan K}
    (mem : (s', l') ∈ next handlers s (.capture dbs scan)) : Step s (.capture dbs scan) s' l' := by
  simp only [next] at mem
  split at mem <;> cases List.mem_singleton.1 mem
  · rename_i step
    exact ⟨.inr ⟨rfl, rfl⟩, absurd rfl, fun _ => .of_whole rfl, rfl, fun scanned _ => Scanned.step scanned step,
      by simp [Phase.dataset]⟩
  · rename_i dbs' step
    refine ⟨.inr ⟨rfl, rfl⟩, absurd rfl, fun _ => .of_whole rfl, rfl, fun scanned _ => Scanned.through scanned step, ?_⟩
    intro dbs'' is
    cases is
    exact .inr rfl

theorem step_of_next {p : Pool (Server K) (Phase handlers.State K)} (mem : (s', l') ∈ next handlers p.shared l)
    (fits : Fits handlers p l s' l') : Step p.shared l s' l' := by
  cases l with
  | dispatch w =>
    cases List.mem_singleton.1 mem
    split <;> exact .stay rfl rfl rfl (fun _ => trivial) rfl
  | acquire w t =>
    cases t with
    | permit | done =>
      cases List.mem_singleton.1 mem
      exact .stay rfl rfl rfl (fun _ => trivial) rfl
    | _ => exact step_of_coordinate mem (fun _ => rfl) (fun _ => rfl) (fun _ => rfl) (fun _ _ => trivial) fun _ _ => rfl
  | pre w held =>
    refine step_of_pre mem fun unheld => ?_
    subst unheld
    exact fits
  | handle w h applied held =>
    refine step_of_handle mem fun unheld => ?_
    subst unheld
    exact fits
  | post held =>
    have fits : held = false → s'.store = p.shared.store := by
      rintro rfl
      exact fits
    exact step_of_evictions mem rfl fits rfl rfl (fun _ => trivial) rfl (step_finish rfl rfl (absurd rfl))
  | leave t =>
    cases t with
    | done =>
      cases List.mem_singleton.1 mem
      exact .stay rfl rfl rfl (fun _ => trivial) rfl
    | _ => exact step_of_coordinate mem (fun _ => rfl) (fun _ => rfl) (fun _ => rfl) (fun _ _ => trivial) fun _ _ => rfl
  | enter w h t =>
    cases t with
    | permit | done =>
      cases List.mem_singleton.1 mem
      exact .stay rfl rfl rfl (fun _ => trivial) rfl
    | _ => exact step_of_coordinate mem (fun _ => rfl) (fun _ => rfl) (fun _ => rfl) (fun _ _ => trivial) fun _ _ => rfl
  | loop w h applied => exact step_of_loop mem fits
  | drop w after t =>
    cases t with
    | done =>
      cases List.mem_singleton.1 mem
      cases after <;> exact .stay rfl rfl rfl (fun _ => trivial) rfl
    | _ => exact step_of_coordinate mem (fun _ => rfl) (fun _ => rfl) (fun _ => rfl) (fun _ _ => trivial) fun _ _ => rfl
  | wait w held =>
    cases held with
    | true | false =>
      rcases List.mem_pair.1 mem with same | same <;> obtain ⟨rfl, rfl⟩ := Prod.mk.inj same <;>
        exact .stay rfl rfl rfl (fun _ => trivial) rfl
  | answered => cases mem
  | quiesce t =>
    cases t with
    | guard =>
      cases List.mem_singleton.1 mem
      refine ⟨.inr ⟨rfl, rfl⟩, absurd rfl, fun _ => .of_whole rfl, rfl, fun _ _ => ⟨rfl, fun _ _ => rfl⟩, ?_⟩
      simp [Phase.dataset]
    | _ => exact step_of_coordinate mem (fun _ => rfl) (fun _ => rfl) (fun _ => rfl) (fun _ _ => trivial) fun _ _ => rfl
  | capture dbs scan => exact step_of_capture mem
  | captured dbs =>
    cases List.mem_singleton.1 mem
    exact ⟨.inr ⟨rfl, rfl⟩, absurd rfl, fun _ => .of_whole rfl, rfl, fun _ _ => trivial, fun _ is => .inl is⟩
  | release dbs t =>
    cases t with
    | done =>
      cases List.mem_singleton.1 mem
      exact ⟨.inr ⟨rfl, rfl⟩, absurd rfl, fun _ => .of_whole rfl, rfl, fun _ _ => trivial, fun _ is => .inl is⟩
    | _ => exact step_of_coordinate mem (fun _ => rfl) (fun _ => rfl) (fun _ => rfl) (fun _ _ => trivial) fun _ _ => rfl
  | saved dbs => cases mem

/-! ## The invariant -/

/-- Half-applied commands have permits, nobody is parked with one, and what snapshots have read is there. -/
structure Sound (p : Pool (Server K) (Phase handlers.State K)) : Prop where
  coordinator : Inv ⟨p.shared.coordinator, p.tasks.map Phase.task⟩
  covered : ∀ l ∈ p.tasks, l.Covered
  parked : ∀ l ∈ p.tasks, l.parkedHolding = false
  scans : ∀ l ∈ p.tasks, l.Scans handlers.isEmpty p.shared.store

theorem Phase.Scans.of_unguarded {store : Store K} (free : l.task ≠ .guard) : l.Scans handlers.isEmpty store := by
  cases l with
  | capture dbs scan => exact absurd rfl free
  | captured dbs => exact absurd rfl free
  | _ => trivial

/-- A task with a permit does not come to a guard. -/
theorem unguarded_of_permit {c c' : Coordinator} {t : Task} (moved : Moved c c' .permit t) : t ≠ .guard := by
  rintro rfl
  rcases moved with taken | ⟨-, marks⟩
  · have is := (Prod.mk.inj (List.mem_singleton.1 taken)).2
    split at is <;> cases is
  · cases (Task.marks_inj marks).1

variable {before after : List (Phase handlers.State K)}

theorem Sound.step (sound : Sound ⟨s, before ++ l :: after⟩) (step : Step s l s' l') :
    Sound ⟨s', before ++ l' :: after⟩ := by
  have here : l ∈ before ++ l :: after := by simp
  refine ⟨sound.coordinator.moved step.moved, fun x mem => ?_, fun x mem => ?_, fun x mem => ?_⟩
  · rcases mem_of_cut mem with rfl | old
    · exact step.covered (sound.covered l here)
    · exact sound.covered x old
  · rcases mem_of_cut mem with rfl | old
    · exact step.parked
    · exact sound.parked x old
  · by_cases same : s'.store = s.store
    · rcases mem_of_cut mem with rfl | old
      · exact step.scans (sound.scans l here) same
      · rw [same]
        exact sound.scans x old
    · have permit : l.task = .permit := step.permitted same
      refine .of_unguarded fun guard => ?_
      rcases mem_of_cut mem with rfl | old
      · exact unguarded_of_permit (permit ▸ step.moved) guard
      · exact sound.coordinator.noGuard (List.mem_map.2 ⟨l, here, permit⟩) (List.mem_map.2 ⟨x, old, guard⟩)

theorem Sound.start (sound : Sound ⟨s, before⟩) (begins : entry handlers l = true) : Sound ⟨s, before ++ [l]⟩ := by
  have outside : l.task.marks = Task.done.marks ∧ l.halfway = false ∧ l.parkedHolding = false ∧
      l.Scans handlers.isEmpty s.store := by
    cases l with
    | dispatch w => exact ⟨rfl, rfl, rfl, trivial⟩
    | quiesce t =>
      cases t with
      | lock => exact ⟨rfl, rfl, rfl, trivial⟩
      | _ => cases begins
    | _ => cases begins
  obtain ⟨marks, whole, parked, scans⟩ := outside
  refine ⟨?_, fun x mem => ?_, fun x mem => ?_, fun x mem => ?_⟩
  · rw [List.map_append]
    exact sound.coordinator.add marks
  all_goals
    rcases List.mem_append.1 mem with old | new
  · exact sound.covered x old
  · rw [List.mem_singleton.1 new]
    exact .of_whole whole
  · exact sound.parked x old
  · rw [List.mem_singleton.1 new]
    exact parked
  · exact sound.scans x old
  · rw [List.mem_singleton.1 new]
    exact scans

/-- Nothing is half applied while a snapshot has the guard. -/
theorem Sound.whole {p : Pool (Server K) (Phase handlers.State K)} (sound : Sound p) (mem : l ∈ p.tasks)
    (guard : l.task = .guard) : ∀ x ∈ p.tasks, x.halfway = false := by
  intro x other
  by_contra half
  have permit : x.task = .permit := sound.covered x other (by simpa using half)
  exact sound.coordinator.noGuard (List.mem_map.2 ⟨x, other, permit⟩) (List.mem_map.2 ⟨l, mem, guard⟩)

end

/-! ## Runs -/

section

variable {handlers : Handlers K} {p : Pool (Server K) (Phase handlers.State K)}
  {t : Interleave.Turn (Phase handlers.State K)}

/-- A moment at which the keyspace is `dbs` and no command is half applied. -/
def Moment (p : Pool (Server K) (Phase handlers.State K)) (dbs : List (Nat × List K)) : Prop :=
  dbs = dataset handlers.isEmpty p.shared.store ∧ ∀ l ∈ p.tasks, l.halfway = false

theorem Sound.advance (sound : Sound p) (meets : p.Meets (next handlers) (Fits handlers) t) :
    Sound (play handlers t p) := by
  unfold play
  rcases advance_cases (entry handlers) meets with
    same | ⟨l, begins, started⟩ | ⟨before, l, after, s', l', split, mem, fits, stepped⟩
  · rw [same]
    exact sound
  · rw [started]
    exact sound.start begins
  · obtain ⟨s, tasks⟩ := p
    dsimp only at split
    subst split
    rw [stepped]
    exact sound.step (step_of_next mem fits)

/-- A task that has captured something has had it before, or this is the moment. -/
theorem Sound.captures (sound : Sound p) (meets : p.Meets (next handlers) (Fits handlers) t)
    {dbs : List (Nat × List K)} (captured : ∃ l ∈ (play handlers t p).tasks, l.dataset = some dbs) :
    (∃ l ∈ p.tasks, l.dataset = some dbs) ∨ Moment (play handlers t p) dbs := by
  have sound' := sound.advance meets
  obtain ⟨x, mem', is⟩ := captured
  unfold play at mem' sound' ⊢
  rcases advance_cases (entry handlers) meets with
    same | ⟨l, begins, started⟩ | ⟨before, l, after, s', l', split, mem, fits, stepped⟩
  · rw [same] at mem'
    exact .inl ⟨x, mem', is⟩
  · rw [started] at mem'
    rcases List.mem_append.1 mem' with old | new
    · exact .inl ⟨x, old, is⟩
    · rw [List.mem_singleton.1 new] at is
      cases l with
      | captured dbs => cases begins
      | release dbs t => cases begins
      | saved dbs => cases begins
      | _ => cases is
  · rw [stepped] at mem'
    have old (x) (mem : x ∈ before ++ after) : x ∈ p.tasks := by
      rw [split]
      simp only [List.mem_append, List.mem_cons] at mem ⊢
      tauto
    have cut : x = l' ∨ x ∈ before ++ after := by
      simp only [List.mem_append, List.mem_cons] at mem' ⊢
      tauto
    rcases cut with rfl | other
    · rcases (step_of_next mem fits).dataset dbs is with before' | new
      · exact .inl ⟨l, by rw [split]; simp, before'⟩
      · subst new
        rw [stepped] at sound' ⊢
        exact .inr ⟨sound'.scans _ mem', sound'.whole mem' rfl⟩
    · exact .inl ⟨x, old x other, is⟩

theorem sound_startPool (store : Store K) : Sound (startPool handlers store) :=
  ⟨Inv.new, nofun, nofun, nofun⟩

theorem permitted_of_meets (meets : p.Meets (next handlers) (Fits handlers) t) :
    p.Meets (next handlers) (Permitted handlers) t := by
  cases t with
  | start l => trivial
  | step i choice =>
    intro l s' l' task chosen
    exact (step_of_next (List.mem_of_getElem? chosen) (meets l s' l' task chosen)).permitted

/-- **Snapshots are of a moment**, in every interleaving in which no blocking command changes anything without a
permit and BLMOVE does not come to wait. The shards are copied one after the other; what makes them one moment is
that no write has a permit from the first to the last. -/
theorem snapshots_pointInTime (handlers : Handlers K) (turns : List (Interleave.Turn (Phase handlers.State K)))
    (store : Store K)
    (fits : Always (play handlers) (fun t p => p.Meets (next handlers) (Fits handlers) t) turns
      (startPool handlers store)) : PointInTime handlers turns store := by
  have sound : Sound (startPool handlers store) := sound_startPool store
  have keep (t) (p : Pool (Server K) (Phase handlers.State K)) (sound : Sound p)
      (meets : p.Meets (next handlers) (Fits handlers) t) : Sound (play handlers t p) := sound.advance meets
  obtain ⟨permitted, final⟩ := fits.of_invariant sound keep fun _ _ _ meets => permitted_of_meets meets
  refine ⟨permitted, final.parked, fun l mem dbs is => ?_⟩
  refine fits.born (fun p dbs => ∃ l ∈ p.tasks, l.dataset = some dbs) Moment sound keep ?_
    (fun _ _ _ sound meets => sound.captures meets) ⟨l, mem, is⟩
  rintro dbs ⟨l, mem, -⟩
  cases mem

end

/-! ## BLMOVE during a snapshot -/

/-- The moves between lists, at the time zero; nothing is evicted. -/
def moves : Handlers Database where
  State := Unit
  start _ := ()
  step w _ store :=
    let left (i : Nat) : Option Bool := (getStr w.args i).map fun s => s.toList.map Char.toUpper == "LEFT".toList
    match getBytesVec w.args 1, getBytesVec w.args 2, left 3, left 4, store[w.db]? with
    | some src, some dst, some fromLeft, some toLeft, some (shard :: shards) =>
      let db : ShardedDatabase := ⟨shard :: shards, List.cons_ne_nil _ _⟩
      match db.lmoveAtomic 0 ListThresholds.default src dst fromLeft toLeft with
      | (db, .ok (some _)) => [.reply (store.set w.db db.shards)]
      | (_, .ok none) => [.nothing]
      | (db, .error _) => [.error (store.set w.db db.shards)]
    | _, _, _, _, _ => [.error store]
  evict _ := []
  isEmpty s := s.entries.entries.isEmpty

/-- One element, in a list of the second shard. -/
def oneElement : Store Database :=
  [[.new, Database.insert .new [98] (.new (.list (.linked ⟨[[120]], 1⟩)))]]

def blmove : Write where
  db := 0
  cmd := "BLMOVE"
  args := [.simpleString "BLMOVE", .simpleString "b", .simpleString "a", .simpleString "LEFT", .simpleString "LEFT",
    .simpleString "0"]

/-- The snapshot has read the first shard when BLMOVE takes the element there. -/
def moveBehindScan : List (Interleave.Turn (Phase moves.State Database)) :=
  [.start (.quiesce .lock), .step 0 0, .step 0 0, .step 0 0, .step 0 0, .step 0 0, .step 0 0, .step 0 0,
    .start (.dispatch blmove), .step 1 0, .step 1 0, .step 1 0, .step 0 0, .step 0 0, .step 0 0]

/-- How many keys there are. -/
def keyCount (dbs : List (Nat × List Database)) : Nat :=
  (dbs.map fun d => (d.2.map fun s => s.entries.entries.length).sum).sum

theorem keyCount_moments (n : Nat) (bound : n < 16) :
    keyCount (dataset moves.isEmpty
      (run (play moves) (moveBehindScan.take n) (startPool moves oneElement)).shared.store) = 1 := by
  revert n
  decide +kernel

/-- **An element that moves behind the scan** is captured in neither list. -/
theorem snapshot_misses_moving_element : ¬PointInTime moves moveBehindScan oneElement := by
  intro claim
  have captured : ((run (play moves) moveBehindScan (startPool moves oneElement)).tasks.filterMap Phase.dataset).map
      keyCount = [0] := by
    decide +kernel
  obtain ⟨dbs, mem, lost⟩ := List.mem_map.1 (captured ▸ List.mem_singleton_self 0)
  obtain ⟨l, task, is⟩ := List.mem_filterMap.1 mem
  obtain ⟨early, late, turns, same, -⟩ := claim.moment l task dbs is
  have taken : moveBehindScan.take early.length = early := by
    rw [turns, List.take_left]
  have bound : early.length < 16 := by
    have total : moveBehindScan.length = 15 := rfl
    rw [turns, List.length_append] at total
    omega
  have whole := keyCount_moments early.length bound
  rw [taken, ← same, lost] at whole
  cases whole

def lmove : Write := { blmove with cmd := "LMOVE", args := .simpleString "LMOVE" :: blmove.args.tail.dropLast }

/-- A snapshot, and a move that gets its permit behind it. -/
theorem snapshots_pointInTime_before_move :
    PointInTime moves (.start (.quiesce .lock) :: List.replicate 12 (.step 0 0) ++
      .start (.dispatch lmove) :: List.replicate 7 (.step 1 0)) oneElement := by
  refine snapshots_pointInTime _ _ _ ⟨trivial, ?_, ?_, ?_, ?_, ?_, ?_, ?_, ?_, ?_, ?_, ?_, ?_, trivial, ?_, ?_, ?_, ?_, ?_,
    ?_, ?_, trivial⟩
  all_goals
    intro l s' l' task chosen
    cases task
    exact trivial

end Snapshot

end Persistence

end NexradeCache
