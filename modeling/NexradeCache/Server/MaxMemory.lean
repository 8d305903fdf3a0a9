import NexradeCache.Lib.Trace
import NexradeCache.Server.Connection

/-!
# `maxmemory` without eviction (`dispatch_tracked` and `evict_if_needed`)

Before and after a write the dispatcher evicts down to the limit. Under `noeviction`, the policy that is
to return an error on writes when the limit is reached, `evict_if_needed` does nothing, and nothing else
looks at the limit.
-/

namespace NexradeCache

open Trace

/-- The server with a `maxmemory` and a policy; the rest is what an eviction meets. -/
def Host.withMaxMemory (host : Host) (policy : MaxMemoryPolicy) (limit : Nat) (cycleClock : Nat → Nat → Nat → Nat)
    (orders : Nat → IterOrder (Bytes × Entry)) (clock : Nat → Nat) (fuel : Nat) : Host :=
  { host with
    evict := fun s => ((s.evictIfNeeded policy limit cycleClock orders clock fuel).map Prod.fst).getD s }

/-- A command on its way to `dispatch_tracked`. -/
structure Incoming where
  dispatched : Nat
  db : Nat
  user : String
  clientId : Nat
  cmd : String
  args : List Resp

namespace Incoming

variable (host : Host) (q : Incoming) (srv : Db)

def dispatch : Db × Resp := dispatchTracked host q.dispatched q.db q.user q.clientId q.cmd q.args srv

/-- What the handler makes of the store. -/
def handled : Store × Resp :=
  (dispatchInner host.env srv.shared.acl q.user (touchedKeys srv.shared q.cmd q.args) q.cmd q.db q.args).exec
    (host.clock q.dispatched) 0 srv.store

/-- The command would add data. -/
def Adds : Prop := srv.store.estimatedMemoryBytes < (q.handled host srv).1.estimatedMemoryBytes

/-- It is answered with an error and changes nothing. -/
def Refused : Prop := (q.dispatch host srv).2.isError = true ∧ (q.dispatch host srv).1.store = srv.store

/-- Writes like this one are off, for another reason than memory. -/
def WritesOff : Prop := NexradeCache.WritesOff host q.dispatched q.cmd srv.shared

instance : Decidable (q.Adds host srv) := inferInstanceAs (Decidable (_ < _))

instance : Decidable (q.WritesOff host srv) := inferInstanceAs (Decidable (NexradeCache.WritesOff ..))

end Incoming

section
variable {host : Host} {limit : Nat} {cycleClock : Nat → Nat → Nat → Nat} {orders : Nat → IterOrder (Bytes × Entry)}
  {clock : Nat → Nat} {fuel : Nat}

@[simp] theorem noEviction_evict (s : Store) :
    (host.withMaxMemory .noEviction limit cycleClock orders clock fuel).evict s = s := by
  simp [Host.withMaxMemory, Store.evictIfNeeded]

/-- Under `noeviction` the handler runs, unless writes are off. -/
theorem dispatch_noEviction {q : Incoming} {srv : Db}
    (on : ¬ (isWriteCommand q.cmd = true ∧
      q.WritesOff (host.withMaxMemory .noEviction limit cycleClock orders clock fuel) srv)) :
    (q.dispatch (host.withMaxMemory .noEviction limit cycleClock orders clock fuel) srv).1.store =
      (q.handled host srv).1 := by
  have admitted : refuseWrite (host.withMaxMemory .noEviction limit cycleClock orders clock fuel) q.dispatched q.cmd
      srv.shared = none := refuseWrite_on fun write off => on ⟨write, off⟩
  unfold Incoming.dispatch dispatchTracked Incoming.handled
  rw [admitted]
  simp only [noEviction_evict, ite_self]
  rfl

theorem dispatch_off {q : Incoming} {srv : Db} (write : isWriteCommand q.cmd = true)
    (off : q.WritesOff host srv) : q.Refused host srv := by
  obtain ⟨text, refused⟩ := refuseWrite_off write off
  unfold Incoming.Refused Incoming.dispatch dispatchTracked
  rw [refused]
  exact ⟨rfl, rfl⟩

theorem refused_iff {q : Incoming} {srv : Db} (write : isWriteCommand q.cmd = true) (adds : q.Adds host srv) :
    q.Refused (host.withMaxMemory .noEviction limit cycleClock orders clock fuel) srv ↔
      q.WritesOff (host.withMaxMemory .noEviction limit cycleClock orders clock fuel) srv := by
  constructor
  · intro refused
    by_contra on
    have same : (q.handled host srv).1 = srv.store :=
      (dispatch_noEviction fun h => on h.2).symm.trans refused.2
    rw [Incoming.Adds, same] at adds
    exact Nat.lt_irrefl _ adds
  · exact dispatch_off write

/-- **`noeviction` as it is**: over the limit, a write that would add data is refused exactly if writes are
off for another reason. And a run in which that is so throughout stays below the limit and the growth of
one command. -/
theorem noEviction_enforced (host : Host) (limit : Nat) (cycleClock : Nat → Nat → Nat → Nat)
    (orders : Nat → IterOrder (Bytes × Entry)) (clock : Nat → Nat) (fuel : Nat) :
    let server := host.withMaxMemory .noEviction limit cycleClock orders clock fuel
    let step (q : Incoming) (srv : Db) : Db := (q.dispatch server srv).1
    (∀ (q : Incoming) (srv : Db), isWriteCommand q.cmd = true → limit < srv.store.estimatedMemoryBytes →
        q.Adds host srv → (q.Refused server srv ↔ q.WritesOff server srv)) ∧
      ∀ (growth : Nat) (qs : List Incoming) (srv : Db), srv.store.estimatedMemoryBytes ≤ limit + growth →
        Always step (fun q srv => (step q srv).store.estimatedMemoryBytes ≤ srv.store.estimatedMemoryBytes + growth ∧
          (limit < srv.store.estimatedMemoryBytes → q.Adds host srv →
            isWriteCommand q.cmd = true ∧ q.WritesOff server srv)) qs srv →
        (run step qs srv).store.estimatedMemoryBytes ≤ limit + growth := by
  intro server step
  refine ⟨fun q srv write _ adds => refused_iff write adds, fun growth qs srv start meets => ?_⟩
  refine (@Always.of_invariant _ _ _ _ (fun _ _ => True) (fun srv : Db => srv.store.estimatedMemoryBytes ≤ limit + growth)
    _ _ meets start (fun q srv bound ok => ?_) fun _ _ _ _ => trivial).2
  by_cases off : isWriteCommand q.cmd = true ∧ q.WritesOff server srv
  · have same : (step q srv).store = srv.store := (dispatch_off off.1 off.2).2
    rw [same]
    exact bound
  · have ran : (step q srv).store = (q.handled host srv).1 := dispatch_noEviction off
    by_cases exceeds : limit < srv.store.estimatedMemoryBytes
    · have adds : ¬ q.Adds host srv := fun adds => off (ok.2 exceeds adds)
      rw [ran]
      exact (Nat.not_lt.1 adds).trans bound
    · exact ok.1.trans (Nat.add_le_add_right (Nat.not_lt.1 exceeds) growth)

end

/-! ## Three SETs on a server of one byte -/

def oneByteHost (policy : MaxMemoryPolicy) : Host :=
  ({ callHost [] with env := setEnv } : Host).withMaxMemory policy 1 (fun _ _ _ => 0) (fun _ => .asStored) (fun _ => 0) 4

def setKey (key : String) : Incoming := ⟨0, 0, "default", 1, "SET", [bulk "SET", bulk key, bulk "v"]⟩

/-- The second SET goes through although the limit is passed, and so does the third: the estimate ends two
commands above the limit. -/
theorem noEviction_not_enforced :
    let server := oneByteHost .noEviction
    let step (q : Incoming) (srv : Db) : Db := (q.dispatch server srv).1
    let before := step (setKey "a") (freshDb false)
    1 < before.store.estimatedMemoryBytes ∧ (setKey "b").Adds server before ∧ ¬ (setKey "b").Refused server before ∧
      (before.store.estimatedMemoryBytes = 66 ∧
        (run step [setKey "b", setKey "c"] before).store.estimatedMemoryBytes = 3 * 66) := by
  refine ⟨by decide +kernel, by decide +kernel, fun refused => ?_, by decide +kernel⟩
  exact absurd refused.1 (by decide +kernel)

/-- A SET that the pause refuses, and a run of one SET under the limit. -/
theorem noEviction_enforced_paused :
    let server := oneByteHost .noEviction
    let step (q : Incoming) (srv : Db) : Db := (q.dispatch server srv).1
    let full := step (setKey "a") (freshDb false)
    let paused := { full with shared.paused := true }
    ((setKey "b").Refused server paused ↔ (setKey "b").WritesOff server paused) ∧
      (run step [setKey "a"] (freshDb false)).store.estimatedMemoryBytes ≤ 1 + 66 := by
  intro server step full paused
  have all := noEviction_enforced { callHost [] with env := setEnv } 1 (fun _ _ _ => 0) (fun _ => .asStored)
    (fun _ => 0) 4
  refine ⟨all.1 (setKey "b") paused (by decide) (by decide +kernel) (by decide +kernel),
    all.2 66 [setKey "a"] (freshDb false) (by decide +kernel) ⟨⟨by decide +kernel, fun exceeds => ?_⟩, trivial⟩⟩
  exact absurd exceeds (by decide +kernel)

end NexradeCache
