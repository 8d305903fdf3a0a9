import Mathlib.Data.List.Nodup

/-!
# Logs that are written behind the state

Operations change a state first and get into a log later; in between they are `Pending`. The state is
what the log and then the pending operations lead to, as long as an operation that is logged out of
turn commutes with the ones before it (`all_overtake`).
-/

namespace Replay

variable {K W : Type} (apply : W → K → K)

/-- The operations one after the other. -/
def all (log : List W) (k : K) : K := log.foldl (fun k w => apply w k) k

def Commute (v w : W) : Prop := ∀ k, apply w (apply v k) = apply v (apply w k)

variable {apply}

theorem all_append (v w : List W) (k : K) : all apply (v ++ w) k = all apply w (all apply v k) := List.foldl_append

/-- An operation may go before those it commutes with. -/
theorem all_hoist {w : W} {earlier : List W} (commute : ∀ v ∈ earlier, Commute apply v w) (k : K) :
    all apply (earlier ++ [w]) k = all apply (w :: earlier) k := by
  induction earlier generalizing k with
  | nil => rfl
  | cons v earlier ih =>
    have rest := ih (fun v mem => commute v (.tail _ mem)) (apply v k)
    have swap := commute v (.head _) k
    calc all apply (v :: earlier ++ [w]) k
        = all apply (earlier ++ [w]) (apply v k) := rfl
      _ = all apply earlier (apply w (apply v k)) := rest
      _ = all apply earlier (apply v (apply w k)) := by rw [swap]
      _ = all apply (w :: v :: earlier) k := rfl

theorem all_overtake {w : W} {log earlier later : List W} (commute : ∀ v ∈ earlier, Commute apply v w) (k : K) :
    all apply (log ++ [w] ++ (earlier ++ later)) k = all apply (log ++ (earlier ++ w :: later)) k := by
  have hoist := all_hoist commute (all apply log k)
  calc all apply (log ++ [w] ++ (earlier ++ later)) k
      = all apply later (all apply (w :: earlier) (all apply log k)) := by simp [all, List.foldl_append]
    _ = all apply later (all apply (earlier ++ [w]) (all apply log k)) := by rw [hoist]
    _ = all apply (log ++ (earlier ++ w :: later)) k := by simp [all, List.foldl_append]

/-- An operation that is on its way to the log, with its place in the order of the changes. -/
structure Pending (W : Type) where
  id : Nat
  op : W

variable (apply) in
/-- To log the operation now overtakes only what it commutes with. -/
def InOrder (pending : List (Pending W)) (e : Pending W) : Prop :=
  ∀ earlier later, pending = earlier ++ e :: later → ∀ v ∈ earlier, Commute apply v.op e.op

theorem InOrder.alone (e : Pending W) : InOrder apply [e] e := by
  intro earlier later split v mem
  have len := congrArg List.length split
  simp only [List.length_append, List.length_cons, List.length_nil] at len
  have none : earlier = [] := List.length_eq_zero_iff.1 (by omega)
  rw [none] at mem
  cases mem

/-- What is left when an operation is logged. -/
def settle (pending : List (Pending W)) (id : Nat) : List (Pending W) := pending.filter (·.id ≠ id)

theorem settle_eq {earlier later : List (Pending W)} {e : Pending W}
    (distinct : ((earlier ++ e :: later).map Pending.id).Nodup) :
    settle (earlier ++ e :: later) e.id = earlier ++ later := by
  rw [List.map_append, List.map_cons, List.nodup_middle, List.nodup_cons, ← List.map_append] at distinct
  have keep : ∀ x ∈ earlier ++ later, decide (x.id ≠ e.id) = true := by
    intro x mem
    have ne : x.id ≠ e.id := fun same => distinct.1 (same ▸ List.mem_map_of_mem mem)
    simpa using ne
  have kept := List.filter_eq_self.2 keep
  rw [List.filter_append] at kept
  rw [settle, List.filter_append, List.filter_cons, if_neg (by simp)]
  exact kept

/-- Logging an operation in order leads to the same state, and leaves the others pending. -/
theorem all_settle (log : List W) {pending : List (Pending W)} {e : Pending W} (mem : e ∈ pending)
    (distinct : (pending.map Pending.id).Nodup) (order : InOrder apply pending e) (k : K) :
    all apply (log ++ [e.op] ++ (settle pending e.id).map Pending.op) k = all apply (log ++ pending.map Pending.op) k ∧
      pending.Perm (e :: settle pending e.id) := by
  obtain ⟨earlier, later, split⟩ := List.append_of_mem mem
  have commute : ∀ v ∈ earlier.map Pending.op, Commute apply v e.op := by
    intro v mem
    obtain ⟨x, inside, rfl⟩ := List.mem_map.1 mem
    exact order earlier later split x inside
  subst split
  rw [settle_eq distinct, List.map_append, List.map_append, List.map_cons]
  exact ⟨all_overtake commute k, List.perm_middle⟩

end Replay
