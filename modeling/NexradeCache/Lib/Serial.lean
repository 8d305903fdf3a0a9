import Mathlib.Data.List.Basic
import Mathlib.Data.List.Nodup
import Mathlib.Data.Set.Basic

/-!
# Serial orders of a log

A log is the list of operations that ran, each with the unit it belongs to and the reply it got.
`Explains s log s'` says that the log, run in its order from `s`, gives these replies and ends in
`s'`. A log is `Separable` if an operation that runs between two operations of another unit
commutes with the earlier of them. Then the units can be run one after the other, in the order of
their last operations, with the same replies and the same final state (`Separable.serial`).
-/

namespace Serial

variable {U Op R S : Type}

/-- An operation that ran and what it answered, with the unit (the request, the transaction) it is part of. -/
structure Entry (U Op R : Type) where
  unit : U
  op : Op
  reply : R

variable (exec : Op → S → S × R)

/-- The log, run in order from `s`, gives its replies and ends in `s'`. -/
def Explains : S → List (Entry U Op R) → S → Prop
  | s, [], s' => s = s'
  | s, e :: log, s' => (exec e.op s).2 = e.reply ∧ Explains (exec e.op s).1 log s'

/-- In either order the two operations leave the same state and get the same replies. -/
def Commute (a b : Op) : Prop :=
  ∀ s, (exec b (exec a s).1).1 = (exec a (exec b s).1).1 ∧
    (exec a (exec b s).1).2 = (exec a s).2 ∧ (exec b (exec a s).1).2 = (exec b s).2

/-- What runs between two operations of a unit commutes with the earlier one. -/
def Separable (log : List (Entry U Op R)) : Prop :=
  ∀ x y z, [x, y, z].Sublist log → x.unit = z.unit → y.unit ≠ x.unit → Commute exec x.op y.op

/-- The operations of one unit. -/
def block [DecidableEq U] (log : List (Entry U Op R)) (u : U) : List (Entry U Op R) :=
  log.filter fun e => e.unit = u

/-- The operations of the other units. -/
def without [DecidableEq U] (log : List (Entry U Op R)) (u : U) : List (Entry U Op R) :=
  log.filter fun e => e.unit ≠ u

variable {exec} {s s' : S} {log log' m : List (Entry U Op R)}

theorem explains_append :
    Explains exec s (log ++ log') s' ↔ ∃ t, Explains exec s log t ∧ Explains exec t log' s' := by
  induction log generalizing s with
  | nil => simp [Explains]
  | cons e log ih => simp [Explains, ih, and_assoc]

theorem Separable.sublist (h : Separable exec log) (sub : log'.Sublist log) : Separable exec log' :=
  fun x y z inside => h x y z (inside.trans sub)

theorem sublist_snoc {l : List (Entry U Op R)} {x z : Entry U Op R} (h : (l ++ [x]).Sublist (log ++ [z])) :
    (l ++ [x]).Sublist log ∨ x = z ∧ l.Sublist log := by
  obtain ⟨a, b, split, ha, hb⟩ := List.sublist_append_iff.1 h
  rcases List.sublist_singleton.1 hb with rfl | rfl
  · rw [List.append_nil] at split
    exact .inl (split ▸ ha)
  · obtain ⟨rfl, same⟩ := List.append_inj' split rfl
    cases same
    exact .inr ⟨rfl, ha⟩

theorem Separable.snoc {z : Entry U Op R} (sep : Separable exec log)
    (new : ∀ x y, [x, y].Sublist log → x.unit = z.unit → y.unit ≠ x.unit → Commute exec x.op y.op) :
    Separable exec (log ++ [z]) := by
  intro x y z' sub same other
  rcases sublist_snoc (l := [x, y]) sub with inside | ⟨rfl, inside⟩
  · exact sep x y z' inside same other
  · exact new x y inside same other

/-- What ran behind an operation of `u` commutes with it: `u` may go on. -/
def Open (exec : Op → S → S × R) (log : List (Entry U Op R)) (u : U) : Prop :=
  ∀ x y, [x, y].Sublist log → x.unit = u → y.unit ≠ u → Commute exec x.op y.op

theorem Separable.open_snoc {z : Entry U Op R} (sep : Separable exec log) (open_ : Open exec log z.unit) :
    Separable exec (log ++ [z]) :=
  sep.snoc fun x y sub same other => open_ x y sub same (same ▸ other)

theorem Open.of_unstarted {u : U} (none : ∀ e ∈ log, e.unit ≠ u) : Open exec log u :=
  fun x _ sub same => (none x (sub.subset (by simp)) same).elim

/-- One more operation: of the unit itself, or one that commutes with what the unit did. -/
theorem Open.snoc {u : U} {z : Entry U Op R} (h : Open exec log u)
    (commutes : z.unit ≠ u → ∀ x ∈ log, x.unit = u → Commute exec x.op z.op) : Open exec (log ++ [z]) u := by
  intro x y sub same other
  rcases sublist_snoc (l := [x]) sub with inside | ⟨rfl, inside⟩
  · exact h x y inside same other
  · exact commutes other x (inside.subset (by simp)) same

/-- An operation moves behind operations it commutes with. -/
theorem Explains.move {e : Entry U Op R} (commutes : ∀ y ∈ m, Commute exec e.op y.op)
    (h : Explains exec s (e :: m) s') : Explains exec s (m ++ [e]) s' := by
  induction m generalizing s with
  | nil => exact h
  | cons y m ih =>
    obtain ⟨he, hy, rest⟩ := h
    obtain ⟨state, first, second⟩ := commutes y (by simp) s
    refine ⟨second.symm.trans hy, ih (fun y' hy' => commutes y' (by simp [hy'])) ⟨first.trans he, ?_⟩⟩
    rwa [← state]

variable [DecidableEq U]

theorem block_append_self {u : U} {z : Entry U Op R} (same : z.unit = u) :
    block (log ++ [z]) u = block log u ++ [z] := by
  simp [block, List.filter_append, same]

theorem block_append_other {u : U} {z : Entry U Op R} (other : z.unit ≠ u) :
    block (log ++ [z]) u = block log u := by
  simp [block, List.filter_append, other]

theorem block_eq_nil {u : U} (none : ∀ e ∈ log, e.unit ≠ u) : block log u = [] := by
  rw [block, List.filter_eq_nil_iff]
  intro e he
  simpa using none e he

theorem mem_without {u : U} {e : Entry U Op R} : e ∈ without log u ↔ e ∈ log ∧ e.unit ≠ u := by
  simp [without]

theorem block_without {u v : U} (ne : v ≠ u) : block (without log u) v = block log v := by
  rw [block, block, without, List.filter_filter]
  refine List.filter_congr fun e _ => ?_
  by_cases h : e.unit = v
  · simp [h, ne]
  · simp [h]

/-- The operations of a unit move behind the others. -/
theorem Explains.gather {u : U}
    (pairs : log.Pairwise fun x y => x.unit = u → y.unit ≠ u → Commute exec x.op y.op)
    (h : Explains exec s log s') : Explains exec s (without log u ++ block log u) s' := by
  induction log generalizing s with
  | nil => exact h
  | cons e log ih =>
    obtain ⟨later, pairs⟩ := List.pairwise_cons.1 pairs
    have rest : Explains exec s (e :: (without log u ++ block log u)) s' := ⟨h.1, ih pairs h.2⟩
    by_cases mine : e.unit = u
    · have here : without (e :: log) u ++ block (e :: log) u = without log u ++ [e] ++ block log u := by
        simp [without, block, mine]
      rw [here]
      rw [← List.cons_append] at rest
      obtain ⟨t, before, after⟩ := explains_append.1 rest
      refine explains_append.2 ⟨t, before.move fun y hy => ?_, after⟩
      obtain ⟨mem, other⟩ := mem_without.1 hy
      exact later y mem mine other
    · have here : without (e :: log) u ++ block (e :: log) u = e :: (without log u ++ block log u) := by
        simp [without, block, mine]
      rwa [here]

/-- The last operation of a unit and all others of the unit move to the end. -/
theorem Separable.explains_last {z : Entry U Op R} (sep : Separable exec (log ++ [z]))
    (h : Explains exec s (log ++ [z]) s') :
    ∃ t, Explains exec s (without log z.unit) t ∧ Explains exec t (block (log ++ [z]) z.unit) s' := by
  obtain ⟨t, before, last⟩ := explains_append.1 h
  have pairs : log.Pairwise fun x y => x.unit = z.unit → y.unit ≠ z.unit → Commute exec x.op y.op := by
    refine List.pairwise_iff_forall_sublist.2 fun {x y} sub same other => ?_
    exact sep x y z (sub.append (List.Sublist.refl [z])) same (same ▸ other)
  obtain ⟨t', early, mine⟩ := explains_append.1 (before.gather pairs)
  exact ⟨t', early, by rw [block_append_self rfl]; exact explains_append.2 ⟨t, mine, last⟩⟩

/-- **A separable log has a serial order.** -/
theorem Separable.serial (sep : Separable exec log) (h : Explains exec s log s') :
    ∃ order : List U, order.Nodup ∧ (∀ u, u ∈ order ↔ ∃ e ∈ log, e.unit = u) ∧
      Explains exec s (order.flatMap (block log)) s' := by
  induction n : log.length using Nat.strongRecOn generalizing log s' with
  | _ n ih =>
    subst n
    rcases List.eq_nil_or_concat log with rfl | ⟨rest, z, rfl⟩
    · exact ⟨[], by simp, by simp, h⟩
    -- The unit of the last operation is the last of the serial order.
    · rw [List.concat_eq_append] at sep h ih ⊢
      obtain ⟨t, early, last⟩ := sep.explains_last h
      have inside : (without rest z.unit).Sublist (rest ++ [z]) :=
        List.filter_sublist.trans (List.sublist_append_left rest [z])
      have shorter : (without rest z.unit).length < (rest ++ [z]).length := by
        rw [List.length_append]
        exact Nat.lt_succ_of_le (List.length_filter_le _ _)
      obtain ⟨order, nodup, units, serial⟩ := ih _ shorter (sep.sublist inside) early rfl
      have new : z.unit ∉ order := by
        rw [units]
        rintro ⟨e, he, same⟩
        exact (mem_without.1 he).2 same
      have same : order.flatMap (block (without rest z.unit)) = order.flatMap (block (rest ++ [z])) := by
        refine List.flatMap_congr fun u hu => ?_
        have ne : u ≠ z.unit := fun e => new (e ▸ hu)
        rw [block_without ne, block_append_other ne.symm]
      refine ⟨order ++ [z.unit], ?_, fun u => ?_, ?_⟩
      · rw [← List.concat_eq_append]
        exact nodup.concat new
      · rw [List.mem_append, units, List.mem_singleton]
        constructor
        · rintro (⟨e, he, same⟩ | rfl)
          · exact ⟨e, List.mem_append_left _ (mem_without.1 he).1, same⟩
          · exact ⟨z, by simp, rfl⟩
        · rintro ⟨e, he, rfl⟩
          by_cases mine : e.unit = z.unit
          · exact .inr mine
          · rcases List.mem_append.1 he with he | he
            · exact .inl ⟨e, mem_without.2 ⟨he, mine⟩, rfl⟩
            · exact .inr (by rw [List.mem_singleton.1 he])
      · rw [List.flatMap_append, ← same, List.flatMap_singleton, explains_append]
        exact ⟨t, serial, last⟩

/-! ## Footprints -/

section Footprint

variable {K V : Type}

/-- The operation reads and changes only what is at the keys `F`. -/
structure Local (exec : Op → (K → V) → (K → V) × R) (a : Op) (F : Set K) : Prop where
  frame : ∀ s k, k ∉ F → (exec a s).1 k = s k
  change : ∀ s s', (∀ k ∈ F, s k = s' k) → (∀ k ∈ F, (exec a s).1 k = (exec a s').1 k) ∧ (exec a s).2 = (exec a s').2

variable {exec : Op → (K → V) → (K → V) × R} {a b : Op} {F G : Set K}

/-- One operation does not see what another does elsewhere. -/
theorem Local.unseen (ha : Local exec a F) (hb : Local exec b G) (apart : ∀ k ∈ F, k ∉ G) (s : K → V) :
    (∀ k ∈ F, (exec a (exec b s).1).1 k = (exec a s).1 k) ∧ (exec a (exec b s).1).2 = (exec a s).2 :=
  ha.change _ _ fun k hk => hb.frame s k (apart k hk)

theorem Local.commute (ha : Local exec a F) (hb : Local exec b G) (apart : ∀ k ∈ F, k ∉ G) : Commute exec a b := by
  intro s
  have apart' : ∀ k ∈ G, k ∉ F := fun k hk h => apart k h hk
  obtain ⟨stateA, replyA⟩ := ha.unseen hb apart s
  obtain ⟨stateB, replyB⟩ := hb.unseen ha apart' s
  refine ⟨funext fun k => ?_, replyA, replyB⟩
  by_cases inF : k ∈ F
  · rw [hb.frame _ k (apart k inF), stateA k inF]
  · rw [ha.frame _ k inF]
    by_cases inG : k ∈ G
    · exact stateB k inG
    · rw [hb.frame _ k inG, ha.frame _ k inF, hb.frame _ k inG]

end Footprint

end Serial
