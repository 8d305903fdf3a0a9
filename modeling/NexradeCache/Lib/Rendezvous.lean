import NexradeCache.Lib.Interleave

/-!
# Waiting at a rendezvous

Calls that find nothing to take wait until a command announces a change, and look again. An announcement reaches who
is enabled at that moment and is not kept for later, and it is left out if nobody is counted as waiting. So a call
counts itself, enables, looks at all its keys, and only then awaits; an announcer changes the store first, then loads
the count.

`System` has the store, the calls and the commands as parameters. A command that announces nothing may make a key
ready; what it made ready since the last announcement is noted in a ghost field, `missed`. `no_lost_wakeup` says that
this is the only way in which a call sleeps on while a key of it is ready and nobody is about to announce it;
`nothing_missed` that there is nothing of the kind among commands that announce what they make ready.
-/

namespace Rendezvous

open Interleave

/-- Calls `W` that wait for keys `K` of a store `S`, commands `C` that change it, and their answers `A`. -/
structure System (S W K C A : Type) where
  keys : W → List K
  /-- The call looks at its keys once before it is counted. -/
  eager : W → Bool
  /-- One look at one key. -/
  attempt : W → K → S → S × Option A
  exec : C → S → S × A
  /-- An answer that is announced. -/
  loud : A → Bool
  /-- What a look at the key is for. -/
  ready : W → K → S → Prop

/-- The store, the count of waiters, and the number of announcements so far. -/
structure Shared (S W K : Type) where
  store : S
  waiters : Nat
  calls : Nat
  /-- What became ready without an announcement since the last one. -/
  missed : W → K → Prop

/-- The next atomic step of a call or a command. -/
inductive Task (W K C A : Type) where
  | begin (w : W)
  /-- The look before the call is counted. -/
  | fast (w : W) (rest : List K)
  | enable (w : W)
  | look (w : W) (rest : List K) (armed : Nat)
  | await (w : W) (armed : Nat)
  | run (c : C)
  /-- The announcement: load the count, notify. -/
  | load (parked : Bool) (a : A)
  | notify (parked : Bool) (a : A)
  | leave (parked : Bool) (a : Option A)
  | done (a : Option A)

variable {S W K C A : Type}

def Shared.new (store : S) : Shared S W K := ⟨store, 0, 0, fun _ _ => False⟩

namespace Task

/-- Counted as waiting. -/
def parked : Task W K C A → Bool
  | .enable _ | .look .. | .await .. => true
  | .load parked _ | .notify parked _ | .leave parked _ => parked
  | _ => false

/-- About to announce a change. -/
def announces : Task W K C A → Bool
  | .load .. | .notify .. => true
  | _ => false

/-- What a call or a command can begin with. -/
def isEntry : Task W K C A → Bool
  | .begin _ | .run _ => true
  | _ => false

end Task

namespace System

variable (sys : System S W K C A)

/-- A change that is not announced. -/
def silently (s : Shared S W K) (store : S) : Shared S W K :=
  { s with store, missed := fun w k => sys.ready w k store ∧ (s.missed w k ∨ ¬sys.ready w k s.store) }

/-- What follows an answer. -/
def answered (parked : Bool) (a : A) : Task W K C A :=
  if sys.loud a then .load parked a else .leave parked (some a)

/-- One look, and what follows if it finds nothing. -/
def looked (s : Shared S W K) (parked : Bool) (w : W) (k : K) (next : Task W K C A) : Shared S W K × Task W K C A :=
  match sys.attempt w k s.store with
  | (store, none) => ({ s with store }, next)
  | (store, some a) => ({ s with store }, sys.answered parked a)

/-- A call may give up where it is refused or its time is over. -/
def next (s : Shared S W K) : Task W K C A → List (Shared S W K × Task W K C A)
  | .begin w => [(s, .fast w (if sys.eager w then sys.keys w else []))]
  | .fast w [] => [({ s with waiters := s.waiters + 1 }, .enable w)]
  | .fast w (k :: rest) => [sys.looked s false w k (.fast w rest)]
  | .enable w => [(s, .look w (sys.keys w) s.calls)]
  | .look w [] armed => [(s, .await w armed), (s, .leave true none)]
  | .look w (k :: rest) armed => [sys.looked s true w k (.look w rest armed), (s, .leave true none)]
  | .await w armed => (if s.calls ≠ armed then [(s, .enable w)] else []) ++ [(s, .leave true none)]
  | .run c => match sys.exec c s.store with
    | (store, a) => [(if sys.loud a then { s with store } else sys.silently s store, sys.answered false a)]
  | .load parked a => if 0 < s.waiters then [(s, .notify parked a)] else [(s, .leave parked (some a))]
  | .notify parked a => [({ s with calls := s.calls + 1, missed := fun _ _ => False }, .leave parked (some a))]
  | .leave parked a => [({ s with waiters := s.waiters - parked.toNat }, .done a)]
  | .done _ => []

/-- What a call looked at in vain since the last announcement. -/
def Watches (calls : Nat) (w : W) (k : K) : Task W K C A → Prop
  | .look w' rest armed => w' = w ∧ armed = calls ∧ ∃ seen, sys.keys w = seen ++ rest ∧ k ∈ seen
  | .await w' armed => w' = w ∧ armed = calls ∧ k ∈ sys.keys w
  | _ => False

/-- A call enabled no later announcement than the last, and looks at its keys in order. -/
def Fits (calls : Nat) : Task W K C A → Prop
  | .look w rest armed => armed ≤ calls ∧ rest <:+ sys.keys w
  | .await _ armed => armed ≤ calls
  | _ => True

/-- A look that finds nothing leaves nothing ready for it, and one that is not announced makes nothing ready. -/
structure Lawful : Prop where
  failed {w : W} {k : K} {s : S} : (sys.attempt w k s).2 = none → ¬sys.ready w k (sys.attempt w k s).1
  calm {w w' : W} {k k' : K} {s : S} : (∀ a ∈ (sys.attempt w k s).2, sys.loud a = false) →
    sys.ready w' k' (sys.attempt w k s).1 → sys.ready w' k' s

/-! ## Between any two steps -/

/-- What holds between any two atomic steps. -/
structure Inv (p : Pool (Shared S W K) (Task W K C A)) : Prop where
  count : p.shared.waiters = p.count Task.parked
  fits : ∀ t ∈ p.tasks, sys.Fits p.shared.calls t
  heard : ∀ t ∈ p.tasks, ∀ w k, sys.Watches p.shared.calls w k t → sys.ready w k p.shared.store →
    p.shared.missed w k ∨ ∃ u ∈ p.tasks, u.announces = true

variable {sys} {s s' : Shared S W K} {before after ts : List (Task W K C A)} {t t' : Task W K C A}

theorem Watches.parked {calls : Nat} {w : W} {k : K} (h : sys.Watches calls w k t) : t.parked = true := by
  cases t with
  | look | await => rfl
  | _ => exact h.elim

/-- The next announcement reaches whoever fits. -/
theorem Fits.reached {calls : Nat} (h : sys.Fits calls t) (w : W) (k : K) : ¬sys.Watches (calls + 1) w k t := by
  intro watches
  cases t with
  | look w' rest armed =>
    obtain ⟨-, rfl, -⟩ := watches
    exact Nat.not_succ_le_self calls h.1
  | await w' armed =>
    obtain ⟨-, rfl, -⟩ := watches
    exact Nat.not_succ_le_self calls h
  | _ => exact watches

theorem Fits.later {calls : Nat} (h : sys.Fits calls t) : sys.Fits (calls + 1) t := by
  cases t with
  | look w rest armed => exact ⟨Nat.le_succ_of_le h.1, h.2⟩
  | await w armed => exact Nat.le_succ_of_le h
  | _ => trivial

theorem Inv.new (store : S) : sys.Inv ⟨.new store, []⟩ :=
  ⟨rfl, fun _ mem => absurd mem List.not_mem_nil, fun _ mem => absurd mem List.not_mem_nil⟩

theorem Inv.start (inv : sys.Inv ⟨s, ts⟩) (entry : t.isEntry = true) : sys.Inv ⟨s, ts ++ [t]⟩ := by
  have outside : t.parked = false ∧ sys.Fits s.calls t ∧ ∀ w k, ¬sys.Watches s.calls w k t := by
    cases t with
    | begin w => exact ⟨rfl, trivial, fun _ _ h => h⟩
    | run c => exact ⟨rfl, trivial, fun _ _ h => h⟩
    | _ => cases entry
  obtain ⟨uncounted, fits, idle⟩ := outside
  refine ⟨?_, fun u mem => ?_, fun u mem w k watches ready => ?_⟩
  · rw [Pool.count_start, uncounted]
    exact inv.count
  · rcases List.mem_append.1 mem with old | new
    · exact inv.fits u old
    · rwa [List.mem_singleton.1 new]
  · rcases List.mem_append.1 mem with old | new
    · refine (inv.heard u old w k watches ready).imp_right ?_
      rintro ⟨v, there, announces⟩
      exact ⟨v, List.mem_append_left _ there, announces⟩
    · rw [List.mem_singleton.1 new] at watches
      exact (idle w k watches).elim

/-- The count and the fitness of all tasks, when one of them moves and the number of announcements grows by `n`. -/
theorem Inv.others (inv : sys.Inv ⟨s, before ++ t :: after⟩) (s' : Shared S W K) (t' : Task W K C A)
    (count : s'.waiters + t.parked.toNat = s.waiters + t'.parked.toNat)
    (calls : s'.calls = s.calls ∨ s'.calls = s.calls + 1)
    (fits : sys.Fits s.calls t') :
    s'.waiters = (Pool.mk s' (before ++ t' :: after)).count Task.parked ∧
      ∀ u ∈ before ++ t' :: after, sys.Fits s'.calls u := by
  constructor
  · have counted := inv.count
    rw [Pool.count_cut] at counted ⊢
    dsimp only at counted
    omega
  · intro u mem
    have fit : sys.Fits s.calls u := by
      rcases mem_of_cut mem with rfl | old
      · exact fits
      · exact inv.fits u old
    rcases calls with same | more
    · rwa [same]
    · rw [more]
      exact fit.later

/-- A step that keeps what is to be announced: who announces goes on to, and what it makes ready is missed or
announced. -/
theorem Inv.move (inv : sys.Inv ⟨s, before ++ t :: after⟩)
    (count : s'.waiters + t.parked.toNat = s.waiters + t'.parked.toNat) (calls : s'.calls = s.calls)
    (fits : sys.Fits s.calls t')
    (watches : ∀ w k, sys.Watches s.calls w k t' → sys.ready w k s'.store → sys.Watches s.calls w k t)
    (made : t'.announces = true ∨ ∀ w k, sys.ready w k s'.store → ¬s'.missed w k →
      sys.ready w k s.store ∧ ¬s.missed w k)
    (announces : t.announces = true → t'.announces = true) : sys.Inv ⟨s', before ++ t' :: after⟩ := by
  obtain ⟨counted, fit⟩ := inv.others s' t' count (.inl calls) fits
  refine ⟨counted, fit, fun u mem w k watched ready => ?_⟩
  dsimp only at watched ready ⊢
  rcases made with now | before'
  · exact .inr ⟨t', List.mem_append_right _ List.mem_cons_self, now⟩
  by_cases gone : s'.missed w k
  · exact .inl gone
  obtain ⟨was, noted⟩ := before' w k ready gone
  rw [calls] at watched
  have old : ∃ v ∈ before ++ t :: after, sys.Watches s.calls w k v := by
    rcases mem_of_cut mem with rfl | there
    · exact ⟨t, List.mem_append_right _ List.mem_cons_self, watches w k watched ready⟩
    · exact ⟨u, there, watched⟩
  obtain ⟨v, there, watched⟩ := old
  obtain ⟨a, mem, speaks⟩ := (inv.heard v there w k watched was).resolve_left noted
  rcases mem_of_cut (l := t') mem with rfl | same
  · exact .inr ⟨t', List.mem_append_right _ List.mem_cons_self, announces speaks⟩
  · exact .inr ⟨a, same, speaks⟩

/-! ## The steps -/

variable {w : W} {k : K} {rest : List K}

/-- An answer is announced, or it made nothing ready. -/
theorem Inv.answered (inv : sys.Inv ⟨s, before ++ t :: after⟩) (store : S) (parked : Bool) (a : A)
    (uncounted : t.parked = parked) (silent : t.announces = false)
    (calm : sys.loud a = false → ∀ w k, sys.ready w k store → sys.ready w k s.store) :
    sys.Inv ⟨{ s with store }, before ++ sys.answered parked a :: after⟩ := by
  cases loud : sys.loud a with
  | true =>
    have next : sys.answered parked a = (.load parked a : Task W K C A) := if_pos loud
    rw [next]
    refine inv.move ?_ rfl trivial (fun _ _ h => h.elim) (.inl rfl) fun _ => rfl
    rw [uncounted]
    rfl
  | false =>
    have next : sys.answered parked a = (.leave parked (some a) : Task W K C A) := by
      rw [System.answered, loud, if_neg Bool.false_ne_true]
    rw [next]
    refine inv.move ?_ rfl trivial (fun _ _ h => h.elim) (.inr fun w k ready noted => ?_) fun speaks => ?_
    · rw [uncounted]
      rfl
    · exact ⟨calm loud w k ready, noted⟩
    · rw [silent] at speaks
      cases speaks

theorem Inv.attempted (lawful : sys.Lawful) (parked : Bool) (next : Task W K C A)
    (inv : sys.Inv ⟨s, before ++ t :: after⟩) (counted : t.parked = parked) (silent : t.announces = false)
    (goes : next.parked = parked) (quiet : next.announces = false) (fits : sys.Fits s.calls next)
    (watches : ∀ w' k', sys.Watches s.calls w' k' next → (w' = w ∧ k' = k) ∨ sys.Watches s.calls w' k' t)
    (looks : (s', t') = sys.looked s parked w k next) : sys.Inv ⟨s', before ++ t' :: after⟩ := by
  have failed := @lawful.failed w k s.store
  have calm (w' : W) (k' : K) := @lawful.calm w w' k k' s.store
  unfold looked at looks
  cases found : sys.attempt w k s.store with
  | mk store a =>
    rw [found] at looks failed
    simp only [found] at calm
    dsimp only at looks failed
    cases a with
    | none =>
      obtain ⟨rfl, rfl⟩ := Prod.mk.inj looks
      refine inv.move ?_ rfl fits (fun w' k' watched ready => ?_) (.inr fun w' k' ready noted => ?_) fun speaks => ?_
      · rw [counted, goes]
      · rcases watches w' k' watched with ⟨rfl, rfl⟩ | old
        · exact (failed rfl ready).elim
        · exact old
      · exact ⟨calm w' k' nofun ready, noted⟩
      · rw [silent] at speaks
        cases speaks
    | some a =>
      obtain ⟨rfl, rfl⟩ := Prod.mk.inj looks
      refine inv.answered store parked a counted silent fun quiet w' k' => calm w' k' ?_
      intro b is
      cases is
      exact quiet

theorem Inv.givesUp (inv : sys.Inv ⟨s, before ++ t :: after⟩) (counted : t.parked = true)
    (silent : t.announces = false) :
    sys.Inv ⟨s, before ++ .leave true none :: after⟩ := by
  refine inv.move ?_ rfl trivial (fun _ _ h => h.elim) (.inr fun _ _ ready noted => ⟨ready, noted⟩) fun speaks => ?_
  · rw [counted]
    rfl
  · rw [silent] at speaks
    cases speaks

theorem Inv.ran (inv : sys.Inv ⟨s, before ++ .run c :: after⟩) (store : S) (a : A) :
    sys.Inv ⟨if sys.loud a then { s with store } else sys.silently s store,
      before ++ sys.answered false a :: after⟩ := by
  cases loud : sys.loud a with
  | true =>
    refine inv.answered store false a rfl rfl fun quiet => ?_
    rw [loud] at quiet
    cases quiet
  | false =>
    have next : sys.answered false a = (.leave false (some a) : Task W K C A) := by
      rw [System.answered, loud, if_neg Bool.false_ne_true]
    rw [next, if_neg Bool.false_ne_true]
    refine inv.move rfl rfl trivial (fun _ _ h => h.elim) (.inr fun w k ready noted => ?_) nofun
    by_cases was : sys.ready w k s.store
    · exact ⟨was, fun missed => noted ⟨ready, .inl missed⟩⟩
    · exact (noted ⟨ready, .inr was⟩).elim

/-- An announcement that nobody is counted for. -/
theorem Inv.nobody {parked : Bool} {a : A} (inv : sys.Inv ⟨s, before ++ .load parked a :: after⟩)
    (empty : s.waiters = 0) : sys.Inv ⟨s, before ++ .leave parked (some a) :: after⟩ := by
  have counted := inv.count
  rw [Pool.count_cut] at counted
  obtain ⟨count, fits⟩ := inv.others s (.leave parked (some a)) rfl (.inl rfl) trivial
  refine ⟨count, fits, fun u mem w k watched => ?_⟩
  have sleeps := watched.parked
  have idle : (before ++ after).countP Task.parked + parked.toNat = 0 := counted.symm.trans empty
  have alone := List.countP_eq_zero.1 (Nat.eq_zero_of_add_eq_zero_right idle)
  rcases mem_of_cut (l := .leave false none) mem with rfl | old
  · exact watched.elim
  · rcases List.mem_append.1 old with there | there
    · exact (alone u (List.mem_append_left _ there) sleeps).elim
    · rcases List.mem_cons.1 there with rfl | there
      · exact watched.elim
      · exact (alone u (List.mem_append_right _ there) sleeps).elim

/-- The announcement reaches everybody who looked in vain. -/
theorem Inv.notified {parked : Bool} {a : A} (inv : sys.Inv ⟨s, before ++ .notify parked a :: after⟩) :
    sys.Inv ⟨{ s with calls := s.calls + 1, missed := fun _ _ => False },
      before ++ .leave parked (some a) :: after⟩ := by
  obtain ⟨count, fits⟩ := inv.others { s with calls := s.calls + 1, missed := fun _ _ => False }
    (.leave parked (some a)) rfl (.inr rfl) trivial
  refine ⟨count, fits, fun u mem w k watched => ?_⟩
  rcases mem_of_cut mem with rfl | old
  · exact watched.elim
  · exact ((inv.fits u old).reached w k watched).elim

theorem Inv.step (lawful : sys.Lawful) (inv : sys.Inv ⟨s, before ++ t :: after⟩) (mem : (s', t') ∈ sys.next s t) :
    sys.Inv ⟨s', before ++ t' :: after⟩ := by
  have fit := inv.fits t (List.mem_append_right _ List.mem_cons_self)
  cases t with
  | begin w =>
    cases List.mem_singleton.1 mem
    exact inv.move rfl rfl trivial (fun _ _ h => h.elim) (.inr fun _ _ ready noted => ⟨ready, noted⟩) nofun
  | fast w rest =>
    cases rest with
    | nil =>
      cases List.mem_singleton.1 mem
      exact inv.move rfl rfl trivial (fun _ _ h => h.elim) (.inr fun _ _ ready noted => ⟨ready, noted⟩) nofun
    | cons k rest =>
      refine Inv.attempted lawful false (.fast w rest) inv rfl rfl rfl rfl trivial
        (fun _ _ h => h.elim) (List.mem_singleton.1 mem)
  | enable w =>
    cases List.mem_singleton.1 mem
    refine inv.move rfl rfl ⟨Nat.le_refl _, List.suffix_refl _⟩ (fun w' k watched _ => ?_)
      (.inr fun _ _ ready noted => ⟨ready, noted⟩) nofun
    obtain ⟨rfl, -, seen, split, mem⟩ := watched
    rw [List.self_eq_append_left.1 split] at mem
    cases mem
  | look w rest armed =>
    cases rest with
    | nil =>
      rcases List.mem_cons.1 mem with awaits | leaves
      · obtain ⟨rfl, rfl⟩ := Prod.mk.inj awaits
        refine inv.move rfl rfl fit.1 (fun w' k watched _ => ?_) (.inr fun _ _ ready noted => ⟨ready, noted⟩) nofun
        obtain ⟨rfl, same, mem⟩ := watched
        exact ⟨rfl, same, sys.keys w, (List.append_nil _).symm, mem⟩
      · cases List.mem_singleton.1 leaves
        exact inv.givesUp rfl rfl
    | cons k rest =>
      rcases List.mem_cons.1 mem with looks | leaves
      · refine Inv.attempted lawful true (.look w rest armed) inv rfl rfl rfl rfl
          ⟨fit.1, (List.suffix_cons k rest).trans fit.2⟩ (fun w' k' watched => ?_) looks
        obtain ⟨rfl, same, seen, split, mem⟩ := watched
        obtain ⟨early, whole⟩ := fit.2
        have seen_eq : seen = early ++ [k] := by
          have twice : seen ++ rest = (early ++ [k]) ++ rest := by
            rw [← split, ← whole, List.append_assoc, List.singleton_append]
          exact List.append_cancel_right twice
        rw [seen_eq, List.mem_append, List.mem_singleton] at mem
        rcases mem with old | rfl
        · exact .inr ⟨rfl, same, early, whole.symm, old⟩
        · exact .inl ⟨rfl, rfl⟩
      · cases List.mem_singleton.1 leaves
        exact inv.givesUp rfl rfl
  | await w armed =>
    rcases List.mem_append.1 mem with wakes | leaves
    · split at wakes
      · cases List.mem_singleton.1 wakes
        exact inv.move rfl rfl trivial (fun _ _ h => h.elim) (.inr fun _ _ ready noted => ⟨ready, noted⟩) nofun
      · cases wakes
    · cases List.mem_singleton.1 leaves
      exact inv.givesUp rfl rfl
  | run c =>
    cases List.mem_singleton.1 mem
    exact inv.ran _ _
  | load parked a =>
    change (s', t') ∈ (if 0 < s.waiters then _ else _) at mem
    split at mem <;> cases List.mem_singleton.1 mem
    · exact inv.move rfl rfl trivial (fun _ _ h => h.elim) (.inl rfl) fun _ => rfl
    · exact inv.nobody (Nat.eq_zero_of_not_pos ‹_›)
  | notify parked a =>
    cases List.mem_singleton.1 mem
    exact inv.notified
  | leave parked a =>
    cases List.mem_singleton.1 mem
    have counted := inv.count
    rw [Pool.count_cut] at counted
    refine inv.move ?_ rfl trivial (fun _ _ h => h.elim) (.inr fun _ _ ready noted => ⟨ready, noted⟩) nofun
    have enough : parked.toNat ≤ s.waiters := by
      rw [show s.waiters = _ from counted]
      exact Nat.le_add_left _ _
    exact Nat.sub_add_cancel enough
  | done a => cases mem

/-- The invariant holds in every interleaving. -/
theorem Inv.reachable (lawful : sys.Lawful) {store : S} {p : Pool (Shared S W K) (Task W K C A)}
    (reach : Reachable sys.next Task.isEntry ⟨.new store, []⟩ p) : sys.Inv p :=
  reach.invariant (Inv.new store) Inv.start fun inv mem => inv.step lawful mem

/-- **No wake-up is lost.** A call that awaits, with a key of it ready, was notified already, or somebody is about to
announce a change, or the key was made ready without an announcement since the last one. -/
theorem no_lost_wakeup (lawful : sys.Lawful) {store : S} {p : Pool (Shared S W K) (Task W K C A)}
    (reach : Reachable sys.next Task.isEntry ⟨.new store, []⟩ p) {armed : Nat} (awaits : .await w armed ∈ p.tasks)
    (mem : k ∈ sys.keys w) (ready : sys.ready w k p.shared.store) :
    armed ≠ p.shared.calls ∨ (∃ u ∈ p.tasks, u.announces = true) ∨ p.shared.missed w k := by
  have inv := Inv.reachable lawful reach
  by_cases same : armed = p.shared.calls
  · exact .inr (inv.heard _ awaits w k ⟨rfl, same, mem⟩ ready).symm
  · exact .inl same

/-! ## Commands that announce what they make ready -/

/-- A command that announces nothing makes nothing ready. -/
def Announcing (sys : System S W K C A) : Prop :=
  ∀ (c : C) (s : S) (w : W) (k : K),
    sys.loud (sys.exec c s).2 = false → sys.ready w k (sys.exec c s).1 → sys.ready w k s

theorem missed_looked {parked : Bool} {next : Task W K C A} (looks : (s', t') = sys.looked s parked w k next) :
    s'.missed = s.missed := by
  unfold looked at looks
  split at looks <;> obtain ⟨rfl, rfl⟩ := Prod.mk.inj looks <;> rfl

theorem missed_next (announcing : sys.Announcing) (mem : (s', t') ∈ sys.next s t) {w : W} {k : K}
    (missed : s'.missed w k) : s.missed w k := by
  cases t with
  | begin | enable =>
    cases List.mem_singleton.1 mem
    exact missed
  | fast w rest =>
    cases rest with
    | nil =>
      cases List.mem_singleton.1 mem
      exact missed
    | cons k rest => exact missed_looked (List.mem_singleton.1 mem) ▸ missed
  | look w rest armed =>
    cases rest with
    | nil =>
      rcases List.mem_cons.1 mem with awaits | leaves
      · obtain ⟨rfl, rfl⟩ := Prod.mk.inj awaits
        exact missed
      · cases List.mem_singleton.1 leaves
        exact missed
    | cons k rest =>
      rcases List.mem_cons.1 mem with looks | leaves
      · exact missed_looked looks ▸ missed
      · cases List.mem_singleton.1 leaves
        exact missed
  | await w armed =>
    rcases List.mem_append.1 mem with wakes | leaves
    · split at wakes
      · cases List.mem_singleton.1 wakes
        exact missed
      · cases wakes
    · cases List.mem_singleton.1 leaves
      exact missed
  | run c =>
    cases List.mem_singleton.1 mem
    cases loud : sys.loud (sys.exec c s.store).2 with
    | true =>
      rw [loud, if_pos rfl] at missed
      exact missed
    | false =>
      rw [loud, if_neg Bool.false_ne_true] at missed
      exact missed.2.resolve_right fun fresh => fresh (announcing c s.store w k loud missed.1)
  | load parked a =>
    change (s', t') ∈ (if 0 < s.waiters then _ else _) at mem
    split at mem <;> cases List.mem_singleton.1 mem <;> exact missed
  | notify parked a =>
    cases List.mem_singleton.1 mem
    exact missed.elim
  | leave parked a =>
    cases List.mem_singleton.1 mem
    exact missed
  | done a => cases mem

theorem nothing_missed (announcing : sys.Announcing) {store : S} {p : Pool (Shared S W K) (Task W K C A)}
    (reach : Reachable sys.next Task.isEntry ⟨.new store, []⟩ p) (w : W) (k : K) : ¬p.shared.missed w k := by
  refine reach.invariant (P := fun p => ¬p.shared.missed w k) (fun missed => missed) ?_ ?_
  · intro s ts t none _
    exact none
  · intro s before t after s' t' none mem missed
    exact none (missed_next announcing mem missed)

end System

end Rendezvous
