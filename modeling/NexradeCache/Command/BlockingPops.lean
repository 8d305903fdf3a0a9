import NexradeCache.Lib.Rendezvous
import NexradeCache.Command.Collections

/-!
# Blocking pops (`nexrade-core/src/command/list.rs`, `WaiterChannel` of `db.rs`)

BLPOP, BRPOP, BLMPOP and BLMOVE wait on one channel, which a push and a move announce their success on. The other
commands announce nothing, and neither does a push that fails at an argument which is no byte string: the elements in
front of it are in the list by then. There is one channel for all databases, so a push elsewhere wakes calls for nothing.

`list_waiters_woken` says that nobody sleeps on over a list with elements, except over one that got them unannounced;
`list_waiters_woken_always` says that there is no such list while the commands announce what they add.
-/

namespace NexradeCache.BlockingPops

open Collections

/-- A database, and the clock. -/
structure Moment where
  space : Space
  now : Nat

/-- A command that waits. -/
inductive Call where
  /-- BLPOP and BRPOP. -/
  | pop (left : Bool) (keys : List Bytes)
  | blmpop (left : Bool) (count : Nat) (keys : List Bytes)
  | blmove (src dst : Bytes) (fromLeft toLeft : Bool)

/-- A command that does not. -/
inductive Command where
  /-- LPUSH and its family. -/
  | push (left onlyIfExists : Bool) (args : List Resp)
  /-- LMOVE and RPOPLPUSH. -/
  | lmove (src dst : Bytes) (fromLeft toLeft : Bool)
  /-- A command in another database, which may announce on this channel: there is one for all databases. -/
  | elsewhere (announces : Bool)
  /-- Any other command, an eviction, the clock. -/
  | other (f : Moment → Moment)

/-- What a command tells its client about the elements. -/
inductive Answer where
  | popped (key : Bytes) (elements : List Bytes)
  | moved (element : Bytes)
  | pushed
  | wrongType
  | other

/-- `notify_list_waiters` follows. -/
def Answer.loud : Answer → Bool
  | .moved _ | .pushed => true
  | _ => false

/-- The list a handler gets to see. -/
def listAt (m : Moment) (key : Bytes) : Option (List Bytes) :=
  (live m.now m.space key).bind fun e => lists.contents e.value

/-- What is popped, in the order of the reply. -/
def popped (left : Bool) (n : Nat) (l : List Bytes) : List Bytes := if left then l.take n else l.reverse.take n

/-- The loop body of `blocking_pop` and of `lmpop_attempt`. -/
def popAttempt (left : Bool) (n : Nat) (key : Bytes) (m : Moment) : Moment × Option Answer :=
  match listAt m key with
  | none | some [] => (m, none)
  | some l =>
    ({ m with space := shrink lists m.now key (popMany left n) m.space }, some (.popped key (popped left n l)))

/-- `lmove_atomic`, and what the handlers make of it. -/
def moveAttempt (src dst : Bytes) (fromLeft toLeft : Bool) (m : Moment) : Moment × Option Answer :=
  if (live m.now m.space dst).any fun e => (lists.contents e.value).isNone then (m, some .wrongType)
  else match live m.now m.space src with
    | none => (m, none)
    | some e => match lists.contents e.value with
      | none => (m, some .wrongType)
      | some l => match if fromLeft then l.head? else l.getLast? with
        | none => (m, none)
        | some v => ({ m with space := lmoveAtomic m.now src dst fromLeft toLeft m.space }, some (.moved v))

/-- The push does not fail, and finds a key where it wants one. -/
def pushes (onlyIfExists : Bool) (args : List Resp) (m : Moment) : Bool :=
  3 ≤ args.length && match args[1]?.bind Resp.asBytes with
    | none => false
    | some key => !(onlyIfExists && (live m.now m.space key).isNone) &&
      (live m.now m.space key).all (fun e => (lists.contents e.value).isSome) && (args.drop 2).all (·.asBytes.isSome)

/-- LMOVE and RPOPLPUSH. -/
def lmove (src dst : Bytes) (fromLeft toLeft : Bool) (m : Moment) : Moment × Answer :=
  match moveAttempt src dst fromLeft toLeft m with
  | (m, some a) => (m, a)
  | (m, none) => (m, .other)

def Command.exec : Command → Moment → Moment × Answer
  | .push left onlyIfExists args, m =>
    ({ m with space := Collections.push left onlyIfExists ⟨m.now, 0, args, fun _ => 0⟩ m.space },
      if pushes onlyIfExists args m then .pushed else .other)
  | .lmove src dst fromLeft toLeft, m => BlockingPops.lmove src dst fromLeft toLeft m
  | .elsewhere announces, m => (m, if announces then .pushed else .other)
  | .other f, m => (f m, .other)

/-- The key holds a list with elements. -/
def Filled (m : Moment) (key : Bytes) : Prop := ∃ l, listAt m key = some l ∧ l ≠ []

/-- The calls on the channel, among commands of one kind. -/
def channel (Allowed : Command → Prop) : Rendezvous.System Moment Call Bytes { c // Allowed c } Answer where
  keys
    | .pop _ keys => keys
    | .blmpop _ _ keys => keys
    | .blmove src _ _ _ => [src]
  eager
    | .pop .. => false
    | _ => true
  attempt
    | .pop left _, key, m => popAttempt left 1 key m
    | .blmpop left count _, key, m => popAttempt left count key m
    | .blmove _ dst fromLeft toLeft, src, m => moveAttempt src dst fromLeft toLeft m
  exec c m := c.1.exec m
  loud := Answer.loud
  ready _ key m := Filled m key

/-! ## An attempt -/

variable {m : Moment} {key key' src dst : Bytes} {left fromLeft toLeft : Bool} {n : Nat}

theorem popMany_nil (left : Bool) (n : Nat) : popMany left n [] = [] := by
  cases left <;> simp [popMany]

theorem filled_of_shrink
    (filled : Filled { m with space := shrink lists m.now key (popMany left n) m.space } key') : Filled m key' := by
  unfold shrink at filled
  cases there : live m.now m.space key with
  | none =>
    simp only [there] at filled
    exact filled
  | some e =>
    simp only [there] at filled
    cases contents : lists.contents e.value with
    | none =>
      simp only [contents] at filled
      exact filled
    | some l =>
      simp only [contents] at filled
      by_cases same : key' = key
      · subst same
        refine ⟨l, by rw [listAt, there, Option.bind_some, contents], ?_⟩
        rintro rfl
        obtain ⟨rest, found, -⟩ := filled
        simp [listAt, live, popMany_nil] at found
      · obtain ⟨rest, found, some_⟩ := filled
        refine ⟨rest, ?_, some_⟩
        rw [← found, listAt, listAt, live, live]
        split
        · rw [AList.lookup_erase_ne same]
        · rw [AList.lookup_insert_ne same]

/-- An attempt that finds nothing leaves all as it was, and there is no element. -/
theorem popAttempt_none (none_ : (popAttempt left n key m).2 = none) :
    (popAttempt left n key m).1 = m ∧ ¬Filled m key := by
  unfold popAttempt at none_ ⊢
  split at none_
  · rename_i absent
    refine ⟨rfl, ?_⟩
    rintro ⟨l, found, -⟩
    cases absent.symm.trans found
  · rename_i empty
    refine ⟨rfl, ?_⟩
    rintro ⟨l, found, some_⟩
    cases empty.symm.trans found
    exact some_ rfl
  · cases none_

theorem filled_of_popAttempt (filled : Filled (popAttempt left n key m).1 key') : Filled m key' := by
  unfold popAttempt at filled
  split at filled
  · exact filled
  · exact filled
  · exact filled_of_shrink filled

/-- A move that does not come about changes nothing. -/
theorem moveAttempt_quiet (quiet : ∀ a ∈ (moveAttempt src dst fromLeft toLeft m).2, a.loud = false) :
    (moveAttempt src dst fromLeft toLeft m).1 = m := by
  unfold moveAttempt at quiet ⊢
  split
  · rfl
  · rename_i right
    rw [if_neg right] at quiet
    split
    · rfl
    · rename_i e there
      rw [there] at quiet
      dsimp only at quiet
      split
      · rfl
      · rename_i l contents
        rw [contents] at quiet
        dsimp only at quiet
        split
        · rfl
        · rename_i v element
          rw [element] at quiet
          cases quiet _ rfl

theorem moveAttempt_none (none_ : (moveAttempt src dst fromLeft toLeft m).2 = none) : ¬Filled m src := by
  rintro ⟨l, found, some_⟩
  obtain ⟨e, there, contents⟩ := Option.bind_eq_some_iff.1 found
  unfold moveAttempt at none_
  split at none_
  · cases none_
  · rw [there] at none_
    dsimp only at none_
    rw [contents] at none_
    dsimp only at none_
    split at none_
    · rename_i element
      split at element
      · exact some_ (List.head?_eq_none_iff.1 element)
      · exact some_ (List.getLast?_eq_none_iff.1 element)
    · cases none_

theorem lawful_channel (Allowed : Command → Prop) : (channel Allowed).Lawful where
  failed {w k s} none_ := by
    cases w with
    | pop left keys =>
      obtain ⟨same, absent⟩ := popAttempt_none none_
      exact same.symm ▸ absent
    | blmpop left count keys =>
      obtain ⟨same, absent⟩ := popAttempt_none none_
      exact same.symm ▸ absent
    | blmove src dst fromLeft toLeft =>
      have same := @moveAttempt_quiet s k dst fromLeft toLeft fun a mem => by
        cases none_.symm.trans mem
      exact same.symm ▸ moveAttempt_none none_
  calm {w w' k k' s} quiet filled := by
    cases w with
    | pop left keys => exact filled_of_popAttempt filled
    | blmpop left count keys => exact filled_of_popAttempt filled
    | blmove src dst fromLeft toLeft =>
      have same := @moveAttempt_quiet s k dst fromLeft toLeft quiet
      exact same ▸ filled

/-! ## Commands that announce what they add -/

/-- The arguments of the push are byte strings, and another command fills no list. -/
def Announced : Command → Prop
  | .push _ _ args => ∀ a ∈ args, a.asBytes.isSome
  | .lmove .. => True
  | .elsewhere _ => True
  | .other f => ∀ m key, Filled (f m) key → Filled m key

/-- A push that answers with an error or with zero leaves all as it was. -/
theorem push_failed {onlyIfExists : Bool} {args : List Resp} {r : Collections.Request}
    (bytes : ∀ a ∈ args, a.asBytes.isSome) (failed : pushes onlyIfExists args m = false) (same : r.args = args)
    (time : r.now = m.now) :
    Collections.push left onlyIfExists r m.space = m.space := by
  subst same
  unfold pushes at failed
  unfold Collections.push
  by_cases few : r.args.length < 3
  · exact if_pos few
  · rw [if_neg few]
    rw [decide_eq_true (Nat.le_of_not_lt few), Bool.true_and] at failed
    split
    · rfl
    · rename_i key isKey
      rw [isKey] at failed
      rw [time]
      dsimp only at failed
      split
      · rfl
      · rename_i wanted
        have rest : (r.args.drop 2).all (·.asBytes.isSome) = true :=
          List.all_eq_true.2 fun a mem => bytes a (List.mem_of_mem_drop mem)
        rw [rest, Bool.and_true, Bool.eq_false_iff.2 wanted, Bool.not_false, Bool.true_and] at failed
        obtain ⟨e, there, other⟩ : ∃ e, live m.now m.space key = some e ∧ (lists.contents e.value) = none := by
          cases found : live m.now m.space key with
          | none => simp [found] at failed
          | some e => exact ⟨e, rfl, by simpa [found] using failed⟩
        rw [getOrCreate, there]
        dsimp only
        rw [other]

/-- A push that is not announced leaves all as it was. -/
theorem push_quiet {onlyIfExists : Bool} {args : List Resp} (bytes : ∀ a ∈ args, a.asBytes.isSome)
    (quiet : (Command.exec (.push left onlyIfExists args) m).2.loud = false) :
    (Command.exec (.push left onlyIfExists args) m).1 = m := by
  have failed : pushes onlyIfExists args m = false := by
    cases is : pushes onlyIfExists args m with
    | false => rfl
    | true =>
      rw [Command.exec, is] at quiet
      cases quiet
  show Moment.mk _ _ = m
  rw [push_failed bytes failed rfl rfl]

theorem lmove_quiet (quiet : (lmove src dst fromLeft toLeft m).2.loud = false) :
    (lmove src dst fromLeft toLeft m).1 = m := by
  have kept := @moveAttempt_quiet m src dst fromLeft toLeft
  unfold lmove at quiet ⊢
  cases attempt : moveAttempt src dst fromLeft toLeft m with
  | mk m' a =>
    rw [attempt] at kept quiet
    cases a with
    | none => exact kept nofun
    | some a =>
      apply kept
      intro b mem
      cases mem
      exact quiet

theorem announcing_channel : (channel Announced).Announcing := by
  rintro ⟨c, announced⟩ s w k quiet filled
  cases c with
  | push left onlyIfExists args =>
    have same := push_quiet announced quiet
    exact same ▸ filled
  | lmove src dst fromLeft toLeft =>
    have same := lmove_quiet quiet
    exact same ▸ filled
  | elsewhere announces => exact filled
  | other f => exact announced s k filled

/-! ## Nobody sleeps over an element -/

variable {Allowed : Command → Prop} {p : Interleave.Pool (Rendezvous.Shared Moment Call Bytes)
  (Rendezvous.Task Call Bytes { c // Allowed c } Answer)}

/-- **Nobody sleeps over an element that was announced**, whatever the schedule and the commands: a call that awaits,
with elements under a key of it, has been woken, or somebody is about to wake it, or the list got its elements since
the last announcement from a command that announces nothing. The count of waiters is that of the parked calls. -/
theorem list_waiters_woken (m : Moment)
    (reach : Interleave.Reachable (channel Allowed).next Rendezvous.Task.isEntry ⟨.new m, []⟩ p) :
    p.shared.waiters = p.count Rendezvous.Task.parked ∧
      ∀ w armed key, .await w armed ∈ p.tasks → key ∈ (channel Allowed).keys w → Filled p.shared.store key →
        armed ≠ p.shared.calls ∨ (∃ u ∈ p.tasks, u.announces = true) ∨ p.shared.missed w key :=
  ⟨(Rendezvous.System.Inv.reachable (lawful_channel Allowed) reach).count, fun _ _ _ awaits mem filled =>
    Rendezvous.System.no_lost_wakeup (lawful_channel Allowed) reach awaits mem filled⟩

/-- BLPOP k, up to its wait. -/
def parkedTurns : List (Interleave.Turn (Rendezvous.Task Call Bytes { c // Announced c } Answer)) :=
  .start (.begin (.pop true [[107]])) :: List.replicate 5 (.step 0 0)

/-- RPUSH k v, up to its announcement. -/
def pushTurns : List (Interleave.Turn (Rendezvous.Task Call Bytes { c // Announced c } Answer)) :=
  [.start (.run ⟨.push false false [.bulkString (some []), .bulkString (some [107]), .bulkString (some [118])],
    by simp [Announced, Resp.asBytes]⟩), .step 1 0]

/-- BLPOP waits, and RPUSH is about to wake it. -/
theorem list_waiters_woken_push :
    ∃ p, Interleave.Reachable (channel Announced).next Rendezvous.Task.isEntry ⟨.new ⟨∅, 0⟩, []⟩ p ∧
      p.shared.waiters = p.count Rendezvous.Task.parked ∧ p.tasks.length = 2 := by
  have reach : ∃ p, Interleave.Pool.run (channel Announced).next Rendezvous.Task.isEntry ⟨.new ⟨∅, 0⟩, []⟩
      (parkedTurns ++ pushTurns) = some p ∧ p.tasks.length = 2 := ⟨_, rfl, rfl⟩
  obtain ⟨p, ran, two⟩ := reach
  exact ⟨p, ⟨_, ran⟩, (list_waiters_woken ⟨∅, 0⟩ ⟨_, ran⟩).1, two⟩

/-- **Among commands that announce what they add nobody sleeps on over a list with elements**: a call that awaits
has been woken, or somebody is about to wake it. -/
theorem list_waiters_woken_always (m : Moment) {p : Interleave.Pool (Rendezvous.Shared Moment Call Bytes)
    (Rendezvous.Task Call Bytes { c // Announced c } Answer)}
    (reach : Interleave.Reachable (channel Announced).next Rendezvous.Task.isEntry ⟨.new m, []⟩ p) :
    ∀ w armed key, .await w armed ∈ p.tasks → key ∈ (channel Announced).keys w → Filled p.shared.store key →
      armed ≠ p.shared.calls ∨ ∃ u ∈ p.tasks, u.announces = true := by
  intro w armed key awaits mem filled
  rcases Rendezvous.System.no_lost_wakeup (lawful_channel Announced) reach awaits mem filled with woken | soon | missed
  · exact .inl woken
  · exact .inr soon
  · exact (Rendezvous.System.nothing_missed announcing_channel reach w key missed).elim

/-- BLPOP waits over the element that RPUSH is about to announce. -/
theorem list_waiters_woken_always_push :
    ∃ p, Interleave.Reachable (channel Announced).next Rendezvous.Task.isEntry ⟨.new ⟨∅, 0⟩, []⟩ p ∧
      .await (.pop true [[107]]) 0 ∈ p.tasks ∧ ∃ u ∈ p.tasks, u.announces = true := by
  have reach : ∃ p, Interleave.Pool.run (channel Announced).next Rendezvous.Task.isEntry ⟨.new ⟨∅, 0⟩, []⟩
      (parkedTurns ++ pushTurns) = some p ∧ p.tasks[0]? = some (.await (.pop true [[107]]) 0) ∧
        p.shared.calls = 0 ∧ listAt p.shared.store [107] = some [[118]] := ⟨_, rfl, rfl, rfl, rfl⟩
  obtain ⟨p, ran, first, calls, found⟩ := reach
  have awaits := List.mem_of_getElem? first
  refine ⟨p, ⟨_, ran⟩, awaits, ?_⟩
  have woken := list_waiters_woken_always ⟨∅, 0⟩ ⟨_, ran⟩ _ 0 [107] awaits List.mem_cons_self
    ⟨[[118]], found, List.cons_ne_nil _ _⟩
  exact woken.resolve_left fun other => other calls.symm

end NexradeCache.BlockingPops
