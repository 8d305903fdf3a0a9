import NexradeCache.Command.Groups
import NexradeCache.Command.StreamOrder

/-!
# Pending entries, by entry and by consumer

`ConsumerGroup.Consistent` says that `pending` and the lists `pending_ids` of the consumers are two views of
one relation. An entry can be dropped, given to the consumer that has it or to one where nobody has it, and
reassigned, which takes it from the list of its owner first. XREADGROUP does not: it only gives. So a `>`
read that delivers an entry again, to another consumer, leaves it on two lists.
-/

namespace NexradeCache

open Trace

namespace ConsumerGroup

/-- The consumer an entry is pending for. -/
def owner (g : ConsumerGroup) (id : String) : Option Bytes := (g.pendingFor id).map (·.consumer)

/-- The list of a consumer; one that is not known has none. -/
def idsOf (g : ConsumerGroup) (consumer : Bytes) : List String :=
  match g.consumers.lookup consumer with
  | some c => c.pendingIds
  | none => []

/-- The group has a consumer of this name. -/
def Known (g : ConsumerGroup) (consumer : Bytes) : Prop := (g.consumers.lookup consumer).isSome

/-- An entry is pending for a consumer if and only if it is on that consumer's list, and then once. -/
structure Consistent (g : ConsumerGroup) : Prop where
  owned : ∀ id c, g.owner id = some c ↔ id ∈ g.idsOf c
  once : ∀ c, (g.idsOf c).Nodup

/-- A new group has neither consumers nor pending entries. -/
theorem consistent_new (name : Bytes) (lastId : String) : (new name lastId).Consistent where
  owned _ _ := ⟨nofun, nofun⟩
  once _ := .nil

/-! ## What each operation does to the two views -/

variable {g : ConsumerGroup} {id : String} {c : Bytes}

theorem lookup_filter_ne {A : Type} (l : List (String × A)) (id id' : String) :
    List.lookup id' (l.filter (·.1 ≠ id)) = if id' = id then none else List.lookup id' l := by
  induction l with
  | nil => simp
  | cons x l ih =>
    rw [List.filter_cons]
    by_cases here : x.1 = id
    · rw [if_neg (by simpa using here), ih, List.lookup_cons]
      split
      · rfl
      · rename_i other
        have ne : (id' == x.1) = false := by
          rw [here]
          exact beq_eq_false_iff_ne.2 other
        rw [ne]
    · rw [if_pos (by simpa using here), List.lookup_cons, List.lookup_cons, ih]
      cases same : id' == x.1 with
      | false => rfl
      | true =>
        have other : id' ≠ id := fun is => here ((eq_of_beq same).symm.trans is)
        exact (if_neg other).symm

theorem lookup_insertBy {A : Type} {l : List (String × A)} {id : String} (fresh : List.lookup id l = none) (a : A)
    (id' : String) :
    List.lookup id' (l.insertBy Prod.fst (id, a)) = if id' = id then some a else List.lookup id' l := by
  have split := l.takeWhile_append_dropWhile (p := fun e => e.1 < id)
  have both (id' : String) : List.lookup id' l =
      (List.lookup id' (l.takeWhile fun e => e.1 < id)).or (List.lookup id' (l.dropWhile fun e => e.1 < id)) := by
    rw [← List.lookup_append, split]
  rw [List.insertBy, List.lookup_append, List.lookup_cons]
  by_cases same : id' = id
  · rw [if_pos same, same, BEq.rfl]
    have none := both id
    rw [fresh] at none
    rw [(Option.or_eq_none_iff.1 none.symm).1, Option.none_or]
  · have ne : (id' == id) = false := beq_eq_false_iff_ne.2 same
    rw [if_neg same, ne, both]

@[simp] theorem pendingFor_removePending (id' : String) :
    (g.removePending id).pendingFor id' = if id' = id then none else g.pendingFor id' :=
  lookup_filter_ne _ _ _

@[simp] theorem pendingFor_insertPending (p : PendingEntry) (id' : String) :
    (g.insertPending id p).pendingFor id' = if id' = id then some p else g.pendingFor id' := by
  have fresh : (g.removePending id).pendingFor id = none := by rw [pendingFor_removePending, if_pos rfl]
  refine (lookup_insertBy fresh p id').trans ?_
  split
  · rfl
  · rename_i other
    exact (pendingFor_removePending id').trans (if_neg other)

@[simp] theorem owner_removePending (id' : String) :
    (g.removePending id).owner id' = if id' = id then none else g.owner id' := by
  rw [owner, pendingFor_removePending]
  split <;> rfl

@[simp] theorem owner_insertPending (p : PendingEntry) (id' : String) :
    (g.insertPending id p).owner id' = if id' = id then some p.consumer else g.owner id' := by
  rw [owner, pendingFor_insertPending]
  split <;> rfl

@[simp] theorem idsOf_removePending (c : Bytes) : (g.removePending id).idsOf c = g.idsOf c := rfl

@[simp] theorem idsOf_insertPending (p : PendingEntry) (c : Bytes) : (g.insertPending id p).idsOf c = g.idsOf c := rfl

@[simp] theorem owner_ensureConsumer (c : Bytes) (id : String) : (g.ensureConsumer c).owner id = g.owner id := by
  unfold ensureConsumer
  split <;> rfl

@[simp] theorem owner_retainOthers (c : Bytes) (id id' : String) : (g.retainOthers c id).owner id' = g.owner id' := by
  unfold retainOthers
  split <;> rfl

@[simp] theorem owner_pushId (c : Bytes) (id id' : String) : (g.pushId c id).owner id' = g.owner id' := by
  unfold pushId
  split
  · split <;> rfl
  · rfl

theorem idsOf_insert (k : Consumer) (c c' : Bytes) :
    ({ g with consumers := g.consumers.insert c k } : ConsumerGroup).idsOf c' =
      if c' = c then k.pendingIds else g.idsOf c' := by
  unfold idsOf
  by_cases same : c' = c
  · rw [if_pos same, same, AList.lookup_insert]
  · rw [if_neg same, AList.lookup_insert_ne same]

theorem known_insert (k : Consumer) (c c' : Bytes) :
    ({ g with consumers := g.consumers.insert c k } : ConsumerGroup).Known c' ↔ c' = c ∨ g.Known c' := by
  unfold Known
  by_cases same : c' = c
  · subst same
    simp only [AList.lookup_insert, Option.isSome_some, true_or]
  · simp only [same, AList.lookup_insert_ne same, false_or]

@[simp] theorem idsOf_ensureConsumer (c c' : Bytes) : (g.ensureConsumer c).idsOf c' = g.idsOf c' := by
  unfold ensureConsumer
  split
  · rfl
  · rename_i missing
    rw [idsOf_insert]
    split
    · rename_i same
      rw [same, idsOf, missing]
    · rfl

theorem known_ensureConsumer (g : ConsumerGroup) (c : Bytes) : (g.ensureConsumer c).Known c := by
  unfold ensureConsumer
  split
  · rename_i k known
    exact Option.isSome_iff_exists.2 ⟨k, known⟩
  · exact (known_insert _ c c).2 (.inl rfl)

@[simp] theorem idsOf_retainOthers (c : Bytes) (id : String) (c' : Bytes) :
    (g.retainOthers c id).idsOf c' = if c' = c then (g.idsOf c).filter (· ≠ id) else g.idsOf c' := by
  unfold retainOthers
  split
  · rename_i k known
    rw [idsOf_insert]
    have list : g.idsOf c = k.pendingIds := by rw [idsOf, known]
    rw [list]
  · rename_i missing
    split
    · rename_i same
      have list : g.idsOf c = [] := by rw [idsOf, missing]
      rw [same, list]
      rfl
    · rfl

theorem known_retainOthers (c : Bytes) (id : String) {c' : Bytes} (known : g.Known c') : (g.retainOthers c id).Known c' := by
  unfold retainOthers
  split
  · exact (known_insert _ _ _).2 (.inr known)
  · exact known

/-- An id comes to the list of one consumer, if it is not there. -/
theorem idsOf_pushId (known : g.Known c) (id : String) (c' : Bytes) :
    (g.pushId c id).idsOf c' = if c' = c ∧ id ∉ g.idsOf c then g.idsOf c ++ [id] else g.idsOf c' := by
  obtain ⟨k, is⟩ := Option.isSome_iff_exists.1 known
  have list : g.idsOf c = k.pendingIds := by rw [idsOf, is]
  rw [pushId, is, list]
  dsimp only
  by_cases there : id ∈ k.pendingIds
  · rw [if_pos there, if_neg (fun h => h.2 there)]
  · rw [if_neg there, idsOf_insert]
    by_cases same : c' = c
    · rw [if_pos same, if_pos ⟨same, there⟩]
    · rw [if_neg same, if_neg fun h => same h.1]

theorem known_pushId (c : Bytes) (id : String) {c' : Bytes} (known : g.Known c') : (g.pushId c id).Known c' := by
  unfold pushId
  split
  · split
    · exact known
    · exact (known_insert _ _ _).2 (.inr known)
  · exact known

/-! ## Which operations keep the views consistent -/

theorem Consistent.congr {g' : ConsumerGroup} (consistent : g.Consistent) (owner : ∀ id, g'.owner id = g.owner id)
    (ids : ∀ c, g'.idsOf c = g.idsOf c) : g'.Consistent where
  owned id c := by rw [owner, ids, consistent.owned]
  once c := by
    rw [ids]
    exact consistent.once c

/-- A new consumer changes no list and no owner. -/
theorem Consistent.ensureConsumer (consistent : g.Consistent) (c : Bytes) : (g.ensureConsumer c).Consistent :=
  consistent.congr (owner_ensureConsumer c) (idsOf_ensureConsumer c)

theorem Consistent.dropPending (consistent : g.Consistent) {p : PendingEntry} (pending : g.pendingFor id = some p) :
    (g.dropPending id p).Consistent := by
  have owner : g.owner id = some p.consumer := by rw [ConsumerGroup.owner, pending, Option.map_some]
  refine ⟨fun id' c => ?_, fun c => ?_⟩
  · rw [ConsumerGroup.dropPending, owner_retainOthers, owner_removePending, idsOf_retainOthers]
    simp only [idsOf_removePending]
    by_cases here : id' = id
    · rw [if_pos here, here]
      constructor
      · nofun
      · intro mem
        split at mem
        · simp at mem
        · rename_i other
          have mine := (consistent.owned id c).2 mem
          exact absurd (Option.some.inj (mine.symm.trans owner)) other
    · rw [if_neg here]
      split
      · rename_i same
        rw [same, List.mem_filter, consistent.owned]
        simp [here]
      · exact consistent.owned id' c
  · rw [ConsumerGroup.dropPending, idsOf_retainOthers]
    split
    · exact (consistent.once _).filter _
    · exact consistent.once c

/-- An entry that is on nobody's list is given to a consumer. -/
theorem Consistent.give (known : g.Known c) (others : ∀ id' c', id' ≠ id → (g.owner id' = some c' ↔ id' ∈ g.idsOf c'))
    (free : ∀ c', id ∉ g.idsOf c') (once : ∀ c', (g.idsOf c').Nodup) {p : PendingEntry} (mine : p.consumer = c) :
    ((g.insertPending id p).pushId c id).Consistent := by
  have known : (g.insertPending id p).Known c := known
  refine ⟨fun id' c' => ?_, fun c' => ?_⟩
  · rw [owner_pushId, owner_insertPending, idsOf_pushId known]
    simp only [idsOf_insertPending, free, not_false_eq_true, and_true, mine]
    by_cases here : id' = id
    · rw [if_pos here, here, Option.some_inj]
      split
      · rename_i same
        simp [same]
      · rename_i other
        simp [free, Ne.symm other]
    · rw [if_neg here, others id' c' here]
      split
      · rename_i same
        simp [same, here]
      · rfl
  · rw [idsOf_pushId known]
    simp only [idsOf_insertPending, free, not_false_eq_true, and_true]
    split
    · refine List.nodup_append.2 ⟨once c, List.nodup_singleton _, fun a mem b last same => ?_⟩
      rw [List.mem_singleton.1 last] at same
      exact free c (same ▸ mem)
    · exact once c'

/-- An entry is taken from its owner and given to a consumer. -/
theorem Consistent.reassign (consistent : g.Consistent) {p : PendingEntry} (known : g.Known p.consumer) :
    (g.reassign id (g.pendingFor id) p).Consistent := by
  unfold ConsumerGroup.reassign
  cases pending : g.pendingFor id with
  | none =>
    have free : g.owner id = none := by rw [owner, pending, Option.map_none]
    refine Consistent.give known (fun id' c' _ => consistent.owned id' c') (fun c' mem => ?_) consistent.once rfl
    have mine := (consistent.owned id c').2 mem
    rw [free] at mine
    cases mine
  | some q =>
    have owner : g.owner id = some q.consumer := by rw [ConsumerGroup.owner, pending, Option.map_some]
    refine Consistent.give (known_retainOthers _ _ known) (fun id' c' other => ?_) (fun c' => ?_) (fun c' => ?_) rfl
    · rw [owner_retainOthers, idsOf_retainOthers, consistent.owned]
      split
      · rename_i same
        simp [same, other]
      · rfl
    · rw [idsOf_retainOthers]
      split
      · simp
      · rename_i other
        intro mem
        have mine := (consistent.owned id c').2 mem
        exact other (Option.some.inj (mine.symm.trans owner))
    · rw [idsOf_retainOthers]
      split
      · exact (consistent.once _).filter _
      · exact consistent.once c'

/-! ## The commands on a group -/

theorem known_reassign {prev : Option PendingEntry} {p : PendingEntry} (known : g.Known c) : (g.reassign id prev p).Known c := by
  unfold ConsumerGroup.reassign
  cases prev with
  | none => exact known_pushId _ _ known
  | some q => exact known_pushId _ _ (known_retainOthers _ _ known)

/-- XACK of one id removes it from both sides. -/
theorem Consistent.ack (consistent : g.Consistent) (acked : Nat) (id : String) :
    (ConsumerGroup.ack (g, acked) id).1.Consistent := by
  unfold ConsumerGroup.ack
  dsimp only
  cases pending : g.pendingFor id with
  | none => exact consistent
  | some p => exact consistent.dropPending pending

theorem owner_ack (acked : Nat) (id id' : String) :
    (ConsumerGroup.ack (g, acked) id).1.owner id' = if id' = id then none else g.owner id' := by
  unfold ConsumerGroup.ack
  dsimp only
  cases pending : g.pendingFor id with
  | none =>
    dsimp only
    split
    · rename_i same
      rw [same, owner, pending, Option.map_none]
    · rfl
  | some p =>
    dsimp only [ConsumerGroup.dropPending]
    rw [owner_retainOthers, owner_removePending]

/-- **XACK leaves nothing dangling.** -/
theorem Consistent.acks (consistent : g.Consistent) (ids : List String) (acked : Nat) :
    (ids.foldl ConsumerGroup.ack (g, acked)).1.Consistent ∧
      ∀ id, (ids.foldl ConsumerGroup.ack (g, acked)).1.owner id = if id ∈ ids then none else g.owner id := by
  induction ids generalizing g acked with
  | nil => exact ⟨consistent, fun id => by simp⟩
  | cons i ids ih =>
    obtain ⟨done, owners⟩ := ih (consistent.ack acked i) (ConsumerGroup.ack (g, acked) i).2
    refine ⟨done, fun id => (owners id).trans ?_⟩
    rw [owner_ack]
    by_cases later : id ∈ ids
    · rw [if_pos later, if_pos (.tail _ later)]
    · rw [if_neg later]
      by_cases here : id = i
      · rw [if_pos here, if_pos (here ▸ .head _)]
      · rw [if_neg here, if_neg (by simp [here, later])]

/-- XGROUP DELCONSUMER removes the pending ids of the consumer one by one; the lists of the others stay. -/
theorem foldl_removePending (ids : List String) (g : ConsumerGroup) :
    (∀ c, (ids.foldl ConsumerGroup.removePending g).idsOf c = g.idsOf c) ∧
      ∀ id, (ids.foldl ConsumerGroup.removePending g).owner id = if id ∈ ids then none else g.owner id := by
  induction ids generalizing g with
  | nil => exact ⟨fun _ => rfl, fun id => by simp⟩
  | cons i ids ih =>
    obtain ⟨lists, owners⟩ := ih (g.removePending i)
    refine ⟨fun c => (lists c).trans (idsOf_removePending c), fun id => (owners id).trans ?_⟩
    rw [owner_removePending]
    by_cases later : id ∈ ids
    · rw [if_pos later, if_pos (.tail _ later)]
    · rw [if_neg later]
      by_cases here : id = i
      · rw [if_pos here, if_pos (here ▸ .head _)]
      · rw [if_neg here, if_neg (by simp [here, later])]

/-- **XGROUP DELCONSUMER removes exactly the pending entries of the consumer.** -/
theorem Consistent.removeConsumer (consistent : g.Consistent) (c : Bytes) :
    (g.removeConsumer c).Consistent ∧
      ∀ id, (g.removeConsumer c).owner id = if g.owner id = some c then none else g.owner id := by
  unfold ConsumerGroup.removeConsumer
  cases known : g.consumers.lookup c with
  | none =>
    refine ⟨consistent, fun id => ?_⟩
    rw [if_neg]
    intro mine
    have mem := (consistent.owned id c).1 mine
    rw [idsOf, known] at mem
    cases mem
  | some k =>
    obtain ⟨lists, owners⟩ := foldl_removePending k.pendingIds { g with consumers := g.consumers.erase c }
    have list : g.idsOf c = k.pendingIds := by rw [idsOf, known]
    have owners (id : String) : (k.pendingIds.foldl ConsumerGroup.removePending
        { g with consumers := g.consumers.erase c }).owner id = if g.owner id = some c then none else g.owner id := by
      have same : ({ g with consumers := g.consumers.erase c } : ConsumerGroup).owner id = g.owner id := rfl
      rw [owners id, same, ← list]
      simp only [consistent.owned]
    have lists (c' : Bytes) : (k.pendingIds.foldl ConsumerGroup.removePending
        { g with consumers := g.consumers.erase c }).idsOf c' = if c' = c then [] else g.idsOf c' := by
      rw [lists c']
      unfold idsOf
      split
      · rename_i found
        by_cases same : c' = c
        · subst same
          rw [AList.lookup_erase] at found
          cases found
        · rw [AList.lookup_erase_ne same] at found
          rw [if_neg same, found]
      · rename_i missing
        by_cases same : c' = c
        · rw [if_pos same]
        · rw [AList.lookup_erase_ne same] at missing
          rw [if_neg same, missing]
    refine ⟨⟨fun id c' => ?_, fun c' => ?_⟩, owners⟩
    · rw [owners, lists]
      by_cases mine : g.owner id = some c
      · rw [if_pos mine]
        constructor
        · nofun
        · intro mem
          split at mem
          · cases mem
          · rename_i other
            have his := (consistent.owned id c').2 mem
            exact absurd (Option.some.inj (his.symm.trans mine)) other
      · rw [if_neg mine]
        split
        · rename_i same
          simp [same, mine]
        · exact consistent.owned id c'
    · rw [lists]
      split
      · exact .nil
      · exact consistent.once c'

theorem Consistent.claim (consistent : g.Consistent) {k : ClaimCall} (known : g.Known k.consumer) (now : Nat)
    (entries : List StreamEntry) (claimed : List Resp) (id : String) :
    (ConsumerGroup.claim now k entries (g, claimed) id).1.Consistent ∧
      (ConsumerGroup.claim now k entries (g, claimed) id).1.Known k.consumer := by
  unfold ConsumerGroup.claim
  dsimp only
  split
  · exact ⟨consistent, known⟩
  · split
    · exact ⟨consistent, known⟩
    · split
      · cases pending : g.pendingFor id with
        | none => exact ⟨consistent, known⟩
        | some p => exact ⟨consistent.dropPending pending, known_retainOthers _ _ known⟩
      · split
        · exact ⟨consistent, known⟩
        · exact ⟨Consistent.reassign consistent known, known_reassign known⟩

theorem Consistent.claims (consistent : g.Consistent) {k : ClaimCall} (known : g.Known k.consumer) (now : Nat)
    (entries : List StreamEntry) (ids : List String) (claimed : List Resp) :
    (ids.foldl (ConsumerGroup.claim now k entries) (g, claimed)).1.Consistent := by
  induction ids generalizing g claimed with
  | nil => exact consistent
  | cons id ids ih =>
    obtain ⟨first, still⟩ := consistent.claim known now entries claimed id
    exact ih first still _

theorem Consistent.autoclaim {k : AutoclaimCall} (now : Nat) (entries : List StreamEntry) (ids : List String)
    {acc : Autoclaimed} (consistent : acc.group.Consistent) (known : acc.group.Known k.consumer) :
    (ConsumerGroup.autoclaim now k entries ids acc).group.Consistent := by
  induction ids generalizing acc with
  | nil => exact consistent
  | cons id ids ih =>
    unfold ConsumerGroup.autoclaim
    split
    · exact consistent
    · cases pending : acc.group.pendingFor id with
      | none => exact ih consistent known
      | some p =>
        dsimp only
        split
        · refine ih ((consistent.dropPending pending).congr (fun id' => ?_) fun c => ?_) (known_retainOthers _ _ known)
          · rw [ConsumerGroup.dropPending, owner_removePending, owner_retainOthers, owner_retainOthers, owner_removePending]
          · rw [ConsumerGroup.dropPending, idsOf_removePending, idsOf_retainOthers, idsOf_retainOthers]
            simp only [idsOf_removePending]
        · split
          · exact ih consistent known
          · refine ih ?_ (known_reassign known)
            dsimp only
            rw [← pending]
            exact consistent.reassign known

/-- Note a delivery to the consumer that has the entry, or that nobody has. -/
theorem Consistent.deliver (consistent : g.Consistent) (known : g.Known c) (now : Nat) {e : StreamEntry}
    (mine : ∀ d, g.owner e.id = some d → d = c) :
    (ConsumerGroup.deliver now c g e).Consistent ∧ (ConsumerGroup.deliver now c g e).Known c := by
  unfold ConsumerGroup.deliver
  dsimp only
  refine ⟨?_, known_pushId _ _ known⟩
  cases owned : g.owner e.id with
  | none =>
    refine Consistent.give known (fun id' c' _ => consistent.owned id' c') (fun c' mem => ?_) consistent.once rfl
    have his := (consistent.owned e.id c').2 mem
    rw [owned] at his
    cases his
  | some d =>
    have same : d = c := mine d owned
    subst same
    have listed := (consistent.owned e.id d).1 owned
    refine consistent.congr (fun id' => ?_) fun c' => ?_
    · rw [owner_pushId, owner_insertPending]
      split
      · rename_i same
        rw [same, owned]
      · rfl
    · rw [idsOf_pushId (g := g.insertPending e.id _) known, if_neg (fun h => h.2 listed), idsOf_insertPending]

theorem owner_deliver (now : Nat) (c : Bytes) (e : StreamEntry) (id : String) :
    (ConsumerGroup.deliver now c g e).owner id = if id = e.id then some c else g.owner id := by
  unfold ConsumerGroup.deliver
  dsimp only
  rw [owner_pushId, owner_insertPending]

/-- XREADGROUP with `>`, by induction on what it delivers. An entry must not be pending for another consumer. -/
theorem Consistent.delivers (consistent : g.Consistent) (known : g.Known c) (now : Nat) {delivered : List StreamEntry}
    (mine : ∀ e ∈ delivered, ∀ d, g.owner e.id = some d → d = c) :
    (delivered.foldl (ConsumerGroup.deliver now c) g).Consistent := by
  induction delivered generalizing g with
  | nil => exact consistent
  | cons e delivered ih =>
    obtain ⟨first, still⟩ := consistent.deliver known now (mine e (.head _))
    refine ih first still fun e' mem d owned => ?_
    rw [owner_deliver] at owned
    split at owned
    · exact (Option.some.inj owned).symm
    · exact mine e' (.tail _ mem) d owned

end ConsumerGroup

/-! ## The commands on a key -/

/-- The groups of the stream are consistent. -/
def Booked (cell : Option DataType) : Prop :=
  ∀ s, cell = some (.stream s) → ∀ name g, s.groups.lookup name = some g → g.Consistent

section

variable {cell : Option DataType} {s : StreamData}

theorem booked_none : Booked none := nofun

/-- The groups of the stream are those it had. -/
theorem Booked.groups (booked : Booked (some (.stream s))) {s' : StreamData} (same : s'.groups = s.groups) :
    Booked (some (.stream s')) := by
  intro t is name g found
  cases is
  rw [same] at found
  exact booked s rfl name g found

theorem Booked.insert (booked : Booked (some (.stream s))) {g : ConsumerGroup} (consistent : g.Consistent) (name : Bytes) :
    Booked (some (.stream { s with groups := s.groups.insert name g })) := by
  intro t is name' g' found
  cases is
  by_cases same : name' = name
  · subst same
    rw [AList.lookup_insert] at found
    cases found
    exact consistent
  · rw [AList.lookup_insert_ne same] at found
    exact booked s rfl name' g' found

theorem Booked.trimmed {cell' : Option DataType} (booked : Booked cell) (cases : cell' = cell ∨ ∃ s s',
    cell = some (.stream s) ∧ s.TrimmedTo s' ∧ cell' = some (.stream s')) : Booked cell' := by
  rcases cases with rfl | ⟨s, s', rfl, ⟨entries, -, rfl⟩, rfl⟩
  · exact booked
  · exact booked.groups rfl

theorem Booked.xadd (booked : Booked cell) (toUppercase : String → String) (now : UInt64) (args : List Resp) :
    Booked (cmdXadd toUppercase now args cell).1 := by
  unfold cmdXadd
  cases parseXadd toUppercase args with
  | error e => exact booked
  | ok c =>
    rcases c.run_cases now cell with ⟨same, -⟩ | ⟨s, id, stream, -, done, -⟩
    · dsimp only
      rw [same]
      exact booked
    · dsimp only
      rw [done]
      have first : Booked (some (.stream s)) := by
        unfold getStreamMut at stream
        split at stream
        · cases stream
          intro t is name g found
          cases is
          cases found
        · cases stream
          exact booked
        · cases stream
      obtain ⟨entries, -, is⟩ := (s.push ⟨id.toWire, c.fields⟩).trimmedTo_trim c.maxlen c.minid
      rw [is]
      exact first.groups rfl

/-- A command on one group keeps what its body keeps. -/
theorem Booked.withGroup (booked : Booked cell) {group : Bytes} {missingKey missingGroup : Result Resp}
    {body : StreamData → ConsumerGroup → ConsumerGroup × Result Resp}
    (keep : ∀ s g, g.Consistent → (body s g).1.Consistent) :
    Booked (withGroup group missingKey missingGroup cell body).1 := by
  rcases withGroup_cases group missingKey missingGroup cell body with same | ⟨s, g, rfl, found, done⟩
  · rw [same]
    exact booked
  · rw [done]
    exact booked.insert (keep s g (booked s rfl group g found)) group

/-- Arguments that are refused change nothing. -/
theorem Booked.onArgs {A : Type} {parsed : Result A} {body : A → Option DataType × Result Resp} (booked : Booked cell)
    (each : ∀ a, Booked (body a).1) : Booked (onArgs parsed cell body).1 := by
  rcases onArgs_cases parsed cell body with same | ⟨a, done⟩
  · rw [same]
    exact booked
  · rw [done]
    exact each a

theorem Booked.xgroup (booked : Booked cell) (toUppercase : String → String) (args : List Resp) :
    Booked (cmdXgroup toUppercase args cell).1 := by
  refine booked.onArgs fun sub => ?_
  split
  · refine booked.onArgs fun ⟨_, group, lastId⟩ => ?_
    have create (s : StreamData) (first : Booked (some (.stream s))) :
        Booked (if (s.groups.lookup group).isSome then
          (some (.stream s), .error (.generic "BUSYGROUP Consumer Group name already exists"))
        else (some (.stream { s with groups := s.groups.insert group (.new group (resolveGroupId s lastId)) }),
          (.ok (.simpleString "OK") : Result Resp))).1 := by
      split
      · exact first
      · exact first.insert (ConsumerGroup.consistent_new _ _) group
    dsimp only
    split
    · split
      · refine create .new fun t is name g found => ?_
        cases is
        cases found
      · exact booked
    · exact create _ booked
    · exact booked
  · refine booked.onArgs fun ⟨_, group, lastId⟩ => ?_
    exact booked.withGroup fun s g consistent => consistent.congr (fun _ => rfl) fun _ => rfl
  · refine booked.onArgs fun ⟨_, group⟩ => ?_
    dsimp only
    split
    · exact booked
    · intro t is name g found
      cases is
      by_cases same : name = group
      · subst same
        rw [AList.lookup_erase] at found
        cases found
      · rw [AList.lookup_erase_ne same] at found
        exact booked _ rfl name g found
    · exact booked
  · refine booked.onArgs fun ⟨_, group, consumer⟩ => ?_
    exact booked.withGroup fun s g consistent => consistent.ensureConsumer consumer
  · refine booked.onArgs fun ⟨_, group, consumer⟩ => ?_
    exact booked.withGroup fun s g consistent => (consistent.removeConsumer consumer).1
  · exact booked

theorem Booked.xack (booked : Booked cell) (args : List Resp) : Booked (cmdXack args cell).1 :=
  booked.onArgs fun ⟨_, _⟩ => booked.withGroup fun _ _ consistent => (consistent.acks _ 0).1

theorem Booked.xclaim (booked : Booked cell) (toUppercase : String → String) (now : Nat) (args : List Resp) :
    Booked (cmdXclaim toUppercase now args cell).1 :=
  booked.onArgs fun c => booked.withGroup fun s g consistent =>
    (consistent.ensureConsumer c.consumer).claims (g.known_ensureConsumer c.consumer) now s.entries c.ids []

theorem Booked.xautoclaim (booked : Booked cell) (toUppercase : String → String) (now : Nat) (args : List Resp) :
    Booked (cmdXautoclaim toUppercase now args cell).1 :=
  booked.onArgs fun c => booked.withGroup fun s g consistent =>
    ConsumerGroup.Consistent.autoclaim now s.entries _ (consistent.ensureConsumer c.consumer)
      (g.known_ensureConsumer c.consumer)

end

/-! ## XREADGROUP -/

/-- No entry is delivered, for acknowledgement, that is pending for another consumer. -/
def KeyFits (c : ReadGroupCall) (id : String) (cell : Option DataType) : Prop :=
  ∀ s g, cell = some (.stream s) → s.groups.lookup c.group = some g → c.noack = false →
    ∀ e ∈ (g.select c id s.entries).2, ∀ d, g.owner e.id = some d → d = c.consumer

/-- The same of every key of a call, each as the read gets to it. -/
def ReadFits (now : Nat) (c : ReadGroupCall) : List (Bytes × String) → Cells → Prop
  | [], _ => True
  | (key, id) :: specs, cells => KeyFits c id (cells key) ∧
      ReadFits now c specs (Function.update cells key (readStream now c id (cells key)).1)

/-- The condition of a delivery, for XREADGROUP; the other commands have none. -/
def GroupEvent.Fits (toUppercase : String → String) (e : GroupEvent) (cells : Cells) : Prop :=
  match e with
  | .xreadgroup now args => ∀ c, parseXreadgroup toUppercase args = .ok c → ReadFits now.toNat c c.specs cells
  | _ => True

namespace ConsumerGroup

variable {g : ConsumerGroup}

/-- A selection leaves the pending entries alone. -/
theorem select_views (c : ReadGroupCall) (id : String) (entries : List StreamEntry) :
    (∀ id', (g.select c id entries).1.owner id' = g.owner id') ∧
      (∀ c', (g.select c id entries).1.idsOf c' = g.idsOf c') ∧ (g.select c id entries).1.Known c.consumer := by
  have ensured := g.known_ensureConsumer c.consumer
  have first : (∀ id', (g.ensureConsumer c.consumer).owner id' = g.owner id') ∧
      (∀ c', (g.ensureConsumer c.consumer).idsOf c' = g.idsOf c') ∧ (g.ensureConsumer c.consumer).Known c.consumer :=
    ⟨owner_ensureConsumer c.consumer, idsOf_ensureConsumer c.consumer, ensured⟩
  unfold ConsumerGroup.select
  dsimp only
  split
  · unfold advanceTo
    split
    · exact first
    · exact first
  · exact first

theorem Consistent.read (consistent : g.Consistent) (now : Nat) {c : ReadGroupCall} {id : String}
    {entries : List StreamEntry}
    (fits : c.noack = false → ∀ e ∈ (g.select c id entries).2, ∀ d, g.owner e.id = some d → d = c.consumer) :
    (g.read now c id entries).1.Consistent := by
  obtain ⟨owners, lists, known⟩ := g.select_views c id entries
  have selected : (g.select c id entries).1.Consistent := consistent.congr owners lists
  unfold ConsumerGroup.read
  dsimp only
  split
  · exact selected
  · refine selected.delivers known now fun e mem d owned => ?_
    rw [owners] at owned
    exact fits (by simpa using ‹¬ c.noack = true›) e mem d owned

end ConsumerGroup

theorem booked_update {cells : Cells} (booked : ∀ key, Booked (cells key)) {key : Bytes} {cell : Option DataType}
    (here : Booked cell) (key' : Bytes) : Booked (Function.update cells key cell key') := by
  by_cases same : key' = key
  · subst same
    rw [Function.update_self]
    exact here
  · rw [Function.update_of_ne same]
    exact booked key'

theorem Booked.readStream {cell : Option DataType} (booked : Booked cell) (now : Nat) {c : ReadGroupCall} {id : String}
    (fits : KeyFits c id cell) : Booked (readStream now c id cell).1 := by
  unfold NexradeCache.readStream
  split
  · exact booked
  · rename_i s
    cases found : s.groups.lookup c.group with
    | none => exact booked
    | some g =>
      have consistent := (booked s rfl c.group g found).read now (fits s g rfl found)
      exact booked.insert consistent c.group
  · exact booked

/-- **A read that fits.** -/
theorem booked_readOnce (now : Nat) (c : ReadGroupCall) (specs : List (Bytes × String)) {cells : Cells}
    (booked : ∀ key, Booked (cells key)) (fits : ReadFits now c specs cells) (key : Bytes) :
    Booked ((readOnce now c specs cells).1 key) := by
  induction specs generalizing cells with
  | nil => exact booked key
  | cons spec specs ih =>
    obtain ⟨here, later⟩ := fits
    have first (key : Bytes) : Booked (Function.update cells spec.1 (readStream now c spec.2 (cells spec.1)).1 key) :=
      booked_update booked ((booked spec.1).readStream now here) key
    unfold readOnce
    dsimp only
    cases (readStream now c spec.2 (cells spec.1)).2 with
    | error e => exact first key
    | ok delivered => exact ih first later

theorem booked_onKey {cells : Cells} (booked : ∀ key, Booked (cells key)) (args : List Resp) (i : Nat)
    {op : Option DataType → Option DataType × Result Resp} (keep : ∀ {cell}, Booked cell → Booked (op cell).1)
    (key : Bytes) : Booked (onKey args i op cells key) := by
  unfold onKey
  cases getBytesVec args i with
  | none => exact booked key
  | some here => exact booked_update booked (keep (booked here)) key

/-- **One step of the run.** -/
theorem booked_step {toUppercase : String → String} {e : GroupEvent} {cells : Cells} (booked : ∀ key, Booked (cells key))
    (fits : e.Fits toUppercase cells) (key : Bytes) : Booked (e.step toUppercase cells key) := by
  cases e with
  | xadd now args => exact booked_onKey booked args 1 (fun h => h.xadd toUppercase now args) key
  | xdel args => exact booked_onKey booked args 1 (fun h => h.trimmed (cmdXdel_cases args _)) key
  | xtrim args => exact booked_onKey booked args 1 (fun h => h.trimmed (cmdXtrim_cases toUppercase args _)) key
  | xgroup args => exact booked_onKey booked args 2 (fun h => h.xgroup toUppercase args) key
  | xack args => exact booked_onKey booked args 1 (fun h => h.xack args) key
  | xclaim now args => exact booked_onKey booked args 1 (fun h => h.xclaim toUppercase now.toNat args) key
  | xautoclaim now args => exact booked_onKey booked args 1 (fun h => h.xautoclaim toUppercase now.toNat args) key
  | xreadgroup now args =>
    unfold GroupEvent.step
    dsimp only
    cases parsed : parseXreadgroup toUppercase args with
    | error e => exact booked key
    | ok c => exact booked_readOnce now.toNat c c.specs booked (fits c parsed) key

/-- **The two views agree** in every state of every run whose reads fit: the pending entries of the group and those
of its consumers are the same, each with its owner. Then XGROUP DELCONSUMER removes exactly the pending entries of
the deleted consumer, and no acknowledged id is left anywhere. Only XREADGROUP can give an entry a second owner,
since it does not take it from the first. -/
theorem pendingEntries_consistent (toUppercase : String → String) (events : List GroupEvent) (cells : Cells)
    (start : ∀ key, Booked (cells key))
    (fits : Always (GroupEvent.step toUppercase) (GroupEvent.Fits toUppercase) events cells)
    {key name : Bytes} {s : StreamData} {g : ConsumerGroup}
    (reached : run (GroupEvent.step toUppercase) events cells key = some (.stream s))
    (found : s.groups.lookup name = some g) :
    g.Consistent ∧
      (∀ c id, (g.removeConsumer c).owner id = if g.owner id = some c then none else g.owner id) ∧
      ∀ (ids : List String), ∀ id ∈ ids, (ids.foldl ConsumerGroup.ack (g, 0)).1.owner id = none ∧
        ∀ c, id ∉ (ids.foldl ConsumerGroup.ack (g, 0)).1.idsOf c := by
  have booked := (fits.of_invariant (P := fun _ _ => True) start (fun _ _ booked fits => booked_step booked fits)
    fun _ _ _ _ => trivial).2
  have consistent := booked key s reached name g found
  refine ⟨consistent, fun c => (consistent.removeConsumer c).2, fun ids id mem => ?_⟩
  obtain ⟨still, owners⟩ := consistent.acks ids 0
  have gone := (owners id).trans (if_pos mem)
  refine ⟨gone, fun c listed => ?_⟩
  have mine := (still.owned id c).2 listed
  rw [gone] at mine
  cases mine

/-! ## A delivery, a claim and an acknowledgement; and a delivery again -/

/-- A request, word by word. -/
def groupWords (text : List String) : List Resp := text.map fun word => .bulkString (some (Utf8.asBytes word))

/-- A group of a stream. -/
def groupAt (cells : Cells) (key name : Bytes) : Option ConsumerGroup :=
  match cells key with
  | some (.stream s) => s.groups.lookup name
  | _ => none

theorem groupAt_eq_some {cells : Cells} {key name : Bytes} {g : ConsumerGroup} (found : groupAt cells key name = some g) :
    ∃ s, cells key = some (.stream s) ∧ s.groups.lookup name = some g := by
  unfold groupAt at found
  split at found
  · exact ⟨_, ‹_›, found⟩
  · cases found

/-- A stream `s` of one entry, with a group `g` that has delivered nothing. -/
def oneEntry : Cells :=
  Function.update (fun _ => none) [115] (some (.stream
    ⟨[⟨"1-0", [([102], [118])]⟩], AList.insert [103] (.new [103] "0-0") ∅, "1-0", 1⟩))

theorem booked_oneEntry (key : Bytes) : Booked (oneEntry key) := by
  refine booked_update (fun _ => booked_none) ?_ key
  intro s is name g found
  cases is
  by_cases same : name = [103]
  · subst same
    rw [AList.lookup_insert] at found
    cases found
    exact ConsumerGroup.consistent_new _ _
  · rw [AList.lookup_insert_ne same] at found
    cases found

/-- A delivery to this consumer. -/
def readBy (consumer : String) : GroupEvent :=
  .xreadgroup 5 (groupWords ["XREADGROUP", "GROUP", "g", consumer, "STREAMS", "s", ">"])

/-- `a` reads the entry, `b` claims it. -/
def claimed : List GroupEvent := [readBy "a", .xclaim 9 (groupWords ["XCLAIM", "s", "g", "b", "0", "1-0"])]

/-- An entry that is delivered, and then claimed by another consumer. -/
theorem pendingEntries_consistent_claimed :
    ∃ g, groupAt (run (GroupEvent.step upperAscii) claimed oneEntry) [115] [103] = some g ∧
      g.owner "1-0" = some [98] ∧ g.Consistent := by
  have fits : Always (GroupEvent.step upperAscii) (GroupEvent.Fits upperAscii) claimed oneEntry := by
    refine ⟨fun c parsed => ?_, trivial, trivial⟩
    have is : parseXreadgroup upperAscii (groupWords ["XREADGROUP", "GROUP", "g", "a", "STREAMS", "s", ">"]) =
        .ok ⟨[103], [97], none, false, none, [([115], ">")]⟩ := by decide +kernel
    cases is.symm.trans parsed
    refine ⟨fun s g is found _ e _ d owned => ?_, trivial⟩
    cases is
    cases found
    cases owned
  have owned : ((groupAt (run (GroupEvent.step upperAscii) claimed oneEntry) [115] [103]).bind (·.owner "1-0")) = some [98] := by
    decide +kernel
  obtain ⟨g, found, owned⟩ := Option.bind_eq_some_iff.1 owned
  obtain ⟨s, reached, there⟩ := groupAt_eq_some found
  exact ⟨g, found, owned, (pendingEntries_consistent upperAscii claimed oneEntry booked_oneEntry fits reached there).1⟩

/-- **A delivery again to another consumer**: after XGROUP SETID the entry is pending for `b` and on the lists
of both; deleting `a` removes the pending entry of `b`. -/
theorem pendingEntries_twice :
    let again := [readBy "a", .xgroup (groupWords ["XGROUP", "SETID", "s", "g", "0"]), readBy "b"]
    let deleted := again ++ [.xgroup (groupWords ["XGROUP", "DELCONSUMER", "s", "g", "a"])]
    let group (events : List GroupEvent) := groupAt (run (GroupEvent.step upperAscii) events oneEntry) [115] [103]
    (∀ key, Booked (oneEntry key)) ∧
      (group again).map (fun g => (g.owner "1-0", g.idsOf [97], g.idsOf [98])) = some (some [98], ["1-0"], ["1-0"]) ∧
      (group deleted).map (fun g => (g.owner "1-0", g.idsOf [98])) = some (none, ["1-0"]) ∧
      ∀ g, group again = some g → ¬ g.Consistent := by
  intro again deleted group
  have views : (group again).map (fun g => (g.owner "1-0", g.idsOf [97], g.idsOf [98])) =
      some (some [98], ["1-0"], ["1-0"]) := by decide +kernel
  refine ⟨booked_oneEntry, views, by decide +kernel, fun g is consistent => ?_⟩
  rw [is] at views
  obtain ⟨owned, views⟩ := Prod.mk.inj (Option.some.inj views)
  obtain ⟨listed, -⟩ := Prod.mk.inj views
  have mine := (consistent.owned "1-0" [97]).2 (listed ▸ .head _)
  rw [owned] at mine
  revert mine
  decide

end NexradeCache
