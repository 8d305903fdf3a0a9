import NexradeCache.Command.PendingKeys

/-!
# Walks of XAUTOCLAIM

A page of XAUTOCLAIM visits pending ids in id order and ends in front of the id that its cursor names. What a visit
does is said by the view of one id (`hit`): visits of other ids leave it alone, so the pages of a walk from 0-0 can be
put one behind the other, and each pending id is visited by one of them.
-/

namespace NexradeCache

open Utf8

theorem StreamId.not_lt_min (i : StreamId) : ¬i < .MIN := by simp [StreamId.lt_iff, StreamId.MIN]

/-- What the calls of a walk have in common. -/
structure AutoclaimTerms where
  group : Bytes
  consumer : Bytes
  minIdle : Nat
  justid : Bool

def AutoclaimCall.terms (c : AutoclaimCall) : AutoclaimTerms := ⟨c.group, c.consumer, c.minIdle, c.justid⟩

namespace ConsumerGroup

/-! ## One visit -/

/-- The entry of an id is still in the stream. -/
def stored (entries : List StreamEntry) (id : String) : Bool := entries.any (·.id = id)

/-- What a group says about an id: its pending entry, and the consumers that have it on their lists. -/
abbrev View := Option PendingEntry × Set Bytes

def view (g : ConsumerGroup) (id : String) : View := (g.pendingFor id, {c | id ∈ g.idsOf c})

/-- The pass of the loop over one id. -/
def visit (now : Nat) (t : AutoclaimTerms) (entries : List StreamEntry) (g : ConsumerGroup) (id : String) :
    ConsumerGroup :=
  match g.pendingFor id with
  | none => g
  | some p =>
    if !stored entries id then (g.retainOthers p.consumer id).removePending id
    else if now - p.deliveryTimeMs < t.minIdle then g
    else g.reassign id (some p)
      ⟨t.consumer, now, if t.justid then p.deliveryCount else wrappingSucc p.deliveryCount⟩

/-- What a visit makes of the view of its id. -/
def hit (now : Nat) (t : AutoclaimTerms) (here : Bool) : View → View
  | (none, lists) => (none, lists)
  | (some p, lists) =>
    if !here then (none, lists \ {p.consumer})
    else if now - p.deliveryTimeMs < t.minIdle then (some p, lists)
    else (some ⟨t.consumer, now, if t.justid then p.deliveryCount else wrappingSucc p.deliveryCount⟩,
      insert t.consumer (lists \ {p.consumer}))

/-- A visit claims the id. -/
def claims (now : Nat) (t : AutoclaimTerms) (entries : List StreamEntry) (g : ConsumerGroup) (id : String) : Bool :=
  (g.pendingFor id).any fun p => stored entries id && t.minIdle ≤ now - p.deliveryTimeMs

/-- A visit finds that the entry is gone. -/
def gone (entries : List StreamEntry) (g : ConsumerGroup) (id : String) : Bool :=
  (g.pendingFor id).isSome && !stored entries id

variable {g g' : ConsumerGroup} {now : Nat} {t : AutoclaimTerms} {entries : List StreamEntry} {id : String} {c : Bytes}

theorem view_congr {id' : String} (pending : g'.pendingFor id' = g.pendingFor id')
    (lists : ∀ c, id' ∈ g'.idsOf c ↔ id' ∈ g.idsOf c) : g'.view id' = g.view id' :=
  Prod.ext pending (Set.ext lists)

theorem pendingFor_congr (same : g'.pending = g.pending) (id : String) : g'.pendingFor id = g.pendingFor id := by
  rw [pendingFor, pendingFor, same]

theorem view_ensureConsumer (g : ConsumerGroup) (c : Bytes) (id : String) : (g.ensureConsumer c).view id = g.view id :=
  view_congr (pendingFor_congr (pending_ensureConsumer g c) id) fun c' => by rw [idsOf_ensureConsumer]

theorem pendingFor_reassign (prev : Option PendingEntry) (p : PendingEntry) (id' : String) :
    (g.reassign id prev p).pendingFor id' = if id' = id then some p else g.pendingFor id' := by
  unfold ConsumerGroup.reassign
  dsimp only
  rw [pendingFor_congr (pending_pushId _ _ _), pendingFor_insertPending]
  cases prev with
  | none => rfl
  | some q => rw [pendingFor_congr (pending_retainOthers _ _ _)]

/-- A claimed id leaves the list of its owner, and is put on that of the consumer. -/
theorem mem_idsOf_reassign {p q : PendingEntry} (known : g.Known p.consumer) (id' : String) (c : Bytes) :
    id' ∈ (g.reassign id (some q) p).idsOf c ↔
      if id' = id then c = p.consumer ∨ (c ≠ q.consumer ∧ id ∈ g.idsOf c) else id' ∈ g.idsOf c := by
  have known' : ((g.retainOthers q.consumer id).insertPending id p).Known p.consumer := known_retainOthers _ _ known
  have kept (c : Bytes) : id' ∈ ((g.retainOthers q.consumer id).insertPending id p).idsOf c ↔
      id' ∈ g.idsOf c ∧ (id' = id → c ≠ q.consumer) := by
    rw [idsOf_insertPending, idsOf_retainOthers]
    by_cases owner : c = q.consumer
    · rw [if_pos owner, owner, List.mem_filter]
      simp
    · simp [owner]
  unfold ConsumerGroup.reassign
  dsimp only
  rw [idsOf_pushId known']
  by_cases same : id' = id
  · subst same
    rw [if_pos rfl]
    by_cases mine : c = p.consumer
    · subst mine
      simp only [true_and, true_or, iff_true]
      split
      · exact List.mem_append_right _ (.head _)
      · rename_i there
        exact not_not.1 there
    · rw [if_neg fun h => mine h.1, kept]
      simp [mine, and_comm]
  · rw [if_neg same]
    split
    · rename_i mine
      rw [mine.1, List.mem_append, kept]
      simp [same]
    · rw [kept]
      simp [same]

theorem view_reassign {p q : PendingEntry} (known : g.Known p.consumer) (id' : String) :
    (g.reassign id (some q) p).view id' =
      if id' = id then (some p, insert p.consumer ((g.view id).2 \ {q.consumer})) else g.view id' := by
  by_cases same : id' = id
  · subst same
    rw [if_pos rfl]
    refine Prod.ext ((pendingFor_reassign _ _ _).trans (if_pos rfl)) (Set.ext fun c => ?_)
    refine (mem_idsOf_reassign known _ _).trans ?_
    rw [if_pos rfl, view]
    simp only [Set.mem_insert_iff, Set.mem_sdiff, Set.mem_singleton_iff, Set.mem_ofPred_eq]
    tauto
  · rw [if_neg same]
    refine view_congr ((pendingFor_reassign _ _ _).trans (if_neg same)) fun c => ?_
    rw [mem_idsOf_reassign known, if_neg same]

theorem view_drop (owner : Bytes) (id' : String) :
    ((g.retainOthers owner id).removePending id).view id' =
      if id' = id then (none, (g.view id).2 \ {owner}) else g.view id' := by
  have pending (id' : String) : ((g.retainOthers owner id).removePending id).pendingFor id' =
      if id' = id then none else g.pendingFor id' := by
    rw [pendingFor_removePending, pendingFor_congr (pending_retainOthers _ _ _)]
  have lists (id' : String) (c : Bytes) : id' ∈ ((g.retainOthers owner id).removePending id).idsOf c ↔
      id' ∈ g.idsOf c ∧ (id' = id → c ≠ owner) := by
    rw [idsOf_removePending, idsOf_retainOthers]
    by_cases mine : c = owner
    · rw [if_pos mine, mine, List.mem_filter]
      simp
    · simp [mine]
  by_cases same : id' = id
  · subst same
    rw [if_pos rfl]
    refine Prod.ext ((pending id').trans (if_pos rfl)) (Set.ext fun c => ?_)
    refine (lists id' c).trans ?_
    simp [view]
  · rw [if_neg same]
    refine view_congr ((pending id').trans (if_neg same)) fun c => ?_
    rw [lists]
    simp [same]

theorem hit_none {v : View} (pending : v.1 = none) (here : Bool) : hit now t here v = v := by
  obtain ⟨_, lists⟩ := v
  obtain rfl : _ = none := pending
  rfl

theorem hit_some {v : View} {p : PendingEntry} (pending : v.1 = some p) (here : Bool) :
    hit now t here v =
      if !here then (none, v.2 \ {p.consumer})
      else if now - p.deliveryTimeMs < t.minIdle then v
      else (some ⟨t.consumer, now, if t.justid then p.deliveryCount else wrappingSucc p.deliveryCount⟩,
        insert t.consumer (v.2 \ {p.consumer})) := by
  obtain ⟨_, lists⟩ := v
  obtain rfl : _ = some p := pending
  rfl

theorem view_visit (known : g.Known t.consumer) (id id' : String) :
    (g.visit now t entries id).view id' =
      if id' = id then hit now t (stored entries id) (g.view id) else g.view id' := by
  have untouched : g.view id' = if id' = id then g.view id else g.view id' := by
    split
    · rename_i same
      rw [same]
    · rfl
  unfold visit
  cases pending : g.pendingFor id with
  | none =>
    rw [hit_none pending]
    exact untouched
  | some p =>
    rw [hit_some pending]
    dsimp only
    split
    · exact view_drop p.consumer id'
    · split
      · exact untouched
      · exact view_reassign known id'

theorem known_visit (known : g.Known c) (id : String) : (g.visit now t entries id).Known c := by
  unfold visit
  split
  · exact known
  · split
    · exact known_retainOthers _ _ known
    · split
      · exact known
      · exact known_reassign known

theorem pendingFor_eq_some {p : PendingEntry} (pending : g.pendingFor id = some p) : (id, p) ∈ g.pending := by
  obtain ⟨a, z, split, -⟩ := List.lookup_eq_some_iff.1 pending
  rw [split]
  simp

theorem Keyed.visit (keyed : g.Keyed) (now : Nat) (t : AutoclaimTerms) (entries : List StreamEntry) (id : String) :
    (g.visit now t entries id).Keyed := by
  unfold ConsumerGroup.visit
  cases pending : g.pendingFor id with
  | none => exact keyed
  | some p =>
    dsimp only
    split
    · exact (keyed.congr (pending_retainOthers _ _ _)).removePending id
    · split
      · exact keyed
      · exact keyed.reassign (keyed.wire _ (pendingFor_eq_some pending)) _ _

/-! ## The visits of a page -/

variable {v ids rest : List String}

theorem Keyed.visits (keyed : g.Keyed) (v : List String) : (v.foldl (ConsumerGroup.visit now t entries) g).Keyed := by
  induction v generalizing g with
  | nil => exact keyed
  | cons id v ih => exact ih (keyed.visit now t entries id)

/-- Every id that is visited is visited once. -/
theorem view_visits (known : g.Known t.consumer) (nodup : v.Nodup) (id : String) :
    (v.foldl (visit now t entries) g).view id =
      if id ∈ v then hit now t (stored entries id) (g.view id) else g.view id := by
  induction v generalizing g with
  | nil => rfl
  | cons a v ih =>
    obtain ⟨fresh, nodup⟩ := List.nodup_cons.1 nodup
    rw [List.foldl_cons, ih (known_visit known a) nodup, view_visit known]
    by_cases same : id = a
    · subst same
      rw [if_neg fresh, if_pos rfl, if_pos (.head _)]
    · simp only [same, if_false, List.mem_cons, false_or]

theorem claims_congr (same : g'.view id = g.view id) : claims now t entries g' id = claims now t entries g id := by
  have pending : g'.pendingFor id = g.pendingFor id := congrArg Prod.fst same
  rw [claims, claims, pending]

theorem gone_congr (same : g'.view id = g.view id) : gone entries g' id = gone entries g id := by
  have pending : g'.pendingFor id = g.pendingFor id := congrArg Prod.fst same
  rw [gone, gone, pending]

/-- What the loop comes to, if these are the ids that it visits. -/
structure Paged (now : Nat) (c : AutoclaimCall) (entries : List StreamEntry) (ids visited : List String)
    (acc out : Autoclaimed) : Prop where
  split : ∃ rest, ids = visited ++ rest ∧ out.cursor = rest.head?.getD acc.cursor
  group : out.group = visited.foldl (visit now c.terms entries) acc.group
  claimed : out.claimed = acc.claimed ++
    (visited.filter (claims now c.terms entries acc.group)).flatMap (claimReply c.justid entries)
  deleted : out.deleted = acc.deleted ++
    (visited.filter (gone entries acc.group)).map fun id => .bulkString (some (asBytes id))

theorem Paged.nil (c : AutoclaimCall) (acc : Autoclaimed) : Paged now c entries [] [] acc acc :=
  ⟨⟨[], rfl, rfl⟩, rfl, by simp, by simp⟩

theorem Paged.cons {k : AutoclaimCall} {acc acc' out : Autoclaimed} (known : acc.group.Known k.consumer)
    (fresh : id ∉ ids) (paged : Paged now k entries ids v acc' out)
    (group : acc'.group = acc.group.visit now k.terms entries id) (cursor : acc'.cursor = acc.cursor)
    (claimed : acc'.claimed = acc.claimed ++
      if claims now k.terms entries acc.group id then claimReply k.justid entries id else [])
    (deleted : acc'.deleted = acc.deleted ++
      if gone entries acc.group id then [.bulkString (some (asBytes id))] else []) :
    Paged now k entries (id :: ids) (id :: v) acc out := by
  obtain ⟨rest, rfl, ends⟩ := paged.split
  have same {id' : String} (mem : id' ∈ v) : acc'.group.view id' = acc.group.view id' := by
    rw [group, view_visit known, if_neg]
    rintro rfl
    exact fresh (List.mem_append_left _ mem)
  refine ⟨⟨rest, rfl, cursor ▸ ends⟩, ?_, ?_, ?_⟩
  · rw [paged.group, group, List.foldl_cons]
  · rw [paged.claimed, claimed, List.filter_congr fun id' mem => claims_congr (same mem), List.filter_cons]
    split <;> simp
  · rw [paged.deleted, deleted, List.filter_congr fun id' mem => gone_congr (same mem), List.filter_cons]
    split <;> simp

/-- The loop visits the first of its ids, and one of them at least if it may claim one. -/
theorem autoclaim_paged (now : Nat) (k : AutoclaimCall) (entries : List StreamEntry) (nodup : ids.Nodup)
    {acc : Autoclaimed} (known : acc.group.Known k.consumer) :
    ∃ visited, Paged now k entries ids visited acc (autoclaim now k entries ids acc) ∧
      (acc.claimed.length < k.count → ids ≠ [] → visited ≠ []) := by
  induction ids generalizing acc with
  | nil => exact ⟨[], .nil k acc, fun _ some => absurd rfl some⟩
  | cons id ids ih =>
    obtain ⟨fresh, nodup⟩ := List.nodup_cons.1 nodup
    unfold autoclaim
    split
    · rename_i full
      exact ⟨[], ⟨⟨id :: ids, rfl, rfl⟩, rfl, by simp, by simp⟩, fun room => absurd full (Nat.not_le.2 room)⟩
    · have passed {acc' : Autoclaimed} (group : acc'.group = acc.group.visit now k.terms entries id)
          (cursor : acc'.cursor = acc.cursor)
          (claimed : acc'.claimed = acc.claimed ++
            if claims now k.terms entries acc.group id then claimReply k.justid entries id else [])
          (deleted : acc'.deleted = acc.deleted ++
            if gone entries acc.group id then [.bulkString (some (asBytes id))] else []) :
          ∃ visited, Paged now k entries (id :: ids) visited acc (autoclaim now k entries ids acc') ∧
            (acc.claimed.length < k.count → id :: ids ≠ [] → visited ≠ []) := by
        have known' : acc'.group.Known k.consumer := group ▸ known_visit known id
        obtain ⟨v, paged, -⟩ := ih nodup known'
        exact ⟨id :: v, paged.cons known fresh group cursor claimed deleted, fun _ _ => List.cons_ne_nil _ _⟩
      cases pending : acc.group.pendingFor id with
      | none => exact passed (by simp [visit, pending]) rfl (by simp [claims, pending]) (by simp [gone, pending])
      | some p =>
        dsimp only
        rw [show entries.any (·.id = id) = stored entries id from rfl]
        cases there : stored entries id with
        | false =>
          simp only [Bool.not_false, if_true]
          exact passed (by simp [visit, pending, there]) rfl (by simp [claims, pending, there])
            (by simp [gone, pending, there])
        | true =>
          by_cases early : now - p.deliveryTimeMs < k.minIdle
          · have notIdle : ¬k.minIdle ≤ now - p.deliveryTimeMs := Nat.not_le.2 early
            simp only [Bool.not_true, Bool.false_eq_true, if_false, early, if_true]
            exact passed (by simp [visit, pending, there, AutoclaimCall.terms, early]) rfl
              (by simp [claims, pending, AutoclaimCall.terms, notIdle]) (by simp [gone, there])
          · have idle : k.minIdle ≤ now - p.deliveryTimeMs := Nat.not_lt.1 early
            have reassigns : acc.group.visit now k.terms entries id = acc.group.reassign id (some p)
                ⟨k.consumer, now, if k.justid then p.deliveryCount else wrappingSucc p.deliveryCount⟩ := by
              rw [visit, pending]
              simp only [there, Bool.not_true, Bool.false_eq_true, if_false]
              exact if_neg early
            simp only [Bool.not_true, Bool.false_eq_true, if_false, early]
            exact passed reassigns.symm rfl (by simp [claims, pending, there, AutoclaimCall.terms, idle])
              (by simp [gone, there])

/-! ## The ids of a page -/

/-- An id as a number. -/
def number (id : String) : StreamId := (StreamId.parse id).getD .MIN

@[simp] theorem number_toWire (i : StreamId) : number i.toWire = i := by
  rw [number, StreamId.parse_toWire, Option.getD_some]

variable {start : StreamId}

theorem isSome_pendingFor : (g.pendingFor id).isSome ↔ id ∈ g.pending.map Prod.fst := by
  rw [List.mem_map]
  constructor
  · intro some
    obtain ⟨p, pending⟩ := Option.isSome_iff_exists.1 some
    exact ⟨(id, p), pendingFor_eq_some pending, rfl⟩
  · rintro ⟨p, mem, rfl⟩
    rw [← Option.not_isNone, Bool.not_eq_true', ← Bool.not_eq_true, Option.isNone_iff_eq_none, pendingFor,
      List.lookup_eq_none_iff]
    exact fun none => by simpa using none p mem

theorem Keyed.wireForm (keyed : g.Keyed) (pending : id ∈ g.pending.map Prod.fst) : (number id).toWire = id := by
  obtain ⟨p, mem, rfl⟩ := List.mem_map.1 pending
  obtain ⟨i, wire⟩ := keyed.wire p mem
  rw [wire, number_toWire]

theorem Keyed.mem_autoclaimIds (keyed : g.Keyed) :
    id ∈ g.autoclaimIds start ↔ (g.pendingFor id).isSome ∧ start ≤ number id := by
  rw [autoclaimIds, (List.mergeSort_perm _ _).mem_iff, List.mem_filter, isSome_pendingFor]
  refine and_congr_right fun pending => ?_
  rw [← keyed.wireForm pending, number_toWire, StreamId.parse_toWire]
  simp

theorem Keyed.increasing_autoclaimIds (keyed : g.Keyed) (start : StreamId) :
    (g.autoclaimIds start).Increasing number := by
  refine List.increasing_mergeSort (List.Nodup.map_on (f := number) (fun a inA b inB same => ?_) ?_)
  · rw [← keyed.wireForm (List.mem_of_mem_filter inA), ← keyed.wireForm (List.mem_of_mem_filter inB), same]
  · exact keyed.ordered.nodup_keys.filter _

theorem Keyed.nodup_autoclaimIds (keyed : g.Keyed) (start : StreamId) : (g.autoclaimIds start).Nodup :=
  (keyed.increasing_autoclaimIds start).nodup_keys.of_map number

theorem autoclaimIds_congr (same : g'.pending = g.pending) (start : StreamId) :
    g'.autoclaimIds start = g.autoclaimIds start := by
  rw [autoclaimIds, autoclaimIds, same]

/-- The ids from the cursor on are those that the page left. -/
theorem Keyed.autoclaimIds_rest (keyed : g.Keyed) (keyed' : g'.Keyed) {next : String}
    (split : g.autoclaimIds start = v ++ next :: rest) (same : ∀ id, id ∉ v → g'.view id = g.view id) :
    g'.autoclaimIds (number next) = next :: rest := by
  have increasing := keyed.increasing_autoclaimIds start
  have nodup := keyed.nodup_autoclaimIds start
  rw [split] at increasing nodup
  obtain ⟨-, behind, order⟩ := List.pairwise_append.1 increasing
  obtain ⟨-, distinct, apart⟩ := List.nodup_append.1 nodup
  have nextIn : next ∈ g.autoclaimIds start := split ▸ List.mem_append_right _ (.head _)
  refine (keyed'.increasing_autoclaimIds _).eq_of_perm behind
    ((List.perm_ext_iff_of_nodup (keyed'.nodup_autoclaimIds _) distinct).2 fun id => ?_)
  rw [keyed'.mem_autoclaimIds]
  constructor
  · rintro ⟨pending, le⟩
    have fresh : id ∉ v := fun mem => absurd (order id mem next (.head _)) (not_lt.2 le)
    have pending' : g'.pendingFor id = g.pendingFor id := congrArg Prod.fst (same id fresh)
    rw [pending'] at pending
    have mem : id ∈ g.autoclaimIds start :=
      keyed.mem_autoclaimIds.2 ⟨pending, (keyed.mem_autoclaimIds.1 nextIn).2.trans le⟩
    rw [split] at mem
    exact (List.mem_append.1 mem).resolve_left fresh
  · intro mem
    have fresh : id ∉ v := fun there => apart id there id mem rfl
    have pending' : g'.pendingFor id = g.pendingFor id := congrArg Prod.fst (same id fresh)
    have there : id ∈ g.autoclaimIds start := split ▸ List.mem_append_right _ mem
    refine ⟨pending' ▸ (keyed.mem_autoclaimIds.1 there).1, ?_⟩
    rcases List.mem_cons.1 mem with rfl | later
    · exact le_rfl
    · exact (List.rel_of_pairwise_cons behind later).le

/-! ## A page -/

/-- What a call answers and leaves behind. -/
def autoclaimPage (now : Nat) (c : AutoclaimCall) (entries : List StreamEntry) (g : ConsumerGroup) : Autoclaimed :=
  let g := g.ensureConsumer c.consumer
  autoclaim now c entries (g.autoclaimIds c.start) ⟨g, [], [], StreamId.MIN.toWire⟩

/-- **What one page does**: it looks at the ids in front of the cursor it answers, takes over those that may be
claimed, drops those whose entry is gone, and leaves all other ids. -/
structure PageOf (now : Nat) (c : AutoclaimCall) (entries : List StreamEntry) (g : ConsumerGroup)
    (visited rest : List String) (out : Autoclaimed) : Prop where
  split : g.autoclaimIds c.start = visited ++ rest
  moves : rest ≠ [] → visited ≠ []
  cursor : out.cursor = rest.head?.getD StreamId.MIN.toWire
  keyed : out.group.Keyed
  view : ∀ id, out.group.view id = if id ∈ visited then hit now c.terms (stored entries id) (g.view id) else g.view id
  claimed : out.claimed = (visited.filter (claims now c.terms entries g)).flatMap (claimReply c.justid entries)
  deleted : out.deleted = (visited.filter (gone entries g)).map fun id => .bulkString (some (asBytes id))

theorem Keyed.autoclaimPage (keyed : g.Keyed) (now : Nat) {k : AutoclaimCall} (one : 0 < k.count)
    (entries : List StreamEntry) :
    ∃ visited rest, PageOf now k entries g visited rest (g.autoclaimPage now k entries) := by
  have known := known_ensureConsumer g k.consumer
  have same := view_ensureConsumer g k.consumer
  have ids := autoclaimIds_congr (pending_ensureConsumer g k.consumer) k.start
  have nodup := keyed.nodup_autoclaimIds k.start
  have keyed' : (g.ensureConsumer k.consumer).Keyed := keyed.congr (pending_ensureConsumer _ _)
  unfold ConsumerGroup.autoclaimPage
  dsimp only
  rw [ids]
  let acc : Autoclaimed := ⟨g.ensureConsumer k.consumer, [], [], StreamId.MIN.toWire⟩
  have known' : acc.group.Known k.consumer := known
  obtain ⟨visited, paged, first⟩ := autoclaim_paged now k entries nodup known'
  obtain ⟨rest, split, cursor⟩ := paged.split
  rw [split] at nodup
  refine ⟨visited, rest, split, fun more => first one ?_, cursor, ?_, fun id => ?_, ?_, ?_⟩
  · rw [split]
    simp [more]
  · rw [paged.group]
    exact keyed'.visits visited
  · rw [paged.group, view_visits known (List.nodup_append.1 nodup).1, same]
  · rw [paged.claimed, List.nil_append, List.filter_congr fun id _ => claims_congr (same id)]
  · rw [paged.deleted, List.nil_append, List.filter_congr fun id _ => gone_congr (same id)]

/-- The cursor of a page with more behind it is no 0-0. -/
theorem PageOf.cursor_ne {k : AutoclaimCall} {out : Autoclaimed} {next : String} (keyed : g.Keyed)
    (page : PageOf now k entries g v (next :: rest) out) : out.cursor = next ∧ next ≠ StreamId.MIN.toWire := by
  refine ⟨page.cursor, fun least => ?_⟩
  have increasing := keyed.increasing_autoclaimIds k.start
  rw [page.split] at increasing
  obtain ⟨a, mem⟩ := List.exists_mem_of_ne_nil v (page.moves (List.cons_ne_nil _ _))
  have less := (List.pairwise_append.1 increasing).2.2 a mem next (.head _)
  rw [least, number_toWire] at less
  exact absurd less (StreamId.not_lt_min _)

end ConsumerGroup

/-! ## The calls of a walk -/

open ConsumerGroup

/-- The key has a stream of these entries, with this group. -/
def Holds (entries : List StreamEntry) (name : Bytes) (g : ConsumerGroup) (cell : Option DataType) : Prop :=
  ∃ s, cell = some (.stream s) ∧ s.entries = entries ∧ s.groups.lookup name = some g

def autoclaimReply (cursor : String) (claimed deleted : List Resp) : Resp :=
  .array (some [.bulkString (some (asBytes cursor)), .array (some claimed), .array (some deleted)])

/-- Calls of XAUTOCLAIM on one key, the first from 0-0 and each other from the cursor that the one before it answered.
What follows after 0-0 was answered is another walk. -/
structure AutoclaimWalk (toUppercase : String → String) (s : StreamData) (t : AutoclaimTerms) where
  now : Nat → Nat
  args : Nat → List Resp
  call : Nat → AutoclaimCall
  cells : Nat → Option DataType
  cursor : Nat → String
  claimed : Nat → List Resp
  deleted : Nat → List Resp
  parsed : ∀ i, parseXautoclaim toUppercase (args i) = .ok (call i)
  terms : ∀ i, (call i).terms = t
  count : ∀ i, 0 < (call i).count
  first : (call 0).start = .MIN
  next : ∀ i, StreamId.parse (cursor i) = some (call (i + 1)).start
  begins : cells 0 = some (.stream s)
  step : ∀ i, cmdXautoclaim toUppercase (now i) (args i) (cells i) =
    (cells (i + 1), .ok (autoclaimReply (cursor i) (claimed i) (deleted i)))

variable {toUppercase : String → String} {s : StreamData} {t : AutoclaimTerms} {g : ConsumerGroup}
  {entries : List StreamEntry} {now : Nat} {args : List Resp} {k : AutoclaimCall} {cell : Option DataType}

theorem Holds.xautoclaim (holds : Holds entries k.group g cell) (now : Nat)
    (parsed : parseXautoclaim toUppercase args = .ok k) :
    let out := g.autoclaimPage now k entries
    (cmdXautoclaim toUppercase now args cell).2 = .ok (autoclaimReply out.cursor out.claimed out.deleted) ∧
      Holds entries k.group out.group (cmdXautoclaim toUppercase now args cell).1 := by
  obtain ⟨s, rfl, rfl, found⟩ := holds
  unfold cmdXautoclaim onArgs withGroup
  rw [parsed]
  dsimp only
  rw [found]
  exact ⟨rfl, _, rfl, rfl, AList.lookup_insert _⟩

theorem autoclaimReply_inj {cursor cursor' : String} {claimed claimed' deleted deleted' : List Resp}
    (same : autoclaimReply cursor claimed deleted = autoclaimReply cursor' claimed' deleted') :
    cursor = cursor' ∧ claimed = claimed' ∧ deleted = deleted' := by
  simp only [autoclaimReply, Resp.array.injEq, Option.some.injEq, List.cons.injEq, Resp.bulkString.injEq,
    and_true] at same
  exact ⟨asBytes_injective same.1, same.2.1, same.2.2⟩

namespace AutoclaimWalk

variable (w : AutoclaimWalk toUppercase s t)

theorem page_spec {i : Nat} (holds : Holds entries t.group g (w.cells i)) (keyed : g.Keyed) :
    ∃ visited rest out, PageOf (w.now i) (w.call i) entries g visited rest out ∧
      Holds entries t.group out.group (w.cells (i + 1)) ∧ w.cursor i = out.cursor ∧ w.claimed i = out.claimed ∧
        w.deleted i = out.deleted := by
  have group : (w.call i).group = t.group := congrArg AutoclaimTerms.group (w.terms i)
  rw [← group] at holds ⊢
  obtain ⟨visited, rest, page⟩ := keyed.autoclaimPage (w.now i) (w.count i) entries
  obtain ⟨reply, after⟩ := holds.xautoclaim (w.now i) (w.parsed i)
  rw [w.step i] at reply after
  obtain ⟨cursor, claimed, deleted⟩ := autoclaimReply_inj (Except.ok.inj reply)
  exact ⟨visited, rest, _, page, after, cursor, claimed, deleted⟩

/-- What n + 1 pages from page i on come to, if these are the ids that they visit. -/
structure Covers (entries : List StreamEntry) (i : Nat) (g : ConsumerGroup) (ids : List String) (n : Nat)
    (visited : Nat → List String) (final : ConsumerGroup) : Prop where
  goes : ∀ j < n, w.cursor (i + j) ≠ StreamId.MIN.toWire
  ends : w.cursor (i + n) = StreamId.MIN.toWire
  all : (List.range (n + 1)).flatMap visited = ids
  claimed : ∀ j ≤ n, w.claimed (i + j) =
    ((visited j).filter (claims (w.now (i + j)) t entries g)).flatMap (claimReply t.justid entries)
  deleted : ∀ j ≤ n, w.deleted (i + j) =
    ((visited j).filter (gone entries g)).map fun id => .bulkString (some (asBytes id))
  holds : Holds entries t.group final (w.cells (i + n + 1))
  hit : ∀ j ≤ n, ∀ id ∈ visited j, final.view id = hit (w.now (i + j)) t (stored entries id) (g.view id)
  others : ∀ id, id ∉ ids → final.view id = g.view id

/-- The ids of the pages from here on. -/
def pagesFrom (v : List String) (visited : Nat → List String) : Nat → List String
  | 0 => v
  | j + 1 => visited j

theorem flatMap_pagesFrom (v : List String) (visited : Nat → List String) (n : Nat) :
    (List.range (n + 1)).flatMap (pagesFrom v visited) = v ++ (List.range n).flatMap visited := by
  rw [List.range_succ_eq_map, List.flatMap_cons, List.flatMap_map]
  rfl

variable {w} {i n : Nat} {v rest : List String} {visited : Nat → List String} {final g' : ConsumerGroup}

theorem Covers.cons {out : Autoclaimed} (page : PageOf (w.now i) (w.call i) entries g v rest out)
    (nodup : (v ++ rest).Nodup) (cursor : w.cursor i ≠ StreamId.MIN.toWire) (claimed : w.claimed i = out.claimed)
    (deleted : w.deleted i = out.deleted) (covers : w.Covers entries (i + 1) out.group rest n visited final) :
    w.Covers entries i g (v ++ rest) (n + 1) (pagesFrom v visited) final := by
  have justid : (w.call i).justid = t.justid := congrArg AutoclaimTerms.justid (w.terms i)
  have shift (j : Nat) : i + (j + 1) = i + 1 + j := by omega
  have apart := (List.nodup_append.1 nodup).2.2
  have fresh {id : String} (mem : id ∈ rest) : id ∉ v := fun there => apart id there id mem rfl
  have later {j : Nat} (le : j ≤ n) {id : String} (mem : id ∈ visited j) : id ∈ rest := by
    rw [← covers.all]
    exact List.mem_flatMap.2 ⟨j, List.mem_range.2 (by omega), mem⟩
  have same {id : String} (mem : id ∈ rest) : out.group.view id = g.view id := by
    rw [page.view, if_neg (fresh mem)]
  constructor
  · intro j less
    cases j with
    | zero => exact cursor
    | succ j =>
      rw [shift]
      exact covers.goes j (by omega)
  · rw [shift]
    exact covers.ends
  · rw [flatMap_pagesFrom, covers.all]
  · intro j le
    cases j with
    | zero => rw [Nat.add_zero, claimed, page.claimed, w.terms, justid, pagesFrom]
    | succ j =>
      rw [shift, covers.claimed j (by omega), pagesFrom,
        List.filter_congr fun id mem => claims_congr (same (later (by omega) mem))]
  · intro j le
    cases j with
    | zero => rw [Nat.add_zero, deleted, page.deleted, pagesFrom]
    | succ j =>
      rw [shift, covers.deleted j (by omega), pagesFrom,
        List.filter_congr fun id mem => gone_congr (same (later (by omega) mem))]
  · rw [shift]
    exact covers.holds
  · intro j le id mem
    cases j with
    | zero =>
      have mem : id ∈ v := mem
      have once : id ∉ rest := fun there => apart id mem id there rfl
      rw [covers.others id once, page.view, if_pos mem, w.terms, Nat.add_zero]
    | succ j => rw [shift, covers.hit j (by omega) id mem, same (later (by omega) mem)]
  · intro id out
    rw [List.mem_append, not_or] at out
    rw [covers.others id out.2, page.view, if_neg out.1]

/-- **From every page on the walk visits the ids that are left, each once, and ends.** -/
theorem covers_from (ids : List String) {i : Nat} {g : ConsumerGroup} (holds : Holds entries t.group g (w.cells i))
    (keyed : g.Keyed) (left : g.autoclaimIds (w.call i).start = ids) :
    ∃ n visited final, w.Covers entries i g ids n visited final := by
  induction size : ids.length using Nat.strong_induction_on generalizing ids i g with
  | _ size ih =>
    subst size
    obtain ⟨v, rest, out, page, after, cursor, claimed, deleted⟩ := w.page_spec holds keyed
    have justid : (w.call i).justid = t.justid := congrArg AutoclaimTerms.justid (w.terms i)
    obtain rfl : v ++ rest = ids := page.split.symm.trans left
    cases rest with
    | nil =>
      refine ⟨0, fun _ => v, out.group, nofun, cursor.trans page.cursor, by simp, ?_, ?_, after, ?_, ?_⟩
      · rintro j le
        obtain rfl := Nat.le_zero.1 le
        rw [Nat.add_zero, claimed, page.claimed, w.terms, justid]
      · rintro j le
        obtain rfl := Nat.le_zero.1 le
        rw [Nat.add_zero, deleted, page.deleted]
      · rintro j le id mem
        obtain rfl := Nat.le_zero.1 le
        rw [page.view, if_pos mem, w.terms, Nat.add_zero]
      · intro id out
        rw [page.view, if_neg fun mem => out (List.mem_append_left _ mem)]
    | cons next rest =>
      obtain ⟨isNext, more⟩ := page.cursor_ne keyed
      have pending : (g.pendingFor next).isSome :=
        (keyed.mem_autoclaimIds.1 (page.split ▸ List.mem_append_right _ (.head _))).1
      have wire := keyed.wireForm (isSome_pendingFor.1 pending)
      have start : (w.call (i + 1)).start = number next := by
        have read := w.next i
        rw [cursor, isNext, ← wire, StreamId.parse_toWire] at read
        exact (Option.some.inj read).symm
      have left' : out.group.autoclaimIds (w.call (i + 1)).start = next :: rest := by
        rw [start]
        refine keyed.autoclaimIds_rest page.keyed page.split fun id fresh => ?_
        rw [page.view, if_neg fresh]
      have nonempty := List.length_pos_iff.2 (page.moves (List.cons_ne_nil _ _))
      have shorter : (next :: rest).length < (v ++ next :: rest).length := by
        rw [List.length_append]
        omega
      obtain ⟨n, visited, final, covers⟩ := ih _ shorter (next :: rest) after page.keyed left' rfl
      refine ⟨n + 1, _, final, covers.cons page ?_ ?_ claimed deleted⟩
      · rw [← page.split]
        exact keyed.nodup_autoclaimIds _
      · rw [cursor, isNext]
        exact more

/-! ## What a walk is meant to do -/

/-- The walk has n + 1 pages that visit each pending id once. It claims the ids that are idle for long enough, for the
consumer and nobody else, reports and removes those whose entries are gone, and leaves the others as they are. -/
structure Visits (w : AutoclaimWalk toUppercase s t) (g : ConsumerGroup) (n : Nat) (visited : Nat → List String)
    (final : ConsumerGroup) : Prop where
  goes : ∀ i < n, w.cursor i ≠ StreamId.MIN.toWire
  ends : w.cursor n = StreamId.MIN.toWire
  once : ((List.range (n + 1)).flatMap visited).Perm (g.pending.map Prod.fst)
  claimed : ∀ i ≤ n, w.claimed i =
    ((visited i).filter (claims (w.now i) t s.entries g)).flatMap (claimReply t.justid s.entries)
  deleted : ∀ i ≤ n, w.deleted i =
    ((visited i).filter (gone s.entries g)).map fun id => .bulkString (some (asBytes id))
  holds : Holds s.entries t.group final (w.cells (n + 1))
  taken : ∀ i ≤ n, ∀ id ∈ visited i, ∀ p, g.pendingFor id = some p → stored s.entries id = true →
    t.minIdle ≤ w.now i - p.deliveryTimeMs →
      final.view id =
        (some ⟨t.consumer, w.now i, if t.justid then p.deliveryCount else p.deliveryCount + 1⟩, {t.consumer})
  passed : ∀ i ≤ n, ∀ id ∈ visited i, ∀ p, g.pendingFor id = some p → stored s.entries id = true →
    w.now i - p.deliveryTimeMs < t.minIdle → final.view id = g.view id
  removed : ∀ id, stored s.entries id = false → final.pendingFor id = none
  others : ∀ id, g.pendingFor id = none → final.view id = g.view id

def Complete (w : AutoclaimWalk toUppercase s t) (g : ConsumerGroup) : Prop :=
  ∃ n visited final, w.Visits g n visited final

theorem Covers.unique {ids : List String} {m : Nat} (covers : w.Covers entries 0 g ids n visited final)
    (goes : ∀ i < m, w.cursor i ≠ StreamId.MIN.toWire) (ends : w.cursor m = StreamId.MIN.toWire) : m = n := by
  have goes' : ∀ i < n, w.cursor i ≠ StreamId.MIN.toWire := fun i less => by
    have more := covers.goes i less
    rwa [Nat.zero_add] at more
  have ends' : w.cursor n = StreamId.MIN.toWire := by
    have last := covers.ends
    rwa [Nat.zero_add] at last
  rcases Nat.lt_trichotomy m n with less | same | less
  · exact absurd ends (goes' m less)
  · exact same
  · exact absurd ends' (goes n less)

theorem covers_all (w : AutoclaimWalk toUppercase s t) (found : s.groups.lookup t.group = some g) (keyed : g.Keyed) :
    ∃ n visited final, w.Covers s.entries 0 g (g.autoclaimIds .MIN) n visited final :=
  w.covers_from _ ⟨s, w.begins, rfl, found⟩ keyed (by rw [w.first])

end AutoclaimWalk

theorem ConsumerGroup.Keyed.autoclaimIds_perm (keyed : g.Keyed) :
    (g.autoclaimIds .MIN).Perm (g.pending.map Prod.fst) := by
  refine (List.perm_ext_iff_of_nodup (keyed.nodup_autoclaimIds _) keyed.ordered.nodup_keys).2 fun id => ?_
  rw [keyed.mem_autoclaimIds, isSome_pendingFor]
  exact and_iff_left (not_lt.1 (StreamId.not_lt_min _))

/-- No pending entry that is still stored is on the list of another consumer than its own, and none was delivered as
often as can be counted. -/
def ConsumerGroup.Clean (g : ConsumerGroup) (entries : List StreamEntry) : Prop :=
  ∀ id p, g.pendingFor id = some p → stored entries id = true →
    p.deliveryCount + 1 < 2 ^ 64 ∧ ∀ c, id ∈ g.idsOf c → c = p.consumer

theorem wrappingSucc_eq_iff {n : Nat} : wrappingSucc n = n + 1 ↔ n + 1 < 2 ^ 64 := by
  unfold wrappingSucc
  omega

namespace AutoclaimWalk

theorem complete_of_clean (w : AutoclaimWalk toUppercase s t) (found : s.groups.lookup t.group = some g)
    (keyed : g.Keyed) (clean : g.Clean s.entries) : w.Complete g := by
  obtain ⟨n, visited, final, covers⟩ := w.covers_all found keyed
  have visits {id : String} {p : PendingEntry} (pending : g.pendingFor id = some p) :
      ∃ i ≤ n, id ∈ visited i := by
    have mem : id ∈ g.autoclaimIds .MIN := keyed.autoclaimIds_perm.mem_iff.2 (isSome_pendingFor.1 (by simp [pending]))
    rw [← covers.all, List.mem_flatMap] at mem
    obtain ⟨i, inside, there⟩ := mem
    exact ⟨i, Nat.lt_succ_iff.1 (List.mem_range.1 inside), there⟩
  have hits {i : Nat} (le : i ≤ n) {id : String} (mem : id ∈ visited i) :
      final.view id = ConsumerGroup.hit (w.now i) t (stored s.entries id) (g.view id) := by
    have hit := covers.hit i le id mem
    rwa [Nat.zero_add] at hit
  have absent {id : String} (none : g.pendingFor id = none) : final.view id = g.view id := by
    refine covers.others id fun mem => ?_
    have some := (keyed.mem_autoclaimIds.1 mem).1
    rw [none] at some
    cases some
  refine ⟨n, visited, final, ?_, ?_, ?_, ?_, ?_, ?_, ?_, ?_, ?_, fun id => absent⟩
  · simpa using covers.goes
  · simpa using covers.ends
  · rw [covers.all]
    exact keyed.autoclaimIds_perm
  · simpa using covers.claimed
  · simpa using covers.deleted
  · simpa using covers.holds
  · intro i le id mem p pending there idle
    obtain ⟨counts, mine⟩ := clean id p pending there
    rw [hits le mem, hit_some (p := p) pending, there, if_neg (by simp), if_neg (Nat.not_lt.2 idle),
      wrappingSucc_eq_iff.2 counts]
    have alone : (g.view id).2 \ {p.consumer} = ∅ := by
      ext c
      simpa [view] using mine c
    rw [alone, insert_empty_eq]
  · intro i le id mem p pending there early
    rw [hits le mem, hit_some (p := p) pending, there, if_neg (by simp), if_pos early]
  · intro id missing
    cases pending : g.pendingFor id with
    | none => exact (congrArg Prod.fst (absent pending)).trans pending
    | some p =>
      obtain ⟨i, le, mem⟩ := visits pending
      have fst := congrArg Prod.fst (hits le mem)
      rw [hit_some (p := p) pending, missing] at fst
      exact fst

/-- A walk that claims everything shows what else the lists hold. -/
theorem clean_of_complete {p : PendingEntry} {id : String} (found : s.groups.lookup t.group = some g) (keyed : g.Keyed)
    (w : AutoclaimWalk toUppercase s ⟨t.group, p.consumer, 0, false⟩) (complete : w.Complete g)
    (pending : g.pendingFor id = some p) (there : stored s.entries id = true) :
    p.deliveryCount + 1 < 2 ^ 64 ∧ ∀ c, id ∈ g.idsOf c → c = p.consumer := by
  obtain ⟨n, visited, final, covers⟩ := w.covers_all found keyed
  obtain ⟨m, visited', final', visits⟩ := complete
  obtain rfl := covers.unique visits.goes visits.ends
  obtain rfl : final' = final := by
    obtain ⟨s₁, cell₁, -, group₁⟩ := visits.holds
    obtain ⟨s₂, cell₂, -, group₂⟩ := covers.holds
    rw [Nat.zero_add, cell₁] at cell₂
    cases cell₂
    exact Option.some.inj (group₁.symm.trans group₂)
  have key : id ∈ g.pending.map Prod.fst := isSome_pendingFor.1 (by simp [pending])
  obtain ⟨i, inI, mem⟩ := List.mem_flatMap.1 (visits.once.mem_iff.2 key)
  have taken := visits.taken i (Nat.lt_succ_iff.1 (List.mem_range.1 inI)) id mem p pending there (Nat.zero_le _)
  have left : id ∈ g.autoclaimIds .MIN := keyed.autoclaimIds_perm.mem_iff.2 key
  rw [← covers.all, List.mem_flatMap] at left
  obtain ⟨j, inJ, mem'⟩ := left
  have hit := covers.hit j (Nat.lt_succ_iff.1 (List.mem_range.1 inJ)) id mem'
  rw [taken, hit_some (p := p) pending, there, if_neg (by simp), if_neg (by simp)] at hit
  obtain ⟨entry, lists⟩ := Prod.mk.inj hit
  refine ⟨?_, fun c onList => ?_⟩
  · have count := congrArg PendingEntry.deliveryCount (Option.some.inj entry)
    exact wrappingSucc_eq_iff.1 count.symm
  · by_contra other
    have mem : c ∈ insert p.consumer ((g.view id).2 \ {p.consumer}) := Or.inr ⟨onList, other⟩
    rw [← lists] at mem
    exact other mem

/-! ## There are walks -/

section

variable (toUppercase) (s) (g) (name consumer : Bytes) (options : List Resp) (count : Nat)

/-- A call with these options. -/
def callArgs (start : StreamId) : List Resp :=
  [.null, .bulkString (some []), .bulkString (some name), .bulkString (some consumer), .bulkString (some (asBytes "0")),
    .bulkString (some (asBytes start.toWire))] ++ options

/-- The same call, when the options ask for pages of this size. -/
def callFrom (start : StreamId) : AutoclaimCall := ⟨[], name, consumer, 0, start, count, false⟩

/-- The options ask for pages of this size, which is not zero. -/
structure Asks : Prop where
  positive : 0 < count
  read : ∀ start, autoclaimOptions toUppercase (callFrom name consumer 100 start) options =
    .ok (callFrom name consumer count start)

variable {toUppercase name consumer options count} in
theorem parse_callArgs (asks : Asks toUppercase name consumer options count) (start : StreamId) :
    parseXautoclaim toUppercase (callArgs name consumer options start) = .ok (callFrom name consumer count start) := by
  have long : ¬(callArgs name consumer options start).length < 6 := by
    rw [callArgs, List.length_append]
    exact Nat.not_lt.2 (Nat.le_add_right 6 _)
  have minIdle : u64OfMax "xautoclaim" (callArgs name consumer options start)[4]? = .ok 0 := by
    have text : strArg "xautoclaim" (callArgs name consumer options start)[4]? = .ok "0" :=
      strArg_eq_ok_iff.2 (fromUtf8_asBytes "0")
    rw [u64OfMax, i64Arg, text]
    rfl
  have text : strArg "xautoclaim" (callArgs name consumer options start)[5]? = .ok start.toWire :=
    strArg_eq_ok_iff.2 (fromUtf8_asBytes start.toWire)
  have dash : '-' ∈ start.toWire.toList := by simp [StreamId.toWire]
  have notZero : start.toWire ≠ "0" := by
    intro same
    rw [same] at dash
    revert dash
    decide
  have notDash : start.toWire ≠ "-" := by
    intro same
    have read := congrArg StreamId.parse same
    have none : StreamId.parse "-" = none := by decide +kernel
    rw [StreamId.parse_toWire, none] at read
    cases read
  unfold parseXautoclaim
  rw [if_neg long, minIdle, text]
  simp only [bind, Except.bind, notZero, notDash, or_self, if_false, idOfStr, StreamId.parse_toWire]
  exact asks.read start

/-- The group in front of each page, and the id that the page starts from. -/
def pageState (entries : List StreamEntry) : Nat → ConsumerGroup × StreamId
  | 0 => (g, .MIN)
  | i + 1 =>
    let (g, start) := pageState entries i
    let out := g.autoclaimPage 0 (callFrom name consumer count start) entries
    (out.group, number out.cursor)

/-- The key in front of each page. -/
def pageCells : Nat → Option DataType
  | 0 => some (.stream s)
  | i + 1 =>
    (cmdXautoclaim toUppercase 0 (callArgs name consumer options (pageState g name consumer count s.entries i).2)
      (pageCells i)).1

variable {g}

/-- Every page leaves the ids of the group as they are written. -/
theorem pageState_keyed (keyed : g.Keyed) (positive : 0 < count) (entries : List StreamEntry) (i : Nat) :
    (pageState g name consumer count entries i).1.Keyed := by
  induction i with
  | zero => exact keyed
  | succ i ih =>
    obtain ⟨visited, rest, page⟩ :=
      ih.autoclaimPage 0 (k := callFrom name consumer count (pageState g name consumer count entries i).2) positive entries
    exact page.keyed

variable {name consumer options count}

theorem holds_pageCells (found : s.groups.lookup name = some g) (asks : Asks toUppercase name consumer options count)
    (i : Nat) : Holds s.entries name (pageState g name consumer count s.entries i).1
      (pageCells toUppercase s g name consumer options count i) := by
  induction i with
  | zero => exact ⟨s, rfl, rfl, found⟩
  | succ i ih =>
    have holds : Holds s.entries (callFrom name consumer count (pageState g name consumer count s.entries i).2).group
        (pageState g name consumer count s.entries i).1 (pageCells toUppercase s g name consumer options count i) := ih
    exact (holds.xautoclaim 0 (parse_callArgs asks _)).2

/-- Every group is walked, in pages of any size. -/
def walkOf (found : s.groups.lookup name = some g) (keyed : g.Keyed)
    (asks : Asks toUppercase name consumer options count) : AutoclaimWalk toUppercase s ⟨name, consumer, 0, false⟩ :=
  let state := pageState g name consumer count s.entries
  let page (i : Nat) := (state i).1.autoclaimPage 0 (callFrom name consumer count (state i).2) s.entries
  { now := fun _ => 0
    args := fun i => callArgs name consumer options (state i).2
    call := fun i => callFrom name consumer count (state i).2
    cells := pageCells toUppercase s g name consumer options count
    cursor := fun i => (page i).cursor
    claimed := fun i => (page i).claimed
    deleted := fun i => (page i).deleted
    parsed := fun i => parse_callArgs asks (state i).2
    terms := fun _ => rfl
    count := fun _ => asks.positive
    first := rfl
    next := by
      intro i
      have keyed' := pageState_keyed name consumer count keyed asks.positive s.entries i
      obtain ⟨visited, rest, page⟩ :=
        keyed'.autoclaimPage 0 (k := callFrom name consumer count (state i).2) asks.positive s.entries
      show StreamId.parse _ = some (number _)
      rw [page.cursor]
      cases rest with
      | nil => rw [List.head?_nil, Option.getD_none, number_toWire, StreamId.parse_toWire]
      | cons next rest =>
        have pending := (keyed'.mem_autoclaimIds.1 (page.split ▸ List.mem_append_right _ (.head _))).1
        rw [List.head?_cons, Option.getD_some, ← keyed'.wireForm (isSome_pendingFor.1 pending), number_toWire,
          StreamId.parse_toWire]
    begins := rfl
    step := by
      intro i
      have holds := holds_pageCells toUppercase s found asks i
      obtain ⟨reply, -⟩ := holds.xautoclaim 0 (parse_callArgs asks (state i).2)
      exact Prod.ext rfl reply }

/-- Without options a page has a hundred entries. -/
theorem asks_nothing (toUppercase : String → String) (name consumer : Bytes) :
    Asks toUppercase name consumer [] 100 where
  positive := Nat.succ_pos 99
  read _ := rfl

end

end AutoclaimWalk

/-- **Every walk of XAUTOCLAIM over a group visits each pending id once and does what it is meant to do, if and only if
the pending entries that are stored are on the lists of their owners only, and their delivery counts can be raised.** -/
theorem xautoclaim_walk_iff (toUppercase : String → String) {s : StreamData} {name : Bytes} {g : ConsumerGroup}
    (found : s.groups.lookup name = some g) (keyed : g.Keyed) :
    (∀ t : AutoclaimTerms, t.group = name → ∀ w : AutoclaimWalk toUppercase s t, w.Complete g) ↔ g.Clean s.entries := by
  constructor
  · intro complete id p pending there
    have w := AutoclaimWalk.walkOf toUppercase s found keyed (AutoclaimWalk.asks_nothing toUppercase name p.consumer)
    have whole : w.Complete g := complete _ rfl w
    exact AutoclaimWalk.clean_of_complete (t := ⟨name, p.consumer, 0, false⟩) found keyed w whole pending there
  · rintro clean t rfl w
    exact w.complete_of_clean found keyed clean

/-- Three ids are pending, the first and the last for `a`, the other for `b`. -/
def deliveredGroup : ConsumerGroup :=
  ⟨[103], "3-0", [("1-0", ⟨[97], 5, 1⟩), ("2-0", ⟨[98], 5, 2⟩), ("3-0", ⟨[97], 5, 1⟩)],
    AList.insert [98] ⟨[98], ["2-0"]⟩ (AList.insert [97] ⟨[97], ["1-0", "3-0"]⟩ ∅)⟩

/-- The entry of the last one is gone. -/
def deliveredStream : StreamData :=
  ⟨[⟨"1-0", [([102], [118])]⟩, ⟨"2-0", [([102], [119])]⟩], AList.insert [103] deliveredGroup ∅, "3-0", 3⟩

theorem keyed_deliveredGroup : deliveredGroup.Keyed where
  ordered := by
    show List.Pairwise (fun a b => a.1 < b.1) deliveredGroup.pending
    decide +kernel
  wire p mem := by
    rcases List.mem_cons.1 mem with rfl | mem
    · exact ⟨⟨1, 0⟩, by decide +kernel⟩
    · rcases List.mem_cons.1 mem with rfl | mem
      · exact ⟨⟨2, 0⟩, by decide +kernel⟩
      · rw [List.mem_singleton.1 mem]
        exact ⟨⟨3, 0⟩, by decide +kernel⟩

theorem idsOf_deliveredGroup (c : Bytes) :
    deliveredGroup.idsOf c = if c = [98] then ["2-0"] else if c = [97] then ["1-0", "3-0"] else [] := by
  unfold idsOf deliveredGroup
  by_cases b : c = [98]
  · subst b
    rfl
  · by_cases a : c = [97]
    · subst a
      rfl
    · rw [AList.lookup_insert_ne b, AList.lookup_insert_ne a, if_neg b, if_neg a]
      rfl

theorem clean_deliveredGroup : deliveredGroup.Clean deliveredStream.entries := by
  intro id p pending there
  have mem := pendingFor_eq_some pending
  rcases List.mem_cons.1 mem with first | mem
  · obtain ⟨rfl, rfl⟩ := Prod.mk.inj first
    refine ⟨by decide, fun c mem => ?_⟩
    rw [idsOf_deliveredGroup] at mem
    split at mem
    · simp at mem
    · split at mem
      · assumption
      · cases mem
  · rcases List.mem_cons.1 mem with second | mem
    · obtain ⟨rfl, rfl⟩ := Prod.mk.inj second
      refine ⟨by decide, fun c mem => ?_⟩
      rw [idsOf_deliveredGroup] at mem
      split at mem
      · assumption
      · split at mem
        · simp at mem
        · cases mem
    · cases List.mem_singleton.1 mem
      exact absurd there (by decide)

theorem asks_one : AutoclaimWalk.Asks upperAscii [103] [98]
    [.bulkString (some (asBytes "COUNT")), .bulkString (some (asBytes "1"))] 1 where
  positive := Nat.one_pos
  read start := by
    have word : strArg "xautoclaim" (some (.bulkString (some (asBytes "COUNT")))) = .ok "COUNT" := by rfl
    have capitals : upperAscii "COUNT" = "COUNT" := by decide +kernel
    have number : i64Arg "xautoclaim" (some (.bulkString (some (asBytes "1")))) = .ok 1 := by decide +kernel
    -- There is no equation for the match on a text and the arguments behind it.
    delta autoclaimOptions autoclaimOptions._f
    simp only [word, bind, Except.bind, capitals, number]
    rfl

/-- The walk of `b` in pages of one entry: it takes the first id over, keeps the second and removes the last. -/
theorem xautoclaim_walk_delivered :
    ∃ w : AutoclaimWalk upperAscii deliveredStream ⟨[103], [98], 0, false⟩,
      (∀ i, (w.call i).count = 1) ∧ w.Complete deliveredGroup :=
  ⟨AutoclaimWalk.walkOf upperAscii deliveredStream (AList.lookup_insert _) keyed_deliveredGroup asks_one, fun _ => rfl,
    (xautoclaim_walk_iff upperAscii (AList.lookup_insert _) keyed_deliveredGroup).2 clean_deliveredGroup _ rfl _⟩

theorem wired_oneEntry (key : Bytes) : WiredCell (oneEntry key) := by
  have nothing : WiredCell none := nofun
  refine wired_update (fun _ => nothing) ?_ key
  refine Wired.inCell ⟨fun e mem => ?_, fun name g found => ?_⟩
  · rw [List.mem_singleton.1 mem]
    exact ⟨⟨1, 0⟩, by decide +kernel⟩
  · by_cases same : name = [103]
    · subst same
      rw [AList.lookup_insert] at found
      cases found
      exact keyed_new _ _
    · rw [AList.lookup_insert_ne same] at found
      cases found

/-- The stream of a key. -/
def streamAt (cells : Cells) (key : Bytes) : Option StreamData :=
  match cells key with
  | some (.stream s) => some s
  | _ => none

theorem streamAt_eq_some {cells : Cells} {key : Bytes} {s : StreamData} (found : streamAt cells key = some s) :
    cells key = some (.stream s) := by
  unfold streamAt at found
  split at found
  · cases found
    assumption
  · cases found

/-- **A delivery again to another consumer**: the entry is on the lists of `a` and `b`, and a walk takes it from the
list of its owner only. -/
theorem xautoclaim_walk_twice :
    let again := [readBy "a", .xgroup (groupWords ["XGROUP", "SETID", "s", "g", "0"]), readBy "b"]
    ∃ s g, Trace.run (GroupEvent.step upperAscii) again oneEntry [115] = some (.stream s) ∧
      s.groups.lookup [103] = some g ∧ g.owner "1-0" = some [98] ∧ g.idsOf [97] = ["1-0"] ∧
        ∃ w : AutoclaimWalk upperAscii s ⟨[103], [98], 0, false⟩, ¬w.Complete g := by
  intro again
  have views : (streamAt (Trace.run (GroupEvent.step upperAscii) again oneEntry) [115]).map (fun s =>
      (stored s.entries "1-0", (s.groups.lookup [103]).map fun g => (g.owner "1-0", g.idsOf [97]))) =
        some (true, some (some [98], ["1-0"])) := by decide +kernel
  obtain ⟨s, run, both⟩ := Option.map_eq_some_iff.1 views
  have reached := streamAt_eq_some run
  obtain ⟨there, group⟩ := Prod.mk.inj both
  obtain ⟨g, found, both⟩ := Option.map_eq_some_iff.1 group
  obtain ⟨owner, list⟩ := Prod.mk.inj both
  obtain ⟨p, pending, mine⟩ := Option.map_eq_some_iff.1 owner
  have keyed := keyed_run upperAscii again wired_oneEntry reached found
  let w := AutoclaimWalk.walkOf upperAscii s found keyed (AutoclaimWalk.asks_nothing upperAscii [103] p.consumer)
  rw [← mine] at owner ⊢
  refine ⟨s, g, reached, found, owner, list, w, fun complete => ?_⟩
  obtain ⟨-, alone⟩ :=
    AutoclaimWalk.clean_of_complete (t := ⟨[103], p.consumer, 0, false⟩) found keyed w complete pending there
  have same := alone [97] (list ▸ .head _)
  rw [mine] at same
  revert same
  decide

end NexradeCache
