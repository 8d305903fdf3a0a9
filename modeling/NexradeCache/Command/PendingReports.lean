import NexradeCache.Command.StreamReads
import NexradeCache.Lib.Paging

/-!
# XPENDING (`nexrade-core/src/command/stream.rs`)

The pending entries of a group are kept by the text of their ids, and XPENDING reports them as they are
kept. Ids compare as numbers: `10-0` comes before `9-0` as a text and after it as an id. The reports are
in id order exactly if the two orders agree on the pending ids (`xpending_in_order`); XAUTOCLAIM, which
walks the same entries, sorts them first.
-/

namespace NexradeCache

open Utf8 Decimal

abbrev PendingItem := String × PendingEntry

namespace ConsumerGroup

/-- The reply for an id, null for the empty text of a group without pending entries. -/
def idReply (id : String) : Resp := if id = "" then .bulkString none else .bulkString (some (asBytes id))

/-- How many entries are pending for each consumer. -/
def consumerCounts (g : ConsumerGroup) : AList fun _ : Bytes => Nat :=
  g.pending.foldl (fun counts p => counts.insert p.2.consumer ((counts.lookup p.2.consumer).getD 0 + 1)) ∅

def consumerReply (c : Bytes × Nat) : Resp :=
  .array (some [.bulkString (some c.1), .bulkString (some (numeral c.2))])

/-- The summary: count, least id, greatest id, consumer counts. -/
def summaryReply (count : Nat) (minId maxId : String) (counts : List (Bytes × Nat)) : Resp :=
  .array (some [.integer (.ofNat count), idReply minId, idReply maxId, .array (some (counts.map consumerReply))])

def summary (order : IterOrder (Bytes × Nat)) (g : ConsumerGroup) : Resp :=
  summaryReply g.pending.length ((g.pending.head?.map Prod.fst).getD "") ((g.pending.getLast?.map Prod.fst).getD "")
    (order.order g.consumerCounts.pairs)

def inRange (lo hi : StreamId) (p : PendingItem) : Bool :=
  match StreamId.parse p.1 with
  | some id => lo ≤ id && id ≤ hi
  | none => false

/-- The consumer of a call, if it names one. -/
def ofConsumer (consumer : Option Bytes) (p : PendingItem) : Bool :=
  match consumer with
  | some c => p.2.consumer = c
  | none => true

/-- What a call with a range asks for, of entries in some order. -/
def slice (lo hi : StreamId) (consumer : Option Bytes) (count : Nat) (items : List PendingItem) : List PendingItem :=
  ((items.filter (inRange lo hi)).filter (ofConsumer consumer)).take count

def pendingReply (p : PendingItem) : Resp :=
  .array (some [.bulkString (some (asBytes p.1)), .bulkString (some p.2.consumer),
    .integer (.ofNat p.2.deliveryTimeMs), .integer (.ofNat p.2.deliveryCount)])

def rangeReply (items : List PendingItem) : Resp := .array (some (items.map pendingReply))

end ConsumerGroup

namespace StreamReads

open ConsumerGroup

/-- Start, end, count and consumer. A bound that is no id is the smallest or the largest; the count is taken as
a `usize`. -/
def parsePendingRange (args : List Resp) : Result (StreamId × StreamId × Option Bytes × Nat) := do
  let start ← strArg "xpending" args[3]?
  let stop ← strArg "xpending" args[4]?
  let count ← i64Arg "xpending" args[5]?
  let consumer ← if args.length < 7 then .ok none else (bytesArg "xpending" args[6]?).map some
  let lo := if start = "-" then .MIN else (StreamId.parse start).getD .MIN
  let hi := if stop = "+" then .MAX else (StreamId.parse stop).getD .MAX
  return (lo, hi, consumer, count.toUInt64.toNat)

def cmdXpending (order : IterOrder (Bytes × Nat)) (args : List Resp) (cell : Option DataType) : Result Resp := do
  if args.length < 3 then throw (.wrongArity "xpending")
  let _key ← bytesArg "xpending" args[1]?
  let group ← bytesArg "xpending" args[2]?
  match cell with
  | none => return .array (some [])
  | some (.stream s) => match s.groups.lookup group with
    | none => throw noGroup
    | some g =>
      if args.length = 3 then return g.summary order
      else
        let (lo, hi, consumer, count) ← parsePendingRange args
        return rangeReply (slice lo hi consumer count g.pending)
  | some _ => throw .wrongType

end StreamReads

/-! ## The order of the ids -/

namespace ConsumerGroup

/-- The id of a pending entry as a number. -/
def idOf (p : PendingItem) : StreamId := (StreamId.parse p.1).getD .MIN

/-- The pending entries are kept by the text of their ids, and these are ids as XADD writes them. -/
structure Keyed (g : ConsumerGroup) : Prop where
  ordered : g.pending.Increasing Prod.fst
  wire : ∀ p ∈ g.pending, ∃ id : StreamId, p.1 = id.toWire

/-- In id order. -/
def byId (g : ConsumerGroup) : List PendingItem := g.pending.mergeSort fun a b => idOf a ≤ idOf b

/-- One pending id is in front of another as a text only where it is smaller as a number. -/
def Agrees (g : ConsumerGroup) : Prop := ∀ a ∈ g.pending, ∀ b ∈ g.pending, a.1 < b.1 → idOf a < idOf b

variable {g : ConsumerGroup} {lo hi : StreamId} {p q : PendingItem}

theorem Keyed.parse (keyed : g.Keyed) (mem : p ∈ g.pending) : StreamId.parse p.1 = some (idOf p) := by
  obtain ⟨id, wire⟩ := keyed.wire p mem
  rw [idOf, wire, StreamId.parse_toWire, Option.getD_some]

theorem Keyed.inRange_iff (keyed : g.Keyed) (mem : p ∈ g.pending) : inRange lo hi p = true ↔ lo ≤ idOf p ∧ idOf p ≤ hi := by
  simp [inRange, keyed.parse mem]

theorem Keyed.text_eq (keyed : g.Keyed) (inP : p ∈ g.pending) (inQ : q ∈ g.pending) (same : idOf p = idOf q) : p.1 = q.1 := by
  obtain ⟨i, isP⟩ := keyed.wire p inP
  obtain ⟨j, isQ⟩ := keyed.wire q inQ
  have number := keyed.parse inP
  rw [same, ← keyed.parse inQ, isP, isQ, StreamId.parse_toWire, StreamId.parse_toWire] at number
  rw [isP, isQ, Option.some.inj number]

theorem Keyed.increasing (keyed : g.Keyed) (agrees : g.Agrees) : g.pending.Increasing idOf :=
  keyed.ordered.imp_of_mem fun inA inB less => agrees _ inA _ inB less

theorem Keyed.byId_eq (keyed : g.Keyed) (agrees : g.Agrees) : g.byId = g.pending := by
  refine List.mergeSort_of_pairwise ((keyed.increasing agrees).imp fun less => ?_)
  simpa using less.le

theorem perm_byId (g : ConsumerGroup) : g.byId.Perm g.pending := List.mergeSort_perm _ _

theorem pairwise_byId (g : ConsumerGroup) : g.byId.Pairwise fun a b => idOf a ≤ idOf b := by
  have sorted : g.byId.Pairwise fun a b => decide (idOf a ≤ idOf b) = true :=
    List.pairwise_mergeSort
      (fun a b c ab bc => by
        rw [decide_eq_true_eq] at ab bc ⊢
        exact ab.trans bc)
      (fun a b => by simpa using le_total (idOf a) (idOf b)) g.pending
  exact sorted.imp fun le => by simpa using le

/-! ## The counts -/

theorem lookup_consumerCounts (g : ConsumerGroup) (c : Bytes) :
    g.consumerCounts.lookup c =
      if g.pending.countP (·.2.consumer = c) = 0 then none else some (g.pending.countP (·.2.consumer = c)) := by
  have fold (items : List PendingItem) (counts : AList fun _ : Bytes => Nat) :
      (items.foldl (fun counts p => counts.insert p.2.consumer ((counts.lookup p.2.consumer).getD 0 + 1)) counts).lookup c =
        if items.countP (·.2.consumer = c) = 0 then counts.lookup c
        else some ((counts.lookup c).getD 0 + items.countP (·.2.consumer = c)) := by
    induction items generalizing counts with
    | nil => simp
    | cons p items ih =>
      rw [List.foldl_cons, ih]
      by_cases same : p.2.consumer = c
      · rw [List.countP_cons_of_pos (by simpa using same)]
        subst same
        by_cases later : items.countP (·.2.consumer = p.2.consumer) = 0
        · simp [later]
        · simp [later]
          omega
      · rw [List.countP_cons_of_neg (by simpa using same), AList.lookup_insert_ne (Ne.symm same)]
  have whole := fold g.pending ∅
  rw [AList.lookup_empty, Option.getD_none, Nat.zero_add] at whole
  exact whole

/-- The counts of a summary list each consumer with pending entries once, with how many they are. -/
theorem lists_consumerCounts (g : ConsumerGroup) (order : IterOrder (Bytes × Nat)) :
    ListsMap (order.order g.consumerCounts.pairs) fun c =>
      if g.pending.countP (·.2.consumer = c) = 0 then none else some (g.pending.countP (·.2.consumer = c)) := by
  have listed := g.consumerCounts.lists_pairs
  rw [funext g.lookup_consumerCounts] at listed
  exact listed.perm (order.perm _)

/-! ## Pages -/

/-- The entries of a range. -/
def matching (g : ConsumerGroup) (lo hi : StreamId) (consumer : Option Bytes) : List PendingItem :=
  (g.pending.filter (inRange lo hi)).filter (ofConsumer consumer)

/-- Page after page, each from where the last id of the one before leads to; a short page is the last. -/
def walk (g : ConsumerGroup) (next : StreamId → StreamId) (hi : StreamId) (consumer : Option Bytes) (count : Nat) :
    (pages : Nat) → (lo : StreamId) → List PendingItem
  | 0, _ => []
  | pages + 1, lo =>
    let page := slice lo hi consumer count g.pending
    match page.getLast? with
    | some last => page ++ if page.length < count then [] else g.walk next hi consumer count pages (next (idOf last))
    | none => []

/-- The next page begins at the last id, or right behind it; with one entry a page it must be behind. -/
structure Forward (count : Nat) (next : StreamId → StreamId) : Prop where
  notBefore : ∀ i, i ≤ next i
  skipsNone : ∀ i j, i < j → next i ≤ j
  moves : 2 ≤ count ∨ 0 < count ∧ ∀ i j : StreamId, i < j → i < next i

/-- The id right behind. -/
def after (i : StreamId) : StreamId :=
  if i.seq.toNat + 1 < 2 ^ 64 then ⟨i.ms, i.seq + 1⟩
  else if i.ms.toNat + 1 < 2 ^ 64 then ⟨i.ms + 1, 0⟩
  else i

theorem lt_iff_toNat {i j : StreamId} :
    i < j ↔ i.ms.toNat < j.ms.toNat ∨ i.ms.toNat = j.ms.toNat ∧ i.seq.toNat < j.seq.toNat := by
  rw [StreamId.lt_iff, UInt64.lt_iff_toNat_lt, UInt64.lt_iff_toNat_lt, UInt64.toNat_inj]

theorem toNat_succ {n : UInt64} (small : n.toNat + 1 < 2 ^ 64) : (n + 1).toNat = n.toNat + 1 := by
  rw [UInt64.toNat_add, UInt64.toNat_one]
  exact Nat.mod_eq_of_lt small

theorem forward_after {count : Nat} (one : 0 < count) : Forward count after where
  notBefore i := by
    rw [← not_lt, lt_iff_toNat]
    unfold after
    split
    · rename_i small
      simp only [toNat_succ small]
      omega
    · split
      · rename_i small
        simp only [toNat_succ small]
        omega
      · omega
  skipsNone i j less := by
    rw [lt_iff_toNat] at less
    rw [← not_lt, lt_iff_toNat]
    have small := j.seq.toNat_lt
    unfold after
    split
    · rename_i room
      simp only [toNat_succ room]
      omega
    · split
      · rename_i room
        simp only [toNat_succ room, UInt64.toNat_zero]
        omega
      · have bound := j.ms.toNat_lt
        omega
  moves := by
    refine .inr ⟨one, fun i j less => ?_⟩
    rw [lt_iff_toNat] at less ⊢
    have small := j.seq.toNat_lt
    have bound := j.ms.toNat_lt
    unfold after
    split
    · rename_i room
      refine .inr ⟨rfl, ?_⟩
      rw [toNat_succ room]
      omega
    · split
      · rename_i room
        simp only [toNat_succ room]
        omega
      · omega

theorem forward_id {count : Nat} (two : 2 ≤ count) : Forward count id := ⟨fun _ => le_rfl, fun _ _ less => less.le, .inl two⟩

variable {consumer : Option Bytes} {count : Nat} {next : StreamId → StreamId}

theorem mem_matching : p ∈ g.matching lo hi consumer ↔ p ∈ g.pending ∧ inRange lo hi p = true ∧ ofConsumer consumer p = true := by
  rw [matching, List.mem_filter, List.mem_filter, and_assoc]

theorem Keyed.increasing_matching (keyed : g.Keyed) (agrees : g.Agrees) :
    (g.matching lo hi consumer).Increasing idOf :=
  (keyed.increasing agrees).sublist (List.filter_sublist.trans List.filter_sublist)

/-- What is left when a page of a longer range is done is shorter. -/
theorem Keyed.shorter (keyed : g.Keyed) (agrees : g.Agrees) (forward : Forward count next) {last : PendingItem}
    (isLast : ((g.matching lo hi consumer).take count).getLast? = some last)
    (more : ∃ q ∈ g.matching lo hi consumer, idOf last < idOf q) :
    (g.matching (next (idOf last)) hi consumer).length < (g.matching lo hi consumer).length := by
  have sorted : (g.matching lo hi consumer).Increasing idOf := keyed.increasing_matching agrees
  have inside : last ∈ g.matching lo hi consumer := List.mem_of_mem_take (List.mem_of_getLast? isLast)
  have lowest : ∃ h ∈ g.matching lo hi consumer, idOf h < next (idOf last) := by
    rcases forward.moves with two | ⟨-, moves⟩
    · -- the page has a first entry in front of its last
      obtain ⟨q, mem, behind⟩ := more
      generalize g.matching lo hi consumer = items at sorted inside isLast mem
      match items, sorted with
      | [h], _ =>
        rw [List.mem_singleton.1 mem, List.mem_singleton.1 inside] at behind
        exact absurd behind (lt_irrefl _)
      | h :: b :: rest, sorted =>
        obtain ⟨n, rfl⟩ := Nat.exists_eq_add_of_le' two
        rw [List.take_succ_cons, List.take_succ_cons, List.getLast?_cons_cons] at isLast
        rw [← List.take_succ_cons] at isLast
        have later : last ∈ b :: rest := List.mem_of_mem_take (List.mem_of_getLast? isLast)
        exact ⟨h, .head _, ((List.pairwise_cons.1 sorted).1 last later).trans_le (forward.notBefore _)⟩
    · obtain ⟨q, -, behind⟩ := more
      exact ⟨last, inside, moves _ _ behind⟩
  obtain ⟨h, mem, less⟩ := lowest
  have notThere : h ∉ g.matching (next (idOf last)) hi consumer := fun there => by
    obtain ⟨stored, within, -⟩ := mem_matching.1 there
    exact absurd ((keyed.inRange_iff stored).1 within).1 (not_le.2 less)
  have fewer : h :: g.matching (next (idOf last)) hi consumer ⊆ g.matching lo hi consumer := by
    intro p hp
    rcases List.mem_cons.1 hp with rfl | there
    · exact mem
    · obtain ⟨stored, within, mine⟩ := mem_matching.1 there
      obtain ⟨storedLast, withinLast, -⟩ := mem_matching.1 inside
      have from' := ((keyed.inRange_iff storedLast).1 withinLast).1
      have bounds := (keyed.inRange_iff stored).1 within
      exact mem_matching.2 ⟨stored, (keyed.inRange_iff stored).2
        ⟨(from'.trans (forward.notBefore _)).trans bounds.1, bounds.2⟩, mine⟩
  have nodup : (h :: g.matching (next (idOf last)) hi consumer).Nodup :=
    List.nodup_cons.2 ⟨notThere, (keyed.increasing_matching agrees).nodup_keys.of_map⟩
  exact Nat.lt_of_succ_le (List.subperm_of_subset nodup fewer).length_le

/-- **Paging visits every entry** of the range. -/
theorem Keyed.mem_walk (keyed : g.Keyed) (agrees : g.Agrees) (forward : Forward count next) (pages : Nat)
    (enough : (g.matching lo hi consumer).length ≤ pages) (mem : p ∈ g.matching lo hi consumer) :
    p ∈ g.walk next hi consumer count pages lo := by
  induction pages generalizing lo with
  | zero =>
    rw [List.length_eq_zero_iff.1 (Nat.le_zero.1 enough)] at mem
    cases mem
  | succ pages ih =>
    have sorted : (g.matching lo hi consumer).Increasing idOf := keyed.increasing_matching agrees
    have positive : 0 < count := by
      rcases forward.moves with two | ⟨one, -⟩
      · omega
      · exact one
    unfold walk
    dsimp only
    rw [show slice lo hi consumer count g.pending = (g.matching lo hi consumer).take count from rfl]
    cases isLast : ((g.matching lo hi consumer).take count).getLast? with
    | none =>
      have length := congrArg List.length (List.getLast?_eq_none_iff.1 isLast)
      have some' := List.length_pos_of_mem mem
      rw [List.length_take, List.length_nil] at length
      omega
    | some last =>
      dsimp only
      by_cases here : p ∈ (g.matching lo hi consumer).take count
      · exact List.mem_append_left _ here
      · refine List.mem_append_right _ ?_
        have behind : idOf last < idOf p := not_le.1 fun le => here (Paging.mem_take_of_le sorted mem isLast le)
        have long : ¬((g.matching lo hi consumer).take count).length < count := by
          intro short
          rw [List.length_take] at short
          rw [List.take_of_length_le (by omega)] at here
          exact here mem
        rw [if_neg long]
        have less := keyed.shorter agrees forward isLast ⟨p, mem, behind⟩
        obtain ⟨stored, within, mine⟩ := mem_matching.1 mem
        have bounds := (keyed.inRange_iff stored).1 within
        refine ih (by omega) (mem_matching.2 ⟨stored, (keyed.inRange_iff stored).2 ⟨?_, bounds.2⟩, mine⟩)
        exact forward.skipsNone _ _ behind

end ConsumerGroup

/-! ## The command -/

namespace StreamReads

open ConsumerGroup

/-- The call is on this group. -/
def Names (name : Bytes) (args : List Resp) : Prop :=
  3 ≤ args.length ∧ (∃ key, bytesArg "xpending" args[1]? = .ok key) ∧ bytesArg "xpending" args[2]? = .ok name

/-- XPENDING on a group reports in id order: the summary has the smallest and the largest id and the sizes, and a
range is cut out of the entries in id order. -/
structure InOrder (s : StreamData) (name : Bytes) (g : ConsumerGroup) : Prop where
  summary : ∀ order args, Names name args → args.length = 3 → ∃ counts,
    cmdXpending order args (some (.stream s)) = .ok (summaryReply g.pending.length
      ((g.byId.head?.map Prod.fst).getD "") ((g.byId.getLast?.map Prod.fst).getD "") counts) ∧
    ListsMap counts fun c =>
      if g.pending.countP (·.2.consumer = c) = 0 then none else some (g.pending.countP (·.2.consumer = c))
  range : ∀ order args lo hi consumer count, Names name args → args.length ≠ 3 →
    parsePendingRange args = .ok (lo, hi, consumer, count) →
    cmdXpending order args (some (.stream s)) = .ok (rangeReply (slice lo hi consumer count g.byId))

variable {s : StreamData} {name : Bytes} {g : ConsumerGroup} {args : List Resp} (order : IterOrder (Bytes × Nat))

theorem cmdXpending_eq (found : s.groups.lookup name = some g) (names : Names name args) :
    cmdXpending order args (some (.stream s)) =
      if args.length = 3 then .ok (g.summary order)
      else do
        let (lo, hi, consumer, count) ← parsePendingRange args
        return rangeReply (slice lo hi consumer count g.pending) := by
  obtain ⟨enough, ⟨key, isKey⟩, isGroup⟩ := names
  unfold cmdXpending
  rw [if_neg (by omega), isKey, isGroup]
  simp only [bind, Except.bind, found]
  rfl

theorem cmdXpending_range (found : s.groups.lookup name = some g) (names : Names name args) (long : args.length ≠ 3)
    {lo hi : StreamId} {consumer : Option Bytes} {count : Nat}
    (parsed : parsePendingRange args = .ok (lo, hi, consumer, count)) :
    cmdXpending order args (some (.stream s)) = .ok (rangeReply (slice lo hi consumer count g.pending)) := by
  rw [cmdXpending_eq order found names, if_neg long, parsed]
  rfl

theorem inOrder_of_agrees (found : s.groups.lookup name = some g) (keyed : g.Keyed) (agrees : g.Agrees) :
    InOrder s name g := by
  constructor
  · intro order args names three
    refine ⟨order.order g.consumerCounts.pairs, ?_, g.lists_consumerCounts order⟩
    rw [cmdXpending_eq order found names, if_pos three, keyed.byId_eq agrees]
    rfl
  · intro order args lo hi consumer count names long parsed
    rw [cmdXpending_range order found names long parsed, keyed.byId_eq agrees]

/-- One entry from an id on. -/
def firstFrom (name : Bytes) (lo : StreamId) : List Resp :=
  [.null, .bulkString (some []), .bulkString (some name), .bulkString (some (asBytes lo.toWire)),
    .bulkString (some (asBytes "+")), .bulkString (some (asBytes "1"))]

theorem names_firstFrom (name : Bytes) (lo : StreamId) : Names name (firstFrom name lo) :=
  ⟨by simp [firstFrom], ⟨[], rfl⟩, rfl⟩

theorem parse_firstFrom (name : Bytes) (lo : StreamId) :
    parsePendingRange (firstFrom name lo) = .ok (lo, .MAX, none, 1) := by
  have start : strArg "xpending" (firstFrom name lo)[3]? = .ok lo.toWire := by
    refine strArg_eq_ok_iff.2 ?_
    exact fromUtf8_asBytes lo.toWire
  have stop : strArg "xpending" (firstFrom name lo)[4]? = .ok "+" := strArg_eq_ok_iff.2 (fromUtf8_asBytes "+")
  have count : i64Arg "xpending" (firstFrom name lo)[5]? = .ok 1 := by
    have text : strArg "xpending" (firstFrom name lo)[5]? = .ok "1" := strArg_eq_ok_iff.2 (fromUtf8_asBytes "1")
    rw [i64Arg, text]
    rfl
  have notDash : lo.toWire ≠ "-" := fun same => by
    have read := congrArg StreamId.parse same
    have dash : StreamId.parse "-" = none := by decide +kernel
    rw [StreamId.parse_toWire, dash] at read
    cases read
  unfold parsePendingRange
  rw [start, stop, count]
  simp only [bind, Except.bind, notDash, if_false, StreamId.parse_toWire, Option.getD_some, if_true]
  rfl

theorem ids_of_reply {items items' : List PendingItem} (same : rangeReply items = rangeReply items') :
    items.map Prod.fst = items'.map Prod.fst := by
  simp only [rangeReply, Resp.array.injEq, Option.some.injEq] at same
  induction items generalizing items' with
  | nil => rw [List.map_eq_nil_iff.1 same.symm]
  | cons p items ih =>
    cases items' with
    | nil => cases same
    | cons p' items' =>
      rw [List.map_cons, List.map_cons, List.cons.injEq] at same
      have bytes : asBytes p.1 = asBytes p'.1 := by
        simp only [pendingReply, Resp.array.injEq, Option.some.injEq, List.cons.injEq, Resp.bulkString.injEq] at same
        exact same.1.1
      rw [List.map_cons, List.map_cons, asBytes_injective bytes, ih same.2]

theorem agrees_of_inOrder (found : s.groups.lookup name = some g) (keyed : g.Keyed) (inOrder : InOrder s name g) :
    g.Agrees := by
  intro a inA b inB less
  by_contra notLess
  have ne : idOf b ≠ idOf a := fun same => less.ne (keyed.text_eq inA inB same.symm)
  have below : idOf b < idOf a := lt_of_le_of_ne (not_lt.1 notLess) ne
  -- the first entry from `b` on, as it is kept and in id order
  have parsed := parse_firstFrom name (idOf b)
  have long : (firstFrom name (idOf b)).length ≠ 3 := by simp [firstFrom]
  have same := inOrder.range .asStored _ _ _ _ _ (names_firstFrom name (idOf b)) long parsed
  rw [cmdXpending_range .asStored found (names_firstFrom name (idOf b)) long parsed] at same
  have ids := ids_of_reply (Except.ok.inj same)
  have everyone (items : List PendingItem) : slice (idOf b) .MAX none 1 items = (items.filter (inRange (idOf b) .MAX)).take 1 := by
    simp [slice, ofConsumer]
  rw [everyone, everyone] at ids
  have keptA : a ∈ g.pending.filter (inRange (idOf b) .MAX) :=
    List.mem_filter.2 ⟨inA, (keyed.inRange_iff inA).2 ⟨below.le, StreamId.le_MAX _⟩⟩
  have sortedB : b ∈ g.byId.filter (inRange (idOf b) .MAX) :=
    List.mem_filter.2 ⟨g.perm_byId.mem_iff.2 inB, (keyed.inRange_iff inB).2 ⟨le_rfl, StreamId.le_MAX _⟩⟩
  have kept : (g.pending.filter (inRange (idOf b) .MAX)).Increasing Prod.fst := keyed.ordered.sublist List.filter_sublist
  have sorted := g.pairwise_byId.sublist (List.filter_sublist (p := inRange (idOf b) .MAX))
  cases first : g.pending.filter (inRange (idOf b) .MAX) with
  | nil => rw [first] at keptA; cases keptA
  | cons x rest =>
    cases least : g.byId.filter (inRange (idOf b) .MAX) with
    | nil => rw [least] at sortedB; cases sortedB
    | cons y rest' =>
      rw [first] at keptA kept ids
      rw [least] at sortedB sorted ids
      have sameText : x.1 = y.1 := by simpa using ids
      have x_le : x.1 ≤ a.1 := by
        rcases List.mem_cons.1 keptA with rfl | later
        · exact le_rfl
        · exact ((List.pairwise_cons.1 kept).1 a later).le
      have y_le : idOf y ≤ idOf b := by
        rcases List.mem_cons.1 sortedB with rfl | later
        · exact le_rfl
        · exact (List.pairwise_cons.1 sorted).1 b later
      obtain ⟨stored, within⟩ := List.mem_filter.1 (least ▸ List.mem_cons_self : y ∈ g.byId.filter _)
      have storedY := g.perm_byId.mem_iff.1 stored
      have isB := keyed.text_eq storedY inB (le_antisymm y_le ((keyed.inRange_iff storedY).1 within).1)
      rw [sameText, isB] at x_le
      exact absurd x_le (not_le.2 less)

end StreamReads

open ConsumerGroup StreamReads in
/-- **XPENDING reports in id order exactly if text order and id order agree** on the pending ids; then paging from
each last id to the next visits every pending entry of a range. The pending entries are kept in a map by the text of
their ids, in which `10-0` stands before `9-0`. -/
theorem xpending_in_order (s : StreamData) (name : Bytes) (g : ConsumerGroup) (found : s.groups.lookup name = some g)
    (keyed : g.Keyed) :
    (InOrder s name g ↔ g.Agrees) ∧
      (g.Agrees → ∀ (next : StreamId → StreamId) (lo hi : StreamId) (consumer : Option Bytes) (count : Nat),
        Forward count next → ∀ p ∈ g.matching lo hi consumer,
          p ∈ g.walk next hi consumer count g.pending.length lo) := by
  refine ⟨⟨agrees_of_inOrder found keyed, inOrder_of_agrees found keyed⟩, ?_⟩
  intro agrees next lo hi consumer count forward p mem
  refine keyed.mem_walk agrees forward _ ?_ mem
  exact (List.filter_sublist.trans List.filter_sublist).length_le

namespace StreamReads

open ConsumerGroup

/-- Two entries are pending, of ids with a different number of digits. -/
def digits : ConsumerGroup :=
  { ConsumerGroup.new [103] "10-0" with pending := [("10-0", ⟨[97], 1, 1⟩), ("9-0", ⟨[97], 1, 1⟩)] }

def digitsStream : StreamData := { StreamData.new with groups := AList.insert [103] digits ∅ }

theorem keyed_digits : digits.Keyed where
  ordered := List.pairwise_pair.2 (by decide +kernel)
  wire p mem := by
    rcases List.mem_cons.1 mem with rfl | mem
    · exact ⟨⟨10, 0⟩, by decide +kernel⟩
    · rw [List.mem_singleton.1 mem]
      exact ⟨⟨9, 0⟩, by decide +kernel⟩

/-- With `10-0` and `9-0` pending the reports are not in id order. -/
theorem xpending_in_order_digits : ¬InOrder digitsStream [103] digits := by
  intro inOrder
  have agrees := (xpending_in_order digitsStream [103] digits rfl keyed_digits).1.1 inOrder
  exact absurd (agrees _ (.head _) _ (.tail _ (.head _)) (by decide +kernel)) (by decide +kernel)

/-- The summary has the larger id as the least and the smaller as the greatest. -/
theorem xpending_by_text :
    cmdXpending .asStored (words ["XPENDING", "s", "g"]) (some (.stream digitsStream)) =
        .ok (summaryReply 2 "10-0" "9-0" [([97], 2)]) ∧
      cmdXpending .asStored (words ["XPENDING", "s", "g", "-", "+", "1"]) (some (.stream digitsStream)) =
        .ok (rangeReply [("10-0", ⟨[97], 1, 1⟩)]) ∧
      (⟨9, 0⟩ : StreamId) < ⟨10, 0⟩ ∧ StreamId.parse "9-0" = some ⟨9, 0⟩ ∧ StreamId.parse "10-0" = some ⟨10, 0⟩ :=
  ⟨rfl, rfl, by decide, by decide +kernel, by decide +kernel⟩

end StreamReads

end NexradeCache
