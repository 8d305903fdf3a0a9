import NexradeCache.Command.SetAlgebra
import NexradeCache.Lib.Comparisons
import NexradeCache.Server.Transaction

/-!
# SORT (`nexrade-core/src/command/generic.rs`)

SORT compares elements by their weights: as numbers where both are, else a number comes first, and two that are none
compare as texts. Numbers that cannot be compared count as equal. `sort_iff` says when that is an order on the
elements, and the rows with it a part of the sorted list.

The parser of floats, `to_uppercase` and the sort by comparison are parameters.
-/

namespace NexradeCache.Sort

open Bytes
open SetAlgebra (Run)
open Utf8

/-! ## The code -/

/-- The options of SORT with their defaults. -/
structure SortOptions where
  alpha : Bool := false
  desc : Bool := false
  limitOffset : Nat := 0
  limitCount : Option Nat := none
  byPattern : Option Bytes := none
  getPatterns : List Bytes := []
  storeDst : Option Bytes := none
deriving DecidableEq

def syntaxError : NexradeError := .generic "syntax error"

def noStore : NexradeError := .generic "SORT_RO does not support STORE"

section

variable (parseF64 : String → Option F64) (toUppercase : String → String) (sorter : Sorter Bytes)
  (thr : ListThresholds)

def sortOptions (takeWriteLock : Bool) : (rest : List Resp) → SortOptions → Result SortOptions
  | [], o => .ok o
  | a :: rest, o =>
    match (a.asStr.map toUppercase).getD "", rest with
    | "ASC", rest => sortOptions takeWriteLock rest { o with desc := false }
    | "DESC", rest => sortOptions takeWriteLock rest { o with desc := true }
    | "ALPHA", rest => sortOptions takeWriteLock rest { o with alpha := true }
    | "LIMIT", off :: cnt :: rest => do
      let off ← i64Arg "sort" (some off)
      let cnt ← i64Arg "sort" (some cnt)
      if off < 0 || cnt < 0 then throw syntaxError
      sortOptions takeWriteLock rest { o with limitOffset := off.toInt.toNat, limitCount := some cnt.toInt.toNat }
    | "BY", pat :: rest => do
      let pat ← bytesArg "sort" (some pat)
      sortOptions takeWriteLock rest { o with byPattern := some pat }
    | "GET", pat :: rest => do
      let pat ← bytesArg "sort" (some pat)
      sortOptions takeWriteLock rest { o with getPatterns := o.getPatterns ++ [pat] }
    | "STORE", [] => throw (if takeWriteLock then syntaxError else noStore)
    | "STORE", dst :: rest => do
      if !takeWriteLock then throw noStore
      let dst ← bytesArg "sort" (some dst)
      sortOptions takeWriteLock rest { o with storeDst := some dst }
    | _, _ => throw syntaxError

/-- The elements of a list or set; the walk of an encoding may panic. -/
def itemsOf : DataType → Result (Option (List Bytes))
  | .list l => .ok l.toVecBytes
  | .set s => .ok s.toVec
  | _ => .error .wrongType

def lookupString (now : Nat) (db : ShardedDatabase) (k : Bytes) : Option Bytes :=
  (db.getRo now k).bind fun e => e.value.asStringBytes

/-- The first `*` of a pattern is replaced by the element. -/
def expandPattern (pat elem : Bytes) : Bytes :=
  match pat.findIdx? (· = 42) with
  | some pos => pat.take pos ++ elem ++ pat.drop (pos + 1)
  | none => pat

/-- `eq_ignore_ascii_case(b"nosort")`. -/
def isNosort (pat : Bytes) : Bool :=
  pat.map (fun b => if 65 ≤ b ∧ b ≤ 90 then b + 32 else b) = [110, 111, 115, 111, 114, 116]

/-- The number of a weight, if it is one, and its text. -/
abbrev Weight := Option F64 × Bytes

def weight (now : Nat) (db : ShardedDatabase) (o : SortOptions) (elem : Bytes) : Weight :=
  let raw := match o.byPattern with
    | some pat => (lookupString now db (expandPattern pat elem)).getD []
    | none => elem
  (if o.alpha then none else (fromUtf8 raw).bind parseF64, raw)

/-- `partial_cmp`. -/
def partialCmp (x y : F64) : Option Ordering := if x.isNaN || y.isNaN then none else some (cmp x.key y.key)

def compareWeights (alpha : Bool) (a b : Weight) : Ordering :=
  if alpha then cmp a.2 b.2
  else match a.1, b.1 with
    | some x, some y => (partialCmp x y).getD .eq
    | some _, none => .lt
    | none, some _ => .gt
    | none, none => cmp a.2 b.2

/-- The closure that `sort_by` is given. -/
def comparator (now : Nat) (db : ShardedDatabase) (o : SortOptions) (a b : Bytes) : Ordering :=
  let ord := compareWeights o.alpha (weight parseF64 now db o a) (weight parseF64 now db o b)
  if o.desc then ord.swap else ord

def orderItems (now : Nat) (db : ShardedDatabase) (o : SortOptions) (items : List Bytes) : Option (List Bytes) :=
  if o.byPattern.any isNosort then some (if o.desc then items.reverse else items)
  else sorter.sort (comparator parseF64 now db o) items

/-- LIMIT. -/
def pageOf (o : SortOptions) (items : List Bytes) : List Bytes :=
  let stop := match o.limitCount with
    | some c => min (o.limitOffset + c) items.length
    | none => items.length
  let start := min o.limitOffset items.length
  if stop ≤ start then [] else (items.take stop).drop start

def rowsOf (now : Nat) (db : ShardedDatabase) (o : SortOptions) (page : List Bytes) : List Resp :=
  if o.getPatterns.isEmpty then page.map fun elem => .bulkString (some elem)
  else page.flatMap fun elem => o.getPatterns.map fun pat =>
    if pat = [35] then .bulkString (some elem)
    else match lookupString now db (expandPattern pat elem) with
      | some v => .bulkString (some v)
      | none => .bulkString none

/-- A row as STORE keeps it. -/
def storedRow : Resp → Bytes
  | .bulkString (some b) => b
  | _ => []

/-- STORE: the rows, as a list under another key. -/
def storeRows (dst : Bytes) (rows : List Resp) (db : ShardedDatabase) : Run Resp :=
  match (rows.map storedRow).foldlM (fun (l : ListData) b => l.pushBack thr b) ListData.new with
  | none => (db, none)
  | some list => db.writeFor dst fun s =>
    if list.len = 0 then ((s.remove dst).1, some (.ok (.integer 0)))
    else (s.insert dst (.new (.list list)), some (.ok (.integer (.ofNat list.len))))

/-- What SORT makes of the elements. -/
def sortItems (now : Nat) (o : SortOptions) (items : List Bytes) (db : ShardedDatabase) : Run Resp :=
  match orderItems parseF64 sorter now db o items with
  | none => (db, none)
  | some items =>
    let rows := rowsOf now db o (pageOf o items)
    match o.storeDst with
    | some dst => storeRows thr dst rows db
    | none => (db, some (.ok (.array (some rows))))

def sortInner (now : Nat) (takeWriteLock : Bool) (args : List Resp) (db : ShardedDatabase) : Run Resp :=
  if args.length < 2 then (db, some (.error (.wrongArity "sort")))
  else match bytesArg "sort" args[1]? with
    | .error e => (db, some (.error e))
    | .ok key => match if takeWriteLock then db.readKey now key else (db, db.getRo now key) with
      | (db, none) => (db, some (.ok (.array (some []))))
      | (db, some e) => match itemsOf e.value with
        | .error e => (db, some (.error e))
        | .ok none => (db, none)
        | .ok (some items) => match sortOptions toUppercase takeWriteLock (args.drop 2) {} with
          | .error e => (db, some (.error e))
          | .ok o => sortItems parseF64 sorter thr now o items db

def cmdSort (now : Nat) : (args : List Resp) → ShardedDatabase → Run Resp :=
  sortInner parseF64 toUppercase sorter thr now true

def cmdSortRo (now : Nat) (args : List Resp) (db : ShardedDatabase) : Run Resp :=
  if args.any fun a => (a.asStr.map (eqIgnoreAsciiCase · "STORE")).getD false then (db, some (.error noStore))
  else sortInner parseF64 toUppercase sorter thr now false args db

end

/-! ## Weights -/

/-- Either no number is NaN, or all others are equal. -/
def Comparable (ns : List F64) : Prop :=
  (∀ x ∈ ns, x.isNaN = false) ∨ ∀ x ∈ ns, ∀ y ∈ ns, x.isNaN = false → y.isNaN = false → x.key = y.key

def numbersOf (ws : List Weight) : List F64 := ws.filterMap Prod.fst

variable {ws : List Weight} {x y : F64}

theorem partialCmp_swap (x y : F64) : (partialCmp y x).getD .eq = ((partialCmp x y).getD .eq).swap := by
  unfold partialCmp
  rw [Bool.or_comm]
  split
  · rfl
  · exact (cmp_swap x.key y.key).symm

theorem partialCmp_isLE : ((partialCmp x y).getD .eq).isLE ↔ x.isNaN = true ∨ y.isNaN = true ∨ x.key ≤ y.key := by
  unfold partialCmp
  split
  · rename_i nan
    rw [Bool.or_eq_true] at nan
    simp only [Option.getD_none, Ordering.isLE_eq, true_iff]
    tauto
  · rename_i numbers
    rw [Bool.or_eq_true, not_or] at numbers
    rw [Option.getD_some, cmp_isLE]
    tauto

theorem compareWeights_swap (alpha : Bool) (a b : Weight) :
    compareWeights alpha b a = (compareWeights alpha a b).swap := by
  obtain ⟨an, ar⟩ := a
  obtain ⟨bn, br⟩ := b
  have texts : cmp br ar = (cmp ar br).swap := (cmp_swap ar br).symm
  cases alpha with
  | true => exact texts
  | false =>
    cases an with
    | none =>
      cases bn with
      | none => exact texts
      | some y => rfl
    | some x =>
      cases bn with
      | none => rfl
      | some y => exact partialCmp_swap x y

theorem cmp_trans {a b c : Bytes} (first : (cmp a b).isLE) (second : (cmp b c).isLE) : (cmp a c).isLE :=
  cmp_isLE.2 ((cmp_isLE.1 first).trans (cmp_isLE.1 second))

theorem compareWeights_alpha : TotalPreorderOn (compareWeights true) ws := by
  refine .of_swap_of_trans (fun a _ b _ => compareWeights_swap true a b) fun a _ b _ c _ first second => ?_
  exact cmp_trans (b := b.2) first second

theorem compareWeights_numbers (comparable : Comparable (numbersOf ws)) : TotalPreorderOn (compareWeights false) ws := by
  refine .of_swap_of_trans (fun a _ b _ => compareWeights_swap false a b) ?_
  rintro ⟨an, ar⟩ hA ⟨bn, br⟩ hB ⟨cn, cr⟩ hC first second
  -- A number is behind no text, so all three are numbers, or all behind the first text are none.
  cases an with
  | none =>
    cases bn with
    | some y => cases first
    | none =>
      cases cn with
      | some z => cases second
      | none => exact cmp_trans (b := br) first second
  | some x =>
    cases cn with
    | none => rfl
    | some z =>
      cases bn with
      | none => cases second
      | some y =>
        have number {n : F64} {r : Bytes} (mem : (some n, r) ∈ ws) : n ∈ numbersOf ws :=
          List.mem_filterMap.2 ⟨_, mem, rfl⟩
        have first := partialCmp_isLE.1 first
        have second := partialCmp_isLE.1 second
        refine partialCmp_isLE.2 ?_
        rcases comparable with none | same
        · simp only [none x (number hA), none y (number hB), none z (number hC), Bool.false_eq_true, false_or] at *
          exact first.trans second
        · by_cases left : x.isNaN = true
          · exact .inl left
          · by_cases right : z.isNaN = true
            · exact .inr (.inl right)
            · rw [Bool.not_eq_true] at left right
              exact .inr (.inr (same x (number hA) z (number hC) left right).le)

/-- Next to NaN, two numbers that differ break transitivity. -/
theorem comparable_of_preorder (preorder : TotalPreorderOn (compareWeights false) ws) : Comparable (numbersOf ws) := by
  by_cases none : ∀ x ∈ numbersOf ws, x.isNaN = false
  · exact .inl none
  · push Not at none
    obtain ⟨nan, memNan, isNan⟩ := none
    obtain ⟨wn, hN, fstN⟩ := List.mem_filterMap.1 memNan
    have between {x y : F64} (hx : x ∈ numbersOf ws) (hy : y ∈ numbersOf ws) (left : x.isNaN = false)
        (right : y.isNaN = false) : x.key ≤ y.key := by
      obtain ⟨wx, hX, fstX⟩ := List.mem_filterMap.1 hx
      obtain ⟨wy, hY, fstY⟩ := List.mem_filterMap.1 hy
      have le := preorder.trans wx hX wn hN wy hY
      simp only [compareWeights, fstX, fstN, fstY, Bool.false_eq_true, if_false, partialCmp_isLE, isNan, left, right,
        true_or, or_true, false_or, true_imp_iff] at le
      simpa using le
    exact .inr fun x hx y hy left right => Int.le_antisymm (between hx hy left right) (between hy hx right left)

theorem compareWeights_preorder_iff : TotalPreorderOn (compareWeights false) ws ↔ Comparable (numbersOf ws) :=
  ⟨comparable_of_preorder, compareWeights_numbers⟩

/-! ## What is sorted -/

variable {parseF64 : String → Option F64} {toUppercase : String → String} {sorter : Sorter Bytes}
  {thr : ListThresholds} {now : Nat} {db db' : ShardedDatabase} {o : SortOptions} {l items : List Bytes}

/-- The numbers by which elements are compared. -/
def numbers (parseF64 : String → Option F64) (now : Nat) (db : ShardedDatabase) (o : SortOptions) (l : List Bytes) :
    List F64 := numbersOf (l.map (weight parseF64 now db o))

/-- SORT compares by an order on the elements exactly where the numbers can be compared. -/
theorem comparator_preorder_iff :
    TotalPreorderOn (comparator parseF64 now db o) l ↔ Comparable (numbers parseF64 now db o l) := by
  have weighed : TotalPreorderOn (comparator parseF64 now db o) l ↔
      TotalPreorderOn (compareWeights o.alpha) (l.map (weight parseF64 now db o)) := by
    rw [← TotalPreorderOn.comap_iff]
    unfold comparator
    cases o.desc with
    | false => rfl
    | true => exact TotalPreorderOn.reversed_iff
  rw [weighed, numbers]
  cases alpha : o.alpha with
  | false => exact compareWeights_preorder_iff
  | true =>
    have texts : numbersOf (l.map (weight parseF64 now db o)) = [] := by
      refine List.filterMap_eq_nil_iff.2 fun w mem => ?_
      obtain ⟨elem, -, rfl⟩ := List.mem_map.1 mem
      exact if_pos alpha
    rw [texts]
    exact iff_of_true compareWeights_alpha (.inl nofun)

theorem lookupString_eq (now : Nat) (db : ShardedDatabase) (k : Bytes) :
    lookupString now db k = (db.valueAt now k).bind DataType.asStringBytes := by
  rw [lookupString, ShardedDatabase.valueAt, Option.bind_map]
  rfl

theorem weight_congr (same : ShardedDatabase.Untouched now db db') :
    weight parseF64 now db' o = weight parseF64 now db o := by
  funext elem
  unfold weight
  simp only [lookupString_eq, same.valueAt]

theorem comparator_congr (same : ShardedDatabase.Untouched now db db') :
    comparator parseF64 now db' o = comparator parseF64 now db o := by
  funext a b
  rw [comparator, comparator, weight_congr same]

/-- A pattern that means no sort gives every element one weight. -/
theorem weight_of_nosort (nosort : o.byPattern.any isNosort = true) (a b : Bytes) :
    weight parseF64 now db o a = weight parseF64 now db o b := by
  unfold weight
  cases by_ : o.byPattern with
  | none => simp [by_] at nosort
  | some pat =>
    have spelled : isNosort pat = true := by simpa [by_] using nosort
    have noStar : pat.findIdx? (· = 42) = none := by
      refine List.findIdx?_eq_none_iff.2 fun x mem => decide_eq_false fun star => ?_
      have letter := List.mem_map_of_mem (f := fun b : UInt8 => if 65 ≤ b ∧ b ≤ 90 then b + 32 else b) mem
      rw [of_decide_eq_true spelled, star] at letter
      revert letter
      decide
    simp only [expandPattern, noStar]

/-- The elements come out in an order by the comparison, where it is one. -/
theorem orderItems_spec (sorter : Sorter Bytes)
    (preorder : TotalPreorderOn (comparator parseF64 now db o) items) :
    ∃ sorted, orderItems parseF64 sorter now db o items = some sorted ∧ sorted.Perm items ∧
      sorted.Pairwise fun a b => (comparator parseF64 now db o a b).isLE := by
  unfold orderItems
  by_cases nosort : o.byPattern.any isNosort = true
  · rw [if_pos nosort]
    have perm : (if o.desc then items.reverse else items).Perm items := by
      split
      · exact items.reverse_perm
      · exact .refl _
    refine ⟨_, rfl, perm, List.pairwise_of_forall_mem_list fun a hA b _ => ?_⟩
    have alike : comparator parseF64 now db o a b = comparator parseF64 now db o a a := by
      rw [comparator, comparator, weight_of_nosort nosort b a]
    rw [alike]
    exact preorder.refl a (perm.subset hA)
  · rw [if_neg nosort]
    obtain ⟨sorted, sorts, ordered⟩ := sorter.sorts _ _ preorder
    exact ⟨sorted, sorts, sorter.perm _ _ _ sorts, ordered⟩

/-- What LIMIT leaves of a list. -/
def slice (offset : Nat) (count : Option Nat) (l : List Bytes) : List Bytes :=
  match count with
  | some c => (l.drop offset).take c
  | none => l.drop offset

theorem pageOf_eq (o : SortOptions) (l : List Bytes) : pageOf o l = slice o.limitOffset o.limitCount l := by
  have cut (stop : Nat) (inside : stop ≤ l.length) :
      (if stop ≤ min o.limitOffset l.length then [] else (l.take stop).drop (min o.limitOffset l.length)) =
        (l.take stop).drop o.limitOffset := by
    split
    · rename_i empty
      exact (List.drop_of_length_le (by rw [List.length_take]; omega)).symm
    · have start : min o.limitOffset l.length = o.limitOffset := by omega
      rw [start]
  unfold pageOf slice
  cases o.limitCount with
  | none =>
    dsimp only
    rw [cut _ le_rfl, List.take_length]
  | some c =>
    dsimp only
    rw [cut _ (Nat.min_le_right _ _), List.take_drop, ← List.take_eq_take_min]

/-- A list or a set, and a listing of its elements; a key that is missing has none. -/
inductive Elements (l : List Bytes) : Option DataType → Prop
  | missing : l = [] → Elements l none
  | list {d : ListData} : d.Rep l → d.Small → Elements l (some (.list d))
  | set {d : SetData} {s : Finset Bytes} : d.Rep s → l.Nodup → l.toFinset = s → Elements l (some (.set d))

theorem itemsOf_spec {v : DataType} (holds : Elements l (some v)) :
    ∃ items, itemsOf v = .ok (some items) ∧ items.Perm l := by
  cases holds with
  | list rep small => exact ⟨l, by rw [itemsOf, rep.toVecBytes_eq small], .refl _⟩
  | set rep nodup same =>
    obtain ⟨items, toVec, -, distinct, mem, -⟩ := rep.agrees.members
    refine ⟨items, by rw [itemsOf, toVec], (List.perm_ext_iff_of_nodup distinct nodup).2 fun m => ?_⟩
    rw [mem, ← same, List.mem_toFinset]

/-! ## The reply -/

/-- The comparison is an order on the elements, and the rows are a part of the elements in this order. -/
structure Sorts (parseF64 : String → Option F64) (now : Nat) (db : ShardedDatabase) (o : SortOptions) (l : List Bytes)
    (out : Run Resp) : Prop where
  preorder : TotalPreorderOn (comparator parseF64 now db o) l
  rows : ∃ sorted, sorted.Perm l ∧ (sorted.Pairwise fun a b => (comparator parseF64 now db o a b).isLE) ∧
    out.2 = some (.ok (.array (some ((slice o.limitOffset o.limitCount sorted).map fun elem =>
      .bulkString (some elem)))))
  untouched : ShardedDatabase.Untouched now db out.1

variable {args : List Resp} {key : Bytes} {takeWriteLock : Bool}

theorem sortItems_sorts (plain : o.getPatterns = []) (kept : o.storeDst = none)
    (preorder : TotalPreorderOn (comparator parseF64 now db o) items) :
    Sorts parseF64 now db o items (sortItems parseF64 sorter thr now o items db) := by
  obtain ⟨sorted, orders, perm, ordered⟩ := orderItems_spec sorter preorder
  refine ⟨preorder, ⟨sorted, perm, ordered, ?_⟩, ?_⟩
  · rw [sortItems, orders]
    simp only [kept, rowsOf, plain, List.isEmpty_nil, if_true, pageOf_eq]
  · rw [sortItems, orders]
    simp only [kept]
    exact .refl _ _

theorem read_spec (takeWriteLock : Bool) (now : Nat) (db : ShardedDatabase) (key : Bytes) :
    ∃ db' e, (if takeWriteLock then db.readKey now key else (db, db.getRo now key)) = (db', e) ∧
      e.map Entry.value = db.valueAt now key ∧ ShardedDatabase.Untouched now db db' := by
  cases takeWriteLock with
  | true =>
    obtain ⟨answer, same⟩ := ShardedDatabase.readKey_spec now db key
    exact ⟨_, _, rfl, answer, same⟩
  | false => exact ⟨db, _, rfl, rfl, .refl _ _⟩

theorem Sorts.of_untouched {out : Run Resp} (same : ShardedDatabase.Untouched now db db')
    (sorts : Sorts parseF64 now db' o items out)
    (perm : items.Perm l) : Sorts parseF64 now db o l out := by
  obtain ⟨preorder, ⟨sorted, perm', ordered, answer⟩, untouched⟩ := sorts
  rw [comparator_congr same] at preorder ordered
  exact ⟨preorder.subset perm.symm.subset, ⟨sorted, perm'.trans perm, ordered, answer⟩, same.trans untouched⟩

/-- **SORT sorts, unless an element weighs NaN and two others weigh numbers that differ: then its comparison is no
order.** A comparison with NaN says that both are equal, so an element that weighs NaN is equal to two that are not
equal to each other, and what a merge makes of these depends on where it meets them. -/
theorem sort_iff (named : args[1]?.bind Resp.toBytesVec = some key) (holds : Elements l (db.valueAt now key))
    (parsed : sortOptions toUppercase takeWriteLock (args.drop 2) {} = .ok o) (plain : o.getPatterns = [])
    (kept : o.storeDst = none) :
    Sorts parseF64 now db o l (sortInner parseF64 toUppercase sorter thr now takeWriteLock args db) ↔
      Comparable (numbers parseF64 now db o l) := by
  rw [← comparator_preorder_iff]
  refine ⟨Sorts.preorder, fun preorder => ?_⟩
  have long : ¬args.length < 2 := by
    intro short
    rw [List.getElem?_eq_none (by omega)] at named
    cases named
  have isKey : bytesArg "sort" args[1]? = .ok key := by
    unfold bytesArg
    rw [named]
  obtain ⟨db', e, read, answer, same⟩ := read_spec takeWriteLock now db key
  rw [← answer] at holds
  unfold sortInner
  rw [if_neg long, isKey]
  dsimp only
  rw [read]
  cases e with
  | none =>
    obtain ⟨rfl⟩ | _ := holds
    refine ⟨preorder, ⟨[], .refl _, .nil, ?_⟩, same⟩
    cases o.limitCount <;> simp [slice]
  | some e =>
    obtain ⟨items, copied, perm⟩ := itemsOf_spec holds
    dsimp only
    rw [copied]
    dsimp only
    rw [parsed]
    refine Sorts.of_untouched same (sortItems_sorts plain kept ?_) perm
    rw [comparator_congr same]
    exact preorder.subset perm.subset

/-- What the parser makes of some texts. -/
def parseSome : String → Option F64
  | "1" => some ⟨0x3FF0000000000000⟩
  | "2" => some ⟨0x4000000000000000⟩
  | "nan" => some ⟨0x7FF8000000000000⟩
  | _ => none

/-- A store with a list under l. -/
def listOf (elems : List Bytes) : ShardedDatabase :=
  .holding [108] (.list (.compact (elems.foldl CompactList.pushBack .new)))

theorem elements_listOf {elems : List Bytes} (small : (elems.foldl CompactList.pushBack .new).buf.length < 2 ^ 32) :
    Elements elems ((listOf elems).valueAt 0 [108]) := by
  rw [listOf, ShardedDatabase.valueAt_holding]
  exact .list (CompactList.foldl_pushBack_rep CompactList.new_rep elems) small

open ListIndex (words)

/-- Two numbers, the larger one first, of which one is asked for. -/
theorem sort_two :
    Sorts parseSome 0 (listOf [[50], [49]]) { desc := true, limitCount := some 1 } [[50], [49]]
      (cmdSort parseSome String.toUpper (.merge Bytes) .default 0 (words ["SORT", "l", "DESC", "LIMIT", "0", "1"])
        (listOf [[50], [49]])) := by
  have holds : Elements [[50], [49]] ((listOf [[50], [49]]).valueAt 0 [108]) := elements_listOf (by decide +kernel)
  refine (sort_iff (by decide +kernel) holds (by decide +kernel) rfl rfl).2 (.inl ?_)
  decide +kernel

/-- Next to nan, 2 and 1 are both equal to it and still not in order. -/
theorem sort_nan :
    ¬Sorts parseSome 0 (listOf [[49], [110, 97, 110], [50]]) {} [[49], [110, 97, 110], [50]]
        (cmdSort parseSome String.toUpper (.merge Bytes) .default 0 (words ["SORT", "l"])
          (listOf [[49], [110, 97, 110], [50]])) ∧
      comparator parseSome 0 (listOf [[49], [110, 97, 110], [50]]) {} [50] [110, 97, 110] = .eq ∧
      comparator parseSome 0 (listOf [[49], [110, 97, 110], [50]]) {} [110, 97, 110] [49] = .eq ∧
      comparator parseSome 0 (listOf [[49], [110, 97, 110], [50]]) {} [50] [49] = .gt := by
  refine ⟨fun sorts => ?_, by decide +kernel, by decide +kernel, by decide +kernel⟩
  have le := sorts.preorder.trans [50] (by simp) [110, 97, 110] (by simp) [49] (by simp) (by decide +kernel)
    (by decide +kernel)
  revert le
  decide +kernel

end NexradeCache.Sort
