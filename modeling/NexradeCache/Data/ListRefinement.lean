import Mathlib.Logic.Function.Iterate
import NexradeCache.Lib.Run
import NexradeCache.Data.CompactList

/-!
# `ListData` refines a sequence of byte strings

The abstract component is a list of byte strings with the list operations one would
write on paper (`ListSpec.apply`); its answers carry the payload change as the difference
of the two totals. `ListData.step` is the concrete component, every call with the
thresholds in force at that call. `ListData.step_refines` is the step lemma, one case per
operation; `listData_refines_list` lifts it to runs by `Run.run_refines`, with the size of
the compact buffer as the side condition on the visited states.
-/

namespace NexradeCache

open Bytes

/-- The operations on a list value, with their arguments. -/
inductive ListOp where
  | pushFront (v : Bytes)
  | pushBack (v : Bytes)
  | popFront
  | popBack
  | set (i : Nat) (v : Bytes)
  | insertBefore (pivot v : Bytes)
  | insertAfter (pivot v : Bytes)
  | rem (count : Int) (elem : Bytes)
  | trim (start stop : Nat)
  | ensureLinked
  | maybeDemote
deriving Repr, DecidableEq

/-- What an operation returns to its caller. -/
inductive ListAns where
  | done
  | popped (v : Option Bytes)
  | updated (ok : Bool) (delta : Int)
  | inserted (len : Option Nat)
  | removed (count : Nat) (delta : Int)
  | trimmed (delta : Int)
deriving Repr, DecidableEq

/-! ## The abstract component -/

namespace ListSpec

/-- The first `n` occurrences of `elem` taken out. -/
def eraseFirst (elem : Bytes) (n : Nat) (l : List Bytes) : List Bytes :=
  (fun l => l.erase elem)^[n] l

/-- `LREM`: `count` occurrences from the head (from the tail if negative), all if zero. -/
def rem (count : Int) (elem : Bytes) (l : List Bytes) : List Bytes :=
  if count = 0 then l.filter (· ≠ elem)
  else if 0 < count then eraseFirst elem count.toNat l
  else (eraseFirst elem count.natAbs l.reverse).reverse

/-- The elements at positions `start..stop`. -/
def range (start stop : Nat) (l : List Bytes) : List Bytes := (l.take (stop + 1)).drop start

/-- The change of the payload between two lists. -/
def delta (l l' : List Bytes) : Int := (payload l' : Int) - payload l

/-- A new element `shift` places behind the first `pivot`. -/
def insertAt (shift : Nat) (pivot v : Bytes) (l : List Bytes) : List Bytes × ListAns :=
  if pivot ∈ l then (l.insertIdx (l.idxOf pivot + shift) v, .inserted (some (l.length + 1)))
  else (l, .inserted none)

/-- What an operation does to a list, in terms of lists. -/
def apply : ListOp → List Bytes → List Bytes × ListAns
  | .pushFront v, l => (v :: l, .done)
  | .pushBack v, l => (l ++ [v], .done)
  | .popFront, l => (l.tail, .popped l.head?)
  | .popBack, l => (l.dropLast, .popped l.getLast?)
  | .set i v, l => (l.set i v, .updated (i < l.length) (delta l (l.set i v)))
  | .insertBefore pivot v, l => insertAt 0 pivot v l
  | .insertAfter pivot v, l => insertAt 1 pivot v l
  | .rem count elem, l =>
    (rem count elem l, .removed (l.length - (rem count elem l).length) (delta l (rem count elem l)))
  | .trim start stop, l => (range start stop l, .trimmed (delta l (range start stop l)))
  | .ensureLinked, l => (l, .done)
  | .maybeDemote, l => (l, .done)

end ListSpec

namespace ListData

/-- One call, under the thresholds in force at that call. -/
def step (call : ListThresholds × ListOp) (d : ListData) : Option (ListData × ListAns) :=
  let (thr, op) := call
  match op with
  | .pushFront v => (d.pushFront thr v).map fun d => (d, .done)
  | .pushBack v => (d.pushBack thr v).map fun d => (d, .done)
  | .popFront => (d.popFront thr).map fun (d, v) => (d, .popped v)
  | .popBack => (d.popBack thr).map fun (d, v) => (d, .popped v)
  | .set i v => (d.set i v).map fun (d, ok, delta) => (d, .updated ok delta)
  | .insertBefore pivot v => (d.insertBefore pivot v).map fun (d, n) => (d, .inserted n)
  | .insertAfter pivot v => (d.insertAfter pivot v).map fun (d, n) => (d, .inserted n)
  | .rem count elem => (d.rem thr count elem).map fun (d, n, delta) => (d, .removed n delta)
  | .trim start stop => (d.trim thr start stop).map fun (d, delta) => (d, .trimmed delta)
  | .ensureLinked => d.ensureLinked.map fun d => (d, .done)
  | .maybeDemote => some (d.maybeDemote thr, .done)

/-- The value holds the elements `l`, and its cached total is their payload. -/
def Rep : ListData → List Bytes → Prop
  | .compact c, l => c.Rep l
  | .linked d, l => d = ⟨l, payload l⟩

/-- The compact buffer is below `2 ^ 32` bytes. -/
def Small : ListData → Prop
  | .compact c => c.buf.length < 2 ^ 32
  | .linked _ => True

variable {d : ListData} {l : List Bytes}

/-! ## Switching encodings -/

theorem foldl_pushBack_items (m : List Bytes) (d : LinkedList) :
    (m.foldl LinkedList.pushBack d).items = d.items ++ m := by
  induction m generalizing d with
  | nil => simp
  | cons x m ih => rw [List.foldl_cons, ih]; simp [LinkedList.pushBack]

/-- A walk reads the elements of the compact buffer back: it has the offset of the first, and the lengths fit. -/
def Walks : ListData → List Bytes → Prop
  | .compact c, l => c.head < 2 ^ 32 ∧ ∀ x ∈ l, frameCodec.Valid x
  | .linked _, _ => True

/-- A small list can be walked from both ends. -/
theorem Rep.walks (h : d.Rep l) (small : d.Small) : d.Walks l := by
  cases d with
  | linked d => trivial
  | compact c =>
    have size := CompactList.Rep.length_buf h
    have small : c.buf.length < 2 ^ 32 := small
    exact ⟨by omega, CompactList.Rep.valid h small⟩

theorem Rep.toLinked_eq (h : d.Rep l) (walks : d.Walks l) : d.toLinked = some ⟨l, payload l⟩ := by
  cases d with
  | linked d => exact congrArg some h
  | compact c =>
    have elems : c.iterElements = some l := CompactList.Rep.iterElements_of_valid h walks.1 walks.2
    have total : c.bytes = payload l := CompactList.Rep.bytes h
    have items := foldl_pushBack_items l LinkedList.empty
    simp only [LinkedList.empty, List.nil_append] at items
    simp [toLinked, elems, total, items, LinkedList.empty]

theorem Rep.maybeDemote (h : d.Rep l) (thr : ListThresholds) : (d.maybeDemote thr).Rep l := by
  cases d with
  | compact c => exact h
  | linked d =>
    simp only [ListData.maybeDemote]
    split
    · exact h
    split
    · exact h
    · rw [show d = ⟨l, payload l⟩ from h]
      exact CompactList.foldl_pushBack_rep CompactList.withCapacity_rep l

theorem Walks.maybeDemote (walks : d.Walks l) (h : d.Rep l) (valid : ∀ x ∈ l, frameCodec.Valid x)
    (thr : ListThresholds) : (d.maybeDemote thr).Walks l := by
  cases d with
  | compact c => exact walks
  | linked d =>
    simp only [ListData.maybeDemote]
    split
    · trivial
    split
    · trivial
    · exact ⟨by rw [CompactList.head_foldl_pushBack]; decide, valid⟩

/-! ## Ends -/

theorem Rep.pushFront (h : d.Rep l) (walks : d.Walks l) (thr : ListThresholds) (v : Bytes) :
    ∃ d', d.pushFront thr v = some d' ∧ d'.Rep (v :: l) := by
  have linked := h.toLinked_eq walks
  have total : (⟨l, payload l⟩ : LinkedList).pushFront v = ⟨v :: l, payload (v :: l)⟩ := by
    simp [LinkedList.pushFront, Nat.add_comm]
  cases d with
  | linked d =>
    rw [show d = ⟨l, payload l⟩ from h]
    exact ⟨_, rfl, total⟩
  | compact c =>
    simp only [ListData.pushFront]
    split
    · exact ⟨.linked _, by rw [linked]; rfl, total⟩
    · obtain ⟨c', run, rep⟩ := CompactList.Rep.pushFront h v
      exact ⟨.compact c', by rw [run]; rfl, rep⟩

theorem Rep.pushBack (h : d.Rep l) (walks : d.Walks l) (thr : ListThresholds) (v : Bytes) :
    ∃ d', d.pushBack thr v = some d' ∧ d'.Rep (l ++ [v]) := by
  have linked := h.toLinked_eq walks
  have total : (⟨l, payload l⟩ : LinkedList).pushBack v = ⟨l ++ [v], payload (l ++ [v])⟩ := by
    simp [LinkedList.pushBack]
  cases d with
  | linked d =>
    rw [show d = ⟨l, payload l⟩ from h]
    exact ⟨_, rfl, total⟩
  | compact c =>
    simp only [ListData.pushBack]
    split
    · exact ⟨.linked _, by rw [linked]; rfl, total⟩
    · exact ⟨_, rfl, CompactList.Rep.pushBack h v⟩

theorem linked_popFront (l : List Bytes) :
    (⟨l, payload l⟩ : LinkedList).popFront = (⟨l.tail, payload l.tail⟩, l.head?) := by
  cases l <;> simp [LinkedList.popFront]

theorem linked_popBack (l : List Bytes) :
    (⟨l, payload l⟩ : LinkedList).popBack = (⟨l.dropLast, payload l.dropLast⟩, l.getLast?) := by
  rcases List.eq_nil_or_concat' l with rfl | ⟨m, x, rfl⟩
  · rfl
  · simp [LinkedList.popBack]

theorem demoteAfterPop_rep {v : Option Bytes} (h : d.Rep l) (walks : d.Walks l) (thr : ListThresholds) :
    ∃ d', demoteAfterPop thr (d, v) = (d', v) ∧ d'.Rep l ∧ ((∀ x ∈ l, frameCodec.Valid x) → d'.Walks l) := by
  cases v with
  | none => exact ⟨d, rfl, h, fun _ => walks⟩
  | some v => exact ⟨_, rfl, h.maybeDemote thr, fun valid => walks.maybeDemote h valid thr⟩

theorem Rep.popFront (h : d.Rep l) (small : d.Small) (thr : ListThresholds) :
    ∃ d', d.popFront thr = some (d', l.head?) ∧ d'.Rep l.tail ∧
      ((∀ x ∈ l, frameCodec.Valid x) → d'.Walks l.tail) := by
  cases d with
  | linked d =>
    rw [show d = ⟨l, payload l⟩ from h]
    simp only [ListData.popFront, linked_popFront]
    obtain ⟨d', run, rep, walks⟩ := demoteAfterPop_rep (d := .linked ⟨l.tail, payload l.tail⟩)
      (v := l.head?) rfl trivial thr
    exact ⟨d', by rw [run], rep, fun valid => walks fun x mem => valid x (List.mem_of_mem_tail mem)⟩
  | compact c =>
    cases l with
    | nil =>
      refine ⟨.compact c, ?_, h, fun _ => h.walks small⟩
      rw [ListData.popFront, CompactList.Rep.popFront_nil h]
      rfl
    | cons x l =>
      obtain ⟨c', run, rep, less⟩ := CompactList.Rep.popFront_cons h small
      have walks : (ListData.compact c').Walks l := Rep.walks (d := .compact c') rep (less.trans_lt small)
      obtain ⟨d', demoted, rep', walks'⟩ := demoteAfterPop_rep (d := .compact c') (v := some x) rep walks thr
      exact ⟨d', by simp [ListData.popFront, run, demoted], rep', fun valid => walks' (List.forall_mem_cons.1 valid).2⟩

theorem Rep.popBack (h : d.Rep l) (small : d.Small) (thr : ListThresholds) :
    ∃ d', d.popBack thr = some (d', l.getLast?) ∧ d'.Rep l.dropLast ∧
      ((∀ x ∈ l, frameCodec.Valid x) → d'.Walks l.dropLast) := by
  cases d with
  | linked d =>
    rw [show d = ⟨l, payload l⟩ from h]
    simp only [ListData.popBack, linked_popBack]
    obtain ⟨d', run, rep, walks⟩ := demoteAfterPop_rep (d := .linked ⟨l.dropLast, payload l.dropLast⟩)
      (v := l.getLast?) rfl trivial thr
    exact ⟨d', by rw [run], rep, fun valid => walks fun x mem => valid x (List.mem_of_mem_dropLast mem)⟩
  | compact c =>
    rcases List.eq_nil_or_concat' l with rfl | ⟨m, x, rfl⟩
    · refine ⟨.compact c, ?_, h, fun _ => h.walks small⟩
      rw [ListData.popBack, CompactList.Rep.popBack_nil h]
      rfl
    · obtain ⟨c', run, rep, less⟩ := CompactList.Rep.popBack_concat h small
      have walks : (ListData.compact c').Walks m := Rep.walks (d := .compact c') rep (less.trans_lt small)
      obtain ⟨d', demoted, rep', walks'⟩ := demoteAfterPop_rep (d := .compact c') (v := some x) rep walks thr
      refine ⟨d', by simp [ListData.popBack, run, demoted], by simpa using rep', fun valid => ?_⟩
      rw [List.dropLast_concat]
      exact walks' fun y mem => valid y (by simp [mem])

/-! ## Changes in the middle -/

/-- LSET changes the payload by the two lengths. -/
theorem payload_set {i : Nat} {old v : Bytes} (h : l[i]? = some old) :
    payload (l.set i v) + old.length = payload l + v.length := by
  obtain ⟨inside, rfl⟩ := List.getElem?_eq_some_iff.1 h
  have before : payload l = payload (l.take i) + (l[i].length + payload (l.drop (i + 1))) := by
    conv_lhs => rw [show l = l.take i ++ l[i] :: l.drop (i + 1) by simp]
    rw [payload_append, payload_cons]
  have after : payload (l.set i v) = payload (l.take i) + (v.length + payload (l.drop (i + 1))) := by
    rw [List.set_eq_take_append_cons_drop, if_pos inside, payload_append, payload_cons]
  omega

/-- LSET goes through the linked form, and reports the change in bytes. -/
theorem Rep.set (h : d.Rep l) (small : d.Small) (i : Nat) (v : Bytes) :
    ∃ d', d.set i v = some (d', decide (i < l.length), ListSpec.delta l (l.set i v)) ∧
      d'.Rep (l.set i v) := by
  simp only [ListData.set, h.toLinked_eq (h.walks small), Option.bind_eq_bind, Option.bind_some, ListSpec.delta]
  cases hi : l[i]? with
  | none =>
    have outside : l.length ≤ i := List.getElem?_eq_none_iff.1 hi
    rw [List.set_eq_of_length_le outside]
    exact ⟨.linked ⟨l, payload l⟩, by simp [outside], rfl⟩
  | some old =>
    have inside : i < l.length := (List.getElem?_eq_some_iff.1 hi).1
    have total := payload_set (v := v) hi
    have room : old.length ≤ payload l := by
      rw [← (List.getElem?_eq_some_iff.1 hi).2]
      exact List.le_sum_of_mem (List.mem_map_of_mem (List.getElem_mem inside))
    refine ⟨.linked ⟨l.set i v, payload l - old.length + v.length⟩, ?_, ?_⟩
    · have : (v.length : Int) - old.length = (payload (l.set i v) : Int) - payload l := by omega
      simp [inside, this]
    · show (⟨_, _⟩ : LinkedList) = ⟨_, _⟩
      congr 1
      omega

theorem payload_insertIdx {i : Nat} {v : Bytes} (h : i ≤ l.length) :
    payload (l.insertIdx i v) = payload l + v.length := by
  have perm := List.perm_insertIdx v l h
  have sums := (perm.map List.length).sum_eq
  simpa [payload, Nat.add_comm] using sums

theorem findIdx?_eq_idxOf (pivot : Bytes) (l : List Bytes) :
    l.findIdx? (· == pivot) = if pivot ∈ l then some (l.idxOf pivot) else none := by
  rw [List.idxOf, List.findIdx?_eq_guard_findIdx_lt, Option.guard]
  simp [List.findIdx_lt_length]

/-- LINSERT before or behind the first place of the pivot. -/
theorem Rep.insertAt (h : d.Rep l) (small : d.Small) (shift : Nat) (le : shift ≤ 1) (pivot v : Bytes) :
    ∃ d' n, d.insertAt shift pivot v = some (d', n) ∧
      (ListSpec.insertAt shift pivot v l).2 = .inserted n ∧
      d'.Rep (ListSpec.insertAt shift pivot v l).1 := by
  simp only [ListData.insertAt, h.toLinked_eq (h.walks small), Option.bind_eq_bind, Option.bind_some,
    findIdx?_eq_idxOf, ListSpec.insertAt]
  by_cases hp : pivot ∈ l
  · have pos : l.idxOf pivot < l.length := List.idxOf_lt_length_iff.2 hp
    have size : (l.insertIdx (l.idxOf pivot + shift) v).length = l.length + 1 := by
      rw [List.length_insertIdx_of_le_length (by omega)]
    rw [if_pos hp, if_pos hp]
    refine ⟨_, _, rfl, ?_, ?_⟩
    · simp [LinkedList.len, size]
    · show (⟨_, _⟩ : LinkedList) = ⟨_, _⟩
      rw [payload_insertIdx (by omega)]
  · rw [if_neg hp, if_neg hp]
    exact ⟨_, _, rfl, rfl, rfl⟩

/-! ## Removals -/

/-- LREM with count 0: how many go, and their bytes. -/
theorem remAll_eq (elem : Bytes) (l : List Bytes) :
    ∃ n, remAll elem l = (l.filter (· ≠ elem), n, payload (l.filter (· ≠ elem))) ∧
      (l.filter (· ≠ elem)).length + n = l.length ∧
      payload (l.filter (· ≠ elem)) + n * elem.length = payload l := by
  induction l with
  | nil => exact ⟨0, rfl, rfl, by simp⟩
  | cons x l ih =>
    obtain ⟨n, run, len, total⟩ := ih
    by_cases hx : x = elem
    · subst hx
      refine ⟨n + 1, by simp [remAll, run], by simp at len ⊢; omega, ?_⟩
      simp only [ne_eq, not_true_eq_false, decide_false, Bool.false_eq_true, not_false_eq_true,
        List.filter_cons_of_neg, payload_cons, Nat.add_mul]
      simp only [ne_eq] at total
      omega
    · refine ⟨n, by simp [remAll, run, hx, Nat.add_comm], by simp [hx] at len ⊢; omega, ?_⟩
      rw [List.filter_cons_of_pos (by simpa using hx), payload_cons, payload_cons]
      omega

theorem eraseFirst_succ_self (elem : Bytes) (n : Nat) (l : List Bytes) :
    ListSpec.eraseFirst elem (n + 1) (elem :: l) = ListSpec.eraseFirst elem n l := by
  simp [ListSpec.eraseFirst, Function.iterate_succ_apply]

theorem eraseFirst_cons_ne {elem x : Bytes} (hx : x ≠ elem) (n : Nat) (l : List Bytes) :
    ListSpec.eraseFirst elem n (x :: l) = x :: ListSpec.eraseFirst elem n l := by
  induction n generalizing l with
  | zero => rfl
  | succ n ih =>
    have first : (x :: l).erase elem = x :: l.erase elem := List.erase_cons_tail (by simpa using hx)
    rw [ListSpec.eraseFirst, Function.iterate_succ_apply, first]
    exact ih (l.erase elem)

theorem remSome_eq (elem : Bytes) (k : Nat) (l : List Bytes) :
    ∃ n, remSome elem k l =
        (ListSpec.eraseFirst elem k l, n, payload (ListSpec.eraseFirst elem k l)) ∧
      (ListSpec.eraseFirst elem k l).length + n = l.length ∧
      payload (ListSpec.eraseFirst elem k l) + n * elem.length = payload l := by
  induction l generalizing k with
  | nil =>
    have none_left : ListSpec.eraseFirst elem k [] = [] := by
      induction k with
      | zero => rfl
      | succ k ih => rw [ListSpec.eraseFirst, Function.iterate_succ_apply]; exact ih
    exact ⟨0, by simp [remSome, none_left], by simp [none_left], by simp [none_left]⟩
  | cons x l ih =>
    by_cases hit : 0 < k ∧ x = elem
    · obtain ⟨hk, rfl⟩ := hit
      obtain ⟨k, rfl⟩ : ∃ j, k = j + 1 := ⟨k - 1, by omega⟩
      obtain ⟨n, run, len, total⟩ := ih k
      rw [eraseFirst_succ_self]
      refine ⟨n + 1, by simp [remSome, run], by simp; omega, ?_⟩
      rw [Nat.add_mul, payload_cons]
      omega
    · have keep : ListSpec.eraseFirst elem k (x :: l) = x :: ListSpec.eraseFirst elem k l := by
        by_cases hx : x = elem
        · rw [show k = 0 by by_contra; exact hit ⟨by omega, hx⟩]
          rfl
        · exact eraseFirst_cons_ne hx k l
      obtain ⟨n, run, len, total⟩ := ih k
      rw [keep]
      refine ⟨n, ?_, by simp; omega, by rw [payload_cons, payload_cons]; omega⟩
      rw [remSome, if_neg hit, run]
      simp [Nat.add_comm]

/-- All three loops of `rem` together. -/
theorem rem_loops (count : Int) (elem : Bytes) (l : List Bytes) :
    ∃ n, (if count = 0 then remAll elem l
        else if 0 < count then remSome elem count.toNat l
        else ((remSome elem count.natAbs l.reverse).1.reverse,
          (remSome elem count.natAbs l.reverse).2)) =
        (ListSpec.rem count elem l, n, payload (ListSpec.rem count elem l)) ∧
      (ListSpec.rem count elem l).length + n = l.length ∧
      payload (ListSpec.rem count elem l) + n * elem.length = payload l := by
  unfold ListSpec.rem
  split
  · exact remAll_eq elem l
  split
  · exact remSome_eq elem count.toNat l
  · obtain ⟨n, run, len, total⟩ := remSome_eq elem count.natAbs l.reverse
    refine ⟨n, ?_, by simpa using len, ?_⟩
    · rw [run, payload_reverse]
    · rw [payload_reverse, total, payload_reverse]

theorem Rep.rem (h : d.Rep l) (small : d.Small) (thr : ListThresholds) (count : Int) (elem : Bytes) :
    ∃ d', d.rem thr count elem = some (d', l.length - (ListSpec.rem count elem l).length,
        ListSpec.delta l (ListSpec.rem count elem l)) ∧
      d'.Rep (ListSpec.rem count elem l) := by
  obtain ⟨n, run, len, total⟩ := rem_loops count elem l
  have count' : l.length - (ListSpec.rem count elem l).length = n := by omega
  have delta' : ListSpec.delta l (ListSpec.rem count elem l) = -((n * elem.length : Nat) : Int) := by
    unfold ListSpec.delta
    omega
  let kept : ListData := .linked ⟨ListSpec.rem count elem l, payload (ListSpec.rem count elem l)⟩
  refine ⟨if 0 < n then kept.maybeDemote thr else kept, ?_, ?_⟩
  · rw [count', delta']
    simp only [ListData.rem, h.toLinked_eq (h.walks small), Option.bind_eq_bind, Option.bind_some, run, kept]
    rfl
  · split
    · exact Rep.maybeDemote (d := kept) rfl thr
    · rfl

theorem popTimes_popBack (k : Nat) (l : List Bytes) (dropped : Int) (le : k ≤ l.length) :
    LinkedList.popTimes LinkedList.popBack k ⟨l, payload l⟩ dropped =
      (⟨l.take (l.length - k), payload (l.take (l.length - k))⟩,
        dropped - ListSpec.delta l (l.take (l.length - k))) := by
  induction k generalizing l dropped with
  | zero => simp [LinkedList.popTimes, ListSpec.delta]
  | succ k ih =>
    rcases List.eq_nil_or_concat' l with rfl | ⟨m, x, rfl⟩
    · simp at le
    · have shorter : (m ++ [x]).take ((m ++ [x]).length - (k + 1)) = m.take (m.length - k) := by
        rw [List.take_append_of_le_length (by simp)]
        simp
      rw [LinkedList.popTimes, linked_popBack, shorter]
      simp only [List.dropLast_concat, List.getLast?_concat]
      rw [ih m _ (by simp at le; omega)]
      simp only [ListSpec.delta, payload_append, payload_cons, payload_nil]
      congr 1
      omega

theorem popTimes_popFront (k : Nat) (l : List Bytes) (dropped : Int) (le : k ≤ l.length) :
    LinkedList.popTimes LinkedList.popFront k ⟨l, payload l⟩ dropped =
      (⟨l.drop k, payload (l.drop k)⟩, dropped - ListSpec.delta l (l.drop k)) := by
  induction k generalizing l dropped with
  | zero => simp [LinkedList.popTimes, ListSpec.delta]
  | succ k ih =>
    cases l with
    | nil => simp at le
    | cons x l =>
      rw [LinkedList.popTimes, linked_popFront]
      simp only [List.tail_cons, List.head?_cons, List.drop_succ_cons]
      rw [ih l _ (by simpa using le)]
      simp only [ListSpec.delta, payload_cons]
      congr 1
      omega

theorem Rep.trim (h : d.Rep l) (small : d.Small) (thr : ListThresholds) (start stop : Nat) :
    ∃ d', d.trim thr start stop = some (d', ListSpec.delta l (ListSpec.range start stop l)) ∧
      d'.Rep (ListSpec.range start stop l) := by
  simp only [ListData.trim, h.toLinked_eq (h.walks small), Option.bind_eq_bind, Option.bind_some, ListSpec.range]
  have len : (⟨l, payload l⟩ : LinkedList).len = l.length := rfl
  by_cases out : (⟨l, payload l⟩ : LinkedList).len ≤ start ∨ stop < start
  · have nothing : (l.take (stop + 1)).drop start = [] := by
      rw [List.drop_eq_nil_iff, List.length_take]
      omega
    rw [if_pos out, nothing]
    refine ⟨_, ?_, Rep.maybeDemote (d := .linked LinkedList.empty) rfl thr⟩
    simp [ListSpec.delta]
  · have upto : l.take (l.length - (l.length - (min stop (l.length - 1) + 1))) = l.take (stop + 1) := by
      rw [List.take_eq_take_iff]
      omega
    have back := popTimes_popBack (l.length - (min stop (l.length - 1) + 1)) l 0 (by omega)
    have front := popTimes_popFront start (l.take (stop + 1)) (0 - ListSpec.delta l (l.take (stop + 1)))
      (by rw [List.length_take]; omega)
    rw [upto] at back
    rw [if_neg out]
    simp only [len, back, front]
    refine ⟨_, ?_, Rep.maybeDemote (d := .linked _) rfl thr⟩
    simp only [ListSpec.delta, Option.pure_def, Option.some.injEq, Prod.mk.injEq, true_and]
    omega

/-! ## Reads -/

theorem Rep.payloadBytes_eq (h : d.Rep l) : d.payloadBytes = payload l := by
  cases d with
  | compact c => exact CompactList.Rep.bytes h
  | linked d => rw [show d = ⟨l, payload l⟩ from h]; rfl

theorem Rep.len_eq (h : d.Rep l) : d.len = l.length := by
  cases d with
  | compact c => exact CompactList.Rep.len h
  | linked d => rw [show d = ⟨l, payload l⟩ from h]; rfl

theorem Rep.toVecBytes_eq (h : d.Rep l) (small : d.Small) : d.toVecBytes = some l := by
  cases d with
  | compact c => exact CompactList.Rep.iterElements_eq h small
  | linked d => rw [show d = ⟨l, payload l⟩ from h]; rfl

theorem Rep.get_eq (h : d.Rep l) (small : d.Small) (i : Nat) : d.get i = some l[i]? := by
  cases d with
  | compact c => exact CompactList.Rep.get_eq h small i
  | linked d => rw [show d = ⟨l, payload l⟩ from h]; rfl

theorem Rep.rangeBytes_eq (h : d.Rep l) (small : d.Small) (start stop : Nat) :
    d.rangeBytes start stop = some (ListSpec.range start stop l) := by
  unfold ListData.rangeBytes ListSpec.range
  rw [h.len_eq]
  by_cases out : l.length = 0 ∨ stop < start
  · rw [if_pos out, eq_comm, Option.some_inj, List.drop_eq_nil_iff, List.length_take]
    omega
  rw [if_neg out]
  by_cases far : l.length ≤ start
  · simp only [if_pos far, Option.some_inj]
    rw [eq_comm, List.drop_eq_nil_iff, List.length_take]
    omega
  simp only [if_neg far]
  have upto : l.take (min stop (l.length - 1) + 1) = l.take (stop + 1) := by
    rw [List.take_eq_take_iff]
    omega
  cases d with
  | compact c =>
    rw [← upto]
    exact CompactList.Rep.rangeBytes_eq h small (by omega) (by omega)
  | linked d =>
    rw [show d = ⟨l, payload l⟩ from h, ← upto]
    exact if_pos ⟨by omega, by show _ ≤ l.length; omega⟩

/-! ## Runs -/

/-- **The step lemma**: a call from a value that holds `l` returns, answers what the
abstract operation answers, and leaves a value that holds the abstract result. -/
theorem step_refines (call : ListThresholds × ListOp) (h : d.Rep l) (small : d.Small) :
    ∃ d', d.step call = some (d', (ListSpec.apply call.2 l).2) ∧
      d'.Rep (ListSpec.apply call.2 l).1 := by
  obtain ⟨thr, op⟩ := call
  cases op with
  | pushFront v =>
    obtain ⟨d', run, rep⟩ := h.pushFront (h.walks small) thr v
    exact ⟨d', by simp [step, run, ListSpec.apply], rep⟩
  | pushBack v =>
    obtain ⟨d', run, rep⟩ := h.pushBack (h.walks small) thr v
    exact ⟨d', by simp [step, run, ListSpec.apply], rep⟩
  | popFront =>
    obtain ⟨d', run, rep, -⟩ := h.popFront small thr
    exact ⟨d', by simp [step, run, ListSpec.apply], rep⟩
  | popBack =>
    obtain ⟨d', run, rep, -⟩ := h.popBack small thr
    exact ⟨d', by simp [step, run, ListSpec.apply], rep⟩
  | set i v =>
    obtain ⟨d', run, rep⟩ := h.set small i v
    exact ⟨d', by simp [step, run, ListSpec.apply], rep⟩
  | insertBefore pivot v =>
    obtain ⟨d', n, run, ans, rep⟩ := h.insertAt small 0 (by omega) pivot v
    exact ⟨d', by simp [step, insertBefore, run, ListSpec.apply, ans], rep⟩
  | insertAfter pivot v =>
    obtain ⟨d', n, run, ans, rep⟩ := h.insertAt small 1 (by omega) pivot v
    exact ⟨d', by simp [step, insertAfter, run, ListSpec.apply, ans], rep⟩
  | rem count elem =>
    obtain ⟨d', run, rep⟩ := h.rem small thr count elem
    exact ⟨d', by simp [step, run, ListSpec.apply], rep⟩
  | trim start stop =>
    obtain ⟨d', run, rep⟩ := h.trim small thr start stop
    exact ⟨d', by simp [step, run, ListSpec.apply], rep⟩
  | ensureLinked =>
    refine ⟨.linked ⟨l, payload l⟩, ?_, rfl⟩
    simp [step, ensureLinked, h.toLinked_eq (h.walks small), ListSpec.apply]
  | maybeDemote => exact ⟨_, rfl, h.maybeDemote thr⟩

instance (d : ListData) : Decidable d.Small :=
  match d with
  | .compact c => inferInstanceAs (Decidable (c.buf.length < 2 ^ 32))
  | .linked _ => inferInstanceAs (Decidable True)

end ListData

/-- **`ListData` refines a list of byte strings.** Every run of list operations from the empty
value, under thresholds that may differ from call to call, returns without an access out of
bounds as long as the compact buffers it visits stay below `2 ^ 32` bytes; its answers are the
abstract ones, and what is read back is the abstract list. -/
theorem listData_refines_list (calls : List (ListThresholds × ListOp))
    (below : Run.Visits ListData.step ListData.Small calls ListData.new) :
    ∃ d, Run.run ListData.step calls ListData.new =
        some (d, (Run.specRun (fun call => ListSpec.apply call.2) calls []).2) ∧
      let l := (Run.specRun (fun call => ListSpec.apply call.2) calls []).1
      d.toVecBytes = some l ∧ (∀ i, d.get i = some l[i]?) ∧
      (∀ start stop, d.rangeBytes start stop = some ((l.take (stop + 1)).drop start)) ∧
      d.len = l.length ∧ d.payloadBytes = (l.map List.length).sum := by
  have one : ∀ (call : ListThresholds × ListOp) (d : ListData) (l : List Bytes), True →
      d.Rep l ∧ d.Small → ∃ d' r, d.step call = some (d', r) ∧ r = (ListSpec.apply call.2 l).2 ∧
        (d'.Small → d'.Rep (ListSpec.apply call.2 l).1 ∧ d'.Small) := by
    rintro call d l - ⟨rep, small⟩
    obtain ⟨d', run, rep'⟩ := ListData.step_refines call rep small
    exact ⟨d', _, run, rfl, fun small' => ⟨rep', small'⟩⟩
  have start : ListData.new.Rep [] ∧ ListData.new.Small := 
    ⟨CompactList.new_rep, by simp [ListData.new, ListData.Small, CompactList.new]⟩
  obtain ⟨d, answers, run, same, rep, small⟩ :=
    Run.run_refines one (fun _ _ => trivial) below start
  rw [List.forall₂_eq_eq_eq] at same
  exact ⟨d, same ▸ run, rep.toVecBytes_eq small, rep.get_eq small, rep.rangeBytes_eq small,
    rep.len_eq, rep.payloadBytes_eq⟩

/-- A run that promotes on the third push, under a threshold lowered in between, and demotes
on the pop. -/
theorem listData_refines_list_promoted :
    ∃ d, Run.run ListData.step
        [(.default, .pushBack [1, 2]), (.default, .pushFront [3]),
          (⟨2, 8192, 256, 128⟩, .pushBack [4]), (.default, .popFront)] ListData.new =
        some (d, [.done, .done, .done, .popped (some [3])]) ∧
      d.toVecBytes = some [[1, 2], [4]] := by
  obtain ⟨d, run, elems, -⟩ := listData_refines_list
    [(.default, .pushBack [1, 2]), (.default, .pushFront [3]),
      (⟨2, 8192, 256, 128⟩, .pushBack [4]), (.default, .popFront)]
    (Run.visits_of_check (by decide +kernel))
  exact ⟨d, run, elems⟩

end NexradeCache
