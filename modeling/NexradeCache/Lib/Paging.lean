import NexradeCache.Lib.Ordered

/-!
# Walking an ordered collection page by page

A page is what is behind the cursor, in the order of a rank, up to a count; a full page hands back the rank
of its last element as the next cursor, and one that is not full hands back zero. Between two pages the
collection may change as it likes. `Walk` says what the pages of a walk need: then its cursors increase until it
ends (`Walk.ends`), no element comes twice (`Walk.increasing_all`), and an element which is there for every
page comes (`Walk.mem_all`). The pages cut by `page` make a walk.
-/

namespace Paging

open List

variable {A κ : Type} [LinearOrder κ]

/-! ## Front parts of an increasing list -/

section

variable {key : A → κ} {l : List A}

/-- An element that is not behind the last one of a front part is in this part. -/
theorem mem_take_of_le (sorted : Increasing key l) {n : Nat} {x last : A} (mem : x ∈ l)
    (isLast : (l.take n).getLast? = some last) (le : key x ≤ key last) : x ∈ l.take n := by
  rw [← l.take_append_drop n] at mem
  rcases List.mem_append.1 mem with mem | mem
  · exact mem
  · have split : Increasing key (l.take n ++ l.drop n) := by rwa [List.take_append_drop]
    have less := (List.pairwise_append.1 split).2.2 last (List.mem_of_getLast? isLast) x mem
    exact absurd less (not_lt.2 le)

theorem le_of_getLast? (sorted : Increasing key l) {x last : A} (mem : x ∈ l) (isLast : l.getLast? = some last) :
    key x ≤ key last := by
  obtain ⟨front, rfl⟩ := List.getLast?_eq_some_iff.1 isLast
  rcases List.mem_append.1 mem with mem | mem
  · exact ((List.pairwise_append.1 sorted).2.2 x mem last (.head _)).le
  · rw [List.mem_singleton.1 mem]

end

/-! ## One page -/

section

variable (rank : A → Nat)

def rest (l : List A) (cursor : Nat) : List A := l.filter (cursor < rank ·)

/-- A page and the next cursor. -/
def page (l : List A) (count cursor : Nat) : List A × Nat :=
  let batch := (rest rank l cursor).take count
  (batch, if count ≤ (rest rank l cursor).length then (batch.getLast?.map rank).getD 0 else 0)

end

variable {rank : A → Nat} {l : List A} {count cursor : Nat}

theorem mem_rest {a : A} : a ∈ rest rank l cursor ↔ a ∈ l ∧ cursor < rank a := by
  rw [rest, List.mem_filter, decide_eq_true_eq]

theorem mem_of_mem_page {a : A} (mem : a ∈ (page rank l count cursor).1) : a ∈ l ∧ cursor < rank a :=
  mem_rest.1 (List.mem_of_mem_take mem)

theorem increasing_page (sorted : Increasing rank l) : Increasing rank (page rank l count cursor).1 :=
  (sorted.sublist List.filter_sublist).sublist (List.take_sublist _ _)

/-- **A page that hands back a cursor**: the cursor is the rank of its last element, and everything up to it is on
the page. -/
theorem page_full (sorted : Increasing rank l) (more : (page rank l count cursor).2 ≠ 0) :
    (∃ a ∈ l, rank a = (page rank l count cursor).2 ∧ cursor < rank a) ∧
      (∀ a ∈ (page rank l count cursor).1, rank a ≤ (page rank l count cursor).2) ∧
      ∀ a ∈ l, cursor < rank a → rank a ≤ (page rank l count cursor).2 → a ∈ (page rank l count cursor).1 := by
  have sortedRest : Increasing rank (rest rank l cursor) := sorted.sublist List.filter_sublist
  unfold page at more ⊢
  dsimp only at more ⊢
  split at more
  · rename_i full
    rw [if_pos full]
    cases last : ((rest rank l cursor).take count).getLast? with
    | none =>
      rw [last] at more
      exact absurd rfl more
    | some a =>
      obtain ⟨mem, behind⟩ := mem_rest.1 (List.mem_of_mem_take (List.mem_of_getLast? last))
      refine ⟨⟨a, mem, rfl, behind⟩, fun b inPage => ?_, fun b inList ahead le => ?_⟩
      · exact le_of_getLast? (sortedRest.sublist (List.take_sublist _ _)) inPage last
      · exact mem_take_of_le sortedRest (mem_rest.2 ⟨inList, ahead⟩) last le
  · exact absurd rfl more

/-- **A page that hands back zero** has everything that was left. -/
theorem page_last (some : 0 < count) (done : (page rank l count cursor).2 = 0) {a : A} (mem : a ∈ l)
    (ahead : cursor < rank a) : a ∈ (page rank l count cursor).1 := by
  have left : a ∈ rest rank l cursor := mem_rest.2 ⟨mem, ahead⟩
  unfold page at done ⊢
  dsimp only at done ⊢
  by_cases full : count ≤ (rest rank l cursor).length
  · rw [if_pos full] at done
    exfalso
    cases last : ((rest rank l cursor).take count).getLast? with
    | none =>
      have empty := List.getLast?_eq_none_iff.1 last
      have length := congrArg List.length empty
      rw [List.length_take, List.length_nil] at length
      omega
    | some b =>
      rw [last] at done
      obtain ⟨-, behind⟩ := mem_rest.1 (List.mem_of_mem_take (List.mem_of_getLast? last))
      have zero : rank b = 0 := done
      omega
  · rwa [List.take_of_length_le (Nat.le_of_not_le full)]

/-! ## A walk -/

/-- A walk, whatever cuts its pages: `cursor i` is what page `i` is asked for with, and a page that hands back a
cursor has everything up to it. -/
structure Walk (rank : A → Nat) (lists : Nat → List A) (cursor : Nat → Nat) (page : Nat → List A) : Prop where
  start : cursor 0 = 0
  sorted : ∀ i, Increasing rank (page i)
  ahead : ∀ i, ∀ a ∈ page i, cursor i < rank a
  full : ∀ i, cursor (i + 1) ≠ 0 →
    (∃ a ∈ lists i, rank a = cursor (i + 1) ∧ cursor i < rank a) ∧ (∀ a ∈ page i, rank a ≤ cursor (i + 1)) ∧
      ∀ a ∈ lists i, cursor i < rank a → rank a ≤ cursor (i + 1) → a ∈ page i

namespace Walk

variable {lists : Nat → List A} {cursor : Nat → Nat} {page : Nat → List A} (walk : Walk rank lists cursor page)

/-- The first `m` pages, one behind the other. -/
def together (page : Nat → List A) (m : Nat) : List A := (List.range m).flatMap page

theorem together_succ (page : Nat → List A) (m : Nat) : together page (m + 1) = together page m ++ page m := by
  simp [together, List.range_succ]

include walk

theorem grows {i : Nat} (more : cursor (i + 1) ≠ 0) : cursor i < cursor (i + 1) := by
  obtain ⟨⟨a, -, is, ahead⟩, -⟩ := walk.full i more
  exact ahead.trans_eq is

/-- **A walk ends**, if the ranks are bounded. -/
theorem ends {bound : Nat} (bounded : ∀ i, ∀ a ∈ lists i, rank a < bound) :
    ∃ m, cursor (m + 1) = 0 ∧ ∀ i < m, cursor (i + 1) ≠ 0 := by
  have ends : ∃ m, cursor (m + 1) = 0 := by
    by_contra! never
    have large (i : Nat) : i ≤ cursor i := by
      induction i with
      | zero => exact Nat.zero_le _
      | succ i ih => exact Nat.succ_le_of_lt (ih.trans_lt (walk.grows (never i)))
    obtain ⟨⟨a, mem, is, -⟩, -⟩ := walk.full bound (never bound)
    have small := bounded bound a mem
    have := large (bound + 1)
    omega
  exact ⟨Nat.find ends, Nat.find_spec ends, fun i before => Nat.find_min ends before⟩

/-- **No element comes twice**: the pages together are in increasing order. -/
theorem increasing_together {m : Nat} (more : ∀ i < m, cursor (i + 1) ≠ 0) :
    Increasing rank (together page m) ∧ ∀ a ∈ together page m, rank a ≤ cursor m := by
  induction m with
  | zero => exact ⟨.nil, nofun⟩
  | succ m ih =>
    obtain ⟨before, below⟩ := ih fun i less => more i (Nat.lt_succ_of_lt less)
    have last := more m (Nat.lt_succ_self m)
    obtain ⟨-, within, -⟩ := walk.full m last
    rw [together_succ]
    refine ⟨List.pairwise_append.2 ⟨before, walk.sorted m, fun a old b new => ?_⟩, fun a mem => ?_⟩
    · exact (below a old).trans_lt (walk.ahead m b new)
    · rcases List.mem_append.1 mem with mem | mem
      · exact (below a mem).trans (walk.grows last).le
      · exact within a mem

theorem increasing_all {m : Nat} (more : ∀ i < m, cursor (i + 1) ≠ 0) : Increasing rank (together page (m + 1)) := by
  obtain ⟨before, below⟩ := walk.increasing_together more
  rw [together_succ]
  exact List.pairwise_append.2 ⟨before, walk.sorted m, fun a old b new => (below a old).trans_lt (walk.ahead m b new)⟩

/-- What is there for every page and not behind the cursor has come. -/
theorem mem_together {m : Nat} (more : ∀ i < m, cursor (i + 1) ≠ 0) {a : A} (positive : 0 < rank a)
    (there : ∀ i < m, a ∈ lists i) (le : rank a ≤ cursor m) : a ∈ together page m := by
  induction m with
  | zero =>
    rw [walk.start] at le
    exact absurd le (Nat.not_le.2 positive)
  | succ m ih =>
    rw [together_succ]
    by_cases old : rank a ≤ cursor m
    · exact List.mem_append_left _ (ih (fun i less => more i (Nat.lt_succ_of_lt less))
        (fun i less => there i (Nat.lt_succ_of_lt less)) old)
    · obtain ⟨-, -, all⟩ := walk.full m (more m (Nat.lt_succ_self m))
      exact List.mem_append_right _ (all a (there m (Nat.lt_succ_self m)) (Nat.lt_of_not_le old) le)

/-- **A walk is complete** if its last page has all that is left. -/
theorem mem_all {m : Nat} (more : ∀ i < m, cursor (i + 1) ≠ 0) (rest : ∀ a ∈ lists m, cursor m < rank a → a ∈ page m)
    {a : A} (positive : 0 < rank a) (there : ∀ i ≤ m, a ∈ lists i) : a ∈ together page (m + 1) := by
  rw [together_succ]
  by_cases old : rank a ≤ cursor m
  · exact List.mem_append_left _ (walk.mem_together more positive (fun i less => there i less.le) old)
  · exact List.mem_append_right _ (rest a (there m le_rfl) (Nat.lt_of_not_le old))

end Walk

section

variable (rank) (lists : Nat → List A) (counts : Nat → Nat)

/-- The cursor that page `i` is asked for with. -/
def cursorAt : Nat → Nat
  | 0 => 0
  | i + 1 => (page rank (lists i) (counts i) (cursorAt i)).2

def pageAt (i : Nat) : List A := (page rank (lists i) (counts i) (cursorAt rank lists counts i)).1

/-- The pages in front of page `m`, one behind the other. -/
def pages (m : Nat) : List A := (List.range m).flatMap (pageAt rank lists counts)

end

variable {lists : Nat → List A} {counts : Nat → Nat}

theorem walk_pageAt (sorted : ∀ i, Increasing rank (lists i)) :
    Walk rank lists (cursorAt rank lists counts) (pageAt rank lists counts) where
  start := rfl
  sorted i := increasing_page (sorted i)
  ahead _ _ mem := (mem_of_mem_page mem).2
  full i more := page_full (sorted i) more

theorem cursorAt_grows (sorted : ∀ i, Increasing rank (lists i)) {i : Nat} (more : cursorAt rank lists counts (i + 1) ≠ 0) :
    cursorAt rank lists counts i < cursorAt rank lists counts (i + 1) :=
  (walk_pageAt sorted).grows more

theorem walk_ends (sorted : ∀ i, Increasing rank (lists i)) {bound : Nat} (bounded : ∀ i, ∀ a ∈ lists i, rank a < bound) :
    ∃ m, cursorAt rank lists counts (m + 1) = 0 ∧ ∀ i < m, cursorAt rank lists counts (i + 1) ≠ 0 :=
  (walk_pageAt sorted).ends bounded

theorem increasing_walk (sorted : ∀ i, Increasing rank (lists i)) {m : Nat}
    (more : ∀ i < m, cursorAt rank lists counts (i + 1) ≠ 0) : Increasing rank (pages rank lists counts (m + 1)) :=
  (walk_pageAt sorted).increasing_all more

/-- **A walk that has ended is complete.** -/
theorem mem_walk (sorted : ∀ i, Increasing rank (lists i)) {m : Nat}
    (more : ∀ i < m, cursorAt rank lists counts (i + 1) ≠ 0) (done : cursorAt rank lists counts (m + 1) = 0)
    (some : 0 < counts m) {a : A} (positive : 0 < rank a) (there : ∀ i ≤ m, a ∈ lists i) :
    a ∈ pages rank lists counts (m + 1) :=
  (walk_pageAt sorted).mem_all more (fun _ mem ahead => page_last some done mem ahead) positive there

end Paging
