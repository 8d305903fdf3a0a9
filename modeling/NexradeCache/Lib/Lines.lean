import Mathlib.Data.List.Forall2
import Mathlib.Data.List.Infix
import Mathlib.Data.List.TakeWhile

/-!
# Lines and separators

The text functions of Rust that a line format is made of, over lists of characters. A line ends with a line feed and
loses one carriage return in front of it; behind the last line feed there is a line only if there is something
(`lines_terminated`).
-/

namespace Lines

def stripCr (l : List Char) : List Char := if l.getLast? = some '\r' then l.dropLast else l

/-- `str::lines` -/
def lines (s : List Char) : List (List Char) :=
  let pieces := s.splitOn '\n'
  let last := pieces.getLastD []
  pieces.dropLast.map stripCr ++ if last = [] then [] else [last]

/-- `str::split_once` with a character. -/
def splitOnce (c : Char) (s : List Char) : Option (List Char × List Char) :=
  if c ∈ s then some (s.takeWhile (· ≠ c), (s.dropWhile (· ≠ c)).tail) else none

/-- What is behind the first place where the text starts with `word`. -/
def behind (word : List Char) : List Char → Option (List Char)
  | [] => if word = [] then some [] else none
  | c :: s => if word <+: c :: s then some ((c :: s).drop word.length) else behind word s

variable {c : Char} {s a b : List Char}

theorem splitOnce_eq_some_iff : splitOnce c s = some (a, b) ↔ s = a ++ c :: b ∧ c ∉ a := by
  constructor
  · intro split
    rw [splitOnce] at split
    split_ifs at split with mem
    cases split
    have clean : c ∉ s.takeWhile (· ≠ c) := fun inside => by simpa using List.mem_takeWhile_imp inside
    refine ⟨?_, clean⟩
    cases tail : s.dropWhile (· ≠ c) with
    | nil =>
      rw [List.dropWhile_eq_nil_iff] at tail
      simpa using tail c mem
    | cons d rest =>
      have head := List.head?_dropWhile_not (fun x => decide (x ≠ c)) s
      rw [tail] at head
      obtain rfl : d = c := by simpa using head
      rw [List.tail_cons, ← tail, List.takeWhile_append_dropWhile]
  · rintro ⟨rfl, clean⟩
    have kept : ∀ x ∈ a, decide (x ≠ c) = true := fun x mem => decide_eq_true fun same => clean (same ▸ mem)
    rw [splitOnce, if_pos (List.mem_append_right a List.mem_cons_self), List.takeWhile_append_of_pos kept,
      List.dropWhile_append_of_pos kept]
    simp

/-- Everything in the text behind a word is in the text. -/
theorem suffix_of_behind {word : List Char} (found : behind word s = some b) : b <:+ s := by
  induction s with
  | nil =>
    rw [behind] at found
    split_ifs at found
    cases found
    exact List.suffix_rfl
  | cons d s ih =>
    rw [behind] at found
    split_ifs at found
    · cases found
      exact List.drop_suffix _ _
    · exact (ih found).trans (List.suffix_cons d s)

/-- A piece has no separator and is part of the text. -/
theorem of_mem_splitOn {piece : List Char} (mem : piece ∈ s.splitOn c) : c ∉ piece ∧ ∀ x ∈ piece, x ∈ s := by
  induction s generalizing piece with
  | nil =>
    rw [List.splitOn_nil, List.mem_singleton] at mem
    subst mem
    exact ⟨List.not_mem_nil, fun x inside => inside⟩
  | cons d s ih =>
    rw [List.splitOn_cons_eq_if_modifyHead] at mem
    split_ifs at mem with sep
    · rcases List.mem_cons.1 mem with rfl | mem
      · exact ⟨List.not_mem_nil, fun x inside => by cases inside⟩
      · obtain ⟨clean, inside⟩ := ih mem
        exact ⟨clean, fun x here => List.mem_cons_of_mem d (inside x here)⟩
    · cases pieces : s.splitOn c with
      | nil => exact absurd pieces (List.splitOn_ne_nil c s)
      | cons first others =>
        rw [pieces, List.modifyHead_cons] at mem
        rcases List.mem_cons.1 mem with rfl | mem
        · obtain ⟨clean, inside⟩ := ih (pieces ▸ List.mem_cons_self)
          refine ⟨fun here => ?_, fun x here => ?_⟩
          · rcases List.mem_cons.1 here with same | here
            · exact sep (beq_iff_eq.2 same.symm)
            · exact clean here
          · rcases List.mem_cons.1 here with rfl | here
            · exact List.mem_cons_self
            · exact List.mem_cons_of_mem d (inside x here)
        · obtain ⟨clean, inside⟩ := ih (pieces ▸ List.mem_cons_of_mem first mem)
          exact ⟨clean, fun x here => List.mem_cons_of_mem d (inside x here)⟩

theorem mem_of_mem_stripCr {x : Char} (mem : x ∈ stripCr s) : x ∈ s := by
  rw [stripCr] at mem
  split at mem
  · exact List.mem_of_mem_dropLast mem
  · exact mem

theorem newline_notMem_lines {l : List Char} (mem : l ∈ lines s) : '\n' ∉ l := by
  rcases List.mem_append.1 mem with mem | mem
  · obtain ⟨piece, inside, rfl⟩ := List.mem_map.1 mem
    exact fun here => (of_mem_splitOn (List.mem_of_mem_dropLast inside)).1 (mem_of_mem_stripCr here)
  · split at mem
    · cases mem
    · rw [List.mem_singleton.1 mem]
      refine (of_mem_splitOn (s := s) ?_).1
      rw [List.getLastD_eq_getLast?, List.getLast?_eq_some_getLast (List.splitOn_ne_nil '\n' s)]
      exact List.getLast_mem _

theorem splitOn_terminated {ls : List (List Char)} (inline : ∀ l ∈ ls, '\n' ∉ l) :
    (ls.flatMap (· ++ ['\n'])).splitOn '\n' = ls ++ [[]] := by
  induction ls with
  | nil => rfl
  | cons l ls ih =>
    rw [List.flatMap_cons, List.append_assoc, List.singleton_append,
      List.splitOn_append_cons_self_of_not_mem (inline l List.mem_cons_self),
      ih fun l' mem => inline l' (List.mem_cons_of_mem l mem), List.cons_append]

/-- The lines of a text that was written line by line. -/
theorem lines_terminated {ls : List (List Char)} (inline : ∀ l ∈ ls, '\n' ∉ l) :
    lines (ls.flatMap (· ++ ['\n'])) = ls.map stripCr := by
  unfold lines
  dsimp only
  rw [splitOn_terminated inline, List.dropLast_concat, List.getLastD_concat, if_pos rfl, List.append_nil]

theorem stripCr_append_cons (a : List Char) (plain : c ≠ '\r') (b : List Char) :
    stripCr (a ++ c :: b) = a ++ c :: stripCr b := by
  cases b using List.reverseRecOn with
  | nil =>
    rw [stripCr, stripCr, List.getLast?_concat]
    simp [plain]
  | append_singleton b d =>
    have last : (a ++ c :: (b ++ [d])).getLast? = some d := by
      rw [← List.cons_append, ← List.append_assoc, List.getLast?_concat]
    rw [stripCr, stripCr, last, List.getLast?_concat]
    split
    · rw [← List.cons_append, ← List.append_assoc, List.dropLast_concat, List.dropLast_concat]
    · rfl

theorem notMem_intercalate {x : Char} {ls : List (List Char)} (other : x ≠ c) (clean : ∀ l ∈ ls, x ∉ l) :
    x ∉ [c].intercalate ls := by
  induction ls with
  | nil => exact List.not_mem_nil
  | cons l ls ih =>
    have rest := ih fun l' mem => clean l' (.tail _ mem)
    cases ls with
    | nil =>
      rw [List.intercalate_singleton]
      exact clean l (.head _)
    | cons l' ls =>
      rw [List.intercalate_cons_cons, List.append_assoc, List.mem_append, List.singleton_append, List.mem_cons]
      rintro (mem | same | mem)
      · exact clean l (.head _) mem
      · exact other same
      · exact rest mem

/-- A list comes back from its pieces joined, where nothing at all stands for the empty list. -/
theorem splitOn_joined {ls : List (List Char)} (clean : ∀ l ∈ ls, c ∉ l) (named : ls ≠ [[]]) :
    (if [c].intercalate ls = [] then [] else ([c].intercalate ls).splitOn c) = ls := by
  by_cases none : ls = []
  · simp [none]
  · have back := List.splitOn_intercalate c clean none
    rw [if_neg, back]
    intro empty
    rw [empty, List.splitOn_nil] at back
    exact named back.symm

/-- Reading item by item succeeds if every item can be read. -/
theorem mapM_eq_some_iff {α β : Type*} {f : α → Option β} {l : List α} {l' : List β} :
    l.mapM f = some l' ↔ List.Forall₂ (fun a b => f a = some b) l l' := by
  induction l generalizing l' with
  | nil => simp [eq_comm]
  | cons a l ih =>
    simp only [List.mapM_cons, Option.bind_eq_bind, Option.bind_eq_some_iff, Option.pure_def, Option.some.injEq]
    constructor
    · rintro ⟨b, read, rest, all, rfl⟩
      exact .cons read (ih.1 all)
    · intro all
      obtain ⟨b, rest, read, others, rfl⟩ := List.forall₂_cons_left_iff.1 all
      exact ⟨b, read, rest, ih.2 others, rfl⟩

theorem exists_of_mem_mapM {α β : Type*} {f : α → Option β} {l : List α} {l' : List β} (read : l.mapM f = some l')
    {b : β} (mem : b ∈ l') : ∃ a ∈ l, f a = some b := by
  have all := mapM_eq_some_iff.1 read
  clear read
  induction all with
  | nil => cases mem
  | cons head _ ih =>
    rcases List.mem_cons.1 mem with rfl | mem
    · exact ⟨_, .head _, head⟩
    · obtain ⟨a, inside, read⟩ := ih mem
      exact ⟨a, .tail _ inside, read⟩

end Lines
