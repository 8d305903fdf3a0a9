import Mathlib.Data.List.Basic

/-!
# Words of a text

`splitWhitespace` cuts a string at its white space and drops the empty pieces. It takes back the
joining of words without white space.
-/

namespace Words

/-- The characters with the Unicode property `White_Space`. -/
def isWhitespace (c : Char) : Bool :=
  (9 ≤ c.toNat && c.toNat ≤ 13) || (0x2000 ≤ c.toNat && c.toNat ≤ 0x200a) ||
    [0x20, 0x85, 0xa0, 0x1680, 0x2028, 0x2029, 0x202f, 0x205f, 0x3000].contains c.toNat

def splitWhitespace (s : String) : List String :=
  ((s.toList.splitOnP isWhitespace).filter (· ≠ [])).map String.ofList

/-- `str::trim`. -/
def trim (s : String) : String :=
  .ofList (((s.toList.dropWhile isWhitespace).reverse.dropWhile isWhitespace).reverse)

/-- There is no white space in the text. -/
def Solid (s : String) : Prop := ∀ c ∈ s.toList, isWhitespace c = false

instance (s : String) : Decidable (Solid s) := List.decidableBAll (isWhitespace · = false) s.toList

theorem Solid.append {s t : String} (left : Solid s) (right : Solid t) : Solid (s ++ t) := by
  intro c mem
  rw [String.toList_append] at mem
  rcases List.mem_append.1 mem with mem | mem
  · exact left c mem
  · exact right c mem

theorem Solid.trim_eq {s : String} (solid : Solid s) : trim s = s := by
  have keep {cs : List Char} (plain : ∀ c ∈ cs, isWhitespace c = false) : cs.dropWhile isWhitespace = cs := by
    cases cs with
    | nil => rfl
    | cons c cs => exact List.dropWhile_cons_of_neg (by simp [plain c (.head _)])
  have back : ∀ c ∈ s.toList.reverse, isWhitespace c = false := fun c mem => solid c (List.mem_reverse.1 mem)
  rw [trim, keep solid, keep back, List.reverse_reverse, String.ofList_toList]

theorem splitOnP_join {words : List String} (solid : ∀ w ∈ words, Solid w) (nonempty : words ≠ []) :
    (" ".intercalate words).toList.splitOnP isWhitespace = words.map String.toList := by
  induction words with
  | nil => exact absurd rfl nonempty
  | cons w words ih =>
    have first : ∀ c ∈ w.toList, isWhitespace c = false := solid w (.head _)
    cases words with
    | nil =>
      rw [String.intercalate_singleton]
      exact List.splitOnP_eq_singleton first
    | cons v words =>
      have rest := ih (fun w mem => solid w (.tail _ mem)) (List.cons_ne_nil _ _)
      have blank : (" " : String).toList = [' '] := by decide
      rw [String.intercalate_cons_cons, String.toList_append, String.toList_append, blank, List.append_assoc,
        List.singleton_append, List.splitOnP_append_cons_of_forall_mem first ' ' (by decide), rest]
      rfl

/-- **Joined words are found again**, less the empty ones. -/
theorem splitWhitespace_join {words : List String} (solid : ∀ w ∈ words, Solid w) (nonempty : words ≠ []) :
    splitWhitespace (" ".intercalate words) = words.filter (· ≠ "") := by
  rw [splitWhitespace, splitOnP_join solid nonempty, List.filter_map, List.map_map]
  have kept : ((fun cs : List Char => decide (cs ≠ [])) ∘ String.toList) = fun w : String => decide (w ≠ "") := by
    funext w
    simp
  have same : String.ofList ∘ String.toList = id := by
    funext w
    exact String.ofList_toList
  rw [kept, same, List.map_id]

end Words
