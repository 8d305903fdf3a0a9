import NexradeCache.Resp.RoundTrip

/-!
# Frames on the wire

`IsFrame` is the grammar of RESP2 and RESP3 frames, without limits on sizes. No frame is a proper part of the
front of another (`IsFrame.unique`), so a reader that takes frames off a stream never has a choice. What the
writer sends for a value is one frame as long as no text of a simple string or an error in it has a line end
(`frame_isFrame`); the writer does not look.
-/

namespace NexradeCache

open Utf8 Decimal

/-- No line end in it. -/
def Inline (b : Bytes) : Prop := ¬ crlf <:+: b

instance (b : Bytes) : Decidable (Inline b) := inferInstanceAs (Decidable (¬ crlf <:+: b))

/-! ## The grammar -/

namespace Tag

/-- The frames that are one line. -/
def lines : List UInt8 := [simpleString, error, integer, null, bool, double]

/-- The frames that have others in them, and how many for one that is counted. -/
def aggregates : List (UInt8 × Nat) := [(array, 1), (map, 2), (set, 1), (push, 1)]

theorem aggregates_other {tag : UInt8} {width : Nat} (kind : (tag, width) ∈ aggregates) :
    tag ∉ lines ∧ tag ≠ bulkString := by
  simp only [aggregates, List.mem_cons, List.not_mem_nil, or_false, Prod.mk.injEq] at kind
  rcases kind with ⟨rfl, -⟩ | ⟨rfl, -⟩ | ⟨rfl, -⟩ | ⟨rfl, -⟩ <;> decide

theorem aggregates_width {tag : UInt8} {width width' : Nat} (kind : (tag, width) ∈ aggregates)
    (kind' : (tag, width') ∈ aggregates) : width = width' := by
  simp only [aggregates, List.mem_cons, List.not_mem_nil, or_false, Prod.mk.injEq] at kind kind'
  rcases kind with ⟨rfl, rfl⟩ | ⟨rfl, rfl⟩ | ⟨rfl, rfl⟩ | ⟨rfl, rfl⟩ <;>
    rcases kind' with ⟨same, rfl⟩ | ⟨same, rfl⟩ | ⟨same, rfl⟩ | ⟨same, rfl⟩ <;>
    first | rfl | exact absurd same (by decide)

end Tag

/-- The grammar of the protocol, whatever the parser does: a line, a null, a bulk string, or an aggregate of frames.
Counts and lengths are spelled in digits. -/
inductive IsFrame : Bytes → Prop where
  | line {tag : UInt8} {text : Bytes} (kind : tag ∈ Tag.lines) (inline : Inline text) : IsFrame (line tag text)
  | nothing {tag : UInt8} (kind : tag = Tag.bulkString ∨ tag = Tag.array) : IsFrame (NexradeCache.line tag [45, 49])
  | bulk (data : Bytes) : IsFrame (NexradeCache.line Tag.bulkString (numeral data.length) ++ (data ++ crlf))
  | aggregate {tag : UInt8} {width n : Nat} {items : List Bytes} (kind : (tag, width) ∈ Tag.aggregates)
      (count : items.length = width * n) (each : ∀ f ∈ items, IsFrame f) :
      IsFrame (NexradeCache.line tag (numeral n) ++ items.flatten)

/-- The bytes are one frame, and nothing shorter in front of them is one. -/
def OneFrame (b : Bytes) : Prop := IsFrame b ∧ ∀ a, IsFrame a → a <+: b → a = b

/-! ## Headers -/

theorem inline_iff {b : Bytes} : Inline b ↔ findCrlf b = none := findCrlf_eq_none_iff.symm

theorem inline_of_not_mem {b : Bytes} (absent : (13 : UInt8) ∉ b) : Inline b :=
  inline_iff.2 (findCrlf_of_not_mem absent)

@[simp] theorem inline_nil : Inline [] := by decide

theorem inline_cons {c : UInt8} {b : Bytes} : Inline (c :: b) ↔ ¬ (c = 13 ∧ b.head? = some 10) ∧ Inline b := by
  rw [Inline, List.infix_cons_iff, not_or, Inline]
  refine and_congr_left fun _ => not_congr ?_
  rw [crlf, List.cons_prefix_cons, List.cons_prefix_iff]
  simp [eq_comm, List.head?_eq_some_iff]

theorem inline_append {a b : Bytes} :
    Inline (a ++ b) ↔ Inline a ∧ Inline b ∧ ¬ (a.getLast? = some 13 ∧ b.head? = some 10) := by
  induction a with
  | nil => simp
  | cons c a ih =>
    rw [List.cons_append, inline_cons, ih, inline_cons]
    cases a with
    | nil => simp; tauto
    | cons d a => simp; tauto

theorem inline_numeral (n : Nat) : Inline (numeral n) :=
  inline_of_not_mem ((isNumeral_numeral n).not_mem (by decide))

theorem numeral_injective {n m : Nat} (same : numeral n = numeral m) : n = m := by
  have value := congrArg (value 0) same
  rw [value_numeral, value_numeral] at value
  exact Option.some.inj value

theorem numeral_ne_minus (n : Nat) : numeral n ≠ [45, 49] := by
  intro same
  exact (isNumeral_numeral n).not_mem (x := 45) (by decide) (by rw [same]; simp)

theorem line_inj {tag tag' : UInt8} {text text' x y : Bytes} (inline : Inline text) (inline' : Inline text')
    (same : line tag text ++ x = line tag' text' ++ y) : tag = tag' ∧ text = text' ∧ x = y := by
  simp only [line, List.append_assoc, List.singleton_append] at same
  obtain ⟨rfl, (texts : text ++ (crlf ++ x) = text' ++ (crlf ++ y))⟩ := List.cons.inj same
  have length : text.length = text'.length := by
    have found := findCrlf_text (inline_iff.1 inline) x
    rw [texts, findCrlf_text (inline_iff.1 inline') y] at found
    exact (Option.some.inj found).symm
  obtain ⟨rfl, behind⟩ := List.append_inj texts length
  exact ⟨rfl, rfl, List.append_cancel_left behind⟩

/-! ## One frame in front -/

/-- Frames one after the other, as many on both sides. -/
theorem flatten_unique {items items' : List Bytes} {x y : Bytes}
    (each : ∀ f ∈ items, ∀ b, IsFrame b → ∀ x y, f ++ x = b ++ y → f = b ∧ x = y) (frames : ∀ f ∈ items', IsFrame f)
    (length : items.length = items'.length) (same : items.flatten ++ x = items'.flatten ++ y) :
    items = items' ∧ x = y := by
  induction items generalizing items' with
  | nil =>
    cases items' with
    | nil => exact ⟨rfl, same⟩
    | cons f items' => cases length
  | cons f items ih =>
    cases items' with
    | nil => cases length
    | cons f' items' =>
      simp only [List.flatten_cons, List.append_assoc] at same
      obtain ⟨rfl, behind⟩ := each f (by simp) f' (frames f' (by simp)) _ _ same
      obtain ⟨rfl, rest⟩ := ih (fun g mem => each g (List.mem_cons_of_mem _ mem))
        (fun g mem => frames g (List.mem_cons_of_mem _ mem)) (by simpa using length) behind
      exact ⟨rfl, rest⟩

/-- **A frame is the only one that a stream starts with.** -/
theorem IsFrame.unique {a b : Bytes} (ha : IsFrame a) (hb : IsFrame b) {x y : Bytes} (same : a ++ x = b ++ y) :
    a = b ∧ x = y := by
  have minus : Inline [45, 49] := by decide
  induction ha generalizing b x y with
  | line kind inline =>
    cases hb with
    | line kind' inline' =>
      obtain ⟨rfl, rfl, rest⟩ := line_inj inline inline' same
      exact ⟨rfl, rest⟩
    | nothing kind' =>
      obtain ⟨rfl, -, -⟩ := line_inj inline minus same
      rcases kind' with rfl | rfl <;> exact absurd kind (by decide)
    | bulk data =>
      rw [List.append_assoc (NexradeCache.line _ _)] at same
      obtain ⟨rfl, -, -⟩ := line_inj inline (inline_numeral _) same
      exact absurd kind (by decide)
    | aggregate kind' =>
      rw [List.append_assoc (NexradeCache.line _ _)] at same
      obtain ⟨rfl, -, -⟩ := line_inj inline (inline_numeral _) same
      exact absurd kind (Tag.aggregates_other kind').1
  | nothing kind =>
    cases hb with
    | line kind' inline' =>
      obtain ⟨rfl, -, -⟩ := line_inj minus inline' same
      rcases kind with rfl | rfl <;> exact absurd kind' (by decide)
    | nothing kind' =>
      obtain ⟨rfl, -, rest⟩ := line_inj minus minus same
      exact ⟨rfl, rest⟩
    | bulk data =>
      rw [List.append_assoc (NexradeCache.line _ _)] at same
      obtain ⟨-, text, -⟩ := line_inj minus (inline_numeral _) same
      exact absurd text.symm (numeral_ne_minus _)
    | aggregate =>
      rw [List.append_assoc (NexradeCache.line _ _)] at same
      obtain ⟨-, text, -⟩ := line_inj minus (inline_numeral _) same
      exact absurd text.symm (numeral_ne_minus _)
  | bulk data =>
    rw [List.append_assoc (NexradeCache.line _ _)] at same
    cases hb with
    | line kind' inline' =>
      obtain ⟨rfl, -, -⟩ := line_inj (inline_numeral _) inline' same
      exact absurd kind' (by decide)
    | nothing =>
      obtain ⟨-, text, -⟩ := line_inj (inline_numeral _) minus same
      exact absurd text (numeral_ne_minus _)
    | bulk data' =>
      rw [List.append_assoc (NexradeCache.line _ (numeral data'.length))] at same
      obtain ⟨-, text, rest⟩ := line_inj (inline_numeral _) (inline_numeral _) same
      simp only [List.append_assoc] at rest
      obtain ⟨rfl, behind⟩ := List.append_inj rest (numeral_injective text)
      exact ⟨rfl, List.append_cancel_left behind⟩
    | aggregate kind' =>
      rw [List.append_assoc (NexradeCache.line _ (numeral _)) (List.flatten _)] at same
      obtain ⟨rfl, -, -⟩ := line_inj (inline_numeral _) (inline_numeral _) same
      exact absurd rfl (Tag.aggregates_other kind').2
  | aggregate kind count each ih =>
    rw [List.append_assoc (NexradeCache.line _ _)] at same
    cases hb with
    | line kind' inline' =>
      obtain ⟨rfl, -, -⟩ := line_inj (inline_numeral _) inline' same
      exact absurd kind' (Tag.aggregates_other kind).1
    | nothing =>
      obtain ⟨-, text, -⟩ := line_inj (inline_numeral _) minus same
      exact absurd text (numeral_ne_minus _)
    | bulk data =>
      rw [List.append_assoc (NexradeCache.line _ (numeral data.length))] at same
      obtain ⟨rfl, -, -⟩ := line_inj (inline_numeral _) (inline_numeral _) same
      exact absurd rfl (Tag.aggregates_other kind).2
    | @aggregate tag' width' m items' kind' count' each' =>
      rw [List.append_assoc (NexradeCache.line tag' _)] at same
      obtain ⟨rfl, text, rest⟩ := line_inj (inline_numeral _) (inline_numeral _) same
      obtain rfl := numeral_injective text
      obtain rfl := Tag.aggregates_width kind kind'
      obtain ⟨rfl, behind⟩ := flatten_unique (fun f mem b hb x y => ih f mem hb) each' (count.trans count'.symm) rest
      exact ⟨rfl, behind⟩

theorem IsFrame.oneFrame {b : Bytes} (h : IsFrame b) : OneFrame b := by
  refine ⟨h, fun a ha front => ?_⟩
  obtain ⟨t, rfl⟩ := front
  exact (ha.unique h (x := t) (y := []) (by simp)).1

theorem exists_first {b : Bytes} (cut : ¬ Inline b) : ∃ a t, b = a ++ (crlf ++ t) ∧ Inline a := by
  simp only [inline_iff] at cut ⊢
  fun_induction findCrlf b with
  | case1 rest => exact ⟨[], rest, rfl, rfl⟩
  | case2 c rest other ih =>
    obtain ⟨a, t, rfl, absent⟩ := ih (by simpa using cut)
    refine ⟨c :: a, t, rfl, ?_⟩
    rw [findCrlf, absent]
    · rfl
    · rintro more rfl rfl
      exact other (more ++ (crlf ++ t)) rfl rfl
  | case3 => exact absurd rfl cut

/-- A line that has a line end in its text is cut there. -/
theorem oneFrame_line_iff {tag : UInt8} (kind : tag ∈ Tag.lines) {text : Bytes} :
    OneFrame (line tag text) ↔ Inline text := by
  constructor
  · intro one
    by_contra cut
    obtain ⟨a, t, rfl, inline⟩ := exists_first cut
    have short := one.2 (line tag a) (.line kind inline) ⟨t ++ crlf, by simp [line]⟩
    have length := congrArg List.length short
    simp only [line, crlf, List.length_append, List.length_cons, List.length_nil] at length
    omega
  · exact fun inline => (IsFrame.line kind inline).oneFrame

/-! ## What the writer sends -/

namespace Resp

/-- A text that is sent as a line is one, and bytes that are sent as they are are a frame. -/
def Whole : Resp → Prop
  | .simpleString s => Inline (asBytes s)
  | .error s => Inline (asBytes s)
  | .raw bytes => IsFrame bytes
  | _ => True

variable {fmt : Fmt} {version : UInt8}

theorem inline_putI64 (n : Int64) : Inline (putI64 n) := by
  apply inline_of_not_mem
  unfold putI64
  simp only
  have digits : ∀ v, (13 : UInt8) ∉ fill 20 v [] := fun v mem => by
    cases isDigit_of_mem_fill mem with
    | inl digit => revert digit; decide
    | inr mem => cases mem
  split_ifs <;> simp [digits]

theorem isFrame_bulk (decimal : fmt.Decimal) (data : Bytes) :
    IsFrame (line Tag.bulkString (putUsize fmt data.length) ++ data ++ crlf) := by
  rw [putUsize, decimal, List.append_assoc]
  exact .bulk data

theorem isFrame_items (decimal : fmt.Decimal) {tag : UInt8} (width : Nat) {n : Nat}
    (kind : (tag, width) ∈ Tag.aggregates) {items : List Resp} (count : items.length = width * n) (each : ∀ c ∈ items, IsFrame (c.frame fmt version)) :
    IsFrame (line tag (putUsize fmt n) ++ items.flatMap (frame fmt version)) := by
  rw [putUsize, decimal, List.flatMap]
  refine .aggregate kind (by rw [List.length_map, count]) ?_
  intro f mem
  obtain ⟨c, here, rfl⟩ := List.mem_map.1 mem
  exact each c here

/-- What LRANGE serialises under the lock. -/
def writeBulkArrayInto (fmt : Fmt) (elems : List Bytes) : Bytes :=
  line Tag.array (putUsize fmt elems.length) ++
    elems.flatMap fun data => line Tag.bulkString (putUsize fmt data.length) ++ data ++ crlf

/-- **What is whole is sent as one frame.** -/
theorem Everywhere.isFrame (decimal : fmt.Decimal) (floats : ∀ d, Inline (fmt.float d)) {v : Resp}
    (whole : v.Everywhere Whole) : IsFrame (v.frame fmt version) := by
  have nothing3 : IsFrame (asBytes "_\r\n") := .line (show Tag.null ∈ Tag.lines by decide) inline_nil
  induction whole with
  | @intro v here nested ih =>
    rw [frame_eq]
    cases v with
    | simpleString s => simpa [head, children] using IsFrame.line (show Tag.simpleString ∈ Tag.lines by decide) here
    | error s => simpa [head, children] using IsFrame.line (show Tag.error ∈ Tag.lines by decide) here
    | integer n => simpa [head, children] using IsFrame.line (show Tag.integer ∈ Tag.lines by decide) (inline_putI64 n)
    | bulkString data =>
      cases data with
      | none =>
        simp only [head, children, List.flatMap_nil, List.append_nil]
        split
        · exact nothing3
        · exact .nothing (.inl rfl)
      | some data => simpa [head, children] using isFrame_bulk decimal data
    | array items =>
      cases items with
      | none =>
        simp only [head, children, List.flatMap_nil, List.append_nil]
        split
        · exact nothing3
        · exact .nothing (.inr rfl)
      | some items => exact isFrame_items decimal 1 (by decide) (by simp [children]) ih
    | null => simpa [head, children] using nothing3
    | bool b =>
      simp only [head, children, List.flatMap_nil, List.append_nil]
      split
      · exact .line (by decide) (by cases b <;> decide)
      · exact .line (by decide) (by cases b <;> decide)
    | double d =>
      simp only [head, children, List.flatMap_nil, List.append_nil]
      split
      · exact .line (by decide) (floats d)
      · exact isFrame_bulk decimal (fmt.float d)
    | map pairs =>
      have count := length_flatPairs pairs
      rw [head]
      split
      · exact isFrame_items decimal 2 (by decide) count ih
      · exact isFrame_items decimal 1 (by decide) (by rw [children, count]; omega) ih
    | set items =>
      rw [head]
      split <;> exact isFrame_items decimal 1 (by decide) (by simp [children]) ih
    | push items =>
      rw [head]
      split <;> exact isFrame_items decimal 1 (by decide) (by simp [children]) ih
    | raw bytes =>
      simp only [head, children, List.flatMap_nil, List.append_nil]
      exact here

end Resp

end NexradeCache
