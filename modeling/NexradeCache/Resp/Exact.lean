import NexradeCache.Resp.Streaming

/-!
# A value is decided by its own bytes

The converse of `parseResp_extends`: what a parser accepts on a buffer it accepts on every prefix that
has the bytes it used up (`parseResp_cut`). So these bytes alone are one value, and nothing else is.
-/

namespace NexradeCache

open Utf8 Decimal Stream

/-- A value that `p` accepts inside `b` does not need what is behind `b`. -/
def Cuts {α : Type} (p : Bytes → ParseResult (α × Nat)) (b x : Bytes) : Prop :=
  ∀ {v n}, p (b ++ x) = .ok (v, n) → n ≤ b.length → p b = .ok (v, n)

variable {b x : Bytes}

/-! ## Lines -/

/-- A line end that lies inside the first part is found there. -/
theorem findCrlf_cut {pos : Nat} (h : findCrlf (b ++ x) = some pos) (inside : pos + 2 ≤ b.length) :
    findCrlf b = some pos := by
  fun_induction findCrlf b generalizing pos with
  | case1 rest => simpa [findCrlf] using h
  | case2 c rest other ih =>
    have step : findCrlf (c :: (rest ++ x)) = (findCrlf (rest ++ x)).map (· + 1) ∨
        findCrlf (c :: (rest ++ x)) = some 0 ∧ c = 13 ∧ (rest ++ x).head? = some 10 := by
      cases rest ++ x with
      | nil => exact .inl (by rw [findCrlf]; rintro more - ⟨⟩)
      | cons d more =>
        by_cases crlf : c = 13 ∧ d = 10
        · obtain ⟨rfl, rfl⟩ := crlf
          exact .inr ⟨rfl, rfl, rfl⟩
        · refine .inl ?_
          rw [findCrlf]
          intro rest' hc hd
          exact crlf ⟨hc, (List.cons.inj hd).1⟩
    rw [List.cons_append] at h
    rw [List.length_cons] at inside
    rcases step with step | ⟨step, rfl, first⟩
    · rw [step] at h
      obtain ⟨p, found, rfl⟩ := Option.map_eq_some_iff.1 h
      rw [ih found (by omega)]
      rfl
    · rw [step] at h
      obtain rfl := Option.some.inj h
      cases rest with
      | nil => simp at inside
      | cons d rest => exact (other rest rfl (by rw [Option.some.inj first])).elim
  | case3 => simp at inside

theorem parseLine_cuts (b x : Bytes) : Cuts parseLine b x := by
  intro v n h inside
  rw [parseLine] at h
  split at h
  · rename_i pos found
    cases h
    have same : (b ++ x).take pos = b.take pos := List.take_append_of_le_length (by omega)
    rw [parseLine, findCrlf_cut found inside, same]
  · cases h

/-- A line that is read as a number, a float or a truth value. -/
theorem parseField_cuts {α : Type} {encoding : String} {text : String → String} {parse : String → Option α}
    (b x : Bytes) : Cuts (parseField encoding text parse) b x := by
  intro v n h inside
  obtain ⟨⟨line, m⟩, read, h⟩ := bind_eq_ok h
  have used : m = n := by
    obtain ⟨s, -, h⟩ := bind_eq_ok h
    obtain ⟨a, -, h⟩ := bind_eq_ok h
    cases h
    rfl
  rw [parseField, parseLine_cuts b x read (used ▸ inside)]
  exact h

/-- A parser that only changes the value of another one. -/
theorem cuts_map {α β : Type} {p : Bytes → ParseResult (α × Nat)} {f : α → β} (cuts : Cuts p b x) :
    Cuts (fun b => do let (a, n) ← p b; return (f a, n)) b x := by
  intro v n h inside
  obtain ⟨⟨a, m⟩, read, h⟩ := bind_eq_ok h
  cases h
  simp only [cuts read inside]
  rfl

/-! ## Leaves -/

/-- A bulk string is read from its own bytes only. -/
theorem parseBulkString_cuts (b x : Bytes) : Cuts parseBulkString b x := by
  intro v n h inside
  obtain ⟨⟨len, header⟩, read, h⟩ := bind_eq_ok h
  dsimp only at h
  split_ifs at h with null negative long short bad
  · cases h
    rw [parseBulkString, parseField_cuts b x read inside]
    simp [bind, Except.bind, pure, Except.pure, null]
  · cases h
    have fits : ¬ b.length < header + len.toInt.toNat + 2 := by omega
    rw [slice_append (by omega)] at bad
    rw [parseBulkString, parseField_cuts b x read (by omega), slice_append (by omega)]
    simp only [bind, Except.bind, null, negative, long, fits, bad, if_false]
    rfl

/-- The null of RESP3, a type byte and a line end. -/
theorem parseResp3Null_cuts (b x : Bytes) : Cuts parseResp3Null b x := by
  intro v n h inside
  rw [parseResp3Null] at h
  split_ifs at h with short bad
  cases h
  rw [slice_append (by omega)] at bad
  rw [parseResp3Null, if_neg (by omega), if_neg bad]

theorem parseResp3Bool_cuts (b x : Bytes) : Cuts parseResp3Bool b x := by
  intro v n h inside
  rw [parseResp3Bool] at h
  by_cases short : (b ++ x).length < 4
  · rw [if_pos short] at h; cases h
  rw [if_neg short] at h
  obtain ⟨val, read, h⟩ := bind_eq_ok h
  split_ifs at h with bad
  cases h
  have second : (b ++ x).getD 1 0 = b.getD 1 0 := by
    rw [List.getD_eq_getElem?_getD, List.getElem?_append_left (by omega), ← List.getD_eq_getElem?_getD]
  rw [slice_append (by omega)] at bad
  rw [second] at read
  rw [parseResp3Bool, if_neg (by omega), read]
  simp only [bind, Except.bind, bad, if_false]
  rfl

/-- A request without a type byte is one line. -/
theorem parseInline_cuts (b x : Bytes) : Cuts parseInline b x := by
  intro v n h inside
  rw [parseInline] at h
  split at h
  · cases h
  · rename_i pos found
    obtain ⟨parts, read, h⟩ := bind_eq_ok h
    split_ifs at h with empty
    cases h
    have same : (b ++ x).take pos = b.take pos := List.take_append_of_le_length (by omega)
    rw [same] at read
    rw [parseInline, findCrlf_cut found inside]
    simp only [read, bind, Except.bind, empty, Bool.false_eq_true, if_false]
    rfl

/-! ## Aggregates -/

section Nested

variable {parse : Bytes → ParseResult (Resp × Nat)}

/-- The elements of an array, by induction on how many are left. An element that ends inside the first part is read
from there. -/
theorem parseItems_cuts {n offset last : Nat} {items : List Resp}
    (within : ∀ lo, offset ≤ lo → Within parse ((b ++ x).drop lo))
    (nested : ∀ lo, offset ≤ lo → Cuts parse (b.drop lo) x) (start : offset ≤ b.length)
    (h : parseItems parse (b ++ x) n offset = .ok (items, last)) (inside : last ≤ b.length) :
    parseItems parse b n offset = .ok (items, last) := by
  induction n generalizing offset items with
  | zero => exact h
  | succ n ih =>
    obtain ⟨⟨item, used⟩, first, h⟩ := bind_eq_ok h
    obtain ⟨⟨rest, end'⟩, more, h⟩ := bind_eq_ok h
    cases h
    have used_le := within offset (Nat.le_refl _) first
    rw [List.length_drop] at used_le
    have forward := parseItems_within (by omega) (fun lo le => within lo (by omega)) more
    rw [List.drop_append_of_le_length start] at first
    have here := nested offset (Nat.le_refl _) first (by rw [List.length_drop]; omega)
    have later := ih (fun lo le => within lo (by omega)) (fun lo le => nested lo (by omega)) (by omega) more
    rw [parseItems, here]
    simp only [bind, Except.bind, later]
    rfl

/-- The pairs of a map, by the same induction. -/
theorem parsePairs_cuts {n offset last : Nat} {pairs : List (Resp × Resp)}
    (within : ∀ lo, offset ≤ lo → Within parse ((b ++ x).drop lo))
    (nested : ∀ lo, offset ≤ lo → Cuts parse (b.drop lo) x) (start : offset ≤ b.length)
    (h : parsePairs parse (b ++ x) n offset = .ok (pairs, last)) (inside : last ≤ b.length) :
    parsePairs parse b n offset = .ok (pairs, last) := by
  rw [parsePairs_eq] at h ⊢
  obtain ⟨⟨items, end'⟩, read, h⟩ := bind_eq_ok h
  cases h
  rw [parseItems_cuts within nested start read inside]
  rfl

/-- The line that says how many elements follow. -/
theorem parseCount_cuts (name : String) (b x : Bytes) : Cuts (parseCount name) b x := by
  intro v n h inside
  obtain ⟨⟨count, header⟩, read, h⟩ := bind_eq_ok h
  dsimp only at h
  split_ifs at h with long
  cases h
  rw [parseCount, parseField_cuts b x read inside]
  simp only [bind, Except.bind, long, if_false]
  rfl

/-- What a nested parser owes on the buffers behind a header. -/
structure NestedCuts (parse : Bytes → ParseResult (Resp × Nat)) (b x : Bytes) : Prop where
  within : ∀ lo, 0 < lo → Within parse ((b ++ x).drop lo)
  cuts : ∀ lo, 0 < lo → Cuts parse (b.drop lo) x

variable (nested : NestedCuts parse b x)
include nested

/-- An array, the null array among them. -/
theorem parseArray_cuts : Cuts (parseArray parse) b x := by
  intro v n h inside
  obtain ⟨⟨len, header⟩, read, h⟩ := bind_eq_ok h
  have start := parseField_within _ read
  dsimp only at h
  split_ifs at h with null negative long
  · cases h
    rw [parseArray, parseField_cuts b x read inside]
    simp only [bind, Except.bind, null, if_true]
    rfl
  · obtain ⟨⟨items, last⟩, more, h⟩ := bind_eq_ok h
    cases h
    have forward := parseItems_within start.2 (fun lo le => nested.within lo (by omega)) more
    have here := parseItems_cuts (fun lo le => nested.within lo (by omega)) (fun lo le => nested.cuts lo (by omega))
      (by omega) more inside
    rw [parseArray, parseField_cuts b x read (by omega)]
    simp only [bind, Except.bind, null, negative, long, if_false, here]
    rfl

theorem parseResp3Map_cuts : Cuts (parseResp3Map parse) b x := by
  intro v n h inside
  obtain ⟨⟨count, header⟩, read, h⟩ := bind_eq_ok h
  obtain ⟨⟨pairs, last⟩, more, h⟩ := bind_eq_ok h
  cases h
  have start := parseCount_within "map" _ read
  have forward := parsePairs_within start.2 (fun lo le => nested.within lo (by omega)) more
  have here := parsePairs_cuts (fun lo le => nested.within lo (by omega)) (fun lo le => nested.cuts lo (by omega))
    (by omega) more inside
  rw [parseResp3Map, parseCount_cuts "map" b x read (by omega)]
  simp only [bind, Except.bind, here]
  rfl

theorem parseCounted_cuts (name : String) (build : List Resp → Resp) : Cuts (parseCounted parse name build) b x := by
  intro v n h inside
  obtain ⟨⟨count, header⟩, read, h⟩ := bind_eq_ok h
  obtain ⟨⟨items, last⟩, more, h⟩ := bind_eq_ok h
  cases h
  have start := parseCount_within name _ read
  have forward := parseItems_within start.2 (fun lo le => nested.within lo (by omega)) more
  have here := parseItems_cuts (fun lo le => nested.within lo (by omega)) (fun lo le => nested.cuts lo (by omega))
    (by omega) more inside
  rw [parseCounted, parseCount_cuts name b x read (by omega)]
  simp only [bind, Except.bind, here]
  rfl

end Nested

/-! ## Dispatch -/

section Dispatch

variable {parseF64 : String → Option F64} {parse : Bytes → ParseResult (Resp × Nat)}

/-- One frame of any type, given the same for the frames inside it. -/
theorem parseWith_cuts (nested : NestedCuts parse b x) : Cuts (parseWith parseF64 parse) b x := by
  intro v n h inside
  cases b with
  | nil =>
    have positive := (parseWith_within ⟨fun lo pos => ?_, fun _ _ => .inr (by rw [List.append_nil])⟩ h).1
    · simp at inside
      omega
    · exact nested.within lo pos
  | cons tag b =>
    rw [List.cons_append] at h
    unfold parseWith at h ⊢
    dsimp only at h ⊢
    split at h
    · exact cuts_map (f := fun line => Resp.simpleString (fromUtf8Lossy line)) (parseLine_cuts _ x) h inside
    · exact cuts_map (f := fun line => Resp.error (fromUtf8Lossy line)) (parseLine_cuts _ x) h inside
    · exact cuts_map (parseField_cuts _ x) h inside
    · exact parseBulkString_cuts _ x h inside
    · exact parseArray_cuts nested h inside
    · exact parseResp3Null_cuts _ x h inside
    · exact parseResp3Bool_cuts _ x h inside
    · exact cuts_map (parseField_cuts _ x) h inside
    · exact parseResp3Map_cuts nested h inside
    · exact parseCounted_cuts nested "set" .set h inside
    · exact parseCounted_cuts nested "push" .push h inside
    · exact parseInline_cuts _ x h inside

/-- Frames of bounded depth, by induction on the bound. -/
theorem parseFor_cuts (k : Nat) (b x : Bytes) : Cuts (parseFor parseF64 k) b x := by
  induction k generalizing b with
  | zero =>
    intro v n h
    cases h
  | succ k ih => exact parseWith_cuts ⟨fun lo _ => parseFor_within k _, fun lo _ => ih _⟩

/-- **What is behind a value is not needed to accept it.** -/
theorem parseResp_cut {v : Resp} {n : Nat} (h : parseResp parseF64 (b ++ x) = .ok (v, n)) (inside : n ≤ b.length) :
    parseResp parseF64 b = .ok (v, n) := by
  have depth : parseResp parseF64 b = parseFor parseF64 ((b ++ x).length + 1) b :=
    parseFor_congr (Nat.lt_succ_self _) (by rw [List.length_append]; omega)
  rw [depth]
  exact parseFor_cuts _ b x h inside

end Dispatch

end NexradeCache
