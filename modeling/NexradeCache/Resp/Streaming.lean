import NexradeCache.Resp.Parse

/-!
# Parsing a stream in pieces

Every parser of `resp.rs` is monotone in the prefix order: an answer other than `Incomplete` is
the answer on every extension of the buffer (`parseResp_append`), and an accepted value uses up at
least one byte and at most the buffer (`parseResp_within`). Both go by the parsers' own recursion,
over the shorter buffers nested values are read from.

`RespParser` is then a steady decoder in the sense of `Stream`, and reading does not depend on how
the bytes arrive.
-/

namespace NexradeCache

open Utf8 Decimal Stream

/-! ## Lines -/

theorem findCrlf_append {b : Bytes} {pos : Nat} (h : findCrlf b = some pos) (x : Bytes) :
    findCrlf (b ++ x) = some pos := by
  fun_induction findCrlf b generalizing pos with
  | case1 rest => simpa [findCrlf] using h
  | case2 c rest other ih =>
    obtain ⟨p, hp, rfl⟩ := Option.map_eq_some_iff.1 h
    have here : findCrlf (c :: (rest ++ x)) = (findCrlf (rest ++ x)).map (· + 1) := by
      rw [findCrlf]
      intro more hc hr
      cases rest with
      | nil => cases hp
      | cons d rest => exact other rest hc (by rw [(List.cons.inj hr).1])
    rw [List.cons_append, here, ih hp]
    rfl
  | case3 => cases h

theorem findCrlf_within {b : Bytes} {pos : Nat} (h : findCrlf b = some pos) :
    pos + 2 ≤ b.length := by
  fun_induction findCrlf b generalizing pos with
  | case1 rest => cases h; simp
  | case2 c rest other ih =>
    obtain ⟨p, hp, rfl⟩ := Option.map_eq_some_iff.1 h
    have rest := ih hp
    rw [List.length_cons]
    omega
  | case3 => cases h

/-- The answer of `p` on `b` is its answer behind more bytes. -/
def Extends {α : Type} (p : Bytes → ParseResult α) (b x : Bytes) : Prop := Below (p b) (p (b ++ x))

/-- An accepted value uses up at least one byte of `b` and at most all. -/
def Within {α : Type} (p : Bytes → ParseResult (α × Nat)) (b : Bytes) : Prop :=
  ∀ {v n}, p b = .ok (v, n) → 0 < n ∧ n ≤ b.length

variable {b x : Bytes}

/-- A line that is complete is the same line when bytes follow. -/
theorem parseLine_extends (b x : Bytes) : Extends parseLine b x := by
  cases h : findCrlf b with
  | none => exact .inl (by rw [parseLine, h])
  | some pos =>
    refine .inr ?_
    have within := findCrlf_within h
    have same : (b ++ x).take pos = b.take pos := List.take_append_of_le_length (by omega)
    simp only [parseLine, h, findCrlf_append h, same]

theorem parseLine_within (b : Bytes) : Within parseLine b := by
  intro v n h
  rw [parseLine] at h
  split at h
  · rename_i pos found
    have within := findCrlf_within found
    cases h
    omega
  · cases h

section Field

variable {α : Type} {encoding : String} {text : String → String} {parse : String → Option α}

theorem parseField_extends (b x : Bytes) : Extends (parseField encoding text parse) b x :=
  (parseLine_extends b x).bind fun _ _ => .refl _

theorem parseField_within (b : Bytes) : Within (parseField encoding text parse) b := by
  intro v n h
  obtain ⟨⟨line, m⟩, read, h⟩ := bind_eq_ok h
  obtain ⟨s, -, h⟩ := bind_eq_ok h
  obtain ⟨a, -, h⟩ := bind_eq_ok h
  cases h
  exact parseLine_within b read

end Field

/-- A parser that only changes the value of another one. -/
theorem within_map {α β : Type} {p : Bytes → ParseResult (α × Nat)} {f : α → β}
    (within : Within p b) {v : β} {n : Nat}
    (h : (do let (a, n) ← p b; return (f a, n)) = (.ok (v, n) : ParseResult (β × Nat))) :
    0 < n ∧ n ≤ b.length := by
  obtain ⟨⟨a, m⟩, read, h⟩ := bind_eq_ok h
  cases h
  exact within read

/-! ## Leaves -/

theorem slice_append {lo n : Nat} (inside : lo + n ≤ b.length) (x : Bytes) :
    ((b ++ x).drop lo).take n = (b.drop lo).take n := by
  rw [List.drop_append_of_le_length (by omega),
    List.take_append_of_le_length (by rw [List.length_drop]; omega)]

theorem parseBulkString_extends (b x : Bytes) : Extends parseBulkString b x := by
  refine (parseField_extends b x).bind ?_
  rintro ⟨len, header⟩ -
  dsimp only
  by_cases null : len = -1
  · rw [if_pos null, if_pos null]; exact .refl _
  by_cases negative : len < 0
  · rw [if_neg null, if_neg null, if_pos negative, if_pos negative]; exact .refl _
  by_cases long : len.toInt.toNat > MAX_BULK_LEN
  · simp only [null, negative, long, if_true, if_false]; exact .refl _
  by_cases short : b.length < header + len.toInt.toNat + 2
  · simp only [null, negative, long, short, if_true, if_false]; exact .incomplete _
  · have short' : ¬ (b ++ x).length < header + len.toInt.toNat + 2 := by
      rw [List.length_append]; omega
    rw [slice_append (by omega), slice_append (by omega)]
    simp only [null, negative, long, short, short', if_false]
    exact .refl _

theorem parseBulkString_within (b : Bytes) : Within parseBulkString b := by
  intro v n h
  obtain ⟨⟨len, header⟩, read, h⟩ := bind_eq_ok h
  have within := parseField_within b read
  dsimp only at h
  split_ifs at h with null negative long short bad
  · cases h; exact within
  · cases h; omega

theorem parseResp3Null_extends (b x : Bytes) : Extends parseResp3Null b x := by
  by_cases short : b.length < 3
  · rw [Extends, parseResp3Null, if_pos short]; exact .incomplete _
  · have short' : ¬ (b ++ x).length < 3 := by rw [List.length_append]; omega
    refine .inr ?_
    rw [parseResp3Null, parseResp3Null, if_neg short, if_neg short', slice_append (by omega)]

theorem parseResp3Null_within (b : Bytes) : Within parseResp3Null b := by
  intro v n h
  rw [parseResp3Null] at h
  split_ifs at h with short bad
  · cases h; omega

theorem parseResp3Bool_extends (b x : Bytes) : Extends parseResp3Bool b x := by
  by_cases short : b.length < 4
  · rw [Extends, parseResp3Bool, if_pos short]; exact .incomplete _
  · have short' : ¬ (b ++ x).length < 4 := by rw [List.length_append]; omega
    have second : (b ++ x).getD 1 0 = b.getD 1 0 := by
      rw [List.getD_eq_getElem?_getD, List.getElem?_append_left (by omega), ← List.getD_eq_getElem?_getD]
    refine .inr ?_
    rw [parseResp3Bool, parseResp3Bool, if_neg short, if_neg short', slice_append (by omega), second]

theorem parseResp3Bool_within (b : Bytes) : Within parseResp3Bool b := by
  intro v n h
  rw [parseResp3Bool] at h
  by_cases short : b.length < 4
  · rw [if_pos short] at h; cases h
  rw [if_neg short] at h
  obtain ⟨val, -, h⟩ := bind_eq_ok h
  split_ifs at h with bad
  · cases h; omega

theorem parseInline_extends (b x : Bytes) : Extends parseInline b x := by
  cases h : findCrlf b with
  | none => exact .inl (by rw [parseInline, h])
  | some pos =>
    refine .inr ?_
    have within := findCrlf_within h
    have same : (b ++ x).take pos = b.take pos := List.take_append_of_le_length (by omega)
    simp only [parseInline, h, findCrlf_append h, same]

theorem parseInline_within (b : Bytes) : Within parseInline b := by
  intro v n h
  rw [parseInline] at h
  split at h
  · cases h
  · rename_i pos found
    have within := findCrlf_within found
    obtain ⟨parts, -, h⟩ := bind_eq_ok h
    split_ifs at h with empty
    cases h
    omega

/-! ## Aggregates -/

section Nested

variable {parse : Bytes → ParseResult (Resp × Nat)}

theorem parseItems_within {n offset last : Nat} {items : List Resp} (start : offset ≤ b.length)
    (within : ∀ lo, offset ≤ lo → Within parse (b.drop lo))
    (h : parseItems parse b n offset = .ok (items, last)) : offset ≤ last ∧ last ≤ b.length := by
  induction n generalizing offset items with
  | zero => cases h; omega
  | succ n ih =>
    obtain ⟨⟨item, used⟩, first, h⟩ := bind_eq_ok h
    obtain ⟨⟨rest, end'⟩, more, h⟩ := bind_eq_ok h
    cases h
    have used_le := within offset (Nat.le_refl _) first
    rw [List.length_drop] at used_le
    have := ih (by omega) (fun lo le => within lo (by omega)) more
    omega

/-- Items that are complete are the same when bytes follow, if each item is. -/
theorem parseItems_extends {n offset : Nat} (start : offset ≤ b.length)
    (within : ∀ lo, offset ≤ lo → Within parse (b.drop lo))
    (nested : ∀ lo, offset ≤ lo → Extends parse (b.drop lo) x) :
    Below (parseItems parse b n offset) (parseItems parse (b ++ x) n offset) := by
  induction n generalizing offset with
  | zero => exact .refl _
  | succ n ih =>
    have first := nested offset (Nat.le_refl _)
    rw [Extends, ← List.drop_append_of_le_length start] at first
    refine first.bind ?_
    rintro ⟨item, used⟩ read
    have used_le := within offset (Nat.le_refl _) read
    rw [List.length_drop] at used_le
    refine (ih (by omega) (fun lo le => within lo (by omega))
      fun lo le => nested lo (by omega)).bind ?_
    rintro ⟨items, last⟩ -
    exact .refl _

/-- Items two by two. -/
def pairUp : List Resp → List (Resp × Resp)
  | k :: v :: rest => (k, v) :: pairUp rest
  | _ => []

theorem parsePairs_eq (n offset : Nat) : parsePairs parse b n offset =
    parseItems parse b (2 * n) offset >>= fun r => pure (pairUp r.1, r.2) := by
  induction n generalizing offset with
  | zero => rfl
  | succ n ih =>
    rw [show 2 * (n + 1) = 2 * n + 1 + 1 by omega, parseItems, parsePairs]
    cases parse (b.drop offset) with
    | error e => rfl
    | ok key =>
      obtain ⟨k, klen⟩ := key
      show _ = (parseItems parse b (2 * n + 1) (offset + klen) >>= _) >>= _
      rw [parseItems]
      cases h : parse (b.drop (offset + klen)) with
      | error e => simp only [bind, Except.bind, h]
      | ok val =>
        obtain ⟨v, vlen⟩ := val
        simp only [bind, Except.bind, h, ih]
        cases parseItems parse b (2 * n) (offset + klen + vlen) <;> rfl

theorem parsePairs_within {n offset last : Nat} {pairs : List (Resp × Resp)} (start : offset ≤ b.length)
    (within : ∀ lo, offset ≤ lo → Within parse (b.drop lo))
    (h : parsePairs parse b n offset = .ok (pairs, last)) : offset ≤ last ∧ last ≤ b.length := by
  rw [parsePairs_eq] at h
  obtain ⟨⟨items, end'⟩, read, h⟩ := bind_eq_ok h
  cases h
  exact parseItems_within start within read

theorem parsePairs_extends {n offset : Nat} (start : offset ≤ b.length)
    (within : ∀ lo, offset ≤ lo → Within parse (b.drop lo))
    (nested : ∀ lo, offset ≤ lo → Extends parse (b.drop lo) x) :
    Below (parsePairs parse b n offset) (parsePairs parse (b ++ x) n offset) := by
  rw [parsePairs_eq, parsePairs_eq]
  exact (parseItems_extends start within nested).bind fun _ _ => .refl _

theorem parseCount_extends (name : String) (b x : Bytes) : Extends (parseCount name) b x :=
  (parseField_extends b x).bind fun _ _ => .refl _

theorem parseCount_within (name : String) (b : Bytes) : Within (parseCount name) b := by
  intro v n h
  obtain ⟨⟨count, header⟩, read, h⟩ := bind_eq_ok h
  dsimp only at h
  split_ifs at h with long
  cases h
  exact parseField_within b read

/-- What a nested parser owes on the buffers behind a header of `b`. -/
structure Nested (parse : Bytes → ParseResult (Resp × Nat)) (b x : Bytes) : Prop where
  within : ∀ lo, 0 < lo → Within parse (b.drop lo)
  extend : ∀ lo, 0 < lo → Extends parse (b.drop lo) x

/-- A header followed by something that moves the offset forward. -/
theorem within_header {α β : Type} {header : Bytes → ParseResult (α × Nat)} (within : Within header b)
    {body : α × Nat → ParseResult (β × Nat)}
    (forward : ∀ {a offset v n}, 0 < offset → offset ≤ b.length → body (a, offset) = .ok (v, n) →
      offset ≤ n ∧ n ≤ b.length) {v : β} {n : Nat} (h : header b >>= body = .ok (v, n)) :
    0 < n ∧ n ≤ b.length := by
  obtain ⟨⟨a, offset⟩, read, h⟩ := bind_eq_ok h
  have start := within read
  have rest := forward start.1 start.2 h
  omega

theorem parseArray_within (nested : Nested parse b x) : Within (parseArray parse) b := by
  intro v n h
  refine within_header (parseField_within b) ?_ h
  intro len offset v n positive start h
  dsimp only at h
  split_ifs at h with null negative long
  · cases h; omega
  · obtain ⟨⟨items, last⟩, read, h⟩ := bind_eq_ok h
    cases h
    exact parseItems_within start (fun lo le => nested.within lo (by omega)) read

theorem parseArray_extends (nested : Nested parse b x) : Extends (parseArray parse) b x := by
  refine (parseField_extends b x).bind ?_
  rintro ⟨len, header⟩ read
  have start := parseField_within b read
  dsimp only
  split_ifs with null negative long
  · exact .refl _
  · exact .refl _
  · exact .refl _
  · exact (parseItems_extends start.2 (fun lo le => nested.within lo (by omega))
      fun lo le => nested.extend lo (by omega)).bind fun _ _ => .refl _

theorem parseResp3Map_within (nested : Nested parse b x) : Within (parseResp3Map parse) b := by
  intro v n h
  refine within_header (parseCount_within "map" b) ?_ h
  intro count offset v n positive start h
  obtain ⟨⟨pairs, last⟩, read, h⟩ := bind_eq_ok h
  cases h
  exact parsePairs_within start (fun lo le => nested.within lo (by omega)) read

theorem parseResp3Map_extends (nested : Nested parse b x) : Extends (parseResp3Map parse) b x := by
  refine (parseCount_extends "map" b x).bind ?_
  rintro ⟨count, header⟩ read
  have start := parseCount_within "map" b read
  exact (parsePairs_extends start.2 (fun lo le => nested.within lo (by omega))
    fun lo le => nested.extend lo (by omega)).bind fun _ _ => .refl _

/-- The RESP3 aggregates of single items, set and push. -/
def parseCounted (parse : Bytes → ParseResult (Resp × Nat)) (name : String) (build : List Resp → Resp)
    (buf : Bytes) : ParseResult (Resp × Nat) := do
  let (count, headerLen) ← parseCount name buf
  let (items, offset) ← parseItems parse buf count headerLen
  return (build items, offset)

theorem parseCounted_within (nested : Nested parse b x) (name : String) (build : List Resp → Resp) :
    Within (parseCounted parse name build) b := by
  intro v n h
  refine within_header (parseCount_within name b) ?_ h
  intro count offset v n positive start h
  obtain ⟨⟨items, last⟩, read, h⟩ := bind_eq_ok h
  cases h
  exact parseItems_within start (fun lo le => nested.within lo (by omega)) read

theorem parseCounted_extends (nested : Nested parse b x) (name : String) (build : List Resp → Resp) :
    Extends (parseCounted parse name build) b x := by
  refine (parseCount_extends name b x).bind ?_
  rintro ⟨count, header⟩ read
  have start := parseCount_within name b read
  exact (parseItems_extends start.2 (fun lo le => nested.within lo (by omega))
    fun lo le => nested.extend lo (by omega)).bind fun _ _ => .refl _

end Nested

/-! ## Dispatch -/

section Dispatch

variable {parseF64 : String → Option F64} {parse : Bytes → ParseResult (Resp × Nat)}

/-- **A frame that is complete is the same when bytes follow**, if the frames in it are. -/
theorem parseWith_extends (nested : Nested parse b x) : Extends (parseWith parseF64 parse) b x := by
  cases b with
  | nil => exact .incomplete _
  | cons tag b =>
    rw [Extends, List.cons_append]
    unfold parseWith
    dsimp only
    split
    · exact (parseLine_extends _ x).bind fun _ _ => .refl _
    · exact (parseLine_extends _ x).bind fun _ _ => .refl _
    · exact (parseField_extends _ x).bind fun _ _ => .refl _
    · exact parseBulkString_extends _ x
    · exact parseArray_extends nested
    · exact parseResp3Null_extends _ x
    · exact parseResp3Bool_extends _ x
    · exact (parseField_extends _ x).bind fun _ _ => .refl _
    · exact parseResp3Map_extends nested
    · exact parseCounted_extends nested "set" .set
    · exact parseCounted_extends nested "push" .push
    · exact parseInline_extends _ x

theorem parseWith_within (nested : Nested parse b []) : Within (parseWith parseF64 parse) b := by
  intro v n h
  cases b with
  | nil => cases h
  | cons tag b =>
    unfold parseWith at h
    dsimp only at h
    split at h
    · exact within_map (f := fun line => Resp.simpleString (fromUtf8Lossy line)) (parseLine_within _) h
    · exact within_map (f := fun line => Resp.error (fromUtf8Lossy line)) (parseLine_within _) h
    · exact within_map (parseField_within _) h
    · exact parseBulkString_within _ h
    · exact parseArray_within nested h
    · exact parseResp3Null_within _ h
    · exact parseResp3Bool_within _ h
    · exact within_map (parseField_within _) h
    · exact parseResp3Map_within nested h
    · exact parseCounted_within nested "set" .set h
    · exact parseCounted_within nested "push" .push h
    · exact parseInline_within _ h

theorem parseItems_congr {p q : Bytes → ParseResult (Resp × Nat)} {n offset : Nat}
    (same : ∀ lo, offset ≤ lo → p (b.drop lo) = q (b.drop lo)) :
    parseItems p b n offset = parseItems q b n offset := by
  induction n generalizing offset with
  | zero => rfl
  | succ n ih =>
    rw [parseItems, parseItems, same offset (Nat.le_refl _)]
    refine bind_congr ?_
    rintro ⟨item, used⟩
    dsimp only
    rw [ih fun lo le => same lo (by omega)]

theorem parsePairs_congr {p q : Bytes → ParseResult (Resp × Nat)} {n offset : Nat}
    (same : ∀ lo, offset ≤ lo → p (b.drop lo) = q (b.drop lo)) :
    parsePairs p b n offset = parsePairs q b n offset := by
  rw [parsePairs_eq, parsePairs_eq, parseItems_congr same]

/-- Two continuations that agree behind a header. -/
theorem bind_header {α β : Type} {header : Bytes → ParseResult (α × Nat)} (within : Within header b)
    {f g : α × Nat → ParseResult β} (same : ∀ a offset, 0 < offset → f (a, offset) = g (a, offset)) :
    header b >>= f = header b >>= g := by
  cases h : header b with
  | error e => rfl
  | ok r =>
    obtain ⟨a, offset⟩ := r
    exact same a offset (within h).1

theorem parseWith_congr {p q : Bytes → ParseResult (Resp × Nat)}
    (same : ∀ lo, 0 < lo → p (b.drop lo) = q (b.drop lo)) :
    parseWith parseF64 p b = parseWith parseF64 q b := by
  cases b with
  | nil => rfl
  | cons tag b =>
    have items {n offset : Nat} (positive : 0 < offset) :
        parseItems p (tag :: b) n offset = parseItems q (tag :: b) n offset :=
      parseItems_congr fun lo le => same lo (by omega)
    have pairs {n offset : Nat} (positive : 0 < offset) :
        parsePairs p (tag :: b) n offset = parsePairs q (tag :: b) n offset :=
      parsePairs_congr fun lo le => same lo (by omega)
    unfold parseWith
    dsimp only
    split
    case h_5 =>
      refine bind_header (parseField_within _) fun len offset positive => ?_
      dsimp only
      rw [items positive]
    case h_9 =>
      refine bind_header (parseCount_within _ _) fun count offset positive => ?_
      dsimp only
      rw [pairs positive]
    case h_10 =>
      refine bind_header (parseCount_within _ _) fun count offset positive => ?_
      dsimp only
      rw [items positive]
    case h_11 =>
      refine bind_header (parseCount_within _ _) fun count offset positive => ?_
      dsimp only
      rw [items positive]
    all_goals rfl

theorem parseFor_congr {k m : Nat} (hk : b.length < k) (hm : b.length < m) :
    parseFor parseF64 k b = parseFor parseF64 m b := by
  induction k generalizing m b with
  | zero => omega
  | succ k ih =>
    obtain ⟨m, rfl⟩ : ∃ j, m = j + 1 := ⟨m - 1, by omega⟩
    rw [parseFor, parseFor]
    cases b with
    | nil => rfl
    | cons tag b =>
      refine parseWith_congr fun lo positive => ih ?_ ?_ <;>
        rw [List.length_drop] <;> rw [List.length_cons] at * <;> omega

/-- The recursion of `parse_resp`. -/
theorem parseResp_eq (b : Bytes) :
    parseResp parseF64 b = parseWith parseF64 (parseResp parseF64) b := by
  rw [parseResp, parseFor]
  cases b with
  | nil => rfl
  | cons tag b =>
    refine parseWith_congr fun lo positive => parseFor_congr ?_ (Nat.lt_succ_self _)
    rw [List.length_drop, List.length_cons]
    omega

theorem parseFor_within (k : Nat) (b : Bytes) : Within (parseFor parseF64 k) b := by
  induction k generalizing b with
  | zero => intro v n h; cases h
  | succ k ih => exact parseWith_within ⟨fun lo _ => ih _, fun _ _ => .inr (by rw [List.append_nil])⟩

/-- **Of any depth a frame that is complete is the same when bytes follow.** By induction on the depth. -/
theorem parseFor_extends (k : Nat) (b x : Bytes) : Extends (parseFor parseF64 k) b x := by
  induction k generalizing b with
  | zero => exact .incomplete _
  | succ k ih => exact parseWith_extends ⟨fun lo _ => parseFor_within k _, fun lo _ => ih _⟩

/-- **An accepted value lies inside the buffer.** -/
theorem parseResp_within (b : Bytes) : Within (parseResp parseF64) b := parseFor_within _ b

/-- **More bytes do not change an answer.** -/
theorem parseResp_extends (b x : Bytes) : Extends (parseResp parseF64) b x := by
  have depth : parseResp parseF64 b = parseFor parseF64 ((b ++ x).length + 1) b :=
    parseFor_congr (Nat.lt_succ_self _) (by rw [List.length_append]; omega)
  rw [Extends, depth]
  exact parseFor_extends _ b x

end Dispatch

/-! ## The parser object -/

/-- `RespParser`: the input buffer. -/
structure RespParser where
  buf : Bytes

namespace RespParser

/-- Nothing has come. -/
def new : RespParser := ⟨[]⟩

/-- `feed`, and `read_buf_mut` for a reader that appends `data`. -/
def feed (parser : RespParser) (data : Bytes) : RespParser := ⟨parser.buf ++ data⟩

/-- How much has come and is not yet parsed. -/
def bufferedLen (parser : RespParser) : Nat := parser.buf.length

/-- One value, `none` when more data is needed, or the protocol error. -/
def parseOne (parseF64 : String → Option F64) (parser : RespParser) :
    Except String (Option Resp) × RespParser :=
  if parser.buf.isEmpty then (.ok none, parser)
  else
    match parseResp parseF64 parser.buf with
    | .ok (value, consumed) => (.ok (some value), ⟨parser.buf.drop consumed⟩)
    | .error .incomplete => (.ok none, parser)
    | .error (.invalid msg) => (.error msg, parser)

/-- `parse_one` as a decoder. -/
def next (parseF64 : String → Option F64) (buf : Bytes) : Next Resp String :=
  match parseOne parseF64 ⟨buf⟩ with
  | (.ok (some value), parser) => .item value parser.buf
  | (.ok none, _) => .wait
  | (.error msg, _) => .fail msg

/-- A connection: each chunk is fed and `parse_one` called until it returns `None` or an error. -/
def session (parseF64 : String → Option F64) (chunks : List Bytes) : Session Resp String :=
  Session.feedAll (next parseF64) chunks

variable {parseF64 : String → Option F64}

/-- One call of `parse_one`, by the answer of `parse_resp`. -/
theorem next_eq (b : Bytes) : next parseF64 b = match parseResp parseF64 b with
    | .ok (value, consumed) => .item value (b.drop consumed)
    | .error .incomplete => .wait
    | .error (.invalid msg) => .fail msg := by
  rw [next, parseOne]
  cases b with
  | nil => rfl
  | cons tag b =>
    dsimp only [List.isEmpty_cons]
    rw [if_neg (by decide)]
    rcases parseResp parseF64 (tag :: b) with (_ | msg) | ⟨value, consumed⟩ <;> rfl

/-- The next frame does not depend on what follows it. -/
theorem next_steady : Steady (next parseF64) where
  shorter {b v r} h := by
    rw [next_eq] at h
    split at h <;> cases h
    have within := parseResp_within b ‹_›
    rw [List.length_drop]
    omega
  item {b v r} h x := by
    rw [next_eq] at h ⊢
    split at h <;> cases h
    have within := parseResp_within b ‹_›
    rw [(parseResp_extends b x).eq_ok ‹_›]
    exact congrArg _ (List.drop_append_of_le_length within.2)
  fail {b e} h x := by
    rw [next_eq] at h ⊢
    split at h <;> cases h
    rw [(parseResp_extends b x).eq_invalid ‹_›]

end RespParser

/-- **RESP parsing does not depend on how the bytes arrive**: values, position and first protocol error are those of
the whole stream fed at once, and an answer of `parse_resp` is its answer on every extension of the buffer. By
`parseFor_extends`, an answer that is not `Incomplete` is final; so a chunk more can only turn `Incomplete` into an
answer. -/
theorem respParser_chunks (parseF64 : String → Option F64) (chunks : List Bytes) :
    (RespParser.session parseF64 chunks).outcome =
        (RespParser.session parseF64 [chunks.flatten]).outcome ∧
      (∀ b v n, parseResp parseF64 b = .ok (v, n) →
        0 < n ∧ n ≤ b.length ∧ ∀ x, parseResp parseF64 (b ++ x) = .ok (v, n)) ∧
      (∀ b msg, parseResp parseF64 b = .error (.invalid msg) →
        ∀ x, parseResp parseF64 (b ++ x) = .error (.invalid msg)) := by
  refine ⟨Session.session_chunks RespParser.next_steady chunks rfl, ?_, ?_⟩
  · intro b v n h
    have within := parseResp_within b h
    exact ⟨within.1, within.2, fun x => (parseResp_extends b x).eq_ok h⟩
  · intro b msg h x
    exact (parseResp_extends b x).eq_invalid h

/-- A command cut inside its header and behind an element. -/
theorem respParser_chunks_cut :
    (RespParser.session (fun _ => none) [asBytes "*2\r", asBytes "\n:4", asBytes "2\r\n_\r\n$-2\r\n"]).outcome =
        ([.array (some [.integer 42, .null])], 12, some "invalid bulk length: -2") ∧
      parseResp (fun _ => none) (asBytes "*1\r\n:7\r\n" ++ asBytes "rest") =
        .ok (.array (some [.integer 7]), 8) := by
  have all := respParser_chunks (fun _ => none) [asBytes "*2\r", asBytes "\n:4", asBytes "2\r\n_\r\n$-2\r\n"]
  refine ⟨all.1.trans rfl, (all.2.1 (asBytes "*1\r\n:7\r\n") _ _ rfl).2.2 _⟩

end NexradeCache
