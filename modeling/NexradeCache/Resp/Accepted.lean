import NexradeCache.Resp.Exact
import NexradeCache.Resp.Framing

/-!
# What the parser takes for one frame

`FrameOf` is the grammar of one frame with its contents: a line of an integer holds an integer, a length says
how much follows, nothing is longer than the limits of `resp.rs`. Where dialects differ it asks a `Dialect`: how
lengths and nulls are spelled, and which lines without a type byte count. `Dialect.wire` is the protocol:
lengths are digits, and every frame has its type byte. `Dialect.lenient` is what `parse_resp` was written for:
a sign in front of a length, and the inline commands of a telnet session. `isCommand_iff` says that the parser
takes exactly the frames of the second.
-/

namespace NexradeCache

open Utf8 Decimal Stream

/-- The bytes are one value for the parser, and nothing else. -/
def IsCommand (parseF64 : String → Option F64) (cmd : Bytes) : Prop :=
  ∃ v, parseResp parseF64 cmd = .ok (v, cmd.length)

section
variable {parseF64 : String → Option F64} {cmd cmd' b b' : Bytes}

theorem IsCommand.pos (h : IsCommand parseF64 cmd) : 0 < cmd.length := by
  obtain ⟨v, parsed⟩ := h
  exact (parseResp_within cmd parsed).1

theorem IsCommand.append (h : IsCommand parseF64 cmd) (b : Bytes) :
    ∃ v, parseResp parseF64 (cmd ++ b) = .ok (v, cmd.length) := by
  obtain ⟨v, parsed⟩ := h
  exact ⟨v, (parseResp_extends cmd b).eq_ok parsed⟩

theorem isCommand_take {v : Resp} {n : Nat} (h : parseResp parseF64 b = .ok (v, n)) :
    IsCommand parseF64 (b.take n) := by
  have within := parseResp_within b h
  have length : (b.take n).length = n := by rw [List.length_take]; omega
  refine ⟨v, ?_⟩
  rw [length]
  refine parseResp_cut (x := b.drop n) ?_ (Nat.le_of_eq length.symm)
  rw [List.take_append_drop]
  exact h

theorem IsCommand.unique (h : IsCommand parseF64 cmd) (h' : IsCommand parseF64 cmd')
    (same : cmd ++ b = cmd' ++ b') : cmd = cmd' ∧ b = b' := by
  obtain ⟨v, parsed⟩ := h.append b
  obtain ⟨v', parsed'⟩ := h'.append b'
  rw [same, parsed'] at parsed
  have length : cmd'.length = cmd.length := congrArg Prod.snd (Except.ok.inj parsed)
  exact List.append_inj same length.symm

end

/-! ## The grammar -/

/-- Where the grammars of frames differ. -/
structure Dialect where
  /-- The text of the length of a bulk string or an array. -/
  length : (text : Bytes) → (n : Nat) → Prop
  /-- The text of the count of a RESP3 aggregate. -/
  count : (text : Bytes) → (n : Nat) → Prop
  /-- The text that stands for null in place of a length. -/
  null : (text : Bytes) → Prop
  /-- A line without a type byte. -/
  bare : (text : Bytes) → Prop

namespace Dialect

/-- The type bytes. -/
def tags : List UInt8 := Tag.bulkString :: (Tag.lines ++ Tag.aggregates.map Prod.fst)

/-- The protocol. -/
def wire : Dialect where
  length text n := IsNumeral text ∧ value 0 text = some n
  count text n := IsNumeral text ∧ value 0 text = some n
  null text := text = [45, 49]
  bare _ := False

/-- Lengths are what Rust parses as an `i64` or a `usize`, and a line of tokens is a command. -/
def lenient : Dialect where
  length text n := ∃ len : Int64, (fromUtf8 text).bind parseI64 = some len ∧ len.toInt = n
  count text n := (fromUtf8 text).bind parseUsize = some n
  null text := (fromUtf8 text).bind parseI64 = some (-1)
  bare text := (∃ c rest, text = c :: rest ∧ c ∉ tags) ∧ ∃ parts, tokenizeInline text = .ok parts ∧ parts ≠ []

/-- The text of the number in the header of an aggregate. -/
def header (d : Dialect) (tag : UInt8) : (text : Bytes) → (n : Nat) → Prop :=
  if tag = Tag.array then d.length else d.count

end Dialect

section
variable (parseF64 : String → Option F64)

/-- What the line of a type may say. -/
inductive LineText : UInt8 → Bytes → Prop where
  | simpleString (text : Bytes) : LineText Tag.simpleString text
  | error (text : Bytes) : LineText Tag.error text
  | integer {text : Bytes} {n : Int64} (number : (fromUtf8 text).bind parseI64 = some n) : LineText Tag.integer text
  | double {text : Bytes} {d : F64} (number : (fromUtf8 text).bind parseF64 = some d) : LineText Tag.double text
  | null : LineText Tag.null []
  | bool {c : UInt8} {b : Bool} (value : boolByte c = some b) : LineText Tag.bool [c]

/-- One frame. -/
inductive FrameOf (d : Dialect) : Bytes → Prop where
  | line {tag : UInt8} {text : Bytes} (kind : LineText parseF64 tag text) (inline : Inline text) : FrameOf d (line tag text)
  | null {tag : UInt8} {text : Bytes} (kind : tag = Tag.bulkString ∨ tag = Tag.array) (null : d.null text)
      (inline : Inline text) : FrameOf d (NexradeCache.line tag text)
  | bulk {text data : Bytes} (length : d.length text data.length) (inline : Inline text)
      (fits : data.length ≤ MAX_BULK_LEN) : FrameOf d (NexradeCache.line Tag.bulkString text ++ (data ++ crlf))
  | aggregate {tag : UInt8} {width n : Nat} {text : Bytes} {items : List Bytes} (kind : (tag, width) ∈ Tag.aggregates)
      (header : d.header tag text n) (inline : Inline text) (fits : n ≤ MAX_ARRAY_LEN)
      (count : items.length = width * n) (each : ∀ f ∈ items, FrameOf d f) :
      FrameOf d (NexradeCache.line tag text ++ items.flatten)
  | bare {text : Bytes} (bare : d.bare text) (inline : Inline text) : FrameOf d (text ++ crlf)

end

section
variable {parseF64 : String → Option F64} {tag : UInt8} {text b more : Bytes}

/-- The protocol is part of what `parse_resp` was written for. -/
theorem FrameOf.lenient_of_wire (h : FrameOf parseF64 .wire b) : FrameOf parseF64 .lenient b := by
  induction h with
  | line kind inline => exact .line kind inline
  | null kind null inline =>
    obtain rfl : _ = [45, 49] := null
    have minus : (fromUtf8 [45, 49]).bind parseI64 = some (-1) := by decide +kernel
    exact .null kind minus inline
  | bulk length inline fits =>
    obtain ⟨numeral, value⟩ := length
    obtain ⟨s, decoded, same⟩ := fromUtf8_ascii numeral.ascii
    have small := lt_of_le_of_lt fits (show MAX_BULK_LEN < 2 ^ 63 by decide)
    refine .bulk ⟨_, ?_, (length_i64 small).1⟩ inline fits
    rw [decoded]
    exact numeral.parseI64 value small same
  | @aggregate tag width n text items kind header inline fits count each ih =>
    refine .aggregate kind ?_ inline fits count ih
    have small := lt_of_le_of_lt fits (show MAX_ARRAY_LEN < 2 ^ 63 by decide)
    have digits : IsNumeral text ∧ value 0 text = some n := by
      unfold Dialect.header at header
      split at header <;> exact header
    obtain ⟨s, decoded, same⟩ := fromUtf8_ascii digits.1.ascii
    unfold Dialect.header
    split
    · refine ⟨_, ?_, (length_i64 small).1⟩
      rw [decoded]
      exact digits.1.parseI64 digits.2 small same
    · show (fromUtf8 text).bind parseUsize = some n
      rw [decoded]
      exact digits.1.parseUsize digits.2 (by omega) same
  | bare bare => exact bare.elim

/-! ## Every frame is taken -/

theorem parseField_text {α : Type} {encoding : String} {message : String → String} {parse : String → Option α}
    (printable : tag ≠ 13) (inline : Inline text) {a : α} (value : (fromUtf8 text).bind parse = some a) (more : Bytes) :
    parseField encoding message parse (line tag text ++ more) = .ok (a, (line tag text).length) := by
  obtain ⟨s, decoded, parsed⟩ := Option.bind_eq_some_iff.1 value
  rw [parseField, parseLine_line printable (inline_iff.1 inline)]
  simp only [bind, Except.bind, decoded, orInvalid, parsed]
  rfl

theorem isCommand_line (kind : LineText parseF64 tag text) (inline : Inline text) :
    IsCommand parseF64 (line tag text) := by
  have whole : line tag text = line tag text ++ [] := (List.append_nil _).symm
  have read (printable : tag ≠ 13) : parseLine (line tag text) = .ok (text, (line tag text).length) := by
    have front := parseLine_line printable (inline_iff.1 inline) []
    rwa [← whole] at front
  unfold IsCommand
  rw [parseResp_eq]
  cases kind with
  | simpleString =>
    refine ⟨.simpleString (fromUtf8Lossy text), (?_ : parseSimpleString _ = _)⟩
    rw [parseSimpleString, read (by decide)]
    rfl
  | error =>
    refine ⟨.error (fromUtf8Lossy text), (?_ : parseError _ = _)⟩
    rw [parseError, read (by decide)]
    rfl
  | @integer _ n number =>
    refine ⟨.integer n, (?_ : parseInteger _ = _)⟩
    rw [parseInteger, whole, parseField_text (by decide) inline number, List.append_nil]
    rfl
  | @double _ d number =>
    refine ⟨.double d, (?_ : parseResp3Double _ _ = _)⟩
    rw [parseResp3Double, whole, parseField_text (by decide) inline number, List.append_nil]
    rfl
  | null => exact ⟨.null, rfl⟩
  | @bool c b value =>
    refine ⟨.bool b, (?_ : parseResp3Bool (line Tag.bool [c]) = _)⟩
    simp [parseResp3Bool, line, crlf, value, orInvalid, bind, Except.bind, pure, Except.pure]

theorem isCommand_null (kind : tag = Tag.bulkString ∨ tag = Tag.array) (null : Dialect.lenient.null text)
    (inline : Inline text) : IsCommand parseF64 (line tag text) := by
  have whole : line tag text = line tag text ++ [] := (List.append_nil _).symm
  unfold IsCommand
  rw [parseResp_eq]
  rcases kind with rfl | rfl
  · refine ⟨.bulkString none, (?_ : parseBulkString _ = _)⟩
    rw [parseBulkString, whole, parseField_text (by decide) inline null, List.append_nil]
    rfl
  · refine ⟨.array none, (?_ : parseArray _ _ = _)⟩
    rw [parseArray, whole, parseField_text (by decide) inline null, List.append_nil]
    rfl

theorem isCommand_bulk {data : Bytes} (length : Dialect.lenient.length text data.length) (inline : Inline text)
    (fits : data.length ≤ MAX_BULK_LEN) : IsCommand parseF64 (line Tag.bulkString text ++ (data ++ crlf)) := by
  obtain ⟨len, number, value⟩ := length
  have zero : (0 : Int64).toInt = 0 := rfl
  have minus : (-1 : Int64).toInt = -1 := rfl
  have notNull : len ≠ -1 := by rintro rfl; omega
  have notNegative : ¬ len < 0 := by rw [Int64.lt_iff_toInt_lt]; omega
  obtain ⟨total, last, payload⟩ := payload_slices (line Tag.bulkString text) data []
  rw [List.append_nil] at total last payload
  unfold IsCommand
  rw [parseResp_eq]
  refine ⟨.bulkString (some data), (?_ : parseBulkString _ = _)⟩
  rw [parseBulkString, parseField_text (by decide) inline number]
  simp only [bind, Except.bind, notNull, notNegative, if_false, value, Int.toNat_natCast]
  rw [if_neg (by omega), if_neg total, last, payload, if_neg (by simp)]
  simp only [pure, Except.pure, List.length_append, crlf, List.length_cons, List.length_nil]
  rw [Nat.add_assoc]

theorem parseItems_flatten {items : List Bytes} (each : ∀ f ∈ items, IsCommand parseF64 f) (header : Bytes) :
    ∃ vs, parseItems (parseResp parseF64) (header ++ items.flatten) items.length header.length =
      .ok (vs, (header ++ items.flatten).length) := by
  induction items generalizing header with
  | nil => exact ⟨[], by simp [parseItems]⟩
  | cons f items ih =>
    obtain ⟨v, here⟩ := (each f List.mem_cons_self).append items.flatten
    obtain ⟨vs, later⟩ := ih (fun g mem => each g (List.mem_cons_of_mem _ mem)) (header ++ f)
    rw [List.append_assoc, List.length_append] at later
    refine ⟨v :: vs, ?_⟩
    rw [List.length_cons, List.flatten_cons, parseItems, List.drop_left, here]
    simp only [bind, Except.bind, later]
    simp [pure, Except.pure]

theorem isCommand_aggregate {width n : Nat} {items : List Bytes} (kind : (tag, width) ∈ Tag.aggregates)
    (header : Dialect.lenient.header tag text n) (inline : Inline text) (fits : n ≤ MAX_ARRAY_LEN)
    (count : items.length = width * n) (each : ∀ f ∈ items, IsCommand parseF64 f) :
    IsCommand parseF64 (line tag text ++ items.flatten) := by
  obtain ⟨vs, read⟩ := parseItems_flatten each (line tag text)
  have counted (name : String) (printable : tag ≠ 13) (number : Dialect.lenient.count text n) :
      parseCount name (line tag text ++ items.flatten) = .ok (n, (line tag text).length) := by
    rw [parseCount, parseField_text printable inline number]
    simp only [bind, Except.bind]
    rw [if_neg (by omega)]
    rfl
  rw [count] at read
  unfold IsCommand
  rw [parseResp_eq]
  simp only [Tag.aggregates, List.mem_cons, List.not_mem_nil, or_false, Prod.mk.injEq] at kind
  rcases kind with ⟨rfl, rfl⟩ | ⟨rfl, rfl⟩ | ⟨rfl, rfl⟩ | ⟨rfl, rfl⟩
  · obtain ⟨len, number, value⟩ := header
    have zero : (0 : Int64).toInt = 0 := rfl
    have minus : (-1 : Int64).toInt = -1 := rfl
    have notNull : len ≠ -1 := by rintro rfl; omega
    have notNegative : ¬ len < 0 := by rw [Int64.lt_iff_toInt_lt]; omega
    refine ⟨.array (some vs), (?_ : parseArray _ _ = _)⟩
    rw [Nat.one_mul] at read
    rw [parseArray, parseField_text (by decide) inline number]
    simp only [bind, Except.bind, notNull, notNegative, if_false, value, Int.toNat_natCast]
    rw [if_neg (by omega), read]
    rfl
  · refine ⟨.map (pairUp vs), (?_ : parseResp3Map _ _ = _)⟩
    rw [parseResp3Map, counted "map" (by decide) header]
    simp only [bind, Except.bind, parsePairs_eq, read]
    rfl
  · refine ⟨.set vs, (?_ : parseResp3Set _ _ = _)⟩
    rw [Nat.one_mul] at read
    rw [parseResp3Set, counted "set" (by decide) header]
    simp only [bind, Except.bind, read]
    rfl
  · refine ⟨.push vs, (?_ : parseResp3Push _ _ = _)⟩
    rw [Nat.one_mul] at read
    rw [parseResp3Push, counted "push" (by decide) header]
    simp only [bind, Except.bind, read]
    rfl

/-- A buffer that starts with no type byte is a line of tokens. -/
theorem parseWith_bare {parse : Bytes → ParseResult (Resp × Nat)} {c : UInt8} (bare : c ∉ Dialect.tags) (rest : Bytes) :
    parseWith parseF64 parse (c :: rest) = parseInline (c :: rest) := by
  unfold parseWith
  dsimp only
  split
  all_goals first | rfl | exact absurd (by decide) bare

theorem isCommand_bare (bare : Dialect.lenient.bare text) (inline : Inline text) : IsCommand parseF64 (text ++ crlf) := by
  obtain ⟨⟨c, rest, rfl, other⟩, parts, tokens, some⟩ := bare
  unfold IsCommand
  have line : findCrlf (c :: rest ++ crlf) = .some (c :: rest).length := by
    have found := findCrlf_text (inline_iff.1 inline) []
    rwa [List.append_nil] at found
  refine ⟨.array parts, ?_⟩
  rw [parseResp_eq, List.cons_append, parseWith_bare other, ← List.cons_append, parseInline, line]
  dsimp only
  rw [List.take_left, tokens]
  simp [bind, Except.bind, pure, Except.pure, some, crlf]

/-- **The parser takes every frame of its dialect.** -/
theorem FrameOf.isCommand (h : FrameOf parseF64 .lenient b) : IsCommand parseF64 b := by
  induction h with
  | line kind inline => exact isCommand_line kind inline
  | null kind null inline => exact isCommand_null kind null inline
  | bulk length inline fits => exact isCommand_bulk length inline fits
  | aggregate kind header inline fits count each ih => exact isCommand_aggregate kind header inline fits count ih
  | bare bare inline => exact isCommand_bare bare inline

/-! ## Nothing else is taken -/

theorem findCrlf_eq_some {pos : Nat} (h : findCrlf b = some pos) :
    findCrlf (b.take pos) = none ∧ ∃ more, b = b.take pos ++ (crlf ++ more) := by
  fun_induction findCrlf b generalizing pos with
  | case1 rest =>
    obtain rfl : 0 = pos := Option.some.inj h
    exact ⟨rfl, rest, rfl⟩
  | case2 c rest other ih =>
    obtain ⟨p, found, rfl⟩ := Option.map_eq_some_iff.1 h
    obtain ⟨none, more, split⟩ := ih found
    refine ⟨?_, more, ?_⟩
    · rw [List.take_succ_cons, findCrlf, none]
      · rfl
      · intro tail hc start
        -- The line end would be in `c :: rest` too.
        obtain ⟨d, rest', rfl⟩ := List.exists_cons_of_ne_nil (l := rest) (by rintro rfl; simp at start)
        cases p with
        | zero => simp at start
        | succ p =>
          rw [List.take_succ_cons] at start
          exact other rest' hc (by rw [(List.cons.inj start).1])
    · rw [List.take_succ_cons, List.cons_append, ← split]
  | case3 => cases h

theorem parseLine_eq_ok (printable : tag ≠ 13) {n : Nat} (h : parseLine (tag :: b) = .ok (text, n)) :
    Inline text ∧ n = (line tag text).length ∧ ∃ more, tag :: b = line tag text ++ more := by
  unfold parseLine at h
  split at h
  · rename_i pos found
    obtain ⟨none, more, split⟩ := findCrlf_eq_some found
    have within := findCrlf_within found
    cases pos with
    | zero =>
      rw [List.take_zero, List.nil_append] at split
      exact absurd (List.cons.inj split).1 printable
    | succ pos =>
      cases h
      rw [List.take_succ_cons] at none split ⊢
      have inline := (inline_cons.1 (inline_iff.2 none)).2
      have length : (b.take pos).length = pos := by
        rw [List.length_take]
        rw [List.length_cons] at within
        omega
      refine ⟨inline, ?_, more, ?_⟩
      · rw [length_line, List.drop_one, List.tail_cons, length]
      · rw [List.drop_one, List.tail_cons, line]
        simpa using split
  · cases h

theorem parseField_eq_ok {α : Type} {encoding : String} {message : String → String} {parse : String → Option α}
    (printable : tag ≠ 13) {a : α} {n : Nat} (h : parseField encoding message parse (tag :: b) = .ok (a, n)) :
    ∃ text, Inline text ∧ (fromUtf8 text).bind parse = some a ∧ n = (line tag text).length ∧
      ∃ more, tag :: b = line tag text ++ more := by
  obtain ⟨⟨text, m⟩, read, h⟩ := bind_eq_ok h
  obtain ⟨inline, used, split⟩ := parseLine_eq_ok printable read
  obtain ⟨s, decoded, h⟩ := bind_eq_ok h
  obtain ⟨value, parsed, h⟩ := bind_eq_ok h
  cases h
  refine ⟨text, inline, ?_, used, split⟩
  cases utf8 : fromUtf8 text with
  | none => simp [utf8, orInvalid] at decoded
  | some s' =>
    obtain rfl : s' = s := by simpa [utf8, orInvalid] using decoded
    cases meaning : parse s' with
    | none => simp [meaning, orInvalid] at parsed
    | some a' =>
      obtain rfl : a' = a := by simpa [meaning, orInvalid] using parsed
      exact meaning

/-- The values of a run of `parseItems`, each with its own bytes. -/
theorem exists_flatten {n offset last : Nat} {vs : List Resp} (start : offset ≤ b.length)
    (h : parseItems (parseResp parseF64) b n offset = .ok (vs, last)) :
    ∃ items : List Bytes, items.length = n ∧ (∀ f ∈ items, IsCommand parseF64 f) ∧
      b.take last = b.take offset ++ items.flatten := by
  induction n generalizing offset vs with
  | zero =>
    cases h
    exact ⟨[], rfl, List.forall_mem_nil _, (List.append_nil _).symm⟩
  | succ n ih =>
    obtain ⟨⟨v, used⟩, first, h⟩ := bind_eq_ok h
    obtain ⟨⟨vs', last'⟩, later, h⟩ := bind_eq_ok h
    cases h
    have within := (parseResp_within _ first).2
    rw [List.length_drop] at within
    obtain ⟨items, count, each, split⟩ := ih (by omega) later
    refine ⟨(b.drop offset).take used :: items, by rw [List.length_cons, count], ?_, ?_⟩
    · exact List.forall_mem_cons.2 ⟨isCommand_take first, each⟩
    · rw [split, List.take_add, List.flatten_cons, List.append_assoc]

/-- What is behind the header of an aggregate that is the whole buffer. -/
theorem aggregate_of_parseItems (width : Nat) {n : Nat} {vs : List Resp}
    (ih : ∀ f : Bytes, f.length < (tag :: b).length → IsCommand parseF64 f → FrameOf parseF64 .lenient f)
    (kind : (tag, width) ∈ Tag.aggregates) (header : Dialect.lenient.header tag text n) (inline : Inline text)
    (fits : n ≤ MAX_ARRAY_LEN) (split : tag :: b = line tag text ++ more)
    (h : parseItems (parseResp parseF64) (tag :: b) (width * n) (line tag text).length = .ok (vs, (tag :: b).length)) :
    FrameOf parseF64 .lenient (tag :: b) := by
  obtain ⟨items, count, each, whole⟩ := exists_flatten (by rw [split]; simp) h
  rw [List.take_length] at whole
  have front : (tag :: b).take (line tag text).length = line tag text := by rw [split, List.take_left]
  rw [front] at whole
  rw [whole]
  refine .aggregate kind header inline fits count fun f mem => ih f ?_ (each f mem)
  have inside := (List.sublist_flatten_of_mem mem).length_le
  rw [whole, List.length_append, length_line]
  omega

theorem frame_of_parseBulkString {v : Resp}
    (h : parseBulkString (Tag.bulkString :: b) = .ok (v, (Tag.bulkString :: b).length)) :
    FrameOf parseF64 .lenient (Tag.bulkString :: b) := by
  obtain ⟨⟨len, header⟩, read, h⟩ := bind_eq_ok h
  obtain ⟨text, inline, number, used, more, split⟩ := parseField_eq_ok (by decide) read
  dsimp only at h
  split_ifs at h with null negative long short bad
  · have length := congrArg Prod.snd (Except.ok.inj h)
    have none : more = [] := by
      have total := congrArg List.length split
      rw [List.length_append] at total
      exact List.length_eq_zero_iff.1 (by omega)
    rw [split, none, List.append_nil]
    rw [null] at number
    exact .null (.inl rfl) number inline
  · have length : header + len.toInt.toNat + 2 = (Tag.bulkString :: b).length := congrArg Prod.snd (Except.ok.inj h)
    rw [not_not, used, split, ← List.drop_drop, List.drop_left] at bad
    have total := congrArg List.length split
    rw [List.length_append] at total
    -- What is behind the header is the payload and a line end.
    have behind : more = more.take len.toInt.toNat ++ crlf := by
      have rest : more.drop len.toInt.toNat = crlf := by
        rw [← bad, List.take_of_length_le (by rw [List.length_drop]; omega)]
      rw [← rest, List.take_append_drop]
    have size : (more.take len.toInt.toNat).length = len.toInt.toNat := by
      rw [List.length_take]
      omega
    rw [split, behind]
    refine .bulk ⟨len, number, ?_⟩ inline (by omega)
    rw [Int64.lt_iff_toInt_lt] at negative
    have zero : (0 : Int64).toInt = 0 := rfl
    omega

theorem frame_of_parseArray {v : Resp}
    (ih : ∀ f : Bytes, f.length < (Tag.array :: b).length → IsCommand parseF64 f → FrameOf parseF64 .lenient f)
    (h : parseArray (parseResp parseF64) (Tag.array :: b) = .ok (v, (Tag.array :: b).length)) :
    FrameOf parseF64 .lenient (Tag.array :: b) := by
  obtain ⟨⟨len, header⟩, read, h⟩ := bind_eq_ok h
  obtain ⟨text, inline, number, rfl, more, split⟩ := parseField_eq_ok (by decide) read
  dsimp only at h
  split_ifs at h with null negative long
  · have length : (line Tag.array text).length = (Tag.array :: b).length := congrArg Prod.snd (Except.ok.inj h)
    have none : more = [] := by
      have total := congrArg List.length split
      rw [List.length_append] at total
      exact List.length_eq_zero_iff.1 (by omega)
    rw [split, none, List.append_nil]
    rw [null] at number
    exact .null (.inr rfl) number inline
  · obtain ⟨⟨vs, last⟩, items, h⟩ := bind_eq_ok h
    obtain rfl : last = (Tag.array :: b).length := congrArg Prod.snd (Except.ok.inj h)
    have count : Dialect.lenient.header Tag.array text len.toInt.toNat := by
      refine ⟨len, number, ?_⟩
      rw [Int64.lt_iff_toInt_lt] at negative
      have zero : (0 : Int64).toInt = 0 := rfl
      omega
    exact aggregate_of_parseItems 1 ih (by decide) count inline (by omega) split (by rwa [Nat.one_mul])

theorem frame_of_parseCount (width : Nat) {name : String} {n header : Nat} {vs : List Resp} (printable : tag ≠ 13)
    (ih : ∀ f : Bytes, f.length < (tag :: b).length → IsCommand parseF64 f → FrameOf parseF64 .lenient f)
    (kind : (tag, width) ∈ Tag.aggregates) (resp3 : tag ≠ Tag.array) (read : parseCount name (tag :: b) = .ok (n, header))
    (h : parseItems (parseResp parseF64) (tag :: b) (width * n) header = .ok (vs, (tag :: b).length)) :
    FrameOf parseF64 .lenient (tag :: b) := by
  obtain ⟨⟨count, used⟩, field, read⟩ := bind_eq_ok read
  obtain ⟨text, inline, number, rfl, more, split⟩ := parseField_eq_ok printable field
  dsimp only at read
  split_ifs at read with long
  obtain ⟨rfl, rfl⟩ : count = n ∧ (line tag text).length = header := Prod.ext_iff.1 (Except.ok.inj read)
  have header : Dialect.lenient.header tag text count := by
    rw [Dialect.header, if_neg resp3]
    exact number
  exact aggregate_of_parseItems width ih kind header inline (by omega) split h

theorem frame_of_parseResp3Map {v : Resp}
    (ih : ∀ f : Bytes, f.length < (Tag.map :: b).length → IsCommand parseF64 f → FrameOf parseF64 .lenient f)
    (h : parseResp3Map (parseResp parseF64) (Tag.map :: b) = .ok (v, (Tag.map :: b).length)) :
    FrameOf parseF64 .lenient (Tag.map :: b) := by
  obtain ⟨⟨count, header⟩, read, h⟩ := bind_eq_ok h
  obtain ⟨⟨pairs, last⟩, more, h⟩ := bind_eq_ok h
  rw [parsePairs_eq] at more
  obtain ⟨⟨items, last'⟩, items', more⟩ := bind_eq_ok more
  obtain rfl : last' = last := congrArg Prod.snd (Except.ok.inj more)
  obtain rfl : last' = (Tag.map :: b).length := congrArg Prod.snd (Except.ok.inj h)
  exact frame_of_parseCount 2 (by decide) ih (by decide) (by decide) read items'

theorem frame_of_parseCounted (name : String) (build : List Resp → Resp) {v : Resp} (printable : tag ≠ 13)
    (ih : ∀ f : Bytes, f.length < (tag :: b).length → IsCommand parseF64 f → FrameOf parseF64 .lenient f)
    (kind : (tag, 1) ∈ Tag.aggregates) (resp3 : tag ≠ Tag.array)
    (h : parseCounted (parseResp parseF64) name build (tag :: b) = .ok (v, (tag :: b).length)) :
    FrameOf parseF64 .lenient (tag :: b) := by
  obtain ⟨⟨count, header⟩, read, h⟩ := bind_eq_ok h
  obtain ⟨⟨items, last⟩, more, h⟩ := bind_eq_ok h
  obtain rfl : last = (tag :: b).length := congrArg Prod.snd (Except.ok.inj h)
  exact frame_of_parseCount 1 printable ih kind resp3 read (by rwa [Nat.one_mul])

theorem frame_of_parseResp3Null {v : Resp} (h : parseResp3Null (Tag.null :: b) = .ok (v, (Tag.null :: b).length)) :
    FrameOf parseF64 .lenient (Tag.null :: b) := by
  rw [parseResp3Null] at h
  split_ifs at h with short bad
  have length : 3 = (Tag.null :: b).length := congrArg Prod.snd (Except.ok.inj h)
  rw [List.length_cons] at length
  rw [not_not, List.drop_one, List.tail_cons, List.take_of_length_le (by omega)] at bad
  rw [bad]
  exact .line .null inline_nil

theorem frame_of_parseResp3Bool {v : Resp} (h : parseResp3Bool (Tag.bool :: b) = .ok (v, (Tag.bool :: b).length)) :
    FrameOf parseF64 .lenient (Tag.bool :: b) := by
  rw [parseResp3Bool] at h
  by_cases short : (Tag.bool :: b).length < 4
  · rw [if_pos short] at h
    cases h
  rw [if_neg short] at h
  obtain ⟨flag, read, h⟩ := bind_eq_ok h
  split_ifs at h with bad
  have length : 4 = (Tag.bool :: b).length := congrArg Prod.snd (Except.ok.inj h)
  obtain ⟨c, b, rfl⟩ := List.exists_cons_of_ne_nil (l := b) (by rintro rfl; simp at length)
  simp only [List.length_cons] at length
  rw [not_not, show (Tag.bool :: c :: b).drop 2 = b from rfl, List.take_of_length_le (by omega)] at bad
  cases value : boolByte c with
  | none => simp [value, orInvalid] at read
  | some flag =>
    rw [bad]
    refine .line (.bool value) (inline_of_not_mem ?_)
    rw [List.mem_singleton]
    rintro rfl
    cases value

theorem line_of_parseLine {n : Nat} (printable : tag ≠ 13) (read : parseLine (tag :: b) = .ok (text, n))
    (whole : n = (tag :: b).length) : Inline text ∧ tag :: b = line tag text := by
  obtain ⟨inline, used, more, split⟩ := parseLine_eq_ok printable read
  have total := congrArg List.length split
  rw [List.length_append] at total
  have none : more = [] := List.length_eq_zero_iff.1 (by omega)
  exact ⟨inline, by rw [split, none, List.append_nil]⟩

/-- A line with a number that is the whole buffer. -/
theorem line_of_parseField {α : Type} {encoding : String} {message : String → String} {parse : String → Option α}
    {a : α} {n : Nat} (printable : tag ≠ 13) (read : parseField encoding message parse (tag :: b) = .ok (a, n))
    (whole : n = (tag :: b).length) :
    ∃ text, Inline text ∧ (fromUtf8 text).bind parse = some a ∧ tag :: b = line tag text := by
  obtain ⟨text, inline, number, used, more, split⟩ := parseField_eq_ok printable read
  have total := congrArg List.length split
  rw [List.length_append] at total
  have none : more = [] := List.length_eq_zero_iff.1 (by omega)
  exact ⟨text, inline, number, by rw [split, none, List.append_nil]⟩

theorem frame_of_parseInline {v : Resp} {c : UInt8} (other : c ∉ Dialect.tags)
    (h : parseInline (c :: b) = .ok (v, (c :: b).length)) : FrameOf parseF64 .lenient (c :: b) := by
  unfold parseInline at h
  split at h
  · cases h
  · rename_i pos found
    obtain ⟨parts, tokens, h⟩ := bind_eq_ok h
    split_ifs at h with empty
    have length : pos + 2 = (c :: b).length := congrArg Prod.snd (Except.ok.inj h)
    obtain ⟨none, more, split⟩ := findCrlf_eq_some found
    have taken : ((c :: b).take pos).length = pos := by
      rw [List.length_take]
      omega
    have nothing : more = [] := by
      have total := congrArg List.length split
      simp only [List.length_append, taken, crlf, List.length_cons, List.length_nil] at total
      rw [List.length_cons] at length
      exact List.length_eq_zero_iff.1 (by omega)
    rw [nothing, List.append_nil] at split
    rw [split]
    refine .bare ⟨?_, parts, tokens, by simpa using empty⟩ (inline_iff.2 none)
    cases pos with
    | zero =>
      rw [List.take_zero, tokenizeInline] at tokens
      simp at tokens
      simp [tokens] at empty
    | succ pos => exact ⟨c, b.take pos, rfl, other⟩

/-- **The parser takes the frames of its dialect and nothing else.** -/
theorem isCommand_iff : IsCommand parseF64 b ↔ FrameOf parseF64 .lenient b := by
  refine ⟨fun h => ?_, FrameOf.isCommand⟩
  induction size : b.length using Nat.strongRecOn generalizing b with
  | _ size ih =>
    obtain ⟨v, parsed⟩ := h
    have ih (f : Bytes) (shorter : f.length < b.length) (h : IsCommand parseF64 f) : FrameOf parseF64 .lenient f :=
      ih f.length (size ▸ shorter) h rfl
    rw [parseResp_eq] at parsed
    cases b with
    | nil => cases parsed
    | cons tag b =>
      by_cases other : tag ∉ Dialect.tags
      · rw [parseWith_bare other] at parsed
        exact frame_of_parseInline other parsed
      rw [not_not] at other
      unfold parseWith at parsed
      dsimp only at parsed
      split at parsed
      · obtain ⟨⟨text, n⟩, read, h⟩ := bind_eq_ok parsed
        obtain ⟨inline, split⟩ := line_of_parseLine (by decide) read (congrArg Prod.snd (Except.ok.inj h))
        rw [split]
        exact .line (.simpleString text) inline
      · obtain ⟨⟨text, n⟩, read, h⟩ := bind_eq_ok parsed
        obtain ⟨inline, split⟩ := line_of_parseLine (by decide) read (congrArg Prod.snd (Except.ok.inj h))
        rw [split]
        exact .line (.error text) inline
      · obtain ⟨⟨n, m⟩, read, h⟩ := bind_eq_ok parsed
        obtain ⟨text, inline, number, split⟩ :=
          line_of_parseField (by decide) read (congrArg Prod.snd (Except.ok.inj h))
        rw [split]
        exact .line (.integer number) inline
      · exact frame_of_parseBulkString parsed
      · exact frame_of_parseArray ih parsed
      · exact frame_of_parseResp3Null parsed
      · exact frame_of_parseResp3Bool parsed
      · obtain ⟨⟨d, m⟩, read, h⟩ := bind_eq_ok parsed
        obtain ⟨text, inline, number, split⟩ :=
          line_of_parseField (by decide) read (congrArg Prod.snd (Except.ok.inj h))
        rw [split]
        exact .line (.double number) inline
      · exact frame_of_parseResp3Map ih parsed
      · exact frame_of_parseCounted "set" .set (by decide) ih (by decide) (by decide) parsed
      · exact frame_of_parseCounted "push" .push (by decide) ih (by decide) (by decide) parsed
      · rename_i no1 no2 no3 no4 no5 no6 no7 no8 no9 no10 no11
        revert other
        simp_all [Dialect.tags, Tag.lines, Tag.aggregates]

end

end NexradeCache
