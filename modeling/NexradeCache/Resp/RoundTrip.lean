import NexradeCache.Resp.Streaming

/-!
# RESP round trip

`Resp.image` is the value a reader gets for what the writer sent: RESP3 folds both nulls of RESP2
into one, RESP2 sees maps as flat arrays, sets and pushes as arrays, booleans as integers and
doubles as text. `frame_reads` is the induction over nested values: behind the frame of `v` the
parser returns the image of `v` and stops at the first byte of what follows.
-/

namespace NexradeCache

open Utf8 Decimal Stream

namespace Resp

section Image

variable (fmt : Fmt) (version : UInt8)

mutual

/-- What is left of a value on the wire. -/
def image : Resp → Resp
  | .bulkString none => if version ≥ 3 then .null else .bulkString none
  | .array none => if version ≥ 3 then .null else .array none
  | .array (some items) => .array (some (imageItems items))
  | .bool b => if version ≥ 3 then .bool b else .integer (if b then 1 else 0)
  | .double d => if version ≥ 3 then .double d else .bulkString (some (fmt.float d))
  | .map pairs =>
    if version ≥ 3 then .map (imagePairs pairs) else .array (some (flatPairs (imagePairs pairs)))
  | .set items => if version ≥ 3 then .set (imageItems items) else .array (some (imageItems items))
  | .push items => if version ≥ 3 then .push (imageItems items) else .array (some (imageItems items))
  | other => other

def imageItems : List Resp → List Resp
  | [] => []
  | item :: items => image item :: imageItems items

def imagePairs : List (Resp × Resp) → List (Resp × Resp)
  | [] => []
  | (k, v) :: pairs => (image k, image v) :: imagePairs pairs

end

end Image

/-- `P` holds of a value and of everything nested in it. -/
inductive Everywhere (P : Resp → Prop) : Resp → Prop
  | intro {v : Resp} (here : P v) (nested : ∀ c ∈ v.children, Everywhere P c) : Everywhere P v

/-- The values of a round trip: no raw bytes and no double, lines without CRLF, sizes the parser
accepts. -/
def Plain : Resp → Prop
  | .simpleString s => ¬ crlf <:+: asBytes s
  | .error s => ¬ crlf <:+: asBytes s
  | .bulkString (some data) => data.length ≤ MAX_BULK_LEN
  | .array (some items) => items.length ≤ MAX_ARRAY_LEN
  | .map pairs => pairs.length ≤ MAX_ARRAY_LEN
  | .set items => items.length ≤ MAX_ARRAY_LEN
  | .push items => items.length ≤ MAX_ARRAY_LEN
  | .double _ => False
  | .raw _ => False
  | _ => True

/-- A map that also fits when it is sent as a flat array. -/
def Flattens : Resp → Prop
  | .map pairs => pairs.length * 2 ≤ MAX_ARRAY_LEN
  | _ => True

variable {fmt : Fmt} {version : UInt8}

theorem imageItems_eq (items : List Resp) :
    imageItems fmt version items = items.map (image fmt version) := by
  induction items with
  | nil => rfl
  | cons c items ih => rw [imageItems, ih, List.map_cons]

theorem flatPairs_imagePairs (pairs : List (Resp × Resp)) :
    flatPairs (imagePairs fmt version pairs) = (flatPairs pairs).map (image fmt version) := by
  induction pairs with
  | nil => rfl
  | cons p pairs ih =>
    have step : flatPairs (imagePairs fmt version (p :: pairs)) =
        image fmt version p.1 :: image fmt version p.2 :: flatPairs (imagePairs fmt version pairs) := rfl
    rw [step, ih]
    rfl

theorem pairUp_flatPairs (pairs : List (Resp × Resp)) : pairUp (flatPairs pairs) = pairs := by
  induction pairs with
  | nil => rfl
  | cons p pairs ih =>
    have step : pairUp (flatPairs (p :: pairs)) = p :: pairUp (flatPairs pairs) := rfl
    rw [step, ih]

theorem length_flatPairs (pairs : List (Resp × Resp)) : (flatPairs pairs).length = 2 * pairs.length := by
  induction pairs with
  | nil => rfl
  | cons p pairs ih =>
    have step : flatPairs (p :: pairs) = p.1 :: p.2 :: flatPairs pairs := rfl
    rw [step, List.length_cons, List.length_cons, ih, List.length_cons]
    omega

end Resp

/-! ## Lines -/

theorem findCrlf_eq_none_iff {b : Bytes} : findCrlf b = none ↔ ¬ crlf <:+: b := by
  fun_induction findCrlf b with
  | case1 rest => simp only [reduceCtorEq, false_iff, not_not]; exact ⟨[], rest, rfl⟩
  | case2 c rest other ih =>
    rw [Option.map_eq_none_iff, ih, not_iff_not]
    constructor
    · exact fun h => h.trans (List.suffix_cons c rest).isInfix
    · intro h
      rcases List.infix_cons_iff.1 h with ⟨more, start⟩ | h
      · obtain ⟨rfl, tail⟩ := List.cons.inj start
        exact absurd tail.symm (other more rfl)
      · exact h
  | case3 => simp [crlf]

theorem findCrlf_of_not_mem {b : Bytes} (absent : (13 : UInt8) ∉ b) : findCrlf b = none :=
  findCrlf_eq_none_iff.2 fun h => absent (h.subset (by decide))

/-- A text without CRLF ends at the first CRLF behind it. -/
theorem findCrlf_text {text : Bytes} (none : findCrlf text = none) (rest : Bytes) :
    findCrlf (text ++ (crlf ++ rest)) = some text.length := by
  induction text with
  | nil => rfl
  | cons c text ih =>
    have inner : ¬ ∃ more, c = 13 ∧ text ++ (crlf ++ rest) = 10 :: more := by
      rintro ⟨more, rfl, h⟩
      cases text with
      | nil => cases h
      | cons d text =>
        obtain rfl : d = 10 := (List.cons.inj h).1
        cases none
    have tail : findCrlf text = .none := by
      rw [findCrlf] at none
      · simpa using none
      · rintro more rfl h
        exact inner ⟨more ++ (crlf ++ rest), rfl, by rw [h]; rfl⟩
    rw [List.cons_append, findCrlf]
    · rw [ih tail]; rfl
    · intro more hc h
      exact inner ⟨more, hc, h⟩

theorem length_line (tag : UInt8) (text : Bytes) : (line tag text).length = text.length + 3 := by
  simp [line, crlf]

theorem parseLine_line {tag : UInt8} (printable : tag ≠ 13) {text : Bytes}
    (none : findCrlf text = none) (rest : Bytes) :
    parseLine (line tag text ++ rest) = .ok (text, (line tag text).length) := by
  have whole : findCrlf (tag :: text) = .none := by
    rw [findCrlf]
    · rw [none]; rfl
    · intro more hc
      exact absurd hc printable
  have split : line tag text ++ rest = (tag :: text) ++ (crlf ++ rest) := by simp [line]
  have front : ((tag :: text) ++ (crlf ++ rest)).take (tag :: text).length = tag :: text :=
    List.take_left ..
  rw [parseLine, split, findCrlf_text whole, length_line]
  dsimp only
  rw [front]
  rfl

theorem parseField_line {α : Type} {encoding : String} {text : String → String}
    {parse : String → Option α} {tag : UInt8} (printable : tag ≠ 13) {ds : Bytes}
    (ascii : ∀ x ∈ ds, x < 128) (absent : (13 : UInt8) ∉ ds) {a : α}
    (reads : ∀ s, asBytes s = ds → parse s = some a) (rest : Bytes) :
    parseField encoding text parse (line tag ds ++ rest) = .ok (a, (line tag ds).length) := by
  obtain ⟨s, decoded, same⟩ := fromUtf8_ascii ascii
  rw [parseField, parseLine_line printable (findCrlf_of_not_mem absent)]
  simp only [bind, Except.bind, decoded, orInvalid, reads s same]
  rfl

section Numerals

variable {fmt : Fmt} (decimal : fmt.Decimal) {encoding : String} {text : String → String}
  {tag : UInt8} (printable : tag ≠ 13)

include decimal printable

/-- Reading back a length as `i64`. -/
theorem parseField_i64_length {n : Nat} (fits : n < 2 ^ 63) (rest : Bytes) :
    parseField encoding text parseI64 (line tag (putUsize fmt n) ++ rest) =
      .ok (Int64.ofInt n, (line tag (putUsize fmt n)).length) := by
  rw [putUsize, decimal n]
  exact parseField_line printable (isNumeral_numeral n).ascii
    ((isNumeral_numeral n).not_mem (by decide))
    (fun s same => (isNumeral_numeral n).parseI64 (value_numeral n) fits same) rest

/-- Reading back a length as `usize`. -/
theorem parseField_usize_length {n : Nat} (fits : n < 2 ^ 64) (rest : Bytes) :
    parseField encoding text parseUsize (line tag (putUsize fmt n) ++ rest) =
      .ok (n, (line tag (putUsize fmt n)).length) := by
  rw [putUsize, decimal n]
  exact parseField_line printable (isNumeral_numeral n).ascii
    ((isNumeral_numeral n).not_mem (by decide))
    (fun s same => (isNumeral_numeral n).parseUsize (value_numeral n) fits same) rest

end Numerals

/-- The digits of `put_i64`, behind a minus sign for a negative number. -/
theorem putI64_cases (n : Int64) : ∃ ds, IsNumeral ds ∧ value 0 ds = some n.toInt.natAbs ∧
    putI64 n = (if n < 0 then 45 :: ds else ds) ∧ ds.length ≤ 19 := by
  by_cases zero : n = 0
  · exact ⟨[48], isNumeral_digit 0, by subst zero; decide, by subst zero; decide, by decide⟩
  by_cases one : n = 1
  · exact ⟨[49], isNumeral_digit 1, by subst one; decide, by subst one; decide, by decide⟩
  have low := Int64.le_toInt n
  have high := Int64.toInt_lt n
  have nonzero : n.toInt ≠ 0 := fun h => zero (Int64.toInt_inj.1 (by rw [h]; rfl))
  have positive : n.toInt.natAbs ≠ 0 := by omega
  have sign : n < 0 ↔ n.toInt < 0 := Int64.lt_iff_toInt_lt
  have abs : (if n < 0 then n.toInt.natAbs else n.toInt.toNat) = n.toInt.natAbs := by
    simp only [sign]
    split <;> omega
  refine ⟨fill 20 n.toInt.natAbs [], isNumeral_fill positive, ?_, ?_, ?_⟩
  · rw [value_fill (by omega)]
    rfl
  · simp only [putI64, zero, one, if_false, decide_eq_true_eq, abs, positive]
  · exact length_fill_le (j := 19) (by omega) []

theorem parseI64_putI64 (n : Int64) : (∀ x ∈ putI64 n, x < 128) ∧ (13 : UInt8) ∉ putI64 n ∧
    ∀ s, asBytes s = putI64 n → parseI64 s = some n := by
  obtain ⟨ds, numeral, val, eq, -⟩ := putI64_cases n
  have low := Int64.le_toInt n
  have high := Int64.toInt_lt n
  have sign : n < 0 ↔ n.toInt < 0 := Int64.lt_iff_toInt_lt
  rw [eq]
  split
  · rename_i negative
    rw [sign] at negative
    have same : -(n.toInt.natAbs : Int) = n.toInt := by omega
    refine ⟨?_, ?_, fun s text => ?_⟩
    · intro x mem
      rcases List.mem_cons.1 mem with rfl | mem
      · decide
      · exact numeral.ascii x mem
    · exact List.not_mem_cons_of_ne_of_not_mem (by decide) (numeral.not_mem (by decide))
    · rw [numeral.parseI64_neg val (by omega) text, same, Int64.ofInt_toInt]
  · rename_i positive
    rw [sign] at positive
    have same : (n.toInt.natAbs : Int) = n.toInt := by omega
    exact ⟨numeral.ascii, numeral.not_mem (by decide), fun s text => by
      rw [numeral.parseI64 val (by omega) text, same, Int64.ofInt_toInt]⟩

theorem parseField_putI64 {encoding : String} {text : String → String} {tag : UInt8}
    (printable : tag ≠ 13) (n : Int64) (rest : Bytes) :
    parseField encoding text parseI64 (line tag (putI64 n) ++ rest) =
      .ok (n, (line tag (putI64 n)).length) := by
  obtain ⟨ascii, absent, reads⟩ := parseI64_putI64 n
  exact parseField_line printable ascii absent reads rest

theorem parseInteger_reads (n : Int64) (t : Bytes) : parseInteger (line Tag.integer (putI64 n) ++ t) =
    .ok (.integer n, (line Tag.integer (putI64 n)).length) := by
  rw [parseInteger, parseField_putI64 (by decide)]
  rfl

/-! ## Frames -/

section Frames

open Resp

variable {fmt : Fmt} {version : UInt8} {parse : Bytes → ParseResult (Resp × Nat)}

/-- Behind the frame of `v`, `parse` returns the image of `v` and stops. -/
def Reads (parse : Bytes → ParseResult (Resp × Nat)) (fmt : Fmt) (version : UInt8) (v : Resp) : Prop :=
  ∀ t, parse (v.frame fmt version ++ t) = .ok (v.image fmt version, (v.frame fmt version).length)

theorem parseItems_reads {items : List Resp} (each : ∀ c ∈ items, Reads parse fmt version c)
    (header t : Bytes) :
    parseItems parse (header ++ items.flatMap (frame fmt version) ++ t) items.length header.length =
      .ok (items.map (image fmt version),
        (header ++ items.flatMap (frame fmt version)).length) := by
  induction items generalizing header with
  | nil => simp [parseItems]
  | cons c items ih =>
    have regroup : header ++ (c :: items).flatMap (frame fmt version) ++ t =
        header ++ (c.frame fmt version ++ (items.flatMap (frame fmt version) ++ t)) := by simp
    have next := ih (fun d mem => each d (by simp [mem])) (header ++ c.frame fmt version)
    rw [List.length_append, List.append_assoc, List.append_assoc] at next
    rw [List.length_cons, parseItems, regroup, List.drop_left, each c (by simp)]
    simp only [bind, Except.bind]
    rw [next]
    simp only [pure, Except.pure, List.map_cons, List.flatMap_cons, List.length_append]
    congr 2
    omega

variable {parseF64 : String → Option F64} (decimal : fmt.Decimal)

include decimal

omit decimal in
/-- A length is not taken for a null or a negative length. -/
theorem length_i64 {n : Nat} (fits : n < 2 ^ 63) : (Int64.ofInt n).toInt = n ∧
    Int64.ofInt n ≠ -1 ∧ ¬ Int64.ofInt n < 0 := by
  have value : (Int64.ofInt n).toInt = n := Int64.toInt_ofInt_of_le (by omega) (by omega)
  have zero : (0 : Int64).toInt = 0 := rfl
  refine ⟨value, ?_, ?_⟩
  · intro h
    rw [h] at value
    have minus : (-1 : Int64).toInt = -1 := rfl
    omega
  · rw [Int64.lt_iff_toInt_lt, value]
    omega

/-- Reading an array header and its elements. -/
theorem parseArray_reads {items : List Resp} (short : items.length ≤ MAX_ARRAY_LEN)
    (each : ∀ c ∈ items, Reads parse fmt version c) (t : Bytes) :
    parseArray parse (line Tag.array (putUsize fmt items.length) ++
        items.flatMap (frame fmt version) ++ t) =
      .ok (.array (some (items.map (image fmt version))),
        (line Tag.array (putUsize fmt items.length) ++ items.flatMap (frame fmt version)).length) := by
  have fits : items.length < 2 ^ 63 := lt_of_le_of_lt short (by decide)
  obtain ⟨value, notNull, notNegative⟩ := length_i64 fits
  rw [parseArray, List.append_assoc, parseField_i64_length decimal (by decide) fits]
  simp only [bind, Except.bind, notNull, notNegative, if_false, value, Int.toNat_natCast]
  rw [if_neg (by omega), ← List.append_assoc, parseItems_reads each]
  rfl

omit decimal in
/-- A payload between its header and its CRLF. -/
theorem payload_slices (header data t : Bytes) :
    ¬ (header ++ (data ++ (crlf ++ t))).length < header.length + data.length + 2 ∧
      ((header ++ (data ++ (crlf ++ t))).drop (header.length + data.length)).take 2 = crlf ∧
      ((header ++ (data ++ (crlf ++ t))).drop header.length).take data.length = data := by
  have payload : (header ++ (data ++ (crlf ++ t))).drop header.length = data ++ (crlf ++ t) :=
    List.drop_left ..
  refine ⟨?_, ?_, ?_⟩
  · simp only [List.length_append, crlf, List.length_cons, List.length_nil]
    omega
  · rw [← List.drop_drop, payload, List.drop_left]
    rfl
  · rw [payload, List.take_left]

theorem parseBulkString_reads {data : Bytes} (short : data.length ≤ MAX_BULK_LEN) (t : Bytes) :
    parseBulkString (line Tag.bulkString (putUsize fmt data.length) ++ data ++ crlf ++ t) =
      .ok (.bulkString (some data),
        (line Tag.bulkString (putUsize fmt data.length) ++ data ++ crlf).length) := by
  have fits : data.length < 2 ^ 63 := lt_of_le_of_lt short (by decide)
  obtain ⟨value, notNull, notNegative⟩ := length_i64 fits
  obtain ⟨total, last, payload⟩ := payload_slices (line Tag.bulkString (putUsize fmt data.length)) data t
  rw [parseBulkString, List.append_assoc, List.append_assoc,
    parseField_i64_length decimal (by decide) fits]
  simp only [bind, Except.bind, notNull, notNegative, if_false, value, Int.toNat_natCast]
  rw [if_neg (by omega), if_neg total, last, payload, if_neg (by simp)]
  simp only [pure, Except.pure, List.length_append, crlf, List.length_cons, List.length_nil]

theorem parseCount_reads {name : String} {tag : UInt8} (printable : tag ≠ 13) {n : Nat}
    (short : n ≤ MAX_ARRAY_LEN) (rest : Bytes) :
    parseCount name (line tag (putUsize fmt n) ++ rest) =
      .ok (n, (line tag (putUsize fmt n)).length) := by
  rw [parseCount, parseField_usize_length decimal printable (lt_of_le_of_lt short (by decide))]
  simp only [bind, Except.bind]
  rw [if_neg (by omega)]
  rfl

theorem parseCounted_reads {name : String} {build : List Resp → Resp} {tag : UInt8}
    (printable : tag ≠ 13) {items : List Resp} (short : items.length ≤ MAX_ARRAY_LEN)
    (each : ∀ c ∈ items, Reads parse fmt version c) (t : Bytes) :
    parseCounted parse name build (line tag (putUsize fmt items.length) ++
        items.flatMap (frame fmt version) ++ t) =
      .ok (build (items.map (image fmt version)),
        (line tag (putUsize fmt items.length) ++ items.flatMap (frame fmt version)).length) := by
  rw [parseCounted, List.append_assoc, parseCount_reads decimal printable short]
  simp only [bind, Except.bind]
  rw [← List.append_assoc, parseItems_reads each]
  rfl

theorem parseResp3Map_reads {pairs : List (Resp × Resp)} (short : pairs.length ≤ MAX_ARRAY_LEN)
    (each : ∀ c ∈ flatPairs pairs, Reads parse fmt version c) (t : Bytes) :
    parseResp3Map parse (line Tag.map (putUsize fmt pairs.length) ++
        (flatPairs pairs).flatMap (frame fmt version) ++ t) =
      .ok (.map (imagePairs fmt version pairs),
        (line Tag.map (putUsize fmt pairs.length) ++
          (flatPairs pairs).flatMap (frame fmt version)).length) := by
  rw [parseResp3Map, List.append_assoc, parseCount_reads decimal (by decide) short]
  simp only [bind, Except.bind, parsePairs_eq]
  rw [← List.append_assoc, ← length_flatPairs, parseItems_reads each, ← flatPairs_imagePairs]
  simp only [pure, Except.pure, pairUp_flatPairs]

/-- One value, given that its sub-values are read back. -/
theorem frame_reads_step {v : Resp} (plain : Plain v) (flat : version < 3 → Flattens v)
    (each : ∀ c ∈ v.children, Reads (parseResp parseF64) fmt version c) :
    Reads (parseResp parseF64) fmt version v := by
  intro t
  rw [frame_eq, parseResp_eq]
  cases v with
  | simpleString s =>
    have noCrlf := findCrlf_eq_none_iff.2 (show ¬ crlf <:+: asBytes s from plain)
    simp only [children, List.flatMap_nil, List.append_nil, head, image]
    show parseSimpleString _ = _
    rw [parseSimpleString, parseLine_line (by decide) noCrlf]
    simp only [bind, Except.bind, pure, Except.pure, fromUtf8Lossy_asBytes]
  | error s =>
    have noCrlf := findCrlf_eq_none_iff.2 (show ¬ crlf <:+: asBytes s from plain)
    simp only [children, List.flatMap_nil, List.append_nil, head, image]
    show parseError _ = _
    rw [parseError, parseLine_line (by decide) noCrlf]
    simp only [bind, Except.bind, pure, Except.pure, fromUtf8Lossy_asBytes]
  | integer n =>
    simp only [children, List.flatMap_nil, List.append_nil, head, image]
    exact parseInteger_reads n t
  | bulkString data =>
    cases data with
    | none =>
      have text : asBytes "$-1\r\n" = line Tag.bulkString (putI64 (-1)) := by decide
      simp only [children, List.flatMap_nil, List.append_nil, head, image, text]
      split
      · rfl
      · show parseBulkString _ = _
        rw [parseBulkString, parseField_putI64 (by decide)]
        rfl
    | some data =>
      simp only [children, List.flatMap_nil, List.append_nil, head, image]
      exact parseBulkString_reads decimal plain t
  | array items =>
    cases items with
    | none =>
      have text : asBytes "*-1\r\n" = line Tag.array (putI64 (-1)) := by decide
      simp only [children, List.flatMap_nil, List.append_nil, head, image, text]
      split
      · rfl
      · show parseArray _ _ = _
        rw [parseArray, parseField_putI64 (by decide)]
        rfl
    | some items =>
      simp only [head, image, imageItems_eq]
      exact parseArray_reads decimal plain each t
  | null => rfl
  | bool b =>
    simp only [children, List.flatMap_nil, List.append_nil, head, image]
    split
    · cases b <;> rfl
    · cases b
      · exact parseInteger_reads 0 t
      · exact parseInteger_reads 1 t
  | double d => exact plain.elim
  | map pairs =>
    simp only [head, image]
    split
    · exact parseResp3Map_reads decimal plain each t
    · rename_i old
      have short : (flatPairs pairs).length ≤ MAX_ARRAY_LEN := by
        rw [length_flatPairs, Nat.mul_comm]
        exact flat (UInt8.not_le.1 old)
      rw [Nat.mul_comm, ← length_flatPairs, flatPairs_imagePairs]
      exact parseArray_reads decimal short each t
  | set items =>
    simp only [head, image, imageItems_eq]
    split
    · exact parseCounted_reads decimal (by decide) plain each t
    · exact parseArray_reads decimal plain each t
  | push items =>
    simp only [head, image, imageItems_eq]
    split
    · exact parseCounted_reads decimal (by decide) plain each t
    · exact parseArray_reads decimal plain each t
  | raw bytes => exact plain.elim

/-- **Every frame reads back as the image of its value**, whatever follows. -/
theorem frame_reads {v : Resp} (plain : Everywhere Plain v)
    (flat : version < 3 → Everywhere Flattens v) : Reads (parseResp parseF64) fmt version v := by
  induction plain with
  | intro here nested ih =>
    refine frame_reads_step decimal here (fun old => ?_) fun c mem => ih c mem fun old => ?_
    · cases flat old with
      | intro fits _ => exact fits
    · cases flat old with
      | intro _ below => exact below c mem

end Frames

/-- **RESP round trip**: what follows a frame is untouched, version 3 keeps everything but the two
nulls, version 2 returns the RESP2 image when the maps fit as flat arrays; the owned writer and the
segments of the buffer carry the same bytes. -/
theorem resp_round_trip (parseF64 : String → Option F64) (fmt : Fmt) (decimal : fmt.Decimal)
    (v : Resp) (plain : v.Everywhere Resp.Plain) (t : Bytes) :
    parseResp parseF64 (v.serializeForVersion fmt 3 ++ t) =
        .ok (v.image fmt 3, (v.serializeForVersion fmt 3).length) ∧
      (v.Everywhere Resp.Flattens → parseResp parseF64 (v.serializeForVersion fmt 2 ++ t) =
        .ok (v.image fmt 2, (v.serializeForVersion fmt 2).length)) ∧
      ∀ (w : Resp) (version : UInt8) (buf : SegBuf),
        (w.writeToForVersion fmt version buf).contents =
          buf.contents ++ w.serializeForVersion fmt version ∧
        (w.writeToForVersionOwned fmt version buf).contents =
          buf.contents ++ w.serializeForVersion fmt version := by
  refine ⟨?_, fun flat => ?_, fun w version buf => ⟨?_, ?_⟩⟩
  · rw [Resp.serializeForVersion_eq]
    exact frame_reads decimal plain (fun old => absurd old (by decide)) t
  · rw [Resp.serializeForVersion_eq]
    exact frame_reads decimal plain (fun _ => flat) t
  · rw [Resp.writeToForVersion_contents, Resp.serializeForVersion_eq]
  · rw [Resp.writeToForVersionOwned_eq, Resp.writeToForVersion_contents, Resp.serializeForVersion_eq]

/-- Decimal lengths; doubles have no text. -/
def Fmt.plain : Fmt := ⟨numeral, fun _ => []⟩

theorem Resp.everywhere_leaf {P : Resp → Prop} {v : Resp} (here : P v) (leaf : v.children = []) :
    v.Everywhere P :=
  .intro here fun c mem => by rw [leaf] at mem; cases mem

/-- A nested reply with both nulls, read back in both versions. -/
theorem resp_round_trip_nested :
    parseResp (fun _ => none) ((Resp.map [(.integer (-7), .array none)]).serializeForVersion .plain 3 ++ [43]) =
        .ok (.map [(.integer (-7), .null)], 12) ∧
      parseResp (fun _ => none) ((Resp.map [(.integer (-7), .array none)]).serializeForVersion .plain 2 ++ [43]) =
        .ok (.array (some [.integer (-7), .array none]), 14) := by
  have each (P : Resp → Prop) (one : P (.integer (-7))) (two : P (.array none)) :
      ∀ c ∈ (Resp.map [(.integer (-7), .array none)]).children, c.Everywhere P := by
    intro c mem
    simp only [Resp.children, Resp.flatPairs, List.flatMap_cons, List.flatMap_nil, List.append_nil,
      List.mem_cons, List.not_mem_nil, or_false] at mem
    rcases mem with rfl | rfl
    · exact Resp.everywhere_leaf one rfl
    · exact Resp.everywhere_leaf two rfl
  have trip := resp_round_trip (fun _ => none) .plain (fun _ => rfl) (.map [(.integer (-7), .array none)])
    (.intro (show 1 ≤ MAX_ARRAY_LEN by decide) (each Resp.Plain trivial trivial)) [43]
  exact ⟨trip.1, trip.2.1 (.intro (show 1 * 2 ≤ MAX_ARRAY_LEN by decide)
    (each Resp.Flattens trivial trivial))⟩

/-- A map the RESP3 parser takes, whose flat array is too long for the RESP2 one. -/
def wideMap : Resp := .map (List.replicate 512001 (.null, .null))

/-- The flat form of the map is refused for its length. -/
theorem wideMap_rejected : wideMap.Everywhere Resp.Plain ∧
    parseResp (fun _ => none) (wideMap.serializeForVersion .plain 2) =
      .error (.invalid "invalid multibulk length: 1024002") := by
  constructor
  · refine .intro ?_ fun c mem => ?_
    · show (List.replicate 512001 _).length ≤ MAX_ARRAY_LEN
      rw [List.length_replicate]
      decide
    · obtain ⟨p, mem, here⟩ := List.mem_flatMap.1 (show c ∈ Resp.flatPairs _ from mem)
      obtain rfl : c = .null := by
        rw [(List.mem_replicate.1 mem).2] at here
        simpa using here
      exact Resp.everywhere_leaf trivial rfl
  · have head : wideMap.head .plain 2 = line Tag.array (putUsize .plain 1024002) := by
      show line Tag.array (putUsize .plain ((List.replicate 512001 _).length * 2)) = _
      rw [List.length_replicate]
    rw [Resp.serializeForVersion_eq, Resp.frame_eq, head, parseResp_eq]
    show parseArray _ _ = _
    rw [parseArray, parseField_i64_length (fun _ => rfl) (by decide) (by decide)]
    rfl

end NexradeCache
