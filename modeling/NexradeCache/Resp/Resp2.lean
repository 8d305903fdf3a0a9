import NexradeCache.Resp.RoundTrip

/-!
# What a RESP2-only client reads

`Resp2.decodeFor` is a decoder that knows the five type bytes of RESP2 and nothing else, with no
limits on sizes. `serialize_resp2_iff` says exactly for which values the version 2 writer serves
such a client: those with no `Null` and no CRLF inside a simple string or error, at any depth. One
direction is the round trip against this decoder; for the other, whatever the decoder returns is of
that kind, and a value is when its image is.
-/

namespace NexradeCache

open Utf8 Decimal Stream

namespace Resp2

/-- The type bytes of RESP2. -/
def tags : List UInt8 := [Tag.simpleString, Tag.error, Tag.integer, Tag.bulkString, Tag.array]

/-- A length: `-1` for null, otherwise a numeral. -/
def readLength (s : String) : Option (Option Nat) :=
  match asBytes s with
  | [] => none
  | [45, 49] => some none
  | ds => (value 0 ds).map some

def decodeBulk (buf : Bytes) : ParseResult (Resp × Nat) := do
  let (len, headerLen) ← parseField "invalid length" id readLength buf
  match len with
  | none => return (.bulkString none, headerLen)
  | some n =>
    if buf.length < headerLen + n + 2 then throw .incomplete
    else if (buf.drop (headerLen + n)).take 2 ≠ crlf then throw (.invalid "missing CRLF")
    else return (.bulkString (some ((buf.drop headerLen).take n)), headerLen + n + 2)

def decodeArray (decode : Bytes → ParseResult (Resp × Nat)) (buf : Bytes) :
    ParseResult (Resp × Nat) := do
  let (len, headerLen) ← parseField "invalid length" id readLength buf
  match len with
  | none => return (.array none, headerLen)
  | some n =>
    let (items, offset) ← parseItems decode buf n headerLen
    return (.array (some items), offset)

def decodeText (build : String → Resp) (buf : Bytes) : ParseResult (Resp × Nat) := do
  let (s, consumed) ← parseField "invalid text" id some buf
  return (build s, consumed)

def decodeWith (decode : Bytes → ParseResult (Resp × Nat)) (buf : Bytes) : ParseResult (Resp × Nat) :=
  match buf with
  | [] => .error .incomplete
  | tag :: _ =>
    match tag with
    | Tag.simpleString => decodeText .simpleString buf
    | Tag.error => decodeText .error buf
    | Tag.integer => parseInteger buf
    | Tag.bulkString => decodeBulk buf
    | Tag.array => decodeArray decode buf
    | _ => .error (.invalid "unknown type byte")

/-- Values nested less than `k` deep. -/
def decodeFor : Nat → Bytes → ParseResult (Resp × Nat)
  | 0, _ => .error .incomplete
  | k + 1, buf => decodeWith (decodeFor k) buf

end Resp2

namespace Resp

/-- Not pre-serialised bytes. -/
def NotRaw : Resp → Prop
  | .raw _ => False
  | _ => True

/-- What RESP2 can carry: no `Null`, no CRLF in a line. -/
def Carried : Resp → Prop
  | .null => False
  | .simpleString s => ¬ crlf <:+: asBytes s
  | .error s => ¬ crlf <:+: asBytes s
  | _ => True

/-- The nulls of the three kinds. -/
def isNull : Resp → Bool
  | .null => true
  | .bulkString none => true
  | .array none => true
  | _ => false

/-- The frame starts with a RESP2 type byte, and a null is `$-1` or `*-1`. -/
def Framed (fmt : Fmt) (v : Resp) : Prop :=
  (∃ tag ∈ Resp2.tags, ∃ rest, v.frame fmt 2 = tag :: rest) ∧
    (v.isNull = true → v.frame fmt 2 = asBytes "$-1\r\n" ∨ v.frame fmt 2 = asBytes "*-1\r\n")

/-- **A RESP2 connection only sees RESP2 frames**: at every depth, and a RESP2-only decoder reads the
whole output as the RESP2 image of the value. -/
def ServesResp2 (fmt : Fmt) (v : Resp) : Prop :=
  v.Everywhere (Framed fmt) ∧
    ∃ k, Resp2.decodeFor k (v.serializeForVersion fmt 2) =
      .ok (v.image fmt 2, (v.serializeForVersion fmt 2).length)

end Resp

namespace Resp2

open Resp

variable {fmt : Fmt} {decode : Bytes → ParseResult (Resp × Nat)}

/-! ## Reading what the writer sends -/

theorem decodeText_reads {tag : UInt8} (printable : tag ≠ 13) {s : String}
    (noCrlf : ¬ crlf <:+: asBytes s) (build : String → Resp) (t : Bytes) :
    decodeText build (line tag (asBytes s) ++ t) = .ok (build s, (line tag (asBytes s)).length) := by
  rw [decodeText, parseField, parseLine_line printable (findCrlf_eq_none_iff.2 noCrlf)]
  simp only [bind, Except.bind, pure, Except.pure, fromUtf8_asBytes, orInvalid]

theorem readLength_minus {s : String} (text : asBytes s = putI64 (-1)) : readLength s = some none := by
  rw [readLength, text]
  rfl

theorem readLength_numeral {s : String} {n : Nat} (text : asBytes s = numeral n) :
    readLength s = some (some n) := by
  have digits := isNumeral_numeral n
  have val := value_numeral n
  rw [readLength, text]
  split
  · exact absurd ‹_› digits.nonempty
  · rename_i minus
    exact absurd (show (45 : UInt8) ∈ numeral n by rw [minus]; decide) (digits.not_mem (by decide))
  · rw [val]
    rfl

theorem parseLength_reads (decimal : fmt.Decimal) {tag : UInt8} (printable : tag ≠ 13) (n : Nat)
    (rest : Bytes) : parseField "invalid length" id readLength (line tag (putUsize fmt n) ++ rest) =
      .ok (some n, (line tag (putUsize fmt n)).length) := by
  rw [putUsize, decimal n]
  exact parseField_line printable (isNumeral_numeral n).ascii
    ((isNumeral_numeral n).not_mem (by decide)) (fun s text => readLength_numeral text) rest

theorem parseLength_null {tag : UInt8} (printable : tag ≠ 13) (rest : Bytes) :
    parseField "invalid length" id readLength (line tag (putI64 (-1)) ++ rest) =
      .ok (none, (line tag (putI64 (-1))).length) :=
  parseField_line printable (parseI64_putI64 (-1)).1 (parseI64_putI64 (-1)).2.1
    (fun _ text => readLength_minus text) rest

theorem decodeBulk_reads (decimal : fmt.Decimal) (data t : Bytes) :
    decodeBulk (line Tag.bulkString (putUsize fmt data.length) ++ data ++ crlf ++ t) =
      .ok (.bulkString (some data),
        (line Tag.bulkString (putUsize fmt data.length) ++ data ++ crlf).length) := by
  obtain ⟨total, last, payload⟩ := payload_slices (line Tag.bulkString (putUsize fmt data.length)) data t
  rw [decodeBulk, List.append_assoc, List.append_assoc, parseLength_reads decimal (by decide)]
  simp only [bind, Except.bind]
  rw [if_neg total, last, payload, if_neg (by simp)]
  simp only [pure, Except.pure, List.length_append, crlf, List.length_cons, List.length_nil]

theorem decodeArray_reads (decimal : fmt.Decimal) {items : List Resp}
    (each : ∀ c ∈ items, Reads decode fmt 2 c) (t : Bytes) :
    decodeArray decode (line Tag.array (putUsize fmt items.length) ++ items.flatMap (frame fmt 2) ++ t) =
      .ok (.array (some (items.map (image fmt 2))),
        (line Tag.array (putUsize fmt items.length) ++ items.flatMap (frame fmt 2)).length) := by
  rw [decodeArray, List.append_assoc, parseLength_reads decimal (by decide)]
  simp only [bind, Except.bind]
  rw [← List.append_assoc, parseItems_reads each]
  rfl

/-- One value, given that the decoder for less deep values reads its sub-values. -/
theorem decodeWith_reads (decimal : fmt.Decimal) {v : Resp} (notRaw : NotRaw v) (carried : Carried v)
    (each : ∀ c ∈ v.children, Reads decode fmt 2 c) : Reads (decodeWith decode) fmt 2 v := by
  have two : ¬ (2 : UInt8) ≥ 3 := by decide
  intro t
  rw [frame_eq]
  cases v with
  | simpleString s =>
    simp only [children, List.flatMap_nil, List.append_nil, head, image]
    exact decodeText_reads (by decide) carried _ t
  | error s =>
    simp only [children, List.flatMap_nil, List.append_nil, head, image]
    exact decodeText_reads (by decide) carried _ t
  | integer n =>
    simp only [children, List.flatMap_nil, List.append_nil, head, image]
    exact parseInteger_reads n t
  | bulkString data =>
    cases data with
    | none =>
      have text : asBytes "$-1\r\n" = line Tag.bulkString (putI64 (-1)) := by decide
      simp only [children, List.flatMap_nil, List.append_nil, head, image, two, if_false, text]
      show decodeBulk _ = _
      rw [decodeBulk, parseLength_null (by decide)]
      rfl
    | some data =>
      simp only [children, List.flatMap_nil, List.append_nil, head, image]
      exact decodeBulk_reads decimal data t
  | array items =>
    cases items with
    | none =>
      have text : asBytes "*-1\r\n" = line Tag.array (putI64 (-1)) := by decide
      simp only [children, List.flatMap_nil, List.append_nil, head, image, two, if_false, text]
      show decodeArray _ _ = _
      rw [decodeArray, parseLength_null (by decide)]
      rfl
    | some items =>
      simp only [head, image, imageItems_eq]
      exact decodeArray_reads decimal each t
  | null => exact carried.elim
  | bool b =>
    simp only [children, List.flatMap_nil, List.append_nil, head, image, two, if_false]
    cases b
    · exact parseInteger_reads 0 t
    · exact parseInteger_reads 1 t
  | double d =>
    simp only [children, List.flatMap_nil, List.append_nil, head, image, two, if_false]
    exact decodeBulk_reads decimal (fmt.float d) t
  | map pairs =>
    simp only [head, image, two, if_false, flatPairs_imagePairs]
    rw [Nat.mul_comm, ← length_flatPairs]
    exact decodeArray_reads decimal each t
  | set items =>
    simp only [head, image, imageItems_eq, two, if_false]
    exact decodeArray_reads decimal each t
  | push items =>
    simp only [head, image, imageItems_eq, two, if_false]
    exact decodeArray_reads decimal each t
  | raw bytes => exact notRaw.elim

theorem decodeFor_reads (decimal : fmt.Decimal) {v : Resp} (notRaw : v.Everywhere NotRaw)
    (carried : v.Everywhere Carried) {k : Nat} (deep : sizeOf v ≤ k) :
    Reads (decodeFor k) fmt 2 v := by
  induction carried generalizing k with
  | @intro v here nested ih =>
    obtain ⟨k, rfl⟩ : ∃ j, k = j + 1 := ⟨k - 1, by cases v <;> simp at deep <;> omega⟩
    cases notRaw with
    | intro plain below =>
      refine decodeWith_reads decimal plain here fun c mem => ih c mem (below c mem) ?_
      have less := sizeOf_children mem
      omega

/-! ## What the decoder can return -/

theorem findCrlf_take {b : Bytes} {pos : Nat} (h : findCrlf b = some pos) :
    findCrlf (b.take pos) = none := by
  fun_induction findCrlf b generalizing pos with
  | case1 rest => cases h; rfl
  | case2 c rest other ih =>
    obtain ⟨p, hp, rfl⟩ := Option.map_eq_some_iff.1 h
    rw [List.take_succ_cons, findCrlf]
    · rw [ih hp]
      rfl
    · intro more hc hr
      cases rest with
      | nil => cases hp
      | cons d rest =>
        cases p with
        | zero => cases hr
        | succ p => exact other rest hc (by rw [(List.cons.inj hr).1])
  | case3 => cases h

theorem parseLine_noCrlf {b text : Bytes} {n : Nat} (h : parseLine b = .ok (text, n)) :
    ¬ crlf <:+: text := by
  rw [parseLine] at h
  split at h
  · rename_i pos found
    cases h
    intro inside
    exact findCrlf_eq_none_iff.1 (findCrlf_take found) (inside.trans (List.drop_suffix 1 _).isInfix)
  · cases h

/-- The decoder returns carried values only. -/
def ReturnsCarried (decode : Bytes → ParseResult (Resp × Nat)) : Prop :=
  ∀ {b v n}, decode b = .ok (v, n) → v.Everywhere Carried

theorem decodeText_carried (build : String → Resp)
    (carried : ∀ s, ¬ crlf <:+: asBytes s → (build s).Everywhere Carried) :
    ReturnsCarried (decodeText build) := by
  intro b v n h
  obtain ⟨⟨s, consumed⟩, read, h⟩ := bind_eq_ok h
  cases h
  obtain ⟨⟨text, m⟩, readLine, h⟩ := bind_eq_ok read
  obtain ⟨u, decoded, h⟩ := bind_eq_ok h
  cases h
  have same : asBytes s = text := by
    cases hu : fromUtf8 text with
    | none => rw [hu] at decoded; cases decoded
    | some w => rw [hu] at decoded; cases decoded; exact asBytes_of_fromUtf8 hu
  exact carried s (same ▸ parseLine_noCrlf readLine)

theorem parseItems_carried (nested : ReturnsCarried decode) {b : Bytes} {n offset last : Nat}
    {items : List Resp} (h : parseItems decode b n offset = .ok (items, last)) :
    ∀ c ∈ items, c.Everywhere Carried := by
  induction n generalizing offset items with
  | zero =>
    cases h
    intro c mem
    cases mem
  | succ n ih =>
    obtain ⟨⟨item, used⟩, first, h⟩ := bind_eq_ok h
    obtain ⟨⟨rest, end'⟩, more, h⟩ := bind_eq_ok h
    cases h
    intro c mem
    rcases List.mem_cons.1 mem with rfl | mem
    · exact nested first
    · exact ih more c mem

theorem decodeWith_carried (nested : ReturnsCarried decode) : ReturnsCarried (decodeWith decode) := by
  intro b v n h
  cases b with
  | nil => cases h
  | cons tag b =>
    unfold decodeWith at h
    dsimp only at h
    split at h
    · exact decodeText_carried .simpleString (fun s noCrlf => everywhere_leaf noCrlf rfl) h
    · exact decodeText_carried .error (fun s noCrlf => everywhere_leaf noCrlf rfl) h
    · obtain ⟨⟨i, consumed⟩, -, h⟩ := bind_eq_ok h
      cases h
      exact everywhere_leaf trivial rfl
    · obtain ⟨⟨len, header⟩, -, h⟩ := bind_eq_ok h
      cases len with
      | none => cases h; exact everywhere_leaf trivial rfl
      | some m =>
        dsimp only at h
        split_ifs at h
        cases h
        exact everywhere_leaf trivial rfl
    · obtain ⟨⟨len, header⟩, -, h⟩ := bind_eq_ok h
      cases len with
      | none => cases h; exact everywhere_leaf trivial rfl
      | some m =>
        obtain ⟨⟨items, last⟩, read, h⟩ := bind_eq_ok h
        cases h
        exact .intro trivial (parseItems_carried nested read)
    · cases h

theorem decodeFor_carried (k : Nat) : ReturnsCarried (decodeFor k) := by
  induction k with
  | zero => intro b v n h; cases h
  | succ k ih => exact decodeWith_carried ih

end Resp2

namespace Resp

variable {fmt : Fmt}

/-- The RESP2 image keeps the shape of the value. -/
theorem children_image (v : Resp) : (v.image fmt 2).children = v.children.map (image fmt 2) := by
  have two : ¬ (2 : UInt8) ≥ 3 := by decide
  cases v with
  | bulkString data => cases data <;> simp [image, children, two]
  | array items => cases items <;> simp [image, children, two, imageItems_eq]
  | bool b => cases b <;> simp [image, children, two]
  | map pairs => simp [image, children, two, flatPairs_imagePairs]
  | set items => simp [image, children, two, imageItems_eq]
  | push items => simp [image, children, two, imageItems_eq]
  | double d => simp [image, children, two]
  | _ => simp [image, children]

theorem carried_of_image {v : Resp} (h : Carried (v.image fmt 2)) : Carried v := by
  cases v with
  | null => exact h
  | simpleString s => exact h
  | error s => exact h
  | _ => trivial

theorem everywhere_carried_of_image {v : Resp} (h : (v.image fmt 2).Everywhere Carried) :
    v.Everywhere Carried := by
  induction v using induction_children with
  | step v ih =>
    cases h with
    | intro here nested =>
      refine .intro (carried_of_image here) fun c mem => ih c mem (nested _ ?_)
      rw [children_image]
      exact List.mem_map_of_mem mem

theorem framed_of_carried {v : Resp} (notRaw : NotRaw v) (carried : Carried v) : Framed fmt v := by
  have two : ¬ (2 : UInt8) ≥ 3 := by decide
  have started (tag : UInt8) (known : tag ∈ Resp2.tags) (rest : Bytes)
      (head : v.head fmt 2 = tag :: rest) : ∃ tag ∈ Resp2.tags, ∃ rest, v.frame fmt 2 = tag :: rest :=
    ⟨tag, known, rest ++ v.children.flatMap (frame fmt 2), by rw [frame_eq, head]; rfl⟩
  constructor
  · cases v with
    | simpleString s => exact started Tag.simpleString (by decide) _ rfl
    | error s => exact started Tag.error (by decide) _ rfl
    | integer n => exact started Tag.integer (by decide) _ rfl
    | bulkString data => cases data <;> exact started Tag.bulkString (by decide) _ rfl
    | array items => cases items <;> exact started Tag.array (by decide) _ rfl
    | null => exact carried.elim
    | bool b => exact started Tag.integer (by decide) _ rfl
    | double d => exact started Tag.bulkString (by decide) _ rfl
    | map pairs => exact started Tag.array (by decide) _ rfl
    | set items => exact started Tag.array (by decide) _ rfl
    | push items => exact started Tag.array (by decide) _ rfl
    | raw bytes => exact notRaw.elim
  · intro null
    cases v with
    | null => exact carried.elim
    | bulkString data => cases data <;> first | exact .inl rfl | cases null
    | array items => cases items <;> first | exact .inr rfl | cases null
    | _ => cases null

end Resp

/-- **Exactly the carried values are served to RESP2 clients.** A value is carried if no null of RESP3 occurs in it
and no line in it has an end of line of its own: the writer looks at the version everywhere but in the branch of
`Resp::Null`, and it does not escape the text of a status or an error. By induction over the value, with the
children of an aggregate in their order. -/
theorem serialize_resp2_iff (fmt : Fmt) (decimal : fmt.Decimal) (v : Resp)
    (notRaw : v.Everywhere Resp.NotRaw) : v.ServesResp2 fmt ↔ v.Everywhere Resp.Carried := by
  constructor
  · rintro ⟨-, k, read⟩
    exact Resp.everywhere_carried_of_image (Resp2.decodeFor_carried k read)
  · intro carried
    refine ⟨?_, sizeOf v, ?_⟩
    · induction carried with
      | intro here nested ih =>
        cases notRaw with
        | intro plain below =>
          exact .intro (Resp.framed_of_carried plain here) fun c mem => ih c mem (below c mem)
    · rw [Resp.serializeForVersion_eq]
      have read := Resp2.decodeFor_reads decimal notRaw carried (Nat.le_refl _) []
      rwa [List.append_nil] at read

/-- A truth value beside a map from a text to a set with a null. -/
def mixed : Resp := .array (some [.bool true, .map [(.bulkString (some [97]), .set [.bulkString none])]])

theorem everywhere_mixed {P : Resp → Prop} (whole : P mixed) (truth : P (.bool true))
    (map : P (.map [(.bulkString (some [97]), .set [.bulkString none])])) (text : P (.bulkString (some [97])))
    (set : P (.set [.bulkString none])) (null : P (.bulkString none)) : mixed.Everywhere P := by
  refine .intro whole fun c mem => ?_
  obtain rfl | rfl : c = .bool true ∨ c = .map [(.bulkString (some [97]), .set [.bulkString none])] := by
    simpa [mixed, Resp.children] using mem
  · exact Resp.everywhere_leaf truth rfl
  · refine .intro map fun c mem => ?_
    obtain rfl | rfl : c = .bulkString (some [97]) ∨ c = .set [.bulkString none] := by
      simpa [Resp.children, Resp.flatPairs] using mem
    · exact Resp.everywhere_leaf text rfl
    · refine .intro set fun c mem => ?_
      obtain rfl : c = .bulkString none := by simpa [Resp.children] using mem
      exact Resp.everywhere_leaf null rfl

/-- Three levels of it become RESP2 frames. -/
theorem serialize_resp2_mixed :
    mixed.serializeForVersion .plain 2 = asBytes "*2\r\n:1\r\n*2\r\n$1\r\na\r\n*1\r\n$-1\r\n" ∧
      mixed.ServesResp2 .plain :=
  ⟨by decide, (serialize_resp2_iff .plain (fun _ => rfl) mixed
    (everywhere_mixed trivial trivial trivial trivial trivial trivial)).2
      (everywhere_mixed trivial trivial trivial trivial trivial trivial)⟩

/-- A null inside an array starts with a RESP3 byte. -/
theorem serialize_resp2_null : (Resp.array (some [.null])).Everywhere Resp.NotRaw ∧
    (Resp.array (some [.null])).serializeForVersion .plain 2 = asBytes "*1\r\n_\r\n" ∧
    ¬ (Resp.array (some [.null])).ServesResp2 .plain := by
  have alone (c : Resp) (mem : c ∈ (Resp.array (some [.null])).children) : c = .null := by
    simpa [Resp.children] using mem
  refine ⟨.intro trivial fun c mem => alone c mem ▸ Resp.everywhere_leaf trivial rfl, by decide, ?_⟩
  rintro ⟨framed, -⟩
  cases framed with
  | intro _ nested =>
    cases nested .null (by simp [Resp.children]) with
    | intro here _ =>
      obtain ⟨⟨tag, known, rest, start⟩, -⟩ := here
      obtain rfl : tag = 95 := (List.cons.inj start).1.symm
      exact absurd known (by decide)

end NexradeCache
