import Mathlib

/-!
# The grammar of JSON

`value` reads one value from the front of a text, one function for each rule of the grammar, which never needs more
than one character to choose the rule. `parse` is for a whole text. The depth a text can be nested is bounded by its
length: `Reads` is `value` with as much fuel as is needed, and `parse_eq_some_iff` says that `parse` has enough.

Numbers are kept as the classes a reader of 64-bit integers makes of them.
-/

namespace Json

/-- The numbers of `serde_json`: 64-bit integers and floats. -/
inductive Number where
  | posInt (n : Nat)
  | negInt (n : Int)
  | float (literal : List Char)

/-- A JSON value. The members of an object are kept in their order. -/
inductive Value where
  | null
  | bool (b : Bool)
  | number (n : Number)
  | string (s : List Char)
  | array (items : List Value)
  | object (members : List (List Char × Value))

/-- The white space of JSON. -/
def isSpace (c : Char) : Bool := c = ' ' || c = '\t' || c = '\n' || c = '\r'

/-- White space in front. -/
def skip (s : List Char) : List Char := s.dropWhile isSpace

/-! ## Strings -/

/-- A hexadecimal digit, in either case. -/
def hexDigit (c : Char) : Option Nat :=
  if '0' ≤ c ∧ c ≤ '9' then some (c.toNat - 48)
  else if 'a' ≤ c ∧ c ≤ 'f' then some (c.toNat - 87)
  else if 'A' ≤ c ∧ c ≤ 'F' then some (c.toNat - 55)
  else none

/-- Four of them. -/
def hex4 (a b c d : Char) : Option Nat := do
  return (((← hexDigit a) * 16 + (← hexDigit b)) * 16 + (← hexDigit c)) * 16 + (← hexDigit d)

/-- The escapes of one character. -/
def unescape (c : Char) : Option Char :=
  if c = '"' ∨ c = '\\' ∨ c = '/' then some c
  else if c = 'b' then some '\x08'
  else if c = 'f' then some '\x0c'
  else if c = 'n' then some '\n'
  else if c = 'r' then some '\r'
  else if c = 't' then some '\t'
  else none

/-- The first of a pair of surrogates, and the second. -/
def isHigh (n : Nat) : Bool := 0xD800 ≤ n && n < 0xDC00

/-- The second half of a surrogate pair. -/
def isLow (n : Nat) : Bool := 0xDC00 ≤ n && n < 0xE000

/-- One character behind a backslash, and the rest. -/
def escaped : List Char → Option (Char × List Char)
  | 'u' :: a :: b :: c :: d :: s => do
    let n ← hex4 a b c d
    if isHigh n then
      match s with
      | '\\' :: 'u' :: a :: b :: c :: d :: s => do
        let m ← hex4 a b c d
        if isLow m then return (Char.ofNat (0x10000 + (n - 0xD800) * 0x400 + (m - 0xDC00)), s) else none
      | _ => none
    else if isLow n then none
    else return (Char.ofNat n, s)
  | c :: s => (unescape c).map fun e => (e, s)
  | [] => none

/-- The text of a string up to the closing quote. -/
def body : Nat → List Char → Option (List Char × List Char)
  | 0, _ => none
  | _, [] => none
  | k + 1, c :: s =>
    if c = '"' then some ([], s)
    else if c = '\\' then do
      let (e, s) ← escaped s
      let (text, s) ← body k s
      return (e :: text, s)
    else if c < ' ' then none
    else do
      let (text, s) ← body k s
      return (c :: text, s)

/-! ## Numbers -/

/-- The rest behind the digits, of which there must be one. -/
def digits (s : List Char) : Option (List Char) :=
  if s.takeWhile Char.isDigit = [] then none else some (s.dropWhile Char.isDigit)

/-- A point and digits, if there is a point. -/
def fraction : List Char → Option (List Char)
  | '.' :: s => digits s
  | s => some s

/-- An exponent, if there is one. -/
def exponent : List Char → Option (List Char)
  | [] => some []
  | c :: s =>
    if c = 'e' ∨ c = 'E' then
      match s with
      | '+' :: s => digits s
      | '-' :: s => digits s
      | s => digits s
    else some (c :: s)

/-- An integer of 64 bits or another number; minus zero is no integer. -/
def classify (negative : Bool) (n : Nat) (literal : List Char) : Number :=
  if negative then
    if n = 0 ∨ 2 ^ 63 < n then .float literal else .negInt (-n)
  else if n < 2 ^ 64 then .posInt n
  else .float literal

/-- No zero in front of other digits. -/
def number (s : List Char) : Option (Number × List Char) :=
  let negative := s.head? = some '-'
  let unsigned := if negative then s.tail else s
  let int := unsigned.takeWhile Char.isDigit
  let rest := unsigned.dropWhile Char.isDigit
  if int = [] ∨ int.head? = some '0' ∧ int.length ≠ 1 then none
  else do
    let last ← (fraction rest).bind exponent
    let literal := s.take (s.length - last.length)
    if last.length = rest.length then return (classify negative (Nat.ofDigitChars 10 int 0) literal, last)
    else return (.float literal, last)

/-! ## Values -/

/-- `true`, `false` and `null`. -/
def literal (word : List Char) (v : Value) (s : List Char) : Option (Value × List Char) :=
  if word <+: s then some (v, s.drop word.length) else none

mutual

/-- A value, with the depth as fuel. -/
def value : Nat → List Char → Option (Value × List Char)
  | 0, _ => none
  | k + 1, s =>
    match skip s with
    | [] => none
    | c :: s =>
      if c = '"' then (body s.length s).map fun p => (.string p.1, p.2)
      else if c = '[' then
        match skip s with
        | ']' :: s => some (.array [], s)
        | s => (items k s).map fun p => (.array p.1, p.2)
      else if c = '{' then
        match skip s with
        | '}' :: s => some (.object [], s)
        | s => (members k s).map fun p => (.object p.1, p.2)
      else if c = 'n' then literal ['u', 'l', 'l'] .null s
      else if c = 't' then literal ['r', 'u', 'e'] (.bool true) s
      else if c = 'f' then literal ['a', 'l', 's', 'e'] (.bool false) s
      else (number (c :: s)).map fun p => (.number p.1, p.2)

/-- The items of an array up to the closing bracket. -/
def items : Nat → List Char → Option (List Value × List Char)
  | 0, _ => none
  | k + 1, s => do
    let (v, s) ← value k s
    match skip s with
    | ',' :: s => (items k s).map fun p => (v :: p.1, p.2)
    | ']' :: s => some ([v], s)
    | _ => none

/-- The members of an object. -/
def members : Nat → List Char → Option (List (List Char × Value) × List Char)
  | 0, _ => none
  | k + 1, s =>
    match skip s with
    | '"' :: s => do
      let (name, s) ← body s.length s
      match skip s with
      | ':' :: s =>
        let (v, s) ← value k s
        match skip s with
        | ',' :: s => (members k s).map fun p => ((name, v) :: p.1, p.2)
        | '}' :: s => some ([(name, v)], s)
        | _ => none
      | _ => none
    | _ => none

end

/-- A whole text. -/
def parse (s : List Char) : Option Value := do
  let (v, rest) ← value (2 * s.length) s
  if skip rest = [] then return v else none

/-! ## How much is read -/

theorem skip_le (s : List Char) : (skip s).length ≤ s.length := (List.dropWhile_suffix _).length_le

theorem escaped_lt {s : List Char} {e : Char} {rest : List Char} (h : escaped s = some (e, rest)) :
    rest.length < s.length := by
  unfold escaped at h
  split at h
  · obtain ⟨n, -, h⟩ := Option.bind_eq_some_iff.1 h
    split_ifs at h
    · split at h
      · obtain ⟨m, -, h⟩ := Option.bind_eq_some_iff.1 h
        split_ifs at h
        obtain ⟨-, rfl⟩ := Prod.mk.inj (Option.some.inj h)
        simp only [List.length_cons]
        omega
      · cases h
    · obtain ⟨-, rfl⟩ := Prod.mk.inj (Option.some.inj h)
      simp only [List.length_cons]
      omega
  · obtain ⟨c, -, h⟩ := Option.map_eq_some_iff.1 h
    cases h
    exact Nat.lt_succ_self _
  · cases h

theorem body_lt {k : Nat} {s text rest : List Char} (h : body k s = some (text, rest)) : rest.length < s.length := by
  induction k generalizing s text with
  | zero => cases h
  | succ k ih =>
    cases s with
    | nil => cases h
    | cons c s =>
      rw [body] at h
      split_ifs at h
      · cases h
        exact Nat.lt_succ_self _
      · obtain ⟨⟨e, s'⟩, one, h⟩ := Option.bind_eq_some_iff.1 h
        obtain ⟨⟨text', s''⟩, more, h⟩ := Option.bind_eq_some_iff.1 h
        cases h
        exact (ih more).trans ((escaped_lt one).trans (Nat.lt_succ_self _))
      · obtain ⟨⟨text', s''⟩, more, h⟩ := Option.bind_eq_some_iff.1 h
        cases h
        exact (ih more).trans (Nat.lt_succ_self _)

theorem digits_le {s rest : List Char} (h : digits s = some rest) : rest.length ≤ s.length := by
  rw [digits] at h
  split_ifs at h
  cases h
  exact (List.dropWhile_suffix _).length_le

theorem fraction_le {s rest : List Char} (h : fraction s = some rest) : rest.length ≤ s.length := by
  unfold fraction at h
  split at h
  · exact (digits_le h).trans (Nat.le_succ _)
  · cases h
    exact le_rfl

theorem exponent_le {s rest : List Char} (h : exponent s = some rest) : rest.length ≤ s.length := by
  unfold exponent at h
  split at h
  · cases h
    exact le_rfl
  · split_ifs at h
    · split at h
      · exact (digits_le h).trans (Nat.le_add_right _ 2)
      · exact (digits_le h).trans (Nat.le_add_right _ 2)
      · exact (digits_le h).trans (Nat.le_succ _)
    · cases h
      exact le_rfl

theorem number_lt {s rest : List Char} {n : Number} (h : number s = some (n, rest)) : rest.length < s.length := by
  unfold number at h
  dsimp only at h
  set u := if s.head? = some '-' then s.tail else s with unsigned
  have less : u.length ≤ s.length := by
    rw [unsigned]
    split
    · rw [List.length_tail]
      omega
    · exact le_rfl
  split_ifs at h with bad
  all_goals
    obtain ⟨last, read, h⟩ := Option.bind_eq_some_iff.1 h
    obtain ⟨mid, frac, exp⟩ := Option.bind_eq_some_iff.1 read
    have shorter := (exponent_le exp).trans (fraction_le frac)
    have parts := congrArg List.length (List.takeWhile_append_dropWhile (p := Char.isDigit) (l := u))
    have some : 0 < (u.takeWhile Char.isDigit).length := List.length_pos_iff.2 fun empty => bad (.inl empty)
    rw [List.length_append] at parts
    split_ifs at h <;> cases h <;> omega

/-- What the reader leaves is shorter than what it was given. -/
def Shortens {α : Type} (read : List Char → Option (α × List Char)) : Prop :=
  ∀ s x rest, read s = some (x, rest) → rest.length < s.length

section Shorter

variable {k : Nat}

theorem value_lt (arrays : Shortens (items k)) (objects : Shortens (members k)) : Shortens (value (k + 1)) := by
  intro s v rest h
  have start := skip_le s
  rw [value] at h
  split at h
  · cases h
  · rename_i c s' first
    rw [first, List.length_cons] at start
    have inner := skip_le s'
    split_ifs at h
    · obtain ⟨p, read, h⟩ := Option.map_eq_some_iff.1 h
      cases h
      have less := body_lt read
      omega
    · split at h
      · rename_i s'' second
        rw [second, List.length_cons] at inner
        cases h
        omega
      · obtain ⟨p, read, h⟩ := Option.map_eq_some_iff.1 h
        cases h
        have less := arrays _ _ _ read
        omega
    · split at h
      · rename_i s'' second
        rw [second, List.length_cons] at inner
        cases h
        omega
      · obtain ⟨p, read, h⟩ := Option.map_eq_some_iff.1 h
        cases h
        have less := objects _ _ _ read
        omega
    all_goals
      first
      | obtain ⟨p, read, h⟩ := Option.map_eq_some_iff.1 h
        cases h
        have less := number_lt read
        rw [List.length_cons] at less
        omega
      | unfold literal at h
        split_ifs at h
        cases h
        rw [List.length_drop]
        omega

theorem items_lt (values : Shortens (value k)) (arrays : Shortens (items k)) : Shortens (items (k + 1)) := by
  intro s vs rest h
  rw [items] at h
  obtain ⟨⟨v, s'⟩, read, h⟩ := Option.bind_eq_some_iff.1 h
  have less := values _ _ _ read
  have inner := skip_le s'
  dsimp only at h
  split at h
  · rename_i s'' sep
    rw [sep, List.length_cons] at inner
    obtain ⟨p, more, h⟩ := Option.map_eq_some_iff.1 h
    cases h
    have less' := arrays _ _ _ more
    omega
  · rename_i s'' sep
    rw [sep, List.length_cons] at inner
    cases h
    omega
  · cases h

theorem members_lt (values : Shortens (value k)) (objects : Shortens (members k)) : Shortens (members (k + 1)) := by
  intro s ms rest h
  rw [members] at h
  have start := skip_le s
  split at h
  · rename_i s₀ quote
    rw [quote, List.length_cons] at start
    obtain ⟨⟨name, s₁⟩, read, h⟩ := Option.bind_eq_some_iff.1 h
    have less := body_lt read
    have inner := skip_le s₁
    dsimp only at h
    split at h
    · rename_i s₂ colon
      rw [colon, List.length_cons] at inner
      obtain ⟨⟨v, s₃⟩, read, h⟩ := Option.bind_eq_some_iff.1 h
      have less' := values _ _ _ read
      have inner' := skip_le s₃
      dsimp only at h
      split at h
      · rename_i s₄ sep
        rw [sep, List.length_cons] at inner'
        obtain ⟨p, more, h⟩ := Option.map_eq_some_iff.1 h
        cases h
        have less'' := objects _ _ _ more
        omega
      · rename_i s₄ sep
        rw [sep, List.length_cons] at inner'
        cases h
        omega
      · cases h
    · cases h
  · cases h

/-- Each of the three readers reads something. -/
theorem value_items_members_lt (k : Nat) : Shortens (value k) ∧ Shortens (items k) ∧ Shortens (members k) := by
  induction k with
  | zero =>
    refine ⟨fun s v rest h => ?_, fun s vs rest h => ?_, fun s ms rest h => ?_⟩ <;> cases h
  | succ k ih =>
    obtain ⟨values, arrays, objects⟩ := ih
    exact ⟨value_lt arrays objects, items_lt values arrays, members_lt values objects⟩

end Shorter

/-- What is read with fuel `k` is read with any fuel from twice the length of the text on, or one more. -/
def Enough {α : Type} (more k : Nat) (read : Nat → List Char → Option α) : Prop :=
  ∀ s x, read k s = some x → ∀ k', 2 * s.length + more ≤ k' → read k' s = some x

section Fuel

variable {k : Nat}

theorem value_enough (arrays : Enough 1 k items) (objects : Enough 1 k members) : Enough 0 (k + 1) value := by
  intro s x h k' enough
  have start := skip_le s
  rw [value] at h
  split at h
  · cases h
  · rename_i c s' first
    rw [first, List.length_cons] at start
    obtain ⟨k', rfl⟩ := Nat.exists_eq_succ_of_ne_zero (show k' ≠ 0 by omega)
    rw [value, first]
    dsimp only
    have inner := skip_le s'
    by_cases string : c = '"'
    · rwa [if_pos string] at h ⊢
    rw [if_neg string] at h ⊢
    by_cases array : c = '['
    · rw [if_pos array] at h ⊢
      split at h
      · exact h
      · obtain ⟨p, read, h⟩ := Option.map_eq_some_iff.1 h
        rw [arrays _ _ read k' (by omega), Option.map_some, h]
    rw [if_neg array] at h ⊢
    by_cases object : c = '{'
    · rw [if_pos object] at h ⊢
      split at h
      · exact h
      · obtain ⟨p, read, h⟩ := Option.map_eq_some_iff.1 h
        rw [objects _ _ read k' (by omega), Option.map_some, h]
    rwa [if_neg object] at h ⊢

theorem items_enough (values : Enough 0 k value) (arrays : Enough 1 k items) : Enough 1 (k + 1) items := by
  intro s x h k' enough
  obtain ⟨k', rfl⟩ := Nat.exists_eq_succ_of_ne_zero (show k' ≠ 0 by omega)
  rw [items] at h ⊢
  obtain ⟨⟨v, s'⟩, read, h⟩ := Option.bind_eq_some_iff.1 h
  have less := (value_items_members_lt k).1 _ _ _ read
  have inner := skip_le s'
  rw [values _ _ read k' (by omega), Option.bind_eq_bind, Option.bind_some]
  dsimp only at h ⊢
  split at h
  · rename_i s'' sep
    rw [sep, List.length_cons] at inner
    obtain ⟨p, more, h⟩ := Option.map_eq_some_iff.1 h
    rw [arrays _ _ more k' (by omega), Option.map_some, h]
  · exact h
  · cases h

theorem members_enough (values : Enough 0 k value) (objects : Enough 1 k members) : Enough 1 (k + 1) members := by
  intro s x h k' enough
  obtain ⟨k', rfl⟩ := Nat.exists_eq_succ_of_ne_zero (show k' ≠ 0 by omega)
  rw [members] at h ⊢
  have start := skip_le s
  split at h
  · rename_i s₀ quote
    rw [quote, List.length_cons] at start
    obtain ⟨⟨name, s₁⟩, read, h⟩ := Option.bind_eq_some_iff.1 h
    have less := body_lt read
    have inner := skip_le s₁
    dsimp only
    rw [read, Option.bind_eq_bind, Option.bind_some]
    dsimp only at h ⊢
    split at h
    · rename_i s₂ colon
      rw [colon, List.length_cons] at inner
      obtain ⟨⟨v, s₃⟩, read, h⟩ := Option.bind_eq_some_iff.1 h
      have less' := (value_items_members_lt k).1 _ _ _ read
      have inner' := skip_le s₃
      rw [values _ _ read k' (by omega), Option.bind_eq_bind, Option.bind_some]
      dsimp only at h ⊢
      split at h
      · rename_i s₄ sep
        rw [sep, List.length_cons] at inner'
        obtain ⟨p, more, h⟩ := Option.map_eq_some_iff.1 h
        rw [objects _ _ more k' (by omega), Option.map_some, h]
      · exact h
      · cases h
    · cases h
  · cases h

/-- Twice the length of the text is enough fuel, for the readers of lists one more. -/
theorem value_items_members_enough (k : Nat) : Enough 0 k value ∧ Enough 1 k items ∧ Enough 1 k members := by
  induction k with
  | zero =>
    refine ⟨fun s x h => ?_, fun s x h => ?_, fun s x h => ?_⟩ <;> cases h
  | succ k ih =>
    obtain ⟨values, arrays, objects⟩ := ih
    exact ⟨value_enough arrays objects, items_enough values arrays, members_enough values objects⟩

end Fuel

/-! ## Readings -/

/-- A value is at the front of a text, and what is behind it. -/
def Reads (s : List Char) (v : Value) (rest : List Char) : Prop := ∃ k, value k s = some (v, rest)

/-- The items of an array are at the front, with the closing bracket. -/
def ReadsItems (s : List Char) (vs : List Value) (rest : List Char) : Prop := ∃ k, items k s = some (vs, rest)

section Readings

variable {s rest rest' : List Char} {v v' : Value} {vs vs' : List Value}

theorem Reads.value (reads : Reads s v rest) : Json.value (2 * s.length) s = some (v, rest) := by
  obtain ⟨k, read⟩ := reads
  exact (value_items_members_enough k).1 _ _ read _ le_rfl

theorem ReadsItems.items (reads : ReadsItems s vs rest) : Json.items (2 * s.length + 1) s = some (vs, rest) := by
  obtain ⟨k, read⟩ := reads
  exact (value_items_members_enough k).2.1 _ _ read _ (Nat.lt_succ_self _)

theorem Reads.det (reads : Reads s v rest) (reads' : Reads s v' rest') : v' = v ∧ rest' = rest := by
  have same := Option.some.inj (reads'.value.symm.trans reads.value)
  exact Prod.mk.inj same

/-- `parse` reads what there is to read. -/
theorem parse_eq_some_iff : parse s = some v ↔ ∃ rest, Reads s v rest ∧ skip rest = [] := by
  constructor
  · intro h
    obtain ⟨⟨v', rest⟩, read, h⟩ := Option.bind_eq_some_iff.1 h
    dsimp only at h
    split_ifs at h with empty
    cases h
    exact ⟨rest, ⟨_, read⟩, empty⟩
  · rintro ⟨rest, reads, empty⟩
    rw [parse, reads.value, Option.bind_eq_bind, Option.bind_some]
    exact if_pos empty

theorem reads_true (rest : List Char) : Reads ('t' :: 'r' :: 'u' :: 'e' :: rest) (.bool true) rest := ⟨1, rfl⟩

theorem reads_false (rest : List Char) : Reads ('f' :: 'a' :: 'l' :: 's' :: 'e' :: rest) (.bool false) rest :=
  ⟨1, rfl⟩

theorem reads_string_iff : Reads ('"' :: s) v rest ↔ ∃ text, body s.length s = some (text, rest) ∧ v = .string text := by
  have step (k : Nat) : value (k + 1) ('"' :: s) = (body s.length s).map fun p => (Value.string p.1, p.2) := rfl
  constructor
  · rintro ⟨_ | k, read⟩
    · cases read
    · rw [step] at read
      obtain ⟨⟨text, rest'⟩, inner, same⟩ := Option.map_eq_some_iff.1 read
      cases same
      exact ⟨text, inner, rfl⟩
  · rintro ⟨text, inner, rfl⟩
    exact ⟨1, by rw [step, inner, Option.map_some]⟩

theorem reads_empty_iff : Reads ('[' :: ']' :: s) v rest ↔ v = .array [] ∧ rest = s := by
  have read : Reads ('[' :: ']' :: s) (.array []) s := ⟨1, rfl⟩
  constructor
  · exact fun reads => read.det reads
  · rintro ⟨rfl, rfl⟩
    exact read

/-- A text starts with something that is neither white space nor a bracket that closes. -/
def Starts (s : List Char) : Prop := ∃ c t, s = c :: t ∧ isSpace c = false ∧ c ≠ ']'

theorem skip_cons {c : Char} (visible : isSpace c = false) (s : List Char) : skip (c :: s) = c :: s := by
  rw [skip, List.dropWhile_cons, if_neg (by rw [visible]; exact Bool.false_ne_true)]

theorem reads_array_iff (starts : Starts s) :
    Reads ('[' :: s) v rest ↔ ∃ vs, ReadsItems s vs rest ∧ v = .array vs := by
  obtain ⟨c, t, rfl, visible, other⟩ := starts
  have step (k : Nat) :
      value (k + 1) ('[' :: c :: t) = (items k (c :: t)).map fun p => (Value.array p.1, p.2) := by
    rw [value, skip_cons rfl]
    dsimp only
    rw [if_neg (by decide), if_pos rfl, skip_cons visible]
    split
    · rename_i s' same
      exact absurd (List.cons.inj same).1 other
    · rfl
  constructor
  · rintro ⟨_ | k, read⟩
    · cases read
    · rw [step] at read
      obtain ⟨⟨vs, rest'⟩, inner, same⟩ := Option.map_eq_some_iff.1 read
      cases same
      exact ⟨vs, ⟨k, inner⟩, rfl⟩
  · rintro ⟨vs, ⟨k, inner⟩, rfl⟩
    exact ⟨k + 1, by rw [step, inner, Option.map_some]⟩

theorem ReadsItems.cases (reads : ReadsItems s vs rest) : ∃ v behind, Reads s v behind ∧
    ((∃ vs' s', skip behind = ',' :: s' ∧ ReadsItems s' vs' rest ∧ vs = v :: vs') ∨
      skip behind = ']' :: rest ∧ vs = [v]) := by
  obtain ⟨_ | k, read⟩ := reads
  · cases read
  · rw [Json.items] at read
    obtain ⟨⟨v, behind⟩, first, read⟩ := Option.bind_eq_some_iff.1 read
    refine ⟨v, behind, ⟨k, first⟩, ?_⟩
    dsimp only at read
    split at read
    · rename_i s' sep
      obtain ⟨⟨vs', rest'⟩, more, same⟩ := Option.map_eq_some_iff.1 read
      cases same
      exact .inl ⟨vs', s', sep, ⟨k, more⟩, rfl⟩
    · rename_i s' sep
      cases read
      exact .inr ⟨sep, rfl⟩
    · cases read

theorem ReadsItems.cons {s' : List Char} (reads : Reads s v (',' :: s')) (more : ReadsItems s' vs rest) :
    ReadsItems s (v :: vs) rest := by
  have bound := (value_items_members_lt _).1 _ _ _ reads.value
  rw [List.length_cons] at bound
  refine ⟨2 * s.length + 1, ?_⟩
  have all := (value_items_members_enough _).2.1 _ _ more.items (2 * s.length) (by omega)
  rw [Json.items, reads.value, Option.bind_eq_bind, Option.bind_some]
  show (Json.items (2 * s.length) s').map _ = _
  rw [all, Option.map_some]

theorem ReadsItems.single (reads : Reads s v (']' :: rest)) : ReadsItems s [v] rest := by
  refine ⟨2 * s.length + 1, ?_⟩
  rw [Json.items, reads.value, Option.bind_eq_bind, Option.bind_some]
  rfl

end Readings

/-! ## Numerals -/

/-- What can stand behind a value in a list, or nothing. -/
def Ends (s : List Char) : Prop := s = [] ∨ ∃ c t, s = c :: t ∧ (c = ',' ∨ c = ']')

theorem length_of_head_zero (n : Nat) (zero : (Nat.toDigits 10 n).head? = some '0') :
    (Nat.toDigits 10 n).length = 1 := by
  induction n using Nat.strongRecOn with
  | _ n ih =>
    by_cases small : n < 10
    · rw [Nat.toDigits_of_lt_base small]
      rfl
    · exfalso
      have split := Nat.toDigits_of_base_le (by decide : 1 < 10) (not_lt.1 small)
      rw [split, List.head?_append_of_ne_nil _ Nat.toDigits_ne_nil] at zero
      have one := ih (n / 10) (by omega) zero
      by_cases less : n / 10 < 10
      · rw [Nat.toDigits_of_lt_base less, List.head?_cons, Option.some_inj, Nat.digitChar_eq_zero] at zero
        omega
      · rw [Nat.toDigits_of_base_le (by decide) (not_lt.1 less), List.length_append, List.length_singleton] at one
        have some := List.length_pos_iff.2 (Nat.toDigits_ne_nil (n := n / 10 / 10) (b := 10))
        omega

section Numerals

variable {n : Nat} {tail : List Char}

theorem isDigit_numeral {c : Char} (mem : c ∈ Nat.toDigits 10 n) : c.isDigit = true :=
  Nat.isDigit_of_mem_toDigits (by decide) le_rfl mem

theorem numeral_span (ends : Ends tail) : (Nat.toDigits 10 n ++ tail).takeWhile Char.isDigit = Nat.toDigits 10 n ∧
    (Nat.toDigits 10 n ++ tail).dropWhile Char.isDigit = tail := by
  have all (c : Char) (mem : c ∈ Nat.toDigits 10 n) : c.isDigit = true := isDigit_numeral mem
  rw [List.takeWhile_append_of_pos all, List.dropWhile_append_of_pos all]
  rcases ends with rfl | ⟨c, t, rfl, rfl | rfl⟩
  · exact ⟨List.append_nil _, rfl⟩
  · exact ⟨List.append_nil _, rfl⟩
  · exact ⟨List.append_nil _, rfl⟩

/-- Behind it there is no fraction and no exponent. -/
theorem fraction_ends (ends : Ends tail) : (fraction tail).bind exponent = some tail := by
  rcases ends with rfl | ⟨c, t, rfl, rfl | rfl⟩ <;> rfl

/-- The digits of a number, read with its sign. -/
theorem number_numeral (ends : Ends tail) (negative : Bool) {s : List Char} (sign : (s.head? = some '-') = negative)
    (unsigned : (if s.head? = some '-' then s.tail else s) = Nat.toDigits 10 n ++ tail) :
    ∃ literal, number s = some (classify negative n literal, tail) := by
  obtain ⟨digits, rest⟩ := numeral_span (n := n) ends
  refine ⟨s.take (s.length - tail.length), ?_⟩
  have good : ¬ (Nat.toDigits 10 n = [] ∨ (Nat.toDigits 10 n).head? = some '0' ∧ (Nat.toDigits 10 n).length ≠ 1) := by
    rintro (empty | ⟨zero, long⟩)
    · exact Nat.toDigits_ne_nil empty
    · exact long (length_of_head_zero n zero)
  unfold number
  dsimp only
  rw [unsigned, digits, rest, if_neg good, fraction_ends ends, Nat.ofDigitChars_ten_toDigits]
  cases negative <;> simp [sign]

theorem reads_number {c : Char} {s rest : List Char} {m : Number} (plain : c.isDigit = true ∨ c = '-')
    (read : number (c :: s) = some (m, rest)) : Reads (c :: s) (.number m) rest := by
  have other (d : Char) (special : d.isDigit = false) (sign : d ≠ '-') : c ≠ d := by
    rintro rfl
    rcases plain with digit | minus
    · rw [special] at digit
      cases digit
    · exact sign minus
  have visible : isSpace c = false := by
    simp [isSpace, other ' ' rfl (by decide), other '\t' rfl (by decide), other '\n' rfl (by decide),
      other '\r' rfl (by decide)]
  refine ⟨1, ?_⟩
  rw [value, skip_cons visible]
  dsimp only
  rw [if_neg (other _ rfl (by decide)), if_neg (other _ rfl (by decide)), if_neg (other _ rfl (by decide)),
    if_neg (other _ rfl (by decide)), if_neg (other _ rfl (by decide)), if_neg (other _ rfl (by decide)), read]
  rfl

theorem reads_natural (fits : n < 2 ^ 64) (ends : Ends tail) :
    Reads (Nat.toDigits 10 n ++ tail) (.number (.posInt n)) tail := by
  obtain ⟨c, ds, split⟩ := List.exists_cons_of_ne_nil (Nat.toDigits_ne_nil (n := n) (b := 10))
  have digit : c.isDigit = true := isDigit_numeral (split ▸ List.mem_cons_self)
  have unsigned : ¬ (Nat.toDigits 10 n ++ tail).head? = some '-' := by
    rw [split]
    intro minus
    cases Option.some.inj minus
    cases digit
  obtain ⟨literal, read⟩ := number_numeral ends false (s := Nat.toDigits 10 n ++ tail)
    (by simpa using unsigned) (if_neg unsigned)
  rw [classify, if_neg Bool.false_ne_true, if_pos fits] at read
  rw [split] at read ⊢
  exact reads_number (.inl digit) read

theorem reads_negative (positive : n ≠ 0) (fits : n ≤ 2 ^ 63) (ends : Ends tail) :
    Reads ('-' :: (Nat.toDigits 10 n ++ tail)) (.number (.negInt (-n))) tail := by
  obtain ⟨literal, read⟩ := number_numeral (n := n) ends true (s := '-' :: (Nat.toDigits 10 n ++ tail))
    (by simp) (if_pos rfl)
  have whole : ¬ (n = 0 ∨ 2 ^ 63 < n) := by
    rintro (zero | large)
    · exact positive zero
    · exact absurd large (not_lt.2 fits)
  rw [classify, if_pos rfl, if_neg whole] at read
  exact reads_number (.inr rfl) read

end Numerals

/-! ## Quoting -/

/-- What a character costs at least in the text of a string. -/
def cost (c : Char) : Nat := if c = '"' ∨ c = '\\' ∨ c < ' ' then 2 else 1

/-- What the characters of a string cost at least. -/
def costs (s : List Char) : Nat := (s.map cost).sum

/-- An escape with a letter is what some of them need. -/
theorem cost_le (c : Char) : cost c ≤ 2 := by
  rw [cost]
  split <;> omega

theorem hex4_noQuote {a b c d : Char} {n : Nat} (h : hex4 a b c d = some n) : [a, b, c, d].count '"' = 0 := by
  have noQuote {c : Char} {n : Nat} (h : hexDigit c = some n) : c ≠ '"' := by
    rintro rfl
    cases h
  obtain ⟨na, ha, h⟩ := Option.bind_eq_some_iff.1 h
  obtain ⟨nb, hb, h⟩ := Option.bind_eq_some_iff.1 h
  obtain ⟨nc, hc, h⟩ := Option.bind_eq_some_iff.1 h
  obtain ⟨nd, hd, -⟩ := Option.bind_eq_some_iff.1 h
  rw [List.count_eq_zero]
  intro mem
  simp only [List.mem_cons, List.not_mem_nil, or_false] at mem
  rcases mem with same | same | same | same
  · exact noQuote ha same.symm
  · exact noQuote hb same.symm
  · exact noQuote hc same.symm
  · exact noQuote hd same.symm

/-- The text of an escape has no quote but for that of a quote. -/
theorem escaped_costs {s rest : List Char} {e : Char} (h : escaped s = some (e, rest)) :
    ∃ u, s = u ++ rest ∧ 1 ≤ u.length ∧ u.count '"' ≤ [e].count '"' := by
  unfold escaped at h
  split at h
  · rename_i a b c d s
    obtain ⟨n, hex, h⟩ := Option.bind_eq_some_iff.1 h
    have first := hex4_noQuote hex
    have plain : ('u' :: [a, b, c, d]).count '"' = 0 := by
      rw [List.count_cons_of_ne (by decide), first]
    split_ifs at h
    · split at h
      · rename_i a' b' c' d' s' _
        obtain ⟨m, hex', h⟩ := Option.bind_eq_some_iff.1 h
        have second := hex4_noQuote hex'
        have plain' : ('\\' :: 'u' :: [a', b', c', d']).count '"' = 0 := by
          rw [List.count_cons_of_ne (by decide), List.count_cons_of_ne (by decide), second]
        split_ifs at h
        obtain ⟨-, rfl⟩ := Prod.mk.inj (Option.some.inj h)
        refine ⟨('u' :: [a, b, c, d]) ++ '\\' :: 'u' :: [a', b', c', d'], rfl, by simp, ?_⟩
        rw [List.count_append, plain, plain']
        exact Nat.zero_le _
      · cases h
    · obtain ⟨-, rfl⟩ := Prod.mk.inj (Option.some.inj h)
      exact ⟨'u' :: [a, b, c, d], rfl, by simp, by rw [plain]; exact Nat.zero_le _⟩
  · rename_i c s _
    obtain ⟨e', single, h⟩ := Option.map_eq_some_iff.1 h
    obtain ⟨rfl, rfl⟩ := Prod.mk.inj h
    refine ⟨[c], rfl, le_rfl, ?_⟩
    by_cases quote : c = '"'
    · subst quote
      cases single
      exact le_rfl
    · rw [List.count_singleton, if_neg (by simpa using quote)]
      exact Nat.zero_le _
  · cases h

/-- The text of a string is as long as its characters cost, and its quotes are theirs. -/
theorem body_costs {k : Nat} {s text rest : List Char} (h : body k s = some (text, rest)) :
    ∃ u, s = u ++ '"' :: rest ∧ costs text ≤ u.length ∧ u.count '"' ≤ text.count '"' := by
  induction k generalizing s text with
  | zero => cases h
  | succ k ih =>
    cases s with
    | nil => cases h
    | cons c s =>
      rw [body] at h
      split_ifs at h with close back control
      · cases h
        exact ⟨[], by rw [close]; rfl, le_rfl, le_rfl⟩
      · obtain ⟨⟨e, s'⟩, one, h⟩ := Option.bind_eq_some_iff.1 h
        obtain ⟨⟨text', s''⟩, more, h⟩ := Option.bind_eq_some_iff.1 h
        cases h
        obtain ⟨u, rfl, some, quotes⟩ := escaped_costs one
        obtain ⟨u', split, long, quotes'⟩ := ih more
        have two := cost_le e
        refine ⟨c :: (u ++ u'), by rw [split, List.cons_append, List.append_assoc], ?_, ?_⟩
        · rw [costs, List.map_cons, List.sum_cons, List.length_cons, List.length_append]
          rw [costs] at long
          omega
        · rw [List.count_cons_of_ne close, List.count_append, ← List.singleton_append, List.count_append]
          omega
      · obtain ⟨⟨text', s''⟩, more, h⟩ := Option.bind_eq_some_iff.1 h
        cases h
        obtain ⟨u', split, long, quotes'⟩ := ih more
        have one : cost c = 1 := if_neg (by tauto)
        refine ⟨c :: u', by rw [split]; rfl, ?_, ?_⟩
        · rw [costs, List.map_cons, List.sum_cons, List.length_cons, one]
          rw [costs] at long
          omega
        · rw [List.count_cons_of_ne close, List.count_cons_of_ne close]
          exact quotes'

end Json
