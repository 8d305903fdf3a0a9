import NexradeCache.Lib.Json
import NexradeCache.Server.LuaValues

/-!
# cjson (`nexrade-lua/src/engine.rs`)

The encoder is a recursion of its own, the decoder the parser of another crate, which reads the grammar of `Lib/Json`,
and a conversion of what it read. `Same` is structural equality of Lua values.

The encoder writes a backslash before a quote and changes nothing else in a string, and it writes every table as an
array. So a value comes back just if its strings have no backslash and no control character and it has no table with
string keys, but for empty ones (`Clean`): `cjson_iff`.
-/

namespace NexradeCache

namespace Scripting

open Utf8

section Encoder

variable (nums : LuaNumbers)

/-- `s.replace('"', "\\\"")`. -/
def replaceQuotes (s : List Char) : List Char := s.flatMap fun c => if c = '"' then ['\\', '"'] else [c]

mutual

/-- The text, as its characters. -/
def simpleLuaToJson : LuaValue → List Char
  | .nil => ['n', 'u', 'l', 'l']
  | .boolean b => if b then ['t', 'r', 'u', 'e'] else ['f', 'a', 'l', 's', 'e']
  | .integer n => (toString n.toInt).toList
  | .number f => (nums.display f).toList
  | .string s => '"' :: (replaceQuotes ((fromUtf8 s).getD "").toList ++ ['"'])
  | .table t => '[' :: ([','].intercalate (readList (jsonEntries t)) ++ [']'])
  | .other => ['n', 'u', 'l', 'l']

/-- The values of a table as texts. -/
def jsonEntries : List (LuaKey × LuaValue) → List (LuaKey × List Char)
  | [] => []
  | (k, v) :: t => (k, simpleLuaToJson v) :: jsonEntries t

end

end Encoder

section Decoder

/-- `n.as_i64()` -/
def asI64 : Json.Number → Option Int64
  | .posInt n => if n < 2 ^ 63 then some (Int64.ofNat n) else none
  | .negInt n => some (Int64.ofInt n)
  | .float _ => none

/-- `n.as_u64()` -/
def asU64 : Json.Number → Option Nat
  | .posInt n => some n
  | _ => none

/-- What the crate makes floating-point numbers of. -/
structure JsonFloats where
  ofU64 : Nat → F64
  asF64 : Json.Number → Option F64
  zero : F64

variable (floats : JsonFloats)

def numberToLua (n : Json.Number) : LuaValue :=
  match asI64 n with
  | some i => .integer i
  | none =>
    match asU64 n with
    | some u => if u ≤ 2 ^ 63 - 1 then .integer (Int64.ofNat u) else .number (floats.ofU64 u)
    | none => .number ((floats.asF64 n).getD floats.zero)

mutual

def jsonValueToLua : Json.Value → LuaValue
  | .null => .nil
  | .bool b => .boolean b
  | .number n => numberToLua floats n
  | .string s => .string (asBytes (.ofList s))
  | .array arr => .table (fillArray [] 0 arr)
  | .object map => .table (fillObject [] map)

def fillArray (t : LuaTable) (i : Nat) : List Json.Value → LuaTable
  | [] => t
  | item :: arr => fillArray (t.set (.integer ↑(i + 1)) (jsonValueToLua item)) (i + 1) arr

def fillObject (t : LuaTable) : List (List Char × Json.Value) → LuaTable
  | [] => t
  | (k, item) :: map => fillObject (t.set (.string (asBytes (.ofList k))) (jsonValueToLua item)) map

end

/-- `cjson.decode`: nothing if the text is not JSON. -/
def jsonToLua (fromStr : List Char → Option Json.Value) (s : List Char) : Option LuaValue :=
  (fromStr s).map (jsonValueToLua floats)

end Decoder

/-! ## Structural equality -/

/-- The same value, tables key by key. -/
inductive Same : LuaValue → LuaValue → Prop
  | boolean (b : Bool) : Same (.boolean b) (.boolean b)
  | integer (n : Int64) : Same (.integer n) (.integer n)
  | string (s : Bytes) : Same (.string s) (.string s)
  | table {t t' : LuaTable} (keys : ∀ k, (t.lookup k).isSome = (t'.lookup k).isSome)
      (values : ∀ k v v', t.lookup k = some v → t'.lookup k = some v' → Same v v') : Same (.table t) (.table t')

/-- What a script may hand over: booleans, integers, text, arrays without holes and tables with keys of text. -/
inductive Plain : LuaValue → Prop
  | boolean (b : Bool) : Plain (.boolean b)
  | integer (n : Int64) : Plain (.integer n)
  | string (s : String) : Plain (.string (asBytes s))
  | array {t : LuaTable} {items : List LuaValue} (lists : Lists t items) (each : ∀ v ∈ items, Plain v) :
      Plain (.table t)
  | keyed {t : LuaTable} (text : ∀ k v, t.lookup k = some v → ∃ s, k = .string (asBytes s))
      (each : ∀ k v, t.lookup k = some v → Plain v) : Plain (.table t)

/-- No table but arrays, no string with a backslash or a control character. -/
inductive Clean : LuaValue → Prop
  | boolean (b : Bool) : Clean (.boolean b)
  | integer (n : Int64) : Clean (.integer n)
  | string {s : String} (clean : ∀ c ∈ s.toList, c ≠ '\\' ∧ ¬ c < ' ') : Clean (.string (asBytes s))
  | array {t : LuaTable} {items : List LuaValue} (lists : Lists t items) (each : ∀ v ∈ items, Clean v) :
      Clean (.table t)

/-! ## Strings -/

section Strings

variable {cs tail : List Char}

theorem replaceQuotes_cons (c : Char) (cs : List Char) :
    replaceQuotes (c :: cs) = (if c = '"' then ['\\', '"'] else [c]) ++ replaceQuotes cs := rfl

theorem length_replaceQuotes (cs : List Char) : (replaceQuotes cs).length = cs.length + cs.count '"' := by
  induction cs with
  | nil => rfl
  | cons c cs ih =>
    rw [replaceQuotes_cons, List.length_append, ih, List.length_cons]
    by_cases quote : c = '"'
    · rw [if_pos quote, quote, List.count_cons_self, List.length_cons, List.length_singleton]
      omega
    · rw [if_neg quote, List.count_cons_of_ne quote, List.length_singleton]
      omega

theorem count_replaceQuotes (cs : List Char) : (replaceQuotes cs).count '"' = cs.count '"' := by
  induction cs with
  | nil => rfl
  | cons c cs ih =>
    rw [replaceQuotes_cons, List.count_append, ih]
    by_cases quote : c = '"'
    · rw [if_pos quote, quote, List.count_cons_self, Nat.add_comm]
      rfl
    · rw [if_neg quote, List.count_cons_of_ne quote, List.count_cons_of_ne quote, List.count_nil, Nat.zero_add]

/-- No backslash and no control character. -/
def CleanText (cs : List Char) : Prop := ∀ c ∈ cs, c ≠ '\\' ∧ ¬ c < ' '

theorem body_replaceQuotes (clean : CleanText cs) {k : Nat} (enough : (replaceQuotes cs).length < k) :
    Json.body k (replaceQuotes cs ++ '"' :: tail) = some (cs, tail) := by
  induction cs generalizing k with
  | nil =>
    obtain ⟨k, rfl⟩ := Nat.exists_eq_succ_of_ne_zero (Nat.ne_zero_of_lt enough)
    rfl
  | cons c cs ih =>
    obtain ⟨k, rfl⟩ := Nat.exists_eq_succ_of_ne_zero (Nat.ne_zero_of_lt enough)
    obtain ⟨noBackslash, visible⟩ := clean c List.mem_cons_self
    have rest (k : Nat) := ih (k := k) fun d mem => clean d (List.mem_cons_of_mem c mem)
    rw [replaceQuotes_cons, List.length_append] at enough
    rw [replaceQuotes_cons]
    by_cases quote : c = '"'
    · subst quote
      rw [if_pos rfl, List.length_cons, List.length_singleton] at enough
      have step : Json.body (k + 1) ('\\' :: '"' :: (replaceQuotes cs ++ '"' :: tail)) =
          (Json.body k (replaceQuotes cs ++ '"' :: tail)).bind fun p => some ('"' :: p.1, p.2) := rfl
      show Json.body (k + 1) ('\\' :: '"' :: (replaceQuotes cs ++ '"' :: tail)) = _
      rw [step, rest k (by omega), Option.bind_some]
    · rw [if_neg quote, List.length_singleton] at enough
      rw [if_neg quote, List.singleton_append, List.cons_append, Json.body, if_neg quote, if_neg noBackslash,
        if_neg visible, rest k (by omega)]
      rfl

theorem costs_eq_of_clean_or (cs : List Char) :
    CleanText cs ∨ cs.length + cs.count '"' < Json.costs cs := by
  induction cs with
  | nil => exact .inl fun c mem => by cases mem
  | cons c cs ih =>
    have least (cs : List Char) : cs.length + cs.count '"' ≤ Json.costs cs := by
      induction cs with
      | nil => exact le_rfl
      | cons c cs ih =>
        rw [Json.costs, List.map_cons, List.sum_cons, ← Json.costs, List.length_cons, Json.cost]
        by_cases quote : c = '"'
        · rw [if_pos (.inl quote), quote, List.count_cons_self]
          omega
        · rw [List.count_cons_of_ne quote]
          split <;> omega
    have rest := least cs
    rw [Json.costs, List.map_cons, List.sum_cons, ← Json.costs, List.length_cons, Json.cost]
    by_cases quote : c = '"'
    · rw [if_pos (.inl quote), quote, List.count_cons_self]
      refine ih.imp (fun clean d mem => ?_) fun more => by omega
      rcases List.mem_cons.1 mem with rfl | mem
      · decide
      · exact clean d mem
    · rw [List.count_cons_of_ne quote]
      by_cases dirty : c = '\\' ∨ c < ' '
      · rw [if_pos (.inr dirty)]
        exact .inr (by omega)
      · rw [if_neg (by tauto)]
        refine ih.imp (fun clean d mem => ?_) fun more => by omega
        rcases List.mem_cons.1 mem with rfl | mem
        · exact ⟨fun same => dirty (.inl same), fun less => dirty (.inr less)⟩
        · exact clean d mem

/-- If the string comes back, it is clean: otherwise its text would reach behind the closing quote. -/
theorem clean_of_body {k : Nat} {rest : List Char}
    (read : Json.body k (replaceQuotes cs ++ '"' :: tail) = some (cs, rest)) : CleanText cs := by
  obtain ⟨u, split, long, quotes⟩ := Json.body_costs read
  refine (costs_eq_of_clean_or cs).resolve_right fun more => ?_
  have longer : (replaceQuotes cs ++ ['"']).length ≤ u.length := by
    rw [List.length_append, length_replaceQuotes, List.length_singleton]
    omega
  have start : replaceQuotes cs ++ ['"'] <+: u := by
    refine List.prefix_of_prefix_length_le ?_ (List.prefix_append u ('"' :: rest)) longer
    rw [← split]
    exact ⟨tail, by rw [List.append_assoc]; rfl⟩
  have counts := start.sublist.count_le '"'
  rw [List.count_append, count_replaceQuotes, List.count_singleton_self] at counts
  omega

end Strings

/-! ## Lists -/

section Items

variable {floats : JsonFloats} {nums : LuaNumbers}

theorem jsonEntries_eq (t : LuaTable) : jsonEntries nums t = t.map fun e => (e.1, simpleLuaToJson nums e.2) := by
  induction t with
  | nil => rfl
  | cons e t ih => rw [jsonEntries, ih, List.map_cons]

theorem fillArray_eq (arr : List Json.Value) {t : LuaTable} {i : Nat} (filled : Filled t i) :
    fillArray floats t i arr = t ++ keyed i (arr.map fun j => (jsonValueToLua floats j).item) := by
  induction arr generalizing t i with
  | nil => rw [fillArray, List.map_nil, keyed, List.append_nil]
  | cons j arr ih =>
    rw [fillArray, LuaTable.set_next filled, ih (filled.next _), List.append_assoc, ← keyed_cons, List.map_cons]

theorem jsonValueToLua_array (arr : List Json.Value) : jsonValueToLua floats (.array arr) =
    .table (keyed 0 (arr.map fun j => (jsonValueToLua floats j).item)) := by
  rw [jsonValueToLua, fillArray_eq arr (fun e mem => by cases mem), List.nil_append]

/-- The items of a list come back: each as it was, and nothing behind them. -/
def SameItems : List LuaValue → List (Option LuaValue) → Prop
  | [], os => ∀ o ∈ os, o = none
  | v :: vs, some w :: os => Same v w ∧ SameItems vs os
  | _ :: _, _ => False

/-- Key by key, from `i + 1` on. -/
def SameFrom (i : Nat) (vs : List LuaValue) (os : List (Option LuaValue)) : Prop :=
  ∀ j : Nat, i < j →
    ((keyed i (vs.map some)).lookup (.integer ↑j)).isSome = ((keyed i os).lookup (.integer ↑j)).isSome ∧
      ∀ v w, (keyed i (vs.map some)).lookup (.integer ↑j) = some v → (keyed i os).lookup (.integer ↑j) = some w →
        Same v w

theorem sameFrom_cons (i : Nat) (v : LuaValue) (vs : List LuaValue) (o : Option LuaValue)
    (os : List (Option LuaValue)) :
    SameFrom i (v :: vs) (o :: os) ↔ (∃ w, o = some w ∧ Same v w) ∧ SameFrom (i + 1) vs os := by
  constructor
  · intro same
    constructor
    · obtain ⟨found, value⟩ := same (i + 1) (Nat.lt_succ_self i)
      rw [List.map_cons, lookup_keyed_succ, lookup_keyed_succ] at found value
      obtain ⟨w, rfl⟩ := Option.isSome_iff_exists.1 (found.symm.trans (Option.isSome_some))
      exact ⟨w, rfl, value v w rfl rfl⟩
    · intro j later
      have here := same j (by omega)
      rwa [List.map_cons, lookup_keyed_later later, lookup_keyed_later later] at here
  · rintro ⟨⟨w, rfl, first⟩, rest⟩ j after
    rcases Nat.eq_or_lt_of_le (Nat.succ_le_of_lt after) with rfl | later
    · rw [List.map_cons, lookup_keyed_succ, lookup_keyed_succ]
      refine ⟨rfl, fun v' w' left right => ?_⟩
      cases left
      cases right
      exact first
    · rw [List.map_cons, lookup_keyed_later later, lookup_keyed_later later]
      exact rest j later

theorem sameItems_iff (i : Nat) (vs : List LuaValue) (os : List (Option LuaValue)) :
    SameItems vs os ↔ SameFrom i vs os := by
  induction vs generalizing i os with
  | nil =>
    constructor
    · intro absent j after
      have empty : (keyed i os).lookup (.integer ↑j) = none := by
        clear after
        induction os generalizing i with
        | nil => rfl
        | cons o os ih =>
          obtain rfl := absent o List.mem_cons_self
          exact ih (i + 1) fun o' mem => absent o' (List.mem_cons_of_mem _ mem)
      rw [empty]
      exact ⟨rfl, fun v w left => by cases left⟩
    · intro same o mem
      by_contra given
      induction os generalizing i with
      | nil => cases mem
      | cons o' os ih =>
        have missing : o' = none := by
          have found := (same (i + 1) (Nat.lt_succ_self i)).1
          rw [lookup_keyed_succ] at found
          exact Option.not_isSome_iff_eq_none.1 fun isSome => by rw [isSome] at found; cases found
        subst missing
        refine ih (i + 1) (fun j later => ?_) ((List.mem_cons.1 mem).resolve_left given)
        have here := same j (by omega)
        rwa [lookup_keyed_later later] at here
  | cons v vs ih =>
    cases os with
    | nil =>
      refine iff_of_false id fun same => ?_
      have found := (same (i + 1) (Nat.lt_succ_self i)).1
      rw [List.map_cons, lookup_keyed_succ] at found
      cases found
    | cons o os =>
      rw [sameFrom_cons, ← ih]
      cases o with
      | none =>
        refine iff_of_false id ?_
        rintro ⟨⟨w, given, -⟩, -⟩
        cases given
      | some w =>
        refine and_congr_left fun _ => ⟨fun same => ⟨w, rfl, same⟩, ?_⟩
        rintro ⟨w', given, same⟩
        cases given
        exact same

theorem same_keyed_iff {t : LuaTable} {vs : List LuaValue} (lists : Lists t vs) (os : List (Option LuaValue)) :
    Same (.table t) (.table (keyed 0 os)) ↔ SameItems vs os := by
  rw [sameItems_iff 0]
  constructor
  · intro same j _
    cases same with
    | table keys values =>
      rw [← lists]
      exact ⟨keys _, values _⟩
  · intro same
    have at_ (k : LuaKey) : (t.lookup k).isSome = ((keyed 0 os).lookup k).isSome ∧
        ∀ v w, t.lookup k = some v → (keyed 0 os).lookup k = some w → Same v w := by
      by_cases index : ∃ j : Nat, 0 < j ∧ k = .integer ↑j
      · obtain ⟨j, positive, rfl⟩ := index
        rw [lists]
        exact same j positive
      · have absent {α : Type} (items : List (Option α)) : (keyed 0 items).lookup k = none := by
          rw [List.lookup_eq_none_iff]
          intro e mem
          obtain ⟨j, positive, key⟩ := key_of_mem_keyed mem
          rw [key, bne_iff_ne]
          exact fun same => index ⟨j, positive, same⟩
        rw [lists, absent, absent]
        exact ⟨rfl, fun v w left => by cases left⟩
    exact .table (fun k => (at_ k).1) fun k => (at_ k).2

end Items

/-! ## There and back -/

section RoundTrip

open Json

variable {floats : JsonFloats} {nums : LuaNumbers} {tail : List Char}

theorem integer_reads (n : Int64) (ends : Ends tail) : ∃ m, Json.Reads (simpleLuaToJson nums (.integer n) ++ tail)
    (.number m) tail ∧ ∀ floats, numberToLua floats m = .integer n := by
  have back : Int64.ofInt n.toInt = n := Int64.ofInt_toInt n
  have low := n.le_toInt
  have high := n.toInt_lt
  rw [simpleLuaToJson, Int.toString_eq_repr, Int.repr_eq_if]
  by_cases sign : 0 ≤ n.toInt
  · rw [if_pos sign, Nat.toList_repr]
    refine ⟨_, reads_natural (by omega) ends, fun floats => ?_⟩
    have same : Int64.ofNat n.toInt.toNat = n := by
      rw [← Int64.ofInt_eq_ofNat, Int.toNat_of_nonneg sign, back]
    rw [numberToLua, asI64, if_pos (by omega), same]
  · rw [if_neg sign, String.toList_append, Nat.toList_repr]
    refine ⟨_, reads_negative (by omega) (by omega) ends, fun floats => ?_⟩
    have same : -((-n.toInt).toNat : Int) = n.toInt := by omega
    rw [numberToLua, asI64, same, back]

/-- The items of an array, with what is behind the closing bracket. -/
def listText (tail : List Char) : List (List Char) → List Char
  | [] => ']' :: tail
  | [e] => e ++ ']' :: tail
  | e :: es => e ++ ',' :: listText tail es

theorem listText_eq (tail : List Char) (es : List (List Char)) :
    [','].intercalate es ++ [']'] ++ tail = listText tail es := by
  induction es with
  | nil => rfl
  | cons e es ih =>
    cases es with
    | nil => simp [listText, List.intercalate]
    | cons e' es =>
      rw [listText, ← ih]
      · simp [List.intercalate]
      · intro absurd
        cases absurd

theorem table_text (t : LuaTable) (tail : List Char) : simpleLuaToJson nums (.table t) ++ tail =
    '[' :: listText tail ((readList t).map (simpleLuaToJson nums)) := by
  rw [simpleLuaToJson, jsonEntries_eq, readList_map, List.cons_append, listText_eq]

theorem string_text (s : String) (tail : List Char) :
    simpleLuaToJson nums (.string (asBytes s)) ++ tail = '"' :: (replaceQuotes s.toList ++ '"' :: tail) := by
  rw [simpleLuaToJson, fromUtf8_asBytes, Option.getD_some, List.cons_append, List.append_assoc]
  rfl

/-- No text starts with white space or a closing bracket. -/
theorem starts_text {v : LuaValue} (plain : Plain v) (tail : List Char) :
    Starts (simpleLuaToJson nums v ++ tail) := by
  cases plain with
  | boolean b => cases b <;> exact ⟨_, _, rfl, rfl, by decide⟩
  | integer n =>
    rw [simpleLuaToJson, Int.toString_eq_repr, Int.repr_eq_if]
    split
    · rw [Nat.toList_repr]
      obtain ⟨c, ds, split⟩ := List.exists_cons_of_ne_nil (Nat.toDigits_ne_nil (n := n.toInt.toNat) (b := 10))
      have digit : c.isDigit = true := isDigit_numeral (split ▸ List.mem_cons_self)
      rw [split]
      refine ⟨c, ds ++ tail, rfl, ?_, ?_⟩
      · rw [← Bool.not_eq_true]
        intro space
        simp only [isSpace, Bool.or_eq_true, decide_eq_true_eq] at space
        rcases space with ((rfl | rfl) | rfl) | rfl <;> cases digit
      · rintro rfl
        cases digit
    · rw [String.toList_append]
      exact ⟨'-', _, rfl, rfl, by decide⟩
  | string s =>
    rw [string_text]
    exact ⟨_, _, rfl, rfl, by decide⟩
  | array lists each =>
    rw [table_text]
    exact ⟨_, _, rfl, rfl, by decide⟩
  | keyed text each =>
    rw [table_text]
    exact ⟨_, _, rfl, rfl, by decide⟩

theorem starts_items {items : List LuaValue} (some : items ≠ []) (each : ∀ v ∈ items, Plain v) :
    Starts (listText tail (items.map (simpleLuaToJson nums))) := by
  obtain ⟨v, items, rfl⟩ := List.exists_cons_of_ne_nil some
  have plain := each v List.mem_cons_self
  cases items with
  | nil => exact starts_text plain _
  | cons v' items => exact starts_text plain _

theorem Clean.plain {v : LuaValue} (clean : Clean v) : Plain v := by
  induction clean with
  | boolean b => exact .boolean b
  | integer n => exact .integer n
  | string clean => exact .string _
  | array lists _ ih => exact .array lists ih

theorem Same.item {v w : LuaValue} (same : Same v w) : w.item = some w := by
  cases same <;> rfl

theorem items_read {items : List LuaValue} (some : items ≠ [])
    (each : ∀ v ∈ items, ∀ tail, Ends tail →
      ∃ j, Json.Reads (simpleLuaToJson nums v ++ tail) j tail ∧ Same v (jsonValueToLua floats j)) :
    ∃ js, Json.ReadsItems (listText tail (items.map (simpleLuaToJson nums))) js tail ∧
      SameItems items (js.map fun j => (jsonValueToLua floats j).item) := by
  induction items with
  | nil => exact absurd rfl some
  | cons v items ih =>
    cases items with
    | nil =>
      obtain ⟨j, reads, same⟩ := each v List.mem_cons_self (']' :: tail) (.inr ⟨_, _, rfl, .inr rfl⟩)
      refine ⟨[j], .single reads, ?_⟩
      rw [List.map_singleton, same.item]
      exact ⟨same, fun o mem => by cases mem⟩
    | cons v' items =>
      obtain ⟨js, more, sameItems⟩ := ih (List.cons_ne_nil v' items) fun u mem => each u (List.mem_cons_of_mem v mem)
      obtain ⟨j, reads, same⟩ := each v List.mem_cons_self
        (',' :: listText tail ((v' :: items).map (simpleLuaToJson nums))) (.inr ⟨_, _, rfl, .inl rfl⟩)
      refine ⟨j :: js, .cons reads more, ?_⟩
      rw [List.map_cons, same.item]
      exact ⟨same, sameItems⟩

theorem Clean.reads {v : LuaValue} (clean : Clean v) (ends : Ends tail) :
    ∃ j, Json.Reads (simpleLuaToJson nums v ++ tail) j tail ∧ Same v (jsonValueToLua floats j) := by
  induction clean generalizing tail with
  | boolean b =>
    cases b with
    | true => exact ⟨_, reads_true tail, .boolean true⟩
    | false => exact ⟨_, reads_false tail, .boolean false⟩
  | integer n =>
    obtain ⟨m, reads, back⟩ := integer_reads n ends
    exact ⟨_, reads, by rw [jsonValueToLua, back floats]; exact .integer n⟩
  | @string s clean =>
    rw [string_text]
    have enough : (replaceQuotes s.toList).length < (replaceQuotes s.toList ++ '"' :: tail).length := by
      rw [List.length_append, List.length_cons]
      omega
    have read : body (replaceQuotes s.toList ++ '"' :: tail).length (replaceQuotes s.toList ++ '"' :: tail) =
        some (s.toList, tail) := body_replaceQuotes clean enough
    refine ⟨_, reads_string_iff.2 ⟨_, read, rfl⟩, ?_⟩
    rw [jsonValueToLua, String.ofList_toList]
    exact .string _
  | @array t items lists clean ih =>
    rw [table_text, lists.readList]
    by_cases empty : items = []
    · subst empty
      refine ⟨.array [], reads_empty_iff.2 ⟨rfl, rfl⟩, ?_⟩
      rw [jsonValueToLua_array, same_keyed_iff lists]
      intro o mem
      cases mem
    · obtain ⟨js, reads, same⟩ := items_read empty fun v mem tail ends => ih v mem ends
      have starts : Starts (listText tail (items.map (simpleLuaToJson nums))) :=
        starts_items empty fun v mem => (clean v mem).plain
      refine ⟨.array js, (reads_array_iff starts).2 ⟨js, reads, rfl⟩, ?_⟩
      rw [jsonValueToLua_array, same_keyed_iff lists]
      exact same

theorem clean_of_items {items : List LuaValue} (some : items ≠ []) {js : List Value} {rest : List Char}
    (each : ∀ v ∈ items, ∀ tail j rest, Json.Reads (simpleLuaToJson nums v ++ tail) j rest →
      Same v (jsonValueToLua floats j) → Clean v)
    (reads : Json.ReadsItems (listText tail (items.map (simpleLuaToJson nums))) js rest)
    (same : SameItems items (js.map fun j => (jsonValueToLua floats j).item)) : ∀ v ∈ items, Clean v := by
  induction items generalizing js with
  | nil => exact absurd rfl some
  | cons v items ih =>
    obtain ⟨j, behind, first, more⟩ := reads.cases
    obtain ⟨js', rfl⟩ : ∃ js', js = j :: js' := by
      rcases more with ⟨js', -, -, -, rfl⟩ | ⟨-, rfl⟩
      · exact ⟨js', rfl⟩
      · exact ⟨[], rfl⟩
    rw [List.map_cons] at same
    cases back : (jsonValueToLua floats j).item with
    | none =>
      rw [back] at same
      exact same.elim
    | some w =>
      rw [back] at same
      obtain ⟨here, others⟩ := same
      have value : jsonValueToLua floats j = w := by
        rw [LuaValue.item] at back
        split at back
        · cases back
        · exact Option.some.inj back
      rw [← value] at here
      cases items with
      | nil =>
        intro u mem
        rw [List.mem_singleton.1 mem]
        exact each v List.mem_cons_self _ j behind first here
      | cons v' items =>
        have clean := each v List.mem_cons_self _ j behind first here
        obtain ⟨j', reads', -⟩ : ∃ j', Json.Reads (simpleLuaToJson nums v ++
            ',' :: listText tail ((v' :: items).map (simpleLuaToJson nums))) j'
              (',' :: listText tail ((v' :: items).map (simpleLuaToJson nums))) ∧
              Same v (jsonValueToLua floats j') := clean.reads (.inr ⟨_, _, rfl, .inl rfl⟩)
        obtain ⟨-, rfl⟩ := reads'.det first
        intro u mem
        rcases List.mem_cons.1 mem with rfl | mem
        · exact clean
        · rcases more with ⟨js'', s', sep, later, same⟩ | ⟨close, -⟩
          · cases same
            rw [skip_cons rfl] at sep
            cases sep
            exact ih (List.cons_ne_nil v' items) (fun u mem => each u (List.mem_cons_of_mem v mem)) later others u mem
          · rw [skip_cons rfl] at close
            cases close

theorem clean_of_reads {v : LuaValue} (plain : Plain v) {j : Json.Value} {rest : List Char}
    (reads : Json.Reads (simpleLuaToJson nums v ++ tail) j rest) (same : Same v (jsonValueToLua floats j)) : Clean v := by
  induction plain generalizing tail j rest with
  | boolean b => exact .boolean b
  | integer n => exact .integer n
  | string s =>
    rw [string_text] at reads
    obtain ⟨text, read, rfl⟩ := reads_string_iff.1 reads
    rw [jsonValueToLua] at same
    generalize given : asBytes (.ofList text) = bytes at same
    generalize given' : asBytes s = bytes' at same
    cases same
    have equal := congrArg String.toList (asBytes_injective (given.trans given'.symm))
    rw [String.toList_ofList] at equal
    subst equal
    rw [← given']
    exact .string (clean_of_body read)
  | @array t items lists each ih =>
    refine .array lists ?_
    by_cases empty : items = []
    · subst empty
      intro v mem
      cases mem
    · rw [table_text, lists.readList] at reads
      have starts : Starts (listText tail (items.map (simpleLuaToJson nums))) := starts_items empty each
      obtain ⟨js, inner, rfl⟩ := (reads_array_iff starts).1 reads
      rw [jsonValueToLua_array, same_keyed_iff lists] at same
      exact clean_of_items empty (fun v mem tail j rest reads same => ih v mem reads same) inner same
  | @keyed t text _ ih =>
    have absent (k : LuaKey) (number : ∀ s, k ≠ .string (asBytes s)) : t.lookup k = none := by
      rw [Option.eq_none_iff_forall_not_mem]
      intro v found
      obtain ⟨s, rfl⟩ := text k v found
      exact number s rfl
    have agree (j : Nat) (_ : 0 < j) : t.lookup (.integer ↑j) = (keyed 0 []).lookup (.integer ↑j) :=
      absent _ fun s => LuaKey.noConfusion
    have nothing : readList t = [] := readList_of_agree agree
    rw [table_text, nothing] at reads
    obtain ⟨rfl, -⟩ := reads_empty_iff.1 reads
    rw [jsonValueToLua_array] at same
    have empty : Lists t [] := by
      intro k
      cases same with
      | table keys values => exact Option.not_isSome_iff_eq_none.1 fun isSome => by rw [keys k] at isSome; cases isSome
    refine .array empty fun v mem => ?_
    cases mem

/-- **cjson**: the text of a value is JSON and is decoded to the same value just if the value is clean. `fromStr` is
the parser of the other crate. -/
theorem cjson_iff {fromStr : List Char → Option Value} (implements : ∀ s, fromStr s = parse s) {v : LuaValue}
    (plain : Plain v) : ((parse (simpleLuaToJson nums v)).isSome = true ∧
      ∃ w, jsonToLua floats fromStr (simpleLuaToJson nums v) = some w ∧ Same v w) ↔ Clean v := by
  have whole : Json.Reads (simpleLuaToJson nums v) = Json.Reads (simpleLuaToJson nums v ++ []) := by rw [List.append_nil]
  constructor
  · rintro ⟨-, w, decoded, same⟩
    obtain ⟨j, parsed, rfl⟩ := Option.map_eq_some_iff.1 decoded
    rw [implements, parse_eq_some_iff, whole] at parsed
    obtain ⟨rest, reads, -⟩ := parsed
    exact clean_of_reads plain reads same
  · intro clean
    obtain ⟨j, reads, same⟩ := clean.reads (.inl rfl)
    have parsed : parse (simpleLuaToJson nums v) = some j :=
      parse_eq_some_iff.2 ⟨[], by rw [whole]; exact reads, rfl⟩
    refine ⟨by rw [parsed, Option.isSome_some], jsonValueToLua floats j, ?_, same⟩
    rw [jsonToLua, implements, parsed, Option.map_some]

/-- No number is ever floating-point. -/
def JsonFloats.plain : JsonFloats := ⟨fun _ => ⟨0⟩, fun _ => none, ⟨0⟩⟩

/-- `{"a\"b", {7}}`. -/
def nestedValue : LuaValue :=
  .table [(.integer 1, .string (asBytes "a\"b")), (.integer 2, .table [(.integer 1, .integer 7)])]

theorem lists_nestedValue : Lists
    [(LuaKey.integer 1, LuaValue.string (asBytes "a\"b")), (.integer 2, .table [(.integer 1, .integer 7)])]
    [.string (asBytes "a\"b"), .table [(.integer 1, .integer 7)]] := fun _ => rfl

theorem lists_seven : Lists [(LuaKey.integer 1, LuaValue.integer 7)] [.integer 7] := fun _ => rfl

theorem plain_nestedValue : Plain nestedValue := by
  refine .array lists_nestedValue fun v mem => ?_
  rcases List.mem_cons.1 mem with rfl | mem
  · exact .string "a\"b"
  · rw [List.mem_singleton.1 mem]
    refine .array lists_seven fun v mem => ?_
    rw [List.mem_singleton.1 mem]
    exact .integer 7

theorem clean_nestedValue : Clean nestedValue := by
  refine .array lists_nestedValue fun v mem => ?_
  rcases List.mem_cons.1 mem with rfl | mem
  · exact @Clean.string "a\"b" (by simp)
  · rw [List.mem_singleton.1 mem]
    refine .array lists_seven fun v mem => ?_
    rw [List.mem_singleton.1 mem]
    exact .integer 7

/-- A quote inside a string and a list inside a list come back. -/
theorem cjson_nested : simpleLuaToJson .plain nestedValue = "[\"a\\\"b\",[7]]".toList ∧
    (parse (simpleLuaToJson .plain nestedValue)).isSome = true ∧
      ∃ w, jsonToLua .plain parse (simpleLuaToJson .plain nestedValue) = some w ∧ Same nestedValue w :=
  ⟨by rfl, (cjson_iff (fun _ => rfl) plain_nestedValue).2 clean_nestedValue⟩

/-- `{a = 1}` is written as an empty array. -/
theorem cjson_keyed : ¬ ∀ v, Plain v → ∃ w, jsonToLua .plain parse (simpleLuaToJson .plain v) = some w ∧ Same v w := by
  intro all
  have plain : Plain (.table [(.string (asBytes "a"), .integer 1)]) := by
    refine .keyed (fun k v found => ?_) fun k v found => ?_
    all_goals
      rw [List.lookup_cons] at found
      split at found
      · cases found
        first
        | exact ⟨"a", beq_iff_eq.1 ‹_›⟩
        | exact .integer 1
      · cases found
  obtain ⟨w, decoded, same⟩ := all _ plain
  have text : jsonToLua .plain parse (simpleLuaToJson .plain (.table [(.string (asBytes "a"), .integer 1)])) =
      some (.table []) := rfl
  cases text.symm.trans decoded
  cases same with
  | table keys values => cases keys (.string (asBytes "a"))

end RoundTrip

end Scripting

end NexradeCache
