import Mathlib.Data.List.Forall2
import NexradeCache.Resp.Resp2
import NexradeCache.Server.LuaValues
import NexradeCache.Server.Replies

/-!
# Replies through scripts (`nexrade-lua/src/value.rs`, `nexrade-lua/src/function.rs`)

What `redis.call` answers a script is made a Lua value, and what the script returns a reply again. EVAL and FCALL each
have their own pair of converters. `Reply` is what a client is told, the nils of all kinds being one, and `denotes`
reads a reply as one, with pre-serialised bytes as the value they encode.

A table cannot hold nil, so an array is cut at the first item that became nil. With EVAL that is every nil
(`HoleFree`); FCALL sends the nils of RESP2 as false and back, but makes nil of pre-serialised replies and of `Null`
(`Kept`). `script_replies_iff` states both.
-/

namespace NexradeCache

namespace Scripting

open Utf8 Stream

variable (parseF64 : String → Option F64) (nums : LuaNumbers)

/-! ## EVAL -/

/-- `RespParser::parse_one` on a new parser that was fed the bytes. -/
def parseOne (bytes : Bytes) : Option Resp :=
  match parseResp parseF64 bytes with
  | .ok (v, _) => some v
  | .error _ => none

section Nested

variable (raw : Bytes → Except LuaError LuaValue)

mutual

/-- The conversion, with `raw` for pre-serialised bytes. -/
def toLua : Resp → Except LuaError LuaValue
  | .simpleString s => .ok (.table (LuaTable.set [] (.string (asBytes "ok")) (.string (asBytes s))))
  | .error e => .ok (.table (LuaTable.set [] (.string (asBytes "err")) (.string (asBytes e))))
  | .integer n => .ok (.integer n)
  | .bulkString none => .ok .nil
  | .bulkString (some b) => .ok (.string b)
  | .array none => .ok .nil
  | .array (some items) => (fillItems [] 0 items).map .table
  | .null => .ok .nil
  | .bool b => .ok (.boolean b)
  | .double d => .ok (.number d)
  | .map pairs => (fillPairs [] pairs).map .table
  | .set items => (fillItems [] 0 items).map .table
  | .push items => (fillItems [] 0 items).map .table
  | .raw bytes => raw bytes

/-- The loop over the items, from index `i` on. -/
def fillItems (t : LuaTable) (i : Nat) : List Resp → Except LuaError LuaTable
  | [] => .ok t
  | item :: items => do
    let v ← toLua item
    fillItems (t.set (.integer ↑(i + 1)) v) (i + 1) items

/-- The pairs of a map, set one by one. -/
def fillPairs (t : LuaTable) : List (Resp × Resp) → Except LuaError LuaTable
  | [] => .ok t
  | (k, v) :: pairs => do
    let lk ← toLua k
    let lv ← toLua v
    let key ← lk.toKey nums
    fillPairs (t.set key lv) pairs

end

end Nested

/-- Pre-serialised bytes are parsed; what they encode holds none itself (`respToLua_raw`). -/
def respToLua : Resp → Except LuaError LuaValue :=
  toLua nums fun bytes =>
    match parseOne parseF64 bytes with
    | some parsed => toLua nums (fun _ => .ok .nil) parsed
    | none => .ok .nil

mutual

/-- `lua_to_resp`: what EVAL answers for a value. -/
def luaToResp : LuaValue → Resp
  | .nil => .bulkString none
  | .boolean b => .integer (if b then 1 else 0)
  | .integer n => .integer n
  | .number f => .integer (nums.toI64 f)
  | .string s => .bulkString (some s)
  | .table t =>
    match (LuaTable.get t (.string (asBytes "ok"))).toText nums with
    | some s => .simpleString s
    | none =>
      match (LuaTable.get t (.string (asBytes "err"))).toText nums with
      | some s => .error s
      | none => .array (some (readList (luaEntries t)))
  | .other => .bulkString none

/-- The values of a table, converted. -/
def luaEntries : List (LuaKey × LuaValue) → List (LuaKey × Resp)
  | [] => []
  | (k, v) :: t => (k, luaToResp v) :: luaEntries t

end

/-! ## FCALL -/

mutual

/-- `resp_to_lua_local`: what FCALL hands to a function. -/
def respToLuaLocal : Resp → LuaValue
  | .simpleString s => .table (LuaTable.set [] (.string (asBytes "ok")) (.string (asBytes s)))
  | .error e => .table (LuaTable.set [] (.string (asBytes "err")) (.string (asBytes e)))
  | .integer n => .integer n
  | .bulkString (some b) => .string b
  | .bulkString none => .boolean false
  | .array (some items) => .table (fillLocal [] 0 items)
  | .array none => .boolean false
  | _ => .nil

/-- The elements of an array, set one by one. -/
def fillLocal (t : LuaTable) (i : Nat) : List Resp → LuaTable
  | [] => t
  | item :: items => fillLocal (t.set (.integer ↑(i + 1)) (respToLuaLocal item)) (i + 1) items

end

mutual

/-- `lua_value_to_resp`: what FCALL answers for a value. -/
def luaValueToResp : LuaValue → Resp
  | .nil => .bulkString none
  | .boolean b => if b then .integer 1 else .bulkString none
  | .integer n => .integer n
  | .number f => .integer (nums.toI64 f)
  | .string s => .bulkString (some s)
  | .table t =>
    match (LuaTable.get t (.string (asBytes "ok"))).toText nums with
    | some s => .simpleString s
    | none =>
      match (LuaTable.get t (.string (asBytes "err"))).toText nums with
      | some s => .error s
      | none => .array (some (readList (luaValueEntries t)))
  | .other => .bulkString none

/-- The same for the entries of a table. -/
def luaValueEntries : List (LuaKey × LuaValue) → List (LuaKey × Resp)
  | [] => []
  | (k, v) :: t => (k, luaValueToResp v) :: luaValueEntries t

end

/-! ## What a reply tells -/

/-- What a reply means, whatever its encoding. -/
inductive Reply where
  | status (s : String)
  | error (s : String)
  | integer (n : Int64)
  | bulk (b : Bytes)
  | nil
  | array (items : List Reply)

section Reading

variable (raw : Bytes → Option Reply)

mutual

/-- The meaning of a frame. -/
def readsAs : Resp → Option Reply
  | .simpleString s => some (.status s)
  | .error s => some (.error s)
  | .integer n => some (.integer n)
  | .bulkString none => some .nil
  | .bulkString (some b) => some (.bulk b)
  | .array none => some .nil
  | .array (some items) => (itemsReadAs items).map .array
  | .null => some .nil
  | .raw bytes => raw bytes
  | _ => none

/-- The meanings of its elements. -/
def itemsReadAs : List Resp → Option (List Reply)
  | [] => some []
  | item :: items => do
    let r ← readsAs item
    let rs ← itemsReadAs items
    return r :: rs

end

end Reading

/-- What a reply stands for: no RESP3 aggregates, bytes read as the value they encode. -/
def denotes : Resp → Option Reply :=
  readsAs fun bytes => (parseOne parseF64 bytes).bind (readsAs fun _ => none)

mutual

/-- No array, at any depth, has a nil in it. -/
def HoleFree : Reply → Prop
  | .array items => AllSolid items
  | _ => True

/-- No element is null, at any depth. -/
def AllSolid : List Reply → Prop
  | [] => True
  | item :: items => (item ≠ .nil ∧ HoleFree item) ∧ AllSolid items

end

/-- What FCALL makes nil of when it is in an array. -/
def Dropped : Resp → Prop
  | .raw _ => True
  | .null => True
  | _ => False

mutual

/-- No array has pre-serialised bytes or a `Null` in it, and the reply is not itself pre-serialised, but for a nil. -/
def Kept : Resp → Prop
  | .raw bytes => denotes parseF64 (.raw bytes) = some .nil
  | .array (some items) => AllKept items
  | _ => True

/-- No element is dropped, at any depth. -/
def AllKept : List Resp → Prop
  | [] => True
  | item :: items => (¬ Dropped item ∧ Kept item) ∧ AllKept items

end

/-! ## Arrays in tables -/

variable {parseF64 nums}

theorem luaEntries_eq (t : LuaTable) : luaEntries nums t = t.map fun e => (e.1, luaToResp nums e.2) := by
  induction t with
  | nil => rfl
  | cons e t ih => rw [luaEntries, ih, List.map_cons]

theorem luaValueEntries_eq (t : LuaTable) :
    luaValueEntries nums t = t.map fun e => (e.1, luaValueToResp nums e.2) := by
  induction t with
  | nil => rfl
  | cons e t ih => rw [luaValueEntries, ih, List.map_cons]

theorem get_keyed_string (s : Bytes) (items : List (Option LuaValue)) :
    LuaTable.get (keyed 0 items) (.string s) = .nil := by
  rw [LuaTable.get, lookup_keyed_string]
  rfl

/-- So it becomes an array, of the elements that are there. -/
theorem luaToResp_keyed (items : List (Option LuaValue)) :
    luaToResp nums (.table (keyed 0 items)) = .array (some (present (items.map (Option.map (luaToResp nums))))) := by
  rw [luaToResp, get_keyed_string, get_keyed_string, luaEntries_eq, map_keyed, readList_keyed]
  rfl

theorem luaValueToResp_keyed (items : List (Option LuaValue)) : luaValueToResp nums (.table (keyed 0 items)) =
    .array (some (present (items.map (Option.map (luaValueToResp nums))))) := by
  rw [luaValueToResp, get_keyed_string, get_keyed_string, luaValueEntries_eq, map_keyed, readList_keyed]
  rfl

theorem fillItems_eq {raw : Bytes → Except LuaError LuaValue} {items : List Resp} {vs : List LuaValue}
    (each : List.Forall₂ (fun item v => toLua nums raw item = .ok v) items vs) {t : LuaTable} {i : Nat}
    (filled : Filled t i) : fillItems nums raw t i items = .ok (t ++ keyed i (vs.map LuaValue.item)) := by
  induction each generalizing t i with
  | nil => rw [fillItems, List.map_nil, keyed, List.append_nil]
  | @cons item v items vs here _ ih =>
    have step : fillItems nums raw t i (item :: items) = fillItems nums raw (t.set (.integer ↑(i + 1)) v) (i + 1) items := by
      rw [fillItems, here]
      rfl
    rw [step, LuaTable.set_next filled, ih (filled.next v), List.append_assoc, ← keyed_cons, List.map_cons]

theorem fillLocal_eq (items : List Resp) {t : LuaTable} {i : Nat} (filled : Filled t i) :
    fillLocal t i items = t ++ keyed i (items.map fun item => (respToLuaLocal item).item) := by
  induction items generalizing t i with
  | nil => rw [fillLocal, List.map_nil, keyed, List.append_nil]
  | cons item items ih =>
    rw [fillLocal, LuaTable.set_next filled, ih (filled.next _), List.append_assoc, ← keyed_cons, List.map_cons]

theorem luaToResp_status (s : String) :
    luaToResp nums (.table (LuaTable.set [] (.string (asBytes "ok")) (.string (asBytes s)))) = .simpleString s := by
  have read : (LuaTable.get (LuaTable.set [] (.string (asBytes "ok")) (.string (asBytes s)))
      (.string (asBytes "ok"))).toText nums = some s := fromUtf8_asBytes s
  rw [luaToResp, read]

theorem luaToResp_error (s : String) :
    luaToResp nums (.table (LuaTable.set [] (.string (asBytes "err")) (.string (asBytes s)))) = .error s := by
  have noStatus : (LuaTable.get (LuaTable.set [] (.string (asBytes "err")) (.string (asBytes s)))
      (.string (asBytes "ok"))).toText nums = none := rfl
  have read : (LuaTable.get (LuaTable.set [] (.string (asBytes "err")) (.string (asBytes s)))
      (.string (asBytes "err"))).toText nums = some s := fromUtf8_asBytes s
  rw [luaToResp, noStatus, read]

theorem luaValueToResp_status (s : String) :
    luaValueToResp nums (.table (LuaTable.set [] (.string (asBytes "ok")) (.string (asBytes s)))) =
      .simpleString s := by
  have read : (LuaTable.get (LuaTable.set [] (.string (asBytes "ok")) (.string (asBytes s)))
      (.string (asBytes "ok"))).toText nums = some s := fromUtf8_asBytes s
  rw [luaValueToResp, read]

theorem luaValueToResp_error (s : String) :
    luaValueToResp nums (.table (LuaTable.set [] (.string (asBytes "err")) (.string (asBytes s)))) = .error s := by
  have noStatus : (LuaTable.get (LuaTable.set [] (.string (asBytes "err")) (.string (asBytes s)))
      (.string (asBytes "ok"))).toText nums = none := rfl
  have read : (LuaTable.get (LuaTable.set [] (.string (asBytes "err")) (.string (asBytes s)))
      (.string (asBytes "err"))).toText nums = some s := fromUtf8_asBytes s
  rw [luaValueToResp, noStatus, read]

/-! ## What comes back -/

theorem itemsReadAs_eq_some {raw : Bytes → Option Reply} {items : List Resp} {replies : List Reply} :
    itemsReadAs raw items = some replies ↔ List.Forall₂ (fun item r => readsAs raw item = some r) items replies := by
  induction items generalizing replies with
  | nil => rw [List.forall₂_nil_left_iff, itemsReadAs, Option.some_inj, eq_comm]
  | cons item items ih =>
    constructor
    · intro read
      obtain ⟨r, here, rest⟩ := Option.bind_eq_some_iff.1 read
      obtain ⟨rs, others, built⟩ := Option.bind_eq_some_iff.1 rest
      cases built
      exact .cons here (ih.1 others)
    · rintro (_ | ⟨here, rest⟩)
      rw [itemsReadAs, here, ih.2 rest]
      rfl

/-- What came back reads as the reply just if `right`. Nothing came back only if it is not. -/
def Comes (parseF64 : String → Option F64) (back : Option Resp) (reply : Reply) (right : Prop) : Prop :=
  match back with
  | none => ¬ right
  | some v => ∃ reply', denotes parseF64 v = some reply' ∧ (reply' = reply ↔ right)

/-- An array that is cut at the first gap comes back right just if all its items do. -/
theorem present_comes {α : Type} {conv : α → Option Resp} {Right : α → Reply → Prop} {xs : List α}
    {replies : List Reply} (each : List.Forall₂ (fun x r => Comes parseF64 (conv x) r (Right x r)) xs replies) :
    Comes parseF64 (some (.array (some (present (xs.map conv))))) (.array replies) (List.Forall₂ Right xs replies) := by
  suffices list : ∃ rs, List.Forall₂ (fun v r => denotes parseF64 v = some r) (present (xs.map conv)) rs ∧
      (rs = replies ↔ List.Forall₂ Right xs replies) by
    obtain ⟨rs, read, same⟩ := list
    refine ⟨.array rs, ?_, by rw [Reply.array.injEq, same]⟩
    rw [denotes, readsAs, itemsReadAs_eq_some.2 read]
    rfl
  induction each with
  | nil => exact ⟨[], .nil, iff_of_true rfl .nil⟩
  | @cons x r xs replies here _ ih =>
    rw [List.map_cons]
    cases back : conv x with
    | none =>
      rw [back] at here
      exact ⟨[], .nil, iff_of_false (by simp) fun all => by cases all; exact here ‹_›⟩
    | some v =>
      rw [back] at here
      obtain ⟨r', read, same⟩ := here
      obtain ⟨rs, reads, same'⟩ := ih
      exact ⟨r' :: rs, .cons read reads, by rw [List.cons.injEq, same, same', List.forall₂_cons]⟩

/-- The value a script gets for a reply, and what comes back of it. -/
structure Returns (parseF64 : String → Option F64) (nums : LuaNumbers) (v : LuaValue) (reply : Reply) : Prop where
  nil : v.isNil = true ↔ reply = .nil
  back : Comes parseF64 (some (luaToResp nums v)) reply (HoleFree reply)

theorem allSolid_iff {α : Type} {xs : List α} {replies : List Reply} (same : xs.length = replies.length) :
    List.Forall₂ (fun _ r => r ≠ Reply.nil ∧ HoleFree r) xs replies ↔ AllSolid replies := by
  induction replies generalizing xs with
  | nil =>
    obtain rfl := List.eq_nil_of_length_eq_zero same
    exact iff_of_true .nil trivial
  | cons r replies ih =>
    obtain ⟨x, xs, rfl⟩ := List.exists_cons_of_length_eq_add_one same
    rw [List.forall₂_cons, ih (Nat.succ.inj same), AllSolid]

theorem Returns.leaf {v : LuaValue} {reply : Reply} (nil : v.isNil = true ↔ reply = .nil)
    (read : denotes parseF64 (luaToResp nums v) = some reply) (free : HoleFree reply) : Returns parseF64 nums v reply :=
  ⟨nil, reply, read, iff_of_true rfl free⟩

theorem Returns.array {vs : List LuaValue} {replies : List Reply}
    (each : List.Forall₂ (Returns parseF64 nums) vs replies) :
    Returns parseF64 nums (.table (keyed 0 (vs.map LuaValue.item))) (.array replies) := by
  refine ⟨iff_of_false Bool.false_ne_true Reply.noConfusion, ?_⟩
  have items : List.Forall₂ (fun v r => Comes parseF64 (v.item.map (luaToResp nums)) r (r ≠ .nil ∧ HoleFree r))
      vs replies := by
    refine each.imp fun v r returns => ?_
    by_cases isNil : v.isNil = true
    · rw [LuaValue.item, if_pos isNil]
      exact fun right => right.1 (returns.nil.1 isNil)
    · rw [LuaValue.item, if_neg isNil]
      obtain ⟨r', read, same⟩ := returns.back
      exact ⟨r', read, same.trans (and_iff_right fun same => isNil (returns.nil.2 same)).symm⟩
  have all := present_comes items
  rw [allSolid_iff each.length_eq] at all
  rw [luaToResp_keyed, List.map_map]
  exact all

/-- The values of the items, one after the other. -/
theorem forall₂_values {α β γ : Type} {R : α → γ → Prop} {F : α → β → Prop} {S : β → γ → Prop} {xs : List α}
    {zs : List γ} (each : List.Forall₂ R xs zs) (value : ∀ x ∈ xs, ∀ z, R x z → ∃ y, F x y ∧ S y z) :
    ∃ ys, List.Forall₂ F xs ys ∧ List.Forall₂ S ys zs := by
  induction each with
  | nil => exact ⟨[], .nil, .nil⟩
  | @cons x z xs zs here _ ih =>
    obtain ⟨y, left, right⟩ := value x List.mem_cons_self z here
    obtain ⟨ys, lefts, rights⟩ := ih fun x' mem => value x' (List.mem_cons_of_mem x mem)
    exact ⟨y :: ys, .cons left lefts, .cons right rights⟩

/-- EVAL: what comes back is the reply just if no array has a nil in it. -/
theorem toLua_returns {rawValue : Bytes → Except LuaError LuaValue} {rawReply : Bytes → Option Reply}
    (raws : ∀ bytes reply, rawReply bytes = some reply →
      ∃ v, rawValue bytes = .ok v ∧ Returns parseF64 nums v reply) (r : Resp) {reply : Reply}
    (read : readsAs rawReply r = some reply) : ∃ v, toLua nums rawValue r = .ok v ∧ Returns parseF64 nums v reply := by
  induction r using Resp.induction_children generalizing reply with
  | step r ih =>
    cases r with
    | simpleString s =>
      cases read
      exact ⟨_, rfl, .leaf (iff_of_false Bool.false_ne_true Reply.noConfusion) (by rw [luaToResp_status]; rfl) trivial⟩
    | error s =>
      cases read
      exact ⟨_, rfl, .leaf (iff_of_false Bool.false_ne_true Reply.noConfusion) (by rw [luaToResp_error]; rfl) trivial⟩
    | integer n =>
      cases read
      exact ⟨_, rfl, .leaf (iff_of_false Bool.false_ne_true Reply.noConfusion) rfl trivial⟩
    | bulkString data =>
      cases data with
      | none =>
        cases read
        exact ⟨_, rfl, .leaf (iff_of_true rfl rfl) rfl trivial⟩
      | some b =>
        cases read
        exact ⟨_, rfl, .leaf (iff_of_false Bool.false_ne_true Reply.noConfusion) rfl trivial⟩
    | array items =>
      cases items with
      | none =>
        cases read
        exact ⟨_, rfl, .leaf (iff_of_true rfl rfl) rfl trivial⟩
      | some items =>
        obtain ⟨replies, reads, rfl⟩ := Option.map_eq_some_iff.1 read
        obtain ⟨vs, converted, returns⟩ := forall₂_values (itemsReadAs_eq_some.1 reads)
          fun item mem reply read => ih item mem read
        refine ⟨_, ?_, Returns.array returns⟩
        rw [toLua, fillItems_eq converted (fun e mem => by cases mem), List.nil_append]
        rfl
    | null =>
      cases read
      exact ⟨_, rfl, .leaf (iff_of_true rfl rfl) rfl trivial⟩
    | raw bytes => exact raws bytes reply read
    | _ => cases read

theorem respToLua_returns {r : Resp} {reply : Reply} (read : denotes parseF64 r = some reply) :
    ∃ v, respToLua parseF64 nums r = .ok v ∧ Returns parseF64 nums v reply := by
  refine toLua_returns (fun bytes reply encoded => ?_) r read
  obtain ⟨parsed, parse, reads⟩ := Option.bind_eq_some_iff.1 encoded
  rw [parse]
  have nothing (bytes : Bytes) (reply : Reply) (absurd : (fun _ : Bytes => none) bytes = some reply) :
      ∃ v, (fun _ : Bytes => Except.ok (ε := LuaError) LuaValue.nil) bytes = .ok v ∧ Returns parseF64 nums v reply := by
    cases absurd
  exact toLua_returns nothing parsed reads

theorem allKept_iff {items : List Resp} {replies : List Reply} (same : items.length = replies.length) :
    List.Forall₂ (fun item (_ : Reply) => ¬ Dropped item ∧ Kept parseF64 item) items replies ↔
      AllKept parseF64 items := by
  induction items generalizing replies with
  | nil =>
    obtain rfl := List.eq_nil_of_length_eq_zero same.symm
    exact iff_of_true .nil trivial
  | cons item items ih =>
    obtain ⟨r, replies, rfl⟩ := List.exists_cons_of_length_eq_add_one same.symm
    rw [List.forall₂_cons, ih (Nat.succ.inj same), AllKept]

/-- FCALL: the value is nil only where the reply is dropped from an array, and what comes back is the reply just if it
is kept. -/
theorem respToLuaLocal_comes (r : Resp) {reply : Reply} (read : denotes parseF64 r = some reply) :
    ((respToLuaLocal r).isNil = true ↔ Dropped r) ∧
      Comes parseF64 (some (luaValueToResp nums (respToLuaLocal r))) reply (Kept parseF64 r) := by
  induction r using Resp.induction_children generalizing reply with
  | step r ih =>
    cases r with
    | simpleString s =>
      refine ⟨iff_of_false Bool.false_ne_true id, _, ?_, iff_of_true (Option.some.inj read) trivial⟩
      rw [respToLuaLocal, luaValueToResp_status]
      rfl
    | error s =>
      refine ⟨iff_of_false Bool.false_ne_true id, _, ?_, iff_of_true (Option.some.inj read) trivial⟩
      rw [respToLuaLocal, luaValueToResp_error]
      rfl
    | integer n =>
      exact ⟨iff_of_false Bool.false_ne_true id, _, rfl, iff_of_true (Option.some.inj read) trivial⟩
    | bulkString data =>
      cases data with
      | none => exact ⟨iff_of_false Bool.false_ne_true id, _, rfl, iff_of_true (Option.some.inj read) trivial⟩
      | some b => exact ⟨iff_of_false Bool.false_ne_true id, _, rfl, iff_of_true (Option.some.inj read) trivial⟩
    | array items =>
      cases items with
      | none => exact ⟨iff_of_false Bool.false_ne_true id, _, rfl, iff_of_true (Option.some.inj read) trivial⟩
      | some items =>
        refine ⟨iff_of_false Bool.false_ne_true id, ?_⟩
        obtain ⟨replies, reads, rfl⟩ := Option.map_eq_some_iff.1 read
        have each := itemsReadAs_eq_some.1 reads
        have comes : List.Forall₂ (fun item r => Comes parseF64
            ((respToLuaLocal item).item.map (luaValueToResp nums)) r (¬ Dropped item ∧ Kept parseF64 item))
            items replies := by
          refine List.forall₂_iff_zip.2 ⟨each.length_eq, fun {item r} mem => ?_⟩
          obtain ⟨nil, back⟩ := ih item (List.of_mem_zip mem).1 ((List.forall₂_iff_zip.1 each).2 mem)
          by_cases isNil : (respToLuaLocal item).isNil = true
          · rw [LuaValue.item, if_pos isNil]
            exact fun right => right.1 (nil.1 isNil)
          · rw [LuaValue.item, if_neg isNil]
            obtain ⟨r', read, same⟩ := back
            exact ⟨r', read, same.trans (and_iff_right fun dropped => isNil (nil.2 dropped)).symm⟩
        have all := present_comes comes
        rw [allKept_iff each.length_eq] at all
        rw [respToLuaLocal, fillLocal_eq items (fun e mem => by cases mem), List.nil_append, luaValueToResp_keyed,
          List.map_map]
        exact all
    | null => exact ⟨iff_of_true rfl trivial, _, rfl, iff_of_true (Option.some.inj read) trivial⟩
    | raw bytes =>
      refine ⟨iff_of_true rfl trivial, .nil, rfl, ?_⟩
      rw [Kept, read, Option.some_inj, eq_comm]
    | _ => cases read

/-- A reply comes back from EVAL as it was just if no array of it has a nil, and from FCALL just if no array has
pre-serialised bytes or a `Null`, and it is not a pre-serialised value itself. There are two conversions, one for
each command, and they differ in what they make of these. -/
theorem script_replies_iff {r : Resp} {reply : Reply} (read : denotes parseF64 r = some reply) :
    ((∃ v, respToLua parseF64 nums r = .ok v ∧ denotes parseF64 (luaToResp nums v) = some reply) ↔
        HoleFree reply) ∧
      (denotes parseF64 (luaValueToResp nums (respToLuaLocal r)) = some reply ↔ Kept parseF64 r) := by
  obtain ⟨v, value, returns⟩ : ∃ v, respToLua parseF64 nums r = .ok v ∧ Returns parseF64 nums v reply :=
    respToLua_returns read
  obtain ⟨reply₁, read₁, same₁⟩ := returns.back
  obtain ⟨-, reply₂, read₂, same₂⟩ := respToLuaLocal_comes r read
  constructor
  · rw [← same₁]
    constructor
    · rintro ⟨v', value', read'⟩
      cases value.symm.trans value'
      exact Option.some.inj (read₁.symm.trans read')
    · rintro rfl
      exact ⟨v, value, read₁⟩
  · rw [read₂, Option.some_inj, same₂]

/-- What MGET answers for a missing key and one that holds "b". -/
def missingFirst : Resp := .array (some [.bulkString none, .bulkString (some [98])])

/-- What XRANGE answers for an entry with one field. -/
def entryReply : Resp :=
  .array (some [.array (some [.bulkString (some [49]), .array (some [.bulkString (some [102]), .bulkString (some [98])])])])

/-- EVAL does not give back the first reply, FCALL does. The second comes back from both. -/
theorem script_replies_missing :
    (¬∃ v, respToLua (fun _ => none) .plain missingFirst = .ok v ∧
        denotes (fun _ => none) (luaToResp .plain v) = some (.array [.nil, .bulk [98]])) ∧
      denotes (fun _ => none) (luaValueToResp .plain (respToLuaLocal missingFirst)) =
        some (.array [.nil, .bulk [98]]) ∧
      (∃ v, respToLua (fun _ => none) .plain entryReply = .ok v ∧ denotes (fun _ => none) (luaToResp .plain v) =
        some (.array [.array [.bulk [49], .array [.bulk [102], .bulk [98]]]])) ∧
      denotes (fun _ => none) (luaValueToResp .plain (respToLuaLocal entryReply)) =
        some (.array [.array [.bulk [49], .array [.bulk [102], .bulk [98]]]]) := by
  have missing : denotes (fun _ => none) missingFirst = some (.array [.nil, .bulk [98]]) := rfl
  have entry : denotes (fun _ => none) entryReply =
      some (.array [.array [.bulk [49], .array [.bulk [102], .bulk [98]]]]) := rfl
  obtain ⟨hole, kept⟩ := @script_replies_iff (fun _ => none) .plain missingFirst _ missing
  obtain ⟨solid, kept'⟩ := @script_replies_iff (fun _ => none) .plain entryReply _ entry
  refine ⟨fun whole => (hole.1 whole).1.1 rfl, kept.2 ?_, solid.2 ?_, kept'.2 ?_⟩
  · simp [missingFirst, Kept, AllKept, Dropped]
  · simp [HoleFree, AllSolid]
  · simp [entryReply, Kept, AllKept, Dropped]

/-- EVAL gives back an empty array. -/
theorem script_replies_lost : ¬ ∀ r reply, denotes (fun _ => none) r = some reply →
    ∃ v, respToLua (fun _ => none) .plain r = .ok v ∧ denotes (fun _ => none) (luaToResp .plain v) = some reply := by
  intro all
  obtain ⟨v, value, read⟩ := all missingFirst (.array [.nil, .bulk [98]]) rfl
  have given : respToLua (fun _ => none) .plain missingFirst = .ok (.table [(.integer 2, .string [98])]) := rfl
  cases given.symm.trans value
  cases read

/-! ## Bytes inside bytes -/

section Unraw

open Resp

/-- The parser returns no pre-serialised bytes. -/
def ReturnsUnraw (parse : Bytes → ParseResult (Resp × Nat)) : Prop :=
  ∀ {b v n}, parse b = .ok (v, n) → v.Everywhere NotRaw

variable {parse : Bytes → ParseResult (Resp × Nat)}

theorem parseItems_unraw (nested : ReturnsUnraw parse) {b : Bytes} {n offset last : Nat} {items : List Resp}
    (h : parseItems parse b n offset = .ok (items, last)) : ∀ c ∈ items, c.Everywhere NotRaw := by
  induction n generalizing offset items with
  | zero =>
    cases h
    intro c mem
    cases mem
  | succ n ih =>
    obtain ⟨⟨item, used⟩, first, h⟩ := bind_eq_ok h
    obtain ⟨⟨rest, end'⟩, more, h⟩ := bind_eq_ok h
    cases h
    intro c mem
    rcases List.mem_cons.1 mem with rfl | mem
    · exact nested first
    · exact ih more c mem

theorem parsePairs_unraw (nested : ReturnsUnraw parse) {b : Bytes} {n offset last : Nat} {pairs : List (Resp × Resp)}
    (h : parsePairs parse b n offset = .ok (pairs, last)) : ∀ c ∈ flatPairs pairs, c.Everywhere NotRaw := by
  induction n generalizing offset pairs with
  | zero =>
    cases h
    intro c mem
    cases mem
  | succ n ih =>
    obtain ⟨⟨key, used⟩, first, h⟩ := bind_eq_ok h
    obtain ⟨⟨value, used'⟩, second, h⟩ := bind_eq_ok h
    obtain ⟨⟨rest, end'⟩, more, h⟩ := bind_eq_ok h
    cases h
    intro c mem
    rcases List.mem_cons.1 mem with rfl | mem
    · exact nested first
    · rcases List.mem_cons.1 mem with rfl | mem
      · exact nested second
      · exact ih more c mem

theorem tokenizeInline_unraw {line : Bytes} {parts : List Resp} (h : tokenizeInline line = .ok parts) :
    ∀ c ∈ parts, c.Everywhere NotRaw := by
  fun_induction tokenizeInline line generalizing parts with
  | case1 => cases h; simp
  | case2 => cases h
  | case3 line c rest skipped quote token after read ih =>
    obtain ⟨more, others, h⟩ := bind_eq_ok h
    cases h
    intro c mem
    rcases List.mem_cons.1 mem with rfl | mem
    · exact everywhere_leaf trivial rfl
    · exact ih others c mem
  | case4 line c rest skipped bare ih =>
    obtain ⟨more, others, h⟩ := bind_eq_ok h
    cases h
    intro c mem
    rcases List.mem_cons.1 mem with rfl | mem
    · exact everywhere_leaf trivial rfl
    · exact ih others c mem

theorem parseWith_unraw (nested : ReturnsUnraw parse) : ReturnsUnraw (parseWith parseF64 parse) := by
  intro b v n h
  cases b with
  | nil => cases h
  | cons tag b =>
    unfold parseWith at h
    dsimp only at h
    split at h
    · obtain ⟨⟨text, used⟩, -, h⟩ := bind_eq_ok h
      cases h
      exact everywhere_leaf trivial rfl
    · obtain ⟨⟨text, used⟩, -, h⟩ := bind_eq_ok h
      cases h
      exact everywhere_leaf trivial rfl
    · obtain ⟨⟨i, used⟩, -, h⟩ := bind_eq_ok h
      cases h
      exact everywhere_leaf trivial rfl
    · obtain ⟨⟨len, header⟩, -, h⟩ := bind_eq_ok h
      dsimp only at h
      split_ifs at h
      · cases h
        exact everywhere_leaf trivial rfl
      · cases h
        exact everywhere_leaf trivial rfl
    · obtain ⟨⟨len, header⟩, -, h⟩ := bind_eq_ok h
      dsimp only at h
      split_ifs at h
      · cases h
        exact everywhere_leaf trivial rfl
      · obtain ⟨⟨items, last⟩, read, h⟩ := bind_eq_ok h
        cases h
        exact .intro trivial (parseItems_unraw nested read)
    · rw [parseResp3Null] at h
      split_ifs at h
      cases h
      exact everywhere_leaf trivial rfl
    · rw [parseResp3Bool] at h
      split at h
      · cases h
      · obtain ⟨val, -, h⟩ := bind_eq_ok h
        split_ifs at h
        cases h
        exact everywhere_leaf trivial rfl
    · obtain ⟨⟨d, used⟩, -, h⟩ := bind_eq_ok h
      cases h
      exact everywhere_leaf trivial rfl
    · obtain ⟨⟨count, header⟩, -, h⟩ := bind_eq_ok h
      obtain ⟨⟨pairs, last⟩, read, h⟩ := bind_eq_ok h
      cases h
      exact .intro trivial (parsePairs_unraw nested read)
    · obtain ⟨⟨count, header⟩, -, h⟩ := bind_eq_ok h
      obtain ⟨⟨items, last⟩, read, h⟩ := bind_eq_ok h
      cases h
      exact .intro trivial (parseItems_unraw nested read)
    · obtain ⟨⟨count, header⟩, -, h⟩ := bind_eq_ok h
      obtain ⟨⟨items, last⟩, read, h⟩ := bind_eq_ok h
      cases h
      exact .intro trivial (parseItems_unraw nested read)
    · rw [parseInline] at h
      split at h
      · cases h
      · obtain ⟨parts, read, h⟩ := bind_eq_ok h
        split_ifs at h
        cases h
        exact .intro trivial (tokenizeInline_unraw read)

theorem parseFor_unraw (k : Nat) : ReturnsUnraw (parseFor parseF64 k) := by
  induction k with
  | zero => intro b v n h; cases h
  | succ k ih => exact parseWith_unraw ih

/-- Without pre-serialised bytes their conversion does not matter. -/
theorem toLua_of_notRaw {raw raw' : Bytes → Except LuaError LuaValue} {v : Resp} (unraw : v.Everywhere NotRaw) :
    toLua nums raw v = toLua nums raw' v := by
  have listed (items : List Resp) (each : ∀ c ∈ items, toLua nums raw c = toLua nums raw' c) (t : LuaTable) (i : Nat) :
      fillItems nums raw t i items = fillItems nums raw' t i items := by
    induction items generalizing t i with
    | nil => rfl
    | cons c items ih =>
      have rest := ih fun c' mem => each c' (List.mem_cons_of_mem c mem)
      simp only [fillItems, each c List.mem_cons_self, rest]
  have paired (pairs : List (Resp × Resp)) (each : ∀ c ∈ flatPairs pairs, toLua nums raw c = toLua nums raw' c)
      (t : LuaTable) : fillPairs nums raw t pairs = fillPairs nums raw' t pairs := by
    induction pairs generalizing t with
    | nil => rfl
    | cons p pairs ih =>
      obtain ⟨k, v⟩ := p
      have rest := ih fun c' mem => each c' (List.mem_cons_of_mem k (List.mem_cons_of_mem v mem))
      simp only [fillPairs, each k List.mem_cons_self, each v (List.mem_cons_of_mem k List.mem_cons_self), rest]
  induction v using Resp.induction_children with
  | step v ih =>
    obtain ⟨here, nested⟩ := unraw
    have each (c : Resp) (mem : c ∈ v.children) := ih c mem (nested c mem)
    cases v with
    | array items =>
      cases items with
      | none => rfl
      | some items => rw [toLua, toLua, listed items each]
    | map pairs => rw [toLua, toLua, paired pairs each]
    | set items => rw [toLua, toLua, listed items each]
    | push items => rw [toLua, toLua, listed items each]
    | bulkString data => cases data <;> rfl
    | raw bytes => exact here.elim
    | _ => rfl

/-- The conversion of pre-serialised bytes is that of the value they encode. -/
theorem respToLua_raw {bytes : Bytes} {parsed : Resp} (parse : parseOne parseF64 bytes = some parsed) :
    respToLua parseF64 nums (.raw bytes) = respToLua parseF64 nums parsed := by
  have unraw : parsed.Everywhere NotRaw := by
    rw [parseOne] at parse
    split at parse
    · rename_i v n read
      cases parse
      exact parseFor_unraw _ read
    · cases parse
  rw [respToLua, toLua, parse]
  exact toLua_of_notRaw unraw

end Unraw

/-! ## What a table shows -/

section View

variable (nums)

mutual

/-- A value as the lines of replies see it: of a table the two texts and the list. -/
def view : LuaValue → NexradeCache.LuaValue
  | .nil => .nil
  | .boolean b => .boolean b
  | .integer n => .integer n
  | .number f => .number (nums.toI64 f)
  | .string s => .string s
  | .table t => .table ((LuaTable.get t (.string (asBytes "ok"))).toText nums)
      ((LuaTable.get t (.string (asBytes "err"))).toText nums) (readList (viewEntries t))
  | .other => .other

def viewEntries : List (LuaKey × LuaValue) → List (LuaKey × NexradeCache.LuaValue)
  | [] => []
  | (k, v) :: t => (k, view v) :: viewEntries t

end

theorem convertAll_eq (boolean : Bool → Resp) (items : List NexradeCache.LuaValue) :
    NexradeCache.LuaValue.convertAll boolean items = items.map (NexradeCache.LuaValue.convert boolean) := by
  induction items with
  | nil => rfl
  | cons v items ih => rw [NexradeCache.LuaValue.convertAll, ih, List.map_cons]

mutual

theorem luaToResp_view : ∀ v : LuaValue, (view nums v).luaToResp = luaToResp nums v
  | .nil => rfl
  | .boolean _ => rfl
  | .integer _ => rfl
  | .number _ => rfl
  | .string _ => rfl
  | .other => rfl
  | .table t => by
    rw [view, luaToResp]
    cases (LuaTable.get t (.string (asBytes "ok"))).toText nums with
    | some s => rfl
    | none =>
      cases (LuaTable.get t (.string (asBytes "err"))).toText nums with
      | some s => rfl
      | none =>
        have entries := luaEntries_view t
        show Resp.array (some (NexradeCache.LuaValue.convertAll _ _)) = _
        rw [convertAll_eq, ← readList_map, ← entries]
        rfl

theorem luaEntries_view : ∀ t : List (LuaKey × LuaValue),
    (viewEntries nums t).map (fun e => (e.1, e.2.luaToResp)) = luaEntries nums t
  | [] => rfl
  | (k, v) :: t => by rw [viewEntries, luaEntries, List.map_cons, luaToResp_view v, luaEntries_view t]

end

mutual

theorem luaValueToResp_view : ∀ v : LuaValue, (view nums v).luaValueToResp = luaValueToResp nums v
  | .nil => rfl
  | .boolean _ => rfl
  | .integer _ => rfl
  | .number _ => rfl
  | .string _ => rfl
  | .other => rfl
  | .table t => by
    rw [view, luaValueToResp]
    cases (LuaTable.get t (.string (asBytes "ok"))).toText nums with
    | some s => rfl
    | none =>
      cases (LuaTable.get t (.string (asBytes "err"))).toText nums with
      | some s => rfl
      | none =>
        have entries := luaValueEntries_view t
        show Resp.array (some (NexradeCache.LuaValue.convertAll _ _)) = _
        rw [convertAll_eq, ← readList_map, ← entries]
        rfl

theorem luaValueEntries_view : ∀ t : List (LuaKey × LuaValue),
    (viewEntries nums t).map (fun e => (e.1, e.2.luaValueToResp)) = luaValueEntries nums t
  | [] => rfl
  | (k, v) :: t => by rw [viewEntries, luaValueEntries, List.map_cons, luaValueToResp_view v, luaValueEntries_view t]

end

end View

end Scripting

end NexradeCache
