import NexradeCache.Resp.Framing
import NexradeCache.Command.Dispatch

/-!
# Texts in replies

Where the server puts words of its client into a line: the messages of `format!` in the dispatcher, the ACL, the
handlers and the function libraries, the tables that scripts return, and the lines of MONITOR
(`format_monitor_line` of `nexrade-server/src/connection.rs`). The writer does not look for line ends and none of
these places does either, so a reply is one frame exactly if the words it quotes have none
(`Quoting.oneFrame_iff`).
-/

namespace NexradeCache

open Utf8 Decimal

/-! ## Messages -/

/-- A text of `format!`: the part in front, then each text that is quoted with the part behind it. -/
structure Message where
  start : String
  rest : List (String × String)

namespace Message

/-- The quoted texts, each with the fixed part behind it. -/
def behind : List (String × String) → String
  | [] => ""
  | (quoted, after) :: rest => quoted ++ after ++ behind rest

def text (m : Message) : String := m.start ++ behind m.rest

/-- A part that neither has a carriage return nor starts with a line feed. -/
def isFixed (s : String) : Bool := !(asBytes s).contains 13 && (asBytes s).head? != some 10

/-- The fixed parts keep the quoted texts apart: only the last may be empty. -/
def isSealed : List String → Bool
  | [] => true
  | [after] => isFixed after
  | after :: rest => isFixed after && after != "" && isSealed rest

theorem head_append {after : String} {b : Bytes} (fixed : isFixed after = true) (apart : after ≠ "" ∨ b = []) :
    (asBytes after ++ b).head? ≠ some 10 := by
  simp only [isFixed, Bool.and_eq_true, bne_iff_ne] at fixed
  cases bytes : asBytes after with
  | nil =>
    have empty : after = "" := by
      have same := fromUtf8_asBytes after
      rw [bytes, ← show asBytes "" = [] from rfl, fromUtf8_asBytes] at same
      exact (Option.some.inj same).symm
    rcases apart with apart | rfl
    · exact absurd empty apart
    · simp
  | cons c cs =>
    rw [bytes] at fixed
    exact fixed.2

theorem inline_fixed {s : String} (fixed : isFixed s = true) : Inline (asBytes s) ∧ (asBytes s).getLast? ≠ some 13 := by
  simp only [isFixed, Bool.and_eq_true, Bool.not_eq_true', List.contains_eq_mem, decide_eq_false_iff_not] at fixed
  exact ⟨inline_of_not_mem fixed.1, fun last => fixed.1 (List.mem_of_getLast? last)⟩

/-- Behind a part of the server a text of the client stands alone. -/
theorem inline_behind {rest : List (String × String)} (apart : isSealed (rest.map Prod.snd) = true) :
    Inline (asBytes (behind rest)) ↔ ∀ p ∈ rest, Inline (asBytes p.1) := by
  induction rest with
  | nil => simp [behind, show asBytes "" = [] from rfl]
  | cons p rest ih =>
    obtain ⟨quoted, after⟩ := p
    have parts : isFixed after = true ∧ (after ≠ "" ∨ rest = []) ∧ isSealed (rest.map Prod.snd) = true := by
      cases rest with
      | nil => exact ⟨apart, .inr rfl, rfl⟩
      | cons p rest =>
        simp only [List.map_cons, isSealed, Bool.and_eq_true, bne_iff_ne] at apart
        exact ⟨apart.1.1, .inl apart.1.2, apart.2⟩
    obtain ⟨fixed, nonempty, others⟩ := parts
    have first : (asBytes after ++ asBytes (behind rest)).head? ≠ some 10 := by
      refine head_append fixed (nonempty.imp_right ?_)
      rintro rfl
      rfl
    have own := inline_fixed fixed
    rw [behind, String.append_assoc, asBytes_append, asBytes_append, inline_append, inline_append, ih others]
    simp only [first, own.1, own.2, and_false, false_and, not_false_eq_true, and_true, true_and, List.forall_mem_cons]

/-- **A message is one line exactly if what it quotes is.** -/
theorem inline_text {m : Message} (start : isFixed m.start = true) (apart : isSealed (m.rest.map Prod.snd) = true) :
    Inline (asBytes m.text) ↔ ∀ p ∈ m.rest, Inline (asBytes p.1) := by
  have own := inline_fixed start
  rw [text, asBytes_append, inline_append, inline_behind apart]
  simp [own.1, own.2]

end Message

/-! ## Where clients are quoted -/

/-- The messages that have words of the client in them; a subcommand is quoted in capitals. -/
inductive Quoting where
  | unknownCommand (cmd : String) (shown : List String)
  | unknownUser (user : String)
  | noCommand (cmd : String)
  | noKey (key : Bytes)
  | unknownCategory (category : String)
  | toMeters (unit : String)
  | object (sub : String)
  | configSet (key : String)
  | config (sub : String)
  | slowlog (sub : String)
  | latency (sub : String)
  | aclCat (cat : String)
  | aclGetuser (name : String)
  | acl (sub : String)
  | client (sub : String)
  | clientSetinfo (attr : String)
  | command (sub : String)
  | bitop (op : String)
  | bitfieldRo (sub : String)
  | parseTypeOffset (type : String)
  | xgroup (sub : String)
  | xinfo (sub : String)
  | nogroupErr (key group : Bytes)
  | script (subcmd : String)
  | function (subcmd : String)
  | libraryName (name : String)
  | libraryExists (name : String)
  | notRegistered (func : String)
  | notCompiled (func : String)
  | mluaErr (e : String)

namespace Quoting

/-- The first arguments of an unknown command, each in quotes. -/
def preview : List String → List (String × String)
  | [] => []
  | [s] => [(s, "' ")]
  | s :: shown => (s, "' '") :: preview shown

def unknown (cmd : String) : List String → Message
  | [] => ⟨"ERR unknown command '", [(cmd, "'")]⟩
  | s :: shown => ⟨"ERR unknown command '", (cmd, "', with args beginning with: '") :: preview (s :: shown)⟩

def message : Quoting → Message
  | .unknownCommand cmd shown => unknown cmd shown
  | .unknownUser user => ⟨"ERR unknown user '", [(user, "'")]⟩
  | .noCommand cmd => ⟨"NOPERM this user has no permissions to run the '", [(cmd, "' command")]⟩
  | .noKey key => ⟨"NOPERM this user has no permissions to access the '", [(fromUtf8Lossy key, "' key")]⟩
  | .unknownCategory category => ⟨"ERR unknown command category '", [(category, "'")]⟩
  | .toMeters unit => ⟨"ERR unsupported unit: ", [(unit, "")]⟩
  | .object sub => ⟨"ERR unknown subcommand '", [(sub, "' for OBJECT")]⟩
  | .configSet key => ⟨"ERR Unsupported CONFIG parameter: ", [(key, "")]⟩
  | .config sub => ⟨"ERR unknown subcommand '", [(sub, "'")]⟩
  | .slowlog sub =>
    ⟨"ERR ERR unknown subcommand or wrong number of arguments for '", [(sub, "'. Try SLOWLOG HELP.")]⟩
  | .latency sub =>
    ⟨"ERR ERR unknown subcommand or wrong number of arguments for '", [(sub, "'. Try LATENCY HELP.")]⟩
  | .aclCat cat => ⟨"ERR ERR unknown command category '", [(cat, "'")]⟩
  | .aclGetuser name => ⟨"ERR no such user '", [(name, "'")]⟩
  | .acl sub => ⟨"ERR ERR unknown ACL subcommand '", [(sub, "'")]⟩
  | .client sub => ⟨"ERR ERR unknown CLIENT subcommand '", [(sub, "'")]⟩
  | .clientSetinfo attr => ⟨"ERR ERR Unrecognized CLIENT SETINFO attribute '", [(attr, "'")]⟩
  | .command sub =>
    ⟨"ERR ERR unknown subcommand or wrong number of arguments for '", [(sub, "'. Try COMMAND HELP.")]⟩
  | .bitop op => ⟨"ERR unknown BITOP operation: ", [(op, "")]⟩
  | .bitfieldRo sub => ⟨"ERR ERR unknown BITFIELD_RO subcommand '", [(sub, "'")]⟩
  | .parseTypeOffset type => ⟨"ERR invalid BITFIELD type: ", [(type, "")]⟩
  | .xgroup sub => ⟨"ERR unknown XGROUP subcommand '", [(sub, "'")]⟩
  | .xinfo sub => ⟨"ERR ERR unknown XINFO subcommand or wrong number of arguments for '", [(sub, "'")]⟩
  | .nogroupErr key group =>
    ⟨"ERR NOGROUP No such consumer group '", [(fromUtf8Lossy group, "' for key name '"), (fromUtf8Lossy key, "'")]⟩
  | .script subcmd => ⟨"ERR unknown SCRIPT subcommand '", [(subcmd, "'")]⟩
  | .function subcmd => ⟨"ERR unknown FUNCTION subcommand '", [(subcmd, "'")]⟩
  | .libraryName name =>
    ⟨"ERR ERR Library names can only contain letters, numbers, and underscores(_) and must have at least one alphabetic character. Got '", [(name, "'")]⟩
  | .libraryExists name => ⟨"ERR ERR Library '", [(name, "' already exists")]⟩
  | .notRegistered func => ⟨"ERR ERR function '", [(func, "' not registered by its library")]⟩
  | .notCompiled func => ⟨"ERR ERR Error compiling function: function '", [(func, "' not registered")]⟩
  | .mluaErr e => ⟨"ERR ", [(e, "")]⟩

def resp (q : Quoting) : Resp := .error q.message.text

/-- No line end in what is quoted. -/
def Clean (q : Quoting) : Prop := ∀ p ∈ q.message.rest, Inline (asBytes p.1)

theorem sealed_preview (shown : List String) : Message.isSealed ((preview shown).map Prod.snd) = true := by
  have apart : (Message.isFixed "' '" && "' '" != "") = true := by decide
  fun_induction preview shown with
  | case1 => rfl
  | case2 s => exact show Message.isSealed ["' "] = true by decide
  | case3 s shown more ih =>
    cases shown with
    | nil => exact absurd rfl more
    | cons t shown =>
      cases shown with
      | nil => exact show Message.isSealed ["' '", "' "] = true by decide
      | cons u shown =>
        simp only [preview, List.map_cons, Message.isSealed, Bool.and_eq_true] at apart ih ⊢
        exact ⟨apart, ih⟩

theorem unknown_fixed (cmd : String) (shown : List String) :
    Message.isFixed (unknown cmd shown).start = true ∧
      Message.isSealed ((unknown cmd shown).rest.map Prod.snd) = true := by
  have start : Message.isFixed "ERR unknown command '" = true := by decide
  have after : (Message.isFixed "', with args beginning with: '" && "', with args beginning with: '" != "") = true := by
    decide
  cases shown with
  | nil => exact ⟨start, show Message.isSealed ["'"] = true by decide⟩
  | cons s shown =>
    refine ⟨start, ?_⟩
    have rest := sealed_preview (s :: shown)
    cases shown with
    | nil => exact show Message.isSealed ["', with args beginning with: '", "' "] = true by decide
    | cons t shown =>
      simp only [unknown, preview, List.map_cons, Message.isSealed, Bool.and_eq_true] at after rest ⊢
      exact ⟨after, rest⟩

/-- The fixed parts of a message have no line end and keep what is quoted apart. -/
theorem message_fixed (q : Quoting) :
    Message.isFixed q.message.start = true ∧ Message.isSealed (q.message.rest.map Prod.snd) = true := by
  cases q with
  | unknownCommand cmd shown => exact unknown_fixed cmd shown
  | _ =>
    simp only [message, List.map_cons, List.map_nil]
    decide +kernel

theorem inline_iff (q : Quoting) : Inline (asBytes q.message.text) ↔ q.Clean :=
  Message.inline_text q.message_fixed.1 q.message_fixed.2

theorem behind_preview {shown : List String} (some : shown ≠ []) :
    "'" ++ Message.behind (preview shown) =
      " ".intercalate (shown.map fun s => "'" ++ s ++ "'") ++ " " := by
  fun_induction preview shown with
  | case1 => exact absurd rfl some
  | case2 s => simp [Message.behind, String.append_assoc]
  | case3 s shown more ih =>
    cases shown with
    | nil => exact absurd rfl more
    | cons t shown =>
      have rest := ih (by simp)
      have between : "' '" = "'" ++ (" " ++ "'") := by decide
      rw [Message.behind, List.map_cons, List.map_cons, String.intercalate_cons_cons, between]
      simp only [String.append_assoc, List.map_cons] at rest ⊢
      rw [rest]

theorem unknownCommand_eq (cmd : String) (args : List Resp) :
    NexradeCache.unknownCommand cmd args =
      (unknownCommand cmd (((args.drop 1).take 3).filterMap Resp.asStr)).resp := by
  rw [NexradeCache.unknownCommand, resp, message, Message.text]
  generalize ((args.drop 1).take 3).filterMap Resp.asStr = shown
  cases shown with
  | nil => simp [unknown, Message.behind, String.append_assoc]
  | cons s shown =>
    have quoted := behind_preview (List.cons_ne_nil s shown)
    have nonempty : (" ".intercalate ((s :: shown).map fun s => "'" ++ s ++ "'")).isEmpty = false := by
      cases shown <;> simp [String.isEmpty_eq_false_iff]
    have start : "', with args beginning with: '" = "'" ++ (", with args beginning with: " ++ "'") := by decide
    simp only [nonempty, Bool.false_eq_true, if_false]
    rw [unknown, Message.behind, start]
    simp only [String.append_assoc] at quoted ⊢
    rw [quoted]

end Quoting

/-! ## Refusals -/

/-- The message of `check_permission`, which quotes nothing for a user that is switched off. -/
def AclManager.refusal (acl : AclManager) (user cmd : String) (keys : List Bytes) : Option Quoting :=
  match acl.users.lookup user with
  | none => some (.unknownUser user)
  | some u =>
    if !u.enabled then none
    else if !u.commandAllowed cmd then some (.noCommand cmd)
    else (keys.find? fun k => !u.keyAllowed k).map .noKey

theorem Quoting.resp_noCommand (cmd : String) :
    (Quoting.noCommand cmd).resp =
      .error ("NOPERM " ++ ("this user has no permissions to run the '" ++ cmd ++ "' command")) := by
  have start : "NOPERM this user has no permissions to run the '" =
      "NOPERM " ++ "this user has no permissions to run the '" := by decide
  rw [resp, message, Message.text, Message.behind, Message.behind, start, String.append_empty]
  simp only [String.append_assoc]

theorem Quoting.resp_noKey (key : Bytes) :
    (Quoting.noKey key).resp =
      .error ("NOPERM " ++ ("this user has no permissions to access the '" ++ fromUtf8Lossy key ++ "' key")) := by
  have start : "NOPERM this user has no permissions to access the '" =
      "NOPERM " ++ "this user has no permissions to access the '" := by decide
  rw [resp, message, Message.text, Message.behind, Message.behind, start, String.append_empty]
  simp only [String.append_assoc]

theorem Quoting.resp_unknownUser (user : String) :
    (Quoting.unknownUser user).resp = .error ("ERR unknown user '" ++ user ++ "'") := by
  rw [resp, message, Message.text, Message.behind, Message.behind, String.append_empty, String.append_assoc]

theorem AclManager.display_refusal {acl : AclManager} {user cmd : String} {keys : List Bytes} {e : AclError}
    (denied : acl.checkPermission user cmd keys = .error e) :
    Resp.error e.display = ((acl.refusal user cmd keys).map Quoting.resp).getD (.error AclError.wrongPass.display) := by
  rw [checkPermission] at denied
  rw [refusal]
  split at denied
  · cases denied
  · cases found : acl.users.lookup user with
    | none =>
      rw [found] at denied
      cases denied
      exact (Quoting.resp_unknownUser user).symm
    | some u =>
      simp only [found] at denied ⊢
      split at denied
      · rename_i off
        cases denied
        rw [if_pos off]
        rfl
      · rename_i on
        rw [if_neg on]
        split at denied
        · rename_i refused
          cases denied
          rw [if_pos refused]
          exact (Quoting.resp_noCommand cmd).symm
        · rename_i allowed
          rw [if_neg allowed]
          split at denied
          · rename_i k first
            cases denied
            rw [first]
            exact (Quoting.resp_noKey k).symm
          · cases denied

/-! ## Scripts -/

/-- A value that a script returns. A number is given as it is cast to `i64`; a table by its fields `ok` and `err`
when they are text, and by what it has from 1 on up to the first `nil`. -/
inductive LuaValue where
  | nil
  | boolean (b : Bool)
  | integer (n : Int64)
  | number (n : Int64)
  | string (s : Bytes)
  | table (ok err : Option String) (items : List LuaValue)
  | other

namespace LuaValue

section Conversion

variable (boolean : Bool → Resp)

mutual

/-- The conversion of `value.rs` and of `function.rs`, which differ in how a boolean is sent. -/
def convert : LuaValue → Resp
  | .nil => .bulkString none
  | .boolean b => boolean b
  | .integer n => .integer n
  | .number n => .integer n
  | .string s => .bulkString (some s)
  | .table (some ok) _ _ => .simpleString ok
  | .table none (some err) _ => .error err
  | .table none none items => .array (some (convertAll items))
  | .other => .bulkString none

def convertAll : List LuaValue → List Resp
  | [] => []
  | v :: items => convert v :: convertAll items

end

end Conversion

/-- For EVAL. -/
def luaToResp : LuaValue → Resp := convert fun b => .integer (if b then 1 else 0)

/-- For FCALL. -/
def luaValueToResp : LuaValue → Resp := convert fun b => if b then .integer 1 else .bulkString none

mutual

/-- The status and error texts in what is sent. -/
def lines : LuaValue → List String
  | .table (some ok) _ _ => [ok]
  | .table none (some err) _ => [err]
  | .table none none items => linesAll items
  | _ => []

def linesAll : List LuaValue → List String
  | [] => []
  | v :: items => lines v ++ linesAll items

end

/-- The value is sent as a list. -/
def isArray : LuaValue → Bool
  | .table none none _ => true
  | _ => false

/-- No line end in a text that is sent as a line. -/
def Clean (v : LuaValue) : Prop := ∀ s ∈ v.lines, Inline (asBytes s)

section Whole

variable {boolean : Bool → Resp}

/-- A boolean is sent as a value without a line of text. -/
def Lineless (boolean : Bool → Resp) : Prop := ∀ b, (boolean b).Everywhere Resp.Whole

mutual

theorem whole_convert (sent : Lineless boolean) : ∀ v : LuaValue, v.Clean → (convert boolean v).Everywhere Resp.Whole
  | .nil, _ => ⟨trivial, by rintro c ⟨⟩⟩
  | .boolean b, _ => sent b
  | .integer n, _ => ⟨trivial, by rintro c ⟨⟩⟩
  | .number n, _ => ⟨trivial, by rintro c ⟨⟩⟩
  | .string s, _ => ⟨trivial, by rintro c ⟨⟩⟩
  | .table (some ok) _ _, clean => ⟨clean ok (by simp [lines]), by rintro c ⟨⟩⟩
  | .table none (some err) _, clean => ⟨clean err (by simp [lines]), by rintro c ⟨⟩⟩
  | .table none none items, clean => ⟨trivial, whole_convertAll sent items clean⟩
  | .other, _ => ⟨trivial, by rintro c ⟨⟩⟩

theorem whole_convertAll (sent : Lineless boolean) : ∀ items : List LuaValue,
    (∀ s ∈ linesAll items, Inline (asBytes s)) → ∀ c ∈ convertAll boolean items, c.Everywhere Resp.Whole
  | [], _ => by rintro c ⟨⟩
  | v :: items, clean => by
    simp only [linesAll, List.mem_append] at clean
    rintro c (_ | ⟨_, mem⟩)
    · exact whole_convert sent v fun s here => clean s (.inl here)
    · exact whole_convertAll sent items (fun s here => clean s (.inr here)) c mem

end

end Whole

end LuaValue

/-! ## MONITOR -/

/-- An argument as MONITOR shows it. -/
def monitorText : Resp → String
  | .bulkString (some b) => fromUtf8Lossy b
  | .simpleString s => s
  | .integer n => fromUtf8Lossy (putI64 n)
  | _ => "?"

/-- `str::replace` of one character. -/
def replaceChar (c : Char) (by' : List Char) (s : String) : String :=
  .ofList (s.toList.flatMap fun d => if d = c then by' else [d])

def escaped (s : String) : String := replaceChar '"' ['\\', '"'] (replaceChar '\\' ['\\', '\\'] s)

/-- `now` and `addr` are the texts of the time and of the address of the client. -/
def formatMonitorLine (now addr : String) (dbIndex : Nat) (args : List Resp) : String :=
  args.foldl (fun out a => out ++ (" \"" ++ escaped (monitorText a) ++ "\""))
    (now ++ " [" ++ fromUtf8Lossy (numeral dbIndex) ++ " " ++ addr ++ "]")

/-- Neither end of a line. -/
def NoEnd (c : Char) : Prop := c ≠ '\r' ∧ c ≠ '\n'

theorem not_mem_encode {cs : List Char} (none : ∀ c ∈ cs, NoEnd c) :
    (13 : UInt8) ∉ cs.flatMap String.utf8EncodeChar ∧ (10 : UInt8) ∉ cs.flatMap String.utf8EncodeChar := by
  constructor
  · intro mem
    obtain ⟨c, here, mem⟩ := List.mem_flatMap.1 mem
    exact (none c here).1 (Char.toNat_inj.1 (toNat_of_mem_utf8EncodeChar mem (by decide)))
  · intro mem
    obtain ⟨c, here, mem⟩ := List.mem_flatMap.1 mem
    exact (none c here).2 (Char.toNat_inj.1 (toNat_of_mem_utf8EncodeChar mem (by decide)))

theorem inline_encode_append {cs : List Char} (none : ∀ c ∈ cs, NoEnd c) (some : cs ≠ []) (b : Bytes) :
    (Inline (cs.flatMap String.utf8EncodeChar ++ b) ↔ Inline b) ∧
      (cs.flatMap String.utf8EncodeChar ++ b).head? ≠ Option.some 10 := by
  obtain ⟨noReturn, noFeed⟩ := not_mem_encode none
  constructor
  · rw [inline_append]
    have last : (cs.flatMap String.utf8EncodeChar).getLast? ≠ Option.some 13 :=
      fun last => noReturn (List.mem_of_getLast? last)
    simp [inline_of_not_mem noReturn, last]
  · cases bytes : cs.flatMap String.utf8EncodeChar with
    | nil =>
      cases cs with
      | nil => exact absurd rfl some
      | cons c cs => exact absurd (List.append_eq_nil_iff.1 bytes).1 (String.utf8EncodeChar_ne_nil)
    | cons x bs =>
      rw [bytes] at noFeed
      rintro ⟨⟩
      exact noFeed (by simp)

/-- Replacing a character that ends no line by others that do not leaves the lines as they are. -/
theorem inline_replaceChar {c : Char} {by' : List Char} (own : NoEnd c) (none : ∀ d ∈ by', NoEnd d) (some : by' ≠ [])
    (s : String) : Inline (asBytes (replaceChar c by' s)) ↔ Inline (asBytes s) := by
  have chars : asBytes s = s.toList.flatMap String.utf8EncodeChar := by rw [← asBytes_ofList, String.ofList_toList]
  rw [replaceChar, asBytes_ofList, chars]
  generalize s.toList = cs
  -- The heads go along: a carriage return at the end of a character meets what comes next.
  suffices both : (Inline ((cs.flatMap fun d => if d = c then by' else [d]).flatMap String.utf8EncodeChar) ↔
      Inline (cs.flatMap String.utf8EncodeChar)) ∧
      (((cs.flatMap fun d => if d = c then by' else [d]).flatMap String.utf8EncodeChar).head? = Option.some 10 ↔
        (cs.flatMap String.utf8EncodeChar).head? = Option.some 10) from both.1
  induction cs with
  | nil => simp
  | cons d cs ih =>
    rw [List.flatMap_cons, List.flatMap_append, List.flatMap_cons]
    by_cases same : d = c
    · subst same
      have left := inline_encode_append none some
        ((cs.flatMap fun e => if e = d then by' else [e]).flatMap String.utf8EncodeChar)
      have right := inline_encode_append (List.forall_mem_singleton.2 own) (List.cons_ne_nil d [])
        (cs.flatMap String.utf8EncodeChar)
      rw [if_pos rfl]
      rw [List.flatMap_singleton] at right
      exact ⟨left.1.trans (ih.1.trans right.1.symm), iff_of_false left.2 right.2⟩
    · rw [if_neg same, List.flatMap_singleton, inline_append, inline_append, ih.1, ih.2]
      refine ⟨Iff.rfl, ?_⟩
      rw [List.head?_append, List.head?_append]
      cases (String.utf8EncodeChar d).head? with
      | none => simpa using ih.2
      | some x => simp

theorem inline_escaped (s : String) : Inline (asBytes (escaped s)) ↔ Inline (asBytes s) := by
  have ends : NoEnd '\\' ∧ NoEnd '"' := by unfold NoEnd; decide
  rw [escaped, inline_replaceChar ends.2 (by simpa using ends) (by simp),
    inline_replaceChar ends.1 (by simpa using ends.1) (by simp)]

theorem asBytes_numeral (n : Nat) : asBytes (fromUtf8Lossy (numeral n)) = numeral n := by
  obtain ⟨s, text, bytes⟩ := fromUtf8_ascii (isNumeral_numeral n).ascii
  rw [fromUtf8Lossy, text, Option.getD_some, bytes]

theorem inline_quoted {out : String} (last : (asBytes out).getLast? ≠ some 13) (s : String) :
    (Inline (asBytes (out ++ (" \"" ++ escaped s ++ "\""))) ↔ Inline (asBytes out) ∧ Inline (asBytes s)) ∧
      (asBytes (out ++ (" \"" ++ escaped s ++ "\""))).getLast? ≠ some 13 := by
  have text : " \"" ++ escaped s ++ "\"" = (Message.mk " \"" [(escaped s, "\"")]).text := by
    simp [Message.text, Message.behind, String.append_assoc]
  have block : Inline (asBytes (" \"" ++ escaped s ++ "\"")) ↔ Inline (asBytes s) := by
    have quotes : Message.isFixed " \"" = true ∧ Message.isSealed ["\""] = true := by decide
    rw [text, Message.inline_text (m := ⟨" \"", [(escaped s, "\"")]⟩) quotes.1 quotes.2]
    simp [inline_escaped]
  constructor
  · rw [asBytes_append, inline_append, block]
    simp [last]
  · have quote : asBytes "\"" = [34] := by decide
    rw [asBytes_append, asBytes_append, quote, ← List.append_assoc, List.getLast?_concat]
    decide

/-- **A line of MONITOR is one line exactly if every argument is.** -/
theorem inline_formatMonitorLine {now addr : String} (clock : (13 : UInt8) ∉ asBytes now)
    (address : (13 : UInt8) ∉ asBytes addr) (dbIndex : Nat) (args : List Resp) :
    Inline (asBytes (formatMonitorLine now addr dbIndex args)) ↔ ∀ a ∈ args, Inline (asBytes (monitorText a)) := by
  -- What stands before the next argument ends in a bracket or a quote.
  suffices rest : ∀ out : String, (asBytes out).getLast? ≠ some 13 →
      (Inline (asBytes (args.foldl (fun out a => out ++ (" \"" ++ escaped (monitorText a) ++ "\"")) out)) ↔
        Inline (asBytes out) ∧ ∀ a ∈ args, Inline (asBytes (monitorText a))) by
    have digits : (13 : UInt8) ∉ numeral dbIndex := (isNumeral_numeral dbIndex).not_mem (by decide)
    have start : (13 : UInt8) ∉ asBytes (now ++ " [" ++ fromUtf8Lossy (numeral dbIndex) ++ " " ++ addr ++ "]") := by
      simp only [asBytes_append, List.mem_append, not_or, asBytes_numeral]
      exact ⟨⟨⟨⟨⟨clock, by decide⟩, digits⟩, by decide⟩, address⟩, by decide⟩
    rw [formatMonitorLine, rest _ fun last => start (List.mem_of_getLast? last)]
    exact and_iff_right (inline_of_not_mem start)
  induction args with
  | nil => simp
  | cons a args ih =>
    intro out last
    obtain ⟨shown, ends⟩ := inline_quoted last (monitorText a)
    rw [List.foldl_cons, ih _ ends, shown, List.forall_mem_cons, and_assoc]

/-! ## Replies -/

/-- How a reply is made: as a value whose lines are texts of the server, as a message that quotes the client, or from
the value of a script. -/
inductive Reply where
  | plain (v : Resp) (whole : v.Everywhere Resp.Whole)
  | quoting (q : Quoting)
  | eval (v : LuaValue)
  | fcall (v : LuaValue)

namespace Reply

def resp : Reply → Resp
  | .plain v _ => v
  | .quoting q => q.resp
  | .eval v => v.luaToResp
  | .fcall v => v.luaValueToResp

/-- No line end in a text of the client that becomes part of a line. -/
def Clean : Reply → Prop
  | .plain _ _ => True
  | .quoting q => q.Clean
  | .eval v => v.Clean
  | .fcall v => v.Clean

/-- A script returned a list. -/
def isList : Reply → Bool
  | .eval v => v.isArray
  | .fcall v => v.isArray
  | _ => false

theorem Clean.whole {r : Reply} (clean : r.Clean) : r.resp.Everywhere Resp.Whole := by
  cases r with
  | plain v whole => exact whole
  | quoting q => exact ⟨q.inline_iff.2 clean, by rintro c ⟨⟩⟩
  | eval v =>
    have sent : LuaValue.Lineless fun b => .integer (if b then 1 else 0) := fun b => ⟨trivial, by rintro c ⟨⟩⟩
    exact v.whole_convert sent clean
  | fcall v =>
    have sent : LuaValue.Lineless fun b => if b then .integer 1 else .bulkString none := by
      intro b
      cases b <;> exact ⟨trivial, by rintro c ⟨⟩⟩
    exact v.whole_convert sent clean

end Reply

/-- A line that the server made itself. -/
def Reply.fixed (s : String) (fixed : Message.isFixed s = true) : Reply :=
  .plain (.error s) ⟨(Message.inline_fixed fixed).1, by rintro c ⟨⟩⟩

/-- The reply of the dispatcher, for the one of the handler. -/
def dispatched (env : Env) (acl : AclManager) (user : String) (keys : List Bytes) (cmd : String) (args : List Resp)
    (handled : Reply) : Reply :=
  if args.isEmpty then .fixed "ERR Protocol error: empty command" (by decide)
  else match acl.checkPermission user cmd keys with
    | .error _ =>
      match acl.refusal user cmd keys with
      | some q => .quoting q
      | none => .fixed AclError.wrongPass.display (by decide)
    | .ok () =>
      match (handlers env).lookup cmd with
      | some _ => handled
      | none => .quoting (.unknownCommand cmd (((args.drop 1).take 3).filterMap Resp.asStr))

theorem resp_dispatched {env : Env} {acl : AclManager} {user : String} {keys : List Bytes} {cmd : String} {db : Nat}
    {args : List Resp} {handled : Reply} {clock : Nat → Nat} {i : Nat} {store : Store}
    (ran : ∀ run, (handlers env).lookup cmd = some run → ((run db args).exec clock i store).2 = handled.resp) :
    ((dispatchInner env acl user keys cmd db args).exec clock i store).2 =
      (dispatched env acl user keys cmd args handled).resp := by
  rw [dispatchInner, dispatched]
  split
  · rfl
  · cases permission : acl.checkPermission user cmd keys with
    | error e =>
      have display := AclManager.display_refusal permission
      simp only [Handler.exec, display]
      cases acl.refusal user cmd keys <;> rfl
    | ok _ =>
      cases found : (handlers env).lookup cmd with
      | some run => exact ran run found
      | none => exact Quoting.unknownCommand_eq cmd args

/-- What is known of the bytes of a reply. -/
structure Framed (fmt : Fmt) (version : UInt8) : Prop where
  /-- A clean reply is one frame. -/
  frame : ∀ r : Reply, r.Clean → OneFrame (r.resp.serializeForVersion fmt version)
  /-- Only a clean one is, but for lists of a script: in a list the parts of two lines may add up to others. -/
  line : ∀ r : Reply, r.isList = false → (OneFrame (r.resp.serializeForVersion fmt version) ↔ r.Clean)
  /-- EXEC. -/
  exec : ∀ rs : List Reply, (∀ r ∈ rs, r.Clean) →
    OneFrame ((Resp.array (some (rs.map Reply.resp))).serializeForVersion fmt version)
  /-- Every request that is dispatched, whatever its arguments, its user and the store. -/
  dispatch : ∀ (env : Env) (acl : AclManager) (user : String) (keys : List Bytes) (cmd : String) (db : Nat)
    (args : List Resp) (handled : Reply) (clock : Nat → Nat) (i : Nat) (store : Store),
    (∀ run, (handlers env).lookup cmd = some run → ((run db args).exec clock i store).2 = handled.resp) →
    handled.isList = false →
    (OneFrame (((dispatchInner env acl user keys cmd db args).exec clock i store).2.serializeForVersion fmt version) ↔
      (dispatched env acl user keys cmd args handled).Clean)
  /-- The lines of MONITOR; the texts of the time and of an address have no carriage return. -/
  monitor : ∀ (now addr : String) (dbIndex : Nat) (args : List Resp), 13 ∉ asBytes now → 13 ∉ asBytes addr →
    (OneFrame ((Resp.simpleString (formatMonitorLine now addr dbIndex args)).serializeForVersion fmt version) ↔
      ∀ a ∈ args, Inline (asBytes (monitorText a)))

section Framed

variable {fmt : Fmt} {version : UInt8}

theorem frame_error (s : String) : (Resp.error s).frame fmt version = line Tag.error (asBytes s) := by
  rw [Resp.frame_eq]
  simp [Resp.head, Resp.children]

theorem frame_simpleString (s : String) :
    (Resp.simpleString s).frame fmt version = line Tag.simpleString (asBytes s) := by
  rw [Resp.frame_eq]
  simp [Resp.head, Resp.children]

theorem oneFrame_error_iff (s : String) :
    OneFrame ((Resp.error s).serializeForVersion fmt version) ↔ Inline (asBytes s) := by
  rw [Resp.serializeForVersion_eq, frame_error]
  exact oneFrame_line_iff (by decide)

theorem oneFrame_simpleString_iff (s : String) :
    OneFrame ((Resp.simpleString s).serializeForVersion fmt version) ↔ Inline (asBytes s) := by
  rw [Resp.serializeForVersion_eq, frame_simpleString]
  exact oneFrame_line_iff (by decide)

theorem oneFrame_whole (decimal : fmt.Decimal) (floats : ∀ d, Inline (fmt.float d)) {v : Resp}
    (whole : v.Everywhere Resp.Whole) : OneFrame (v.serializeForVersion fmt version) := by
  rw [Resp.serializeForVersion_eq]
  exact (whole.isFrame decimal floats).oneFrame

/-- The value of a script that is not a list is no line, or the one of its text. -/
theorem clean_of_oneFrame_convert {boolean : Bool → Resp} {v : LuaValue} (single : v.isArray = false)
    (one : OneFrame ((v.convert boolean).serializeForVersion fmt version)) : v.Clean := by
  cases v with
  | table ok err items =>
    cases ok with
    | some ok =>
      rw [LuaValue.convert, oneFrame_simpleString_iff] at one
      simpa [LuaValue.Clean, LuaValue.lines] using one
    | none =>
      cases err with
      | some err =>
        rw [LuaValue.convert, oneFrame_error_iff] at one
        simpa [LuaValue.Clean, LuaValue.lines] using one
      | none => cases single
  | _ => intro s mem; simp [LuaValue.lines] at mem

theorem Reply.oneFrame_iff (decimal : fmt.Decimal) (floats : ∀ d, Inline (fmt.float d)) {r : Reply}
    (single : r.isList = false) : OneFrame (r.resp.serializeForVersion fmt version) ↔ r.Clean := by
  constructor
  · intro one
    cases r with
    | plain v whole => trivial
    | quoting q => exact q.inline_iff.1 ((oneFrame_error_iff q.message.text).1 one)
    | eval v => exact clean_of_oneFrame_convert single one
    | fcall v => exact clean_of_oneFrame_convert single one
  · exact fun clean => oneFrame_whole decimal floats clean.whole

/-- **A reply is one frame exactly if no text of the client that it puts into a line has a line end.** -/
theorem replies_framed (decimal : fmt.Decimal) (floats : ∀ d, Inline (fmt.float d)) : Framed fmt version where
  frame _ clean := oneFrame_whole decimal floats clean.whole
  line _ single := Reply.oneFrame_iff decimal floats single
  exec rs clean := by
    refine oneFrame_whole decimal floats ⟨trivial, ?_⟩
    intro c mem
    obtain ⟨r, here, rfl⟩ := List.mem_map.1 (show c ∈ rs.map Reply.resp from mem)
    exact (clean r here).whole
  dispatch env acl user keys cmd db args handled clock i store ran single := by
    rw [resp_dispatched ran]
    refine Reply.oneFrame_iff decimal floats ?_
    rw [dispatched]
    split
    · rfl
    · split
      · split <;> rfl
      · split
        · exact single
        · rfl
  monitor now addr dbIndex args clock address := by
    rw [oneFrame_simpleString_iff, inline_formatMonitorLine clock address]

end Framed

/-- An unknown command with one argument, and how MONITOR shows it. -/
theorem replies_framed_foo :
    OneFrame ((Reply.quoting (.unknownCommand "FOO" ["bar"])).resp.serializeForVersion .plain 2) ∧
      OneFrame ((Resp.simpleString (formatMonitorLine "1.000000" "127.0.0.1:5000" 0
        [.bulkString (some [70, 79, 79])])).serializeForVersion .plain 3) := by
  have floats : ∀ d, Inline (Fmt.plain.float d) := fun _ => inline_nil
  refine ⟨((replies_framed (fun _ => rfl) floats).line _ rfl).2 ?_,
    ((replies_framed (fun _ => rfl) floats).monitor _ _ 0 _ (by decide) (by decide)).2 ?_⟩
  · rw [Reply.Clean, Quoting.Clean]
    decide
  · decide

/-- The name of an unknown command ends the line, and what follows is a reply of its own. -/
theorem replies_not_framed :
    ¬ OneFrame (((dispatchInner getEnv .new "default" [] "A\r\n+B" 0 [.bulkString (some [97, 13, 10, 43, 98])]).exec
      (fun _ => 0) 0 ⟨[.new 1 Nat.one_pos]⟩).2.serializeForVersion .plain 2) := by
  have none : ((handlers getEnv).lookup "A\r\n+B").isNone = true := by decide
  have reply : ((dispatchInner getEnv .new "default" [] "A\r\n+B" 0 [.bulkString (some [97, 13, 10, 43, 98])]).exec
      (fun _ => 0) 0 ⟨[.new 1 Nat.one_pos]⟩).2 = (Quoting.unknownCommand "A\r\n+B" []).resp := by
    have ran : ∀ run, (handlers getEnv).lookup "A\r\n+B" = some run →
        ((run 0 [.bulkString (some [97, 13, 10, 43, 98])]).exec (fun _ => 0) 0 ⟨[.new 1 Nat.one_pos]⟩).2 =
          (Reply.quoting (.mluaErr "")).resp := fun run found => by simp [found] at none
    rw [resp_dispatched ran, dispatched, Option.isNone_iff_eq_none.1 none]
    rfl
  rw [reply, Quoting.resp, oneFrame_error_iff, Quoting.inline_iff, Quoting.Clean]
  decide

end NexradeCache
