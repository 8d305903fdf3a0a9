import NexradeCache.Acl.Updates
import NexradeCache.Lib.Words

/-!
# User lines of the append-only file (`format_user_line` of `nexrade-core/src/acl.rs`, the ACL lines
of `AofWriter::rewrite` in `nexrade-core/src/persistence.rs`)

A rewrite writes a line for each user and makes an ACL SETUSER of it. The line always says `on`, has an
empty hash for a user without a password, and only the first key pattern.
-/

namespace NexradeCache

open Trace Words

/-- `format_user_line`: a line of the user file. -/
def formatUserLine (u : AclUser) : String :=
  " ".intercalate (["user " ++ u.name, "on", "#" ++ u.passwordHash.getD "", "~" ++ u.keyPatterns.head?.getD "*"] ++
    u.commandRules.map fun (rule, sign) => if sign then "+" ++ rule else "-" ++ rule)

/-- The arguments of the ACL SETUSER that a line becomes. -/
def setuserOfLine (line : String) : Option (String × List String) :=
  match splitWhitespace line with
  | "user" :: name :: tokens => some (name, tokens)
  | _ => none

/-- What the replay makes of the line of a user that is not there yet. -/
def AclUser.rebuilt (text : AclText) (u : AclUser) : AclUser × Option AclError :=
  match setuserOfLine (formatUserLine u) with
  | some (name, tokens) => (AclUser.new name).applyRules text tokens
  | none => (AclUser.new u.name, none)

/-! ## Rights -/

/-- What is documented of SHA-256 in hexadecimal and of Unicode lower case. -/
structure AclText.Lawful (text : AclText) : Prop where
  hash_length : ∀ pass, (text.hashPassword pass).toList.length = 64
  hash_hex : ∀ pass, ∀ c ∈ (text.hashPassword pass).toList, c ∈ "0123456789abcdef".toList
  lower_hex : ∀ s : String, (∀ c ∈ s.toList, c ∈ "0123456789abcdef".toList) → text.toLowercase s = s
  lower_lower : ∀ s, text.toLowercase (text.toLowercase s) = text.toLowercase s
  lower_solid : ∀ s, Solid s → Solid (text.toLowercase s)

/-- The manager with one user. -/
def AclManager.only (u : AclUser) : AclManager := ⟨AList.singleton u.name u, false⟩

/-- The same logins, the same commands, the same keys. -/
structure SameRights (text : AclText) (u v : AclUser) : Prop where
  enabled : v.enabled = u.enabled
  authenticate : ∀ pass, (AclManager.only v).authenticate text v.name pass = .ok () ↔
    (AclManager.only u).authenticate text u.name pass = .ok ()
  commandAllowed : ∀ cmd, v.commandAllowed cmd = u.commandAllowed cmd
  keyAllowed : ∀ key, v.keyAllowed key = u.keyAllowed key

/-- No white space in the names and the tokens; a password may have some. -/
def AclManager.Update.Solid : AclManager.Update → Prop
  | .setuser name rules => Words.Solid name ∧ ∀ rule ∈ rules, Words.Solid rule ∨ (stripPrefix '>' rule).isSome = true
  | .deluser _ => True

/-- A user that some updates lead to. -/
def AclUser.Reachable (text : AclText) (u : AclUser) : Prop :=
  ∃ ops : List AclManager.Update, (∀ op ∈ ops, op.Solid) ∧
    (run (AclManager.update text) ops .new).users.lookup u.name = some u

/-- One test of `key_allowed`. -/
def patternMatches (pattern : String) (key : Bytes) : Bool :=
  pattern = "allkeys" || pattern = "*" || globMatch (Utf8.asBytes ((stripPrefix '~' pattern).getD pattern)) key

/-- An enabled user with a password, whose first key pattern is as wide as all of them. -/
structure AclUser.Written (u : AclUser) : Prop where
  enabled : u.enabled = true
  password : u.passwordHash ≠ none
  patterns : ∀ first rest, u.keyPatterns = first :: rest → ∀ pattern ∈ rest, ∀ key,
    patternMatches pattern key = true → patternMatches first key = true

/-! ## Users that updates lead to -/

theorem stripPrefix_eq_some {c : Char} {s rest : String} : stripPrefix c s = some rest ↔ s.toList = c :: rest.toList := by
  unfold stripPrefix
  cases chars : s.toList with
  | nil => simp
  | cons d tail =>
    dsimp only
    split
    · rename_i same
      subst same
      simp [← String.toList_inj]
    · rename_i other
      simp [other]

theorem Solid.stripPrefix {c : Char} {s rest : String} (solid : Words.Solid s) (cut : stripPrefix c s = some rest) :
    Words.Solid rest := by
  intro x mem
  refine solid x ?_
  rw [stripPrefix_eq_some.1 cut]
  exact .tail _ mem

/-- Lower case leaves a character as it is, or gives a small letter. -/
theorem toLower_cases (c : Char) : c.toLower = c ∨ (97 ≤ c.toLower.toNat ∧ c.toLower.toNat ≤ 122) := by
  unfold Char.toLower
  split
  · rename_i upper
    right
    have low : 65 ≤ c.val.toNat := upper.1
    have high : c.val.toNat ≤ 90 := upper.2
    have step : (c.val + ('a'.val - 'A'.val)).toNat = c.val.toNat + 32 := by
      have gap : ('a'.val - 'A'.val).toNat = 32 := by decide
      rw [UInt32.toNat_add, gap]
      exact Nat.mod_eq_of_lt (by omega)
    show 97 ≤ (c.val + ('a'.val - 'A'.val)).toNat ∧ (c.val + ('a'.val - 'A'.val)).toNat ≤ 122
    omega
  · exact .inl rfl

theorem isWhitespace_toLower {c : Char} (solid : isWhitespace c = false) : isWhitespace c.toLower = false := by
  rcases toLower_cases c with same | ⟨low, high⟩
  · rw [same]
    exact solid
  · unfold isWhitespace
    simp
    omega

theorem solid_toAsciiLowercase {s : String} (solid : Words.Solid s) : Words.Solid (toAsciiLowercase s) := by
  intro c mem
  rw [toAsciiLowercase, String.toList_ofList] at mem
  obtain ⟨d, inside, rfl⟩ := List.mem_map.1 mem
  exact isWhitespace_toLower (solid d inside)

theorem toAsciiLowercase_idem (s : String) : toAsciiLowercase (toAsciiLowercase s) = toAsciiLowercase s := by
  simp [toAsciiLowercase, Function.comp_def]

/-- What updates keep of a user. -/
structure AclUser.Shaped (text : AclText) (u : AclUser) : Prop where
  name : Words.Solid u.name
  keys : u.allKeys = u.keyPatterns.isEmpty
  commands : u.allCommands = u.commandRules.isEmpty
  patterns : ∀ p ∈ u.keyPatterns, Words.Solid p
  rules : ∀ r ∈ u.commandRules, Words.Solid r.1 ∧ toAsciiLowercase r.1 = r.1
  hash : ∀ h, u.passwordHash = some h → Words.Solid h ∧ text.toLowercase h = h

/-- A new user has no rules, no patterns and no password. -/
theorem AclUser.new_shaped (text : AclText) {name : String} (solid : Words.Solid name) : (AclUser.new name).Shaped text where
  name := solid
  keys := rfl
  commands := rfl
  patterns := by
    intro p mem
    cases mem
  rules := by
    intro r mem
    cases mem
  hash := by
    intro h some
    cases some

section
variable {text : AclText} {u u' : AclUser} {rule : String}

theorem AclText.Lawful.hash_solid (lawful : text.Lawful) (pass : String) : Words.Solid (text.hashPassword pass) := by
  intro c mem
  have digits : Words.Solid "0123456789abcdef" := by decide
  exact digits c (lawful.hash_hex pass c mem)

theorem AclUser.Shaped.command (h : u.Shaped text) {token : String} (solid : Words.Solid token) (sign : Bool) :
    { u with allCommands := false, commandRules := u.commandRules ++ [(toAsciiLowercase token, sign)] }.Shaped text := by
  refine ⟨h.name, h.keys, ?_, h.patterns, ?_, h.hash⟩
  · simp
  · intro r mem
    rcases List.mem_append.1 mem with old | new
    · exact h.rules r old
    · rw [List.mem_singleton.1 new]
      exact ⟨solid_toAsciiLowercase solid, toAsciiLowercase_idem token⟩

theorem AclUser.Shaped.pattern (h : u.Shaped text) {pattern : String} (solid : Words.Solid pattern) :
    { u with allKeys := false, keyPatterns := u.keyPatterns.filter (· ≠ pattern) ++ [pattern] }.Shaped text := by
  refine ⟨h.name, ?_, h.commands, ?_, h.rules, h.hash⟩
  · simp
  · intro p mem
    rcases List.mem_append.1 mem with old | new
    · exact h.patterns p (List.mem_of_mem_filter old)
    · rw [List.mem_singleton.1 new]
      exact solid

theorem AclUser.Shaped.password (h : u.Shaped text) {hash : Option String}
    (shape : ∀ x, hash = some x → Words.Solid x ∧ text.toLowercase x = x) : { u with passwordHash := hash }.Shaped text :=
  ⟨h.name, h.keys, h.commands, h.patterns, h.rules, shape⟩

theorem AclUser.Shaped.noPassword (h : u.Shaped text) : { u with passwordHash := none }.Shaped text :=
  h.password fun x some => by cases some

/-- A rule keeps the shape, one case for each kind of token. -/
theorem AclUser.Shaped.applyRule (h : u.Shaped text) (lawful : text.Lawful)
    (solid : Words.Solid rule ∨ (stripPrefix '>' rule).isSome = true) (applied : u.applyRule text rule = .ok u') :
    u'.Shaped text := by
  unfold AclUser.applyRule at applied
  split at applied
  · cases applied
    exact ⟨h.name, h.keys, h.commands, h.patterns, h.rules, h.hash⟩
  split at applied
  · cases applied
    exact ⟨h.name, h.keys, h.commands, h.patterns, h.rules, h.hash⟩
  split at applied
  · cases applied
    have fresh := AclUser.new_shaped text h.name
    exact ⟨h.name, fresh.keys, fresh.commands, fresh.patterns, fresh.rules, fresh.hash⟩
  split at applied
  · cases applied
    exact h.noPassword
  split at applied
  · rename_i pwd _
    cases applied
    refine h.password fun x some => ?_
    cases some
    exact ⟨lawful.hash_solid pwd, lawful.lower_hex _ (lawful.hash_hex pwd)⟩
  -- No token from here on is a password.
  have solid : Words.Solid rule := by
    rcases solid with solid | password
    · exact solid
    · rename_i other
      obtain ⟨pwd, is⟩ := Option.isSome_iff_exists.1 password
      exact absurd is (other pwd)
  split at applied
  · cases applied
    exact h.noPassword
  split at applied
  · rename_i hash cut
    cases applied
    refine h.password fun x some => ?_
    cases some
    exact ⟨lawful.lower_solid _ (Solid.stripPrefix solid cut), lawful.lower_lower hash⟩
  split at applied
  · cases applied
    exact h.noPassword
  split at applied
  · rename_i pattern cut
    cases applied
    exact h.pattern (Solid.stripPrefix solid cut)
  split at applied
  · rename_i token cut
    cases applied
    exact h.command (Solid.stripPrefix solid cut) true
  split at applied
  · rename_i token cut
    cases applied
    exact h.command (Solid.stripPrefix solid cut) false
  split at applied
  · cases applied
  · cases applied

/-- Rules keep it, also when one of them fails. -/
theorem AclUser.Shaped.applyRules (h : u.Shaped text) (lawful : text.Lawful) {rules : List String}
    (solid : ∀ rule ∈ rules, Words.Solid rule ∨ (stripPrefix '>' rule).isSome = true) :
    (u.applyRules text rules).1.Shaped text := by
  induction rules generalizing u with
  | nil => exact h
  | cons rule rules ih =>
    rw [AclUser.applyRules]
    cases applied : u.applyRule text rule with
    | ok u' => exact ih (h.applyRule lawful (solid rule (.head _)) applied) fun r mem => solid r (.tail _ mem)
    | error e => exact h

/-- Every user of the table is shaped, and has its name. -/
def AclManager.Shaped (text : AclText) (acl : AclManager) : Prop :=
  ∀ name u, acl.users.lookup name = some u → u.name = name ∧ u.Shaped text

theorem AclUser.applyRule_name (applied : u.applyRule text rule = .ok u') : u'.name = u.name := by
  unfold AclUser.applyRule at applied
  repeat' split at applied
  all_goals cases applied
  all_goals rfl

theorem AclUser.applyRules_name (u : AclUser) (rules : List String) : (u.applyRules text rules).1.name = u.name := by
  induction rules generalizing u with
  | nil => rfl
  | cons rule rules ih =>
    rw [AclUser.applyRules]
    cases applied : u.applyRule text rule with
    | ok u' => exact (ih u').trans (AclUser.applyRule_name applied)
    | error e => rfl

/-- The manager starts with the user default. -/
theorem AclManager.new_shaped : AclManager.new.Shaped text := by
  intro name u found
  have solid : Words.Solid "default" := by decide
  by_cases same : name = "default"
  · subst same
    cases found
    exact ⟨rfl, AclUser.new_shaped text solid⟩
  · have none : AclManager.new.users.lookup name = none := by
      refine AList.lookup_eq_none.2 fun mem => same ?_
      have inside : name ∈ (AList.singleton "default" AclUser.defaultUser).keys := AList.mem_keys.1 mem
      rwa [AList.keys_singleton, List.mem_singleton] at inside
    rw [none] at found
    cases found

theorem AclManager.Shaped.insert {acl : AclManager} (h : acl.Shaped text) (flag : Bool) (shaped : u.Shaped text) :
    (AclManager.mk (acl.users.insert u.name u) flag).Shaped text := by
  intro name v found
  by_cases same : name = u.name
  · subst same
    rw [AList.lookup_insert] at found
    cases found
    exact ⟨rfl, shaped⟩
  · rw [AList.lookup_insert_ne same] at found
    exact h name v found

theorem AclManager.Shaped.erase {acl : AclManager} (h : acl.Shaped text) (flag : Bool) (name : String) :
    (AclManager.mk (acl.users.erase name) flag).Shaped text := by
  intro other v found
  by_cases same : other = name
  · subst same
    rw [AList.lookup_erase] at found
    cases found
  · rw [AList.lookup_erase_ne same] at found
    exact h other v found

/-- Each update keeps the shape of all users. -/
theorem AclManager.Shaped.update {acl : AclManager} {op : AclManager.Update} (h : acl.Shaped text) (lawful : text.Lawful)
    (solid : op.Solid) : (acl.update text op).Shaped text := by
  cases op with
  | setuser name rules =>
    obtain ⟨named, tokens⟩ := solid
    have found : ((acl.users.lookup name).getD (.new name)).name = name ∧
        ((acl.users.lookup name).getD (.new name)).Shaped text := by
      cases there : acl.users.lookup name with
      | none => exact ⟨rfl, AclUser.new_shaped text named⟩
      | some u => exact h name u there
    have shaped := found.2.applyRules lawful tokens
    have kept : (AclUser.applyRules text ((acl.users.lookup name).getD (.new name)) rules).1.name = name :=
      (AclUser.applyRules_name _ rules).trans found.1
    intro other v there
    rw [AclManager.update, AclManager.setuser_users] at there
    have inserted := h.insert false shaped
    rw [kept] at inserted
    exact inserted other v there
  | deluser name =>
    rw [AclManager.update, AclManager.deluser]
    split
    · have solid : Words.Solid "default" := by decide
      exact (h.erase false name).insert _ (AclUser.new_shaped text solid)
    · split
      · exact h.erase _ name
      · exact h

theorem AclUser.Reachable.shaped (lawful : text.Lawful) (reach : u.Reachable text) : u.Shaped text := by
  obtain ⟨ops, solid, found⟩ := reach
  have shaped : ∀ acl : AclManager, acl.Shaped text → (run (AclManager.update text) ops acl).Shaped text := by
    clear found
    induction ops with
    | nil => exact fun acl h => h
    | cons op ops ih =>
      intro acl h
      exact ih (fun op mem => solid op (.tail _ mem)) _ (h.update lawful (solid op (.head _)))
  exact (shaped _ AclManager.new_shaped _ u found).2

end

/-! ## The line, read back -/

/-- The tokens behind the name. -/
def lineTokens (u : AclUser) : List String :=
  ["on", "#" ++ u.passwordHash.getD "", "~" ++ u.keyPatterns.head?.getD "*"] ++
    u.commandRules.map fun (rule, sign) => if sign then "+" ++ rule else "-" ++ rule

theorem formatUserLine_eq (u : AclUser) :
    formatUserLine u = " ".intercalate ("user" :: u.name :: lineTokens u) := by
  have user : ("user " : String) = "user" ++ " " := by decide
  show " ".intercalate (("user " ++ u.name) :: lineTokens u) = _
  rw [user, String.intercalate_cons_append, String.intercalate_cons_cons]

theorem stripPrefix_append (c d : Char) (s : String) :
    stripPrefix d (.singleton c ++ s) = if c = d then some s else none := by
  simp [stripPrefix]

/-- Words with different first characters differ. -/
theorem append_ne {c : Char} {s t : String} (head : t.toList.head? ≠ some c) : String.singleton c ++ s ≠ t := by
  rintro rfl
  simp at head

section
variable {text : AclText}

/-- A token that starts with a character no keyword starts with. -/
theorem applyRule_prefixed (u : AclUser) {c : Char} (s : String) (lead : c ≠ 'o' ∧ c ≠ 'r' ∧ c ≠ 'n') :
    u.applyRule text (.singleton c ++ s) =
      if c = '>' then .ok { u with passwordHash := some (text.hashPassword s) }
      else if c = '<' then .ok { u with passwordHash := none }
      else if c = '#' then .ok { u with passwordHash := some (text.toLowercase s) }
      else if c = '~' then .ok { u with allKeys := false, keyPatterns := u.keyPatterns.filter (· ≠ s) ++ [s] }
      else if c = '+' then
        .ok { u with allCommands := false, commandRules := u.commandRules ++ [(toAsciiLowercase s, true)] }
      else if c = '-' then
        .ok { u with allCommands := false, commandRules := u.commandRules ++ [(toAsciiLowercase s, false)] }
      else if c = '@' then .error (.unknownCategory (.singleton c ++ s))
      else .error .syntaxError := by
  have keyword (t : String) (head : t.toList.head? ≠ some c) : String.singleton c ++ s ≠ t := append_ne head
  unfold AclUser.applyRule
  rw [if_neg (keyword _ (by simp [lead.1.symm])), if_neg (keyword _ (by simp [lead.1.symm])),
    if_neg (keyword _ (by simp [lead.2.1.symm])), if_neg (keyword _ (by simp [lead.2.1.symm]))]
  simp only [stripPrefix_append]
  by_cases gt : c = '>'
  · simp [gt]
  by_cases lt : c = '<'
  · simp [lt]
  by_cases hash : c = '#'
  · simp [hash]
  rw [if_neg (keyword "nopass" (by simp [lead.2.2.symm]))]
  by_cases tilde : c = '~'
  · simp [tilde]
  by_cases plus : c = '+'
  · simp [plus]
  by_cases minus : c = '-'
  · simp [minus]
  simp [gt, lt, hash, tilde, plus, minus]

theorem applyRules_commands (u : AclUser) {rules : List (String × Bool)}
    (lower : ∀ r ∈ rules, toAsciiLowercase r.1 = r.1) :
    u.applyRules text (rules.map fun (rule, sign) => if sign then "+" ++ rule else "-" ++ rule) =
      ({ u with allCommands := u.allCommands && rules.isEmpty, commandRules := u.commandRules ++ rules }, none) := by
  induction rules generalizing u with
  | nil => simp [AclUser.applyRules]
  | cons r rules ih =>
    obtain ⟨rule, sign⟩ := r
    have same : toAsciiLowercase rule = rule := lower (rule, sign) (.head _)
    have rest := fun v => ih v fun r mem => lower r (.tail _ mem)
    have first : u.applyRule text (if sign then "+" ++ rule else "-" ++ rule) =
        .ok { u with allCommands := false, commandRules := u.commandRules ++ [(rule, sign)] } := by
      cases sign with
      | true =>
        rw [if_pos rfl]
        refine (applyRule_prefixed u (c := '+') rule (by decide)).trans ?_
        simp [same]
      | false =>
        rw [if_neg Bool.false_ne_true]
        refine (applyRule_prefixed u (c := '-') rule (by decide)).trans ?_
        simp [same]
    rw [List.map_cons, AclUser.applyRules]
    dsimp only
    rw [first]
    dsimp only
    rw [rest]
    simp

theorem lineTokens_ne {u : AclUser} {token : String} (mem : token ∈ lineTokens u) : token ≠ "" := by
  simp only [lineTokens, List.cons_append, List.nil_append, List.mem_cons, List.mem_map] at mem
  rcases mem with rfl | rfl | rfl | ⟨⟨rule, sign⟩, -, rfl⟩
  · decide
  · exact append_ne (c := '#') (by simp)
  · exact append_ne (c := '~') (by simp)
  · cases sign with
    | true => exact append_ne (c := '+') (by simp)
    | false => exact append_ne (c := '-') (by simp)

theorem lineTokens_solid {u : AclUser} (h : u.Shaped text) {token : String} (mem : token ∈ lineTokens u) :
    Words.Solid token := by
  simp only [lineTokens, List.cons_append, List.nil_append, List.mem_cons, List.mem_map] at mem
  rcases mem with rfl | rfl | rfl | ⟨⟨rule, sign⟩, mem, rfl⟩
  · decide
  · refine Solid.append (by decide) ?_
    cases hash : u.passwordHash with
    | none => decide
    | some x => exact (h.hash x hash).1
  · refine Solid.append (by decide) ?_
    cases patterns : u.keyPatterns with
    | nil => decide
    | cons p rest => exact h.patterns p (by rw [patterns]; exact .head _)
  · have solid := (h.rules _ mem).1
    cases sign with
    | true => exact Solid.append (by decide) solid
    | false => exact Solid.append (by decide) solid

/-- So a line is split where it was joined; an empty name is lost. -/
theorem splitWhitespace_line {u : AclUser} (h : u.Shaped text) :
    splitWhitespace (formatUserLine u) = "user" :: ([u.name].filter (· ≠ "") ++ lineTokens u) := by
  have solid : ∀ w ∈ "user" :: u.name :: lineTokens u, Words.Solid w := by
    intro w mem
    rcases List.mem_cons.1 mem with rfl | mem
    · decide
    rcases List.mem_cons.1 mem with rfl | mem
    · exact h.name
    · exact lineTokens_solid h mem
  have kept : (lineTokens u).filter (· ≠ "") = lineTokens u := by
    refine List.filter_eq_self.2 fun token mem => ?_
    simpa using lineTokens_ne mem
  rw [formatUserLine_eq, splitWhitespace_join solid (List.cons_ne_nil _ _), List.filter_cons, if_pos (by decide)]
  show "user" :: List.filter _ ([u.name] ++ lineTokens u) = _
  rw [List.filter_append, kept]

/-- The tokens of a line on a fresh user: the hash or the empty one, and the first pattern. -/
theorem applyRules_line {u : AclUser} (h : u.Shaped text) (name : String) :
    (AclUser.new name).applyRules text (lineTokens u).tail =
      (⟨name, some (text.toLowercase (u.passwordHash.getD "")), true, u.commandRules.isEmpty, false, u.commandRules,
        [u.keyPatterns.head?.getD "*"]⟩, none) := by
  have hash (v : AclUser) (x : String) :
      v.applyRule text ("#" ++ x) = .ok { v with passwordHash := some (text.toLowercase x) } :=
    (applyRule_prefixed v (c := '#') x (by decide)).trans (by simp)
  have pattern (v : AclUser) (x : String) : v.applyRule text ("~" ++ x) =
      .ok { v with allKeys := false, keyPatterns := v.keyPatterns.filter (· ≠ x) ++ [x] } :=
    (applyRule_prefixed v (c := '~') x (by decide)).trans (by simp)
  simp only [lineTokens, List.cons_append, List.nil_append, List.tail_cons, AclUser.applyRules, hash, pattern]
  rw [applyRules_commands _ fun r mem => (h.rules r mem).2]
  simp [AclUser.new]

/-- **What the replay makes of a line.** -/
theorem rebuilt_eq {u : AclUser} (h : u.Shaped text) :
    ∃ name, (u.name ≠ "" → name = u.name) ∧ u.rebuilt text = (⟨name, some (text.toLowercase (u.passwordHash.getD "")), true, u.commandRules.isEmpty,
      false, u.commandRules, [u.keyPatterns.head?.getD "*"]⟩, none) := by
  have on (v : AclUser) : v.applyRule text "on" = .ok { v with enabled := true } := by simp [AclUser.applyRule]
  have tokens : lineTokens u = "on" :: (lineTokens u).tail := rfl
  have words := splitWhitespace_line h
  unfold AclUser.rebuilt setuserOfLine
  by_cases empty : u.name = ""
  · -- The first token is taken for the name.
    rw [List.filter_cons, if_neg (by simp [empty]), List.filter_nil, List.nil_append, tokens] at words
    rw [words]
    exact ⟨"on", fun some => absurd empty some, applyRules_line h "on"⟩
  · rw [List.filter_cons, if_pos (by simp [empty]), List.filter_nil, List.singleton_append, tokens] at words
    rw [words]
    refine ⟨u.name, fun _ => rfl, ?_⟩
    show (AclUser.new u.name).applyRules text ("on" :: (lineTokens u).tail) = _
    rw [AclUser.applyRules, on]
    exact applyRules_line h u.name

/-! ## The rights of a line -/

theorem only_authenticate {u : AclUser} {pass : String} :
    (AclManager.only u).authenticate text u.name pass = .ok () ↔
      u.enabled = true ∧ (u.passwordHash = none ∨ u.passwordHash = some (text.hashPassword pass)) := by
  have found : (AclManager.only u).users.lookup u.name = some u := by
    rw [AclManager.only, ← AList.insert_empty, AList.lookup_insert]
  rw [AclManager.authenticate_ok, found]
  simp

/-- A key is allowed when all are, or by a pattern. -/
theorem AclUser.keyAllowed_eq (u : AclUser) (key : Bytes) :
    u.keyAllowed key = ((u.allKeys && u.keyPatterns.isEmpty) || u.keyPatterns.any (patternMatches · key)) := by
  unfold AclUser.keyAllowed
  rw [List.any_reverse]
  cases u.allKeys && u.keyPatterns.isEmpty with
  | true => rfl
  | false => rfl

theorem AclText.Lawful.hash_ne_empty (lawful : text.Lawful) (pass : String) : text.hashPassword pass ≠ "" := by
  intro empty
  have length := lawful.hash_length pass
  rw [empty] at length
  cases length

/-- **A user comes back with its rights if and only if** it is enabled, has a password and no key pattern that is
wider than the first. Under its name it comes back in any case, unless that is empty: then the token behind it is
taken for the name. -/
theorem AclUser.rebuilt_sameRights_iff {u : AclUser} (lawful : text.Lawful) (reach : u.Reachable text) :
    (((u.rebuilt text).2 = none ∧ SameRights text u (u.rebuilt text).1) ↔ u.Written) ∧
      (u.name ≠ "" → (u.rebuilt text).1.name = u.name) := by
  have shaped := reach.shaped lawful
  obtain ⟨name, named, is⟩ := rebuilt_eq shaped
  rw [is]
  refine ⟨?_, named⟩
  constructor
  · rintro ⟨-, same⟩
    have enabled : u.enabled = true := same.enabled.symm
    refine ⟨enabled, ?_, ?_⟩
    · intro none
      have any := (same.authenticate "").2 (only_authenticate.2 ⟨enabled, .inl none⟩)
      have hash := (only_authenticate.1 any).2
      rw [none, Option.getD_none, lawful.lower_hex "" (by simp)] at hash
      rcases hash with hash | hash
      · cases hash
      · exact lawful.hash_ne_empty "" (Option.some.inj hash).symm
    · intro first rest patterns pattern mem key found
      have agree := same.keyAllowed key
      rw [AclUser.keyAllowed_eq, AclUser.keyAllowed_eq, patterns] at agree
      have any : (first :: rest).any (patternMatches · key) = true :=
        List.any_eq_true.2 ⟨pattern, .tail _ mem, found⟩
      rw [any, Bool.or_true] at agree
      simpa using agree
  · intro written
    obtain ⟨hash, some⟩ := Option.ne_none_iff_exists'.1 written.password
    refine ⟨rfl, written.enabled.symm, ?_, ?_, ?_⟩
    · intro pass
      rw [only_authenticate, only_authenticate, some, Option.getD_some, (shaped.hash hash some).2, written.enabled]
    · intro cmd
      rw [AclUser.commandAllowed, AclUser.commandAllowed, shaped.commands]
    · intro key
      rw [AclUser.keyAllowed_eq, AclUser.keyAllowed_eq, shaped.keys]
      cases patterns : u.keyPatterns with
      | nil => simp [patternMatches]
      | cons first rest =>
        have wide := written.patterns first rest patterns
        have others : rest.any (patternMatches · key) = true → patternMatches first key = true := by
          intro any
          obtain ⟨pattern, mem, found⟩ := List.any_eq_true.1 any
          exact wide pattern mem key found
        cases here : patternMatches first key with
        | true => simp [here]
        | false =>
          rw [here] at others
          have none : rest.any (patternMatches · key) = false := by
            cases any : rest.any (patternMatches · key) with
            | false => rfl
            | true => cases others any
          simp [here, none]

end

/-! ## A user with a password, and one without -/

/-- SHA-256 of `secret`, and of the empty text for all others. -/
def secretText : AclText where
  hashPassword pass :=
    if pass = "secret" then "2bb80d537b1da3e38bd30361aa855686bde0eacd7162fef6a25fe97bf527a25b"
    else "e3b0c44298fc1c149afbf4c8996fb92427ae41e4649b934ca495991b7852b855"
  toLowercase := toAsciiLowercase

/-- A hash function that is good enough for the example. -/
theorem secretText_lawful : secretText.Lawful where
  hash_length pass := by
    simp only [secretText]
    split <;> decide
  hash_hex pass c mem := by
    simp only [secretText] at mem
    have all : ∀ s ∈ [secretText.hashPassword "secret", secretText.hashPassword ""],
        (s.toList.all ("0123456789abcdef".toList.contains ·)) = true := by decide
    split at mem
    · exact List.contains_iff_mem.1 (List.all_eq_true.1 (all _ (by simp [secretText])) c mem)
    · exact List.contains_iff_mem.1 (List.all_eq_true.1 (all _ (by simp [secretText])) c mem)
  lower_hex s hex := by
    have digits : ("0123456789abcdef".toList.all fun c => c.toLower = c) = true := by decide
    have same : s.toList.map Char.toLower = s.toList := by
      conv_rhs => rw [← List.map_id s.toList]
      exact List.map_congr_left fun c mem => of_decide_eq_true (List.all_eq_true.1 digits c (hex c mem))
    show String.ofList (s.toList.map Char.toLower) = s
    rw [same, String.ofList_toList]
  lower_lower := toAsciiLowercase_idem
  lower_solid _ := solid_toAsciiLowercase

/-- A user with a password, rules and patterns. -/
def alice : AclUser where
  name := "alice"
  passwordHash := some (secretText.hashPassword "secret")
  enabled := true
  allCommands := false
  allKeys := false
  commandRules := [("@read", true)]
  keyPatterns := ["user:*"]

/-- Her line is read back. -/
theorem rebuilt_alice :
    (alice.rebuilt secretText).2 = none ∧ SameRights secretText alice (alice.rebuilt secretText).1 ∧
      (alice.rebuilt secretText).1.name = "alice" := by
  have reachable : alice.Reachable secretText := by
    refine ⟨[.setuser "alice" [">secret", "~user:*", "+@read"]], ?_, by decide⟩
    intro op mem
    rw [List.mem_singleton.1 mem]
    exact ⟨by decide, by decide⟩
  obtain ⟨written, named⟩ := AclUser.rebuilt_sameRights_iff secretText_lawful reachable
  obtain ⟨accepted, same⟩ := written.2 ⟨rfl, by decide, fun first rest patterns pattern mem => by
    cases patterns
    cases mem⟩
  exact ⟨accepted, same, named (by decide)⟩

/-- Behind a rewrite nobody can log in as `default`. -/
theorem rebuilt_default :
    ¬ ∀ (text : AclText) (u : AclUser), text.Lawful → u.Reachable text →
      (u.rebuilt text).2 = none ∧ SameRights text u (u.rebuilt text).1 := by
  intro same
  have rights := (same secretText .defaultUser secretText_lawful ⟨[], by simp, rfl⟩).2
  have login := (rights.authenticate "").2 rfl
  revert login
  decide

end NexradeCache
