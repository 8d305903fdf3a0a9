import NexradeCache.Acl.Manager

/-!
# What rule tokens come to (`AclUser::apply_rules` of `nexrade-core/src/acl.rs`)

`apply_rules` works on the record token by token. `Token` is what a token says, and the lemmas about
`AclUser.take` say what a list of them comes to: the last switch and the last password count, a `reset` takes
back the commands and keys before it, rules pile up, and a key pattern stands where it is mentioned last.
`Repeats` follows: the tokens that only say what the user is.
-/

namespace NexradeCache

/-- What a well-formed rule token says. -/
inductive Token where
  | switch (enabled : Bool)
  | reset
  /-- The stored hash; `none` for `nopass`, `resetpass` and `<password`. -/
  | password (hash : Option String)
  | pattern (p : String)
  | rule (r : String × Bool)
deriving DecidableEq

namespace Token

/-- The token for its text, in the order of the tests of `apply_rules`. -/
def ofText (text : AclText) (rule : String) : Option Token :=
  if rule = "on" then some (.switch true)
  else if rule = "off" then some (.switch false)
  else if rule = "reset" then some .reset
  else if rule = "resetpass" then some (.password none)
  else if let some pwd := stripPrefix '>' rule then some (.password (some (text.hashPassword pwd)))
  else if (stripPrefix '<' rule).isSome then some (.password none)
  else if let some hash := stripPrefix '#' rule then some (.password (some (text.toLowercase hash)))
  else if rule = "nopass" then some (.password none)
  else if let some pat := stripPrefix '~' rule then some (.pattern pat)
  else if let some rest := stripPrefix '+' rule then some (.rule (toAsciiLowercase rest, true))
  else if let some rest := stripPrefix '-' rule then some (.rule (toAsciiLowercase rest, false))
  else none

/-- On or off. -/
def switch? : Token → Option Bool
  | .switch b => some b
  | _ => none

/-- What the stored hash becomes; a `reset` takes it away too. -/
def password? : Token → Option (Option String)
  | .password hash => some hash
  | .reset => some none
  | _ => none

def pattern? : Token → Option String
  | .pattern p => some p
  | _ => none

def rule? : Token → Option (String × Bool)
  | .rule r => some r
  | _ => none

/-- The tokens behind the last `reset`, if there is one. -/
def sinceReset : List Token → Option (List Token)
  | [] => none
  | t :: ts => (sinceReset ts).or (if t = .reset then some ts else none)

/-- The key patterns, each where it stands last. -/
def patterns (ts : List Token) : List String := (ts.filterMap pattern?).dedup

def rules (ts : List Token) : List (String × Bool) := ts.filterMap rule?

theorem rules_cons (t : Token) (ts : List Token) : rules (t :: ts) = (rule? t).toList ++ rules ts := by
  unfold rules
  rw [List.filterMap_cons]
  cases rule? t <;> rfl

theorem patterns_cons_of_none {t : Token} (none : pattern? t = none) (ts : List Token) :
    patterns (t :: ts) = patterns ts := by
  rw [patterns, List.filterMap_cons_none none, patterns]

theorem patterns_cons (p : String) (ts : List Token) :
    patterns (.pattern p :: ts) = if p ∈ patterns ts then patterns ts else p :: patterns ts := by
  unfold patterns
  rw [List.filterMap_cons_some (show pattern? (.pattern p) = some p from rfl)]
  by_cases again : p ∈ ts.filterMap pattern?
  · rw [List.dedup_cons_of_mem again, if_pos (List.mem_dedup.2 again)]
  · rw [List.dedup_cons_of_notMem again, if_neg (mt List.mem_dedup.1 again)]

theorem sinceReset_eq_none {ts : List Token} : sinceReset ts = none ↔ .reset ∉ ts := by
  induction ts with
  | nil => simp [sinceReset]
  | cons t ts ih =>
    rw [sinceReset, Option.or_eq_none_iff, ih, List.mem_cons, not_or, and_comm, eq_comm (a := Token.reset)]
    simp

theorem exists_of_sinceReset {ts later : List Token} (h : sinceReset ts = some later) :
    ∃ before, ts = before ++ .reset :: later ∧ .reset ∉ later := by
  induction ts with
  | nil => cases h
  | cons t ts ih =>
    rw [sinceReset] at h
    cases rest : sinceReset ts with
    | some later' =>
      rw [rest, Option.some_or] at h
      obtain ⟨before, split, none⟩ := ih (rest.trans h)
      exact ⟨t :: before, by rw [split, List.cons_append], none⟩
    | none =>
      rw [rest, Option.none_or] at h
      obtain ⟨is, same⟩ := Option.ite_none_right_eq_some.1 h
      have same := Option.some.inj same
      subst is same
      exact ⟨[], rfl, sinceReset_eq_none.1 rest⟩

end Token

open Token

namespace AclUser

/-- What a token does to the record. -/
def take (u : AclUser) : Token → AclUser
  | .switch enabled => { u with enabled }
  | .reset => { u with allCommands := true, allKeys := true, commandRules := [], keyPatterns := [], passwordHash := none }
  | .password passwordHash => { u with passwordHash }
  | .pattern p => { u with allKeys := false, keyPatterns := u.keyPatterns.filter (· ≠ p) ++ [p] }
  | .rule r => { u with allCommands := false, commandRules := u.commandRules ++ [r] }

theorem applyRule_ofText (text : AclText) (u : AclUser) (rule : String) :
    (u.applyRule text rule).toOption = (Token.ofText text rule).map u.take := by
  unfold applyRule Token.ofText
  -- The tests are the same, in the same order; the cases in which they disagree are closed by what they found.
  repeat' split
  all_goals simp_all [take, Except.toOption]

variable {u : AclUser} {ts : List Token}

/-! ## Lists of tokens -/

theorem foldl_take_name : (ts.foldl take u).name = u.name := by
  induction ts generalizing u with
  | nil => rfl
  | cons t ts ih =>
    rw [List.foldl_cons, ih]
    cases t <;> rfl

/-- A field that tokens overwrite has the last value. -/
theorem foldl_take_last {α : Type} {field : AclUser → α} {value : Token → Option α}
    (sets : ∀ u t, field (take u t) = (value t).getD (field u)) (u : AclUser) (ts : List Token) :
    field (ts.foldl take u) = (ts.filterMap value).getLast?.getD (field u) := by
  induction ts generalizing u with
  | nil => rfl
  | cons t ts ih =>
    rw [List.foldl_cons, ih, sets]
    cases here : value t with
    | none => rw [List.filterMap_cons_none here, Option.getD_none]
    | some a =>
      rw [List.filterMap_cons_some here, List.getLast?_cons, Option.getD_some, Option.getD_some]

theorem foldl_take_enabled : (ts.foldl take u).enabled = (ts.filterMap switch?).getLast?.getD u.enabled :=
  foldl_take_last (fun _ t => by cases t <;> rfl) u ts

theorem foldl_take_passwordHash :
    (ts.foldl take u).passwordHash = (ts.filterMap password?).getLast?.getD u.passwordHash :=
  foldl_take_last (fun _ t => by cases t <;> rfl) u ts

/-- Without a `reset` the rules are appended. -/
theorem foldl_take_commands (noReset : .reset ∉ ts) :
    (ts.foldl take u).commandRules = u.commandRules ++ rules ts ∧
      (ts.foldl take u).allCommands = (u.allCommands && (rules ts).isEmpty) := by
  induction ts generalizing u with
  | nil => simp [rules]
  | cons t ts ih =>
    rw [List.mem_cons, not_or] at noReset
    obtain ⟨commandRules, allCommands⟩ := @ih (u.take t) noReset.2
    rw [List.foldl_cons, commandRules, allCommands, rules_cons]
    cases t with
    | reset => exact absurd rfl noReset.1
    | _ => simp [take, rule?]

/-- Without a `reset` the patterns that are mentioned move to the end. -/
theorem foldl_take_keys (noReset : .reset ∉ ts) :
    (ts.foldl take u).keyPatterns = u.keyPatterns.filter (· ∉ patterns ts) ++ patterns ts ∧
      (ts.foldl take u).allKeys = (u.allKeys && (patterns ts).isEmpty) := by
  induction ts generalizing u with
  | nil => simp [patterns]
  | cons t ts ih =>
    rw [List.mem_cons, not_or] at noReset
    obtain ⟨keyPatterns, allKeys⟩ := @ih (u.take t) noReset.2
    rw [List.foldl_cons, keyPatterns, allKeys]
    cases t with
    | reset => exact absurd rfl noReset.1
    | pattern p =>
      rw [patterns_cons]
      split
      · rename_i again
        refine ⟨?_, by simp [take, List.ne_nil_of_mem again]⟩
        have gone : (u.keyPatterns.filter (· ≠ p)).filter (· ∉ patterns ts) = u.keyPatterns.filter (· ∉ patterns ts) := by
          rw [List.filter_filter]
          refine List.filter_congr fun q _ => ?_
          by_cases same : q = p <;> simp [same, again]
        rw [take, List.filter_append, gone]
        simp [again]
      · rename_i first
        refine ⟨?_, by simp [take]⟩
        have moved : (u.keyPatterns.filter (· ≠ p)).filter (· ∉ patterns ts) =
            u.keyPatterns.filter (· ∉ p :: patterns ts) := by
          rw [List.filter_filter]
          refine List.filter_congr fun q _ => ?_
          by_cases same : q = p <;> simp [same]
        rw [take, List.filter_append, moved]
        simp [first]
    | _ =>
      rw [patterns_cons_of_none rfl]
      exact ⟨rfl, rfl⟩

/-! ## Tokens that change nothing -/

/-- The tokens say what the user is. -/
structure Repeats (u : AclUser) (ts : List Token) : Prop where
  enabled : ∀ b, (ts.filterMap switch?).getLast? = some b → u.enabled = b
  password : ∀ hash, (ts.filterMap password?).getLast? = some hash → u.passwordHash = hash
  /-- Behind a `reset` come the rules and the patterns of the user. -/
  reset : ∀ later, sinceReset ts = some later →
    u.commandRules = rules later ∧ u.allCommands = (rules later).isEmpty ∧
      u.keyPatterns = patterns later ∧ u.allKeys = (patterns later).isEmpty
  /-- Otherwise there is no rule, and the patterns are the last ones of the user. -/
  append : sinceReset ts = none → rules ts = [] ∧
    (patterns ts = [] ∨ u.allKeys = false ∧
      ∃ front, u.keyPatterns = front ++ patterns ts ∧ ∀ p ∈ patterns ts, p ∉ front)

theorem eq_iff {u v : AclUser} : v = u ↔ v.name = u.name ∧ v.enabled = u.enabled ∧ v.passwordHash = u.passwordHash ∧
    (v.commandRules = u.commandRules ∧ v.allCommands = u.allCommands) ∧
      v.keyPatterns = u.keyPatterns ∧ v.allKeys = u.allKeys := by
  obtain ⟨name, passwordHash, enabled, allCommands, allKeys, commandRules, keyPatterns⟩ := u
  obtain ⟨name', passwordHash', enabled', allCommands', allKeys', commandRules', keyPatterns'⟩ := v
  simp only [AclUser.mk.injEq]
  tauto

theorem getD_eq_iff {α : Type} {value : Option α} {old : α} : value.getD old = old ↔ ∀ a, value = some a → old = a := by
  cases value with
  | none => simp
  | some a => simp [eq_comm]

/-- Patterns that are moved to the end are there already. -/
theorem filter_append_eq_iff {old new : List String} :
    old.filter (· ∉ new) ++ new = old ↔ ∃ front, old = front ++ new ∧ ∀ p ∈ new, p ∉ front := by
  constructor
  · intro same
    refine ⟨old.filter (· ∉ new), same.symm, fun p mem inside => ?_⟩
    simpa [mem] using (List.mem_filter.1 inside).2
  · rintro ⟨front, rfl, apart⟩
    rw [List.filter_append]
    have kept : front.filter (· ∉ new) = front := by
      refine List.filter_eq_self.2 fun p mem => ?_
      simpa using fun inside => apart p inside mem
    have dropped : new.filter (· ∉ new) = [] := by
      refine List.filter_eq_nil_iff.2 fun p mem => ?_
      simpa using mem
    rw [kept, dropped, List.append_nil]

theorem commands_append_iff (noReset : .reset ∉ ts) :
    (ts.foldl take u).commandRules = u.commandRules ∧ (ts.foldl take u).allCommands = u.allCommands ↔ rules ts = [] := by
  obtain ⟨commandRules, allCommands⟩ := @foldl_take_commands u ts noReset
  rw [commandRules, allCommands, List.append_right_eq_self]
  exact ⟨And.left, fun none => ⟨none, by simp [none]⟩⟩

theorem keys_append_iff (noReset : .reset ∉ ts) :
    (ts.foldl take u).keyPatterns = u.keyPatterns ∧ (ts.foldl take u).allKeys = u.allKeys ↔
      patterns ts = [] ∨ u.allKeys = false ∧
        ∃ front, u.keyPatterns = front ++ patterns ts ∧ ∀ p ∈ patterns ts, p ∉ front := by
  obtain ⟨keyPatterns, allKeys⟩ := @foldl_take_keys u ts noReset
  rw [keyPatterns, allKeys, filter_append_eq_iff]
  cases mentioned : patterns ts with
  | nil => simp
  | cons p ps => cases u.allKeys <;> simp

/-- **A list of tokens leaves the record as it is if and only if it says what is there.** -/
theorem foldl_take_eq_iff : ts.foldl take u = u ↔ u.Repeats ts := by
  have passwords : (ts.foldl take u).passwordHash = u.passwordHash ↔
      ∀ hash, (ts.filterMap password?).getLast? = some hash → u.passwordHash = hash := by
    rw [foldl_take_passwordHash, getD_eq_iff]
  have switches : (ts.foldl take u).enabled = u.enabled ↔
      ∀ b, (ts.filterMap switch?).getLast? = some b → u.enabled = b := by
    rw [foldl_take_enabled, getD_eq_iff]
  rw [eq_iff, switches, passwords]
  cases reset : sinceReset ts with
  | none =>
    have noReset := sinceReset_eq_none.1 reset
    rw [commands_append_iff noReset, keys_append_iff noReset]
    constructor
    · rintro ⟨-, enabled, password, commands, keys⟩
      refine ⟨enabled, password, fun later some => ?_, fun _ => ⟨commands, keys⟩⟩
      rw [reset] at some
      cases some
    · intro repeats
      exact ⟨foldl_take_name, repeats.enabled, repeats.password, repeats.append reset⟩
  | some later =>
    obtain ⟨before, split, noReset⟩ := exists_of_sinceReset reset
    -- What is behind the `reset` starts from a record without rules and patterns.
    have ends : ts.foldl take u = later.foldl take ((before.foldl take u).take .reset) := by
      rw [split, List.foldl_append, List.foldl_cons]
    obtain ⟨commandRules, allCommands⟩ := @foldl_take_commands ((before.foldl take u).take .reset) later noReset
    obtain ⟨keyPatterns, allKeys⟩ := @foldl_take_keys ((before.foldl take u).take .reset) later noReset
    simp only [take, List.nil_append, List.filter_nil, Bool.true_and] at commandRules allCommands keyPatterns allKeys
    rw [ends] at passwords switches ⊢
    rw [take, commandRules, allCommands, keyPatterns, allKeys]
    constructor
    · rintro ⟨-, enabled, password, ⟨commands, all⟩, keys, every⟩
      have noAppend : sinceReset ts ≠ none := by
        rw [reset]
        exact Option.some_ne_none later
      refine ⟨enabled, password, fun later' some => ?_, fun none => absurd none noAppend⟩
      obtain rfl : later = later' := Option.some.inj (reset.symm.trans some)
      exact ⟨commands.symm, all.symm, keys.symm, every.symm⟩
    · intro repeats
      obtain ⟨commands, all, keys, every⟩ := repeats.reset later reset
      have name : (ts.foldl take u).name = u.name := foldl_take_name
      rw [ends, take] at name
      exact ⟨name, repeats.enabled, repeats.password, ⟨commands.symm, all.symm⟩, keys.symm, every.symm⟩

end AclUser

end NexradeCache
