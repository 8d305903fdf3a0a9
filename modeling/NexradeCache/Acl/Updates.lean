import NexradeCache.Acl.Tokens
import NexradeCache.Lib.Trace

/-!
# Updates of the user table (`AclManager::setuser` and `deluser` of `nexrade-core/src/acl.rs`)

A rule list with a malformed token fails there and then: what the tokens before it did stays, and the
flag of the fast path is not computed again. `Harmless` says when nothing comes of that.
-/

namespace NexradeCache

open Trace

namespace AclUser

/-- `apply_rules` takes the token. -/
def wellFormed (rule : String) : Bool :=
  ["on", "off", "reset", "resetpass", "nopass"].contains rule ||
    ['>', '<', '#', '~', '+', '-'].any fun c => (stripPrefix c rule).isSome

theorem applyRule_isOk (text : AclText) (u : AclUser) (rule : String) :
    (u.applyRule text rule).isOk = wellFormed rule := by
  unfold applyRule wellFormed
  -- Each test of `applyRule` is one of `wellFormed`, in another order.
  repeat' split
  all_goals simp_all [Except.isOk, Except.toBool, Option.isSome_iff_exists, Option.eq_none_iff_forall_ne_some]

/-- The tokens in front of the first malformed one. -/
def tokens (text : AclText) (rules : List String) : List Token :=
  (rules.takeWhile wellFormed).filterMap (Token.ofText text)

/-- These are applied, whatever comes behind them. -/
theorem applyRules_tokens (text : AclText) (u : AclUser) (rules : List String) :
    (u.applyRules text rules).1 = (tokens text rules).foldl take u := by
  unfold tokens
  induction rules generalizing u with
  | nil => rfl
  | cons rule rules ih =>
    have taken := applyRule_isOk text u rule
    have means := applyRule_ofText text u rule
    rw [List.takeWhile_cons]
    cases applied : u.applyRule text rule with
    | ok u' =>
      rw [applied] at taken means
      have good : wellFormed rule = true := taken.symm
      obtain ⟨t, is, here⟩ := Option.map_eq_some_iff.1 means.symm
      rw [if_pos good, List.filterMap_cons_some is, List.foldl_cons, here]
      simpa only [applyRules, applied] using ih u'
    | error e =>
      rw [applied] at taken
      have bad : wellFormed rule = false := taken.symm
      simp [bad, applyRules, applied]

theorem applyRules_eq_none (text : AclText) (u : AclUser) (rules : List String) :
    (u.applyRules text rules).2 = none ↔ ∀ rule ∈ rules, wellFormed rule = true := by
  induction rules generalizing u with
  | nil => simp [applyRules]
  | cons rule rules ih =>
    have taken := applyRule_isOk text u rule
    rw [applyRules, List.forall_mem_cons, ← taken]
    cases applied : u.applyRule text rule with
    | ok u' => simpa [Except.isOk, Except.toBool] using ih u'
    | error e => simp [Except.isOk, Except.toBool]

end AclUser

namespace AclManager

/-! ## Runs of updates -/

/-- A call that changes the table of users. -/
inductive Update where
  | setuser (name : String) (rules : List String)
  | deluser (name : String)

def update (text : AclText) (op : Update) (acl : AclManager) : AclManager :=
  match op with
  | .setuser name rules => (acl.setuser text name rules).1
  | .deluser name => (acl.deluser name).1

/-- The update returns an error. -/
def refuses (text : AclText) (op : Update) (acl : AclManager) : Bool :=
  match op with
  | .setuser name rules => !(acl.setuser text name rules).2.isOk
  | .deluser _ => false

/-- The only user is an enabled `default` without restrictions. -/
def Unrestricted (acl : AclManager) : Prop :=
  ∃ u, (∀ name, acl.users.lookup name = if name = "default" then some u else none) ∧ u.enabled = true ∧
    u.allCommands = true ∧ u.allKeys = true ∧ u.commandRules = [] ∧ u.keyPatterns = []

/-- What an update promises. -/
structure Atomic (text : AclText) (op : Update) (acl : AclManager) : Prop where
  kept : acl.refuses text op = true → ∀ name, (acl.update text op).users.lookup name = acl.users.lookup name
  isOpen : (acl.update text op).isOpen = true ↔ (acl.update text op).Unrestricted
  /-- The fast path says what the rules say. -/
  fastPath : ∀ user cmd keys, (acl.update text op).checkPermission user cmd keys =
    { acl.update text op with isOpen := false }.checkPermission user cmd keys

/-- The tokens are well formed, or those before the first malformed one say what the user is already. -/
def Harmless (text : AclText) (op : Update) (acl : AclManager) : Prop :=
  match op with
  | .setuser name rules => (∀ rule ∈ rules, AclUser.wellFormed rule = true) ∨
      ∃ u, acl.users.lookup name = some u ∧ u.Repeats (AclUser.tokens text rules)
  | .deluser _ => True

/-! ## The flag -/

theorem computeOpen_iff (users : AList fun _ : String => AclUser) (flag : Bool) :
    computeOpen users = true ↔ (AclManager.mk users flag).Unrestricted := by
  unfold computeOpen Unrestricted
  constructor
  · intro h
    split at h
    · rename_i u found
      simp only [Bool.and_eq_true, decide_eq_true_eq, List.isEmpty_iff] at h
      obtain ⟨⟨⟨⟨⟨single, enabled⟩, commands⟩, keys⟩, rules⟩, patterns⟩ := h
      refine ⟨u, fun name => ?_, enabled, commands, keys, rules, patterns⟩
      split
      · rename_i same
        rw [same]
        exact found
      · rename_i other
        obtain ⟨only, is⟩ := List.length_eq_one_iff.1 single
        have default : "default" ∈ users.keys := AList.mem_keys.1 (AList.lookup_isSome.1 (by rw [found]; rfl))
        refine AList.lookup_eq_none.2 fun mem => other ?_
        have name : name ∈ users.keys := AList.mem_keys.1 mem
        rw [is, List.mem_singleton] at default name
        rw [name, default]
    · cases h
  · rintro ⟨u, only, enabled, commands, keys, rules, patterns⟩
    have found := only "default"
    rw [if_pos rfl] at found
    have single : users.keys.Perm ["default"] := by
      refine (List.perm_ext_iff_of_nodup users.nodupKeys (List.nodup_singleton _)).2 fun name => ?_
      rw [List.mem_singleton]
      constructor
      · intro mem
        by_contra other
        have none := only name
        rw [if_neg other] at none
        exact AList.lookup_eq_none.1 none (AList.mem_keys.2 mem)
      · rintro rfl
        exact AList.mem_keys.1 (AList.lookup_isSome.1 (by rw [found]; rfl))
    rw [found]
    simp [single.length_eq, enabled, commands, keys, rules, patterns]

/-- The flag depends on the users only as a table. -/
theorem Unrestricted.congr {acl acl' : AclManager} (same : ∀ name, acl'.users.lookup name = acl.users.lookup name) :
    acl'.Unrestricted ↔ acl.Unrestricted := by
  simp only [Unrestricted, same]

/-- Where the flag is exact, the fast path allows what the rules allow. -/
theorem checkPermission_fastPath {acl : AclManager} (isOpen : acl.isOpen = true → acl.Unrestricted) (user cmd : String)
    (keys : List Bytes) :
    acl.checkPermission user cmd keys = { acl with isOpen := false }.checkPermission user cmd keys := by
  rw [checkPermission, checkPermission]
  by_cases fast : acl.isOpen = true ∧ user = "default"
  · obtain ⟨u, only, enabled, commands, allKeys, rules, patterns⟩ := isOpen fast.1
    have found := only user
    rw [if_pos fast.2] at found
    have allowed : u.commandAllowed cmd = true := by simp [AclUser.commandAllowed, commands, rules]
    have every (k : Bytes) : u.keyAllowed k = true := by simp [AclUser.keyAllowed, allKeys, patterns]
    have none : keys.find? (fun k => !u.keyAllowed k) = none := by
      refine List.find?_eq_none.2 fun k _ => ?_
      simp [every]
    rw [if_pos (by simp [fast])]
    simp [found, enabled, allowed, none]
  · rw [if_neg (by simpa using fast)]
    simp

/-! ## One update -/

theorem setuser_refused {text : AclText} {acl : AclManager} {name : String} {rules : List String} :
    acl.refuses text (.setuser name rules) = true ↔ ¬ ∀ rule ∈ rules, AclUser.wellFormed rule = true := by
  rw [← AclUser.applyRules_eq_none text ((acl.users.lookup name).getD (.new name)) rules]
  unfold refuses setuser
  cases failed : (((acl.users.lookup name).getD (.new name)).applyRules text rules).2 with
  | none => simp [failed, Except.isOk, Except.toBool]
  | some e => simp [failed, Except.isOk, Except.toBool]

theorem setuser_users (text : AclText) (acl : AclManager) (name : String) (rules : List String) :
    (acl.setuser text name rules).1.users =
      acl.users.insert name (((acl.users.lookup name).getD (.new name)).applyRules text rules).1 := by
  unfold setuser
  dsimp only
  split <;> rfl

theorem setuser_isOpen (text : AclText) (acl : AclManager) (name : String) (rules : List String) :
    (acl.setuser text name rules).1.isOpen = if acl.refuses text (.setuser name rules) then acl.isOpen
      else computeOpen (acl.setuser text name rules).1.users := by
  unfold refuses setuser
  cases failed : (((acl.users.lookup name).getD (.new name)).applyRules text rules).2 with
  | none => simp [failed, Except.isOk, Except.toBool]
  | some e => simp [failed, Except.isOk, Except.toBool]

/-- A refused update keeps the table if and only if it is harmless. -/
theorem kept_iff_harmless (text : AclText) (op : Update) (acl : AclManager) :
    (acl.refuses text op = true → ∀ name, (acl.update text op).users.lookup name = acl.users.lookup name) ↔
      acl.Harmless text op := by
  cases op with
  | deluser name => simp [refuses, Harmless]
  | setuser name rules =>
    rw [setuser_refused]
    simp only [Harmless, update]
    rw [setuser_users]
    set user := (acl.users.lookup name).getD (.new name) with is
    constructor
    · intro kept
      by_cases good : ∀ rule ∈ rules, AclUser.wellFormed rule = true
      · exact .inl good
      · have here := kept good name
        rw [AList.lookup_insert] at here
        refine .inr ⟨_, here.symm, ?_⟩
        have found : user = (user.applyRules text rules).1 := by
          rw [← here] at is
          exact is
        rw [← found]
        rw [AclUser.applyRules_tokens] at found
        exact AclUser.foldl_take_eq_iff.1 found.symm
    · intro harmless bad other
      rcases harmless with good | ⟨u, found, stays⟩
      · exact absurd good bad
      · have same : (user.applyRules text rules).1 = u := by
          rw [AclUser.applyRules_tokens, is, found, Option.getD_some]
          exact AclUser.foldl_take_eq_iff.2 stays
        by_cases here : other = name
        · rw [here, AList.lookup_insert, same, found]
        · rw [AList.lookup_insert_ne here]

theorem isOpen_update {text : AclText} {op : Update} {acl : AclManager} (isOpen : acl.isOpen = true ↔ acl.Unrestricted)
    (harmless : acl.Harmless text op) : (acl.update text op).isOpen = true ↔ (acl.update text op).Unrestricted := by
  have kept := (kept_iff_harmless text op acl).2 harmless
  cases op with
  | setuser name rules =>
    simp only [update] at kept ⊢
    rw [setuser_isOpen]
    split
    · rename_i refused
      exact isOpen.trans (Unrestricted.congr (kept refused)).symm
    · exact computeOpen_iff _ _
  | deluser name =>
    rw [update, deluser]
    split
    · exact computeOpen_iff ((acl.users.erase name).insert "default" .defaultUser) (computeOpen _)
    · split
      · exact computeOpen_iff _ (computeOpen _)
      · exact isOpen

theorem atomic_iff_harmless {text : AclText} {op : Update} {acl : AclManager} (isOpen : acl.isOpen = true ↔ acl.Unrestricted) :
    acl.Atomic text op ↔ acl.Harmless text op := by
  constructor
  · intro atomic
    exact (kept_iff_harmless text op acl).1 atomic.kept
  · intro harmless
    have exact' := isOpen_update isOpen harmless
    exact ⟨(kept_iff_harmless text op acl).2 harmless, exact', checkPermission_fastPath exact'.1⟩

theorem new_unrestricted : new.isOpen = true ↔ new.Unrestricted := by
  have is : computeOpen new.users = true := by decide
  exact ⟨fun _ => (computeOpen_iff new.users true).1 is, fun _ => rfl⟩

/-- **The updates of a run are atomic and leave the flag exact if and only if each of them is harmless.** An update
that fails leaves the user with the rules in front of the one that failed. That is no change exactly if those rules
say what the user is already, which `Repeats` reads off the rules themselves. -/
theorem updates_atomic_iff (text : AclText) (ops : List Update) :
    Always (update text) (fun op acl => acl.Atomic text op) ops .new ↔
      Always (update text) (fun op acl => acl.Harmless text op) ops .new :=
  Always.congr new_unrestricted (fun _ _ isOpen => atomic_iff_harmless isOpen) fun _ _ isOpen harmless =>
    isOpen_update isOpen harmless

/-- `ACL SETUSER default off bogus`. -/
theorem setuser_refused_applied :
    ¬ ∀ (text : AclText) (ops : List Update), Always (update text) (fun op acl => acl.Atomic text op) ops .new := by
  intro atomic
  have kept := (atomic ⟨id, id⟩ [.setuser "default" ["off", "bogus"]]).1.kept (by decide) "default"
  revert kept
  decide

end AclManager

end NexradeCache
