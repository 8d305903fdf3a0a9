import NexradeCache.Command.Writers

/-!
# The keys a handler reaches

`Handler.Within ok` says that a handler accesses the keys `ok` and no others, whatever the store
answers. `exec_within` is what follows for two runs of it on stores that agree on these keys: the
replies are the same, the stores still agree there, and no other key has changed.

The second half finds these keys in the arguments. `spans` has a row for each row of the dispatcher's
table: the positions the handler takes its keys from.
-/

namespace NexradeCache

open Content

/-! ## Two runs -/

namespace Store

/-- The stores have the same entries under the keys `ok`, in every database. -/
structure Agree (ok : Bytes → Prop) (s s' : Store) : Prop where
  length : s.dbs.length = s'.dbs.length
  same : ∀ index key, ok key → (s.db index).keyspace key = (s'.db index).keyspace key

/-- No entry under another key has changed. -/
def Kept (ok : Bytes → Prop) (s s' : Store) : Prop :=
  ∀ index key, ¬ ok key → (s'.db index).keyspace key = (s.db index).keyspace key

variable {ok : Bytes → Prop} {s s' s'' : Store} {index : Nat} {d d' : ShardedDatabase}

theorem Kept.refl (s : Store) : Kept ok s s := fun _ _ _ => rfl

theorem Kept.trans (h : Kept ok s s') (h' : Kept ok s' s'') : Kept ok s s'' :=
  fun index key other => (h' index key other).trans (h index key other)

/-- One database is written alike in two stores. -/
theorem Agree.setDb (h : Agree ok s s') (there : ∀ key, ok key → d.keyspace key = d'.keyspace key) :
    Agree ok (s.setDb index d) (s'.setDb index d') where
  length := by simpa [Store.setDb] using h.length
  same i key hk := by
    rw [db_setDb_eq, db_setDb_eq, ← h.length]
    split
    · exact there key hk
    · exact h.same i key hk

end Store

namespace Handler

/-- The handler accesses the keys `ok` only. -/
def Within (ok : Bytes → Prop) : Handler → Prop
  | .done _ => True
  | .lookup _ _ key next => ok key ∧ ∀ c, (next c).Within ok
  | .keysMatching _ _ _ => False
  | .look next => (∀ s s', next s = next s') ∧ ∀ s, (next s).Within ok
  | .call _ op next => (∀ key ∈ op.1.keys, ok key) ∧ ∀ a, (next a).Within ok

section
variable {ok : Bytes → Prop}

@[simp] theorem within_done (reply : Resp) : (done reply).Within ok := trivial

@[simp] theorem within_lookup {lock : Lock} {db : Nat} {key : Bytes} {next : Option Content → Handler} :
    (lookup lock db key next).Within ok ↔ ok key ∧ ∀ c, (next c).Within ok := .rfl

@[simp] theorem within_call {db : Nat} {op : ClientOp} {next : Answer → Handler} :
    (call db op next).Within ok ↔ (∀ key ∈ op.1.keys, ok key) ∧ ∀ a, (next a).Within ok := .rfl

end

end Handler

/-! ## Positions -/

/-- Where the keys of a handler stand. -/
inductive Span where
  | only (positions : List Nat)
  | behind (start : Nat)
  | odd
  /-- Not in the arguments. -/
  | sweep
deriving DecidableEq, Repr

namespace Span

/-- Whether a position belongs to a span. A sweep has none: it names its keys by no argument. -/
def has : Span → Nat → Bool
  | .only positions, i => positions.contains i
  | .behind start, i => start ≤ i
  | .odd, i => i % 2 = 1
  | .sweep, _ => false

/-- Every key at these positions is one of `ok`. -/
def Allows (span : Span) (ok : Bytes → Prop) (args : List Resp) : Prop :=
  ∀ i key, span.has i = true → getBytesVec args i = some key → ok key

/-- A parser takes its keys from these positions. -/
def Finds (span : Span) (keys : List Resp → Option (List Bytes)) : Prop :=
  ∀ args found, keys args = some found → ∀ key ∈ found, ∃ i, span.has i = true ∧ getBytesVec args i = some key

variable {span : Span} {ok : Bytes → Prop} {args : List Resp}

/-- Keys that are found within an allowed span are allowed. -/
theorem Finds.allowed {keys : List Resp → Option (List Bytes)} (finds : span.Finds keys) (allows : span.Allows ok args)
    {found : List Bytes} (h : keys args = some found) : ∀ key ∈ found, ok key := by
  intro key mem
  obtain ⟨i, has, at_i⟩ := finds args found h key mem
  exact allows i key has at_i

end Span

/-- Every key that is read is one of the arguments. -/
theorem mem_parseKeys {args : List Resp} {keys : List Bytes} (h : parseKeys args = some keys) {key : Bytes}
    (mem : key ∈ keys) : ∃ a ∈ args, a.toBytesVec = some key := by
  induction args generalizing keys with
  | nil =>
    obtain rfl : keys = [] := by simpa [parseKeys] using h.symm
    cases mem
  | cons a args ih =>
    simp only [parseKeys, List.mapM_cons, Option.bind_eq_bind, Option.bind_eq_some_iff] at h
    obtain ⟨k, first, ks, rest, is⟩ := h
    obtain rfl : k :: ks = keys := by simpa using is
    rcases List.mem_cons.1 mem with rfl | later
    · exact ⟨a, List.mem_cons_self, first⟩
    · obtain ⟨b, there, text⟩ := ih rest later
      exact ⟨b, List.mem_cons_of_mem a there, text⟩

/-- So it is when the reading stops at the first argument that is no key. -/
theorem mem_leadingKeys {args : List Resp} {key : Bytes} (mem : key ∈ leadingKeys args) :
    ∃ a ∈ args, a.toBytesVec = some key := by
  induction args with
  | nil => cases mem
  | cons a args ih =>
    unfold leadingKeys at mem
    split at mem
    · cases mem
    · rename_i k first
      rcases List.mem_cons.1 mem with rfl | later
      · exact ⟨a, List.mem_cons_self, first⟩
      · obtain ⟨b, there, text⟩ := ih later
        exact ⟨b, List.mem_cons_of_mem a there, text⟩

/-- What is bytes is bytes for the laxer reading too. -/
theorem asBytes_toBytesVec {a : Resp} {key : Bytes} (h : a.asBytes = some key) : a.toBytesVec = some key := by
  unfold Resp.asBytes at h
  split at h
  · exact h
  · cases h

/-- A key behind a position stands at one of the later positions. -/
theorem position_of_mem_drop {args : List Resp} {start : Nat} {a : Resp} {key : Bytes} (mem : a ∈ args.drop start)
    (text : a.toBytesVec = some key) : ∃ i, start ≤ i ∧ getBytesVec args i = some key := by
  obtain ⟨n, inside, rfl⟩ := List.mem_iff_getElem.1 mem
  refine ⟨start + n, Nat.le_add_right _ _, ?_⟩
  rw [List.length_drop] at inside
  rw [List.getElem_drop] at text
  simp [getBytesVec, List.getElem?_eq_getElem (show start + n < args.length by omega), text]

/-- A key that is taken as text is the argument at its position. -/
theorem textAt_getBytesVec {args : List Resp} {i : Nat} {key : Bytes} (h : textAt args i = some key) :
    getBytesVec args i = some key := by
  unfold textAt getStr at h
  unfold getBytesVec
  cases at_i : args[i]? with
  | none => simp [at_i] at h
  | some a =>
    rw [at_i] at h
    simp only [Option.bind_some] at h ⊢
    unfold Resp.asStr at h
    split at h
    · obtain ⟨s, text, rfl⟩ := Option.map_eq_some_iff.1 h
      rw [Resp.toBytesVec, Utf8.asBytes_of_fromUtf8 text]
    · exact h
    · cases h

/-! ## The parsers -/

namespace Span

theorem finds_only {i : Nat} {key : List Resp → Option Bytes}
    (at_i : ∀ args k, key args = some k → getBytesVec args i = some k) :
    (only [i]).Finds fun args => (key args).map fun k => [k] := by
  intro args found h x mem
  obtain ⟨k, text, rfl⟩ := Option.map_eq_some_iff.1 h
  rw [List.mem_singleton.1 mem]
  exact ⟨i, by simp [has], at_i args k text⟩

/-- A source and a destination, in this order. -/
theorem finds_both {key : List Resp → Nat → Option Bytes}
    (position : ∀ args i k, key args i = some k → getBytesVec args i = some k) :
    (only [1, 2]).Finds fun args => match key args 1, key args 2 with
      | some src, some dst => some [src, dst]
      | _, _ => none := by
  intro args found h x mem
  dsimp only at h
  split at h
  · rename_i src dst first second
    obtain rfl := Option.some.inj h
    rcases List.mem_cons.1 mem with rfl | mem
    · exact ⟨1, rfl, position args 1 x first⟩
    · rw [List.mem_singleton.1 mem]
      exact ⟨2, rfl, position args 2 dst second⟩
  · cases h

/-- `parse_keys` takes all the rest of the arguments. -/
theorem finds_drop (start : Nat) : (behind start).Finds fun args => parseKeys (args.drop start) := by
  intro args found h key mem
  obtain ⟨a, there, text⟩ := mem_parseKeys h mem
  obtain ⟨i, le, at_i⟩ := position_of_mem_drop there text
  exact ⟨i, by simpa [has] using le, at_i⟩

/-- The blocking commands have a timeout behind their keys. -/
theorem finds_between : (behind 1).Finds Collections.blockingKeys := by
  intro args found h key mem
  obtain ⟨a, there, text⟩ := mem_parseKeys h mem
  obtain ⟨i, le, at_i⟩ := position_of_mem_drop (List.dropLast_subset _ there) text
  exact ⟨i, by simpa [has] using le, at_i⟩

/-- The keys of MGET and its like are read in a loop. -/
theorem finds_loop : (behind 1).Finds fun args => some (leadingKeys (args.drop 1)) := by
  intro args found h key mem
  obtain rfl := Option.some.inj h
  obtain ⟨a, there, text⟩ := mem_leadingKeys mem
  obtain ⟨i, le, at_i⟩ := position_of_mem_drop there text
  exact ⟨i, by simpa [has] using le, at_i⟩

/-- A count and the keys behind it. -/
theorem finds_keysFrom (idx : Nat) : (behind (idx + 1)).Finds fun args => (Collections.keysFrom args idx).map Prod.fst := by
  intro args found h key mem
  obtain ⟨⟨keys, rest⟩, parsed, rfl⟩ := Option.map_eq_some_iff.1 h
  unfold Collections.keysFrom at parsed
  split at parsed
  · cases parsed
  · split at parsed
    · cases parsed
    · split at parsed
      · cases parsed
      · obtain ⟨ks, text, same⟩ := Option.map_eq_some_iff.1 parsed
        obtain ⟨rfl, -⟩ := Prod.mk.inj same
        obtain ⟨a, there, text⟩ := mem_parseKeys text mem
        obtain ⟨i, le, at_i⟩ := position_of_mem_drop (List.take_subset _ _ there) text
        exact ⟨i, by simpa [has] using le, at_i⟩

/-- The number of keys is the first argument. -/
theorem finds_numKeys : (behind 2).Finds numKeys := by
  intro args found h key mem
  unfold numKeys at h
  split at h
  · cases h
  · split at h
    · cases h
    · split at h
      · cases h
      · obtain ⟨a, there, text⟩ := mem_parseKeys h mem
        obtain ⟨i, le, at_i⟩ := position_of_mem_drop (List.take_subset _ _ there) text
        exact ⟨i, by simpa [has] using le, at_i⟩

/-- A destination in front of the keys is found at position 1. -/
theorem Finds.dest {keys : List Resp → Option (List Bytes)} {start : Nat} (pos : 1 ≤ start)
    (finds : (behind start).Finds keys) :
    (behind 1).Finds fun args => match getBytesVec args 1, keys args with
      | some dst, some keys => some (dst :: keys)
      | _, _ => none := by
  intro args found h key mem
  dsimp only at h
  split at h
  · rename_i dst ks first rest
    obtain rfl := Option.some.inj h
    rcases List.mem_cons.1 mem with rfl | mem
    · exact ⟨1, rfl, first⟩
    · obtain ⟨i, le, at_i⟩ := finds args ks rest key mem
      have le : start ≤ i := by simpa [has] using le
      exact ⟨i, by simpa [has] using pos.trans le, at_i⟩
  · cases h

/-- MSET has a key at every other position. -/
theorem mem_pairKeys {rest : List Resp} {keys : List Bytes} (h : pairKeys rest = some keys) {key : Bytes}
    (mem : key ∈ keys) : ∃ n, rest[2 * n]?.bind Resp.toBytesVec = some key := by
  fun_induction pairKeys rest generalizing keys with
  | case1 a v rest k ks later first ih =>
    obtain rfl := Option.some.inj h
    rcases List.mem_cons.1 mem with rfl | mem
    · exact ⟨0, by simpa using asBytes_toBytesVec first⟩
    · obtain ⟨n, text⟩ := ih later mem
      refine ⟨n + 1, ?_⟩
      rw [show 2 * (n + 1) = 2 * n + 1 + 1 by omega, List.getElem?_cons_succ, List.getElem?_cons_succ]
      exact text
  | case2 => cases h
  | case3 =>
    obtain rfl := Option.some.inj h
    cases mem

/-- So the keys stand at the odd positions. -/
theorem finds_pairs : odd.Finds fun args => pairKeys (args.drop 1) := by
  intro args found h key mem
  obtain ⟨n, text⟩ := mem_pairKeys h mem
  rw [List.getElem?_drop] at text
  exact ⟨1 + 2 * n, by simp [has], text⟩

end Span

/-! ## The families -/

/-- The handler takes every key it accesses from these positions. -/
def Takes (span : Span) (run : Cmd) : Prop :=
  span ≠ .sweep → ∀ ok db args, span.Allows ok args → (run db args).Within ok

section
variable {env : Env} {name : String} {arity : Arity} {lock : Lock} {ok : Bytes → Prop} {db : Nat}
  {args : List Resp} {span : Span}

/-- A sweep takes anything. -/
@[simp] theorem takes_sweep (run : Cmd) : Takes .sweep run := fun ne => (ne rfl).elim

/-- Checking the arguments reaches no key. -/
theorem checked_within {body : Handler} (h : body.Within ok) : (checked env name arity args body).Within ok := by
  unfold checked
  split
  · exact trivial
  · split
    · exact trivial
    · exact h

/-- A command with one key reaches the position it reads it from. -/
theorem oneKey_takes {i : Nat} {key : List Resp → Option Bytes}
    (at_i : ∀ args k, key args = some k → getBytesVec args i = some k) :
    Takes (.only [i]) (oneKey env name arity lock key) := by
  intro _ ok db args allows
  apply checked_within
  split
  · exact trivial
  · rename_i k text
    exact ⟨allows i k (by simp [Span.has]) (at_i args k text), fun c => trivial⟩

@[simp] theorem readKey_takes : Takes (.only [1]) (readKey env name arity) := oneKey_takes fun _ _ h => h

@[simp] theorem getKey_takes : Takes (.only [1]) (getKey env name arity) := oneKey_takes fun _ _ h => h

/-- A key that has to be bytes is the argument at its position. -/
theorem bytesAt_getBytesVec {i : Nat} {key : Bytes} (h : args[i]?.bind Resp.asBytes = some key) :
    getBytesVec args i = some key := by
  obtain ⟨a, at_i, text⟩ := Option.bind_eq_some_iff.1 h
  rw [getBytesVec, at_i]
  exact asBytes_toBytesVec text

@[simp] theorem bytesKey_takes :
    Takes (.only [1]) (oneKey env name arity lock fun args => args[1]?.bind Resp.asBytes) :=
  oneKey_takes fun _ _ h => bytesAt_getBytesVec h

@[simp] theorem strKey_takes : Takes (.only [1]) (oneKey env name arity lock strKey) :=
  oneKey_takes fun _ _ h => textAt_getBytesVec h

/-- A lookup for each argument reaches the arguments. -/
theorem lookupArgs_within (rest : List Resp) (seen : List (Option Content))
    (h : ∀ a ∈ rest, ∀ key, a.toBytesVec = some key → ok key) :
    (lookupArgs env name lock db args rest seen).Within ok := by
  induction rest generalizing seen with
  | nil => exact trivial
  | cons a rest ih =>
    unfold lookupArgs
    split
    · exact trivial
    · rename_i key text
      rw [Handler.within_lookup]
      refine ⟨h a List.mem_cons_self key text, fun c => ?_⟩
      split
      · exact trivial
      · exact ih _ fun b mem => h b (List.mem_cons_of_mem a mem)

@[simp] theorem eachArg_takes : Takes (.behind 1) (eachArg env name lock) := by
  intro _ ok db args allows
  refine checked_within (lookupArgs_within _ _ fun a mem key text => ?_)
  obtain ⟨i, le, at_i⟩ := position_of_mem_drop mem text
  exact allows i key (by simpa [Span.has] using le) at_i

/-- A lookup for each key reaches the keys and what follows does. -/
theorem lookupAll_within {last : List (Option Content) → Handler} (h : ∀ seen, (last seen).Within ok)
    (keys : List Bytes) (allowed : ∀ key ∈ keys, ok key) (seen : List (Option Content)) :
    (lookupAll env name lock db args last keys seen).Within ok := by
  induction keys generalizing seen with
  | nil => exact h seen
  | cons key keys ih =>
    rw [List.forall_mem_cons] at allowed
    rw [lookupAll, Handler.within_lookup]
    refine ⟨allowed.1, fun c => ?_⟩
    split
    · exact trivial
    · exact ih allowed.2 _

/-- A handler that reads its keys first and looks then. -/
theorem someKeys_takes {keys : List Resp → Option (List Bytes)} (finds : span.Finds keys) :
    Takes span (someKeys env name arity lock keys) := by
  intro _ ok db args allows
  apply checked_within
  split
  · exact trivial
  · rename_i ks parsed
    exact lookupAll_within (fun seen => Handler.within_done _) ks (finds.allowed allows parsed) []

@[simp] theorem numKeys_takes : Takes (.behind 2) (someKeys env name arity lock numKeys) :=
  someKeys_takes Span.finds_numKeys

@[simp] theorem noStore_takes : Takes (.only []) (noStore env name) := fun _ _ _ _ _ => trivial

end

/-! ## The writers -/

/-- Where a way to take keys looks for them. -/
def KeyParser.span : KeyParser → Span
  | .firstBytes | .first | .firstText => .only [1]
  | .second => .only [2]
  | .both | .bothText => .only [1, 2]
  | .pairs => .odd
  | .loop | .destLoop | .destNumkeys | .between => .behind 1
  | .all start => .behind start
  | .numkeys idx => .behind (idx + 1)
  | .streams => .behind 4

namespace Effects

variable {fx : Effects}

/-- The options of XREADGROUP are read forwards. -/
theorem le_groupOptions {args : List Resp} {fuel i j : Nat} (h : fx.groupOptions args fuel i = some j) : i ≤ j := by
  induction fuel generalizing i with
  | zero => exact Nat.le_of_eq (Option.some.inj h)
  | succ fuel ih =>
    unfold groupOptions at h
    split at h
    · exact Nat.le_of_eq (Option.some.inj h)
    · split at h
      · cases h
      · split at h
        · have := ih h
          omega
        · split at h
          · have := Option.some.inj h
            omega
          · have := ih h
            omega

/-- Each way of reading the keys of a write stays in its span. -/
theorem keys_finds (p : KeyParser) : p.span.Finds fun args => fx.keys args p := by
  cases p with
  | firstBytes => exact Span.finds_only fun _ _ h => bytesAt_getBytesVec h
  | first => exact Span.finds_only fun _ _ h => h
  | firstText => exact Span.finds_only fun _ _ h => textAt_getBytesVec h
  | second => exact Span.finds_only fun _ _ h => h
  | both => exact Span.finds_both fun _ _ _ h => h
  | bothText => exact Span.finds_both fun _ _ _ h => textAt_getBytesVec h
  | pairs => exact Span.finds_pairs
  | loop => exact Span.finds_loop
  | all start => exact Span.finds_drop start
  | destLoop =>
    intro args found h key mem
    obtain ⟨dst, first, rfl⟩ := Option.map_eq_some_iff.1 h
    rcases List.mem_cons.1 mem with rfl | mem
    · exact ⟨1, rfl, first⟩
    · obtain ⟨a, there, text⟩ := mem_leadingKeys mem
      obtain ⟨i, le, at_i⟩ := position_of_mem_drop there text
      exact ⟨i, by simp only [KeyParser.span, Span.has, decide_eq_true_eq]; omega, at_i⟩
  | destNumkeys =>
    refine fun args found h => (Span.finds_keysFrom 2).dest (by decide) args found ?_
    dsimp only [keys] at h ⊢
    split at h
    · rename_i dst ks rest first parsed
      rw [first, parsed]
      exact h
    · cases h
  | numkeys idx => exact Span.finds_keysFrom idx
  | between => exact Span.finds_between
  | streams =>
    intro args found h key mem
    obtain ⟨i, options, parsed⟩ := Option.bind_eq_some_iff.1 h
    obtain ⟨a, there, text⟩ := mem_parseKeys parsed mem
    obtain ⟨j, le, at_j⟩ := position_of_mem_drop (List.take_subset _ _ there) text
    have := le_groupOptions options
    exact ⟨j, by simp only [KeyParser.span, Span.has, decide_eq_true_eq]; omega, at_j⟩

/-- The steps of a writer reach its keys, whatever the answers were. -/
theorem steps_within {ok : Bytes → Prop} {name : String} {db : Nat} {args : List Resp} {keys : List Bytes}
    (allowed : ∀ key ∈ keys, ok key) (fuel : Nat) (seen : List Answer) :
    (fx.steps name db args keys fuel seen).Within ok := by
  have at_i : ∀ {i : Nat} {key : Bytes}, keys[i]? = some key → ok key := fun found =>
    allowed _ (List.mem_of_getElem? found)
  induction fuel generalizing db seen with
  | zero => exact trivial
  | succ fuel ih =>
    unfold steps
    split
    · exact trivial
    · split
      · exact trivial
      · rename_i key found
        exact ⟨at_i found, fun c => ih _⟩
    · split
      · exact trivial
      · rename_i key found
        refine ⟨fun x mem => ?_, fun a => ih _⟩
        rw [KeyOp.keys_on, Set.mem_singleton_iff] at mem
        exact mem ▸ at_i found
    · split
      · rename_i src dst first second
        refine ⟨fun x mem => ?_, fun a => ih _⟩
        rcases mem with rfl | rfl
        · exact at_i first
        · exact at_i second
      · exact trivial
    · split
      · rename_i src dst first second
        refine ⟨fun x mem => ?_, fun a => ih _⟩
        rcases mem with rfl | rfl
        · exact at_i first
        · exact at_i second
      · exact trivial

/-- The writes of one way of reading keys. -/
theorem writer_takes (name : String) (p : KeyParser) : Takes p.span (fx.writer name p) := by
  intro _ ok db args allows
  unfold writer
  split
  · exact trivial
  · split
    · exact trivial
    · rename_i keys parsed
      exact steps_within ((keys_finds p).allowed allows parsed) _ _

/-- The positions of a handler that writes. -/
def span (name : String) : Span := (writeParsers.lookup name).elim .sweep KeyParser.span

/-- The handler of a write, by its name. -/
theorem write_takes (name : String) : Takes (span name) (fx.write name) := by
  unfold span write
  split
  · rename_i p found
    rw [found]
    exact writer_takes name p
  · rename_i missing
    rw [missing]
    exact takes_sweep _

end Effects

/-! ## The rest of the readers -/

section
variable {env : Env} {fx : Effects} {ok : Bytes → Prop} {db : Nat} {args : List Resp}

/-- LCS reads two keys. -/
@[simp] theorem cmdLcs_takes : Takes (.only [1, 2]) (cmdLcs env) := by
  refine someKeys_takes fun args found h key mem => ?_
  obtain ⟨a, there, text⟩ := mem_parseKeys h mem
  obtain ⟨n, inside, rfl⟩ := List.mem_iff_getElem.1 there
  rw [List.getElem_take, List.getElem_drop] at text
  rw [List.length_take, List.length_drop] at inside
  refine ⟨1 + n, ?_, ?_⟩
  · have : n = 0 ∨ n = 1 := by omega
    rcases this with rfl | rfl <;> rfl
  · simp [getBytesVec, List.getElem?_eq_getElem (show 1 + n < args.length by omega), text]

@[simp] theorem cmdPfcount_takes : Takes (.behind 1) (cmdPfcount env) := someKeys_takes (Span.finds_drop 1)

@[simp] theorem cmdSentinel_takes : Takes (.only []) cmdSentinel := fun _ _ _ _ _ => trivial

@[simp] theorem cmdObject_takes : Takes (.only [2]) (cmdObject env) := by
  intro _ ok db args allows
  apply checked_within
  split
  · rename_i sub key _ second
    split
    · exact ⟨allows 2 key rfl second, fun c => trivial⟩
    · exact trivial
  · exact trivial

@[simp] theorem cmdXinfo_takes : Takes (.only [2]) (cmdXinfo env) := by
  intro _ ok db args allows
  apply checked_within
  split
  · exact trivial
  · split
    · extract_lets least
      split
      · exact trivial
      · split
        · exact trivial
        · rename_i key second
          exact ⟨allows 2 key rfl second, fun c => trivial⟩
    · exact trivial

/-- GEOSEARCH looks at one key. -/
theorem geosearchIn_within {key : Bytes} (allowed : ok key) (seen : List (Option Content)) :
    (geosearchIn env db args key seen).Within ok := by
  unfold geosearchIn
  split
  · exact trivial
  · exact ⟨allowed, fun c => trivial⟩

@[simp] theorem cmdGeosearch_takes : Takes (.only [1]) (cmdGeosearch env) := by
  intro _ ok db args allows
  unfold cmdGeosearch
  split
  · exact trivial
  · split
    · exact trivial
    · rename_i key text
      have allowed : ok key := allows 1 key rfl (textAt_getBytesVec text)
      split
      · rw [Handler.within_lookup]
        refine ⟨allowed, fun c => ?_⟩
        split
        · exact trivial
        · exact geosearchIn_within allowed _
      · exact geosearchIn_within allowed _

/-- Each subcommand of BITFIELD reaches the key of the command. -/
theorem bitfieldLoop_within {key : Bytes} (first : getBytesVec args 1 = some key) (allowed : ok key) (fuel i : Nat)
    (seen : List (Option Content)) :
    (bitfieldLoop (env.withWriters fx) db args key fuel i seen).Within ok := by
  induction fuel generalizing i seen with
  | zero => exact trivial
  | succ fuel ih =>
    unfold bitfieldLoop
    split
    · exact trivial
    split
    · exact trivial
    split
    · split
      · exact trivial
      · exact ih _ _
    split
    · split
      · exact trivial
      · rw [Handler.within_lookup]
        refine ⟨allowed, fun c => ?_⟩
        split
        · exact trivial
        · exact ih _ _
    split
    · split
      · exact trivial
      split
      · exact trivial
      rw [Handler.within_lookup]
      refine ⟨allowed, fun c => ?_⟩
      split
      · exact trivial
      split
      · exact ih _ _
      · rename_i op written
        -- The operation of SET and INCRBY is one on this key.
        obtain ⟨k, at_k, onKey⟩ := Option.bind_eq_some_iff.1 written
        obtain ⟨kind, -, rfl⟩ := Option.map_eq_some_iff.1 onKey
        obtain rfl : key = k := Option.some.inj (first.symm.trans at_k)
        rw [Handler.within_call]
        refine ⟨fun x mem => ?_, fun a => ih _ _⟩
        rw [KeyOp.keys_on, Set.mem_singleton_iff] at mem
        exact mem ▸ allowed
    · exact ih _ _

@[simp] theorem cmdBitfield_takes : Takes (.only [1]) (cmdBitfield (env.withWriters fx)) := by
  intro _ ok db args allows
  unfold cmdBitfield
  split
  · exact trivial
  · split
    · exact trivial
    · rename_i key first
      exact bitfieldLoop_within first (allows 1 key rfl first) _ _ _

@[simp] theorem cmdBitfieldRo_takes : Takes (.only [1]) (cmdBitfieldRo (env.withWriters fx)) := by
  intro ne ok db args allows
  unfold cmdBitfieldRo
  split
  · exact trivial
  · split
    · exact trivial
    · exact cmdBitfield_takes ne ok db args allows

/-- The options of XREAD are read forwards. -/
theorem le_xreadOptions {fuel i j : Nat} {block block' : Bool}
    (h : xreadOptions env args fuel i block = .ok (j, block')) : i ≤ j := by
  fun_induction xreadOptions env args fuel i block <;> simp_all <;> omega

/-- A blocked XREAD looks at the same keys in every round. -/
theorem xreadRounds_within {keys : List Bytes} (allowed : ∀ key ∈ keys, ok key) (rounds : Nat) :
    (xreadRounds env db args keys rounds).Within ok := by
  induction rounds with
  | zero => exact trivial
  | succ rounds ih =>
    refine lookupAll_within (fun seen => ?_) keys allowed []
    split
    · exact trivial
    · exact ih

@[simp] theorem cmdXread_takes : Takes (.behind 1) (cmdXread env) := by
  intro _ ok db args allows
  unfold cmdXread
  split
  · exact trivial
  · split
    · exact trivial
    · rename_i i block options
      dsimp only
      split
      · exact trivial
      · split
        · exact trivial
        · exact trivial
        · rename_i keys parsed _
          have allowed : ∀ key ∈ keys, ok key := by
            intro key mem
            obtain ⟨a, there, text⟩ := mem_parseKeys parsed mem
            obtain ⟨j, le, at_j⟩ := position_of_mem_drop (List.take_subset _ _ there) text
            have := le_xreadOptions options
            exact allows j key (by simp only [Span.has, decide_eq_true_eq]; omega) at_j
          refine lookupAll_within (fun seen => ?_) keys allowed []
          split
          · exact trivial
          · exact xreadRounds_within allowed _

end

end NexradeCache
