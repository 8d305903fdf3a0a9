import NexradeCache.Command.Phantoms

/-!
# Scores that are no numbers

The parser of scores refuses NaN, but ZADD INCR, ZINCRBY, ZUNIONSTORE and ZINTERSTORE store what they
compute. An infinity less an infinity and zero times an infinity are NaN, and no handler looks.
`ScoreCommand.Defined` says of a command, its arguments and the keyspace it meets that no result comes
from one of the two; then all scores stay numbers (`scores_are_numbers`).
-/

namespace NexradeCache.Collections

open NexradeCache F64

/-! ## The commands -/

/-- The commands that write scores. -/
inductive ScoreCommand where
  | zadd | zincrby | zunionstore | zinterstore | zdiffstore | zrangestore

/-- One of these commands, or a key that expires or is evicted. -/
inductive ScoreEvent where
  | command (c : ScoreCommand) (r : Request)
  /-- Eviction, and the deletion of what has expired. -/
  | gone (key : Bytes)

section
variable (m : Machine)

/-- Their handlers. -/
def ScoreCommand.run : ScoreCommand → Write
  | .zadd => cmdZadd m
  | .zincrby => cmdZincrby m
  | .zunionstore => cmdZunionstore m
  | .zinterstore => cmdZinterstore m
  | .zdiffstore => cmdZdiffstore
  | .zrangestore => cmdZrangestore m

/-- What an event does to a database. -/
def ScoreEvent.step : ScoreEvent → Space → Space
  | .command c r, s => c.run m r s
  | .gone key, s => s.erase key

/-! ## When a result is defined -/

/-- The operations on doubles: NaN comes from NaN, from opposite infinities and from zero times an infinity, and
`min` and `max` prefer a number. -/
structure Machine.Arithmetic : Prop where
  add : ∀ a b, (m.add a b).isNaN = true → a.isNaN = true ∨ b.isNaN = true ∨ Opposed a b
  mul : ∀ a b, (m.mul a b).isNaN = true → a.isNaN = true ∨ b.isNaN = true ∨ Indefinite a b
  min : ∀ a b, (m.min a b).isNaN = true → a.isNaN = true ∧ b.isNaN = true
  max : ∀ a b, (m.max a b).isNaN = true → a.isNaN = true ∧ b.isNaN = true

/-- A score and the weight of its key. -/
abbrev Term := F64 × F64

/-- No term is zero times an infinity, and none is an infinity opposite to the sum so far. -/
def SumDefined : (acc : F64) → List Term → Prop
  | _, [] => True
  | acc, t :: ts => ¬Indefinite t.1 t.2 ∧ ¬Opposed acc (m.mul t.1 t.2) ∧ SumDefined (m.add acc (m.mul t.1 t.2)) ts

/-- What the terms of a member come to is defined; of undefined terms MIN and MAX keep the others. -/
def TermsDefined (agg : Aggregate) : List Term → Prop
  | [] => True
  | t :: ts => match agg with
    | .sum => ¬Indefinite t.1 t.2 ∧ SumDefined m (m.mul t.1 t.2) ts
    | .min | .max => ∃ u ∈ t :: ts, ¬Indefinite u.1 u.2

/-- The scores of a member in the sorted sets of the keys. -/
def terms (now : Nat) (s : Space) (member : Bytes) (keys : List (Bytes × F64)) : List Term :=
  keys.filterMap fun k => (((zpairs now s k.1).getD []).lookup member).map (·, k.2)

/-- The score a member has, zero if it has none. -/
def scoreOf (now : Nat) (s : Space) (key member : Bytes) : F64 :=
  (((zpairs now s key).getD []).lookup member).getD ⟨0⟩

variable (r : Request) (s : Space)

/-- With INCR: the increment is no infinity opposite to the score. -/
def ZaddDefined : Prop := ∀ key flags rest, 4 ≤ r.args.length → getBytesVec r.args 1 = some key →
  zaddFlags m (r.args.drop 2) {} = some (flags, rest) → flags.refuse rest = false → flags.incr = true →
  ∀ e, some e ∈ pairs (scorePair m) rest → ¬Opposed (scoreOf r.now s key e.1) e.2

/-- ZINCRBY adds no two infinities of opposite sign. -/
def ZincrbyDefined : Prop := ∀ key delta member, r.args.length = 4 → getBytesVec r.args 1 = some key →
  (r.args[2]?).bind (parseScore m) = some delta → getBytesVec r.args 3 = some member →
  ¬Opposed (scoreOf r.now s key member) delta

/-- The products and sums of ZUNIONSTORE are all defined. -/
def ZunionDefined : Prop := ∀ keys rest weights agg, 4 ≤ r.args.length → (getBytesVec r.args 1).isSome →
  keysFrom r.args 2 = some (keys, rest) → parseAggregateWeights m keys.length rest = some (weights, agg) →
  ∀ member, TermsDefined m agg (terms r.now s member (keys.zip weights))

/-- Only a member of all the sorted sets is stored. -/
def ZinterDefined : Prop := ∀ keys rest weights agg, 4 ≤ r.args.length → (getBytesVec r.args 1).isSome →
  keysFrom r.args 2 = some (keys, rest) → parseAggregateWeights m keys.length rest = some (weights, agg) →
  ∀ member, (∀ key ∈ keys, ∃ l, zpairs r.now s key = some l ∧ (l.lookup member).isSome) →
    TermsDefined m agg (terms r.now s member (keys.zip weights))

/-- No score that the command stores is an infinity less an infinity or zero times an infinity. -/
def ScoreCommand.Defined : ScoreCommand → Prop
  | .zadd => ZaddDefined m r s
  | .zincrby => ZincrbyDefined m r s
  | .zunionstore => ZunionDefined m r s
  | .zinterstore => ZinterDefined m r s
  | .zdiffstore | .zrangestore => True

end

/-- The condition of an event in the keyspace it meets. -/
def ScoreEvent.Defined (m : Machine) : ScoreEvent → Space → Prop
  | .command c r, s => c.Defined m r s
  | .gone _, _ => True

/-! ## Pairs whose scores are numbers -/

/-- Every member once, and with a number. -/
structure Numbered (l : List (Bytes × F64)) : Prop where
  nodup : (l.map Prod.fst).Nodup
  number : ∀ e ∈ l, e.2.isNaN = false

theorem lookup_put {β : Type} (e : Bytes × β) (l : List (Bytes × β)) (k : Bytes) :
    (put e l).lookup k = if k = e.1 then some e.2 else l.lookup k := by
  obtain ⟨x, v⟩ := e
  rw [put, List.lookup_cons]
  by_cases same : k = x
  · rw [if_pos same]
    simp [same]
  · have other : (k == x) = false := by simpa using same
    rw [other, if_neg same]
    dsimp only
    induction l with
    | nil => rfl
    | cons f l ih =>
      obtain ⟨y, w⟩ := f
      by_cases gone : y = x
      · have apart : (k == y) = false := by simpa [gone] using same
        rw [List.filter_cons_of_neg (by simpa using gone), ih, List.lookup_cons, apart]
      · rw [List.filter_cons_of_pos (by simpa using gone), List.lookup_cons, List.lookup_cons, ih]

theorem nodup_put {β : Type} {l : List (Bytes × β)} (nodup : (l.map Prod.fst).Nodup) (e : Bytes × β) :
    ((put e l).map Prod.fst).Nodup := by
  rw [put, List.map_cons, List.nodup_cons]
  refine ⟨fun mem => ?_, nodup.sublist (List.filter_sublist.map Prod.fst)⟩
  obtain ⟨x, inside, same⟩ := List.mem_map.1 mem
  exact absurd same (by simpa using (List.mem_filter.1 inside).2)

namespace Numbered

variable {l l' : List (Bytes × F64)}

theorem nil : Numbered [] := ⟨.nil, nofun⟩

theorem subperm (numbered : Numbered l) (inside : l'.Subperm l) : Numbered l' where
  nodup := by
    obtain ⟨part, perm, sub⟩ := inside
    exact (perm.map Prod.fst).nodup_iff.1 (numbered.nodup.sublist (sub.map Prod.fst))
  number e mem := numbered.number e (inside.subset mem)

theorem sublist (numbered : Numbered l) (inside : l'.Sublist l) : Numbered l' := numbered.subperm inside.subperm

theorem put (numbered : Numbered l) {e : Bytes × F64} (number : e.2.isNaN = false) : Numbered (put e l) where
  nodup := nodup_put numbered.nodup e
  number x mem := by
    rcases List.mem_cons.1 mem with rfl | mem
    · exact number
    · exact numbered.number x (List.mem_of_mem_filter mem)

theorem of_lookup (numbered : Numbered l) {k : Bytes} {v : F64} (found : l.lookup k = some v) : v.isNaN = false :=
  numbered.number _ (((ListsMap.of_nodup numbered.nodup).mem _ _).2 found)

end Numbered

/-- All sorted sets of a keyspace have numbers only. -/
def Numeric (s : Space) : Prop := ∀ key e l, s.lookup key = some e → zsets.contents e.value = some l → Numbered l

namespace Numeric

variable {s : Space} {key : Bytes} {now : Nat}

theorem empty : Numeric ∅ := by
  intro key e l found
  simp at found

theorem erase (numeric : Numeric s) : Numeric (s.erase key) := by
  intro k e l found
  by_cases same : k = key
  · subst same
    simp at found
  · rw [AList.lookup_erase_ne same] at found
    exact numeric k e l found

theorem insert (numeric : Numeric s) {l : List (Bytes × F64)} {deadline : Option Nat} (numbered : Numbered l) :
    Numeric (s.insert key ⟨zsets.wrap l, deadline⟩) := by
  intro k e l' found is
  by_cases same : k = key
  · subst same
    rw [AList.lookup_insert, Option.some_inj] at found
    subst found
    obtain rfl : l = l' := Option.some_inj.1 is
    exact numbered
  · rw [AList.lookup_insert_ne same] at found
    exact numeric k e l' found is

theorem zpairs (numeric : Numeric s) {l : List (Bytes × F64)} (found : zpairs now s key = some l) : Numbered l := by
  obtain ⟨e, there, is⟩ := Option.bind_eq_some_iff.1 found
  exact numeric key e l (Option.filter_eq_some_iff.1 there).1 is

/-- The pairs of a key, none if it holds no sorted set. -/
theorem pairs_of (numeric : Numeric s) (now : Nat) (key : Bytes) : Numbered ((Collections.zpairs now s key).getD []) := by
  cases found : Collections.zpairs now s key with
  | none => exact .nil
  | some l => exact numeric.zpairs found

/-- A handler that gets at the sorted set or creates it. -/
theorem getOrCreate (numeric : Numeric s) {f : List (Bytes × F64) → List (Bytes × F64)}
    (keeps : Numbered (f ((Collections.zpairs now s key).getD []))) :
    Numeric (Collections.getOrCreate zsets now key f s) := by
  unfold Collections.getOrCreate
  split
  · rename_i absent
    rw [Collections.zpairs, absent, Option.bind_none, Option.getD_none] at keeps
    exact numeric.insert keeps
  · rename_i e found
    split
    · exact numeric
    · rename_i l is
      rw [Collections.zpairs, found, Option.bind_some, is, Option.getD_some] at keeps
      exact numeric.insert keeps

theorem store (numeric : Numeric s) {l : List (Bytes × F64)} (numbered : Numbered l) :
    Numeric (Collections.store zsets key l s) :=
  numeric.insert numbered

end Numeric

/-- A command that is refused for its arguments changes nothing. -/
theorem keyed_numeric {arity : Arity} {body : Bytes → Write} {r : Request} {s : Space} (numeric : Numeric s)
    (accepted : ∀ key, arity.accepts r.args.length = true → getBytesVec r.args 1 = some key → Numeric (body key r s)) :
    Numeric (keyed arity body r s) := by
  unfold keyed
  split
  · exact numeric
  · rename_i long
    split
    · exact numeric
    · rename_i key is
      exact accepted key (by simpa using long) is

/-! ## ZADD and ZINCRBY -/

section
variable {m : Machine} {r : Request} {s : Space}

theorem parseScore_number {a : Resp} {score : F64} (is : parseScore m a = some score) : score.isNaN = false := by
  obtain ⟨⟨v, excl⟩, parsed, rfl⟩ := Option.map_eq_some_iff.1 is
  obtain ⟨text, -, parsed⟩ := Option.bind_eq_some_iff.1 parsed
  unfold parseScoreBound at parsed
  simp only at parsed
  split at parsed
  · cases parsed
  · split at parsed
    · cases parsed
    · rename_i number
      cases parsed
      simpa using number

theorem scorePair_number {a b : Resp} {e : Bytes × F64} (is : scorePair m a b = some e) : e.2.isNaN = false := by
  unfold scorePair at is
  split at is
  · rename_i score member parsed _
    cases is
    exact parseScore_number parsed
  · cases is

/-- A pair of the arguments comes from two of them. -/
theorem mem_pairs {β : Type} {f : Resp → Resp → Option β} {rest : List Resp} {x : β} (mem : some x ∈ pairs f rest) :
    ∃ a b, f a b = some x := by
  induction rest using pairs.induct with
  | case1 a b rest ih =>
    rw [pairs] at mem
    rcases List.mem_cons.1 mem with is | mem
    · exact ⟨a, b, is.symm⟩
    · exact ih mem
  | case2 rest short =>
    rw [pairs.eq_2 _ _ short] at mem
    cases mem

/-- ZADD of one pair writes its score or leaves the old one. -/
theorem zaddOne_numbered {flags : ZaddFlags} {e : Bytes × F64} {l : List (Bytes × F64)} (numbered : Numbered l)
    (number : e.2.isNaN = false) : Numbered (zaddOne flags e l) := by
  unfold zaddOne
  split
  · split
    · exact numbered
    · exact numbered.put number
  · split
    · exact numbered
    · exact numbered.put number

/-- An increment is a number unless it adds opposite infinities. -/
theorem zincr_numbered (arith : m.Arithmetic) {e : Bytes × F64} {l : List (Bytes × F64)} (numbered : Numbered l)
    (number : e.2.isNaN = false) (defined : ¬Opposed ((l.lookup e.1).getD ⟨0⟩) e.2) : Numbered (zincr m e l) := by
  have old : ((l.lookup e.1).getD ⟨0⟩).isNaN = false := by
    cases found : l.lookup e.1 with
    | none => decide
    | some v => exact numbered.of_lookup found
  refine numbered.put (Bool.eq_false_iff.2 fun nan => ?_)
  rcases arith.add _ _ nan with nan | nan | opposed
  · exact absurd nan (by simp [old])
  · exact absurd nan (by simp [number])
  · exact defined opposed

/-- A loop over pairs, up to the first that is refused. -/
theorem addAll_numbered {add : Bytes × F64 → List (Bytes × F64) → List (Bytes × F64)}
    {items : List (Option (Bytes × F64))} (keeps : ∀ e, some e ∈ items → ∀ l, Numbered l → Numbered (add e l))
    {l : List (Bytes × F64)} (numbered : Numbered l) : Numbered (addAll add items l) := by
  induction items generalizing l with
  | nil => exact numbered
  | cons item items ih =>
    cases item with
    | none => exact numbered
    | some e => exact ih (fun e' mem => keeps e' (.tail _ mem)) (keeps e (.head _) l numbered)

theorem pairs_of_two {β : Type} {f : Resp → Resp → Option β} {rest : List Resp} (two : rest.length = 2) :
    ∃ x, pairs f rest = [x] := by
  match rest, two with
  | [a, b], _ => exact ⟨f a b, rfl⟩

theorem cmdZadd_numeric (arith : m.Arithmetic) (numeric : Numeric s) (defined : ZaddDefined m r s) :
    Numeric (cmdZadd m r s) := by
  refine keyed_numeric numeric fun key long is => ?_
  split
  · exact numeric
  · rename_i flags rest parsed
    split
    · exact numeric
    · rename_i accepted
      have kept : flags.refuse rest = false := by
        cases refused : flags.refuse rest with
        | false => rfl
        | true => simp [refused] at accepted
      refine numeric.getOrCreate ?_
      cases incr : flags.incr with
      | true =>
        have two : rest.length = 2 := by
          simp only [ZaddFlags.refuse, incr, if_true, Bool.or_eq_false_iff] at kept
          simpa using kept.2
        obtain ⟨item, one⟩ := @pairs_of_two _ (scorePair m) rest two
        rw [if_pos rfl, one]
        cases item with
        | none => exact numeric.pairs_of _ _
        | some e =>
          have mem : some e ∈ pairs (scorePair m) rest := one ▸ List.mem_singleton_self _
          obtain ⟨a, b, pair⟩ := mem_pairs mem
          refine zincr_numbered arith (numeric.pairs_of _ _) (scorePair_number pair) ?_
          exact defined key flags rest (by simpa [Arity.accepts] using long) is parsed kept incr e mem
      | false =>
        refine addAll_numbered (fun e mem l numbered => ?_) (numeric.pairs_of _ _)
        obtain ⟨a, b, pair⟩ := mem_pairs mem
        exact zaddOne_numbered numbered (scorePair_number pair)

theorem cmdZincrby_numeric (arith : m.Arithmetic) (numeric : Numeric s) (defined : ZincrbyDefined m r s) :
    Numeric (cmdZincrby m r s) := by
  refine keyed_numeric numeric fun key long is => ?_
  split
  · rename_i delta member parsed named
    refine numeric.getOrCreate (zincr_numbered arith (numeric.pairs_of _ _) ?_ ?_)
    · obtain ⟨a, -, parsed⟩ := Option.bind_eq_some_iff.1 parsed
      exact parseScore_number parsed
    · exact defined key delta member (by simpa [Arity.accepts] using long) is parsed named
  · exact numeric

end

/-! ## ZUNIONSTORE and ZINTERSTORE -/

section
variable {m : Machine} {agg : Aggregate} {now : Nat} {s : Space}

/-- What the terms of a member come to, behind what there was. -/
def aggregated (m : Machine) (agg : Aggregate) : (acc : Option F64) → List Term → Option F64
  | acc, [] => acc
  | acc, t :: ts => aggregated m agg (some (applyAggregate m agg acc (m.mul t.1 t.2))) ts

theorem aggregated_append (acc : Option F64) (ts us : List Term) :
    aggregated m agg acc (ts ++ us) = aggregated m agg (aggregated m agg acc ts) us := by
  induction ts generalizing acc with
  | nil => rfl
  | cons t ts ih => exact ih _

/-- The operands of the terms are numbers. -/
def Operands (ts : List Term) : Prop := ∀ t ∈ ts, t.1.isNaN = false ∧ t.2.isNaN = false

/-- A product is a number unless it is zero times infinity. -/
theorem Machine.Arithmetic.mul_number (arith : m.Arithmetic) {a b : F64} (left : a.isNaN = false)
    (right : b.isNaN = false) (defined : ¬Indefinite a b) : (m.mul a b).isNaN = false := by
  refine Bool.eq_false_iff.2 fun nan => ?_
  rcases arith.mul _ _ nan with nan | nan | indefinite
  · simp [left] at nan
  · simp [right] at nan
  · exact defined indefinite

/-- A sum is one unless it adds opposite infinities. -/
theorem Machine.Arithmetic.add_number (arith : m.Arithmetic) {a b : F64} (left : a.isNaN = false)
    (right : b.isNaN = false) (defined : ¬Opposed a b) : (m.add a b).isNaN = false := by
  refine Bool.eq_false_iff.2 fun nan => ?_
  rcases arith.add _ _ nan with nan | nan | opposed
  · simp [left] at nan
  · simp [right] at nan
  · exact defined opposed

/-- A sum of products is a number if every product and every partial sum is defined. -/
theorem sum_number (arith : m.Arithmetic) {ts : List Term} (operands : Operands ts) {acc x : F64}
    (number : acc.isNaN = false) (defined : SumDefined m acc ts) (is : aggregated m .sum (some acc) ts = some x) :
    x.isNaN = false := by
  induction ts generalizing acc with
  | nil =>
    obtain rfl : acc = x := Option.some_inj.1 is
    exact number
  | cons t ts ih =>
    obtain ⟨definite, apart, rest⟩ := defined
    obtain ⟨score, weight⟩ := operands t (.head _)
    have product := arith.mul_number score weight definite
    exact ih (fun u mem => operands u (.tail _ mem)) (arith.add_number number product apart) rest is

theorem extreme_number (arith : m.Arithmetic) (extreme : agg = .min ∨ agg = .max) {ts : List Term}
    (operands : Operands ts) {acc x : F64} (sound : acc.isNaN = false ∨ ∃ t ∈ ts, ¬Indefinite t.1 t.2)
    (is : aggregated m agg (some acc) ts = some x) : x.isNaN = false := by
  induction ts generalizing acc with
  | nil =>
    obtain rfl : acc = x := Option.some_inj.1 is
    rcases sound with number | ⟨t, mem, -⟩
    · exact number
    · cases mem
  | cons t ts ih =>
    refine ih (fun u mem => operands u (.tail _ mem)) ?_ is
    have keeps {b : F64} (one : acc.isNaN = false ∨ b.isNaN = false) :
        (applyAggregate m agg (some acc) b).isNaN = false := by
      refine Bool.eq_false_iff.2 fun nan => ?_
      have both : acc.isNaN = true ∧ b.isNaN = true := by
        rcases extreme with rfl | rfl
        · exact arith.min _ _ nan
        · exact arith.max _ _ nan
      rcases one with one | one <;> simp [both] at one
    rcases sound with number | ⟨u, mem, definite⟩
    · exact .inl (keeps (.inl number))
    · rcases List.mem_cons.1 mem with rfl | mem
      · obtain ⟨score, weight⟩ := operands u (.head _)
        exact .inl (keeps (.inr (arith.mul_number score weight definite)))
      · exact .inr ⟨u, mem, definite⟩

/-- **Defined terms come to a number.** -/
theorem aggregated_number (arith : m.Arithmetic) {ts : List Term} (operands : Operands ts)
    (defined : TermsDefined m agg ts) {x : F64} (is : aggregated m agg none ts = some x) : x.isNaN = false := by
  cases ts with
  | nil => cases is
  | cons t ts =>
    obtain ⟨score, weight⟩ := operands t (.head _)
    have rest : Operands ts := fun u mem => operands u (.tail _ mem)
    have first : applyAggregate m agg none (m.mul t.1 t.2) = m.mul t.1 t.2 := rfl
    rw [aggregated, first] at is
    have extreme (either : agg = .min ∨ agg = .max) (sound : ∃ u ∈ t :: ts, ¬Indefinite u.1 u.2) : x.isNaN = false := by
      refine extreme_number arith either rest ?_ is
      obtain ⟨u, mem, definite⟩ := sound
      rcases List.mem_cons.1 mem with rfl | mem
      · exact .inl (arith.mul_number score weight definite)
      · exact .inr ⟨u, mem, definite⟩
    cases agg with
    | sum => exact sum_number arith rest (arith.mul_number score weight defined.1) defined.2 is
    | min => exact extreme (.inl rfl) defined
    | max => exact extreme (.inr rfl) defined

/-- The sorted set of one key put into the union. -/
theorem union_lookup {w : F64} {l result : List (Bytes × F64)} (nodup : (l.map Prod.fst).Nodup) (member : Bytes) :
    (l.foldl (fun result e => put (e.1, applyAggregate m agg (result.lookup e.1) (m.mul e.2 w)) result) result).lookup member =
      aggregated m agg (result.lookup member) ((l.lookup member).map fun x => (x, w)).toList := by
  induction l generalizing result with
  | nil => rfl
  | cons e l ih =>
    obtain ⟨k, v⟩ := e
    rw [List.map_cons, List.nodup_cons] at nodup
    rw [List.foldl_cons, ih nodup.2, lookup_put, List.lookup_cons]
    by_cases same : member = k
    · subst same
      have absent : l.lookup member = none := by
        rw [List.lookup_eq_none_iff]
        intro p mem
        have apart : member ≠ p.1 := fun same => nodup.1 (List.mem_map.2 ⟨p, mem, same.symm⟩)
        simpa using apart
      simp [absent, aggregated]
    · have other : (member == k) = false := by simpa using same
      rw [if_neg same, other]

theorem union_nodup {w : F64} {l result : List (Bytes × F64)} (nodup : (result.map Prod.fst).Nodup) :
    ((l.foldl (fun result e => put (e.1, applyAggregate m agg (result.lookup e.1) (m.mul e.2 w)) result)
      result).map Prod.fst).Nodup := by
  induction l generalizing result with
  | nil => exact nodup
  | cons e l ih =>
    exact ih (nodup_put nodup _)

theorem terms_cons (member : Bytes) (k : Bytes × F64) (keys : List (Bytes × F64)) :
    terms now s member (k :: keys) =
      ((((zpairs now s k.1).getD []).lookup member).map fun x => (x, k.2)).toList ++ terms now s member keys := by
  rw [terms, terms, List.filterMap_cons]
  cases ((zpairs now s k.1).getD []).lookup member <;> rfl

/-- **A score of the union** comes from the terms of its member. -/
theorem computeZunionResult_lookup (numeric : Numeric s) (keys : List (Bytes × F64)) {result : List (Bytes × F64)}
    (nodup : (result.map Prod.fst).Nodup) :
    ((computeZunionResult m now s agg keys result).map Prod.fst).Nodup ∧
      ∀ member, (computeZunionResult m now s agg keys result).lookup member =
        aggregated m agg (result.lookup member) (terms now s member keys) := by
  induction keys generalizing result with
  | nil => exact ⟨nodup, fun member => rfl⟩
  | cons k keys ih =>
    obtain ⟨key, w⟩ := k
    obtain ⟨once, scores⟩ := ih (union_nodup nodup)
    refine ⟨once, fun member => ?_⟩
    rw [computeZunionResult, scores, union_lookup (numeric.pairs_of now key).nodup, terms_cons, aggregated_append]

theorem terms_operands (numeric : Numeric s) {member : Bytes} {keys : List (Bytes × F64)}
    (weights : ∀ k ∈ keys, k.2.isNaN = false) : Operands (terms now s member keys) := by
  intro t mem
  obtain ⟨k, inside, is⟩ := List.mem_filterMap.1 mem
  obtain ⟨x, found, rfl⟩ := Option.map_eq_some_iff.1 is
  exact ⟨(numeric.pairs_of now k.1).of_lookup found, weights k inside⟩

/-- **A union with weights has no score that is no number**, if each member's aggregate is defined. -/
theorem computeZunionResult_numbered (arith : m.Arithmetic) (numeric : Numeric s) {keys : List (Bytes × F64)}
    (weights : ∀ k ∈ keys, k.2.isNaN = false) (defined : ∀ member, TermsDefined m agg (terms now s member keys)) :
    Numbered (computeZunionResult m now s agg keys []) := by
  obtain ⟨once, scores⟩ := @computeZunionResult_lookup m agg now s numeric keys [] List.nodup_nil
  refine ⟨once, fun e mem => ?_⟩
  have found := ((ListsMap.of_nodup once).mem _ _).1 mem
  rw [scores] at found
  exact aggregated_number arith (terms_operands numeric weights) (defined e.1) found

theorem combined_eq {member : Bytes} {acc x : F64} (keys : List Bytes) (weights : List F64)
    (is : combined m agg member acc ((keys.map fun key => (zpairs now s key).getD []).zip weights) = some x) :
    aggregated m agg (some acc) (terms now s member (keys.zip weights)) = some x := by
  induction keys generalizing acc weights with
  | nil => exact is
  | cons key keys ih =>
    cases weights with
    | nil => exact is
    | cons w weights =>
      rw [List.map_cons, List.zip_cons_cons, combined] at is
      rw [List.zip_cons_cons, terms_cons, aggregated_append]
      cases found : ((zpairs now s key).getD []).lookup member with
      | none =>
        rw [found] at is
        cases is
      | some score =>
        rw [found] at is
        exact ih weights is

/-- The sources of an intersection are all there. -/
theorem zsources_eq {keys : List Bytes} {sources : List (List (Bytes × F64))}
    (is : zsources now s keys = some (some sources)) :
    (sources = keys.map fun key => (zpairs now s key).getD []) ∧ ∀ key ∈ keys, ∃ l, zpairs now s key = some l := by
  induction keys generalizing sources with
  | nil =>
    obtain rfl : [] = sources := by simpa [zsources] using is
    exact ⟨rfl, fun _ mem => absurd mem List.not_mem_nil⟩
  | cons key keys ih =>
    rw [zsources] at is
    split at is
    · cases is
    · rename_i e there
      split at is
      · cases is
      · rename_i l contents
        have found : zpairs now s key = some l := by rw [zpairs, there, Option.bind_some, contents]
        obtain ⟨rest, behind, same⟩ := Option.map_eq_some_iff.1 is
        cases rest with
        | none => cases same
        | some rest =>
          obtain rfl : l :: rest = sources := Option.some_inj.1 same
          obtain ⟨rfl, others⟩ := ih behind
          exact ⟨by rw [List.map_cons, found, Option.getD_some], List.forall_mem_cons.2 ⟨⟨l, found⟩, others⟩⟩

/-- A score is combined only for a member of all the sorted sets. -/
theorem combined_inside {member : Bytes} {acc x : F64} {rest : List (List (Bytes × F64) × F64)}
    (is : combined m agg member acc rest = some x) : ∀ p ∈ rest, (p.1.lookup member).isSome := by
  induction rest generalizing acc with
  | nil => nofun
  | cons p rest ih =>
    rw [combined] at is
    split at is
    · cases is
    · rename_i score found
      exact List.forall_mem_cons.2 ⟨by rw [found]; rfl, ih is⟩

/-- **Nor has an intersection**, under the same condition on its members. -/
theorem computeZinterResult_numbered (arith : m.Arithmetic) (numeric : Numeric s) {keys : List Bytes}
    {weights : List F64} (long : weights.length = keys.length) (numbers : ∀ w ∈ weights, w.isNaN = false)
    (defined : ∀ member, (∀ key ∈ keys, ∃ l, zpairs now s key = some l ∧ (l.lookup member).isSome) →
      TermsDefined m agg (terms now s member (keys.zip weights)))
    {result : List (Bytes × F64)} (is : computeZinterResult m now s keys weights agg = some result) :
    Numbered result := by
  obtain ⟨sources, found, is⟩ := Option.map_eq_some_iff.1 is
  cases sources with
  | none =>
    obtain rfl : [] = result := is
    exact .nil
  | some sources =>
    obtain ⟨rfl, there⟩ := zsources_eq found
    rw [Option.map_some] at is
    cases keys with
    | nil =>
      obtain rfl : [] = result := is
      exact .nil
    | cons key keys =>
      cases weights with
      | nil => cases long
      | cons w weights =>
        rw [List.map_cons, List.zip_cons_cons] at is
        dsimp only at is
        obtain ⟨first, isFirst⟩ := there key (.head _)
        rw [isFirst, Option.getD_some] at is
        have numbered : Numbered first := numeric.zpairs isFirst
        subst is
        refine ⟨?_, fun e mem => ?_⟩
        · have members : ∀ l : List (Bytes × F64), ((l.filterMap fun e => (combined m agg e.1 (m.mul e.2 w)
              ((keys.map fun key => (zpairs now s key).getD []).zip weights)).map fun acc => (e.1, acc)).map
                Prod.fst).Sublist (l.map Prod.fst) := by
            intro l
            induction l with
            | nil => exact .slnil
            | cons e l ih =>
              rw [List.filterMap_cons, List.map_cons]
              split
              · exact ih.cons _
              · rename_i b stored
                obtain ⟨acc, -, rfl⟩ := Option.map_eq_some_iff.1 stored
                exact ih.cons_cons _
          exact numbered.nodup.sublist (members first)
        · obtain ⟨⟨member, score⟩, inFirst, stored⟩ := List.mem_filterMap.1 mem
          obtain ⟨x, combines, rfl⟩ := Option.map_eq_some_iff.1 stored
          have ofFirst : first.lookup member = some score := ((ListsMap.of_nodup numbered.nodup).mem _ _).1 inFirst
          have all : ∀ k ∈ key :: keys, ∃ l, zpairs now s k = some l ∧ (l.lookup member).isSome := by
            refine List.forall_mem_cons.2 ⟨⟨first, isFirst, by rw [ofFirst]; rfl⟩, fun k mem => ?_⟩
            obtain ⟨l, isL⟩ := there k (.tail _ mem)
            obtain ⟨i, inside, at_⟩ := List.mem_iff_getElem.1 mem
            have bound : i < weights.length := by
              simp only [List.length_cons, Nat.add_right_cancel_iff] at long
              omega
            refine ⟨l, isL, combined_inside combines (l, weights[i]) ?_⟩
            refine List.mem_iff_getElem.2 ⟨i, by simp [inside, bound], ?_⟩
            simp [at_, isL]
          have whole : aggregated m agg none (terms now s member ((key :: keys).zip (w :: weights))) = some x := by
            rw [List.zip_cons_cons, terms_cons, isFirst, Option.getD_some, ofFirst]
            exact combined_eq keys weights combines
          refine aggregated_number arith (terms_operands numeric fun k mem => ?_) (defined member all) whole
          exact numbers k.2 (List.of_mem_zip mem).2

end

section
variable {m : Machine} {r : Request} {s : Space}

theorem takeWeights_numbers {n : Nat} {rest rest' : List Resp} {ws : List F64}
    (is : takeWeights m n rest = some (ws, rest')) : ∀ w ∈ ws, w.isNaN = false := by
  induction n generalizing rest rest' ws with
  | zero =>
    cases is
    nofun
  | succ n ih =>
    cases rest with
    | nil => cases is
    | cons a rest =>
      rw [takeWeights] at is
      split at is
      · rename_i w ws' rest'' first others
        cases is
        exact List.forall_mem_cons.2 ⟨parseScore_number first, ih others⟩
      · cases is

theorem aggregateWeights_numbers {numKeys fuel : Nat} {rest : List Resp} {weights weights' : List F64}
    {agg agg' : Aggregate} (numbers : ∀ w ∈ weights, w.isNaN = false)
    (is : aggregateWeights m numKeys fuel rest weights agg = some (weights', agg')) :
    ∀ w ∈ weights', w.isNaN = false := by
  induction fuel generalizing rest weights agg with
  | zero =>
    cases rest with
    | nil =>
      cases is
      exact numbers
    | cons a rest => cases is
  | succ fuel ih =>
    cases rest with
    | nil =>
      cases is
      exact numbers
    | cons a rest =>
      rw [aggregateWeights] at is
      split at is
      · split at is
        · rename_i ws rest' taken
          exact ih (takeWeights_numbers taken) is
        · cases is
      · split at is
        · exact ih numbers is
        · exact ih numbers is
        · exact ih numbers is
        · cases is
      · cases is

/-- And the weights without an option are one. -/
theorem parseAggregateWeights_numbers {numKeys : Nat} {rest : List Resp} {weights : List F64} {agg : Aggregate}
    (is : parseAggregateWeights m numKeys rest = some (weights, agg)) : ∀ w ∈ weights, w.isNaN = false := by
  refine aggregateWeights_numbers (fun w mem => ?_) is
  rw [List.eq_of_mem_replicate mem]
  decide

theorem cmdZunionstore_numeric (arith : m.Arithmetic) (numeric : Numeric s) (defined : ZunionDefined m r s) :
    Numeric (cmdZunionstore m r s) := by
  refine keyed_numeric numeric fun dst long is => ?_
  split
  · exact numeric
  · rename_i keys rest parsed
    split
    · exact numeric
    · rename_i weights agg weighted
      refine numeric.store (computeZunionResult_numbered arith numeric (fun k mem => ?_) ?_)
      · exact parseAggregateWeights_numbers weighted k.2 (List.of_mem_zip mem).2
      · exact defined keys rest weights agg (by simpa [Arity.accepts] using long) (by rw [is]; rfl) parsed weighted

theorem cmdZinterstore_numeric (arith : m.Arithmetic) (numeric : Numeric s) (defined : ZinterDefined m r s) :
    Numeric (cmdZinterstore m r s) := by
  refine keyed_numeric numeric fun dst long is => ?_
  split
  · exact numeric
  · rename_i keys rest parsed
    split
    · exact numeric
    · rename_i weights agg weighted
      split
      · exact numeric
      · rename_i result found
        refine numeric.store (computeZinterResult_numbered arith numeric (parseAggregateWeights_length weighted)
          (parseAggregateWeights_numbers weighted) ?_ found)
        exact defined keys rest weights agg (by simpa [Arity.accepts] using long) (by rw [is]; rfl) parsed weighted

/-! ## ZDIFFSTORE and ZRANGESTORE -/

/-- ZDIFFSTORE takes the scores of its first key. -/
theorem cmdZdiffstore_numeric (numeric : Numeric s) : Numeric (cmdZdiffstore r s) := by
  refine keyed_numeric numeric fun dst long is => ?_
  split
  · rename_i keys parsed
    split
    · exact numeric
    · rename_i result found
      refine numeric.store ?_
      unfold computeZdiffResult at found
      split at found
      · cases found
        exact .nil
      · rename_i first rest
        split at found
        · cases found
          exact .nil
        · rename_i e there
          obtain ⟨l, contents, rfl⟩ := Option.map_eq_some_iff.1 found
          have isFirst : zpairs r.now s first = some l := by rw [zpairs, there, Option.bind_some, contents]
          exact (numeric.zpairs isFirst).sublist List.filter_sublist
  · exact numeric

theorem limited_subperm {l entries : List (Bytes × F64)} (inside : entries.Subperm l) (rev : Bool) (offset : Nat)
    (count : Option Nat) :
    (match count with
      | some n => ((if rev then entries.reverse else entries).drop offset).take n
      | none => (if rev then entries.reverse else entries).drop offset).Subperm l := by
  have turned : (if rev then entries.reverse else entries).Subperm l := by
    cases rev with
    | true => exact (List.reverse_perm entries).subperm.trans inside
    | false => exact inside
  have dropped := (List.drop_sublist offset (if rev then entries.reverse else entries)).subperm.trans turned
  cases count with
  | none => exact dropped
  | some n => exact (List.take_sublist n _).subperm.trans dropped

theorem rangeByRank_subperm {start stop : Int64} {rev : Bool} {l : List (Bytes × F64)} :
    (rangeByRank start stop rev l).Subperm l := by
  have sorted : (toPairsSorted l).Perm l := List.mergeSort_perm _ _
  have turned : (if rev then (toPairsSorted l).reverse else toPairsSorted l).Subperm l := by
    cases rev with
    | true => exact ((List.reverse_perm _).trans sorted).subperm
    | false => exact sorted.subperm
  unfold rangeByRank
  dsimp only
  generalize (if rev then (toPairsSorted l).reverse else toPairsSorted l) = entries at turned ⊢
  split
  · exact List.nil_subperm
  · exact ((List.drop_sublist _ _).trans (List.take_sublist _ _)).subperm.trans turned

theorem selected_subperm {opts : RangeOptions} {start stop : String} {l entries : List (Bytes × F64)}
    (is : selected m opts start stop l = some entries) : entries.Subperm l := by
  unfold selected at is
  split at is
  · split at is
    · cases is
      exact limited_subperm (List.filter_sublist.subperm.trans (List.mergeSort_perm _ _).subperm) _ _ _
    · cases is
  · split at is
    · cases is
      exact limited_subperm (List.filter_sublist.subperm.trans (List.mergeSort_perm _ _).subperm) _ _ _
    · split at is
      · cases is
        exact rangeByRank_subperm
      · cases is

/-- ZRANGESTORE stores a part of what is there. -/
theorem cmdZrangestore_numeric (numeric : Numeric s) : Numeric (cmdZrangestore m r s) := by
  refine keyed_numeric numeric fun dst long is => ?_
  split
  · split
    · exact numeric
    · split
      · exact numeric.store .nil
      · rename_i e there
        split
        · exact numeric
        · rename_i entries found
          obtain ⟨l, contents, is⟩ := Option.bind_eq_some_iff.1 found
          refine numeric.store (Numbered.subperm ?_ (selected_subperm is))
          exact numeric _ e l (Option.filter_eq_some_iff.1 there).1 contents
  · exact numeric

/-- **A defined command leaves numbers.** -/
theorem ScoreCommand.run_numeric (c : ScoreCommand) (arith : m.Arithmetic) (numeric : Numeric s)
    (defined : c.Defined m r s) : Numeric (c.run m r s) := by
  cases c with
  | zadd => exact cmdZadd_numeric arith numeric defined
  | zincrby => exact cmdZincrby_numeric arith numeric defined
  | zunionstore => exact cmdZunionstore_numeric arith numeric defined
  | zinterstore => exact cmdZinterstore_numeric arith numeric defined
  | zdiffstore => exact cmdZdiffstore_numeric numeric
  | zrangestore => exact cmdZrangestore_numeric numeric

/-- **Every event keeps all scores numbers.** -/
theorem ScoreEvent.step_numeric (arith : m.Arithmetic) (e : ScoreEvent) (numeric : Numeric s)
    (defined : e.Defined m s) : Numeric (e.step m s) := by
  cases e with
  | command c r => exact c.run_numeric arith numeric defined
  | gone key => exact numeric.erase

end

/-- **Scores are numbers.** In a run of commands that are defined where they meet the keyspace, every sorted set has
numbers only. A score that is read from an argument is one; what is computed is one unless a product or a sum of the
command is not defined there. -/
theorem scores_are_numbers (m : Machine) (arith : m.Arithmetic) (es : List ScoreEvent)
    (defined : Trace.Always (ScoreEvent.step m) (ScoreEvent.Defined m) es ∅) (key : Bytes) (e : Stored)
    (found : (Trace.run (ScoreEvent.step m) es ∅).lookup key = some e) (l : List (Bytes × F64))
    (holds : e.value = .zset l) : ∀ p ∈ l, p.2.isNaN = false := by
  have always := defined.of_invariant (P := fun _ _ => True) .empty
    (fun e s numeric ok => e.step_numeric arith numeric ok) fun _ _ _ _ => trivial
  exact (always.2 key e l found (by rw [holds]; rfl)).number

/-- A server with infinities: its sums are those with an infinity. -/
def unbounded : Machine := { wordy with
  add := fun a b => if Opposed a b then ⟨0x7FF8000000000000⟩ else if a.isInfinite then a else b
  mul := fun a b => if Indefinite a b then ⟨0x7FF8000000000000⟩ else a
  min := fun a b => if a.isNaN then b else a
  max := fun a b => if a.isNaN then b else a }

/-- An arithmetic that is defined everywhere. -/
theorem arithmetic_unbounded : unbounded.Arithmetic where
  add a b nan := by
    by_cases opposed : Opposed a b
    · exact .inr (.inr opposed)
    · simp only [unbounded, if_neg opposed] at nan
      split at nan
      · exact .inl nan
      · exact .inr (.inl nan)
  mul a b nan := by
    by_cases indefinite : Indefinite a b
    · exact .inr (.inr indefinite)
    · simp only [unbounded, if_neg indefinite] at nan
      exact .inl nan
  min a b nan := by
    cases number : a.isNaN <;> simp_all [unbounded]
  max a b nan := by
    cases number : a.isNaN <;> simp_all [unbounded]

/-- A command on the key `k`. -/
def scoring (c : ScoreCommand) (args : List String) : ScoreEvent :=
  .command c ⟨0, 0, args.map fun a => .bulkString (some (Utf8.asBytes a)), id⟩

/-- `ZADD k +inf m`, and then an increment by an infinity. -/
def afterInfinite (command : ScoreCommand) (args : List String) : List ScoreEvent :=
  [scoring .zadd ["ZADD", "k", "+inf", "m"], scoring command args]

/-- The score is incremented by the same infinity. -/
theorem scores_are_numbers_infinite : (⟨0x7FF0000000000000⟩ : F64).isNaN = false := by
  refine scores_are_numbers unbounded arithmetic_unbounded (afterInfinite .zincrby ["ZINCRBY", "k", "+inf", "m"])
    ⟨fun key flags rest _ _ _ _ _ e _ opposed => ?_, fun key delta member _ isKey isDelta isMember => ?_, trivial⟩
    [107] ⟨.zset [([109], ⟨0x7FF0000000000000⟩)], none⟩ rfl _ rfl ([109], ⟨0x7FF0000000000000⟩) (.head _)
  · exact absurd opposed.1 (by simp [scoreOf, zpairs, live, isInfinite, mag])
  · obtain rfl : [107] = key := Option.some_inj.1 isKey
    obtain rfl : [109] = member := Option.some_inj.1 isMember
    have parsed : parseScore unbounded (.bulkString (some (Utf8.asBytes "+inf"))) = some ⟨0x7FF0000000000000⟩ := by
      decide +kernel
    obtain rfl : ⟨0x7FF0000000000000⟩ = delta := Option.some_inj.1 (parsed.symm.trans isDelta)
    decide +kernel

/-- An increment by the opposite infinity leaves NaN, by ZINCRBY and by ZADD INCR. -/
theorem scores_nan_stored :
    ((Trace.run (ScoreEvent.step unbounded) (afterInfinite .zincrby ["ZINCRBY", "k", "-inf", "m"]) ∅).lookup [107]).bind
        (fun e => zsets.contents e.value) = some [([109], ⟨0x7FF8000000000000⟩)] ∧
      ((Trace.run (ScoreEvent.step unbounded) (afterInfinite .zadd ["ZADD", "k", "INCR", "-inf", "m"]) ∅).lookup [107]).bind
        (fun e => zsets.contents e.value) = some [([109], ⟨0x7FF8000000000000⟩)] ∧
      (⟨0x7FF8000000000000⟩ : F64).isNaN = true := by
  refine ⟨?_, ?_, ?_⟩ <;> decide +kernel

end NexradeCache.Collections
