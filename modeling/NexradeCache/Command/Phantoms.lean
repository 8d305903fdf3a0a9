import NexradeCache.Command.Collections
import NexradeCache.Lib.Trace

/-!
# Keys that hold nothing

A key with an empty collection is a phantom: EXISTS, TYPE, KEYS and DBSIZE show it, and nothing is in
it. The handlers that take elements out remove the key with the last one, and they do so under every
argument (`shrink_full`). The handlers that put elements in create the key before they parse the first
element (`getOrCreate_full` asks for one), and the handlers with a destination store what they have
found, be it nothing (`store_full`).

`Command.careful` says of a command, its arguments and the database it meets that neither happens. In
runs of careful commands there are no phantoms (`no_empty_collections`).
-/

namespace NexradeCache.Collections

open NexradeCache

/-- No entry is an empty collection. -/
def Full (s : Space) : Prop := ∀ key e, s.lookup key = some e → e.value.isEmpty = false

namespace Full

variable {s : Space} {key : Bytes}

theorem empty : Full ∅ := by
  intro key e found
  simp at found

theorem insert (full : Full s) {e : Stored} (some : e.value.isEmpty = false) : Full (s.insert key e) := by
  intro k e' found
  by_cases same : k = key
  · subst same
    rw [AList.lookup_insert, Option.some_inj] at found
    exact found ▸ some
  · rw [AList.lookup_insert_ne same] at found
    exact full k e' found

theorem erase (full : Full s) : Full (s.erase key) := by
  intro k e' found
  by_cases same : k = key
  · subst same
    simp at found
  · rw [AList.lookup_erase_ne same] at found
    exact full k e' found

theorem live (full : Full s) {now : Nat} {e : Stored} (found : live now s key = some e) : e.value.isEmpty = false :=
  full key e (Option.filter_eq_some_iff.1 found).1

end Full

/-! ## What the handlers do with an entry -/

section
variable {α β : Type} {c : Collection α} {now : Nat} {key : Bytes} {s : Space}

theorem Collection.ne_nil {e : Stored} {l : List α} (full : e.value.isEmpty = false)
    (is : c.contents e.value = some l) : l ≠ [] := by
  rw [c.wrap_contents is, c.isEmpty_wrap, List.isEmpty_eq_false_iff] at full
  exact full

theorem Collection.wrap_full {l : List α} (some : l ≠ []) : (c.wrap l).isEmpty = false := by
  rw [c.isEmpty_wrap, List.isEmpty_eq_false_iff]
  exact some

/-- A created key gets an element if the handler puts one into an empty collection. -/
theorem getOrCreate_full {f : List α → List α} (full : Full s) (fresh : Collections.live now s key = none → f [] ≠ [])
    (more : ∀ l, l ≠ [] → f l ≠ []) : Full (getOrCreate c now key f s) := by
  unfold getOrCreate
  split
  · rename_i absent
    exact full.insert (c.wrap_full (fresh absent))
  · rename_i e found
    split
    · exact full
    · rename_i l is
      exact full.insert (c.wrap_full (more l (c.ne_nil (full.live found) is)))

/-- An edit that leaves elements where there were some. -/
theorem edit_full {f : List α → List α} (full : Full s) (more : ∀ l, l ≠ [] → f l ≠ []) :
    Full (edit c now key f s) := by
  unfold edit
  split
  · exact full
  · rename_i e found
    split
    · exact full
    · rename_i l is
      exact full.insert (c.wrap_full (more l (c.ne_nil (full.live found) is)))

theorem shrink_full {f : List α → List α} (full : Full s) : Full (shrink c now key f s) := by
  unfold shrink
  split
  · exact full
  · split
    · exact full
    · rename_i l is
      split
      · exact full.erase
      · rename_i left
        exact full.insert (c.wrap_full (by simpa using left))

/-- A command that takes elements deletes the key it has emptied. -/
theorem shrinkFirst_full {stops : Bool} {f : List α → List α} (keys : List Bytes) (full : Full s) :
    Full (shrinkFirst c now stops f keys s) := by
  induction keys with
  | nil => exact full
  | cons key keys ih =>
    unfold shrinkFirst
    split
    · exact ih
    · split
      · split
        · exact full
        · exact ih
      · split
        · exact ih
        · exact shrink_full full

theorem store_full {l : List α} (full : Full s) (some : l ≠ []) : Full (store c key l s) :=
  full.insert (c.wrap_full some)

/-- The first of the elements is as it should be. -/
def Parses (items : List (Option β)) : Prop := ∃ x rest, items = some x :: rest

theorem addAll_ne_nil {add : β → List α → List α} (more : ∀ x l, l ≠ [] → add x l ≠ []) (items : List (Option β))
    {l : List α} (some : l ≠ []) : addAll add items l ≠ [] := by
  induction items generalizing l with
  | nil => exact some
  | cons item items ih =>
    cases item with
    | none => exact some
    | some x => exact ih (more x l some)

/-- The handlers that create the key and then add element after element. -/
theorem grow_full {add : β → List α → List α} {items : List (Option β)} (full : Full s)
    (first : Collections.live now s key = none → ∀ x, add x [] ≠ []) (more : ∀ x l, l ≠ [] → add x l ≠ [])
    (parses : Collections.live now s key = none → Parses items) : Full (getOrCreate c now key (addAll add items) s) := by
  refine getOrCreate_full full ?_ fun l => addAll_ne_nil more items
  intro absent
  obtain ⟨x, rest, is⟩ := parses absent
  rw [is]
  exact addAll_ne_nil more rest (first absent x)

end

theorem put_ne_nil {β : Type} (e : Bytes × β) (l : List (Bytes × β)) : put e l ≠ [] := List.cons_ne_nil _ _

/-- A command on the key in its first argument. -/
theorem keyed_full {arity : Arity} {body : Bytes → Write} {r : Request} {s : Space} (full : Full s)
    (h : ∀ key, getBytesVec r.args 1 = some key → arity.accepts r.args.length = true → Full (body key r s)) :
    Full (keyed arity body r s) := by
  unfold keyed
  split
  · exact full
  · rename_i accepted
    split
    · exact full
    · rename_i key is
      exact h key is (by simpa using accepted)

/-! ## Commands that are careful -/

section
variable (m : Machine) (r : Request) (s : Space)

/-- LPUSH and RPUSH of a key that is not there: the first element is bytes. -/
def PushCareful : Prop := ∀ key, r.args[1]?.bind Resp.asBytes = some key → 3 ≤ r.args.length →
  live r.now s key = none → Parses ((r.args.drop 2).map Resp.asBytes)

/-- SADD of a missing key reads at least one member. -/
def SaddCareful : Prop := ∀ key, getBytesVec r.args 1 = some key → 3 ≤ r.args.length →
  live r.now s key = none → Parses ((r.args.drop 2).map Resp.toBytesVec)

/-- HSET of a missing key reads at least one pair. -/
def HsetCareful : Prop := ∀ key, getBytesVec r.args 1 = some key → 4 ≤ r.args.length → r.args.length % 2 = 0 →
  live r.now s key = none → Parses (pairs fieldPair (r.args.drop 2))

/-- Without XX: the first score is a number and its member a name. -/
def ZaddCareful : Prop := ∀ key flags rest, getBytesVec r.args 1 = some key →
  zaddFlags m (r.args.drop 2) {} = some (flags, rest) → flags.refuse rest = false → flags.xx = false →
  live r.now s key = none → Parses (pairs (scorePair m) rest)

/-- Without XX: there is a first point, and it is on the map. -/
def GeoaddCareful : Prop := ∀ key flags rest, strKey r.args = some key → 5 ≤ r.args.length →
  geoFlags m (r.args.drop 2) {} = (flags, rest) → rest.length % 3 = 0 → flags.xx = false →
  live r.now s key = none → Parses (triples (geoTriple m) rest)

/-- Some source is neither bytes nor text, or holds a value of another type. -/
def Refused (sources : List Resp) : Prop := ∃ a ∈ sources, members r.now s a = none

/-- Some source has a member. -/
def UnionCareful : Prop := 3 ≤ r.args.length → (getBytesVec r.args 1).isSome → Refused r s (r.args.drop 2) ∨
  ∃ a ∈ r.args.drop 2, ∃ l, members r.now s a = some (some l) ∧ l ≠ []

/-- A source is refused before a missing one ends the loop, or a member is in all of them. -/
def InterCareful : Prop := 3 ≤ r.args.length → (getBytesVec r.args 1).isSome →
  (∃ before a behind, r.args.drop 2 = before ++ a :: behind ∧ members r.now s a = none ∧
    ∀ b ∈ before, ∃ l, members r.now s b = some (some l)) ∨
  ∃ x, ∀ a ∈ r.args.drop 2, ∃ l, members r.now s a = some (some l) ∧ x ∈ l

/-- A member of the first source is in none of the others. -/
def DiffCareful : Prop := 3 ≤ r.args.length → (getBytesVec r.args 1).isSome → Refused r s (r.args.drop 2) ∨
  ∃ first rest l x, r.args.drop 2 = first :: rest ∧ members r.now s first = some (some l) ∧ x ∈ l ∧
    ∀ a ∈ rest, ∀ l', members r.now s a = some (some l') → x ∉ l'

/-- Some key has a sorted set with a member. -/
def ZunionCareful : Prop := ∀ keys rest, (getBytesVec r.args 1).isSome → keysFrom r.args 2 = some (keys, rest) →
  (parseAggregateWeights m keys.length rest).isSome → ∃ key ∈ keys, ∃ l, zpairs r.now s key = some l ∧ l ≠ []

/-- The key holds a value of another type. -/
def OtherType (key : Bytes) : Prop := ∃ e, live r.now s key = some e ∧ zsets.contents e.value = none

/-- The sources of ZINTERSTORE have a common member. -/
def ZinterCareful : Prop := ∀ keys rest, (getBytesVec r.args 1).isSome → keysFrom r.args 2 = some (keys, rest) →
  (parseAggregateWeights m keys.length rest).isSome →
  (∃ before key behind, keys = before ++ key :: behind ∧ OtherType r s key ∧
    ∀ k ∈ before, (zpairs r.now s k).isSome) ∨
  ∃ member, ∀ key ∈ keys, ∃ l, zpairs r.now s key = some l ∧ (l.lookup member).isSome

/-- The first source of ZDIFFSTORE has a member that no other has. -/
def ZdiffCareful : Prop := ∀ first rest, (getBytesVec r.args 1).isSome → keysFrom r.args 2 = some (first :: rest, []) →
  OtherType r s first ∨ ∃ l, zpairs r.now s first = some l ∧
    ∃ x ∈ l, ∀ key ∈ rest, x.1 ∉ ((zpairs r.now s key).getD []).map Prod.fst

/-- The source is there, and the range selects a pair of it. -/
def ZrangestoreCareful : Prop := ∀ src start stop opts, (getBytesVec r.args 1).isSome → getBytesVec r.args 2 = some src →
  getStr r.args 3 = some start → getStr r.args 4 = some stop → rangeOptions (r.args.drop 5) {} = some opts →
  (opts.byscore && opts.bylex) = false →
  OtherType r s src ∨ ∃ l, zpairs r.now s src = some l ∧ selected m opts start stop l ≠ some []

/-- A point is within the radius, and COUNT is not zero. -/
def GeosearchstoreCareful : Prop := ∀ key lon lat idx radius unit behind opts l, (strKey r.args).isSome →
  7 ≤ r.args.length → (getStr r.args 2).map Utf8.asBytes = some key → searchCenter m r.now s key r.args = some (lon, lat, idx) →
  searchShape m r.args idx = some (radius, unit, behind) → searchOptions m (r.args.drop behind) {} = some opts →
  ((live r.now s key).bind fun e => geos.contents e.value) = some l →
  opts.count ≠ some 0 ∧ ∃ p ∈ l, leF64 (m.haversineM lon lat p.2.longitude p.2.latitude) radius = true

/-- What RESTORE puts in is not the payload of an empty collection. -/
def RestoreCareful : Prop := ∀ key ttl payload replace absttl v, getBytesVec r.args 1 = some key →
  getI64 r.args 2 = some ttl → r.args[3]?.bind Resp.asBytes = some payload →
  restoreOptions m (r.args.drop 4) false false = some (replace, absttl) → restored m payload = some v →
  (restoreDeadline r.now ttl absttl).isSome → replace = true ∨ live r.now s key = none → v.isEmpty = false

/-- The command creates no phantom from this database. -/
def Command.careful : Command → Prop
  | .lpush | .rpush => PushCareful r s
  | .sadd => SaddCareful r s
  | .hset | .hmset => HsetCareful r s
  | .zadd => ZaddCareful m r s
  | .geoadd => GeoaddCareful m r s
  | .sunionstore => UnionCareful r s
  | .sinterstore => InterCareful r s
  | .sdiffstore => DiffCareful r s
  | .zunionstore => ZunionCareful m r s
  | .zinterstore => ZinterCareful m r s
  | .zdiffstore => ZdiffCareful r s
  | .zrangestore => ZrangestoreCareful m r s
  | .geosearchstore => GeosearchstoreCareful m r s
  | .restore => RestoreCareful m r s
  | _ => True

end

/-! ## Commands that put elements in -/

section
variable {m : Machine} {r : Request} {s : Space}

theorem pushOne_ne_nil (left : Bool) (v : Bytes) (l : List Bytes) : pushOne left v l ≠ [] := by
  cases left <;> simp [pushOne]

/-- LPUSH and RPUSH, and their forms for lists that are there. -/
theorem push_full {left onlyIfExists : Bool} (full : Full s) (careful : onlyIfExists = false → PushCareful r s) :
    Full (push left onlyIfExists r s) := by
  unfold push
  split
  · exact full
  · rename_i enough
    split
    · exact full
    · rename_i key is
      split
      · exact full
      · rename_i there
        refine grow_full full (fun _ x => pushOne_ne_nil left x []) (fun x l _ => pushOne_ne_nil left x l) ?_
        intro absent
        cases onlyIfExists with
        | false => exact careful rfl key is (by omega) absent
        | true => simp [absent] at there

theorem insert_ne_nil (x : Bytes) (l : List Bytes) : List.insert x l ≠ [] := by
  intro none
  have mem : x ∈ List.insert x l := List.mem_insert_self
  simp [none] at mem

theorem cmdSadd_full (full : Full s) (careful : SaddCareful r s) : Full (cmdSadd r s) := by
  refine keyed_full full fun key is accepted => ?_
  exact grow_full full (fun _ x => insert_ne_nil x []) (fun x l _ => insert_ne_nil x l)
    (careful key is (by simpa [Arity.accepts] using accepted))

theorem hset_full (full : Full s) (careful : HsetCareful r s) : Full (hset r s) := by
  unfold hset
  split
  · exact full
  · rename_i whole
    split
    · exact full
    · rename_i key is
      simp only [ne_eq, decide_not, Bool.or_eq_true, decide_eq_true_eq, Bool.not_eq_eq_eq_not, Bool.not_true,
        decide_eq_false_iff_not, not_or, Nat.not_lt, not_not] at whole
      exact grow_full full (fun _ x => put_ne_nil x []) (fun x l _ => put_ne_nil x l) (careful key is whole.1 whole.2)

theorem cmdHsetnx_full (full : Full s) : Full (cmdHsetnx r s) := by
  refine keyed_full full fun key is accepted => ?_
  split
  · rename_i field val _ _
    refine getOrCreate_full full (fun absent => by simpa using put_ne_nil (field, val) []) fun l some => ?_
    split
    · exact some
    · exact put_ne_nil _ l
  · exact full

theorem incremented_nil (field : Bytes) (delta : Int64) : incremented field delta [] ≠ [] := by
  have sum : checkedAddI64 0 delta = some delta := by
    have below := delta.toInt_lt
    have above := delta.le_toInt
    have zero : (0 : Int64).toInt = 0 := by decide
    rw [checkedAddI64, zero, Int.zero_add, if_pos ⟨above, below⟩, Int64.ofInt_toInt]
  simp [incremented, sum, put_ne_nil]

theorem cmdHincrby_full (full : Full s) : Full (cmdHincrby r s) := by
  refine keyed_full full fun key is accepted => ?_
  split
  · rename_i field delta _ _
    refine getOrCreate_full full (fun absent => incremented_nil field delta) fun l some => ?_
    unfold incremented
    dsimp only
    split
    · exact some
    · exact put_ne_nil _ l
  · exact full

theorem cmdHincrbyfloat_full (full : Full s) : Full (cmdHincrbyfloat m r s) := by
  refine keyed_full full fun key is accepted => ?_
  split
  · split
    · exact full
    · dsimp only
      split
      · exact getOrCreate_full full (fun _ => put_ne_nil _ []) fun l _ => put_ne_nil _ l
      · exact full
  · exact full

theorem zaddOne_more (flags : ZaddFlags) (e : Bytes × F64) (l : List (Bytes × F64)) (some : l ≠ []) :
    zaddOne flags e l ≠ [] := by
  unfold zaddOne
  split <;> split <;> first | exact some | exact put_ne_nil e l

/-- ZADD, whose flags may keep every member out. -/
theorem cmdZadd_full (full : Full s) (careful : ZaddCareful m r s) : Full (cmdZadd m r s) := by
  refine keyed_full full fun key is accepted => ?_
  split
  · exact full
  · rename_i flags rest parsed
    split
    · exact full
    · rename_i goes
      rw [Bool.or_eq_true, not_or, Bool.not_eq_true, Bool.not_eq_true] at goes
      obtain ⟨whole, there⟩ := goes
      have created : live r.now s key = none → flags.xx = false := by
        intro absent
        simpa [absent] using there
      have parses := fun absent => careful key flags rest is parsed whole (created absent) absent
      split
      · exact grow_full full (fun _ x => put_ne_nil _ []) (fun x l _ => put_ne_nil _ l) parses
      · refine grow_full full (fun absent x => ?_) (zaddOne_more flags) parses
        simpa [zaddOne, created absent] using put_ne_nil x []

theorem cmdZincrby_full (full : Full s) : Full (cmdZincrby m r s) := by
  refine keyed_full full fun key is accepted => ?_
  split
  · exact getOrCreate_full full (fun _ => put_ne_nil _ []) fun l _ => put_ne_nil _ l
  · exact full

theorem geoaddOne_more (flags : GeoFlags) (e : Bytes × GeoPoint) (l : List (Bytes × GeoPoint)) (some : l ≠ []) :
    geoaddOne flags e l ≠ [] := by
  unfold geoaddOne
  split <;> split <;> first | exact some | exact put_ne_nil e l

/-- GEOADD, whose flags may keep every member out. -/
theorem cmdGeoadd_full (full : Full s) (careful : GeoaddCareful m r s) : Full (cmdGeoadd m r s) := by
  unfold cmdGeoadd
  split
  · exact full
  · rename_i enough
    split
    · exact full
    · rename_i key is
      dsimp only
      split
      · exact full
      · rename_i goes
        rw [Bool.or_eq_true, not_or, Bool.not_eq_true, Bool.not_eq_true] at goes
        obtain ⟨whole, there⟩ := goes
        have created : live r.now s key = none → (geoFlags m (r.args.drop 2) {}).1.xx = false := by
          intro absent
          simpa [absent] using there
        refine grow_full full (fun absent x => ?_) (geoaddOne_more _) fun absent => ?_
        · simpa [geoaddOne, created absent] using put_ne_nil x []
        · exact careful key _ _ is (by omega) rfl (by simpa using whole) (created absent) absent

/-! ## Commands that take elements out -/

theorem pop_full {left : Bool} (full : Full s) : Full (pop left r s) := by
  refine keyed_full full fun key is accepted => ?_
  split
  · exact full
  · exact shrink_full full

theorem cmdLset_full (full : Full s) : Full (cmdLset r s) := by
  refine keyed_full full fun key is accepted => ?_
  split
  · refine edit_full full fun l some => ?_
    rw [ne_eq, List.set_eq_nil_iff]
    exact some
  · exact full

theorem insertAt_ne_nil (shift : Nat) (pivot v : Bytes) (l : List Bytes) (some : l ≠ []) :
    (ListSpec.insertAt shift pivot v l).1 ≠ [] := by
  unfold ListSpec.insertAt
  split
  · intro none
    have longer : l.length ≤ (l.insertIdx (l.idxOf pivot + shift) v).length := List.length_le_length_insertIdx
    have short : (l.insertIdx (l.idxOf pivot + shift) v).length = 0 := by
      exact congrArg List.length none
    exact some (List.length_eq_zero_iff.1 (by omega))
  · exact some

theorem cmdLinsert_full (full : Full s) : Full (cmdLinsert m r s) := by
  refine keyed_full full fun key is accepted => ?_
  split
  · split
    · exact edit_full full (insertAt_ne_nil 0 _ _)
    · split
      · exact edit_full full (insertAt_ne_nil 1 _ _)
      · exact full
  · exact full

theorem lmoveAtomic_full {now : Nat} {src dst : Bytes} {fromLeft toLeft : Bool} (full : Full s) :
    Full (lmoveAtomic now src dst fromLeft toLeft s) := by
  unfold lmoveAtomic
  split
  · exact full
  · split
    · exact full
    · split
      · exact full
      · split
        · exact full
        · exact getOrCreate_full (shrink_full full) (fun _ => pushOne_ne_nil _ _ _) fun l _ => pushOne_ne_nil _ _ l

theorem blockingPop_full {left : Bool} (full : Full s) : Full (blockingPop m left r s) := by
  unfold blockingPop
  split
  · exact full
  · split
    · split
      · exact shrinkFirst_full _ full
      · exact full
    · exact full

theorem lmpop_full {least idx : Nat} (full : Full s) : Full (lmpop least idx r s) := by
  unfold lmpop
  split
  · exact full
  · split
    · exact full
    · split
      · exact full
      · exact shrinkFirst_full _ full

theorem smoveAtomic_full {now : Nat} {src dst member : Bytes} (full : Full s) :
    Full (smoveAtomic now src dst member s) := by
  unfold smoveAtomic
  split
  · exact full
  · split
    · exact full
    · split
      · exact full
      · split
        · exact full
        · exact getOrCreate_full (shrink_full full) (fun _ => insert_ne_nil _ []) fun l _ => insert_ne_nil _ l

theorem zpop_full {max : Bool} (full : Full s) : Full (zpop max r s) := by
  refine keyed_full full fun key is accepted => ?_
  split
  · exact full
  · exact shrink_full full

theorem bzpop_full {max : Bool} (full : Full s) : Full (bzpop m max r s) := by
  unfold bzpop
  split
  · exact full
  · split
    · exact shrinkFirst_full _ full
    · exact full

theorem zmpop_full {least idx : Nat} (full : Full s) : Full (zmpop least idx r s) := by
  unfold zmpop
  split
  · exact full
  · split
    · exact full
    · split
      · exact full
      · exact shrinkFirst_full _ full

/-! ## Commands with a destination -/

section
variable {now : Nat}

/-- What is collected has the members of all sources, and no source was refused. -/
theorem collectUnion_spec {rest : List Resp} {result l : List Bytes} (is : collectUnion now s rest result = some l) :
    (∀ a ∈ rest, members now s a ≠ none) ∧ (∀ x ∈ result, x ∈ l) ∧
      ∀ a ∈ rest, ∀ l', members now s a = some (some l') → ∀ x ∈ l', x ∈ l := by
  induction rest generalizing result with
  | nil =>
    rw [collectUnion, Option.some_inj] at is
    subst is
    simp
  | cons a rest ih =>
    unfold collectUnion at is
    split at is
    · exact absurd is (by simp)
    · rename_i missing
      obtain ⟨fine, kept, more⟩ := ih is
      simp only [List.forall_mem_cons, missing]
      exact ⟨⟨by simp, fine⟩, kept, by simp, more⟩
    · rename_i l' found
      obtain ⟨fine, kept, more⟩ := ih is
      refine ⟨?_, fun x mem => kept x (List.mem_union_iff.2 (.inl mem)), ?_⟩
      · simpa [found] using fine
      · intro b mem l'' found' x inside
        obtain rfl | mem := List.mem_cons.1 mem
        · rw [found, Option.some_inj, Option.some_inj] at found'
          subst found'
          exact kept x (List.mem_union_iff.2 (.inr inside))
        · exact more b mem l'' found' x inside

/-- What is collected has the common members. -/
theorem collectInter_spec {rest : List Resp} {result : Option (List Bytes)} {l : List Bytes} {x : Bytes}
    (is : collectInter now s rest result = some l) (inside : ∀ l' ∈ result, x ∈ l')
    (all : ∀ a ∈ rest, ∃ l', members now s a = some (some l') ∧ x ∈ l') (some : result ≠ none ∨ rest ≠ []) : x ∈ l := by
  induction rest generalizing result with
  | nil =>
    rw [collectInter, Option.some_inj] at is
    obtain ⟨l', rfl⟩ := Option.ne_none_iff_exists'.1 (some.resolve_right (by simp))
    subst is
    exact inside l' rfl
  | cons a rest ih =>
    obtain ⟨l', found, mem⟩ := all a List.mem_cons_self
    rw [collectInter, found] at is
    refine ih is ?_ (fun b later => all b (List.mem_cons_of_mem a later)) (.inl (by simp))
    intro l'' at_
    cases result with
    | none =>
      obtain rfl : l' = l'' := by simpa using at_
      exact mem
    | some before =>
      obtain rfl : before ∩ l' = l'' := by simpa using at_
      exact List.mem_inter_iff.2 ⟨inside before rfl, mem⟩

/-- A source of another type is refused, unless a missing one comes before it. -/
theorem collectInter_refused {before behind : List Resp} {a : Resp} (refused : members now s a = none)
    (fine : ∀ b ∈ before, ∃ l, members now s b = some (some l)) (result : Option (List Bytes)) :
    collectInter now s (before ++ a :: behind) result = none := by
  induction before generalizing result with
  | nil => rw [List.nil_append, collectInter, refused]
  | cons b before ih =>
    obtain ⟨l, found⟩ := fine b List.mem_cons_self
    rw [List.cons_append, collectInter, found]
    exact ih (fun c later => fine c (List.mem_cons_of_mem b later)) _

/-- What is collected has the members of the first source that no other has. -/
theorem collectDiff_spec {rest : List Resp} {result l : List Bytes} {x : Bytes}
    (is : collectDiff now s rest result = some l) :
    (∀ a ∈ rest, members now s a ≠ none) ∧
      (x ∈ result → (∀ a ∈ rest, ∀ l', members now s a = some (some l') → x ∉ l') → x ∈ l) := by
  induction rest generalizing result with
  | nil =>
    rw [collectDiff, Option.some_inj] at is
    subst is
    simp
  | cons a rest ih =>
    unfold collectDiff at is
    split at is
    · exact absurd is (by simp)
    · rename_i missing
      obtain ⟨fine, kept⟩ := ih is
      simp only [List.forall_mem_cons, missing]
      exact ⟨⟨by simp, fine⟩, fun mem apart => kept mem apart.2⟩
    · rename_i l' found
      obtain ⟨fine, kept⟩ := ih is
      refine ⟨by simpa [found] using fine, fun mem apart => ?_⟩
      refine kept (List.mem_filter.2 ⟨mem, ?_⟩) fun b later => apart b (List.mem_cons_of_mem a later)
      simpa using apart a List.mem_cons_self l' found

end

theorem setStore_full {collect : Nat → Space → List Resp → Option (List Bytes)} (full : Full s)
    (some : 3 ≤ r.args.length → (getBytesVec r.args 1).isSome → collect r.now s (r.args.drop 2) ≠ some []) :
    Full (setStore collect r s) := by
  refine keyed_full full fun dst is accepted => ?_
  split
  · exact full
  · rename_i result found
    refine store_full full ?_
    rintro rfl
    exact some (by simpa [Arity.accepts] using accepted) (by simp [is]) found

theorem cmdSunionstore_full (full : Full s) (careful : UnionCareful r s) : Full (cmdSunionstore r s) := by
  refine setStore_full full fun enough key is => ?_
  obtain ⟨fine, -, all⟩ := collectUnion_spec is
  obtain ⟨a, mem, refused⟩ | ⟨a, mem, l, found, some⟩ := careful enough key
  · exact fine a mem refused
  · obtain ⟨x, inside⟩ := List.exists_mem_of_ne_nil l some
    simpa using all a mem l found x inside

theorem cmdSinterstore_full (full : Full s) (careful : InterCareful r s) : Full (cmdSinterstore r s) := by
  refine setStore_full full fun enough key is => ?_
  obtain ⟨before, a, behind, sources, refused, fine⟩ | ⟨x, all⟩ := careful enough key
  · rw [sources, collectInter_refused refused fine] at is
    simp at is
  · have some : r.args.drop 2 ≠ [] := by
      rw [ne_eq, List.drop_eq_nil_iff]
      omega
    have mem := collectInter_spec is (by simp) all (.inr some)
    simp at mem

theorem cmdSdiffstore_full (full : Full s) (careful : DiffCareful r s) : Full (cmdSdiffstore r s) := by
  refine setStore_full full fun enough key is => ?_
  cases sources : r.args.drop 2 with
  | nil =>
    rw [List.drop_eq_nil_iff] at sources
    omega
  | cons a rest =>
    rw [sources, collectDiffFrom] at is
    have careful := careful enough key
    rw [sources] at careful
    split at is
    · simp at is
    · rename_i first found
      obtain ⟨b, mem, refused⟩ | ⟨a', rest', l, x, same, found', inside, apart⟩ := careful
      · obtain rfl | mem := List.mem_cons.1 mem
        · rw [refused] at found
          simp at found
        · exact (collectDiff_spec (x := []) is).1 b mem refused
      · obtain ⟨rfl, rfl⟩ := List.cons.inj same
        rw [found', Option.some_inj] at found
        subst found
        have mem := (collectDiff_spec is).2 inside apart
        simp at mem

theorem takeWeights_length {n : Nat} {rest rest' : List Resp} {ws : List F64}
    (is : takeWeights m n rest = some (ws, rest')) : ws.length = n := by
  induction n generalizing rest rest' ws with
  | zero => simp_all [takeWeights]
  | succ n ih =>
    cases rest with
    | nil => simp [takeWeights] at is
    | cons a rest =>
      unfold takeWeights at is
      split at is
      · rename_i w ws' rest'' _ taken
        simp only [Option.some.injEq, Prod.mk.injEq] at is
        rw [← is.1, List.length_cons, ih taken]
      · simp at is

theorem aggregateWeights_length {numKeys fuel : Nat} {rest : List Resp} {weights weights' : List F64}
    {agg agg' : Aggregate} (is : aggregateWeights m numKeys fuel rest weights agg = some (weights', agg'))
    (as : weights.length = numKeys) : weights'.length = numKeys := by
  fun_induction aggregateWeights m numKeys fuel rest weights agg with
  | case1 => simp_all
  | case2 => simp at is
  | case3 _ _ _ _ _ _ _ _ taken ih => exact ih is (takeWeights_length taken)
  | case5 _ _ _ _ _ _ _ ih | case6 _ _ _ _ _ _ _ ih | case7 _ _ _ _ _ _ _ ih => exact ih is as
  | case4 | case8 | case9 => simp at is

theorem parseAggregateWeights_length {numKeys : Nat} {rest : List Resp} {weights : List F64} {agg : Aggregate}
    (is : parseAggregateWeights m numKeys rest = some (weights, agg)) : weights.length = numKeys :=
  aggregateWeights_length is (by simp)

theorem foldl_put_ne_nil {f : List (Bytes × F64) → Bytes × F64 → Bytes × F64} (l : List (Bytes × F64))
    {result : List (Bytes × F64)} (some : result ≠ [] ∨ l ≠ []) :
    l.foldl (fun result e => put (f result e) result) result ≠ [] := by
  induction l generalizing result with
  | nil => exact some.resolve_right (by simp)
  | cons e l ih => exact ih (.inl (put_ne_nil _ result))

theorem parseKeys_ne_nil {args : List Resp} {keys : List Bytes} (is : parseKeys args = some keys)
    (some : args ≠ []) : keys ≠ [] := by
  cases args with
  | nil => exact absurd rfl some
  | cons a args =>
    rw [parseKeys, List.mapM_cons] at is
    obtain ⟨key, -, is⟩ := Option.bind_eq_some_iff.1 is
    obtain ⟨rest, -, is⟩ := Option.bind_eq_some_iff.1 is
    obtain rfl : key :: rest = keys := by simpa using is
    exact List.cons_ne_nil key rest

theorem keysFrom_ne_nil {args : List Resp} {idx : Nat} {keys : List Bytes} {rest : List Resp}
    (is : keysFrom args idx = some (keys, rest)) : keys ≠ [] := by
  unfold keysFrom at is
  split at is
  · simp at is
  · rename_i n _
    split at is
    · simp at is
    · rename_i positive
      split at is
      · simp at is
      · rename_i enough
        obtain ⟨keys', parsed, same⟩ := Option.map_eq_some_iff.1 is
        obtain ⟨rfl, -⟩ := Prod.mk.inj same
        refine parseKeys_ne_nil parsed ?_
        have positive : 0 < n.toInt := by
          rw [Int64.le_iff_toInt_le, not_le] at positive
          exact positive
        rw [ne_eq, ← List.length_eq_zero_iff, List.length_take, List.length_drop]
        omega

theorem computeZunionResult_ne_nil {now : Nat} {agg : Aggregate} {keys : List (Bytes × F64)}
    {result : List (Bytes × F64)}
    (some : result ≠ [] ∨ ∃ k ∈ keys, ∃ l, zpairs now s k.1 = some l ∧ l ≠ []) :
    computeZunionResult m now s agg keys result ≠ [] := by
  induction keys generalizing result with
  | nil => simpa [computeZunionResult] using some
  | cons k keys ih =>
    rw [computeZunionResult]
    refine ih ?_
    obtain some | ⟨k', mem, l, found, elements⟩ := some
    · exact .inl (foldl_put_ne_nil _ (.inl some))
    · obtain rfl | mem := List.mem_cons.1 mem
      · refine .inl (foldl_put_ne_nil _ (.inr ?_))
        simpa [found] using elements
      · exact .inr ⟨k', mem, l, found, elements⟩

theorem cmdZunionstore_full (full : Full s) (careful : ZunionCareful m r s) : Full (cmdZunionstore m r s) := by
  refine keyed_full full fun dst is accepted => ?_
  split
  · exact full
  · rename_i keys rest parsed
    split
    · exact full
    · rename_i weights agg weighted
      refine store_full full (computeZunionResult_ne_nil (.inr ?_))
      obtain ⟨key, mem, l, found, elements⟩ := careful keys rest (by simp [is]) parsed (by simp [weighted])
      obtain ⟨i, here, at_⟩ := List.getElem_of_mem mem
      have small : i < weights.length := by
        rw [parseAggregateWeights_length weighted]
        exact here
      refine ⟨(key, weights[i]), ?_, l, found, elements⟩
      have both : i < (keys.zip weights).length := by
        rw [List.length_zip]
        exact lt_min here small
      have pair : (keys.zip weights)[i] = (key, weights[i]) := by
        rw [List.getElem_zip, at_]
      exact pair ▸ List.getElem_mem both

/-- The sources that were read have the member they all have. -/
theorem zsources_spec {now : Nat} {keys : List Bytes} {sources : List (List (Bytes × F64))} {member : Bytes}
    (is : zsources now s keys = some (some sources))
    (all : ∀ key ∈ keys, ∃ l, zpairs now s key = some l ∧ (l.lookup member).isSome) :
    sources.length = keys.length ∧ ∀ l ∈ sources, (l.lookup member).isSome := by
  induction keys generalizing sources with
  | nil =>
    obtain rfl : [] = sources := by simpa [zsources] using is
    simp
  | cons key keys ih =>
    obtain ⟨l, found, inside⟩ := all key List.mem_cons_self
    obtain ⟨e, there, is'⟩ := Option.bind_eq_some_iff.1 found
    rw [zsources, there] at is
    simp only [is', Option.map_eq_some_iff] at is
    obtain ⟨rest, behind, same⟩ := is
    cases rest with
    | none => simp at same
    | some rest =>
      obtain rfl : l :: rest = sources := by simpa using same
      obtain ⟨long, more⟩ := ih behind fun k later => all k (List.mem_cons_of_mem key later)
      exact ⟨by rw [List.length_cons, List.length_cons, long], List.forall_mem_cons.2 ⟨inside, more⟩⟩

theorem zsources_isSome {now : Nat} {keys : List Bytes} (all : ∀ key ∈ keys, ∃ l, zpairs now s key = some l) :
    ∃ sources, zsources now s keys = some (some sources) := by
  induction keys with
  | nil => exact ⟨[], rfl⟩
  | cons key keys ih =>
    obtain ⟨l, found⟩ := all key List.mem_cons_self
    obtain ⟨e, there, is'⟩ := Option.bind_eq_some_iff.1 found
    obtain ⟨rest, behind⟩ := ih fun k later => all k (List.mem_cons_of_mem key later)
    exact ⟨l :: rest, by simp [zsources, there, is', behind]⟩

theorem zsources_refused {before behind : List Bytes} {key : Bytes} (other : OtherType r s key)
    (fine : ∀ k ∈ before, (zpairs r.now s k).isSome) : zsources r.now s (before ++ key :: behind) = none := by
  induction before with
  | nil =>
    obtain ⟨e, there, is⟩ := other
    simp [zsources, there, is]
  | cons k before ih =>
    obtain ⟨l, found⟩ := Option.isSome_iff_exists.1 (fine k List.mem_cons_self)
    obtain ⟨e, there, is⟩ := Option.bind_eq_some_iff.1 found
    simp [zsources, there, is, ih fun k' later => fine k' (List.mem_cons_of_mem k later)]

theorem combined_isSome {agg : Aggregate} {member : Bytes} {acc : F64} {rest : List (List (Bytes × F64) × F64)}
    (all : ∀ p ∈ rest, (p.1.lookup member).isSome) : (combined m agg member acc rest).isSome := by
  induction rest generalizing acc with
  | nil => rfl
  | cons p rest ih =>
    obtain ⟨score, found⟩ := Option.isSome_iff_exists.1 (all p List.mem_cons_self)
    rw [combined, found]
    exact ih fun q later => all q (List.mem_cons_of_mem p later)

theorem mem_of_lookup {l : List (Bytes × F64)} {member : Bytes} (inside : (l.lookup member).isSome) :
    ∃ e ∈ l, e.1 = member := by
  induction l with
  | nil => simp at inside
  | cons e l ih =>
    by_cases same : e.1 = member
    · exact ⟨e, List.mem_cons_self, same⟩
    · have other : (member == e.1) = false := by simpa using fun h => same h.symm
      rw [List.lookup_cons, other] at inside
      obtain ⟨e', mem, same⟩ := ih inside
      exact ⟨e', List.mem_cons_of_mem e mem, same⟩

theorem computeZinterResult_ne_nil {now : Nat} {keys : List Bytes} {weights : List F64} {agg : Aggregate}
    {member : Bytes} (elements : keys ≠ []) (long : weights.length = keys.length)
    (all : ∀ key ∈ keys, ∃ l, zpairs now s key = some l ∧ (l.lookup member).isSome) :
    computeZinterResult m now s keys weights agg ≠ some [] := by
  obtain ⟨sources, is⟩ := zsources_isSome fun key mem => (all key mem).imp fun l h => h.1
  obtain ⟨same, inside⟩ := zsources_spec is all
  rw [computeZinterResult, is]
  match sources, weights with
  | [], _ =>
    rw [List.length_nil, eq_comm, List.length_eq_zero_iff] at same
    exact absurd same elements
  | _ :: _, [] =>
    rw [List.length_nil, eq_comm, List.length_eq_zero_iff] at long
    exact absurd long elements
  | first :: rest, weight :: weights =>
    obtain ⟨e, mem, rfl⟩ := mem_of_lookup (inside first List.mem_cons_self)
    have later : ∀ p ∈ rest.zip weights, (p.1.lookup e.1).isSome := fun p at_ =>
      inside p.1 (List.mem_cons_of_mem first (List.of_mem_zip at_).1)
    have whole : (combined m agg e.1 (m.mul e.2 weight) (rest.zip weights)).isSome := combined_isSome later
    obtain ⟨acc, combines⟩ := Option.isSome_iff_exists.1 whole
    intro none
    simp only [Option.map_some, List.zip_cons_cons, Option.some_inj, List.filterMap_eq_nil_iff] at none
    simpa [combines] using none e mem

theorem cmdZinterstore_full (full : Full s) (careful : ZinterCareful m r s) : Full (cmdZinterstore m r s) := by
  refine keyed_full full fun dst is accepted => ?_
  split
  · exact full
  · rename_i keys rest parsed
    split
    · exact full
    · rename_i weights agg weighted
      split
      · exact full
      · rename_i result found
        refine store_full full ?_
        rintro rfl
        obtain ⟨before, key, behind, rfl, other, fine⟩ | ⟨member, all⟩ :=
          careful keys rest (by simp [is]) parsed (by simp [weighted])
        · rw [computeZinterResult, zsources_refused other fine] at found
          simp at found
        · exact computeZinterResult_ne_nil (keysFrom_ne_nil parsed) (parseAggregateWeights_length weighted) all found

theorem cmdZdiffstore_full (full : Full s) (careful : ZdiffCareful r s) : Full (cmdZdiffstore r s) := by
  refine keyed_full full fun dst is accepted => ?_
  split
  · rename_i keys parsed
    split
    · exact full
    · rename_i result found
      refine store_full full ?_
      rintro rfl
      cases keys with
      | nil => exact keysFrom_ne_nil parsed rfl
      | cons first rest =>
        obtain ⟨e, there, other⟩ | ⟨l, pairs, x, mem, apart⟩ := careful first rest (by simp [is]) parsed
        · simp [computeZdiffResult, there, other] at found
        · obtain ⟨e, there, contents⟩ := Option.bind_eq_some_iff.1 pairs
          simp only [computeZdiffResult, there, contents, Option.map_some, Option.some_inj, List.filter_eq_nil_iff,
            decide_eq_true_eq] at found
          exact found x mem apart
  · exact full

theorem cmdZrangestore_full (full : Full s) (careful : ZrangestoreCareful m r s) : Full (cmdZrangestore m r s) := by
  refine keyed_full full fun dst is accepted => ?_
  split
  · rename_i src start stop opts hsrc hstart hstop hopts
    split
    · exact full
    · rename_i one
      have careful := careful src start stop opts (by simp [is]) hsrc hstart hstop hopts (by simpa using one)
      split
      · rename_i absent
        obtain ⟨e, there, other⟩ | ⟨l, pairs, some⟩ := careful
        · simp [absent] at there
        · simp [zpairs, absent] at pairs
      · rename_i e there
        split
        · exact full
        · rename_i entries found
          refine store_full full ?_
          rintro rfl
          obtain ⟨l, contents, chosen⟩ := Option.bind_eq_some_iff.1 found
          obtain ⟨e', there', other⟩ | ⟨l', pairs, some⟩ := careful
          · rw [there, Option.some_inj] at there'
            subst there'
            simp [contents] at other
          · obtain rfl : l = l' := by simpa [zpairs, there, contents] using pairs
            exact some chosen
  · exact full

theorem arranged_ne_nil {opts : SearchOptions} {found : List (Bytes × F64 × GeoPoint)} (some : found ≠ [])
    (count : opts.count ≠ Option.some 0) : arranged opts found ≠ [] := by
  unfold arranged
  dsimp only
  split
  · rename_i n is
    rw [ne_eq, List.take_eq_nil_iff, not_or]
    refine ⟨fun zero => count (by rw [is, zero]), ?_⟩
    split
    · simpa [← List.length_eq_zero_iff] using some
    · split
      · simpa [← List.length_eq_zero_iff] using some
      · exact some
  · split
    · simpa [← List.length_eq_zero_iff] using some
    · split
      · simpa [← List.length_eq_zero_iff] using some
      · exact some

theorem cmdGeosearchstore_full (full : Full s) (careful : GeosearchstoreCareful m r s) :
    Full (cmdGeosearchstore m r s) := by
  unfold cmdGeosearchstore
  split
  · exact full
  · rename_i enough
    split
    · rename_i dest key hdest hkey
      split
      · exact full
      · rename_i lon lat idx center
        split
        · exact full
        · rename_i radius unit behind shape
          split
          · exact full
          · rename_i opts parsed
            split
            · exact full.erase
            · rename_i e there
              split
              · exact full
              · rename_i l contents
                obtain ⟨count, p, mem, near⟩ := careful key lon lat idx radius unit behind opts l (by simp [hdest])
                  (by omega) hkey center shape parsed (by simp [there, contents])
                have hit : hits m lon lat radius l ≠ [] := by
                  refine List.ne_nil_of_mem (List.mem_filter.2 ⟨List.mem_map_of_mem mem, ?_⟩)
                  exact near
                have some := arranged_ne_nil hit count
                dsimp only
                split
                · exact store_full full (by simpa using some)
                · exact store_full full (by simpa using some)
    · exact full

/-! ## The other commands -/

theorem delete_full (rest : List Resp) (full : Full s) : Full (delete rest s) := by
  induction rest generalizing s with
  | nil => exact full
  | cons a rest ih =>
    unfold delete
    split
    · exact full
    · exact ih full.erase

theorem setExpire_full {millis absolute : Bool} (full : Full s) : Full (setExpire m millis absolute r s) := by
  refine keyed_full full fun key is accepted => ?_
  split
  · dsimp only
    split
    · exact full
    · rename_i e found
      split
      · exact full
      · split
        · exact full.erase
        · refine full.insert ?_
          exact full.live (e := e) found
  · exact full

theorem cmdPersist_full (full : Full s) : Full (cmdPersist r s) := by
  refine keyed_full full fun key is accepted => ?_
  split
  · exact full
  · rename_i e found
    refine full.insert ?_
    exact full.live (e := e) found

theorem rename_full {src dst : Bytes} (full : Full s) : Full (rename src dst s) := by
  unfold rename
  split
  · exact full
  · rename_i e found
    exact full.erase.insert (full src e found)

theorem cmdRename_full (full : Full s) : Full (cmdRename r s) := by
  refine keyed_full full fun key is accepted => ?_
  split
  · exact full
  · exact rename_full full

theorem cmdRenamenx_full (full : Full s) : Full (cmdRenamenx r s) := by
  refine keyed_full full fun key is accepted => ?_
  split
  · exact full
  · split
    · exact full
    · exact rename_full full

theorem cmdCopy_full (full : Full s) : Full (cmdCopy r s) := by
  refine keyed_full full fun key is accepted => ?_
  split
  · exact full
  · dsimp only
    split
    · exact full
    · split
      · exact full
      · rename_i e found
        exact full.insert (full.live found)

/-- RESTORE, which may decode an empty value. -/
theorem cmdRestore_full (full : Full s) (careful : RestoreCareful m r s) : Full (cmdRestore m r s) := by
  refine keyed_full full fun key is accepted => ?_
  split
  · rename_i ttl payload replace absttl httl hpayload hopts
    split
    · rename_i value deadline decoded hdeadline
      split
      · exact full
      · rename_i room
        refine full.insert (careful key ttl payload replace absttl value is httl hpayload hopts decoded
          (by simp [hdeadline]) ?_)
        cases replace with
        | true => exact .inl rfl
        | false => exact .inr (by simpa using room)
    · exact full
  · exact full

/-- SORT with STORE removes its destination when it has no elements. -/
theorem cmdSort_full (full : Full s) : Full (cmdSort m r s) := by
  refine keyed_full full fun key is accepted => ?_
  split
  · exact full
  · split
    · dsimp only
      split
      · exact full.erase
      · rename_i some
        exact store_full full (by simpa using some)
    · exact full

/-! What takes elements away deletes the key that is empty then. -/

theorem cmdLrem_full (full : Full s) : Full (cmdLrem r s) := by
  refine keyed_full full fun key is accepted => ?_
  split
  · exact shrink_full full
  · exact full

theorem cmdLtrim_full (full : Full s) : Full (cmdLtrim r s) := by
  refine keyed_full full fun key is accepted => ?_
  split
  · exact shrink_full full
  · exact full

theorem cmdZremrangebyrank_full (full : Full s) : Full (cmdZremrangebyrank r s) := by
  refine keyed_full full fun key is accepted => ?_
  split
  · exact shrink_full full
  · exact full

theorem cmdZremrangebyscore_full (full : Full s) : Full (cmdZremrangebyscore m r s) := by
  refine keyed_full full fun key is accepted => ?_
  split
  · exact shrink_full full
  · exact full

theorem cmdSpop_full (full : Full s) : Full (cmdSpop r s) := by
  refine keyed_full full fun key is accepted => ?_
  split
  · exact full
  · exact shrink_full full

theorem cmdLmove_full (full : Full s) : Full (cmdLmove m r s) := by
  refine keyed_full full fun key is accepted => ?_
  split
  · exact lmoveAtomic_full full
  · exact full

theorem cmdRpoplpush_full (full : Full s) : Full (cmdRpoplpush r s) := by
  refine keyed_full full fun key is accepted => ?_
  split
  · exact lmoveAtomic_full full
  · exact full

theorem cmdBlmove_full (full : Full s) : Full (cmdBlmove m r s) := by
  refine keyed_full full fun key is accepted => ?_
  split
  · split
    · exact lmoveAtomic_full full
    · exact full
  · exact full

theorem cmdSmove_full (full : Full s) : Full (cmdSmove r s) := by
  refine keyed_full full fun key is accepted => ?_
  split
  · exact smoveAtomic_full full
  · exact full

/-- BLMPOP that does not wait is LMPOP behind its timeout. -/
theorem cmdBlmpop_full (full : Full s) : Full (cmdBlmpop m r s) := by
  unfold cmdBlmpop
  split
  · exact full
  · split
    · exact full
    · exact lmpop_full full

theorem cmdBzmpop_full (full : Full s) : Full (cmdBzmpop m r s) := by
  unfold cmdBzmpop
  split
  · exact full
  · split
    · exact full
    · exact zmpop_full full

/-- **A careful command leaves no phantom.** -/
theorem Command.run_full (c : Command) (full : Full s) (careful : c.careful m r s) : Full (c.run m r s) := by
  cases c with
  | lpush | rpush => exact push_full full fun _ => careful
  | lpushx | rpushx => exact push_full full nofun
  | lpop | rpop => exact pop_full full
  | lset => exact cmdLset_full full
  | linsert => exact cmdLinsert_full full
  | lrem => exact cmdLrem_full full
  | ltrim => exact cmdLtrim_full full
  | lmove => exact cmdLmove_full full
  | rpoplpush => exact cmdRpoplpush_full full
  | blmove => exact cmdBlmove_full full
  | blpop | brpop => exact blockingPop_full full
  | lmpop => exact lmpop_full full
  | blmpop => exact cmdBlmpop_full full
  | hset | hmset => exact hset_full full careful
  | hdel | srem | zrem => exact keyed_full full fun key is accepted => shrink_full full
  | hsetnx => exact cmdHsetnx_full full
  | hincrby => exact cmdHincrby_full full
  | hincrbyfloat => exact cmdHincrbyfloat_full full
  | sadd => exact cmdSadd_full full careful
  | sunionstore => exact cmdSunionstore_full full careful
  | sinterstore => exact cmdSinterstore_full full careful
  | sdiffstore => exact cmdSdiffstore_full full careful
  | smove => exact cmdSmove_full full
  | spop => exact cmdSpop_full full
  | zadd => exact cmdZadd_full full careful
  | zincrby => exact cmdZincrby_full full
  | zremrangebyrank => exact cmdZremrangebyrank_full full
  | zremrangebyscore => exact cmdZremrangebyscore_full full
  | zpopmin | zpopmax => exact zpop_full full
  | zunionstore => exact cmdZunionstore_full full careful
  | zinterstore => exact cmdZinterstore_full full careful
  | zrangestore => exact cmdZrangestore_full full careful
  | zdiffstore => exact cmdZdiffstore_full full careful
  | zmpop => exact zmpop_full full
  | bzmpop => exact cmdBzmpop_full full
  | bzpopmin | bzpopmax => exact bzpop_full full
  | del | unlink => exact delete_full _ full
  | expire | pexpire | expireat | pexpireat => exact setExpire_full full
  | persist => exact cmdPersist_full full
  | rename => exact cmdRename_full full
  | renamenx => exact cmdRenamenx_full full
  | copy => exact cmdCopy_full full
  | restore => exact cmdRestore_full full careful
  | sort => exact cmdSort_full full
  | flushdb => exact .empty
  | geoadd => exact cmdGeoadd_full full careful
  | geosearchstore => exact cmdGeosearchstore_full full careful

theorem touch_full {t : Bytes × Touch} (full : Full s) : Full (touch t s) := by
  unfold touch
  split
  · exact full.erase
  · split
    · exact full
    · rename_i e found
      refine full.insert ?_
      exact full t.1 e found
  · exact full.insert rfl

end

/-! ## Runs -/

section
variable {m : Machine} {d : Databases}

/-- No database has a phantom. -/
def Databases.Full (d : Databases) : Prop := ∀ db, Collections.Full (d db)

theorem Databases.Full.update (full : d.Full) {db : Nat} {s : Space} (fullToo : Collections.Full s) :
    Databases.Full (Function.update d db s) := by
  intro i
  by_cases same : i = db
  · subst same
    rwa [Function.update_self]
  · rw [Function.update_of_ne same]
    exact full i

/-- MOVE, the only command that writes two databases. -/
theorem cmdMove_full {r : Request} (full : d.Full) : (cmdMove m r d).Full := by
  unfold cmdMove
  split
  · exact full
  · split
    · rename_i key target _ _
      split
      · exact full
      · split
        · exact full
        · rename_i e found
          have whole : e.value.isEmpty = false := full r.db key e found
          split
          · exact full.update ((full r.db).erase.insert whole)
          · exact (full.update (full r.db).erase).update ((full _).insert whole)
    · exact full

/-- The condition of an event in the state it meets. -/
def Careful (m : Machine) : Event → Databases → Prop
  | .request r, d => ∀ c, commandNames.lookup r.name = some c → c.careful m r (d r.db)
  | .gone _ _, _ => True

theorem step_full {e : Event} (full : d.Full) (careful : Careful m e d) : (step m e d).Full := by
  cases e with
  | gone db key => exact full.update (full db).erase
  | request r =>
    show (dispatch m r d).Full
    unfold dispatch
    split
    · rename_i c named
      exact full.update (c.run_full (full r.db) (careful c named))
    · split
      · exact cmdMove_full full
      · split
        · exact fun _ => .empty
        · split
          · refine full.update ?_
            generalize m.touches r (d r.db) = touches
            have start := full r.db
            generalize d r.db = s at start
            induction touches generalizing s with
            | nil => exact start
            | cons t touches ih => exact ih _ (touch_full start)
          · exact full

end

/-! ## What clients see -/

/-- EXISTS of one key. -/
def cmdExists (now : Nat) (s : Space) (key : Bytes) : Bool := (live now s key).isSome

/-- TYPE: the type of what is there. -/
def Value.typeName : Value → String
  | .list _ => "list"
  | .set _ => "set"
  | .hash _ => "hash"
  | .zset _ | .geo _ => "zset"
  | .plain (.stream _) => "stream"
  | .plain _ => "string"

/-- TYPE. -/
def cmdType (now : Nat) (s : Space) (key : Bytes) : String := ((live now s key).map (·.value.typeName)).getD "none"

/-- KEYS. -/
def cmdKeys (now : Nat) (s : Space) (pattern : Bytes) : List Bytes :=
  s.keys.filter fun key => (live now s key).isSome && globMatch pattern key

/-- DBSIZE counts expired entries, too. -/
def cmdDbsize (s : Space) : Nat := s.entries.length

/-- The key is there, with a value that is no empty collection. -/
def Held (now : Nat) (s : Space) (key : Bytes) : Prop := ∃ e, live now s key = some e ∧ e.value.isEmpty = false

/-- No command shows a key that holds nothing. -/
structure NoPhantoms (now : Nat) (s : Space) : Prop where
  live : ∀ key e, live now s key = some e → e.value.isEmpty = false
  exist : ∀ key, cmdExists now s key = true → Held now s key
  type : ∀ key, cmdType now s key ≠ "none" → Held now s key
  keys : ∀ pattern, ∀ key ∈ cmdKeys now s pattern, Held now s key
  dbsize : cmdDbsize s = (s.entries.filter fun e => !e.2.value.isEmpty).length

/-- Without empty values there are no phantoms. -/
theorem Full.noPhantoms {s : Space} (full : Full s) (now : Nat) : NoPhantoms now s := by
  have held : ∀ key, (Collections.live now s key).isSome = true → Held now s key := by
    intro key there
    obtain ⟨e, found⟩ := Option.isSome_iff_exists.1 there
    exact ⟨e, found, full.live found⟩
  refine ⟨fun key e found => full.live found, held, ?_, ?_, ?_⟩
  · intro key shown
    refine held key (Option.isSome_iff_ne_none.2 fun none => shown ?_)
    rw [cmdType, none]
    rfl
  · intro pattern key mem
    simp only [cmdKeys, List.mem_filter, Bool.and_eq_true] at mem
    exact held key mem.2.1
  · have all : s.entries.filter (fun e => !e.2.value.isEmpty) = s.entries := by
      rw [List.filter_eq_self]
      intro e mem
      simpa using full e.1 e.2 (AList.mem_lookup_iff.2 mem)
    rw [all, cmdDbsize]

/-- **No empty collections.** In a run of commands that are careful where they meet the store, no state shows a key
that holds nothing. A command creates its key before it reads its elements, or writes the result of a STORE whatever
it is; `careful` says, for each command, when that leaves something in it. -/
theorem no_empty_collections (m : Machine) (es : List Event) (careful : Trace.Always (step m) (Careful m) es fun _ => ∅)
    (now db : Nat) : NoPhantoms now (Trace.run (step m) es (fun _ => ∅) db) := by
  have start : Databases.Full fun _ => ∅ := fun _ => .empty
  have always := careful.of_invariant (P := fun _ _ => True) start (fun e d full ok => step_full full ok) fun _ _ _ _ => trivial
  exact (always.2 db).noPhantoms now

/-- A server on which no text is a number. -/
def wordy : Machine where
  toEnv := getEnv
  dbCount := 16
  parseF64 _ := none
  add a _ := a
  mul a _ := a
  min a _ := a
  max a _ := a
  formatFloat _ := []
  haversineM _ _ _ _ := ⟨0⟩
  toMeters _ _ := none
  fromMeters x _ := x
  diagonal w _ := w
  decode _ := none
  sorted _ _ items := items
  touches _ _ := []

/-- `RPUSH k a`. -/
def pushing : Request :=
  ⟨0, 0, [.bulkString (some [82, 80, 85, 83, 72]), .bulkString (some [107]), .bulkString (some [97])], id⟩

/-- `LPOP k`. -/
def popping : Request := ⟨1, 0, [.bulkString (some [76, 80, 79, 80]), .bulkString (some [107])], id⟩

/-- The list is there after the push, and its key is gone with the element. -/
theorem no_empty_collections_pushed :
    cmdKeys 0 (Trace.run (step wordy) [.request pushing] (fun _ => ∅) 0) [42] = [[107]] ∧
      cmdDbsize (Trace.run (step wordy) [.request pushing, .request popping] (fun _ => ∅) 0) = 0 ∧
      NoPhantoms 0 (Trace.run (step wordy) [.request pushing] (fun _ => ∅) 0) ∧
      NoPhantoms 1 (Trace.run (step wordy) [.request pushing, .request popping] (fun _ => ∅) 0) := by
  have first : Careful wordy (.request pushing) fun _ => ∅ := by
    intro c named
    have is : commandNames.lookup pushing.name = some .rpush := by decide +kernel
    obtain rfl : Command.rpush = c := Option.some_inj.1 (is.symm.trans named)
    intro key is enough absent
    exact ⟨[97], [], rfl⟩
  have second : Careful wordy (.request popping) (step wordy (.request pushing) fun _ => ∅) := by
    intro c named
    have is : commandNames.lookup popping.name = some .lpop := by decide +kernel
    obtain rfl : Command.lpop = c := Option.some_inj.1 (is.symm.trans named)
    trivial
  refine ⟨by decide +kernel, by decide +kernel, ?_, ?_⟩
  · exact no_empty_collections wordy [.request pushing] ⟨first, trivial⟩ 0 0
  · exact no_empty_collections wordy [.request pushing, .request popping] ⟨first, second, trivial⟩ 1 0

/-- `LPUSH k` with an integer for an element: the handler creates the list, then finds no bytes. -/
def pushingInteger : Request :=
  ⟨0, 0, [.bulkString (some [76, 80, 85, 83, 72]), .bulkString (some [107]), .integer 1], id⟩

/-- `SUNIONSTORE d k` where there is no set: the empty union is stored. -/
def storingNothing : Request :=
  ⟨0, 0, [.bulkString (some (Utf8.asBytes "SUNIONSTORE")), .bulkString (some [100]), .bulkString (some [107])], id⟩

/-- Both leave a key that holds nothing, and KEYS shows it. -/
theorem empty_collections :
    cmdKeys 0 (Trace.run (step wordy) [.request pushingInteger] (fun _ => ∅) 0) [42] = [[107]] ∧
      ¬NoPhantoms 0 (Trace.run (step wordy) [.request pushingInteger] (fun _ => ∅) 0) ∧
      cmdKeys 0 (Trace.run (step wordy) [.request storingNothing] (fun _ => ∅) 0) [42] = [[100]] ∧
      ¬NoPhantoms 0 (Trace.run (step wordy) [.request storingNothing] (fun _ => ∅) 0) := by
  refine ⟨by decide +kernel, fun none => ?_, by decide +kernel, fun none => ?_⟩
  · have size := none.dbsize
    revert size
    decide +kernel
  · have size := none.dbsize
    revert size
    decide +kernel

end NexradeCache.Collections
