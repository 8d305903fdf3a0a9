import NexradeCache.Data.CompactList
import NexradeCache.Data.ZSetData

/-!
# Representation of sorted sets

Both encodings of `ZSetData` hold one list of pairs: increasing in `zKey`, one pair for each
member (`Ordered`). `CompactZSet.Rep` and `SkiplistZSet.Rep` say how, with one lemma for each
operation.

The compact `insert` finds the member and the splice point in one scan. `Scanned P st` says what
the scan knows after the pairs `P`; its splice offset is that of the insertion point in `P` without
the member, which is what makes the post-removal coordinates come out right.
-/

namespace NexradeCache

open Bytes

/-- The members with the keys of their scores. -/
def memberKeys (l : List ZPair) : List (Bytes × Int) := l.map fun e => (e.2, e.1.key)

/-- The length of a member is a `u32`. -/
theorem zCodec_valid {e : ZPair} : zCodec.Valid e ↔ e.2.length < 2 ^ 32 := by
  simp [zCodec, Codec.pair, F64.codec, frameCodec]

@[simp] theorem enc_zCodec (e : ZPair) : zCodec.enc e = CompactZSet.pairBytes e.1 e.2 := by
  simp [zCodec, Codec.pair, frameCodec, frame, CompactZSet.pairBytes]

@[simp] theorem length_pairBytes (score : F64) (member : Bytes) :
    (CompactZSet.pairBytes score member).length = 12 + member.length := by
  simp [CompactZSet.pairBytes]
  omega

/-- Pairs are in order by score and then by member. -/
theorem zKey_lt {a b : ZPair} :
    zKey a < zKey b ↔ a.1.key < b.1.key ∨ a.1.key = b.1.key ∧ a.2 < b.2 := by
  simp [zKey, Prod.Lex.toLex_lt_toLex]

/-- Two pairs of one place have the same member, and scores that compare alike: 0 and -0 do. -/
theorem zKey_inj {a b : ZPair} : zKey a = zKey b ↔ a.1.key = b.1.key ∧ a.2 = b.2 := by
  simp [zKey]

/-- A pair adds its member, wherever it goes. -/
theorem payload_insertBy (l : List ZPair) (e : ZPair) :
    payload ((l.insertBy zKey e).map Prod.snd) = payload (l.map Prod.snd) + e.2.length := by
  have sum := (((List.insertBy_perm zKey e l).map Prod.snd).map List.length).sum_eq
  rw [payload, sum, List.map_cons, List.map_cons, List.sum_cons, Nat.add_comm, payload]

namespace CompactZSet

/-- The comparison of the code is this order. -/
theorem cmpScoreMember_lt_iff (a b : ZPair) :
    cmpScoreMember a.1 a.2 b.1 b.2 = .lt ↔ zKey a < zKey b := by
  have members : cmp a.2 b.2 = .lt ↔ a.2 < b.2 := by
    unfold cmp cmpUsing
    split
    · simp_all
    · split <;> simp_all
  rw [cmpScoreMember, Ordering.then_eq_lt, cmp_eq_lt_iff, cmp_eq_eq_iff, members, zKey_lt]

/-- The buffer is the packed image of `l`, and the cached count and total are those of `l`. -/
structure Rep (c : CompactZSet) (l : List ZPair) : Prop where
  buf : c.buf = zCodec.encs l
  len : c.len = l.length
  bytes : c.bytes = payload (l.map Prod.snd)
  valid : ∀ e ∈ l, zCodec.Valid e

theorem new_rep : new.Rep [] := ⟨rfl, rfl, rfl, by simp⟩

variable {c : CompactZSet} {l a z : List ZPair} {member : Bytes} {score old : F64}

theorem Rep.appendPair (h : c.Rep l) (valid : zCodec.Valid (score, member)) :
    (c.appendPair score member).Rep (l ++ [(score, member)]) where
  buf := by simp [CompactZSet.appendPair, h.buf]
  len := by simp [CompactZSet.appendPair, h.len]
  bytes := by simp [CompactZSet.appendPair, h.bytes]
  valid e he := by
    rw [List.mem_append, List.mem_singleton] at he
    rcases he with he | rfl
    · exact h.valid e he
    · exact valid

theorem foldl_appendPair_rep (h : c.Rep l) (valid : ∀ e ∈ z, zCodec.Valid e) :
    (z.foldl (fun c e => c.appendPair e.1 e.2) c).Rep (l ++ z) := by
  induction z generalizing c l with
  | nil => simpa using h
  | cons e z ih =>
    have rest := ih (h.appendPair (valid e (by simp))) fun e he => valid e (by simp [he])
    simpa using rest

theorem Rep.iterPairs_eq (h : c.Rep l) : c.iterPairs = l.map fun e => (e.2, e.1) := by
  have stop : zCodec.dec c.buf c.buf.length = none := by
    have out : slice c.buf c.buf.length (c.buf.length + 8) = none := by
      rw [slice, if_neg (by omega)]
    simp [zCodec, Codec.pair, F64.codec, out]
  have fuel : l.length ≤ c.buf.length := by
    rw [h.buf]
    clear h stop
    induction l with
    | nil => simp
    | cons e l ih => simp; omega
  rw [iterPairs, zCodec.readToEnd_encs (a := []) (o := 0) h.valid (by simpa using h.buf) rfl fuel stop]

theorem Rep.score_eq (h : c.Rep l) (member : Bytes) :
    c.score member = (l.find? fun e => e.2 == member).map Prod.fst := by
  rw [CompactZSet.score, h.iterPairs_eq, List.find?_map, Option.map_map]
  rfl

/-! ### The scan of `insert` -/

/-- The pairs other than the member's. -/
def others (member : Bytes) (l : List ZPair) : List ZPair := l.filter fun e => e.2 ≠ member

/-- The pairs that stay in front of the new one. -/
def front (member : Bytes) (score : F64) (l : List ZPair) : List ZPair :=
  (others member l).takeWhile fun e => zKey e < zKey (score, member)

/-- A member that is not there leaves all pairs. -/
theorem others_of_absent (absent : ∀ e ∈ l, e.2 ≠ member) : others member l = l :=
  List.filter_eq_self.2 fun e he => by simpa using absent e he

theorem others_append (l m : List ZPair) : others member (l ++ m) = others member l ++ others member m :=
  List.filter_append _ _

/-- One more pair of another member goes to the front part only if it is below the new one and nothing stands
between. -/
theorem front_append {P : List ZPair} {e : ZPair} (score : F64) (other : e.2 ≠ member) :
    others member (P ++ [e]) = others member P ++ [e] ∧
      front member score (P ++ [e]) =
        if (front member score P).length = (others member P).length then
          others member P ++ (if zKey e < zKey (score, member) then [e] else [])
        else front member score P := by
  have grown : others member (P ++ [e]) = others member P ++ [e] := by
    rw [others_append, List.append_cancel_left_eq]
    simp [others, other]
  refine ⟨grown, ?_⟩
  rw [front, grown, List.takeWhile_append, front]
  simp [List.takeWhile_cons]

/-- Where the member is among the scanned pairs: nowhere, or once. -/
def Found (member : Bytes) (l : List ZPair) (f : Option (Nat × F64 × Nat)) (n : Nat) : Prop :=
  (f = none ∧ n = 0 ∧ ∀ e ∈ l, e.2 ≠ member) ∨
  ∃ a z s, l = a ++ (s, member) :: z ∧ (∀ e ∈ a, e.2 ≠ member) ∧ (∀ e ∈ z, e.2 ≠ member) ∧
    f = some ((zCodec.encs a).length, s, 12 + member.length) ∧ n = 12 + member.length

theorem others_split {s : F64} (ha : ∀ e ∈ a, e.2 ≠ member) (hz : ∀ e ∈ z, e.2 ≠ member) :
    others member (a ++ (s, member) :: z) = a ++ z := by
  have gone : others member [(s, member)] = [] := by simp [others]
  rw [← List.singleton_append, others_append, others_append, others_of_absent ha,
    others_of_absent hz, gone, List.nil_append]

theorem Found.length_others {f : Option (Nat × F64 × Nat)} {n : Nat} (h : Found member l f n) :
    (zCodec.encs (others member l)).length + n = (zCodec.encs l).length := by
  obtain ⟨-, rfl, absent⟩ | ⟨a, z, s, rfl, ha, hz, -, rfl⟩ := h
  · rw [others_of_absent absent, Nat.add_zero]
  · rw [others_split ha hz]
    simp
    omega

/-- What the scan knows after the pairs `P`. -/
structure Scanned (member : Bytes) (score : F64) (P : List ZPair) (st : ZScan) : Prop where
  found : Found member P st.found st.foundPlen
  unset : st.insertOffSet = false → front member score P = others member P
  set : st.insertOffSet = true → (front member score P).length ≠ (others member P).length
  insertOff : st.insertOffSet = true → st.insertOff = (zCodec.encs (front member score P)).length

theorem Scanned.hit {P : List ZPair} {st : ZScan} (h : Scanned member score P st)
    (absent : ∀ e ∈ P, e.2 ≠ member) (s : F64) :
    Scanned member score (P ++ [(s, member)])
      { st with found := some ((zCodec.encs P).length, s, 12 + member.length),
                foundPlen := 12 + member.length } := by
  have same : others member (P ++ [(s, member)]) = others member P := by
    rw [others_split absent (by simp), List.append_nil, others_of_absent absent]
  have same' : front member score (P ++ [(s, member)]) = front member score P := by
    rw [front, same, front]
  refine ⟨.inr ⟨P, [], s, rfl, absent, by simp, rfl, rfl⟩, ?_, ?_, ?_⟩
  · rw [same, same']; exact h.unset
  · rw [same, same']; exact h.set
  · rw [same']; exact h.insertOff

/-- A pair of another member: the splice point is set at the first one above the new pair. -/
theorem Scanned.miss {P : List ZPair} {st : ZScan} {e : ZPair} (h : Scanned member score P st)
    (other : e.2 ≠ member) :
    ∃ st', (if !st.insertOffSet && cmpScoreMember score member e.1 e.2 == .lt then do
          let insertOff ← (if st.found.isSome then checkedSub (zCodec.encs P).length st.foundPlen
            else some (zCodec.encs P).length)
          return { st with insertOff, insertOffSet := true }
        else some st) = some st' ∧ Scanned member score (P ++ [e]) st' := by
  obtain ⟨grown, front_eq⟩ := front_append (P := P) score other
  have above : cmpScoreMember score member e.1 e.2 = .lt ↔ ¬ zKey e < zKey (score, member) := by
    have ne : zKey e ≠ zKey (score, member) := fun same => other (zKey_inj.1 same).2
    rw [cmpScoreMember_lt_iff (score, member) e, not_lt, le_iff_lt_or_eq, or_iff_left ne.symm]
  have found : Found member (P ++ [e]) st.found st.foundPlen := by
    have last : ∀ {m : List ZPair}, (∀ x ∈ m, x.2 ≠ member) → ∀ x ∈ m ++ [e], x.2 ≠ member := by
      intro m hm x hx
      rcases List.mem_append.1 hx with hx | hx
      · exact hm x hx
      · rw [List.mem_singleton.1 hx]; exact other
    obtain ⟨none, zero, absent⟩ | ⟨a, z, s, rfl, ha, hz, some, plen⟩ := h.found
    · exact .inl ⟨none, zero, last absent⟩
    · exact .inr ⟨a, z ++ [e], s, by simp, ha, last hz, some, plen⟩
  have length := h.found.length_others
  -- before removal the splice point is at `P`'s end, less the dropped pair when there is one
  have off : (if st.found.isSome then checkedSub (zCodec.encs P).length st.foundPlen
      else some (zCodec.encs P).length) = some (zCodec.encs (others member P)).length := by
    obtain ⟨none, zero, absent⟩ | ⟨a, z, s, -, -, -, some, plen⟩ := h.found
    · simp [none, others_of_absent absent]
    · simp only [some, Option.isSome_some, if_true]
      rw [checkedSub_of_le (by omega), ← length, Nat.add_sub_cancel]
  cases set : st.insertOffSet with
  | true =>
    have stays : front member score (P ++ [e]) = front member score P := by
      rw [front_eq, if_neg (h.set set)]
    refine ⟨st, by simp, found, by simp [set], fun _ => ?_, fun _ => ?_⟩
    · have le : (front member score P).length ≤ (others member P).length :=
        (List.takeWhile_sublist _).length_le
      rw [stays, grown, List.length_append, List.length_singleton]
      omega
    · rw [stays]; exact h.insertOff set
  | false =>
    rw [if_pos (congrArg List.length (h.unset set))] at front_eq
    by_cases lt : zKey e < zKey (score, member)
    · have grows : front member score (P ++ [e]) = others member P ++ [e] := by
        rw [front_eq, if_pos lt]
      have notLt : cmpScoreMember score member e.1 e.2 ≠ .lt := fun hlt => above.1 hlt lt
      refine ⟨st, by simp [notLt], found, fun _ => grows.trans grown.symm, ?_, ?_⟩
      · simp [set]
      · simp [set]
    · have stays : front member score (P ++ [e]) = others member P := by
        rw [front_eq, if_neg lt, List.append_nil]
      refine ⟨{ st with insertOff := (zCodec.encs (others member P)).length, insertOffSet := true },
        ?_, found, by simp, fun _ => ?_, fun _ => ?_⟩
      · rw [off]
        simp [above.2 lt]
      · rw [stays, grown, List.length_append, List.length_singleton]
        omega
      · rw [stays]

/-- The scan as a whole, by induction on the pairs it has not seen. -/
theorem scan_eq {buf : Bytes} (P : List ZPair) (st : ZScan) (valid : ∀ e ∈ l, zCodec.Valid e)
    (hbuf : buf = zCodec.encs (P ++ l)) (nodup : ((P ++ l).map Prod.snd).Nodup)
    (h : Scanned member score P st) :
    ∃ st', scan buf member score l.length (zCodec.encs P).length st = some st' ∧
      Scanned member score (P ++ l) st' := by
  induction l generalizing P st with
  | nil => exact ⟨st, rfl, by simpa using h⟩
  | cons e l ih =>
    have here := zCodec.dec_cons (a := zCodec.encs P) (z := []) (l := l) (valid e (by simp))
      (by simpa using hbuf) rfl
    have next : (zCodec.encs P).length + (12 + e.2.length) = (zCodec.encs (P ++ [e])).length := by simp
    have shift : P ++ e :: l = (P ++ [e]) ++ l := by simp
    have continue_ : ∀ st', Scanned member score (P ++ [e]) st' →
        ∃ st'', scan buf member score l.length ((zCodec.encs P).length + (12 + e.2.length)) st' = some st'' ∧
          Scanned member score (P ++ e :: l) st'' := by
      intro st' h'
      rw [next, shift]
      exact ih (P ++ [e]) st' (fun x hx => valid x (by simp [hx])) (by rw [hbuf, shift])
        (by rw [← shift]; exact nodup) h'
    rw [List.length_cons, scan, here]
    simp only [Option.bind_eq_bind, Option.bind_some]
    by_cases hit : e.2 = member
    · have absent : ∀ x ∈ P, x.2 ≠ member := by
        intro x hx same
        rw [List.map_append, List.nodup_append] at nodup
        exact nodup.2.2 x.2 (List.mem_map_of_mem hx) e.2 (by simp) (same.trans hit.symm)
      obtain ⟨s, m⟩ := e
      obtain rfl : m = member := hit
      rw [if_pos rfl]
      exact continue_ _ (h.hit absent s)
    · rw [if_neg hit]
      obtain ⟨st', step, h'⟩ := h.miss (e := e) hit
      obtain ⟨st'', run, h''⟩ := continue_ st' h'
      refine ⟨st'', ?_, h''⟩
      simp only [Option.bind_eq_bind] at step
      rw [step]
      exact run

/-- The scan over a represented set, with the splice offset `insert` settles on. -/
theorem Rep.scan_eq (h : c.Rep l) (nodup : (l.map Prod.snd).Nodup) (member : Bytes) (score : F64) :
    ∃ st, scan c.buf member score c.len 0 ⟨none, c.buf.length, false, 0⟩ = some st ∧
      Found member l st.found st.foundPlen ∧
      (if st.insertOffSet then some st.insertOff else checkedSub c.buf.length st.foundPlen) =
        some (zCodec.encs (front member score l)).length := by
  have start : Scanned member score [] ⟨none, c.buf.length, false, 0⟩ :=
    ⟨.inl ⟨rfl, rfl, by simp⟩, by simp [front, others], by simp, by simp⟩
  obtain ⟨st, run, scanned⟩ := CompactZSet.scan_eq [] _ h.valid h.buf nodup start
  rw [List.nil_append] at scanned
  refine ⟨st, by rw [h.len]; exact run, scanned.found, ?_⟩
  cases set : st.insertOffSet with
  | true => simpa using scanned.insertOff set
  | false =>
    have length := scanned.found.length_others
    rw [← h.buf] at length
    simp only [Bool.false_eq_true, if_false]
    rw [checkedSub_of_le (by omega), scanned.unset set, ← length, Nat.add_sub_cancel]

/-- The splice point cuts the pairs without the member where the new pair belongs. -/
theorem encs_insertBy (l : List ZPair) (member : Bytes) (score : F64) :
    ∃ z, zCodec.encs (others member l) = zCodec.encs (front member score l) ++ zCodec.encs z ∧
      zCodec.encs ((others member l).insertBy zKey (score, member)) =
        zCodec.encs (front member score l) ++ pairBytes score member ++ zCodec.encs z := by
  refine ⟨(others member l).dropWhile fun e => zKey e < zKey (score, member), ?_, ?_⟩
  · rw [front, ← Codec.encs_append, List.takeWhile_append_dropWhile]
  · simp [List.insertBy, front]

theorem insertBy_rep (hbuf : c.buf = zCodec.encs (l.insertBy zKey (score, member)))
    (hlen : c.len = l.length + 1) (hbytes : c.bytes = payload (l.map Prod.snd) + member.length)
    (valid : ∀ e ∈ l, zCodec.Valid e) (new : zCodec.Valid (score, member)) :
    c.Rep (l.insertBy zKey (score, member)) := by
  have perm : (l.insertBy zKey (score, member)).Perm ((score, member) :: l) := List.insertBy_perm _ _ _
  refine ⟨hbuf, ?_, ?_, ?_⟩
  · rw [hlen, perm.length_eq, List.length_cons]
  · rw [hbytes, payload_insertBy]
  · intro e he
    rcases List.mem_cons.1 (perm.mem_iff.1 he) with rfl | he
    · exact new
    · exact valid e he

theorem Rep.insert_new (h : c.Rep l) (nodup : (l.map Prod.snd).Nodup)
    (absent : ∀ e ∈ l, e.2 ≠ member) (valid : zCodec.Valid (score, member)) :
    ∃ c', c.insert member score = some (c', true) ∧ c'.Rep (l.insertBy zKey (score, member)) := by
  obtain ⟨st, run, found, off⟩ := h.scan_eq nodup member score
  obtain ⟨none, zero, -⟩ | ⟨a, z, s, rfl, -⟩ := found
  swap
  · exact absurd rfl (absent (s, member) (by simp))
  have whole := others_of_absent absent
  obtain ⟨z, cut, spliced⟩ := encs_insertBy l member score
  rw [whole] at cut spliced
  refine ⟨⟨zCodec.encs (l.insertBy zKey (score, member)), c.len + 1, c.bytes + member.length⟩, ?_,
    insertBy_rep rfl (by rw [h.len]) (by rw [h.bytes]) h.valid valid⟩
  simp only [CompactZSet.insert, run, off, none, Option.bind_eq_bind, Option.bind_some]
  split
  · -- the splice point is the end of the buffer: nothing stays behind the new pair
    rename_i atEnd
    have nothing : zCodec.encs z = [] := by
      rw [h.buf, cut, List.length_append] at atEnd
      exact List.length_eq_zero_iff.1 (by omega)
    rw [spliced, nothing]
    rw [nothing, List.append_nil] at cut
    simp [CompactZSet.appendPair, h.buf, cut]
  · have head : slice c.buf 0 (zCodec.encs (front member score l)).length =
        some (zCodec.encs (front member score l)) := slice_from_start (h.buf.trans cut) rfl
    have tail : slice c.buf (zCodec.encs (front member score l)).length c.buf.length =
        some (zCodec.encs z) := slice_to_end (h.buf.trans cut) rfl
    rw [head, tail, spliced]
    rfl

/-- A score update moves the pair to its new place; an equal score changes nothing. -/
theorem Rep.insert_present (h : c.Rep l) (nodup : (l.map Prod.snd).Nodup)
    (present : ∃ e ∈ l, e.2 = member) (valid : zCodec.Valid (score, member)) :
    ∃ a z old c', l = a ++ (old, member) :: z ∧ c.insert member score = some (c', false) ∧
      c'.Rep (if old.key = score.key then l else (a ++ z).insertBy zKey (score, member)) := by
  obtain ⟨st, run, found, off⟩ := h.scan_eq nodup member score
  obtain ⟨-, -, absent⟩ | ⟨a, z, old, rfl, ha, hz, hit, -⟩ := found
  · obtain ⟨e, he, same⟩ := present
    exact absurd same (absent e he)
  obtain ⟨y, cut, spliced⟩ := encs_insertBy (a ++ (old, member) :: z) member score
  rw [others_split ha hz] at cut spliced
  by_cases same : old.key = score.key
  · refine ⟨a, z, old, c, rfl, ?_, by rwa [if_pos same]⟩
    simp only [CompactZSet.insert, run, off, hit, Option.bind_eq_bind, Option.bind_some,
      (F64.eq_or_isNaN_iff old score).2 same, if_true]
    rfl
  · have before : slice c.buf 0 (zCodec.encs a).length = some (zCodec.encs a) :=
      slice_from_start (b := zCodec.encs ((old, member) :: z)) (by simp [h.buf]) rfl
    have after : slice c.buf ((zCodec.encs a).length + (12 + member.length)) c.buf.length =
        some (zCodec.encs z) :=
      slice_to_end (a := zCodec.encs a ++ zCodec.enc (old, member)) (by simp [h.buf]) (by simp)
    rw [Codec.encs_append] at cut
    have head : slice (zCodec.encs a ++ zCodec.encs z) 0
        (zCodec.encs (front member score (a ++ (old, member) :: z))).length =
        some (zCodec.encs (front member score (a ++ (old, member) :: z))) := slice_from_start cut rfl
    have tail : slice (zCodec.encs a ++ zCodec.encs z)
        (zCodec.encs (front member score (a ++ (old, member) :: z))).length
        (zCodec.encs a ++ zCodec.encs z).length = some (zCodec.encs y) := slice_to_end cut rfl
    refine ⟨a, z, old, { c with buf := zCodec.encs ((a ++ z).insertBy zKey (score, member)) }, rfl, ?_, ?_⟩
    · have changed : (old.eq score || (old.isNaN && score.isNaN)) = false := by
        rw [← Bool.not_eq_true, F64.eq_or_isNaN_iff]
        exact same
      simp only [CompactZSet.insert, run, off, hit, Option.bind_eq_bind, Option.bind_some, changed,
        Bool.false_eq_true, if_false, before, after]
      rw [head, tail, spliced]
      rfl
    · rw [if_neg same]
      refine insertBy_rep rfl ?_ ?_ ?_ valid
      · rw [show _ = c.len from rfl, h.len]
        simp only [List.length_append, List.length_cons]
        omega
      · rw [show _ = c.bytes from rfl, h.bytes]
        simp only [List.map_append, List.map_cons, payload_append, payload_cons]
        omega
      · intro e he
        refine h.valid e ?_
        rw [List.mem_append] at he ⊢
        exact he.imp_right (List.mem_cons_of_mem _)

theorem Rep.remove_miss (h : c.Rep l) (miss : ∀ e ∈ l, e.2 ≠ member) :
    c.remove member = some (c, none) := by
  have missed := zCodec.findAt_none (p := fun e => e.2 == member) (a := []) (z := []) (o := 0)
    h.valid (by simpa using h.buf) rfl (fun e he => by simpa using miss e he)
  rw [← h.len] at missed
  simp [CompactZSet.remove, missed]

theorem Rep.remove_hit (h : c.Rep (a ++ (old, member) :: z)) (miss : ∀ e ∈ a, e.2 ≠ member) :
    ∃ c', c.remove member = some (c', some old) ∧ c'.Rep (a ++ z) := by
  have found := zCodec.findAt_some (p := fun e => e.2 == member) (m := a) (a := []) (z := []) (o := 0)
    (fun e he => h.valid e (by simp [he])) (h.valid (old, member) (by simp)) (by simpa using h.buf)
    rfl (fun e he => by simpa using miss e he) (by simp)
  rw [← h.len, Nat.zero_add] at found
  have before : slice c.buf 0 (zCodec.encs a).length = some (zCodec.encs a) :=
    slice_from_start (b := zCodec.encs ((old, member) :: z)) (by simp [h.buf]) rfl
  have after : slice c.buf ((zCodec.encs a).length + (12 + member.length)) c.buf.length =
      some (zCodec.encs z) :=
    slice_to_end (a := zCodec.encs a ++ zCodec.enc (old, member)) (by simp [h.buf]) (by simp)
  have len : c.len = (a ++ z).length + 1 := by
    rw [h.len]
    simp only [List.length_append, List.length_cons]
    omega
  have bytes : c.bytes = payload ((a ++ z).map Prod.snd) + member.length := by
    rw [h.bytes]
    simp only [List.map_append, List.map_cons, payload_append, payload_cons]
    omega
  refine ⟨⟨zCodec.encs (a ++ z), (a ++ z).length, payload ((a ++ z).map Prod.snd)⟩, ?_, rfl, rfl, rfl, ?_⟩
  · rw [CompactZSet.remove, found]
    simp [before, after, len, bytes]
  · intro e he
    refine h.valid e ?_
    rw [List.mem_append] at he ⊢
    exact he.imp_right (List.mem_cons_of_mem _)

end CompactZSet

/-! ## Ordered pairs and the map they list -/

/-- `l` is in score order and lists the members of `k` with the keys of their scores. -/
structure Ordered (l : List ZPair) (k : Bytes → Option Int) : Prop where
  sorted : l.Increasing zKey
  lists : ListsMap (memberKeys l) k

namespace Ordered

variable {l a z : List ZPair} {k : Bytes → Option Int} {member : Bytes} {score old : F64}

/-- The members of the keys are those of the pairs. -/
theorem members_eq (l : List ZPair) : (memberKeys l).map Prod.fst = l.map Prod.snd := by
  simp [memberKeys]

theorem nodup (h : Ordered l k) : (l.map Prod.snd).Nodup := members_eq l ▸ h.lists.nodup

theorem absent (h : Ordered l k) (hk : k member = none) : ∀ e ∈ l, e.2 ≠ member := fun e he =>
  h.lists.absent hk (e.2, e.1.key) (List.mem_map_of_mem he)

theorem key_of_mem (h : Ordered l k) {e : ZPair} (he : e ∈ l) : k e.2 = some e.1.key :=
  (h.lists.mem _ _).1 (List.mem_map_of_mem he)

theorem mem_of_key (h : Ordered l k) {x : Int} (hk : k member = some x) :
    ∃ e ∈ l, e.2 = member ∧ e.1.key = x := by
  obtain ⟨e, he, same⟩ := List.mem_map.1 ((h.lists.mem member x).2 hk)
  exact ⟨e, he, congrArg Prod.fst same, congrArg Prod.snd same⟩

theorem split (h : Ordered l k) {x : Int} (hk : k member = some x) :
    ∃ a z s, l = a ++ (s, member) :: z ∧ s.key = x ∧ ∀ e ∈ a, e.2 ≠ member := by
  obtain ⟨⟨s, m⟩, he, rfl, rfl⟩ := h.mem_of_key hk
  obtain ⟨a, z, rfl⟩ := List.append_of_mem he
  refine ⟨a, z, s, rfl, rfl, fun e ha same => ?_⟩
  have nodup := h.nodup
  rw [List.map_append, List.nodup_append] at nodup
  exact nodup.2.2 e.2 (List.mem_map_of_mem ha) m (by simp) same

theorem insert_new (h : Ordered l k) (hk : k member = none) (score : F64) :
    Ordered (l.insertBy zKey (score, member)) (Function.update k member (some score.key)) := by
  refine ⟨h.sorted.insertBy fun e he same => h.absent hk e he (zKey_inj.1 same).2, ?_⟩
  refine (h.lists.append_new hk).perm ?_
  have perm := (List.insertBy_perm zKey (score, member) l).map fun e : ZPair => (e.2, e.1.key)
  exact perm.trans (List.perm_append_singleton _ _).symm

theorem remove (h : Ordered (a ++ (old, member) :: z) k) :
    Ordered (a ++ z) (Function.update k member none) := by
  refine ⟨h.sorted.sublist ((List.sublist_cons_self (old, member) z).append_left a), ?_⟩
  have lists := h.lists
  rw [memberKeys, List.map_append, List.map_cons] at lists
  rw [memberKeys, List.map_append]
  exact lists.remove

theorem move (h : Ordered (a ++ (old, member) :: z) k) (score : F64) :
    Ordered ((a ++ z).insertBy zKey (score, member)) (Function.update k member (some score.key)) := by
  have gone : Function.update k member none member = none := by simp
  have moved := h.remove.insert_new gone score
  rwa [Function.update_idem] at moved

/-- A score that compares alike leaves the place, and the pair. -/
theorem same (h : Ordered (a ++ (old, member) :: z) k) (eq : old.key = score.key) :
    Ordered (a ++ (old, member) :: z) (Function.update k member (some score.key)) := by
  have here := h.key_of_mem (e := (old, member)) (by simp)
  rwa [← eq, ← here, Function.update_eq_self]

/-- Both ways a known member's score is stored again. -/
theorem rescored (h : Ordered (a ++ (old, member) :: z) k) (score : F64) :
    Ordered (if old.key = score.key then a ++ (old, member) :: z
        else (a ++ z).insertBy zKey (score, member)) (Function.update k member (some score.key)) := by
  split
  · rename_i eq
    exact h.same eq
  · exact h.move score

end Ordered

/-- What is there after an insert was there, or is the new pair. -/
theorem mem_insertBy {e : ZPair} {l : List ZPair} {score : F64} {member : Bytes}
    (he : e ∈ l.insertBy zKey (score, member)) : e ∈ l ∨ e = (score, member) :=
  (List.mem_cons.1 ((List.insertBy_perm zKey (score, member) l).mem_iff.1 he)).symm

theorem mem_rescored {e : ZPair} {a z : List ZPair} {old score : F64} {member : Bytes}
    (he : e ∈ if old.key = score.key then a ++ (old, member) :: z
      else (a ++ z).insertBy zKey (score, member)) :
    e ∈ a ++ (old, member) :: z ∨ e = (score, member) := by
  split at he
  · exact .inl he
  · refine (mem_insertBy he).imp_left fun he => ?_
    rw [List.mem_append] at he ⊢
    exact he.imp_right (List.mem_cons_of_mem _)

/-! ## The indexed encoding -/

/-- The index holds `l`, the map lists the same members with the same score keys, and the
cached total is that of the members. -/
structure SkiplistZSet.Rep (s : SkiplistZSet) (l : List ZPair) : Prop where
  items : s.byScore.items = l
  lists : ListsMap (memberKeys l) fun m => (s.members.lookup m).map F64.key
  bytes : s.bytes = payload (l.map Prod.snd)
  valid : ∀ e ∈ l, zCodec.Valid e

namespace SkiplistZSet

variable {s : SkiplistZSet} {l a z : List ZPair} {k : Bytes → Option Int} {member : Bytes}
  {score old old' : F64}

theorem Rep.ordered (rep : s.Rep l) : Ordered l fun m => (s.members.lookup m).map F64.key :=
  ⟨rep.items ▸ s.byScore.sorted, rep.lists⟩

theorem Rep.lookup_key (rep : s.Rep l) (h : Ordered l k) (m : Bytes) :
    (s.members.lookup m).map F64.key = k m :=
  congrFun (rep.lists.map_unique h.lists) m

theorem map_lookup_insert (m : AList fun _ : Bytes => F64) (member : Bytes) (score : F64) :
    (fun x => ((m.insert member score).lookup x).map F64.key) =
      Function.update (fun x => (m.lookup x).map F64.key) member (some score.key) := by
  funext x
  have look := congrFun (AList.lookup_insert_update m member score) x
  rw [look]
  by_cases hx : x = member
  · subst hx
    simp
  · simp [hx]

theorem map_lookup_erase (m : AList fun _ : Bytes => F64) (member : Bytes) :
    (fun x => ((m.erase member).lookup x).map F64.key) =
      Function.update (fun x => (m.lookup x).map F64.key) member none := by
  funext x
  have look := congrFun (AList.lookup_erase_update m member) x
  rw [look]
  by_cases hx : x = member
  · subst hx
    simp
  · simp [hx]

theorem Rep.insert_new (rep : s.Rep l) (new : s.members.lookup member = none)
    (valid : zCodec.Valid (score, member)) :
    ∃ s', s.insert member score = (s', true) ∧ s'.Rep (l.insertBy zKey (score, member)) := by
  have hk : (s.members.lookup member).map F64.key = none := by rw [new]; rfl
  have ordered := rep.ordered.insert_new hk score
  rw [← map_lookup_insert] at ordered
  have free : ∀ e ∈ s.byScore.items, zKey e ≠ zKey (score, member) := by
    rw [rep.items]
    exact fun e he same => rep.ordered.absent hk e he (zKey_inj.1 same).2
  have perm := List.insertBy_perm zKey (score, member) l
  refine ⟨⟨s.members.insert member score, s.byScore.insert (score, member), s.bytes + member.length⟩,
    by simp [SkiplistZSet.insert, new], ?_, ordered.lists, ?_, ?_⟩
  · rw [OrdSet.insert_items free, rep.items]
  · rw [payload_insertBy, rep.bytes]
  · intro e he
    rcases List.mem_cons.1 (perm.mem_iff.1 he) with rfl | he
    · exact valid
    · exact rep.valid e he

/-- What the index holds when a member's pair goes. -/
theorem Rep.remove_items (rep : s.Rep (a ++ (old, member) :: z)) (same : old.key = old'.key) :
    (s.byScore.remove (old', member)).items = a ++ z :=
  OrdSet.remove_items rep.items (zKey_inj.2 ⟨same, rfl⟩)

/-- ZADD of a member that is there: the old pair is taken out by the score of the map. -/
theorem Rep.insert_present (rep : s.Rep (a ++ (old, member) :: z))
    (look : s.members.lookup member = some old') (same : old.key = old'.key)
    (valid : zCodec.Valid (score, member)) :
    ∃ s', s.insert member score = (s', false) ∧
      s'.Rep (if old.key = score.key then a ++ (old, member) :: z
        else (a ++ z).insertBy zKey (score, member)) := by
  by_cases eq : old.key = score.key
  · have lists := (rep.ordered.same eq).lists
    rw [← map_lookup_insert] at lists
    refine ⟨{ s with members := s.members.insert member score }, ?_, ?_⟩
    · simp [SkiplistZSet.insert, look, ← same, eq]
    · rw [if_pos eq]
      exact ⟨rep.items, lists, rep.bytes, rep.valid⟩
  · have moved := rep.ordered.move score
    rw [← map_lookup_insert] at moved
    have rest := rep.remove_items same
    have free : ∀ e ∈ (s.byScore.remove (old', member)).items, zKey e ≠ zKey (score, member) := by
      have nodup := rep.ordered.nodup
      rw [List.map_append, List.map_cons, List.nodup_middle, List.nodup_cons, ← List.map_append] at nodup
      rw [rest]
      exact fun e he key => nodup.1 (List.mem_map.2 ⟨e, he, (zKey_inj.1 key).2⟩)
    have perm := List.insertBy_perm zKey (score, member) (a ++ z)
    refine ⟨{ s with members := s.members.insert member score, byScore :=
      (s.byScore.remove (old', member)).insert (score, member) }, ?_, ?_⟩
    · simp [SkiplistZSet.insert, look, ← same, eq]
    · rw [if_neg eq]
      refine ⟨?_, moved.lists, ?_, ?_⟩
      · rw [OrdSet.insert_items free, rest]
      · rw [payload_insertBy, show _ = s.bytes from rfl, rep.bytes]
        simp only [List.map_append, List.map_cons, payload_append, payload_cons]
        omega
      · intro e he
        rcases List.mem_cons.1 (perm.mem_iff.1 he) with rfl | he
        · exact valid
        · refine rep.valid e ?_
          rw [List.mem_append] at he ⊢
          exact he.imp_right (List.mem_cons_of_mem _)

theorem Rep.remove_hit (rep : s.Rep (a ++ (old, member) :: z))
    (look : s.members.lookup member = some old') (same : old.key = old'.key) :
    ∃ s', s.remove member = (s', some old') ∧ s'.Rep (a ++ z) := by
  have lists := rep.ordered.remove.lists
  rw [← map_lookup_erase] at lists
  refine ⟨⟨s.members.erase member, s.byScore.remove (old', member), s.bytes - member.length⟩,
    by simp [SkiplistZSet.remove, look], rep.remove_items same, lists, ?_, ?_⟩
  · rw [rep.bytes]
    simp only [List.map_append, List.map_cons, payload_append, payload_cons]
    omega
  · intro e he
    refine rep.valid e ?_
    rw [List.mem_append] at he ⊢
    exact he.imp_right (List.mem_cons_of_mem _)

theorem new_rep : new.Rep [] := ⟨rfl, .nil, rfl, by simp⟩

/-- Inserting new members one by one, in any order. -/
theorem foldl_insert_rep (es : List (Bytes × F64)) (rep : s.Rep l)
    (nodup : (es.map Prod.fst).Nodup) (new : ∀ e ∈ es, s.members.lookup e.1 = none)
    (valid : ∀ e ∈ es, zCodec.Valid (e.2, e.1)) :
    ∃ l', (es.foldl (fun sk e => (sk.insert e.1 e.2).1) s).Rep l' ∧
      l'.Perm ((es.map fun e => ((e.2, e.1) : ZPair)) ++ l) := by
  induction es generalizing s l with
  | nil => exact ⟨l, rep, .refl l⟩
  | cons e es ih =>
    have here := new e (by simp)
    rw [List.map_cons, List.nodup_cons] at nodup
    obtain ⟨s', run, rep'⟩ := rep.insert_new here (valid e (by simp))
    have members : s'.members = s.members.insert e.1 e.2 := by
      have := congrArg (fun r => r.1.members) run
      simpa [SkiplistZSet.insert, here] using this.symm
    obtain ⟨l', rep'', perm⟩ := ih rep' nodup.2 (by
      intro x hx
      have other : x.1 ≠ e.1 := fun same => nodup.1 (same ▸ List.mem_map_of_mem hx)
      rw [members, AList.lookup_insert_ne other]
      exact new x (by simp [hx])) (fun x hx => valid x (by simp [hx]))
    refine ⟨l', by rwa [List.foldl_cons, run], perm.trans ?_⟩
    rw [List.map_cons, List.cons_append]
    exact ((List.insertBy_perm zKey (e.2, e.1) l).append_left _).trans List.perm_middle

end SkiplistZSet

end NexradeCache
