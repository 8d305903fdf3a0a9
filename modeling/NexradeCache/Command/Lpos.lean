import NexradeCache.Command.ListIndex

/-!
# Positions of an element in a list (`nexrade-core/src/command/list.rs`)

LPOS scans a list from its head or, for a negative RANK, from its tail. `scan_eq` says what its loop collects, and
`positions_iff` when that is what was asked for: COUNT 0 stops at the first position although it asks for all, and the
positions of a scan from the tail are put into the order of the list.
-/

namespace NexradeCache

namespace Lpos

/-! ## The code -/

/-- RANK, COUNT and MAXLEN with their defaults. -/
structure LposOptions where
  rank : Int64 := 1
  count : Option Nat := none
  maxlen : Nat := 0
deriving DecidableEq

/-- The value of COUNT or MAXLEN. -/
def sizeArg (a : Option Resp) : Result Nat := do
  let n ← i64Arg "lpos" a
  if n < 0 then throw (.generic "value is not an integer or out of range")
  return n.toUInt64.toNat

def rankArg (a : Option Resp) : Result Int64 := do
  let r ← i64Arg "lpos" a
  if r = 0 then
    throw (.generic
      "RANK can't be zero: use 1 to start from the first match, 2 from the second, ...")
  return r

/-- The loop over the optional arguments; `to_uppercase` is a parameter. -/
def lposOptions (toUppercase : String → String) : (rest : List Resp) → LposOptions → Result LposOptions
  | [], o => return o
  | a :: rest, o => do
    let opt := a.asStr.map toUppercase
    if opt = some "RANK" then
      let rank ← rankArg rest.head?
      match rest with
      | _ :: rest => lposOptions toUppercase rest { o with rank }
      | [] => throw (.wrongArity "lpos")
    else if opt = some "COUNT" then
      let count ← sizeArg rest.head?
      match rest with
      | _ :: rest => lposOptions toUppercase rest { o with count := some count }
      | [] => throw (.wrongArity "lpos")
    else if opt = some "MAXLEN" then
      let maxlen ← sizeArg rest.head?
      match rest with
      | _ :: rest => lposOptions toUppercase rest { o with maxlen }
      | [] => throw (.wrongArity "lpos")
    else throw .syntaxError

/-- An LPOS that was read. -/
structure LposCall where
  key : Bytes
  element : Bytes
  options : LposOptions
deriving DecidableEq

def lposCall (toUppercase : String → String) (args : List Resp) : Result LposCall := do
  if args.length < 3 then throw (.wrongArity "lpos")
  let key ← bytesArg "lpos" args[1]?
  let element ← bulkArg "lpos" args[2]?
  let options ← lposOptions toUppercase (args.drop 3) {}
  return ⟨key, element, options⟩

/-- The loop of either direction, with the matches seen and the positions collected so far. -/
def scan (element : Bytes) (rank want : Nat) : List (Bytes × Nat) → Nat → List Nat → List Nat
  | [], _, results => results
  | (v, idx) :: rest, seen, results =>
    if v = element then
      if rank ≤ seen + 1 then
        let results := results ++ [idx]
        if want ≤ results.length then results else scan element rank want rest (seen + 1) results
      else scan element rank want rest (seen + 1) results
    else scan element rank want rest seen results

/-- What is scanned: the elements with their positions, up to the limit. -/
def scanned (o : LposOptions) (elems : List Bytes) : List (Bytes × Nat) :=
  let limit := if o.maxlen = 0 then elems.length else min o.maxlen elems.length
  (if 0 ≤ o.rank then elems.zipIdx else elems.zipIdx.reverse).take limit

def lposResults (o : LposOptions) (element : Bytes) (elems : List Bytes) : List Nat :=
  let results := scan element o.rank.toInt.natAbs (o.count.getD 1) (scanned o elems) 0 []
  if 0 ≤ o.rank then results else results.reverse

/-- All the results under COUNT, else the first one. -/
def lposReply (count : Option Nat) (results : List Nat) : Resp :=
  let results := results.map fun idx => Resp.integer (.ofNat idx)
  match count with
  | some _ => .array (some results)
  | none => results.head?.getD (.bulkString none)

def cmdLpos (toUppercase : String → String) (now : Nat) (args : List Resp) (s : Database) : Option (Result Resp) :=
  match lposCall toUppercase args with
  | .error e => some (.error e)
  | .ok c => match s.getRo now c.key with
    | none => some (.ok (lposReply c.options.count []))
    | some e => match e.value with
      | .list list => list.toVecBytes.map fun elems => .ok (lposReply c.options.count (lposResults c.options c.element elems))
      | _ => some (.error .wrongType)

/-! ## What was asked for -/

/-- The positions of the matches among what is scanned, in the order of the scan. -/
def matchesOf (element : Bytes) (l : List (Bytes × Nat)) : List Nat := (l.filter fun x => x.1 = element).map Prod.snd

/-- The matches from the one of this rank on. -/
def fromRank (o : LposOptions) (element : Bytes) (elems : List Bytes) : List Nat :=
  (matchesOf element (scanned o elems)).drop (o.rank.toInt.natAbs - 1)

/-- The first of them without COUNT, all for COUNT 0, else as many as COUNT says. -/
def counted (count : Option Nat) (ps : List Nat) : List Nat :=
  match count with
  | none => ps.take 1
  | some 0 => ps
  | some n => ps.take n

/-! ## What the loop collects -/

variable {element : Bytes} {rank want : Nat}

theorem matchesOf_cons_of_eq (idx : Nat) (rest : List (Bytes × Nat)) :
    matchesOf element ((element, idx) :: rest) = idx :: matchesOf element rest := by
  simp [matchesOf]

theorem matchesOf_cons_of_ne {v : Bytes} (ne : v ≠ element) (idx : Nat) (rest : List (Bytes × Nat)) :
    matchesOf element ((v, idx) :: rest) = matchesOf element rest := by
  simp [matchesOf, ne]

/-- While there is room, the loop collects the matches from the rank on that fill it; one in any case. -/
theorem scan_eq (l : List (Bytes × Nat)) (seen : Nat) (results : List Nat) (room : results.length < max want 1) :
    scan element rank want l seen results =
      results ++ ((matchesOf element l).drop (rank - 1 - seen)).take (max want 1 - results.length) := by
  induction l generalizing seen results with
  | nil => simp [scan, matchesOf]
  | cons x l ih =>
    obtain ⟨v, idx⟩ := x
    rw [scan]
    by_cases hit : v = element
    · rw [if_pos hit]
      subst hit
      rw [matchesOf_cons_of_eq]
      by_cases reached : rank ≤ seen + 1
      · have start : rank - 1 - seen = 0 := by omega
        have next : rank - 1 - (seen + 1) = 0 := by omega
        rw [if_pos reached, start, List.drop_zero]
        by_cases full : want ≤ (results ++ [idx]).length
        · rw [if_pos full]
          rw [List.length_append, List.length_singleton] at full
          have last : max want 1 - results.length = 1 := by omega
          rw [last, List.take_succ_cons, List.take_zero]
        · rw [if_neg full]
          rw [List.length_append, List.length_singleton] at full
          have left : max want 1 - results.length = max want 1 - (results ++ [idx]).length + 1 := by
            rw [List.length_append, List.length_singleton]
            omega
          rw [ih _ _ (by rw [List.length_append, List.length_singleton]; omega), next, List.drop_zero, left,
            List.take_succ_cons, List.append_assoc, List.singleton_append]
      · have skipped : rank - 1 - seen = rank - 1 - (seen + 1) + 1 := by omega
        rw [if_neg reached, ih _ _ room, skipped, List.drop_succ_cons]
    · rw [if_neg hit, ih _ _ room, matchesOf_cons_of_ne hit]

theorem scan_start (l : List (Bytes × Nat)) :
    scan element rank want l 0 [] = ((matchesOf element l).drop (rank - 1)).take (max want 1) := by
  rw [scan_eq l 0 [] (by simp)]
  simp

/-! ## Two orders of one list -/

theorem matchesOf_nodup {l : List (Bytes × Nat)} (distinct : (l.map Prod.snd).Nodup) : (matchesOf element l).Nodup :=
  distinct.sublist (List.filter_sublist.map Prod.snd)

theorem fromRank_nodup (o : LposOptions) (elems : List Bytes) : (fromRank o element elems).Nodup := by
  have all : (elems.zipIdx.map Prod.snd).Nodup := by
    rw [List.zipIdx_map_snd]
    exact List.nodup_range'
  have part : ((scanned o elems).map Prod.snd).Nodup := by
    refine List.Nodup.sublist ((List.take_sublist _ _).map Prod.snd) ?_
    split
    · exact all
    · rw [List.map_reverse, List.nodup_reverse]
      exact all
  exact (matchesOf_nodup part).sublist (List.drop_sublist _ _)

/-- A list without repetitions is its own reverse if it is short. -/
theorem reverse_eq_self_iff {l : List Nat} (distinct : l.Nodup) : l.reverse = l ↔ l.length ≤ 1 := by
  constructor
  · intro same
    by_contra long
    have ends : l[l.length - 1 - 0]? = l[0]? := by
      rw [← List.getElem?_reverse (by omega), same]
    have equal := (List.getElem?_inj (by omega) distinct).1 ends
    omega
  · intro short
    match l, short with
    | [], _ => rfl
    | [x], _ => rfl

/-! ## What LPOS answers, against what was asked for -/

theorem lposResults_forward {o : LposOptions} (forward : 0 ≤ o.rank) (elems : List Bytes) :
    lposResults o element elems = (fromRank o element elems).take (max (o.count.getD 1) 1) := by
  unfold lposResults fromRank
  rw [if_pos forward, scan_start]

theorem lposResults_backward {o : LposOptions} (backward : ¬0 ≤ o.rank) (elems : List Bytes) :
    lposResults o element elems = ((fromRank o element elems).take (max (o.count.getD 1) 1)).reverse := by
  unfold lposResults fromRank
  rw [if_neg backward, scan_start]

/-- A prefix is what COUNT asks for, unless it asks for all and there is a second one. -/
theorem take_eq_counted_iff (count : Option Nat) (ps : List Nat) :
    ps.take (max (count.getD 1) 1) = counted count ps ↔ (count = some 0 → ps.length ≤ 1) := by
  match count with
  | none => simp [counted]
  | some 0 => simp [counted, List.take_eq_self_iff]
  | some (n + 1) => simp [counted]

/-- The positions come back as they were asked for, except that COUNT 0 stops at the first of several, and that
several positions of a scan from the tail come in the order of the list. -/
theorem positions_iff (o : LposOptions) (element : Bytes) (elems : List Bytes) :
    lposResults o element elems = counted o.count (fromRank o element elems) ↔
      (o.count = some 0 → (fromRank o element elems).length ≤ 1) ∧
        (o.rank < 0 → ∀ n, o.count = some n → n ≤ 1 ∨ (fromRank o element elems).length ≤ 1) := by
  have distinct : (fromRank o element elems).Nodup := fromRank_nodup o elems
  by_cases forward : 0 ≤ o.rank
  · rw [lposResults_forward forward, take_eq_counted_iff]
    exact ⟨fun all => ⟨all, fun neg => absurd neg (Int64.not_lt.2 forward)⟩, And.left⟩
  · rw [lposResults_backward forward]
    generalize fromRank o element elems = ps at distinct ⊢
    have negative : o.rank < 0 := Int64.not_le.1 forward
    match count : o.count with
    | none =>
      have short : (ps.take 1).length ≤ 1 := List.length_take_le 1 ps
      have same := (reverse_eq_self_iff (distinct.sublist (List.take_sublist 1 ps))).2 short
      simp [counted, same]
    | some 0 =>
      have short : (ps.take 1).length ≤ 1 := List.length_take_le 1 ps
      have same := (reverse_eq_self_iff (distinct.sublist (List.take_sublist 1 ps))).2 short
      simp [counted, same]
    | some (n + 1) =>
      have same := reverse_eq_self_iff (distinct.sublist (List.take_sublist (n + 1) ps))
      rw [List.length_take] at same
      have clash : max ((some (n + 1)).getD 1) 1 = n + 1 := by simp
      rw [clash, counted, same]
      simp [negative]
      omega

variable {toUppercase : String → String} {now : Nat} {args : List Resp} {s : Database} {c : LposCall} {e : Entry}
  {d : ListData} {l : List Bytes}

theorem cmdLpos_eq (parsed : lposCall toUppercase args = .ok c) (found : s.getRo now c.key = some e)
    (isList : e.value = .list d) (rep : d.Rep l) (small : d.Small) :
    cmdLpos toUppercase now args s = some (.ok (lposReply c.options.count (lposResults c.options c.element l))) := by
  unfold cmdLpos
  rw [parsed]
  dsimp only
  rw [found]
  dsimp only
  rw [isList]
  dsimp only
  rw [rep.toVecBytes_eq small]
  rfl

/-- **LPOS answers the positions that were asked for, except that COUNT 0 stops at the first of several, and that
several positions of a scan from the tail come in the order of the list.** The scan is modelled as it runs, with its
early return; the positions asked for are a filter of all positions. -/
theorem lpos_iff (parsed : lposCall toUppercase args = .ok c) (found : s.getRo now c.key = some e)
    (isList : e.value = .list d) (rep : d.Rep l) (small : d.Small) :
    cmdLpos toUppercase now args s = some (.ok (lposReply c.options.count (lposResults c.options c.element l))) ∧
      (lposResults c.options c.element l = counted c.options.count (fromRank c.options c.element l) ↔
        (c.options.count = some 0 → (fromRank c.options c.element l).length ≤ 1) ∧
          (c.options.rank < 0 → ∀ n, c.options.count = some n →
            n ≤ 1 ∨ (fromRank c.options c.element l).length ≤ 1)) :=
  ⟨cmdLpos_eq parsed found isList rep small, positions_iff _ _ _⟩

/-- The list a b a. -/
def aba : CompactList := [[97], [98], [97]].foldl CompactList.pushBack .new

def abaEntry : Entry := ⟨.list (.compact aba), none, 0⟩

/-- A shard with this list under k. -/
def abaShard : Database := Database.new.insert [107] abaEntry

theorem aba_rep : ListData.Rep (.compact aba) [[97], [98], [97]] :=
  CompactList.foldl_pushBack_rep CompactList.new_rep [[97], [98], [97]]

theorem aba_small : ListData.Small (.compact aba) := by
  show aba.buf.length < 2 ^ 32
  decide +kernel

open ListIndex (words)

/-- The second match from the tail is the first element. -/
theorem lpos_second_from_the_tail :
    cmdLpos String.toUpper 0 (words ["LPOS", "k", "a", "RANK", "-2", "COUNT", "3"]) abaShard =
      some (.ok (.array (some [.integer 0]))) := by
  have parsed : lposCall String.toUpper (words ["LPOS", "k", "a", "RANK", "-2", "COUNT", "3"]) =
      .ok ⟨[107], [97], { rank := -2, count := some 3 }⟩ := by decide +kernel
  have found : abaShard.getRo 0 [107] = some abaEntry := rfl
  obtain ⟨answers, right⟩ := lpos_iff parsed found rfl aba_rep aba_small
  have asked : fromRank { rank := -2, count := some 3 } [97] [[97], [98], [97]] = [0] := by decide +kernel
  have results := right.2 ⟨nofun, fun _ _ _ => .inr (by rw [asked]; decide)⟩
  rw [answers, results, asked]
  rfl

/-- COUNT 0 answers one of two positions, and two positions from the tail come in the order of the list. -/
theorem lpos_stops_and_reverses :
    cmdLpos String.toUpper 0 (words ["LPOS", "k", "a", "COUNT", "0"]) abaShard =
        some (.ok (.array (some [.integer 0]))) ∧
      counted (some 0) (fromRank { count := some 0 } [97] [[97], [98], [97]]) = [0, 2] ∧
      cmdLpos String.toUpper 0 (words ["LPOS", "k", "a", "RANK", "-1", "COUNT", "2"]) abaShard =
        some (.ok (.array (some [.integer 0, .integer 2]))) ∧
      counted (some 2) (fromRank { rank := -1, count := some 2 } [97] [[97], [98], [97]]) = [2, 0] := by
  have all : lposCall String.toUpper (words ["LPOS", "k", "a", "COUNT", "0"]) =
      .ok ⟨[107], [97], { count := some 0 }⟩ := by decide +kernel
  have two : lposCall String.toUpper (words ["LPOS", "k", "a", "RANK", "-1", "COUNT", "2"]) =
      .ok ⟨[107], [97], { rank := -1, count := some 2 }⟩ := by decide +kernel
  have first : lposResults { count := some 0 } [97] [[97], [98], [97]] = [0] := by decide +kernel
  have both : lposResults { rank := -1, count := some 2 } [97] [[97], [98], [97]] = [0, 2] := by decide +kernel
  have found : abaShard.getRo 0 [107] = some abaEntry := rfl
  refine ⟨?_, by decide +kernel, ?_, by decide +kernel⟩
  · rw [cmdLpos_eq all found rfl aba_rep aba_small, first]
    rfl
  · rw [cmdLpos_eq two found rfl aba_rep aba_small, both]
    rfl

end Lpos

end NexradeCache
