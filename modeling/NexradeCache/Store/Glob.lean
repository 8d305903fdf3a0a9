import NexradeCache.Lib.Bytes
import NexradeCache.Lib.Wildcard

/-!
# Glob patterns (`glob_match` of `nexrade-core/src/store.rs`)

The pattern and the text are scanned once; at a mismatch the scan goes back to the last `*` and lets
it take one more byte.
-/

namespace NexradeCache

/-- One scan: what is left of the pattern and of the text, and the same behind the last `*`. -/
def globScan : (fuel : Nat) → (pat s : Bytes) → (star : Option (Bytes × Bytes)) → Bool
  | _, pat, [], _ => pat.all (· = 42)
  | 0, _, _, _ => false
  | fuel + 1, pat, b :: s, star =>
    let back := fun (_ : Unit) =>
      match star with
      | some (pat', s') => globScan fuel pat' s'.tail (some (pat', s'.tail))
      | none => false
    match pat with
    | p :: rest =>
      -- A `*` in the text is matched as a byte before the pattern's `*` is looked at.
      if p = 63 || p = b then globScan fuel rest s star
      else if p = 42 then globScan fuel rest (b :: s) (some (rest, b :: s))
      else back ()
    | [] => back ()

/-- Between two returns to a `*` the scan makes at most one step for each byte of the pattern. -/
def globMatch (pattern s : Bytes) : Bool :=
  globScan ((s.length + 1) * (pattern.length + 2)) pattern s none

example : globMatch [104, 42, 111] [104, 101, 108, 108, 111] = true := by decide

/-! ## What the matcher decides -/

namespace Glob

open Wildcard

def piece (p : UInt8) : Piece UInt8 := if p = 42 then .star else if p = 63 then .any else .one p

/-- What the bytes of a pattern stand for. -/
def pieces (pattern : Bytes) : List (Piece UInt8) := pattern.map piece

/-- The byte `*`, which the pattern's `*` takes as any other byte takes itself. -/
abbrev Own (b : UInt8) : Prop := b = 42

theorem takes_iff (p b : UInt8) : Takes Own (piece p) b ↔ (p = 63 || p = b) = true := by
  rw [Bool.or_eq_true, decide_eq_true_eq, decide_eq_true_eq]
  unfold piece
  split
  · rename_i star
    constructor
    · rintro ⟨mine⟩
      exact .inr (star.trans mine.symm)
    · rintro (h | h)
      · cases star.symm.trans h
      · exact .own (h.symm.trans star)
  · split
    · rename_i any
      exact ⟨fun _ => .inl any, fun _ => .any b⟩
    · rename_i notAny
      constructor
      · rintro ⟨⟩
        exact .inr rfl
      · rintro (h | rfl)
        · exact (notAny h).elim
        · exact .one p

theorem piece_eq_star {p : UInt8} : piece p = .star ↔ p = 42 := by
  unfold piece
  split
  · simp_all
  · split <;> simp_all

theorem pieces_all_star (pat : Bytes) : (∀ c ∈ pieces pat, c = .star) ↔ pat.all (· = 42) = true := by
  simp [pieces, piece_eq_star]

/-- What a scan decides: with a star behind it, whether the rest of the pattern from there on matches
anywhere; without one, whether what is left matches what is left. -/
def Decides (pat s : Bytes) : Option (Bytes × Bytes) → Prop
  | some (pat', s') => Somewhere Own (pieces pat') s'
  | none => Thrifty Own (pieces pat) s

/-- The scan has gone on symbol by symbol since the last star. -/
def Aligned (pat s : Bytes) : Option (Bytes × Bytes) → Prop
  | some (pat', s') => ∃ v u, pat' = v ++ pat ∧ s' = u ++ s ∧ Fits Own (pieces v) u
  | none => True

/-- Every step takes one off the pattern, or comes back to it with a shorter text. -/
def work (bound : Nat) (pat s : Bytes) : Option (Bytes × Bytes) → Nat
  | some (_, s') => s'.length * bound + pat.length
  | none => s.length * bound + pat.length

variable {pat s : Bytes} {star : Option (Bytes × Bytes)}

theorem decides_end (aligned : Aligned pat [] star) : Decides pat [] star ↔ pat.all (· = 42) = true := by
  rw [← pieces_all_star]
  cases star with
  | none => exact thrifty_end_iff
  | some behind =>
    obtain ⟨v, u, pat', s', fits⟩ := aligned
    rw [Decides, pat', s', List.append_nil, pieces, List.map_append]
    exact somewhere_end_iff fits

theorem decides_takes {p b : UInt8} (takes : Takes Own (piece p) b) :
    Decides (p :: pat) (b :: s) star ↔ Decides pat s star := by
  cases star with
  | none => exact thrifty_takes takes
  | some behind => rfl

theorem Aligned.takes {p b : UInt8} (takes : Takes Own (piece p) b) (h : Aligned (p :: pat) (b :: s) star) :
    Aligned pat s star := by
  cases star with
  | none => trivial
  | some behind =>
    obtain ⟨v, u, pat', s', fits⟩ := h
    refine ⟨v ++ [p], u ++ [b], by simp [pat'], by simp [s'], ?_⟩
    rw [pieces, List.map_append]
    exact List.rel_append fits (.cons takes .nil)

theorem decides_star {b : UInt8} (free : ¬Own b) (aligned : Aligned (42 :: pat) (b :: s) star) :
    Decides (42 :: pat) (b :: s) star ↔ Decides pat (b :: s) (some (pat, b :: s)) := by
  cases star with
  | none => exact thrifty_star_iff free
  | some behind =>
    obtain ⟨v, u, pat', s', fits⟩ := aligned
    rw [Decides, Decides, pat', s', pieces, List.map_append]
    exact somewhere_star_iff fits free

theorem decides_back {b : UInt8} {pat' s' : Bytes} (fails : ¬Thrifty Own (pieces pat) (b :: s))
    (aligned : Aligned pat (b :: s) (some (pat', s'))) :
    Decides pat (b :: s) (some (pat', s')) ↔ Decides pat' s'.tail (some (pat', s'.tail)) := by
  obtain ⟨v, u, rfl, rfl, fits⟩ := aligned
  rw [Decides, Decides, pieces, List.map_append]
  exact somewhere_tail_iff fits fails

theorem aligned_start (pat s : Bytes) : Aligned pat s (some (pat, s)) := ⟨[], [], rfl, rfl, .nil⟩

theorem bound_le_work (bound : Nat) {b : UInt8} (aligned : Aligned pat (b :: s) star) :
    bound ≤ work bound pat (b :: s) star := by
  rcases star with - | ⟨pat', s'⟩
  · exact (Nat.le_mul_of_pos_left bound (by simp)).trans (Nat.le_add_right _ _)
  · obtain ⟨v, u, -, rfl, -⟩ := aligned
    have positive : 0 < (u ++ b :: s).length := List.length_pos_iff.2 (by simp)
    exact (Nat.le_mul_of_pos_left bound positive).trans (Nat.le_add_right _ _)

theorem work_star (bound : Nat) {p : UInt8} (aligned : Aligned (p :: pat) s star) :
    work bound pat s (some (pat, s)) < work bound (p :: pat) s star := by
  rcases star with - | ⟨pat', s'⟩
  · simp only [work, List.length_cons]
    omega
  · obtain ⟨v, u, -, rfl, -⟩ := aligned
    have longer : s.length * bound ≤ (u ++ s).length * bound := Nat.mul_le_mul_right bound (by simp)
    simp only [work, List.length_cons]
    omega

/-- Back to the last star, and one byte on. -/
def globBack (fuel : Nat) (star : Option (Bytes × Bytes)) : Bool :=
  match star with
  | some (pat', s') => globScan fuel pat' s'.tail (some (pat', s'.tail))
  | none => false

theorem globScan_cons (fuel : Nat) (pat : Bytes) (b : UInt8) (s : Bytes) (star : Option (Bytes × Bytes)) :
    globScan (fuel + 1) pat (b :: s) star =
      match pat with
      | p :: rest =>
        if p = 63 || p = b then globScan fuel rest s star
        else if p = 42 then globScan fuel rest (b :: s) (some (rest, b :: s))
        else globBack fuel star
      | [] => globBack fuel star := by
  cases pat <;> rfl

theorem globScan_iff (bound fuel : Nat) (aligned : Aligned pat s star) (short : pat.length < bound)
    (shortStar : ∀ b ∈ star, b.1.length < bound) (enough : work bound pat s star ≤ fuel) :
    globScan fuel pat s star = true ↔ Decides pat s star := by
  induction fuel generalizing pat s star with
  | zero =>
    cases s with
    | nil =>
      rw [globScan]
      exact (decides_end aligned).symm
    | cons b s =>
      have positive := bound_le_work bound aligned
      omega
  | succ fuel ih =>
    cases s with
    | nil =>
      rw [globScan]
      exact (decides_end aligned).symm
    | cons b s =>
      have back (fails : ¬Thrifty Own (pieces pat) (b :: s)) :
          globBack fuel star = true ↔ Decides pat (b :: s) star := by
        cases star with
        | none => simp [globBack, Decides, fails]
        | some behind =>
          obtain ⟨pat', s'⟩ := behind
          have within : pat'.length < bound := shortStar (pat', s') rfl
          rw [decides_back fails aligned]
          refine ih (aligned_start pat' _) within (by simpa using within) ?_
          obtain ⟨v, u, -, rfl, -⟩ := aligned
          have shorter : (u ++ b :: s).length = (u ++ b :: s).tail.length + 1 := by simp; omega
          rw [work, shorter, Nat.succ_mul] at enough
          rw [work]
          omega
      rw [globScan_cons]
      cases pat with
      | nil => exact back fun h => by cases thrifty_nil_iff.1 h
      | cons p rest =>
        dsimp only
        have fewer : work bound rest s star ≤ fuel := by
          rcases star with - | ⟨pat', s'⟩ <;> simp only [work, List.length_cons, Nat.succ_mul] at enough ⊢ <;> omega
        have shorter : rest.length < bound := by simp only [List.length_cons] at short; omega
        split
        · rename_i literal
          have takes : Takes Own (piece p) b := (takes_iff p b).2 literal
          rw [decides_takes takes]
          exact ih (aligned.takes takes) shorter shortStar fewer
        · rename_i notLiteral
          have other : ¬Takes Own (piece p) b := fun takes => notLiteral ((takes_iff p b).1 takes)
          split
          · rename_i isStar
            subst isStar
            have free : ¬Own b := fun mine => other (.own mine)
            rw [decides_star free aligned]
            refine ih (aligned_start rest _) shorter (by simpa using shorter) ?_
            have less := work_star bound aligned
            omega
          · rename_i notStar
            exact back (not_thrifty_mismatch other (mt piece_eq_star.1 notStar))

theorem globMatch_iff_thrifty (pattern s : Bytes) :
    globMatch pattern s = true ↔ Thrifty Own (pieces pattern) s := by
  refine @globScan_iff pattern s none (pattern.length + 2) _ trivial (by omega) (by simp) ?_
  rw [work, Nat.succ_mul]
  omega

end Glob

open Glob Wildcard in
/-- **What `glob_match` decides, and when this is what the pattern means.** A pattern is matched as it
reads exactly if it does not match at all, or some match gives a `*` of the pattern that meets a byte
`*` of the text this byte and no more. Texts without this byte are all of that kind. -/
theorem glob_match_as_read (pattern s : Bytes) :
    ((globMatch pattern s = true ↔ Matches (pieces pattern) s) ↔
      (Matches (pieces pattern) s → Thrifty Own (pieces pattern) s)) ∧
    (42 ∉ s → Matches (pieces pattern) s → Thrifty Own (pieces pattern) s) := by
  constructor
  · rw [globMatch_iff_thrifty]
    exact ⟨fun same h => same.2 h, fun kept => ⟨Thrifty.matches, kept⟩⟩
  · intro plain h
    exact h.thrifty fun b mem own => plain (own ▸ mem)

open Glob Wildcard in
/-- The pattern `*` and a text that begins with `*`. -/
theorem glob_star_misses : globMatch [42] [42, 97] = false ∧ Matches (pieces [42]) [42, 97] :=
  ⟨by decide, .star [42, 97] .nil⟩

end NexradeCache
