import Mathlib.Data.List.Forall2
import Mathlib.Data.List.Infix

/-!
# Patterns with wildcards

`Matches` is what a pattern of single symbols, `any` and `star` means. `Thrifty own` is the stricter
reading of a matcher in which a `star` that meets one of its own symbols takes exactly this symbol.

`Fits` is one alignment of a matcher that goes on symbol by symbol. Behind such an alignment nothing
is lost by forgetting where it began (`Thrifty.behind`), which is why a matcher need remember only the
last `star`.
-/

namespace Wildcard

variable {α : Type}

/-- A piece of a pattern: any number of letters, one letter, or this letter. -/
inductive Piece (α : Type) where
  | star
  | any
  | one (a : α)

/-- The text splits into a part for each piece: any part for `star`, one symbol for the others. -/
inductive Matches : List (Piece α) → List α → Prop
  | nil : Matches [] []
  | star {p : List (Piece α)} {s : List α} (part : List α) : Matches p s → Matches (.star :: p) (part ++ s)
  | any {p : List (Piece α)} {s : List α} (a : α) : Matches p s → Matches (.any :: p) (a :: s)
  | one {p : List (Piece α)} {s : List α} (a : α) : Matches p s → Matches (.one a :: p) (a :: s)

/-- The same, but a part of `star` that begins with a symbol of `own` is this symbol alone. -/
inductive Thrifty (own : α → Prop) : List (Piece α) → List α → Prop
  | nil : Thrifty own [] []
  | own {p : List (Piece α)} {s : List α} {a : α} (h : own a) : Thrifty own p s → Thrifty own (.star :: p) (a :: s)
  | star {p : List (Piece α)} {s : List α} (part : List α) (free : ∀ a ∈ (part ++ s).head?, ¬own a) :
      Thrifty own p s → Thrifty own (.star :: p) (part ++ s)
  | any {p : List (Piece α)} {s : List α} (a : α) : Thrifty own p s → Thrifty own (.any :: p) (a :: s)
  | one {p : List (Piece α)} {s : List α} (a : α) : Thrifty own p s → Thrifty own (.one a :: p) (a :: s)

variable {own : α → Prop} {c : Piece α} {p v : List (Piece α)} {a : α} {s t u : List α}

theorem Thrifty.matches (h : Thrifty own p s) : Matches p s := by
  induction h with
  | nil => exact .nil
  | own h _ ih => exact .star [_] ih
  | star part _ _ ih => exact .star part ih
  | any a _ ih => exact .any a ih
  | one a _ ih => exact .one a ih

/-- In a text without such symbols both readings are the same. -/
theorem Matches.thrifty (h : Matches p s) (free : ∀ a ∈ s, ¬own a) : Thrifty own p s := by
  induction h with
  | nil => exact .nil
  | star part _ ih =>
    refine .star part (fun a ha => free a (List.mem_of_mem_head? ha)) (ih fun a ha => free a ?_)
    exact List.mem_append_right part ha
  | any a _ ih => exact .any a (ih fun b hb => free b (List.mem_cons_of_mem a hb))
  | one a _ ih => exact .one a (ih fun b hb => free b (List.mem_cons_of_mem a hb))

/-- A piece takes this symbol and no more. -/
inductive Takes (own : α → Prop) : Piece α → α → Prop
  | own {a : α} (h : own a) : Takes own .star a
  | any (a : α) : Takes own .any a
  | one (a : α) : Takes own (.one a) a

abbrev Fits (own : α → Prop) : List (Piece α) → List α → Prop := List.Forall₂ (Takes own)

theorem thrifty_nil_iff : Thrifty own [] s ↔ s = [] :=
  ⟨fun h => by cases h; rfl, fun h => h ▸ .nil⟩

/-- Behind the end of the text there are only stars. -/
theorem thrifty_end_iff : Thrifty own p [] ↔ ∀ c ∈ p, c = .star := by
  constructor
  · intro h
    generalize ht : ([] : List α) = t at h
    induction h with
    | nil => simp
    | star part _ _ ih =>
      obtain ⟨-, rest⟩ := List.append_eq_nil_iff.1 ht.symm
      simpa using ih rest.symm
    | _ => cases ht
  · intro all
    induction p with
    | nil => exact .nil
    | cons c p ih =>
      rw [all c List.mem_cons_self]
      exact .star [] (by simp) (ih fun c' h => all c' (List.mem_cons_of_mem c h))

theorem thrifty_takes (takes : Takes own c a) : Thrifty own (c :: p) (a :: s) ↔ Thrifty own p s := by
  constructor
  · intro h
    generalize ht : a :: s = t at h
    cases takes with
    | own mine =>
      cases h with
      | own _ h => cases ht; exact h
      | star part free _ => exact (free a (by rw [← ht]; rfl) mine).elim
    | any => cases h with
      | any _ h => cases ht; exact h
    | one => cases h with
      | one _ h => cases ht; exact h
  · intro h
    cases takes with
    | own mine => exact .own mine h
    | any => exact .any a h
    | one => exact .one a h

/-- The text in front of a free symbol can go to the `star`. -/
theorem thrifty_star_iff (free : ¬own a) :
    Thrifty own (.star :: p) (a :: s) ↔ ∃ t, t <:+ a :: s ∧ Thrifty own p t := by
  constructor
  · intro h
    generalize ht : a :: s = t at h
    cases h with
    | own mine _ => cases ht; exact (free mine).elim
    | star part _ h => exact ⟨_, List.suffix_append part _, h⟩
  · rintro ⟨t, ⟨part, split⟩, h⟩
    have front : ∀ b ∈ (part ++ t).head?, ¬own b := by
      rw [split]
      intro b hb
      cases hb
      exact free
    exact split ▸ .star part front h

theorem not_thrifty_mismatch (other : ¬Takes own c a) (notStar : c ≠ .star) : ¬Thrifty own (c :: p) (a :: s) := by
  intro h
  generalize ht : a :: s = t at h
  cases h with
  | own => exact notStar rfl
  | star => exact notStar rfl
  | any => exact other (.any a)
  | one => cases ht; exact other (.one a)

theorem thrifty_fits (fits : Fits own v u) : Thrifty own (v ++ p) (u ++ s) ↔ Thrifty own p s := by
  induction fits with
  | nil => rfl
  | cons takes _ ih => exact (thrifty_takes takes).trans ih

/-- If the pattern matches anywhere from where an alignment began, then its rest matches somewhere
behind the alignment. -/
theorem Thrifty.behind (fits : Fits own v u) (inside : t <:+ u ++ s) (h : Thrifty own (v ++ p) t) :
    ∃ t', t' <:+ s ∧ Thrifty own p t' := by
  induction fits generalizing t with
  | nil => exact ⟨t, inside, h⟩
  | @cons c a v u takes fits ih =>
    have rest {b : α} {t' : List α} (h : b :: t' <:+ a :: (u ++ s)) : t' <:+ u ++ s := by
      rcases List.suffix_cons_iff.1 h with same | later
      · cases same
        exact List.suffix_rfl
      · exact (List.suffix_cons b t').trans later
    cases h with
    | own _ h => exact ih (rest inside) h
    | any _ h => exact ih (rest inside) h
    | one _ h => exact ih (rest inside) h
    | star part free h =>
      -- the alignment took one of the star's own symbols here, so this match began later
      cases takes
      rename_i mine
      rcases List.suffix_cons_iff.1 inside with same | later
      · exact (free a (by rw [same]; rfl) mine).elim
      · exact ih ((List.suffix_append part _).trans later) h

/-- Starting anywhere in the text. -/
def Somewhere (own : α → Prop) (p : List (Piece α)) (s : List α) : Prop := ∃ t, t <:+ s ∧ Thrifty own p t

theorem somewhere_end_iff (fits : Fits own v u) : Somewhere own (v ++ p) u ↔ ∀ c ∈ p, c = .star := by
  constructor
  · rintro ⟨t, inside, h⟩
    obtain ⟨t', ends, h⟩ := h.behind fits (s := []) (by simpa using inside)
    rw [List.suffix_nil.1 ends] at h
    exact thrifty_end_iff.1 h
  · intro all
    refine ⟨u, List.suffix_rfl, ?_⟩
    have ends : Thrifty own p [] := thrifty_end_iff.2 all
    have whole := (thrifty_fits fits).2 ends
    rwa [List.append_nil] at whole

/-- A later star takes the place of the one before. -/
theorem somewhere_star_iff (fits : Fits own v u) (free : ¬own a) :
    Somewhere own (v ++ .star :: p) (u ++ a :: s) ↔ Somewhere own p (a :: s) := by
  constructor
  · rintro ⟨t, inside, h⟩
    obtain ⟨t', inside', h⟩ := h.behind fits inside
    cases h with
    | own _ h => exact ⟨_, (List.suffix_cons _ _).trans inside', h⟩
    | star part _ h => exact ⟨_, (List.suffix_append part _).trans inside', h⟩
  · intro h
    exact ⟨_, List.suffix_rfl, (thrifty_fits fits).2 ((thrifty_star_iff free).2 h)⟩

/-- Where an alignment fails, the match begins later. -/
theorem somewhere_tail_iff (fits : Fits own v u) (fails : ¬Thrifty own p (a :: s)) :
    Somewhere own (v ++ p) (u ++ a :: s) ↔ Somewhere own (v ++ p) (u ++ a :: s).tail := by
  constructor
  · rintro ⟨t, inside, h⟩
    refine ⟨t, ?_, h⟩
    cases split : u ++ a :: s with
    | nil => simp at split
    | cons b rest =>
      rw [split] at inside
      rcases List.suffix_cons_iff.1 inside with same | later
      · rw [same, ← split] at h
        exact (fails ((thrifty_fits fits).1 h)).elim
      · exact later
  · rintro ⟨t, inside, h⟩
    exact ⟨t, inside.trans (List.tail_suffix _), h⟩

end Wildcard
