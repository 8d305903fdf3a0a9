import Mathlib
import NexradeCache.Lib.Bytes

/-!
# Positional codecs and packed records

A packed buffer is the concatenation of the encodings of its records and is read by
position: a decoder takes the whole buffer and an offset, and returns the record
found there with the offset just past it. `Codec` bundles an encoder, such a decoder
and the law that ties them on valid records; `readAll` (a counted walk) and `findAt`
(a counted search that keeps the offsets of the hit) are the two loops every packed
container is made of, with one lemma each.

`frame` is the length-prefixed byte string `[u32_le len][bytes]`.
-/

namespace Bytes

/-- A record format over byte buffers. `dec` answers `none` exactly when it would
read outside the buffer; `Valid` says which records the format can carry. -/
structure Codec (α : Type) where
  enc : α → Bytes
  dec : Bytes → Nat → Option (α × Nat)
  Valid : α → Prop
  dec_enc : ∀ {x : α}, Valid x → ∀ a z : Bytes,
    dec (a ++ (enc x ++ z)) a.length = some (x, a.length + (enc x).length)

namespace Codec

variable {α : Type} (c : Codec α)

/-- The packed image of a list of records. -/
def encs (l : List α) : Bytes := l.flatMap c.enc

@[simp] theorem encs_nil : c.encs [] = [] := rfl

@[simp] theorem encs_cons (x : α) (l : List α) : c.encs (x :: l) = c.enc x ++ c.encs l := by
  simp [encs]

@[simp] theorem encs_append (l m : List α) : c.encs (l ++ m) = c.encs l ++ c.encs m := by
  simp [encs]

theorem dec_cons {x : α} {l : List α} {buf a z : Bytes} {o : Nat} (hx : c.Valid x)
    (hbuf : buf = a ++ (c.encs (x :: l) ++ z)) (hoff : o = a.length) :
    c.dec buf o = some (x, o + (c.enc x).length) := by
  subst hbuf hoff
  rw [encs_cons, List.append_assoc]
  exact c.dec_enc hx _ _

/-- Walk `n` records from `o`. -/
def readAll (buf : Bytes) : Nat → Nat → Option (List α)
  | 0, _ => some []
  | n + 1, o => do
    let (x, next) ← c.dec buf o
    let rest ← readAll buf n next
    return x :: rest

theorem readAll_encs {l : List α} {buf a z : Bytes} {o : Nat} (hl : ∀ x ∈ l, c.Valid x)
    (hbuf : buf = a ++ (c.encs l ++ z)) (hoff : o = a.length) :
    c.readAll buf l.length o = some l := by
  induction l generalizing a o with
  | nil => rfl
  | cons x l ih =>
    have here := c.dec_cons (hl x (by simp)) hbuf hoff
    have rest := ih (a := a ++ c.enc x) (o := o + (c.enc x).length)
      (fun y hy => hl y (by simp [hy])) (by simp [hbuf]) (by simp [hoff])
    simp [readAll, here, rest]

/-- Read records from `o` until one does not fit, at most `n`. -/
def readToEnd (buf : Bytes) : Nat → Nat → List α
  | 0, _ => []
  | n + 1, o =>
    match c.dec buf o with
    | none => []
    | some (x, next) => x :: readToEnd buf n next

theorem readToEnd_encs {l : List α} {buf a : Bytes} {n o : Nat} (hl : ∀ x ∈ l, c.Valid x)
    (hbuf : buf = a ++ c.encs l) (hoff : o = a.length) (hn : l.length ≤ n)
    (stop : c.dec buf buf.length = none) : c.readToEnd buf n o = l := by
  induction l generalizing a n o with
  | nil =>
    have atEnd : o = buf.length := by simp [hbuf, hoff]
    cases n <;> simp [readToEnd, atEnd, stop]
  | cons x l ih =>
    obtain ⟨n, rfl⟩ : ∃ k, n = k + 1 := ⟨n - 1, by simp at hn; omega⟩
    have here := c.dec_cons (z := []) (hl x (by simp)) (by simpa using hbuf) hoff
    have rest := ih (a := a ++ c.enc x) (n := n) (o := o + (c.enc x).length)
      (fun y hy => hl y (by simp [hy])) (by simp [hbuf]) (by simp [hoff]) (by simpa using hn)
    simp [readToEnd, here, rest]

/-- Fold `n` records from `o`, each with the bytes it occupies. -/
def foldRecords {σ : Type} (buf : Bytes) (body : σ → α → Bytes → σ) : Nat → Nat → σ → Option σ
  | 0, _, s => some s
  | n + 1, o, s => do
    let (x, next) ← c.dec buf o
    let raw ← slice buf o next
    foldRecords buf body n next (body s x raw)

theorem foldRecords_encs {σ : Type} {f : σ → α → Bytes → σ} {l : List α} {buf a z : Bytes} {o : Nat}
    {s : σ} (hl : ∀ x ∈ l, c.Valid x) (hbuf : buf = a ++ (c.encs l ++ z)) (hoff : o = a.length) :
    c.foldRecords buf f l.length o s = some (l.foldl (fun s x => f s x (c.enc x)) s) := by
  induction l generalizing a o s with
  | nil => rfl
  | cons x l ih =>
    have here := c.dec_cons (hl x (by simp)) hbuf hoff
    have raw : slice buf o (o + (c.enc x).length) = some (c.enc x) :=
      slice_eq (a := a) (c := c.encs l ++ z) (by simp [hbuf]) hoff (by simp [hoff])
    have rest := ih (a := a ++ c.enc x) (o := o + (c.enc x).length) (s := f s x (c.enc x))
      (fun y hy => hl y (by simp [hy])) (by simp [hbuf]) (by simp [hoff])
    simp [foldRecords, here, raw, rest]

/-- Search `n` records from `o` for the first that satisfies `p`, with the offsets
where it starts and ends. The outer `none` is an out-of-bounds read. -/
def findAt (buf : Bytes) (p : α → Bool) : Nat → Nat → Option (Option (Nat × α × Nat))
  | 0, _ => some none
  | n + 1, o => do
    let (x, next) ← c.dec buf o
    if p x then return some (o, x, next) else findAt buf p n next

theorem findAt_none {l : List α} {buf a z : Bytes} {o : Nat} {p : α → Bool}
    (hl : ∀ x ∈ l, c.Valid x) (hbuf : buf = a ++ (c.encs l ++ z))
    (hoff : o = a.length) (hp : ∀ x ∈ l, p x = false) :
    c.findAt buf p l.length o = some none := by
  induction l generalizing a o with
  | nil => rfl
  | cons x l ih =>
    have here := c.dec_cons (hl x (by simp)) hbuf hoff
    have rest := ih (a := a ++ c.enc x) (o := o + (c.enc x).length)
      (fun y hy => hl y (by simp [hy])) (by simp [hbuf]) (by simp [hoff])
      (fun y hy => hp y (by simp [hy]))
    simp [findAt, here, rest, hp x (by simp)]

/-- A search stops at the first hit, after `m` records that miss. -/
theorem findAt_some {m rest : List α} {x : α} {buf a z : Bytes} {o : Nat} {p : α → Bool}
    (hm : ∀ y ∈ m, c.Valid y) (hx : c.Valid x)
    (hbuf : buf = a ++ (c.encs (m ++ x :: rest) ++ z)) (hoff : o = a.length)
    (miss : ∀ y ∈ m, p y = false) (hit : p x = true) :
    c.findAt buf p (m ++ x :: rest).length o =
      some (some (o + (c.encs m).length, x, o + (c.encs m).length + (c.enc x).length)) := by
  induction m generalizing a o with
  | nil =>
    have here := c.dec_cons hx hbuf hoff
    simp [findAt, here, hit]
  | cons y m ih =>
    have here := c.dec_cons (l := m ++ x :: rest) (hm y (by simp)) hbuf hoff
    have further := ih (a := a ++ c.enc y) (o := o + (c.enc y).length)
      (fun z hz => hm z (by simp [hz])) (by simp [hbuf]) (by simp [hoff])
      (fun z hz => miss z (by simp [hz]))
    rw [List.cons_append, List.length_cons, findAt, here]
    simp only [Option.bind_eq_bind, Option.bind_some, miss y (by simp), Bool.false_eq_true, if_false]
    rw [further]
    simp [Nat.add_assoc]

/-- The offsets at which the records of `l` start, packed from offset `h` on. -/
def starts (h : Nat) : List α → List Nat
  | [] => []
  | x :: l => h :: starts (h + (c.enc x).length) l

@[simp] theorem length_starts (h : Nat) (l : List α) : (c.starts h l).length = l.length := by
  induction l generalizing h with
  | nil => rfl
  | cons x l ih => simp [starts, ih]

theorem starts_append (h : Nat) (l m : List α) :
    c.starts h (l ++ m) = c.starts h l ++ c.starts (h + (c.encs l).length) m := by
  induction l generalizing h with
  | nil => simp [starts]
  | cons x l ih => simp [starts, ih, Nat.add_assoc]

theorem starts_shift (h d : Nat) (l : List α) :
    c.starts (h + d) l = (c.starts d l).map fun s => h + s := by
  induction l generalizing d with
  | nil => rfl
  | cons x l ih => simp [starts, ← ih, Nat.add_assoc]

/-- Every record starts inside the packed range. -/
theorem mem_starts {h s : Nat} {l : List α} (hs : s ∈ c.starts h l) :
    h ≤ s ∧ s ≤ h + (c.encs l).length := by
  induction l generalizing h with
  | nil => simp [starts] at hs
  | cons x l ih =>
    rw [starts, List.mem_cons] at hs
    rw [encs_cons, List.length_append]
    rcases hs with rfl | hs
    · omega
    · have := ih hs; omega

end Codec

/-- The length-prefixed image of a byte string. -/
def frame (s : Bytes) : Bytes := leBytes 4 s.length ++ s

@[simp] theorem length_frame (s : Bytes) : (frame s).length = 4 + s.length := by
  simp [frame]

/-- Read the little-endian `u32` at `o`. -/
def readU32 (buf : Bytes) (o : Nat) : Option Nat := (slice buf o (o + 4)).map ofLe

/-- Read the length-prefixed byte string at `o`. -/
def readFrame (buf : Bytes) (o : Nat) : Option (Bytes × Nat) := do
  let n ← readU32 buf o
  let s ← slice buf (o + 4) (o + 4 + n)
  return (s, o + 4 + n)

theorem readU32_leBytes {buf a z : Bytes} {n o : Nat} (hn : n < 2 ^ 32)
    (hbuf : buf = a ++ (leBytes 4 n ++ z)) (hoff : o = a.length) :
    readU32 buf o = some n := by
  rw [readU32, slice_eq hbuf hoff (by simp [hoff])]
  simp [ofLe_leBytes_of_lt (w := 4) (n := n) (by omega)]

theorem readFrame_frame {s buf a z : Bytes} {o : Nat} (hs : s.length < 2 ^ 32)
    (hbuf : buf = a ++ (frame s ++ z)) (hoff : o = a.length) :
    readFrame buf o = some (s, o + 4 + s.length) := by
  have header : readU32 buf o = some s.length :=
    readU32_leBytes hs (z := s ++ z) (by simp [hbuf, frame]) hoff
  have body : slice buf (o + 4) (o + 4 + s.length) = some s :=
    slice_eq (a := a ++ leBytes 4 s.length) (c := z) (by simp [hbuf, frame])
      (by simp [hoff]) (by simp [hoff])
  simp [readFrame, header, body]

/-- The codec of length-prefixed byte strings; the prefix carries lengths below `2 ^ 32`. -/
def frameCodec : Codec Bytes where
  enc := frame
  dec := readFrame
  Valid s := s.length < 2 ^ 32
  dec_enc hs a z := by
    rw [readFrame_frame hs rfl rfl, length_frame, Nat.add_assoc]

/-- Two records one after the other. -/
def Codec.pair {α β : Type} (c : Codec α) (d : Codec β) : Codec (α × β) where
  enc x := c.enc x.1 ++ d.enc x.2
  dec buf o := do
    let (a, next) ← c.dec buf o
    let (b, last) ← d.dec buf next
    return ((a, b), last)
  Valid x := c.Valid x.1 ∧ d.Valid x.2
  dec_enc := by
    rintro ⟨x, y⟩ ⟨hx, hy⟩ a z
    have first := c.dec_enc hx a (d.enc y ++ z)
    have second := d.dec_enc hy (a ++ c.enc x) z
    simp only [List.append_assoc, List.length_append] at first second ⊢
    simp [first, second, Nat.add_assoc]

/-! ## What is read -/

namespace Codec

variable {α β : Type}

/-- What the codec decodes it can carry. -/
def DecodesValid (c : Codec α) : Prop := ∀ {buf o x next}, c.dec buf o = some (x, next) → c.Valid x

theorem DecodesValid.pair {c : Codec α} {d : Codec β} (left : c.DecodesValid) (right : d.DecodesValid) :
    (c.pair d).DecodesValid := by
  rintro buf o ⟨x, y⟩ next is
  obtain ⟨⟨a, mid⟩, first, is⟩ := Option.bind_eq_some_iff.1 is
  obtain ⟨⟨b, last⟩, second, is⟩ := Option.bind_eq_some_iff.1 is
  cases is
  exact ⟨left first, right second⟩

theorem readAll_valid {c : Codec α} (decodes : c.DecodesValid) {buf : Bytes} {n o : Nat} {l : List α}
    (is : c.readAll buf n o = some l) : l.length = n ∧ ∀ x ∈ l, c.Valid x := by
  induction n generalizing o l with
  | zero =>
    cases is
    exact ⟨rfl, nofun⟩
  | succ n ih =>
    obtain ⟨⟨x, next⟩, first, is⟩ := Option.bind_eq_some_iff.1 is
    obtain ⟨rest, others, is⟩ := Option.bind_eq_some_iff.1 is
    cases is
    obtain ⟨length, valid⟩ := ih others
    exact ⟨congrArg (· + 1) length, List.forall_mem_cons.2 ⟨decodes first, valid⟩⟩

end Codec

theorem ofLe_lt (b : Bytes) : ofLe b < 256 ^ b.length := by
  induction b with
  | nil => decide
  | cons x b ih =>
    have small := x.toNat_lt
    rw [ofLe, List.length_cons, Nat.pow_succ]
    omega

theorem frameCodec_decodesValid : frameCodec.DecodesValid := by
  intro buf o s next is
  obtain ⟨n, header, is⟩ := Option.bind_eq_some_iff.1 is
  obtain ⟨s', body, is⟩ := Option.bind_eq_some_iff.1 is
  cases is
  obtain ⟨word, four, rfl⟩ := Option.map_eq_some_iff.1 header
  have small := ofLe_lt word
  rw [length_slice four] at small
  show s.length < 2 ^ 32
  rw [length_slice body]
  have bound : 256 ^ (o + 4 - o) = 2 ^ 32 := by simp
  omega

end Bytes
