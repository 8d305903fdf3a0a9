import NexradeCache.Lib.Bytes

/-!
# Incremental decoding

`Stop` is why a decoder gave no value: more bytes are needed, or no bytes can help. Answers are
ordered by `Below`, with `incomplete` at the bottom; a decoder that only learns from more bytes is
monotone in this order, and `Below.bind` keeps that through sequencing.

A decoder over a growing buffer answers `wait` (more bytes are needed), an `item` with the
bytes left over, or a failure. It is `Steady` when an answer other than `wait` does not depend
on bytes that arrive later and an item uses up at least one byte. A `Session` feeds chunks and
drains the buffer after each one, until the first failure.

`session_chunks` is what steadiness is for: the items, the failure and the number of bytes
used up before it do not depend on how the stream was cut.
-/

namespace Stream

open Bytes

variable {V E : Type}

/-- Why there is no value: the input ends too early, or it is wrong. -/
inductive Stop (E : Type) where
  | incomplete
  | invalid (e : E)

section Answers

variable {A B : Type} {r r' : Except (Stop E) A}

/-- `r'` answers as `r` does, once `r` is not waiting for more. -/
def Below (r r' : Except (Stop E) A) : Prop := r = .error .incomplete ∨ r' = r

namespace Below

theorem refl (r : Except (Stop E) A) : Below r r := .inr rfl

theorem incomplete (r : Except (Stop E) A) : Below (.error .incomplete) r := .inl rfl

theorem eq_ok (below : Below r r') {a : A} (h : r = .ok a) : r' = .ok a := by
  rcases below with none | same
  · rw [none] at h; cases h
  · rw [same, h]

theorem eq_invalid (below : Below r r') {e : E} (h : r = .error (.invalid e)) :
    r' = .error (.invalid e) := by
  rcases below with none | same
  · rw [none] at h; cases h
  · rw [same, h]

theorem bind (below : Below r r') {f f' : A → Except (Stop E) B}
    (next : ∀ a, r = .ok a → Below (f a) (f' a)) : Below (r >>= f) (r' >>= f') := by
  rcases below with none | rfl
  · rw [none]
    exact .incomplete _
  · cases r' with
    | error e => exact .refl _
    | ok a => exact next a rfl

end Below

theorem bind_eq_ok {r : Except (Stop E) A} {f : A → Except (Stop E) B} {b : B}
    (h : r >>= f = .ok b) : ∃ a, r = .ok a ∧ f a = .ok b := by
  cases r with
  | error e => cases h
  | ok a => exact ⟨a, rfl, h⟩

end Answers

/-- What a decoder answers on the bytes it has. -/
inductive Next (V E : Type) where
  | wait
  | item (v : V) (rest : Bytes)
  | fail (e : E)

/-- Answers are final. -/
structure Steady (next : Bytes → Next V E) : Prop where
  shorter : ∀ {b v r}, next b = .item v r → r.length < b.length
  item : ∀ {b v r}, next b = .item v r → ∀ x, next (b ++ x) = .item v (r ++ x)
  fail : ∀ {b e}, next b = .fail e → ∀ x, next (b ++ x) = .fail e

/-- Items until the decoder waits or fails, in at most `k` rounds. -/
def drainFor (next : Bytes → Next V E) : Nat → Bytes → List V × Bytes × Option E
  | 0, b => ([], b, none)
  | k + 1, b =>
    match next b with
    | .wait => ([], b, none)
    | .fail e => ([], b, some e)
    | .item v r =>
      let (vs, rest, e) := drainFor next k r
      (v :: vs, rest, e)

/-- Items until the decoder waits or fails; an item uses up a byte, so `b.length` rounds are enough. -/
def drain (next : Bytes → Next V E) (b : Bytes) : List V × Bytes × Option E :=
  drainFor next (b.length + 1) b

/-- The state of a reader: the items so far, the bytes not yet decoded, how many were used up, and
the failure that ended it. -/
structure Session (V E : Type) where
  values : List V
  pending : Bytes
  consumed : Nat
  error : Option E

namespace Session

def start : Session V E := ⟨[], [], 0, none⟩

/-- Take in a chunk and drain, unless the session has failed. -/
def feed (next : Bytes → Next V E) (s : Session V E) (chunk : Bytes) : Session V E :=
  if s.error.isSome then s else
    let (vs, rest, e) := drain next (s.pending ++ chunk)
    ⟨s.values ++ vs, rest, s.consumed + ((s.pending ++ chunk).length - rest.length), e⟩

def feedAll (next : Bytes → Next V E) (chunks : List Bytes) : Session V E :=
  chunks.foldl (feed next) start

/-- What a reader sees: the items, the position and the failure. -/
def outcome (s : Session V E) : List V × Nat × Option E := (s.values, s.consumed, s.error)

end Session

variable {next : Bytes → Next V E}

theorem drainFor_congr (steady : Steady next) {k m : Nat} {b : Bytes} (hk : b.length < k)
    (hm : b.length < m) : drainFor next k b = drainFor next m b := by
  induction k generalizing m b with
  | zero => omega
  | succ k ih =>
    obtain ⟨m, rfl⟩ : ∃ j, m = j + 1 := ⟨m - 1, by omega⟩
    rw [drainFor, drainFor]
    cases hb : next b with
    | wait => rfl
    | fail e => rfl
    | item v r =>
      have less := steady.shorter hb
      have rest := ih (m := m) (b := r) (by omega) (by omega)
      simp only [rest]

theorem drain_wait {b : Bytes} (h : next b = .wait) : drain next b = ([], b, none) := by
  simp [drain, drainFor, h]

theorem drain_fail {b : Bytes} {e : E} (h : next b = .fail e) : drain next b = ([], b, some e) := by
  simp [drain, drainFor, h]

theorem drain_item (steady : Steady next) {b r : Bytes} {v : V} (h : next b = .item v r) :
    drain next b = (v :: (drain next r).1, (drain next r).2) := by
  have rest := drainFor_congr steady (k := b.length) (m := r.length + 1) (steady.shorter h) (by omega)
  rw [drain, drainFor, h]
  simp only [rest]
  rfl

theorem length_drain (steady : Steady next) (b : Bytes) : (drain next b).2.1.length ≤ b.length := by
  induction h : b.length using Nat.strongRecOn generalizing b with
  | _ n ih =>
    cases hb : next b with
    | wait => simp [drain_wait hb, h]
    | fail e => simp [drain_fail hb, h]
    | item v r =>
      have less := steady.shorter hb
      have rest := ih r.length (by omega) r rfl
      rw [drain_item steady hb]
      dsimp only
      omega

/-- A drain stops where the decoder waits or fails. -/
theorem drain_stops (steady : Steady next) (b : Bytes) :
    ((drain next b).2.2 = none ∧ next (drain next b).2.1 = .wait) ∨
      ∃ e, (drain next b).2.2 = some e ∧ next (drain next b).2.1 = .fail e := by
  induction h : b.length using Nat.strongRecOn generalizing b with
  | _ n ih =>
    cases hb : next b with
    | wait => rw [drain_wait hb]; exact .inl ⟨rfl, hb⟩
    | fail e => rw [drain_fail hb]; exact .inr ⟨e, rfl, hb⟩
    | item v r =>
      have less := steady.shorter hb
      rw [drain_item steady hb]
      exact ih r.length (by omega) r rfl

/-- What a drain without failure leaves over waits. -/
theorem drain_idle (steady : Steady next) {b : Bytes} (ok : (drain next b).2.2 = none) :
    drain next (drain next b).2.1 = ([], (drain next b).2.1, none) := by
  rcases drain_stops steady b with ⟨-, waits⟩ | ⟨e, failed, -⟩
  · exact drain_wait waits
  · rw [ok] at failed
    cases failed

/-- **Draining is independent of read boundaries**: after a failure later bytes change nothing,
otherwise they are decoded behind what was left over. -/
theorem drain_append (steady : Steady next) (x y : Bytes) :
    drain next (x ++ y) = match drain next x with
      | (vs, rest, some e) => (vs, rest ++ y, some e)
      | (vs, rest, none) => (vs ++ (drain next (rest ++ y)).1, (drain next (rest ++ y)).2) := by
  induction h : x.length using Nat.strongRecOn generalizing x with
  | _ n ih =>
    cases hx : next x with
    | wait => rw [drain_wait hx]; rfl
    | fail e => rw [drain_fail hx, drain_fail (steady.fail hx y)]
    | item v r =>
      have less := steady.shorter hx
      rw [drain_item steady hx, drain_item steady (steady.item hx y), ih r.length (by omega) r rfl]
      obtain ⟨vs, rest, e⟩ := drain next r
      cases e <;> rfl

namespace Session

theorem foldl_failed {s : Session V E} (failed : s.error.isSome = true) (chunks : List Bytes) :
    chunks.foldl (feed next) s = s := by
  induction chunks with
  | nil => rfl
  | cons c cs ih => rw [List.foldl_cons, feed, if_pos failed, ih]

/-- Feeding the chunks one by one is feeding them joined, up to the bytes left after a failure. -/
theorem foldl_feed (steady : Steady next) (chunks : List Bytes) (s : Session V E)
    (idle : s.error = none → drain next s.pending = ([], s.pending, none)) :
    (chunks.foldl (feed next) s).outcome = (feed next s chunks.flatten).outcome := by
  induction chunks generalizing s with
  | nil =>
    rw [List.foldl_nil, List.flatten_nil, feed]
    split
    · rfl
    · rename_i ok
      have ok : s.error = none := by simpa using ok
      simp [idle ok, outcome, ok]
  | cons c cs ih =>
    rw [List.foldl_cons]
    by_cases failed : s.error.isSome = true
    · rw [feed, if_pos failed, foldl_failed failed, feed, if_pos failed]
    · have joined := drain_append steady (s.pending ++ c) cs.flatten
      have within := length_drain steady (s.pending ++ c)
      have left : (drain next (s.pending ++ c)).2.2 = none → _ := drain_idle steady
      have fed : feed next s c = ⟨s.values ++ (drain next (s.pending ++ c)).1,
          (drain next (s.pending ++ c)).2.1,
          s.consumed + ((s.pending ++ c).length - (drain next (s.pending ++ c)).2.1.length),
          (drain next (s.pending ++ c)).2.2⟩ := by rw [feed, if_neg failed]
      rw [fed, feed, if_neg failed, List.flatten_cons, ← List.append_assoc, joined]
      generalize drain next (s.pending ++ c) = d at within left ⊢
      obtain ⟨vs, rest, e⟩ := d
      cases e with
      | some e =>
        rw [foldl_failed rfl]
        simp only [outcome, List.length_append] at within ⊢
        congr 2
        omega
      | none =>
        rw [ih _ (fun _ => left rfl), feed, if_neg (by simp)]
        have later := length_drain steady (rest ++ cs.flatten)
        dsimp only at within ⊢
        generalize drain next (rest ++ cs.flatten) = d at later ⊢
        obtain ⟨ws, last, e⟩ := d
        simp only [outcome, List.length_append, List.append_assoc] at within later ⊢
        congr 2
        omega

/-- **Reads may be cut anywhere**: items, position and failure are those of one single read. -/
theorem session_chunks (steady : Steady next) (chunks : List Bytes)
    (empty : next [] = .wait) :
    (feedAll next chunks).outcome = (feedAll next [chunks.flatten]).outcome :=
  foldl_feed steady chunks start fun _ => drain_wait empty

end Session

end Stream
