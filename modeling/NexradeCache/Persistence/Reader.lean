import NexradeCache.Resp.Accepted

/-!
# Reading the append-only file (`AofReader` of `nexrade-core/src/persistence.rs`)

A command is returned with its raw bytes: `pending` mirrors the buffer of the parser, and the drop of
the parser's buffered length says where to cut it. `reads` is what the operating system makes of the
file, one chunk for each `read` that is still to come; behind the last a `read` returns 0 bytes. Errors
of the file system are left out.

The reader loses nothing of what the parser takes (`readAll_taken`). But the parser is that of the connections:
it takes a line of words for a command, so damage that ends in a line end passes for one
(`readAll_lossless_iff`).
-/

namespace NexradeCache

open Stream

/-- What one `read` returns before the end of the file. -/
abbrev Chunk := { data : Bytes // data ≠ [] }

/-- A reader over what the operating system has still to deliver. `consumed` counts the bytes of the commands that
were returned. -/
structure AofReader where
  reads : List Chunk
  parser : RespParser
  pending : Bytes
  consumed : Nat
  eof : Bool

/-- What `next_command` returns. -/
inductive NextCommand where
  | command (cmd : Bytes)
  | cleanEof
  /-- AOF parse error at byte `consumed`. -/
  | parseError (consumed : Nat) (msg : String)
  /-- AOF is truncated at byte `consumed`. -/
  | truncated (consumed : Nat)
deriving DecidableEq, Repr

namespace AofReader

def new (reads : List Chunk) : AofReader := ⟨reads, .new, [], 0, false⟩

/-- The bytes of the file that no command was cut from yet. -/
def rest (r : AofReader) : Bytes := r.pending ++ r.reads.flatMap Subtype.val

variable (parseF64 : String → Option F64)

/-- The front of the loop: a command from the bytes at hand, or the error they are; `none` if more bytes
are needed. -/
def attempt (r : AofReader) : AofReader × Option NextCommand :=
  if r.pending.isEmpty then (r, none)
  else
    let before := r.parser.bufferedLen
    match r.parser.parseOne parseF64 with
    | (.ok (some _), parser) =>
      let len := before - parser.bufferedLen
      ({ r with parser, pending := r.pending.drop len, consumed := r.consumed + len },
        some (.command (r.pending.take len)))
    | (.ok none, parser) => ({ r with parser }, none)
    | (.error e, parser) => ({ r with parser }, some (.parseError r.consumed e))

def refill (r : AofReader) : AofReader :=
  match r.reads with
  | [] => { r with eof := true }
  | chunk :: reads => { r with reads, parser := r.parser.feed chunk, pending := r.pending ++ chunk }

/-- `next_command`; `none` if `fuel` rounds of its loop are not enough. -/
def nextCommand : (fuel : Nat) → AofReader → Option (AofReader × NextCommand)
  | 0, _ => none
  | fuel + 1, r =>
    match r.attempt parseF64 with
    | (r, some result) => some (r, result)
    | (r, none) =>
      if r.eof then some (r, if r.pending.isEmpty then .cleanEof else .truncated r.consumed)
      else nextCommand fuel r.refill

/-- A round for each read, one at the end of the file, and the last. -/
def rounds (r : AofReader) : Nat := r.reads.length + 2

/-- Call `next_command` until it returns no command: the commands, and how it ended. -/
def readAll : (calls : Nat) → AofReader → Option (List Bytes × NextCommand)
  | 0, _ => none
  | calls + 1, r =>
    match r.nextCommand parseF64 r.rounds with
    | some (r, .command cmd) => (readAll calls r).map fun (cmds, last) => (cmd :: cmds, last)
    | some (_, last) => some ([], last)
    | none => none

end AofReader

/-! ## One call -/

namespace AofReader

/-- The two buffers are in step, and there is nothing to read behind the end. -/
structure InStep (r : AofReader) : Prop where
  mirror : r.parser.buf = r.pending
  ended : r.eof = true → r.reads = []

theorem new_inStep (reads : List Chunk) : (new reads).InStep := ⟨rfl, fun h => by cases h⟩

variable {parseF64 : String → Option F64} {r : AofReader}

theorem attempt_eq (inStep : r.InStep) : r.attempt parseF64 = match parseResp parseF64 r.pending with
    | .ok (_, n) => ({ r with parser := ⟨r.pending.drop n⟩, pending := r.pending.drop n, consumed := r.consumed + n },
        some (.command (r.pending.take n)))
    | .error .incomplete => (r, none)
    | .error (.invalid msg) => (r, some (.parseError r.consumed msg)) := by
  obtain ⟨reads, ⟨buf⟩, pending, consumed, eof⟩ := r
  obtain rfl : buf = pending := inStep.mirror
  unfold attempt RespParser.parseOne
  cases buf with
  | nil => rfl
  | cons tag b =>
    dsimp only [List.isEmpty_cons]
    rw [if_neg (by decide), if_neg (by decide)]
    rcases parsed : parseResp parseF64 (tag :: b) with (_ | msg) | ⟨value, n⟩
    · rfl
    · rfl
    · have within := (parseResp_within _ parsed).2
      have length : (tag :: b).length - ((tag :: b).drop n).length = n := by
        rw [List.length_drop]
        omega
      simp only [RespParser.bufferedLen, length]

theorem refill_inStep (inStep : r.InStep) (more : r.eof = false) : r.refill.InStep := by
  unfold refill
  split
  · rename_i none
    exact ⟨inStep.mirror, fun _ => none⟩
  · refine ⟨?_, fun h => ?_⟩
    · exact congrArg (· ++ _) inStep.mirror
    · rw [more] at h
      cases h

theorem refill_rest (r : AofReader) : r.refill.rest = r.rest := by
  unfold refill
  split
  · rename_i none
    simp [rest, none]
  · rename_i chunk reads some
    simp [rest, some]

/-- **One call of `next_command`**, by what the rest of the file starts with. -/
theorem nextCommand_eq (inStep : r.InStep) {fuel : Nat} (enough : r.reads.length + (if r.eof then 0 else 1) < fuel) :
    ∃ r', r'.InStep ∧ r.nextCommand parseF64 fuel = some (r', match parseResp parseF64 r.rest with
        | .ok (_, n) => .command (r.rest.take n)
        | .error (.invalid msg) => .parseError r.consumed msg
        | .error .incomplete => if r.rest.isEmpty then .cleanEof else .truncated r.consumed) ∧
      ∀ v n, parseResp parseF64 r.rest = .ok (v, n) → r'.rest = r.rest.drop n ∧ r'.consumed = r.consumed + n := by
  induction fuel generalizing r with
  | zero => omega
  | succ fuel ih =>
    have extend : Extends (parseResp parseF64) r.pending (r.reads.flatMap Subtype.val) := parseResp_extends _ _
    unfold nextCommand
    rw [attempt_eq inStep]
    rcases here : parseResp parseF64 r.pending with (_ | msg) | ⟨v, n⟩
    · -- The bytes at hand are not enough.
      dsimp only
      by_cases eof : r.eof = true
      · have whole : r.rest = r.pending := by simp [rest, inStep.ended eof]
        rw [if_pos eof, whole, here]
        exact ⟨r, inStep, rfl, fun v n h => by cases h⟩
      · have more : r.eof = false := by simpa using eof
        rw [if_neg eof]
        have consumed : r.refill.consumed = r.consumed := by
          unfold refill
          split <;> rfl
        obtain ⟨r', inStep', call, cut⟩ := @ih r.refill (refill_inStep inStep more) (by
          rw [more] at enough
          unfold refill
          split
          · rename_i none
            simp [none] at enough ⊢
            omega
          · rename_i chunk reads some
            simp [some, more] at enough ⊢
            omega)
        rw [refill_rest, consumed] at call cut
        exact ⟨r', inStep', call, cut⟩
    · rw [rest, extend.eq_invalid here]
      exact ⟨r, inStep, rfl, fun v n h => by cases h⟩
    · have within := (parseResp_within _ here).2
      have taken : r.rest.take n = r.pending.take n := List.take_append_of_le_length within
      have left : r.rest.drop n = r.pending.drop n ++ r.reads.flatMap Subtype.val := List.drop_append_of_le_length within
      have parsed : parseResp parseF64 r.rest = .ok (v, n) := extend.eq_ok here
      rw [parsed]
      dsimp only
      rw [taken]
      refine ⟨{ r with parser := ⟨r.pending.drop n⟩, pending := r.pending.drop n, consumed := r.consumed + n },
        ⟨rfl, inStep.ended⟩, rfl, fun v' n' h => ?_⟩
      cases h
      exact ⟨left.symm, rfl⟩

end AofReader

/-! ## The whole file -/

/-- **Reading is lossless and strict.** The calls of `next_command` on a file, however it is split into
reads, return frames in the order of the file, as many as it starts with; they end cleanly if these are
the whole file, and with an error at the first byte behind them otherwise. -/
structure Lossless (frame : Bytes → Prop) (file : Bytes) (start : Nat) (cmds : List Bytes) (last : NextCommand) :
    Prop where
  prefixed : cmds.flatten <+: file
  frames : ∀ cmd ∈ cmds, frame cmd
  /-- None is skipped, and none behind the last is complete. -/
  all : ∀ frames : List Bytes, (∀ f ∈ frames, frame f) → frames.flatten <+: file → frames <+: cmds
  clean : last = .cleanEof ↔ ∃ frames : List Bytes, (∀ f ∈ frames, frame f) ∧ frames.flatten = file
  damaged : last = .cleanEof ∨ (∃ msg, last = .parseError (start + cmds.flatten.length) msg) ∨
    last = .truncated (start + cmds.flatten.length)

/-- Where a frame could start, nothing but a frame is taken. -/
def TakesOnly (taken frame : Bytes → Prop) (file : Bytes) : Prop :=
  ∀ (frames : List Bytes) (b : Bytes), (∀ f ∈ frames, frame f) → frames.flatten ++ b <+: file → taken b → frame b

/-- A reader that is lossless for what it takes is so for a narrower notion of frame if and only if it takes
nothing else. -/
theorem Lossless.narrow_iff {taken frame : Bytes → Prop} (narrower : ∀ b, frame b → taken b) {file : Bytes}
    {start : Nat} {cmds : List Bytes} {last : NextCommand} (read : Lossless taken file start cmds last) :
    Lossless frame file start cmds last ↔ TakesOnly taken frame file := by
  constructor
  · intro strict frames b good is here
    have mem : b ∈ frames ++ [b] := by simp
    have whole : frames ++ [b] <+: cmds := by
      refine read.all _ (fun f mem => ?_) (by simpa using is)
      rcases List.mem_append.1 mem with mem | mem
      · exact narrower f (good f mem)
      · rwa [List.mem_singleton.1 mem]
    exact strict.frames b (whole.subset mem)
  · intro only
    -- The commands are frames, from the first on.
    have good (front rest : List Bytes) (split : front ++ rest = cmds) (before : ∀ f ∈ front, frame f) :
        ∀ f ∈ rest, frame f := by
      induction rest generalizing front with
      | nil => exact List.forall_mem_nil _
      | cons cmd rest ih =>
        have here : frame cmd := by
          refine only front cmd before ?_ (read.frames cmd (by simp [← split]))
          refine List.IsPrefix.trans ⟨rest.flatten, ?_⟩ read.prefixed
          rw [← split, List.flatten_append, List.flatten_cons, List.append_assoc]
        refine List.forall_mem_cons.2 ⟨here, ih (front ++ [cmd]) (by simpa using split) fun f mem => ?_⟩
        rcases List.mem_append.1 mem with mem | mem
        · exact before f mem
        · rwa [List.mem_singleton.1 mem]
    have frames := good [] cmds rfl (List.forall_mem_nil _)
    refine ⟨read.prefixed, frames, fun fs all => read.all fs fun f mem => narrower f (all f mem), ?_, read.damaged⟩
    refine read.clean.trans ⟨?_, ?_⟩
    · rintro ⟨fs, all, whole⟩
      have inside := read.all fs all (whole ▸ List.prefix_refl _)
      exact ⟨fs, fun f mem => frames f (inside.subset mem), whole⟩
    · rintro ⟨fs, all, whole⟩
      exact ⟨fs, fun f mem => narrower f (all f mem), whole⟩

section
variable {parseF64 : String → Option F64} {file : Bytes} {start : Nat}

/-- No frame at the front: the reader stops here. -/
theorem Lossless.stop {last : NextCommand} (noFrame : ∀ v n, parseResp parseF64 file ≠ .ok (v, n))
    (clean : last = .cleanEof ↔ file = [])
    (damaged : last = .cleanEof ∨ (∃ msg, last = .parseError start msg) ∨ last = .truncated start) :
    Lossless (IsCommand parseF64) file start [] last where
  prefixed := List.nil_prefix
  frames cmd mem := by cases mem
  all frames good is := by
    cases frames with
    | nil => exact List.nil_prefix
    | cons frame frames =>
      obtain ⟨more, rfl⟩ := is
      obtain ⟨v, parsed⟩ := (good frame List.mem_cons_self).append (frames.flatten ++ more)
      rw [List.flatten_cons, List.append_assoc] at noFrame
      exact (noFrame v _ parsed).elim
  clean := by
    refine clean.trans ⟨fun empty => ⟨[], List.forall_mem_nil _, empty.symm⟩, ?_⟩
    rintro ⟨frames, good, rfl⟩
    cases frames with
    | nil => rfl
    | cons frame frames =>
      obtain ⟨v, parsed⟩ := (good frame List.mem_cons_self).append frames.flatten
      exact (noFrame v _ parsed).elim
  damaged := damaged

/-- A frame in front of what the later calls return. -/
theorem Lossless.cons {cmd rest : Bytes} {cmds : List Bytes} {last : NextCommand} (frame : IsCommand parseF64 cmd)
    (later : Lossless (IsCommand parseF64) rest (start + cmd.length) cmds last) :
    Lossless (IsCommand parseF64) (cmd ++ rest) start (cmd :: cmds) last where
  prefixed := List.prefix_append_right_inj cmd |>.2 later.prefixed
  frames := List.forall_mem_cons.2 ⟨frame, later.frames⟩
  all frames good is := by
    cases frames with
    | nil => exact List.nil_prefix
    | cons first frames =>
      obtain ⟨more, same⟩ := is
      rw [List.flatten_cons, List.append_assoc] at same
      obtain ⟨rfl, behind⟩ := (good first List.mem_cons_self).unique frame same
      exact List.cons_prefix_cons.2
        ⟨rfl, later.all frames (fun f mem => good f (List.mem_cons_of_mem _ mem)) ⟨more, behind⟩⟩
  clean := by
    refine later.clean.trans ⟨?_, ?_⟩
    · rintro ⟨frames, good, rfl⟩
      exact ⟨cmd :: frames, List.forall_mem_cons.2 ⟨frame, good⟩, rfl⟩
    · rintro ⟨frames, good, same⟩
      cases frames with
      | nil =>
        have pos := frame.pos
        have := congrArg List.length same
        simp at this
        omega
      | cons first frames =>
        obtain ⟨rfl, behind⟩ := (good first List.mem_cons_self).unique frame same
        exact ⟨frames, fun f mem => good f (List.mem_cons_of_mem _ mem), behind⟩
  damaged := by
    have := later.damaged
    rwa [Nat.add_assoc, ← List.length_append, ← List.flatten_cons] at this

theorem AofReader.readAll_inStep {r : AofReader} (inStep : r.InStep) {calls : Nat} (enough : r.rest.length < calls) :
    ∃ cmds last, r.readAll parseF64 calls = some (cmds, last) ∧ Lossless (IsCommand parseF64) r.rest r.consumed cmds last := by
  induction calls generalizing r with
  | zero => omega
  | succ calls ih =>
    obtain ⟨r', inStep', call, cut⟩ := @nextCommand_eq parseF64 r inStep r.rounds (by unfold rounds; split <;> omega)
    unfold readAll
    rw [call]
    rcases parsed : parseResp parseF64 r.rest with (_ | msg) | ⟨v, n⟩
    · have noFrame (v : Resp) (n : Nat) : parseResp parseF64 r.rest ≠ .ok (v, n) := by rw [parsed]; rintro ⟨⟩
      dsimp only
      cases rest : r.rest with
      | nil =>
        refine ⟨[], .cleanEof, rfl, ?_⟩
        rw [rest] at noFrame
        exact .stop noFrame ⟨fun _ => rfl, fun _ => rfl⟩ (.inl rfl)
      | cons x xs =>
        refine ⟨[], .truncated r.consumed, rfl, ?_⟩
        rw [rest] at noFrame
        exact .stop noFrame ⟨nofun, nofun⟩ (.inr (.inr rfl))
    · have noFrame (v : Resp) (n : Nat) : parseResp parseF64 r.rest ≠ .ok (v, n) := by rw [parsed]; rintro ⟨⟩
      refine ⟨[], .parseError r.consumed msg, rfl, .stop noFrame ⟨nofun, fun empty => ?_⟩ (.inr (.inl ⟨msg, rfl⟩))⟩
      rw [empty] at parsed
      cases parsed
    · have within := parseResp_within r.rest parsed
      obtain ⟨left, position⟩ := cut v n parsed
      obtain ⟨cmds, last, calls', later⟩ := ih inStep' (by rw [left, List.length_drop]; omega)
      dsimp only
      rw [calls']
      refine ⟨r.rest.take n :: cmds, last, rfl, ?_⟩
      have length : (r.rest.take n).length = n := by rw [List.length_take]; omega
      rw [left, position] at later
      have all : Lossless (IsCommand parseF64) (r.rest.take n ++ r.rest.drop n) r.consumed (r.rest.take n :: cmds) last :=
        .cons (isCommand_take parsed) (by rw [length]; exact later)
      rwa [List.take_append_drop] at all

end

/-- **The reader loses nothing of what the parser takes**, for every content of the file and every way to
split it. -/
theorem readAll_taken (parseF64 : String → Option F64) (reads : List Chunk) :
    ∃ cmds last, (AofReader.new reads).readAll parseF64 ((reads.flatMap Subtype.val).length + 1) = some (cmds, last) ∧
      Lossless (FrameOf parseF64 .lenient) (reads.flatMap Subtype.val) 0 cmds last := by
  obtain ⟨cmds, last, read, lossless⟩ :=
    @AofReader.readAll_inStep parseF64 _ (AofReader.new_inStep reads) _ (Nat.lt_succ_self _)
  have same : IsCommand parseF64 = FrameOf parseF64 .lenient := funext fun b => propext isCommand_iff
  exact ⟨cmds, last, read, same ▸ lossless⟩

/-- **AOF reading is lossless and strict if and only if no line and no length of a looser spelling stands where
a frame could start.** -/
theorem readAll_lossless_iff (parseF64 : String → Option F64) (reads : List Chunk) :
    let file := reads.flatMap Subtype.val
    ∃ cmds last, (AofReader.new reads).readAll parseF64 (file.length + 1) = some (cmds, last) ∧
      (Lossless (FrameOf parseF64 .wire) file 0 cmds last ↔
        TakesOnly (FrameOf parseF64 .lenient) (FrameOf parseF64 .wire) file) := by
  obtain ⟨cmds, last, read, lossless⟩ := readAll_taken parseF64 reads
  exact ⟨cmds, last, read, lossless.narrow_iff fun _ => FrameOf.lenient_of_wire⟩

/-! ## A damaged file -/

/-- PING, and a line that no writer wrote. -/
def damagedFile : Bytes := Utf8.asBytes "*1\r\n$4\r\nPING\r\ncorrupted tail\r\n"

theorem head_mem_tags_of_wire {parseF64 : String → Option F64} {b : Bytes} (h : FrameOf parseF64 .wire b) :
    ∃ tag ∈ Dialect.tags, b.head? = some tag := by
  cases h with
  | line kind => cases kind <;> exact ⟨_, by decide, rfl⟩
  | null kind => rcases kind with rfl | rfl <;> exact ⟨_, by decide, rfl⟩
  | bulk => exact ⟨_, by decide, rfl⟩
  | aggregate kind =>
    refine ⟨_, ?_, rfl⟩
    exact List.mem_cons_of_mem _ (List.mem_append_right _ (List.mem_map_of_mem kind))
  | bare bare => exact bare.elim

/-- The damage is returned as a command, and the end is clean. -/
theorem readAll_damaged :
    (AofReader.new [⟨damagedFile, by decide⟩]).readAll (fun _ => none) (damagedFile.length + 1) =
        some ([Utf8.asBytes "*1\r\n$4\r\nPING\r\n", Utf8.asBytes "corrupted tail\r\n"], .cleanEof) ∧
      ¬ Lossless (FrameOf (fun _ => none) .wire) damagedFile 0
        [Utf8.asBytes "*1\r\n$4\r\nPING\r\n", Utf8.asBytes "corrupted tail\r\n"] .cleanEof := by
  refine ⟨by decide +kernel, fun lossless => ?_⟩
  obtain ⟨tag, mem, head⟩ := head_mem_tags_of_wire (lossless.frames (Utf8.asBytes "corrupted tail\r\n") (by simp))
  have first : (Utf8.asBytes "corrupted tail\r\n").head? = some 99 := by decide
  rw [first] at head
  cases head
  revert mem
  decide

end NexradeCache
