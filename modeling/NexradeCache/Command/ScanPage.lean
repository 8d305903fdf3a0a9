import NexradeCache.Command.Streams
import NexradeCache.Data.HashRefinement
import NexradeCache.Data.SetRefinement
import NexradeCache.Lib.Paging
import NexradeCache.Lib.Words
import NexradeCache.Store.Scan

/-!
# HSCAN, SSCAN and ZSCAN (`scan_select_page` of `nexrade-core/src/command/mod.rs`)

A page of a container is selected in one pass, with a heap that never holds more than the page and a flag for
what did not fit. `Selected` is what the pass has at any element: the first elements, in order, of those it
has seen. So a page is what sorting the container and cutting it would give, and a walk by its cursors is one
of `Paging`, over a container that may change between two calls.
-/

namespace NexradeCache

open Utf8 Decimal List

variable {T : Type}

/-! ## A page -/

/-- The items of a page and the cursor of the next one, which is 0 behind the last. -/
structure ScanPage (T : Type) where
  items : List T
  nextCursor : Nat

def MAX_SCAN_PAGE : Nat := 10000

/-- A candidate for the page. -/
structure Cand (T : Type) where
  token : Nat
  bytes : Bytes
  item : T

def Cand.key (c : Cand T) : Nat ×ₗ Bytes := toLex (c.token, c.bytes)

/-- A `BinaryHeap` of candidates, in order: its root is the last one. -/
abbrev CandHeap (T : Type) := List (Cand T)

namespace CandHeap

def push (heap : CandHeap T) (c : Cand T) : CandHeap T := heap.insertBy Cand.key c

def peek (heap : CandHeap T) : Option (Cand T) := heap.getLast?

def pop (heap : CandHeap T) : CandHeap T := heap.dropLast

end CandHeap

/-- The state of the pass. -/
structure Selecting (T : Type) where
  heap : CandHeap T
  moreBeyondPage : Bool

/-- Whether a token is not behind the cursor. -/
def isDone (cursor : Option Nat) (token : Nat) : Bool :=
  match cursor with
  | some c => token ≤ c
  | none => false

/-- One element; `none` is the panic of a full heap without a root. -/
def selectStep (cursor : Option Nat) (limit : Nat) (elem : T → Bytes) (s : Selecting T) (item : T) :
    Option (Selecting T) :=
  let bytes := elem item
  let token := scanCursorToken bytes
  if isDone cursor token then some s
  else if s.heap.length < limit then some { s with heap := s.heap.push ⟨token, bytes, item⟩ }
  else do
    let root ← s.heap.peek
    if root.token < token || (token = root.token && root.bytes < bytes) then
      return { s with moreBeyondPage := true }
    else
      return ⟨(s.heap.push ⟨token, bytes, item⟩).pop, true⟩

def scanSelectPage (items : List T) (cursor : Option Nat) (limit : Nat) (elem : T → Bytes) : Option (ScanPage T) :=
  let limit := min limit MAX_SCAN_PAGE
  if limit = 0 then some ⟨[], 0⟩
  else do
    let s ← items.foldlM (selectStep cursor limit elem) ⟨[], false⟩
    let nextCursor := match s.heap.getLast? with
      | some last => if s.moreBeyondPage then last.token else 0
      | none => 0
    return ⟨s.heap.map Cand.item, nextCursor⟩

/-! ## Sorting and cutting -/

/-- The place of an element in the walk. -/
def scanKey (elem : T → Bytes) (t : T) : Nat ×ₗ Bytes := toLex (scanCursorToken (elem t), elem t)

/-- The elements behind the cursor, in order. -/
def inScanOrder (items : List T) (cursor : Option Nat) (elem : T → Bytes) : List T :=
  (items.mergeSort fun a b => scanKey elem a ≤ scanKey elem b).filter fun t =>
    !isDone cursor (scanCursorToken (elem t))

/-- What a page is for: sort the container, take what is behind the cursor, cut it. -/
def sortAndSlice (items : List T) (cursor : Option Nat) (limit : Nat) (elem : T → Bytes) : ScanPage T :=
  let rest := inScanOrder items cursor elem
  let page := rest.take (min limit MAX_SCAN_PAGE)
  ⟨page, if page.length < rest.length then (page.getLast?.map (scanCursorToken ∘ elem)).getD 0 else 0⟩

/-! ## The pass -/

section

variable {cursor : Option Nat} {limit : Nat} {elem : T → Bytes}

def candidate (elem : T → Bytes) (t : T) : Cand T := ⟨scanCursorToken (elem t), elem t, t⟩

/-- What the pass has of the elements it has seen. -/
structure Selected (cursor : Option Nat) (limit : Nat) (elem : T → Bytes) (seen : List T) (s : Selecting T) : Prop where
  heap : s.heap = ((inScanOrder seen cursor elem).take limit).map (candidate elem)
  more : s.moreBeyondPage = decide (limit < (inScanOrder seen cursor elem).length)

theorem scanKey_injective {items : List T} (distinct : (items.map elem).Nodup) : (items.map (scanKey elem)).Nodup := by
  refine List.Nodup.of_map (fun k => (ofLex k).2) ?_
  rwa [List.map_map]

theorem increasing_inScanOrder {items : List T} (distinct : (items.map elem).Nodup) (cursor : Option Nat) :
    Increasing (scanKey elem) (inScanOrder items cursor elem) :=
  (increasing_mergeSort (scanKey_injective distinct)).sublist List.filter_sublist

theorem mem_inScanOrder {items : List T} {t : T} :
    t ∈ inScanOrder items cursor elem ↔ t ∈ items ∧ isDone cursor (scanCursorToken (elem t)) = false := by
  simp [inScanOrder]

/-- An element that is behind the cursor comes to its place. -/
theorem inScanOrder_concat {seen : List T} {t : T} (distinct : ((seen ++ [t]).map elem).Nodup) :
    inScanOrder (seen ++ [t]) cursor elem =
      if isDone cursor (scanCursorToken (elem t)) then inScanOrder seen cursor elem
      else (inScanOrder seen cursor elem).insertBy (scanKey elem) t := by
  have before : (seen.map elem).Nodup := by
    rw [List.map_append] at distinct
    exact distinct.of_append_left
  have apart : ∀ e ∈ seen, scanKey elem e ≠ scanKey elem t := by
    intro e mem same
    rw [List.map_append, List.nodup_append] at distinct
    exact distinct.2.2 _ (List.mem_map_of_mem mem) _ (.head _) (congrArg (fun k => (ofLex k).2) same)
  have perm : (inScanOrder (seen ++ [t]) cursor elem).Perm
      ((seen ++ [t]).filter fun t => !isDone cursor (scanCursorToken (elem t))) :=
    (List.mergeSort_perm _ _).filter _
  have perm' : (inScanOrder seen cursor elem).Perm (seen.filter fun t => !isDone cursor (scanCursorToken (elem t))) :=
    (List.mergeSort_perm _ _).filter _
  rw [List.filter_append] at perm
  split
  · rename_i done
    rw [List.filter_cons_of_neg (by simp [done]), List.filter_nil, List.append_nil] at perm
    exact (increasing_inScanOrder distinct cursor).eq_of_perm (increasing_inScanOrder before cursor)
      (perm.trans perm'.symm)
  · rename_i ahead
    rw [List.filter_cons_of_pos (by simp [ahead]), List.filter_nil] at perm
    refine (increasing_inScanOrder distinct cursor).eq_of_perm ?_ ?_
    · exact (increasing_inScanOrder before cursor).insertBy fun e mem => apart e (mem_inScanOrder.1 mem).1
    · refine perm.trans ((List.perm_append_singleton _ _).trans ?_)
      exact (perm'.symm.cons t).trans (insertBy_perm _ _ _).symm

theorem push_candidate (l : List T) (t : T) :
    CandHeap.push (l.map (candidate elem)) (candidate elem t) = (l.insertBy (scanKey elem) t).map (candidate elem) :=
  map_insertBy (candidate elem) t l

theorem candidate_lt_iff {a b : T} :
    ((candidate elem a).token < (candidate elem b).token ||
        ((candidate elem b).token = (candidate elem a).token && (candidate elem a).bytes < (candidate elem b).bytes)) =
      decide (scanKey elem a < scanKey elem b) := by
  rw [Bool.eq_iff_iff, decide_eq_true_eq, scanKey, scanKey, Prod.Lex.toLex_lt_toLex, Bool.or_eq_true,
    Bool.and_eq_true, decide_eq_true_eq, decide_eq_true_eq, decide_eq_true_eq, @eq_comm _ (candidate elem b).token]
  rfl

/-- **One element of the pass.** -/
theorem Selected.step {seen : List T} {s : Selecting T} (selected : Selected cursor limit elem seen s)
    (room : 0 < limit) {t : T} (distinct : ((seen ++ [t]).map elem).Nodup) :
    ∃ s', selectStep cursor limit elem s t = some s' ∧ Selected cursor limit elem (seen ++ [t]) s' := by
  have order : inScanOrder (seen ++ [t]) cursor elem = _ := inScanOrder_concat distinct
  obtain ⟨heap, more⟩ := selected
  by_cases done : isDone cursor (scanCursorToken (elem t)) = true
  · refine ⟨s, by simp [selectStep, done], ?_⟩
    rw [if_pos done] at order
    exact ⟨by rw [order, heap], by rw [order, more]⟩
  rw [if_neg done] at order
  set l := inScanOrder seen cursor elem with isL
  have length : (l.insertBy (scanKey elem) t).length = l.length + 1 := (insertBy_perm _ _ _).length_eq
  have heapLength : s.heap.length = min limit l.length := by rw [heap, List.length_map, List.length_take]
  by_cases short : s.heap.length < limit
  · -- All the candidates so far are on the heap.
    have few : l.length < limit := by omega
    rw [List.take_of_length_le few.le] at heap
    refine ⟨{ s with heap := s.heap.push (candidate elem t) }, ?_, ?_, ?_⟩
    · simp [selectStep, done, short, candidate]
    · show s.heap.push _ = _
      rw [order, heap, push_candidate, List.take_of_length_le (by omega)]
    · show s.moreBeyondPage = _
      rw [order, more, length, decide_eq_decide]
      omega
  · have full : limit ≤ l.length := by omega
    have cut : (l.take limit).length = limit := by rw [List.length_take]; omega
    obtain ⟨root, isRoot⟩ : ∃ root, (l.take limit).getLast? = some root :=
      ⟨_, List.getLast?_eq_some_getLast (List.ne_nil_of_length_pos (cut.symm ▸ room))⟩
    have peek : s.heap.peek = some (candidate elem root) := by
      rw [CandHeap.peek, heap, List.getLast?_map, isRoot]
      rfl
    have sorted : Increasing (scanKey elem) l := increasing_inScanOrder (by
      rw [List.map_append] at distinct
      exact distinct.of_append_left) cursor
    have left : limit < l.length + 1 := by omega
    have step : selectStep cursor limit elem s t =
        if scanKey elem root < scanKey elem t then some { s with moreBeyondPage := true }
        else some ⟨(s.heap.push (candidate elem t)).pop, true⟩ := by
      rw [selectStep, if_neg done, if_neg short, peek, Option.bind_eq_bind, Option.bind_some]
      refine if_congr ?_ rfl rfl
      rw [← decide_eq_true_iff (p := scanKey elem root < scanKey elem t), ← candidate_lt_iff]
      rfl
    rw [step]
    split
    · -- It is worse than the root, so it does not belong to the page.
      rename_i worse
      refine ⟨_, rfl, ?_, by simp [order, length, left]⟩
      have above : ∀ e ∈ l.take limit, scanKey elem e < scanKey elem t := fun e mem =>
        (Paging.le_of_getLast? (sorted.sublist (List.take_sublist _ _)) mem isRoot).trans_lt worse
      show s.heap = _
      rw [order, ← take_insertBy_take, insertBy_of_above above, List.take_append_of_le_length cut.ge,
        List.take_of_length_le cut.le, heap]
    · -- It takes its place on the heap and the worst one goes.
      refine ⟨_, rfl, ?_, by simp [order, length, left]⟩
      have one : ((l.take limit).insertBy (scanKey elem) t).length = limit + 1 := by
        rw [(insertBy_perm _ _ _).length_eq, List.length_cons, cut]
      show (s.heap.push _).pop = _
      rw [order, heap, push_candidate, CandHeap.pop, ← List.map_dropLast, List.dropLast_eq_take, one,
        Nat.add_sub_cancel, take_insertBy_take]

/-- **The whole pass.** -/
theorem selected_foldlM (room : 0 < limit) (items : List T) {seen : List T} {s : Selecting T}
    (selected : Selected cursor limit elem seen s) (distinct : ((seen ++ items).map elem).Nodup) :
    ∃ s', items.foldlM (selectStep cursor limit elem) s = some s' ∧
      Selected cursor limit elem (seen ++ items) s' := by
  induction items generalizing seen s with
  | nil => exact ⟨s, rfl, by rwa [List.append_nil]⟩
  | cons t items ih =>
    rw [List.append_cons] at distinct ⊢
    have front : ((seen ++ [t]).map elem).Nodup := by
      rw [List.map_append] at distinct
      exact distinct.of_append_left
    obtain ⟨s₁, step, selected⟩ := selected.step room front
    rw [List.foldlM_cons, step]
    exact ih selected distinct

end

theorem scanSelectPage_eq {items : List T} {elem : T → Bytes} (distinct : (items.map elem).Nodup)
    (cursor : Option Nat) (limit : Nat) :
    scanSelectPage items cursor limit elem = some (sortAndSlice items cursor limit elem) := by
  rw [scanSelectPage, sortAndSlice]
  by_cases none' : min limit MAX_SCAN_PAGE = 0
  · simp [none']
  have start : Selected cursor (min limit MAX_SCAN_PAGE) elem [] ⟨[], false⟩ :=
    ⟨by simp [inScanOrder], by simp [inScanOrder]⟩
  obtain ⟨s, run, heap, more⟩ := selected_foldlM (Nat.pos_of_ne_zero none') items start distinct
  rw [List.nil_append] at heap more
  have flag : (((inScanOrder items cursor elem).take (min limit MAX_SCAN_PAGE)).length <
      (inScanOrder items cursor elem).length) = (s.moreBeyondPage = true) := by
    rw [more, decide_eq_true_eq, List.length_take]
    exact propext (by omega)
  have items' : (candidate elem · |>.item) = (id : T → T) := rfl
  rw [if_neg none', run, Option.bind_eq_bind, Option.bind_some, heap]
  simp only [List.map_map, List.getLast?_map, flag]
  refine congrArg some (congr (congrArg ScanPage.mk ?_) ?_)
  · exact List.map_id _
  · cases ((inScanOrder items cursor elem).take (min limit MAX_SCAN_PAGE)).getLast? <;> simp [candidate]

/-! ## The three commands -/

/-- Zero starts a walk, and so does a text that is no cursor. -/
def decodeScanCursor (token : String) : Option Nat :=
  match parseUsize (Words.trim token) with
  | none | some 0 => none
  | some n => some n

section

variable (toUppercase : String → String)

/-- MATCH and COUNT; what is neither is passed over. -/
def scanOptions (cmd : String) : (args : List Resp) → (pattern : Option Bytes) → (count : Nat) → Result (Option Bytes × Nat)
  | [], pattern, count => .ok (pattern, count)
  | a :: rest, pattern, count => do
    let opt := toUppercase (← strArg cmd (some a))
    match rest with
    | [] =>
      if opt = "MATCH" ∨ opt = "COUNT" then throw (.wrongArity cmd)
      return (pattern, count)
    | b :: rest =>
      if opt = "MATCH" then scanOptions cmd rest (some (← bytesArg cmd (some b))) count
      else if opt = "COUNT" then
        let n ← i64Arg cmd (some b)
        if n ≤ 0 then throw (.generic "syntax error")
        scanOptions cmd rest pattern n.toInt.toNat
      else scanOptions cmd (b :: rest) pattern count

def scanArgs (cmd : String) (args : List Resp) : Result (Option Nat × Bytes × Nat) := do
  if args.length < 3 then throw (.wrongArity cmd)
  let _key ← bytesArg cmd args[1]?
  let cursor := ((args[2]?).bind Resp.asStr).bind decodeScanCursor
  let (pattern, count) ← scanOptions toUppercase cmd (args.drop 3) none 10
  return (cursor, pattern.getD [42], count)

/-- A kind of value that is scanned: what it iterates over, `none` for a value of another kind and then for a buffer
that breaks off, the part of an element that is matched and ordered, and what of it is returned. -/
structure Container (T : Type) where
  cmd : String
  view : DataType → Option (Option (List T))
  elem : T → Bytes
  reply : T → List Resp

def Container.pageReply (c : Container T) (page : ScanPage T) : Resp :=
  .array (some [.bulkString (some (numeral page.nextCursor)), .array (some (page.items.flatMap c.reply))])

/-- The handler of a container; `none` is a panic. -/
def Container.scan (c : Container T) (args : List Resp) (cell : Option DataType) : Option (Result Resp) :=
  match scanArgs toUppercase c.cmd args with
  | .error e => some (.error e)
  | .ok (cursor, pattern, count) => match cell with
    | none => some (.ok (c.pageReply ⟨[], 0⟩))
    | some d => match c.view d with
      | none => some (.error .wrongType)
      | some none => none
      | some (some items) =>
        (scanSelectPage (items.filter fun t => globMatch pattern (c.elem t)) cursor count c.elem).map fun page =>
          .ok (c.pageReply page)

def hashContainer (ord : PairOrder) : Container (Bytes × Bytes) where
  cmd := "hscan"
  view
    | .hash h => some (h.iterPairsRef ord)
    | _ => none
  elem := Prod.fst
  reply p := [.bulkString (some p.1), .bulkString (some p.2)]

def setContainer : Container Bytes where
  cmd := "sscan"
  view
    | .set s => some s.iterRef
    | _ => none
  elem := id
  reply m := [.bulkString (some m)]

def zsetContainer (formatFloat : F64 → Bytes) (ord : ScoreOrder) : Container (Bytes × F64) where
  cmd := "zscan"
  view
    | .zset z => some (some (z.iterPairsRef ord))
    | _ => none
  elem := Prod.fst
  reply p := [.bulkString (some p.1), .bulkString (some (formatFloat p.2))]

def Container.cmdHscan (ord : PairOrder) := (hashContainer ord).scan toUppercase

def Container.cmdSscan := setContainer.scan toUppercase

def Container.cmdZscan (formatFloat : F64 → Bytes) (ord : ScoreOrder) := (zsetContainer formatFloat ord).scan toUppercase

end

theorem hashContainer_view {h : HashData} {m : HashSpec.Map} (rep : h.Rep m) (ord : PairOrder) :
    ∃ items, (hashContainer ord).view (.hash h) = some (some items) ∧ (items.map (hashContainer ord).elem).Nodup ∧
      ∀ f v, (f, v) ∈ items ↔ m f = some v := by
  obtain ⟨items, -, read, nodup, mem, -⟩ := rep.agrees.pairs ord
  exact ⟨items, congrArg some read, nodup, mem⟩

theorem setContainer_view {d : SetData} {s : Finset Bytes} (rep : d.Rep s) :
    ∃ items, setContainer.view (.set d) = some (some items) ∧ (items.map setContainer.elem).Nodup ∧
      ∀ m, m ∈ items ↔ m ∈ s := by
  obtain ⟨items, -, read, nodup, mem, -⟩ := rep.agrees.members
  exact ⟨items, congrArg some read, by rwa [show setContainer.elem = id from rfl, List.map_id], mem⟩

/-! ## Cursors -/

/-- What is read as the cursor `n`. -/
def ofCursor (n : Nat) : Option Nat := if n = 0 then none else some n

theorem isDone_ofCursor {n token : Nat} (positive : 0 < token) : isDone (ofCursor n) token = false ↔ n < token := by
  rw [ofCursor]
  split
  · rename_i zero
    simpa [isDone, zero] using positive
  · simp [isDone]

theorem scanCursorToken_pos (b : Bytes) : 0 < scanCursorToken b :=
  (Nat.two_pow_pos 32).trans_le (scanCursorToken_bounds b).1

theorem solid_decimalChars (n : UInt64) : Words.Solid (.ofList (decimalChars n)) := by
  intro c mem
  rw [String.toList_ofList] at mem
  obtain ⟨x, digit, rfl⟩ := List.mem_map.1 mem
  have isDigit := (isNumeral_numeral n.toNat).digits x digit
  simp only [Decimal.isDigit, Bool.and_eq_true, decide_eq_true_eq, UInt8.le_iff_toNat_le] at isDigit
  have solid : ∀ v < 58, 48 ≤ v → Words.isWhitespace (Char.ofNat v) = false := by decide
  exact solid _ (Nat.lt_succ_of_le isDigit.2) isDigit.1

/-- A cursor that was handed out is read back. -/
theorem decodeScanCursor_numeral {n : Nat} (word : n < 2 ^ 64) :
    ((Resp.bulkString (some (numeral n))).asStr.bind decodeScanCursor) = ofCursor n := by
  have toNat : (UInt64.ofNat n).toNat = n := UInt64.toNat_ofNat_of_lt word
  have text := asBytes_decimalChars (.ofNat n)
  rw [toNat] at text
  have parsed := (isNumeral_numeral n).parseUsize (value_numeral n) word text
  have str : (Resp.bulkString (some (numeral n))).asStr = some (.ofList (decimalChars (.ofNat n))) := by
    rw [Resp.asStr, ← text, fromUtf8_asBytes]
  rw [str, Option.bind_some, decodeScanCursor, (solid_decimalChars _).trim_eq, parsed, ofCursor]
  cases n <;> rfl

/-! ## Pages of a container whose tokens are distinct -/

section

variable {items : List T} {elem : T → Bytes} {cursor : Option Nat} {limit : Nat}

theorem increasing_tokens (tokens : (items.map (scanCursorToken ∘ elem)).Nodup) (cursor : Option Nat) :
    Increasing (scanCursorToken ∘ elem) (inScanOrder items cursor elem) := by
  have distinct : (items.map elem).Nodup := by
    refine List.Nodup.of_map scanCursorToken ?_
    rwa [List.map_map]
  have apart : (inScanOrder items cursor elem).Pairwise fun a b =>
      (scanCursorToken ∘ elem) a ≠ (scanCursorToken ∘ elem) b := by
    rw [← List.pairwise_map]
    exact (((List.mergeSort_perm _ _).map _).nodup_iff.2 tokens).sublist (List.filter_sublist.map _)
  refine (increasing_inScanOrder distinct cursor).imp₂ (fun a b less ne => ?_) apart
  rcases Prod.Lex.toLex_lt_toLex.1 less with less | ⟨tie, -⟩
  · exact less
  · exact absurd tie ne

theorem sortAndSlice_sound {t : T} (mem : t ∈ (sortAndSlice items cursor limit elem).items) :
    t ∈ items ∧ isDone cursor (scanCursorToken (elem t)) = false :=
  mem_inScanOrder.1 (List.mem_of_mem_take mem)

/-- **A page that hands back a cursor** ends with this token, and everything up to it is on the page. -/
theorem sortAndSlice_full (tokens : (items.map (scanCursorToken ∘ elem)).Nodup)
    (more : (sortAndSlice items cursor limit elem).nextCursor ≠ 0) :
    (∃ t ∈ (sortAndSlice items cursor limit elem).items,
        scanCursorToken (elem t) = (sortAndSlice items cursor limit elem).nextCursor) ∧
      (∀ t ∈ (sortAndSlice items cursor limit elem).items,
        scanCursorToken (elem t) ≤ (sortAndSlice items cursor limit elem).nextCursor) ∧
      ∀ t ∈ items, isDone cursor (scanCursorToken (elem t)) = false →
        scanCursorToken (elem t) ≤ (sortAndSlice items cursor limit elem).nextCursor →
          t ∈ (sortAndSlice items cursor limit elem).items := by
  have sorted := increasing_tokens tokens cursor
  unfold sortAndSlice at more ⊢
  dsimp only at more ⊢
  split at more
  · rename_i left
    rw [if_pos left]
    cases last : ((inScanOrder items cursor elem).take (min limit MAX_SCAN_PAGE)).getLast? with
    | none =>
      rw [last] at more
      exact absurd rfl more
    | some t =>
      refine ⟨⟨t, List.mem_of_getLast? last, rfl⟩, fun u mem => ?_, fun u mem ahead le => ?_⟩
      · exact Paging.le_of_getLast? (sorted.sublist (List.take_sublist _ _)) mem last
      · exact Paging.mem_take_of_le sorted (mem_inScanOrder.2 ⟨mem, ahead⟩) last le
  · exact absurd rfl more

end

/-! ## A walk -/

/-- One call of a walk but for its cursor, with what it finds: the value of the key, the elements of this value, and
the pattern and the count of its options. -/
structure ContainerCall (T : Type) where
  name : Resp
  key : Resp
  options : List Resp
  cell : Option DataType
  items : List T
  pattern : Bytes
  count : Nat

namespace ContainerCall

def args (call : ContainerCall T) (cursor : Nat) : List Resp :=
  call.name :: call.key :: .bulkString (some (numeral cursor)) :: call.options

/-- The call is well formed, and finds no key or one that holds a container with these elements. -/
structure Reads (toUppercase : String → String) (c : Container T) (call : ContainerCall T) : Prop where
  key : ∃ k, bytesArg c.cmd (some call.key) = .ok k
  options : ∃ p : Option Bytes, scanOptions toUppercase c.cmd call.options none 10 = .ok (p, call.count) ∧
    call.pattern = p.getD [42]
  cell : (call.cell = none ∧ call.items = []) ∨ ∃ d, call.cell = some d ∧ c.view d = some (some call.items)

/-- The elements that match. -/
def matching (c : Container T) (call : ContainerCall T) : List T :=
  call.items.filter fun t => globMatch call.pattern (c.elem t)

def pageAfter (c : Container T) (call : ContainerCall T) (cursor : Nat) : ScanPage T :=
  sortAndSlice (call.matching c) (ofCursor cursor) call.count c.elem

end ContainerCall

namespace ContainerCall

variable {toUppercase : String → String} {c : Container T} {call : ContainerCall T}

theorem Reads.scanArgs_eq (reads : call.Reads toUppercase c) {cursor : Nat} (word : cursor < 2 ^ 64) :
    scanArgs toUppercase c.cmd (call.args cursor) = .ok (ofCursor cursor, call.pattern, call.count) := by
  obtain ⟨k, key⟩ := reads.key
  obtain ⟨p, options, pattern⟩ := reads.options
  have enough : ¬(call.args cursor).length < 3 := by simp [args]
  have decoded := decodeScanCursor_numeral word
  rw [scanArgs, if_neg enough]
  simp only [args, List.getElem?_cons_succ, List.getElem?_cons_zero, key, List.drop_succ_cons, List.drop_zero, options,
    Option.bind_some, decoded, bind, Except.bind, pure, Except.pure, pattern]

/-- **A call of a walk.** -/
theorem Reads.scan_eq (reads : call.Reads toUppercase c) (tokens : (call.items.map (scanCursorToken ∘ c.elem)).Nodup)
    {cursor : Nat} (word : cursor < 2 ^ 64) :
    c.scan toUppercase (call.args cursor) call.cell = some (.ok (c.pageReply (call.pageAfter c cursor))) := by
  rw [Container.scan, reads.scanArgs_eq word]
  dsimp only
  rcases reads.cell with ⟨absent, empty⟩ | ⟨d, found, view⟩
  · rw [absent, pageAfter, matching, empty]
    simp [sortAndSlice, inScanOrder]
  · have distinct : ((call.matching c).map c.elem).Nodup := by
      refine List.Nodup.of_map scanCursorToken ?_
      rw [List.map_map]
      exact tokens.sublist (List.filter_sublist.map _)
    rw [found]
    dsimp only
    rw [view]
    dsimp only
    have page := scanSelectPage_eq distinct (ofCursor cursor) call.count
    rw [matching] at page
    rw [page, pageAfter, matching, Option.map_some]

section

variable (c) (calls : Nat → ContainerCall T)

/-- The cursor of call `i`. -/
def cursorAt : Nat → Nat
  | 0 => 0
  | i + 1 => ((calls i).pageAfter c (cursorAt i)).nextCursor

def pageAt (i : Nat) : ScanPage T := (calls i).pageAfter c (cursorAt c calls i)

end

variable {calls : Nat → ContainerCall T}

theorem tokens_matching (tokens : (call.items.map (scanCursorToken ∘ c.elem)).Nodup) :
    ((call.matching c).map (scanCursorToken ∘ c.elem)).Nodup :=
  tokens.sublist (List.filter_sublist.map _)

/-- The calls walk, in the order of the tokens. -/
theorem walk_pageAt (tokens : ∀ i, ((calls i).items.map (scanCursorToken ∘ c.elem)).Nodup) :
    Paging.Walk scanCursorToken (fun i => ((calls i).matching c).map c.elem) (cursorAt c calls)
      fun i => (pageAt c calls i).items.map c.elem where
  start := rfl
  sorted i := by
    refine List.pairwise_map.2 ?_
    exact (increasing_tokens (tokens_matching (tokens i)) _).sublist (List.take_sublist _ _)
  ahead i a mem := by
    obtain ⟨t, inPage, rfl⟩ := List.mem_map.1 mem
    exact (isDone_ofCursor (scanCursorToken_pos _)).1 (sortAndSlice_sound inPage).2
  full i more := by
    obtain ⟨⟨t, inPage, is⟩, within, upTo⟩ := sortAndSlice_full (tokens_matching (tokens i)) more
    obtain ⟨inItems, ahead⟩ := sortAndSlice_sound inPage
    refine ⟨⟨c.elem t, List.mem_map_of_mem inItems, is, (isDone_ofCursor (scanCursorToken_pos _)).1 ahead⟩,
      fun a mem => ?_, fun a mem ahead le => ?_⟩
    · obtain ⟨u, inPage, rfl⟩ := List.mem_map.1 mem
      exact within u inPage
    · obtain ⟨u, inItems, rfl⟩ := List.mem_map.1 mem
      exact List.mem_map_of_mem (upTo u inItems ((isDone_ofCursor (scanCursorToken_pos _)).2 ahead) le)

/-- An element that a call is to return. -/
def Sees (c : Container T) (call : ContainerCall T) (a : Bytes) : Prop :=
  ∃ t ∈ call.items, c.elem t = a ∧ globMatch call.pattern a = true

end ContainerCall

section

open ContainerCall

end

end NexradeCache
