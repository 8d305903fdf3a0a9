import Mathlib.Data.List.AList
import NexradeCache.Lib.Lines
import NexradeCache.Lib.Text
import NexradeCache.Lib.Words

/-!
# Function libraries (`nexrade-lua/src/function.rs`)

The registry keeps libraries by name; what a library registers is scraped from its source. FUNCTION DUMP writes a line
for each library, FUNCTION RESTORE reads the lines and inserts library by library. Texts are lists of characters, and
whether the interpreter accepts a source is the parameter `valid`.

`dump` escapes the line feeds of a source and nothing else (`Dumpable` is what survives), `restore` in the mode APPEND
stops at the first name that is taken with the libraries before it inserted (`Whole`), and nobody looks whether two
libraries register one function (`Fresh`): `function_registry`.
-/

namespace NexradeCache

namespace Functions

open Lines Utf8

/-- The characters of a text. -/
abbrev Chars := List Char

/-- A library: its name, the names of its functions, its source. -/
structure FunctionLibrary where
  name : Chars
  source : Chars
  functions : List Chars
  deriving DecidableEq

/-- The libraries by their names. -/
abbrev FunctionRegistry := AList fun _ : Chars => FunctionLibrary

/-- What FUNCTION RESTORE does with libraries that are there. -/
inductive FunctionRestoreMode where
  | flush
  | append
  | replace
  deriving DecidableEq

/-! ## Loading -/

/-- `str::trim`. -/
def trim (s : Chars) : Chars :=
  ((s.dropWhile Words.isWhitespace).reverse.dropWhile Words.isWhitespace).reverse

/-- What a line says: a name in `#!lua name=...`, or a function in quotes behind `register_function`. -/
def scrapeLine (found : Option Chars × List Chars) (line : Chars) : Option Chars × List Chars :=
  let trimmed := trim line
  if "#!lua".toList <+: trimmed then
    let rest := trim (trimmed.drop 5)
    match Lines.splitOnce '=' rest with
    | some (k, v) => if trim k = "name".toList then (some (trim v), found.2) else found
    | none => found
  else
    match behind "register_function".toList trimmed with
    | none => found
    | some rest =>
      match rest.dropWhile fun c => c ≠ '\'' ∧ c ≠ '"' with
      | [] => found
      | quote :: rest =>
        match Lines.splitOnce quote rest with
        | some (func, _) => (found.1, found.2 ++ [func])
        | none => found

/-- The name and the functions that stand in a source. -/
def parseLibrary (source : Chars) : Option (Chars × List Chars) :=
  let (name, funcs) := (Lines.lines source).foldl scrapeLine (none, [])
  name.map fun n => (n, funcs)

/-- Letters, digits and underscores, a letter among them, and at most 200 bytes. -/
def isValidLibraryName (name : Chars) : Bool :=
  name ≠ [] && (asBytes (.ofList name)).length ≤ 200 && name.any Char.isAlpha &&
    name.all fun c => c.isAlphanum || c = '_'

/-- The error for a library that is there. -/
def alreadyExists (name : Chars) : String := "ERR Library '" ++ String.ofList name ++ "' already exists"

/-- FUNCTION LOAD. A source that is refused changes nothing. -/
def load (valid : Chars → List Chars → Option String) (source : Chars) (allowReplace : Bool)
    (g : FunctionRegistry) : Except String FunctionRegistry :=
  match parseLibrary source with
  | none => .error "Missing library meta data"
  | some (libName, funcs) =>
    if ¬ isValidLibraryName libName then
      .error ("ERR Library names can only contain letters, numbers, and underscores(_) and must have at least one " ++
        "alphabetic character. Got '" ++ String.ofList libName ++ "'")
    else if funcs = [] then .error "No functions registered"
    else match valid source funcs with
      | some e => .error e
      | none =>
        if (g.lookup libName).isSome ∧ ¬ allowReplace then .error (alreadyExists libName)
        else .ok (g.insert libName ⟨libName, source, funcs⟩)

/-! ## Dump and restore -/

/-- One line of a dump. The newlines of the source are replaced by a control character. -/
def dumpLine (lib : FunctionLibrary) : Chars :=
  '@' :: lib.name ++ '|' :: ([','].intercalate lib.functions ++ '|' ::
    lib.source.map fun c => if c = '\n' then '\x1e' else c)

/-- The libraries in the order of their names. -/
def sorted (g : FunctionRegistry) : List FunctionLibrary :=
  (g.keys.mergeSort fun a b => decide (a ≤ b)).filterMap g.lookup

/-- FUNCTION DUMP: the libraries by name, a line each. -/
def dump (g : FunctionRegistry) : Bytes := asBytes (.ofList ((sorted g).flatMap fun lib => dumpLine lib ++ ['\n']))

/-- The three parts of a line, at the first two bars. -/
def parseDumpLine (line : Chars) : Option FunctionLibrary :=
  if line.head? ≠ some '@' then none
  else do
    let (first, rest) ← Lines.splitOnce '|' line
    let (second, third) ← Lines.splitOnce '|' rest
    return {
      name := first.dropWhile (· = '@')
      functions := if second = [] then [] else second.splitOn ','
      source := third.map fun c => if c = '\x1e' then '\n' else c }

/-- The lines of a dump; one that cannot be read makes the whole unreadable. -/
def parseDump (text : Chars) : Option (List FunctionLibrary) :=
  ((Lines.lines text).filter (· ≠ [])).mapM parseDumpLine

/-- Library after library. With APPEND the first that is there ends it, and those before it stay. -/
def restoreInto (mode : FunctionRestoreMode) :
    List FunctionLibrary → FunctionRegistry → Option String × FunctionRegistry
  | [], g => (none, g)
  | lib :: libs, g =>
    if mode = .append ∧ (g.lookup lib.name).isSome then (some (alreadyExists lib.name), g)
    else restoreInto mode libs (g.insert lib.name lib)

/-- The libraries of a payload. -/
def payloadLibraries (payload : Bytes) : Option (List FunctionLibrary) :=
  (fromUtf8 payload).bind fun text => parseDump text.toList

/-- The error, if there is one, and the registry afterwards. -/
def restore (payload : Bytes) (mode : FunctionRestoreMode) (g : FunctionRegistry) : Option String × FunctionRegistry :=
  match payloadLibraries payload with
  | none => (some "payload version or checksum are wrong", g)
  | some parsed => restoreInto mode parsed (if mode = .flush then ∅ else g)

/-- The library FCALL runs, when the hash map has its libraries in this order. -/
def chosen (order : List FunctionLibrary) (func : Chars) : Option FunctionLibrary :=
  order.find? fun l => l.functions.any (· = func)

/-! ## Runs -/

/-- The calls that change the registry. -/
inductive FunctionCall where
  | load (source : Chars) (allowReplace : Bool)
  | delete (name : Chars)
  | flush
  | restore (payload : Bytes) (mode : FunctionRestoreMode)

/-- A successful call. -/
def step (valid : Chars → List Chars → Option String) (g : FunctionRegistry) : FunctionCall → Option FunctionRegistry
  | .load source allowReplace => (load valid source allowReplace g).toOption
  | .delete name => if (g.lookup name).isSome then some (g.erase name) else none
  | .flush => some ∅
  | .restore payload mode =>
    match restore payload mode g with
    | (none, g') => some g'
    | (some _, _) => none

/-- Call after call. A run is one in which no call fails. -/
def run (valid : Chars → List Chars → Option String) (calls : List FunctionCall) (g : FunctionRegistry) :
    Option FunctionRegistry := calls.foldlM (step valid) g

/-! ## What is promised -/

/-- What the dump can carry: no separator in a function name, not one function without a name, no byte in the source
that stands for a line feed and no carriage return at its end. -/
structure Dumpable (lib : FunctionLibrary) : Prop where
  names : ∀ f ∈ lib.functions, ',' ∉ f ∧ '|' ∉ f
  named : lib.functions ≠ [[]]
  source : '\x1e' ∉ lib.source
  ending : lib.source.getLast? ≠ some '\r'

/-- If a restore fails, it fails before it inserts anything. -/
def Whole (payload : Bytes) (mode : FunctionRestoreMode) (g : FunctionRegistry) : Prop :=
  ∀ libs, payloadLibraries payload = some libs → mode = .append →
    ((∀ lib ∈ libs, g.lookup lib.name = none) ∧ (libs.map (·.name)).Nodup) ∨
      ∃ lib ∈ libs.head?, (g.lookup lib.name).isSome

/-- Every function is in one library. -/
def Unique (g : FunctionRegistry) : Prop :=
  ∀ n n' lib lib', g.lookup n = some lib → g.lookup n' = some lib' → n ≠ n' → ∀ f ∈ lib.functions, f ∉ lib'.functions

/-- Of the libraries of a payload with one name the last counts. -/
def latest (libs : List FunctionLibrary) (name : Chars) : Option FunctionLibrary :=
  libs.reverse.find? fun l => l.name = name

/-- The functions that a call brings are in no other library that it brings or leaves. -/
def Fresh (g : FunctionRegistry) : FunctionCall → Prop
  | .load source _ => ∀ name funcs, parseLibrary source = some (name, funcs) →
      ∀ n lib, g.lookup n = some lib → n ≠ name → ∀ f ∈ funcs, f ∉ lib.functions
  | .restore payload mode => ∀ libs, payloadLibraries payload = some libs →
      (∀ n n' lib lib', latest libs n = some lib → latest libs n' = some lib' → n ≠ n' →
        ∀ f ∈ lib.functions, f ∉ lib'.functions) ∧
      (mode ≠ .flush → ∀ n n' lib old, latest libs n = some lib → latest libs n' = none → g.lookup n' = some old →
        ∀ f ∈ lib.functions, f ∉ old.functions)
  | _ => True

/-- All calls of the run bring fresh functions. -/
def FreshRun (valid : Chars → List Chars → Option String) : FunctionRegistry → List FunctionCall → Prop
  | _, [] => True
  | g, c :: calls => Fresh g c ∧ ∀ g', step valid g c = some g' → FreshRun valid g' calls

/-! ## Scraping -/

/-- What the registry promises of the library under a name: the dump's separators are not in the name, and no function
has a line feed. -/
structure Legible (name : Chars) (lib : FunctionLibrary) : Prop where
  named : lib.name = name
  bar : '|' ∉ name
  line : '\n' ∉ name
  start : name.head? ≠ some '@'
  functions : ∀ f ∈ lib.functions, '\n' ∉ f

/-- What is in the registry can be written in lines. -/
def AllLegible (g : FunctionRegistry) : Prop := ∀ name lib, g.lookup name = some lib → Legible name lib

theorem mem_of_mem_trim {s : Chars} {c : Char} (mem : c ∈ trim s) : c ∈ s := by
  have back := (List.dropWhile_suffix _).subset (List.mem_reverse.1 mem)
  exact (List.dropWhile_suffix _).subset (List.mem_reverse.1 back)

/-- One line of a source: names that are found in it lie in it. -/
theorem scrapeLine_functions {found : Option Chars × List Chars} {line : Chars} (inline : '\n' ∉ line)
    (clean : ∀ f ∈ found.2, '\n' ∉ f) : ∀ f ∈ (scrapeLine found line).2, '\n' ∉ f := by
  unfold scrapeLine
  dsimp only
  split_ifs with header
  · split
    · split_ifs
      · exact clean
      · exact clean
    · exact clean
  · split
    · exact clean
    · rename_i rest here
      split
      · exact clean
      · rename_i quote quoted tail
        split
        · rename_i func _ split
          intro f mem
          rcases List.mem_append.1 mem with mem | mem
          · exact clean f mem
          · obtain rfl := List.mem_singleton.1 mem
            -- the function is a part of the line
            intro feed
            have inside : '\n' ∈ quoted := by
              rw [(Lines.splitOnce_eq_some_iff.1 split).1]
              exact List.mem_append_left _ feed
            have suffix : quote :: quoted <:+ rest := tail ▸ List.dropWhile_suffix _
            exact inline (mem_of_mem_trim ((suffix_of_behind here).subset
              (suffix.subset (List.mem_cons_of_mem quote inside))))
        · exact clean

theorem parseLibrary_functions {source name : Chars} {funcs : List Chars}
    (parsed : parseLibrary source = some (name, funcs)) : ∀ f ∈ funcs, '\n' ∉ f := by
  have all (ls : List Chars) (found : Option Chars × List Chars) (inline : ∀ l ∈ ls, '\n' ∉ l)
      (clean : ∀ f ∈ found.2, '\n' ∉ f) : ∀ f ∈ (ls.foldl scrapeLine found).2, '\n' ∉ f := by
    induction ls generalizing found with
    | nil => exact clean
    | cons l ls ih =>
      exact ih _ (fun l' mem => inline l' (.tail _ mem)) (scrapeLine_functions (inline l (.head _)) clean)
  have scraped := all (Lines.lines source) (none, []) (fun l mem => newline_notMem_lines mem) (by simp)
  unfold parseLibrary at parsed
  dsimp only at parsed
  obtain ⟨n, -, same⟩ := Option.map_eq_some_iff.1 parsed
  cases same
  exact scraped

theorem isValidLibraryName_legible {name : Chars} (valid : isValidLibraryName name = true) :
    '|' ∉ name ∧ '\n' ∉ name ∧ name.head? ≠ some '@' := by
  rw [isValidLibraryName, Bool.and_eq_true, List.all_eq_true] at valid
  have plain (c : Char) (bad : ¬ (c.isAlphanum || decide (c = '_')) = true) : c ∉ name := fun mem => bad (valid.2 c mem)
  refine ⟨plain '|' (by decide), plain '\n' (by decide), fun head => plain '@' (by decide) ?_⟩
  exact List.mem_of_head? head

/-- What is read from a line can be written in a line. -/
theorem parseDumpLine_legible {line : Chars} {lib : FunctionLibrary} (inline : '\n' ∉ line)
    (parsed : parseDumpLine line = some lib) : Legible lib.name lib := by
  unfold parseDumpLine at parsed
  split_ifs at parsed
  simp only [Option.bind_eq_bind, Option.bind_eq_some_iff, Prod.exists, Option.pure_def, Option.some.injEq] at parsed
  obtain ⟨first, rest, cut, second, third, cut', rfl⟩ := parsed
  obtain ⟨rfl, clean⟩ := Lines.splitOnce_eq_some_iff.1 cut
  obtain ⟨rfl, -⟩ := Lines.splitOnce_eq_some_iff.1 cut'
  have sub : ∀ c ∈ first.dropWhile (· = '@'), c ∈ first := fun c mem => (List.dropWhile_suffix _).subset mem
  refine ⟨rfl, fun mem => clean (sub _ mem), fun mem => inline ?_, fun head => ?_, fun f mem feed => inline ?_⟩
  · exact List.mem_append_left _ (sub _ mem)
  · have not := List.head?_dropWhile_not (fun c => decide (c = '@')) first
    rw [head] at not
    simp at not
  · dsimp only at mem
    split_ifs at mem
    · cases mem
    · have inside := (of_mem_splitOn mem).2 '\n' feed
      exact List.mem_append_right _ (.tail _ (List.mem_append_left _ inside))

theorem payloadLibraries_legible {payload : Bytes} {libs : List FunctionLibrary}
    (parsed : payloadLibraries payload = some libs) : ∀ lib ∈ libs, Legible lib.name lib := by
  obtain ⟨text, -, parsed⟩ := Option.bind_eq_some_iff.1 parsed
  intro lib mem
  obtain ⟨line, inside, read⟩ := exists_of_mem_mapM parsed mem
  exact parseDumpLine_legible (newline_notMem_lines (List.mem_of_mem_filter inside)) read

/-! ## Runs keep the names legible -/

variable {valid : Chars → List Chars → Option String} {g g' : FunctionRegistry} {name : Chars} {lib : FunctionLibrary}

theorem allLegible_empty : AllLegible ∅ := by
  intro n lib found
  cases found

theorem AllLegible.insert (all : AllLegible g) (legible : Legible name lib) : AllLegible (g.insert name lib) := by
  intro n l found
  by_cases same : n = name
  · subst same
    rw [AList.lookup_insert] at found
    cases found
    exact legible
  · rw [AList.lookup_insert_ne same] at found
    exact all n l found

theorem AllLegible.restoreInto {mode : FunctionRestoreMode} {libs : List FunctionLibrary} (all : AllLegible g)
    (legible : ∀ lib ∈ libs, Legible lib.name lib) : AllLegible (restoreInto mode libs g).2 := by
  induction libs generalizing g with
  | nil => exact all
  | cons lib libs ih =>
    rw [Functions.restoreInto]
    split_ifs
    · exact all
    · exact ih (all.insert (legible lib (.head _))) fun l mem => legible l (.tail _ mem)

/-- What a successful load puts into the registry. -/
theorem load_eq_ok {source : Chars} {allowReplace : Bool} (ok : load valid source allowReplace g = .ok g') :
    ∃ name funcs, parseLibrary source = some (name, funcs) ∧ isValidLibraryName name = true ∧
      g' = g.insert name ⟨name, source, funcs⟩ := by
  unfold load at ok
  split at ok
  · cases ok
  · rename_i name funcs parsed
    split_ifs at ok with invalid missing
    all_goals split at ok
    all_goals cases ok
    exact ⟨name, funcs, parsed, by simpa using invalid, rfl⟩

theorem AllLegible.step {c : FunctionCall} (all : AllLegible g) (taken : step valid g c = some g') :
    AllLegible g' := by
  cases c with
  | load source allowReplace =>
    rw [Functions.step] at taken
    cases ended : load valid source allowReplace g with
    | error e =>
      rw [ended] at taken
      cases taken
    | ok g₁ =>
      rw [ended] at taken
      cases taken
      obtain ⟨name, funcs, parsed, accepted, rfl⟩ := load_eq_ok ended
      obtain ⟨bar, line, start⟩ := isValidLibraryName_legible accepted
      have legible : Legible name ⟨name, source, funcs⟩ := ⟨rfl, bar, line, start, parseLibrary_functions parsed⟩
      exact all.insert legible
  | delete name =>
    rw [Functions.step] at taken
    split_ifs at taken
    cases taken
    intro n lib found
    by_cases same : n = name
    · rw [same, AList.lookup_erase] at found
      cases found
    · rw [AList.lookup_erase_ne same] at found
      exact all n lib found
  | flush =>
    cases taken
    exact allLegible_empty
  | restore payload mode =>
    rw [Functions.step, restore] at taken
    cases read : payloadLibraries payload with
    | none =>
      rw [read] at taken
      cases taken
    | some libs =>
      rw [read] at taken
      have kept : AllLegible (Functions.restoreInto mode libs (if mode = .flush then ∅ else g)).2 := by
        refine AllLegible.restoreInto ?_ (payloadLibraries_legible read)
        split_ifs
        · exact allLegible_empty
        · exact all
      dsimp only at taken
      split at taken
      · rename_i g₁ ended
        cases taken
        rwa [ended] at kept
      · cases taken

theorem AllLegible.run {calls : List FunctionCall} (all : AllLegible g) (ran : run valid calls g = some g') :
    AllLegible g' := by
  induction calls generalizing g with
  | nil =>
    cases ran
    exact all
  | cons c calls ih =>
    rw [Functions.run, List.foldlM_cons] at ran
    obtain ⟨g₁, taken, ran⟩ := Option.bind_eq_some_iff.1 ran
    exact ih (all.step taken) ran

/-! ## What the dump is read as -/

/-- The library that comes out of the line of one. -/
def reread (lib : FunctionLibrary) : FunctionLibrary := (parseDumpLine (stripCr (dumpLine lib))).getD lib

/-- The source as it stands in a line. -/
def escaped (source : Chars) : Chars := source.map fun c => if c = '\n' then '\x1e' else c

/-- The source as it is read back. -/
def unescaped (text : Chars) : Chars := text.map fun c => if c = '\x1e' then '\n' else c

/-- A source without the control character comes back. -/
theorem unescaped_escaped {source : Chars} (clean : '\x1e' ∉ source) : unescaped (escaped source) = source := by
  rw [unescaped, escaped, List.map_map]
  refine (List.map_congr_left fun c mem => ?_).trans (List.map_id source)
  by_cases feed : c = '\n'
  · simp [feed]
  · have plain : c ≠ '\x1e' := fun same => clean (same ▸ mem)
    simp [feed, plain]

theorem notMem_unescaped (text : Chars) : '\x1e' ∉ unescaped text := by
  intro mem
  obtain ⟨c, -, same⟩ := List.mem_map.1 mem
  split_ifs at same with escape
  · exact absurd same (by decide)
  · exact escape same

/-- A carriage return at the end stays there, where `lines` takes it for a part of the line end. -/
theorem getLast?_escaped (source : Chars) : (escaped source).getLast? = some '\r' ↔ source.getLast? = some '\r' := by
  rw [escaped, List.getLast?_map, Option.map_eq_some_iff]
  constructor
  · rintro ⟨c, last, same⟩
    split_ifs at same
    · exact absurd same (by decide)
    · rwa [← same]
  · intro last
    exact ⟨'\r', last, rfl⟩

/-- A source comes back if no byte of it stands for a line feed and the line does not lose its end. -/
theorem unescaped_stripCr_iff (source : Chars) :
    unescaped (stripCr (escaped source)) = source ↔ '\x1e' ∉ source ∧ source.getLast? ≠ some '\r' := by
  constructor
  · intro back
    refine ⟨fun mem => notMem_unescaped _ (back ▸ mem), fun last => ?_⟩
    have stripped : stripCr (escaped source) = (escaped source).dropLast := by
      rw [stripCr, if_pos ((getLast?_escaped source).2 last)]
    have shorter := congrArg List.length back
    rw [stripped, unescaped, List.length_map, List.length_dropLast, escaped, List.length_map] at shorter
    have empty : source = [] := List.length_eq_zero_iff.1 (by omega)
    rw [empty] at last
    cases last
  · rintro ⟨clean, ending⟩
    rw [stripCr, if_neg fun last => ending ((getLast?_escaped source).1 last), unescaped_escaped clean]

theorem dumpLine_eq (lib : FunctionLibrary) : dumpLine lib =
    ('@' :: lib.name) ++ '|' :: ([','].intercalate lib.functions ++ '|' :: escaped lib.source) := rfl

/-- Only the last part can lose a carriage return. -/
theorem stripCr_dumpLine (lib : FunctionLibrary) : stripCr (dumpLine lib) =
    ('@' :: lib.name) ++ '|' :: ([','].intercalate lib.functions ++ '|' :: stripCr (escaped lib.source)) := by
  rw [dumpLine_eq, stripCr_append_cons _ (by decide), stripCr_append_cons _ (by decide)]

/-- The line of a legible library is read, the name as it is and the rest by the bars. -/
theorem parseDumpLine_stripCr (legible : Legible name lib) : ∃ second third,
    Lines.splitOnce '|' ([','].intercalate lib.functions ++ '|' :: stripCr (escaped lib.source)) = some (second, third) ∧
      parseDumpLine (stripCr (dumpLine lib)) =
        some ⟨name, unescaped third, if second = [] then [] else second.splitOn ','⟩ := by
  have bar : '|' ∈ [','].intercalate lib.functions ++ '|' :: stripCr (escaped lib.source) :=
    List.mem_append_right _ (.head _)
  have front : '|' ∉ '@' :: lib.name := by
    rw [legible.named]
    exact fun mem => (List.mem_cons.1 mem).elim (by decide) legible.bar
  have cut := Lines.splitOnce_eq_some_iff.2 ⟨stripCr_dumpLine lib, front⟩
  have name_eq : ('@' :: lib.name).dropWhile (· = '@') = name := by
    rw [legible.named, List.dropWhile_cons_of_pos (by simp)]
    have start := legible.start
    cases name with
    | nil => rfl
    | cons c cs => exact List.dropWhile_cons_of_neg (by simpa using start)
  obtain ⟨second, third, cut'⟩ : ∃ second third,
      Lines.splitOnce '|' ([','].intercalate lib.functions ++ '|' :: stripCr (escaped lib.source)) = some (second, third) :=
    ⟨_, _, if_pos bar⟩
  refine ⟨second, third, cut', ?_⟩
  rw [parseDumpLine, if_neg (by simp [stripCr_dumpLine]), cut, Option.bind_eq_bind, Option.bind_some]
  dsimp only
  rw [cut', Option.bind_some, name_eq]
  rfl

theorem reread_spec (legible : Legible name lib) :
    parseDumpLine (stripCr (dumpLine lib)) = some (reread lib) ∧ (reread lib).name = name := by
  obtain ⟨second, third, -, read⟩ := parseDumpLine_stripCr legible
  rw [reread, read]
  exact ⟨rfl, rfl⟩

theorem Lines.splitOnce_functions {functions : List Chars} (rest : Chars) (clean : ∀ f ∈ functions, '|' ∉ f) :
    Lines.splitOnce '|' ([','].intercalate functions ++ '|' :: rest) = some ([','].intercalate functions, rest) :=
  Lines.splitOnce_eq_some_iff.2 ⟨rfl, notMem_intercalate (by decide) clean⟩

/-- A library comes back exactly if it is dumpable. -/
theorem reread_eq_iff (legible : Legible name lib) : reread lib = lib ↔ Dumpable lib := by
  obtain ⟨second, third, cut, read⟩ := parseDumpLine_stripCr legible
  have reread_eq : reread lib = ⟨name, unescaped third, if second = [] then [] else second.splitOn ','⟩ := by
    rw [reread, read]
    rfl
  rw [reread_eq]
  constructor
  · intro same
    have functions_eq : (if second = [] then [] else second.splitOn ',') = lib.functions :=
      congrArg FunctionLibrary.functions same
    have source_eq : unescaped third = lib.source := congrArg FunctionLibrary.source same
    obtain ⟨whole, clean⟩ := Lines.splitOnce_eq_some_iff.1 cut
    have names : ∀ f ∈ lib.functions, ',' ∉ f ∧ '|' ∉ f := by
      intro f mem
      rw [← functions_eq] at mem
      split_ifs at mem
      · cases mem
      · obtain ⟨comma, inside⟩ := of_mem_splitOn mem
        exact ⟨comma, fun bar => clean (inside '|' bar)⟩
    -- the functions have no bar, so the first one is where `dumpLine` wrote it
    rw [Lines.splitOnce_functions _ fun f mem => (names f mem).2] at cut
    cases cut
    obtain ⟨source, ending⟩ := (unescaped_stripCr_iff lib.source).1 source_eq
    refine ⟨names, fun lone => ?_, source, ending⟩
    rw [lone] at functions_eq
    exact absurd functions_eq (by decide)
  · rintro ⟨names, lone, source, ending⟩
    rw [Lines.splitOnce_functions _ fun f mem => (names f mem).2] at cut
    cases cut
    rw [(unescaped_stripCr_iff lib.source).2 ⟨source, ending⟩, splitOn_joined (fun f mem => (names f mem).1) lone,
      ← legible.named]

/-! ## Restoring -/

/-- The sorted libraries are those of the registry. -/
theorem mem_sorted_iff : lib ∈ sorted g ↔ ∃ n, g.lookup n = some lib := by
  rw [sorted, List.mem_filterMap]
  constructor
  · rintro ⟨n, -, found⟩
    exact ⟨n, found⟩
  · rintro ⟨n, found⟩
    have key : n ∈ g := AList.lookup_isSome.1 (Option.isSome_of_eq_some found)
    exact ⟨n, (List.mergeSort_perm _ _).mem_iff.2 (AList.mem_keys.1 key), found⟩

/-- So the lines of a dump are its libraries. -/
theorem newline_notMem_dumpLine (legible : Legible name lib) : '\n' ∉ dumpLine lib := by
  have line := legible.line
  have escaped_clean : '\n' ∉ escaped lib.source := by
    intro mem
    obtain ⟨c, -, same⟩ := List.mem_map.1 mem
    split_ifs at same with feed
    · exact absurd same (by decide)
    · exact feed same
  have functions_clean := notMem_intercalate (show '\n' ≠ ',' by decide) legible.functions
  rw [dumpLine_eq, legible.named, List.mem_append, List.mem_cons, List.mem_cons, List.mem_append, List.mem_cons]
  rintro ((same | mem) | same | mem | same | mem)
  · exact absurd same (by decide)
  · exact line mem
  · exact absurd same (by decide)
  · exact functions_clean mem
  · exact absurd same (by decide)
  · exact escaped_clean mem

/-- A dump is a payload with every library as it is reread. -/
theorem payloadLibraries_dump (all : AllLegible g) : payloadLibraries (dump g) = some ((sorted g).map reread) := by
  have legible : ∀ lib ∈ sorted g, ∃ n, Legible n lib := by
    intro lib mem
    obtain ⟨n, found⟩ := mem_sorted_iff.1 mem
    exact ⟨n, all n lib found⟩
  have inline : ∀ l ∈ (sorted g).map dumpLine, '\n' ∉ l := by
    intro l mem
    obtain ⟨lib, inside, rfl⟩ := List.mem_map.1 mem
    obtain ⟨n, good⟩ := legible lib inside
    exact newline_notMem_dumpLine good
  have text : (sorted g).flatMap (fun lib => dumpLine lib ++ ['\n']) =
      ((sorted g).map dumpLine).flatMap (· ++ ['\n']) := (List.flatMap_map dumpLine (· ++ ['\n']) _).symm
  have kept : (((sorted g).map dumpLine).map stripCr).filter (· ≠ []) = ((sorted g).map dumpLine).map stripCr := by
    refine List.filter_eq_self.2 fun l mem => decide_eq_true ?_
    obtain ⟨line, inside, rfl⟩ := List.mem_map.1 mem
    obtain ⟨lib, -, rfl⟩ := List.mem_map.1 inside
    rw [stripCr_dumpLine]
    exact List.append_ne_nil_of_left_ne_nil (List.cons_ne_nil _ _) _
  rw [payloadLibraries, dump, fromUtf8_asBytes, Option.bind_some, String.toList_ofList, parseDump, text,
    lines_terminated inline, kept, mapM_eq_some_iff, List.map_map, List.forall₂_map_left_iff,
    List.forall₂_map_right_iff, List.forall₂_same]
  intro lib mem
  obtain ⟨n, good⟩ := legible lib mem
  exact (reread_spec good).1

/-- A restore that succeeds has inserted everything. -/
theorem restoreInto_lookup {mode : FunctionRestoreMode} {libs : List FunctionLibrary}
    (ends : (restoreInto mode libs g).1 = none) (n : Chars) :
    (restoreInto mode libs g).2.lookup n = (latest libs n).or (g.lookup n) := by
  induction libs generalizing g with
  | nil => rfl
  | cons lib libs ih =>
    rw [restoreInto] at ends ⊢
    split_ifs at ends ⊢
    rw [ih ends, latest, latest, List.reverse_cons, List.find?_append]
    by_cases same : lib.name = n
    · subst same
      rw [AList.lookup_insert, Option.or_assoc]
      simp
    · rw [AList.lookup_insert_ne fun eq => same eq.symm, Option.or_assoc]
      simp [same]

theorem restoreInto_ends {mode : FunctionRestoreMode} (may : mode ≠ .append) (libs : List FunctionLibrary)
    (g : FunctionRegistry) : (restoreInto mode libs g).1 = none := by
  induction libs generalizing g with
  | nil => rfl
  | cons lib libs ih =>
    rw [restoreInto, if_neg fun both => may both.1]
    exact ih _

/-- Of a dump, the last library of a name is the only one. -/
theorem latest_dump (all : AllLegible g) (n : Chars) :
    latest ((sorted g).map reread) n = (g.lookup n).map reread := by
  have back : ∀ lib ∈ ((sorted g).map reread).reverse, lib.name = n → (g.lookup n).map reread = some lib := by
    intro lib mem same
    obtain ⟨old, inside, rfl⟩ := List.mem_map.1 (List.mem_reverse.1 mem)
    obtain ⟨n', found⟩ := mem_sorted_iff.1 inside
    rw [(reread_spec (all n' old found)).2] at same
    rw [← same, found, Option.map_some]
  cases here : latest ((sorted g).map reread) n with
  | some lib => exact (back lib (List.mem_of_find?_eq_some here) (by simpa using List.find?_some here)).symm
  | none =>
    rw [latest, List.find?_eq_none] at here
    cases found : g.lookup n with
    | none => rfl
    | some lib =>
      have mem : reread lib ∈ ((sorted g).map reread).reverse :=
        List.mem_reverse.2 (List.mem_map_of_mem (mem_sorted_iff.2 ⟨n, found⟩))
      exact absurd (decide_eq_true (reread_spec (all n lib found)).2) (here _ mem)

/-- A dump restores the registry exactly if it can carry every library. -/
theorem restore_dump_iff (all : AllLegible g) (g₀ : FunctionRegistry) :
    ((restore (dump g) .flush g₀).1 = none ∧ ∀ n, (restore (dump g) .flush g₀).2.lookup n = g.lookup n) ↔
      ∀ n lib, g.lookup n = some lib → Dumpable lib := by
  rw [restore, payloadLibraries_dump all]
  dsimp only
  have ends := restoreInto_ends (by decide : FunctionRestoreMode.flush ≠ .append) ((sorted g).map reread) ∅
  have found := restoreInto_lookup ends
  rw [if_pos rfl]
  simp only [ends, found, latest_dump all, AList.lookup_empty, Option.or_none, true_and]
  constructor
  · intro same n lib here
    have back := same n
    rw [here, Option.map_some, Option.some_inj] at back
    exact (reread_eq_iff (all n lib here)).1 back
  · intro dumpable n
    cases here : g.lookup n with
    | none => rfl
    | some lib => rw [Option.map_some, (reread_eq_iff (all n lib here)).2 (dumpable n lib here)]

/-! ## Failed restores -/

/-- APPEND goes through if no name is there and none comes twice. -/
theorem restoreInto_append_eq_none_iff {libs : List FunctionLibrary} : (restoreInto .append libs g).1 = none ↔
    (∀ lib ∈ libs, g.lookup lib.name = none) ∧ (libs.map (·.name)).Nodup := by
  induction libs generalizing g with
  | nil => simp [restoreInto]
  | cons lib libs ih =>
    rw [restoreInto, List.map_cons, List.nodup_cons, List.forall_mem_cons]
    by_cases taken : (g.lookup lib.name).isSome
    · simp [taken, Option.isSome_iff_ne_none.1 taken]
    · have free : g.lookup lib.name = none := by simpa using taken
      rw [if_neg fun both => taken both.2, ih]
      constructor
      · rintro ⟨absent, nodup⟩
        have other : ∀ l ∈ libs, l.name ≠ lib.name := by
          intro l mem same
          have gone := absent l mem
          rw [same, AList.lookup_insert] at gone
          cases gone
        refine ⟨⟨free, fun l mem => ?_⟩, fun mem => ?_, nodup⟩
        · rw [← absent l mem, AList.lookup_insert_ne (other l mem)]
        · obtain ⟨l, inside, same⟩ := List.mem_map.1 mem
          exact other l inside same
      · rintro ⟨⟨-, absent⟩, fresh, nodup⟩
        refine ⟨fun l mem => ?_, nodup⟩
        have other : l.name ≠ lib.name := fun same => fresh (List.mem_map.2 ⟨l, mem, same⟩)
        rw [AList.lookup_insert_ne other, absent l mem]

/-- What is in the registry stays under its name. -/
theorem isSome_restoreInto {mode : FunctionRestoreMode} {libs : List FunctionLibrary}
    (here : (g.lookup name).isSome) : ((restoreInto mode libs g).2.lookup name).isSome := by
  induction libs generalizing g with
  | nil => exact here
  | cons lib libs ih =>
    rw [restoreInto]
    split_ifs
    · exact here
    · refine ih ?_
      by_cases same : name = lib.name
      · rw [same, AList.lookup_insert]
        rfl
      · rwa [AList.lookup_insert_ne same]

/-- A restore that fails leaves the registry, exactly when it fails before its first library. -/
theorem restore_failed_iff (payload : Bytes) (mode : FunctionRestoreMode) (g : FunctionRegistry) :
    ((restore payload mode g).1 ≠ none → (restore payload mode g).2 = g) ↔ Whole payload mode g := by
  rw [restore]
  cases read : payloadLibraries payload with
  | none =>
    refine iff_of_true (fun _ => rfl) fun libs parsed => ?_
    rw [read] at parsed
    cases parsed
  | some libs =>
    dsimp only
    by_cases appended : mode = .append
    · subst appended
      rw [if_neg (by decide)]
      constructor
      · intro same libs' parsed _
        rw [read] at parsed
        cases parsed
        by_cases ends : (restoreInto .append libs g).1 = none
        · exact .inl (restoreInto_append_eq_none_iff.1 ends)
        · right
          cases libs with
          | nil => exact absurd rfl ends
          | cons lib libs =>
            refine ⟨lib, rfl, ?_⟩
            have unchanged := same ends
            rw [restoreInto] at unchanged
            split_ifs at unchanged with taken
            · exact taken.2
            · -- the first library went in
              rw [← unchanged]
              refine isSome_restoreInto ?_
              rw [AList.lookup_insert]
              rfl
      · intro whole failed
        rcases whole libs read rfl with fine | ⟨lib, head, taken⟩
        · exact absurd (restoreInto_append_eq_none_iff.2 fine) failed
        · cases libs with
          | nil => cases head
          | cons first libs =>
            cases head
            rw [restoreInto, if_pos ⟨rfl, taken⟩]
    · refine iff_of_true (fun failed => absurd (restoreInto_ends appended libs _) failed) ?_
      exact fun _ _ same => absurd same appended

/-! ## Runs keep the functions apart -/

/-- New libraries that share no function with each other or with those that stay. -/
theorem Unique.of_lookups (unique : Unique g) (new : Chars → Option FunctionLibrary)
    (lookups : ∀ n, g'.lookup n = (new n).or (g.lookup n))
    (inner : ∀ n n' lib lib', new n = some lib → new n' = some lib' → n ≠ n' →
      ∀ f ∈ lib.functions, f ∉ lib'.functions)
    (outer : ∀ n n' lib old, new n = some lib → new n' = none → g.lookup n' = some old →
      ∀ f ∈ lib.functions, f ∉ old.functions) : Unique g' := by
  intro n n' lib lib' found found' other f mem mem'
  rw [lookups, Option.or_eq_some_iff] at found found'
  rcases found with found | ⟨absent, found⟩
  · rcases found' with found' | ⟨absent', found'⟩
    · exact inner n n' lib lib' found found' other f mem mem'
    · exact outer n n' lib lib' found absent' found' f mem mem'
  · rcases found' with found' | ⟨-, found'⟩
    · exact outer n' n lib' lib found' absent found f mem' mem
    · exact unique n n' lib lib' found found' other f mem mem'

theorem unique_empty : Unique ∅ := by
  intro n n' lib lib' found
  cases found

theorem Unique.step {c : FunctionCall} (unique : Unique g) (fresh : Fresh g c) (taken : step valid g c = some g') :
    Unique g' := by
  cases c with
  | load source allowReplace =>
    rw [Functions.step] at taken
    cases ended : load valid source allowReplace g with
    | error e =>
      rw [ended] at taken
      cases taken
    | ok g₁ =>
      rw [ended] at taken
      cases taken
      obtain ⟨name, funcs, parsed, -, rfl⟩ := load_eq_ok ended
      refine unique.of_lookups (fun n => if n = name then some ⟨name, source, funcs⟩ else none) ?_ ?_ ?_
      · intro n
        by_cases same : n = name
        · rw [same, AList.lookup_insert, if_pos rfl, Option.some_or]
        · rw [AList.lookup_insert_ne same, if_neg same, Option.none_or]
      · intro n n' lib lib' brought brought' other
        have here := Option.isSome_of_eq_some brought
        have here' := Option.isSome_of_eq_some brought'
        simp only [Option.isSome_ite] at here here'
        exact absurd (here.trans here'.symm) other
      · intro n n' lib old brought left found f mem
        by_cases same : n' = name
        · simp [same] at left
        · split_ifs at brought
          cases brought
          exact fresh name funcs parsed n' old found same f mem
  | delete name =>
    rw [Functions.step] at taken
    split_ifs at taken
    cases taken
    intro n n' lib lib' found found'
    by_cases gone : n = name
    · rw [gone, AList.lookup_erase] at found
      cases found
    · by_cases gone' : n' = name
      · rw [gone', AList.lookup_erase] at found'
        cases found'
      · rw [AList.lookup_erase_ne gone] at found
        rw [AList.lookup_erase_ne gone'] at found'
        exact unique n n' lib lib' found found'
  | flush =>
    cases taken
    exact unique_empty
  | restore payload mode =>
    rw [Functions.step, restore] at taken
    cases read : payloadLibraries payload with
    | none =>
      rw [read] at taken
      cases taken
    | some libs =>
      rw [read] at taken
      dsimp only at taken
      obtain ⟨inner, outer⟩ := fresh libs read
      cases ended : restoreInto mode libs (if mode = .flush then ∅ else g) with
      | mk error g₁ =>
        rw [ended] at taken
        cases error with
        | some e => cases taken
        | none =>
          cases taken
          have ends : (restoreInto mode libs (if mode = .flush then ∅ else g)).1 = none := by rw [ended]
          have lookups := restoreInto_lookup ends
          rw [ended] at lookups
          by_cases flushed : mode = .flush
          · rw [if_pos flushed] at lookups
            refine unique_empty.of_lookups _ lookups inner ?_
            intro _ _ _ _ _ _ found
            cases found
          · rw [if_neg flushed] at lookups
            exact unique.of_lookups _ lookups inner (outer flushed)

/-- If every call brings fresh functions, no two libraries share one. -/
theorem Unique.run {calls : List FunctionCall} (unique : Unique g) (fresh : FreshRun valid g calls)
    (ran : run valid calls g = some g') : Unique g' := by
  induction calls generalizing g with
  | nil =>
    cases ran
    exact unique
  | cons c calls ih =>
    rw [Functions.run, List.foldlM_cons] at ran
    obtain ⟨g₁, taken, ran⟩ := Option.bind_eq_some_iff.1 ran
    exact ih (unique.step fresh.1 taken) (fresh.2 g₁ taken) ran

/-- A function is found in one library, whatever the order. -/
theorem Unique.chosen {order order' : List FunctionLibrary} {func : Chars} (unique : Unique g)
    (perm : order.Perm (sorted g)) (perm' : order'.Perm (sorted g)) (here : chosen order func = some lib) :
    chosen order' func = some lib := by
  have runs {o : List FunctionLibrary} {l : FunctionLibrary} (perm : o.Perm (sorted g))
      (found : Functions.chosen o func = some l) : (∃ n, g.lookup n = some l) ∧ func ∈ l.functions := by
    refine ⟨mem_sorted_iff.1 (perm.mem_iff.1 (List.mem_of_find?_eq_some found)), ?_⟩
    simpa using List.find?_some found
  obtain ⟨⟨n, found⟩, mem⟩ := runs perm here
  cases here' : Functions.chosen order' func with
  | none =>
    rw [Functions.chosen, List.find?_eq_none] at here'
    have inside : lib ∈ order' := perm'.mem_iff.2 (mem_sorted_iff.2 ⟨n, found⟩)
    exact absurd (by simpa using mem) (here' lib inside)
  | some lib' =>
    obtain ⟨⟨n', found'⟩, mem'⟩ := runs perm' here'
    by_cases same : n = n'
    · rw [same, found'] at found
      exact found
    · exact absurd mem' (unique n n' lib lib' found found' same func mem)

theorem Unique.chosen_eq {order order' : List FunctionLibrary} (unique : Unique g) (perm : order.Perm (sorted g))
    (perm' : order'.Perm (sorted g)) (func : Chars) : Functions.chosen order func = Functions.chosen order' func :=
  Option.ext fun _ => ⟨unique.chosen perm perm', unique.chosen perm' perm⟩

/-- The registry after any run of calls: its dump restores it if every library is dumpable, a restore that fails
changes nothing if it fails at its first library, and one library has the function of an FCALL if all calls were
fresh. -/
theorem function_registry (valid : Chars → List Chars → Option String) (calls : List FunctionCall)
    (r : FunctionRegistry) (ran : run valid calls ∅ = some r) :
    (∀ g, ((restore (dump r) .flush g).1 = none ∧ ∀ n, (restore (dump r) .flush g).2.lookup n = r.lookup n) ↔
      ∀ n lib, r.lookup n = some lib → Dumpable lib) ∧
    (∀ payload mode, ((restore payload mode r).1 ≠ none → (restore payload mode r).2 = r) ↔ Whole payload mode r) ∧
    (FreshRun valid ∅ calls → Unique r ∧ ∀ func order order', order.Perm (sorted r) → order'.Perm (sorted r) →
      chosen order func = chosen order' func) := by
  refine ⟨fun g => restore_dump_iff (allLegible_empty.run ran) g, fun payload mode => restore_failed_iff payload mode r, ?_⟩
  intro fresh
  have unique := unique_empty.run fresh ran
  exact ⟨unique, fun func order order' perm perm' => unique.chosen_eq perm perm' func⟩

/-- A library whose source ends with a carriage return, which a dump loses. -/
def first : FunctionLibrary :=
  ⟨['a'], "#!lua name=a\nredis.register_function('f', function() return 1 end)\r".toList, [['f']]⟩

/-- Another one, with a function of the same name. -/
def second : FunctionLibrary :=
  ⟨['b'], "#!lua name=b\nredis.register_function('f', function() return 2 end)".toList, [['f']]⟩

/-- A third one, with a function of its own. -/
def third : FunctionLibrary :=
  ⟨['c'], "#!lua name=c\nredis.register_function('g', function() return 3 end)".toList, [['g']]⟩

/-- The second library alone. -/
def alone : FunctionRegistry := AList.insert ['b'] second ∅

/-- The second and the third, which share no function. -/
def apart : FunctionRegistry := alone.insert ['c'] third

def both : FunctionRegistry := (AList.insert ['a'] first ∅).insert ['b'] second

theorem run_eq_some {calls : List FunctionCall} {r : FunctionRegistry}
    (same : (run valid calls g).map (·.entries) = some r.entries) : run valid calls g = some r := by
  obtain ⟨r', ran, entries⟩ := Option.map_eq_some_iff.1 same
  rw [ran, AList.ext entries]

theorem run_both : run (fun _ _ => none) [.load first.source false, .load second.source false] ∅ = some both :=
  run_eq_some (by decide +kernel)

theorem run_alone : run (fun _ _ => none) [.load second.source false] ∅ = some alone := run_eq_some (by decide +kernel)

theorem run_apart : run (fun _ _ => none) [.load second.source false, .load third.source false] ∅ = some apart :=
  run_eq_some (by decide +kernel)

theorem lookup_apart {n : Chars} {lib : FunctionLibrary} (found : apart.lookup n = some lib) : lib = second ∨ lib = third := by
  by_cases c : n = ['c']
  · subst c
    exact .inr (Option.some.inj found).symm
  · rw [apart, AList.lookup_insert_ne c] at found
    by_cases b : n = ['b']
    · subst b
      exact .inl (Option.some.inj found).symm
    · rw [alone, AList.lookup_insert_ne b] at found
      cases found

/-- The second load brings a function that the first has not brought. -/
theorem freshRun_apart : FreshRun (fun _ _ => none) ∅ [.load second.source false, .load third.source false] := by
  have parsed : parseLibrary third.source = some (['c'], [['g']]) := by decide +kernel
  refine ⟨fun name funcs _ n lib found => ?_, fun g taken => ⟨fun name funcs given n lib found other f mem => ?_, ?_⟩⟩
  · cases found
  · have first : step (fun _ _ => none) ∅ (.load second.source false) = some alone := by
      have ran := run_alone
      rw [run, List.foldlM_cons] at ran
      obtain ⟨g', loaded, rest⟩ := Option.bind_eq_some_iff.1 ran
      cases rest
      exact loaded
    obtain rfl := Option.some.inj (taken.symm.trans first)
    obtain ⟨rfl, rfl⟩ := Prod.mk.inj (Option.some.inj (given.symm.trans parsed))
    obtain rfl := List.mem_singleton.1 mem
    by_cases b : n = ['b']
    · subst b
      obtain rfl := Option.some.inj found
      decide
    · rw [alone, AList.lookup_insert_ne b] at found
      cases found
  · exact fun _ _ => trivial

/-- Two libraries with one function: the dump loses the carriage return at the end of one, a payload is restored up to
the name that is taken, and which library an FCALL runs is for the hash map to say. -/
theorem function_registry_shared :
    run (fun _ _ => none) [.load first.source false, .load second.source false] ∅ = some both ∧
    (restore (dump both) .flush ∅).2.lookup ['a'] ≠ both.lookup ['a'] ∧
    ((restore (asBytes "@c||x\n@a||y\n") .append both).1 ≠ none ∧
      (restore (asBytes "@c||x\n@a||y\n") .append both).2.lookup ['c'] ≠ both.lookup ['c']) ∧
    [first, second].Perm (sorted both) ∧ [second, first].Perm (sorted both) ∧
      chosen [first, second] ['f'] ≠ chosen [second, first] ['f'] := by
  have all : AllLegible both := allLegible_empty.run run_both
  have listed : [second, first].Perm (sorted both) := by
    have values : both.keys.filterMap both.lookup = [second, first] := by decide +kernel
    rw [← values]
    exact ((List.mergeSort_perm _ _).symm).filterMap _
  refine ⟨run_both, ?_, by decide +kernel, (List.Perm.swap _ _ _).trans listed, listed, by decide +kernel⟩
  rw [restore, payloadLibraries_dump all]
  dsimp only
  rw [if_pos rfl, restoreInto_lookup (restoreInto_ends (by decide) _ _), latest_dump all]
  decide +kernel

/-- Two libraries that share no function come back from a dump, stay when a payload brings one of their names, and each
function is found in the same library in any order. -/
theorem function_registry_apart :
    run (fun _ _ => none) [.load second.source false, .load third.source false] ∅ = some apart ∧
    (∀ n, (restore (dump apart) .flush both).2.lookup n = apart.lookup n) ∧
    (restore (asBytes "@c||x\n@a||y\n") .append apart).1 ≠ none ∧
    (restore (asBytes "@c||x\n@a||y\n") .append apart).2 = apart ∧
    Unique apart ∧ ∀ order, order.Perm (sorted apart) → chosen order ['g'] = chosen (sorted apart) ['g'] := by
  obtain ⟨dumps, whole, calls⟩ := function_registry (fun _ _ => none) _ apart run_apart
  have dumpable : ∀ n lib, apart.lookup n = some lib → Dumpable lib := by
    intro n lib found
    rcases lookup_apart found with rfl | rfl
    · exact ⟨by decide, by decide, by decide, by decide⟩
    · exact ⟨by decide, by decide, by decide, by decide⟩
  have fails : (restore (asBytes "@c||x\n@a||y\n") .append apart).1 ≠ none := by decide +kernel
  have taken : Whole (asBytes "@c||x\n@a||y\n") .append apart := by
    intro libs payload _
    have names : (payloadLibraries (asBytes "@c||x\n@a||y\n")).map (fun libs => libs.head?.map (·.name)) =
        some (some ['c']) := by decide +kernel
    rw [payload, Option.map_some, Option.some_inj] at names
    obtain ⟨lib, head, name⟩ := Option.map_eq_some_iff.1 names
    refine .inr ⟨lib, head, ?_⟩
    rw [name]
    decide +kernel
  obtain ⟨unique, alike⟩ := calls freshRun_apart
  exact ⟨run_apart, ((dumps both).2 dumpable).2, fails, (whole _ _).2 taken fails, unique,
    fun order perm => alike ['g'] order (sorted apart) perm (List.Perm.refl _)⟩

end Functions

end NexradeCache
