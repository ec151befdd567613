import AgentPlatform.Machinery.Programs
import AgentPlatform.Machinery.Symlinks
import AgentPlatform.Retrieval.Parser
import AgentPlatform.Tools.Arguments
import Mathlib.Data.List.Sort
import Mathlib.Data.String.Basic

/-!
# Tools/ReadTools — what the read tools see of the disk

`read_file`, `list_directory` and the target of `get_dependencies` are resolved and checked against
the root before they are opened.  A resolved path leads to itself, unless it was cut short at a link
that leads back to itself.  `search_code`, `find_symbol`, `find_references` and the other half of
`get_dependencies` walk the tree and open whatever `is_file` accepts, and `is_file` follows links.

* `unaffected_iff` — the tools do not depend on what lies outside the root exactly if no source file
  of the walk is a link that leads there, nor a path that passes the check with links in it.
-/

namespace AgentPlatform

open PosixPath Symlinks

/-- A value of a tool result's `data`. -/
inductive DataValue where
  | text (t : Text)
  | number (n : ℕ)
  | texts (ts : List Text)
  deriving DecidableEq, Repr

/-- `ToolResult`, of a tool that runs no command. -/
structure ReadResult where
  ok : Bool
  content : String
  data : List (String × DataValue)
  deriving DecidableEq, Repr

namespace ReadResult

/-- `ToolResult.failure`. -/
def failure (content : String) : ReadResult := ⟨false, content, []⟩

/-- `ToolResult.success`. -/
def success (content : String) (data : List (String × DataValue)) : ReadResult :=
  ⟨true, content, data⟩

end ReadResult

namespace ReadTools

/-- `sep.join(texts) or empty`. -/
def joinOr (sep : String) (texts : List String) (empty : String) : String :=
  if String.intercalate sep texts = "" then empty else String.intercalate sep texts

/-- `sorted(set(texts))`. -/
def sortedSet (texts : List Text) : List Text := texts.dedup.insertionSort (· ≤ ·)

/-- …on strings. -/
def sortedNames (names : List String) : List String :=
  (sortedSet (names.map String.toList)).map String.ofList

/-- The bytes of a text of ASCII. -/
def asciiBytes (t : String) : List UInt8 := t.toList.map fun c => UInt8.ofNat c.toNat

/-- The text of an absolute path. -/
def spell (path : Location) : String := String.ofList ('/' :: Text.join ['/'] path)

/-! ## Paths -/

/-- The parts of a path or pattern. -/
def parts (t : Text) : List Text := (segments t).filter fun part => part ≠ [] ∧ part ≠ ['.']

section Paths

variable (disk : Disk) (root : Location)

/-- `p.stat()`, of which `Path.resolve` passes on that the path goes round in links. -/
def checkLoop (p : Location) : Except PyError Location :=
  match p.findSome? FileNames.invalid? with
  | some e => .error (.ofInvalid e)
  | none =>
    if disk.lookup p = .failed .loop then
      let path := spell p
      .error (.other "RuntimeError" s!"Symlink loop from PosixPath('{path}')")
    else .ok p

/-- `Path.resolve`: where `realpath` gives up, the path with the rest as it is spelled. -/
def resolvePath (segs : List Text) : Except PyError Location :=
  match disk.realpath segs with
  | .ok p => checkLoop disk p
  | .error (.loop path) => checkLoop disk (normpath path)
  | .error (.name e) => .error (.ofInvalid e)

/-- `target == root or root in target.parents`: two slashes at the beginning are a root of their
own. -/
def isBelow (root target : Location) : Bool :=
  isInside root target && doubled root == doubled target

/-- `resolve_inside`. -/
def resolveInside (candidate : ArgValue) : Except PyError Location := do
  let root ← resolvePath disk root
  match candidate.spelled with
  | none => throw (.other "TypeError" "expected str, bytes or os.PathLike object")
  | some raw =>
    let target ← resolvePath disk (if isAbsolute raw then parts raw else root ++ parts raw)
    if isBelow root target then return target
    else throw (.workspaceViolation s!"path escapes workspace: {candidate.toStr}")

/-- `ToolContext.relative`. -/
def relative (path : Location) : Except PyError Text := do
  let target ← resolvePath disk path
  let root ← resolvePath disk root
  if isBelow root target then return relativeTo root target
  else
    let path := spell target
    let base := spell root
    throw <| .other "ValueError" <| s!"'{path}' is not in the subpath of '{base}' OR " ++
      "one path is relative and the other is absolute."

/-- `path.read_text(encoding="utf-8", errors="replace")`, or an `OSError`. -/
def readText (contents : Contents) (path : Location) : Option Text :=
  (disk.fileAt path).map fun p => (Text.decode (contents p)).universalNewlines

/-- `path.stat().st_size`. -/
def size (contents : Contents) (path : Location) : ℕ :=
  match disk.fileAt path with
  | some p => (contents p).length
  | none => 0

end Paths

/-! ## `read_file` and `list_directory` -/

/-- `read_file.MAX_BYTES`. -/
def maxBytes : ℕ := 200000

/-- `f"{n:>5}"`. -/
def pad5 (n : ℤ) : String :=
  let digits := toString n
  String.ofList (List.replicate (5 - digits.length) ' ') ++ digits

/-- Python's truth of an optional integer, with a default. -/
def orInt (n : Option ℤ) (default : ℤ) : ℤ := if n.getD 0 = 0 then default else n.getD 0

/-- `lines[first - 1 : last]`, for a `first` of at least 1. -/
def slice (lines : List Text) (first last : ℤ) : List Text :=
  let stop : ℤ := if last < 0 then lines.length + last else last
  (lines.take stop.toNat).drop (first - 1).toNat

variable (py : PyRuntime) (disk : Disk) (contents : Contents) (root : Location)

/-- `ReadFileTool.run`, once the path is resolved. -/
def readFileAt (path : ArgValue) (startLine endLine : Option ℤ) (target : Location) :
    Except PyError ReadResult := do
  match readText disk contents target with
  | none => return .failure s!"file not found: {path.toStr}"
  | some text =>
    let bytes := size disk contents target
    if bytes > maxBytes then
      return .failure s!"file too large ({bytes} bytes); read a line range instead"
    let lines := Text.splitlines text
    let first := max 1 (orInt startLine 1)
    let last := min (lines.length : ℤ) (orInt endLine lines.length)
    let numbered := (slice lines first last).zipIdx.map fun (line, offset) =>
      let number := pad5 (first + offset)
      let text := String.ofList line
      s!"{number}  {text}"
    let shown ← relative disk root target
    return .success (joinOr "\n" numbered "(empty selection)")
      [("path", .text shown), ("total_lines", .number lines.length)]

/-- A tool that reports a path outside the workspace to the model. -/
def withTarget (path : ArgValue)
    (run : Location → Except PyError ReadResult) : Except PyError ReadResult :=
  match resolveInside disk root path with
  | .ok target => run target
  | .error (.workspaceViolation message) => .ok (.failure message)
  | .error e => .error e

/-- `ReadFileTool.run`. -/
def readFile (path : ArgValue) (startLine endLine : Option ℤ) : Except PyError ReadResult :=
  withTarget disk root path (readFileAt disk contents root path startLine endLine)

/-- `list_directory.IGNORED`. -/
def ignored : List String :=
  [".git", "bin", "obj", "node_modules", ".vs", ".idea", "__pycache__", ".next"]

/-- `list_directory.MAX_ENTRIES`. -/
def maxEntries : ℕ := 300

/-- The loop of `ListDirectoryTool.run`, with the entries so far. -/
def listEntries : List String → List Location → Except PyError (List String)
  | entries, [] => .ok entries
  | entries, entry :: rest =>
    if entry.any fun part => String.ofList part ∈ ignored then listEntries entries rest
    else
      match relative disk root entry with
      | .error e => .error e
      | .ok shown =>
        let shown := String.ofList shown
        let entries := entries ++ [if disk.isDir entry then shown ++ "/" else shown]
        if entries.length ≥ maxEntries then
          .ok (entries ++ [s!"... truncated at {maxEntries} entries"])
        else listEntries entries rest

/-- `path or "."`. -/
def orDot (path : ArgValue) : ArgValue := if path.truthy then path else .str "."

/-- `ListDirectoryTool.run`. -/
def listDirectory (path : ArgValue) (recursive : Bool) : Except PyError ReadResult :=
  withTarget disk root (orDot path) fun target => do
    if disk.isDir target then
      let iterator := if recursive then disk.rglob target else disk.iterdir target
      let entries ← listEntries disk root [] (iterator.insertionSort (· ≤ ·))
      return .success (joinOr "\n" entries "(empty)") [("count", .number entries.length)]
    else return .failure s!"not a directory: {path.toStr}"

/-! ## The walk -/

/-- `SKIP_DIRECTORIES`. -/
def skipDirectories : List String :=
  [".git", "bin", "obj", "node_modules", ".vs", "__pycache__", ".next", "packages"]

/-- `TEXT_SUFFIXES`. -/
def textSuffixes : List String :=
  [".cs", ".csproj", ".sln", ".json", ".xml", ".config", ".md", ".yml", ".yaml",
    ".py", ".ts", ".tsx", ".js", ".jsx", ".sql", ".sh", ".props", ".targets", ".txt"]

/-- `MAX_MATCHES`. -/
def maxMatches : ℕ := 60

/-- `MAX_FILE_BYTES`. -/
def maxFileBytes : ℕ := 2000000

/-- `PurePath.suffix`: from the last dot on, unless it begins or ends the name. -/
def suffix (path : Location) : Text :=
  let name := path.getLast?.getD []
  let ext := Parser.afterLastDot name
  if ext ≠ [] ∧ ext.length + 1 < name.length then '.' :: ext else []

/-- The walk lists the path as a source file, whatever its size. -/
def isSource (path : Location) : Bool :=
  disk.isFile path && !path.any (fun part => String.ofList part ∈ skipDirectories) &&
    String.ofList (py.lower (suffix path)) ∈ textSuffixes

/-- `iter_source_files`. -/
def iterSourceFiles : List Location :=
  (disk.rglob root).filter fun path =>
    isSource py disk path && size disk contents path ≤ maxFileBytes

/-- The source files that can be read, with their text. -/
def sourceTexts : List (Location × Text) :=
  (iterSourceFiles py disk contents root).filterMap fun path =>
    (readText disk contents path).map fun text => (path, text)

/-- `path.relative_to(root).as_posix()`, of a path of the walk. -/
def shownPath (path : Location) : Text := relativeTo root path

/-! ## `search_code` -/

/-- `Match`. -/
structure Match where
  path : Text
  lineNumber : ℕ
  line : Text
  deriving DecidableEq, Repr

/-- `Match.render`. -/
def Match.render (m : Match) : String :=
  let path := String.ofList m.path
  let line := String.ofList (Text.strip m.line)
  s!"{path}:{m.lineNumber}: {line}"

/-- `Path(relative).match(glob)`: the pattern's parts against the last parts of the path. -/
def pathMatch (relative glob : Text) : Bool :=
  !isAbsolute glob && (parts glob).length ≤ (parts relative).length &&
    ((parts relative).reverse.zip (parts glob).reverse).all fun (name, pattern) =>
    Text.fnmatch name pattern

/-- The matching lines of a file. -/
def fileMatches (pattern : Text) (source : Location × Text) : List Match :=
  ((Text.splitlines source.2).zipIdx 1).filterMap fun (line, number) =>
    if py.search pattern line then some ⟨shownPath root source.1, number, line⟩ else none

/-- `search_python`; an error is the text of a `ValueError`.  The loop returns at the limit. -/
def searchPython (pattern : Text) (glob : Option Text) (limit : ℕ) : Except String (List Match) :=
  let glob := glob.getD []
  match py.compileError pattern with
  | some message => .error s!"invalid regular expression: {message}"
  | none =>
    -- A pattern without parts is refused when the first file is matched against it.
    if glob ≠ [] ∧ parts glob = [] ∧ !isAbsolute glob ∧
      iterSourceFiles py disk contents root ≠ [] then
      .error "empty pattern"
    else
      let sources := (sourceTexts py disk contents root).filter fun source =>
        glob = [] || pathMatch (shownPath root source.1) glob
      .ok ((sources.flatMap (fileMatches py root pattern)).take limit)

/-- `SearchCodeTool.run`, without `rg`. -/
def searchCode (pattern : String) (glob : Option String) : Except PyError ReadResult :=
  match searchPython py disk contents root pattern.toList (glob.map String.toList) maxMatches with
  | .error message => .ok (.failure message)
  | .ok [] => .ok (.success s!"no matches for /{pattern}/" [])
  | .ok (first :: rest) =>
    let found := first :: rest
    let files := sortedSet (found.map (·.path))
    let body := String.intercalate "\n" (found.map Match.render)
    .ok (.success s!"{found.length} match(es) in {files.length} file(s):\n{body}"
      [("files", .texts files), ("match_count", .number found.length)])

/-! ## `find_symbol` and `find_references` -/

/-- `symbol_search.MAX_RESULTS`. -/
def maxResults : ℕ := 40

/-- `index_symbols`. -/
def indexSymbols : List Parser.Symbol :=
  (sourceTexts py disk contents root).flatMap fun source =>
    Parser.parseSymbols py (shownPath root source.1) source.2

/-- `f"{hit.file_path}:{hit.start_line}: {hit.kind} {hit.name} (partial match)"`. -/
def renderPartial (hit : Parser.Symbol) : String :=
  let path := String.ofList hit.filePath
  let kind := String.ofList hit.kind
  let name := String.ofList hit.name
  s!"{path}:{hit.startLine}: {kind} {name} (partial match)"

/-- `f"{hit.file_path}:{hit.start_line}-{hit.end_line}: {hit.kind} {hit.name}"`. -/
def renderHit (hit : Parser.Symbol) : String :=
  let path := String.ofList hit.filePath
  let kind := String.ofList hit.kind
  let name := String.ofList hit.name
  s!"{path}:{hit.startLine}-{hit.endLine}: {kind} {name}"

/-- `FindSymbolTool.run`. -/
def findSymbol (symbol : String) : ReadResult :=
  let needle := Text.strip symbol.toList
  let index := indexSymbols py disk contents root
  let hits := index.filter fun found => py.lower found.name = py.lower needle
  if hits = [] then
    let found := (index.filter fun found =>
      Text.contains (py.lower needle) (py.lower found.name)).take maxResults
    if found = [] then .success s!"no definition found for '{symbol}'" []
    else .success (String.intercalate "\n" (found.map renderPartial))
      [("files", .texts (sortedSet (found.map (·.filePath))))]
  else .success (String.intercalate "\n" ((hits.take maxResults).map renderHit))
    [("files", .texts (sortedSet (hits.map (·.filePath))))]

/-- `FindReferencesTool.run`. -/
def findReferences (symbol : String) : Except PyError ReadResult :=
  let needle := Text.strip symbol.toList
  if py.isIdentifier needle then
    match searchPython py disk contents root ("\\b".toList ++ needle ++ "\\b".toList)
      none maxResults with
    | .error message => .error (.other "ValueError" message)
    | .ok found =>
      let definitions := ((indexSymbols py disk contents root).filter fun symbol =>
        py.lower symbol.name = py.lower needle).map (·.filePath)
      let others := found.filter fun m => m.path ∉ definitions
      let references := if others = [] then found else others
      if references = [] then .ok (.success s!"no references to '{symbol}'" [])
      else .ok (.success (String.intercalate "\n" (references.map Match.render))
        [("files", .texts (sortedSet (references.map (·.path)))),
          ("count", .number references.length)])
  else .ok (.failure "symbol must be a plain identifier")

/-! ## `get_dependencies` -/

/-- `_CSHARP_USING`. -/
def csharpUsing : String := "^\\s*using\\s+(?:static\\s+)?([A-Za-z_][\\w\\.]*)\\s*;"

/-- `_CSHARP_TYPE_REF`. -/
def csharpTypeRef : String := "\\b([A-Z][A-Za-z0-9_]\x7b2,\x7d)\\b"

/-- `_PYTHON_IMPORT`. -/
def pythonImport : String := "^\\s*(?:from\\s+([\\w\\.]+)\\s+import|import\\s+([\\w\\.]+))"

/-- `_TS_IMPORT`. -/
def tsImport : String := "^\\s*import\\s+.*?from\\s+['\"]([^'\"]+)['\"]"

/-- What a line imports, in a language. -/
def importOf (language : String) (line : Text) : Option Text :=
  if language = "csharp" then (py.groups csharpUsing line).map fun groups => Parser.group groups "1"
  else if language = "python" then (py.groups pythonImport line).map fun groups =>
    if Parser.group groups "1" = [] then Parser.group groups "2" else Parser.group groups "1"
  else if language = "typescript" ∨ language = "javascript" then
    (py.groups tsImport line).map fun groups => Parser.group groups "1"
  else none

/-- `_outgoing`. -/
def outgoing (content : Text) (language : String) : List Text :=
  sortedSet ((Text.splitlines content).filterMap (importOf py language))

/-- The kinds of symbols that are types. -/
def typeKinds : List String := ["class", "interface", "record", "struct", "enum"]

/-- The types a file declares, sorted. -/
def declaredTypes (path content : Text) : List Text :=
  sortedSet (((Parser.parseSymbols py path content).filter fun symbol =>
    String.ofList symbol.kind ∈ typeKinds).map (·.name))

/-- `declared & _referenced_types(other)`. -/
def mentions (declared : List Text) (other : Text) : Bool :=
  declared.any (· ∈ py.findall csharpTypeRef other)

/-- The files that mention a declared type, apart from the target. -/
def dependents (declared : List Text) (target : Text) : List Text :=
  if declared = [] then []
  else (sourceTexts py disk contents root).filterMap fun source =>
    if shownPath root source.1 = target then none
    else if mentions py declared source.2 then some (shownPath root source.1) else none

/-- `", ".join(texts) or empty`. -/
def listed (texts : List Text) (empty : String) : String :=
  joinOr ", " (texts.map String.ofList) empty

/-- `GetDependenciesTool.run`, once the path is resolved. -/
def getDependenciesAt (path : ArgValue) (target : Location) : Except PyError ReadResult := do
  match readText disk contents target with
  | none => return .failure s!"file not found: {path.toStr}"
  | some content =>
    let imports := outgoing py content (Parser.languageOf py path.toStr.toList)
    let declared := declaredTypes py path.toStr.toList content
    let shown ← relative disk root target
    let files := (dependents py disk contents root declared shown).insertionSort (· ≤ ·)
    let file := String.ofList shown
    let lines := [s!"file: {file}", "declares: " ++ listed declared "(no types)",
      "imports: " ++ listed imports "(none)",
      "referenced by: " ++ listed (files.take 25) "(no other file)"]
    return .success (String.intercalate "\n" lines) [("files", .texts files),
      ("imports", .texts imports)]

/-- `GetDependenciesTool.run`. -/
def getDependencies (path : ArgValue) : Except PyError ReadResult :=
  withTarget disk root path (getDependenciesAt py disk contents root path)

/-! ## A call -/

/-- A call of a read tool. -/
inductive Call where
  | readFile (path : ArgValue) (startLine endLine : Option ℤ)
  | listDirectory (path : ArgValue) (recursive : Bool)
  | searchCode (pattern : String) (glob : Option String)
  | findSymbol (symbol : String)
  | findReferences (symbol : String)
  | getDependencies (path : ArgValue)
  deriving DecidableEq, Repr

/-- `Tool.run`. -/
def Call.run : Call → Except PyError ReadResult
  | readFile path startLine endLine => ReadTools.readFile disk contents root path startLine endLine
  | listDirectory path recursive => ReadTools.listDirectory disk root path recursive
  | searchCode pattern glob => ReadTools.searchCode py disk contents root pattern glob
  | findSymbol symbol => .ok (ReadTools.findSymbol py disk contents root symbol)
  | findReferences symbol => ReadTools.findReferences py disk contents root symbol
  | getDependencies path => ReadTools.getDependencies py disk contents root path

/-! ## What the tools depend on -/

/-- The location lies inside the resolved root. -/
def Within (p : Location) : Prop := ∃ r, resolvePath disk root = .ok r ∧ r <+: p

/-- **The tools see only the workspace**: what the files outside it hold makes no difference. -/
def Unaffected : Prop :=
  ∀ (call : Call) (contents contents' : Contents), (∀ p, Within disk root p →
    contents p = contents' p) → call.run py disk contents root = call.run py disk contents' root

/-- **No source file of the walk leads out of the root.** -/
def Contained : Prop :=
  ∀ path ∈ disk.rglob root, isSource py disk path = true → ∀ p, disk.fileAt path = some p →
    Within disk root p

/-- **No path that passes the check leads out of the root.**  Only one that still meets a link
could. -/
def Enclosed : Prop :=
  ∀ path target, resolveInside disk root path = .ok target → ¬ disk.IsReal target →
    ∀ p, disk.fileAt target = some p → Within disk root p

section Agree

variable {py disk root} {contents contents' : Contents} {path target : Location}

theorem readText_eq (h : ∀ p, disk.fileAt path = some p → contents p = contents' p) :
    readText disk contents path = readText disk contents' path := by
  rw [readText, readText]
  cases hfile : disk.fileAt path with
  | none => rfl
  | some p => rw [Option.map_some, Option.map_some, h p hfile]

theorem size_eq (h : ∀ p, disk.fileAt path = some p → contents p = contents' p) :
    size disk contents path = size disk contents' path := by
  rw [size, size]
  cases hfile : disk.fileAt path with
  | none => rfl
  | some p => exact congrArg List.length (h p hfile)

/-- The kernel has no complaint about a path that meets no link. -/
theorem checkLoop_of_isReal (hreal : disk.IsReal target) : checkLoop disk target = .ok target := by
  have hvalid : target.findSome? FileNames.invalid? = none :=
    List.findSome?_eq_none_iff.mpr fun name hname => (hreal.names name hname).2.2.2
  have hloop : disk.lookup target ≠ .failed .loop := by
    intro hloop
    rcases Disk.lookup_of_isReal hreal with h | h | ⟨e, he, h⟩
    · cases hloop.symm.trans h
    · cases hloop.symm.trans h
    · exact he (Lookup.failed.inj (h.symm.trans hloop))
  rw [checkLoop, hvalid]
  exact if_neg hloop

theorem checkLoop_eq_ok {p : Location} (h : checkLoop disk p = .ok target) :
    p = target ∧ ∀ name ∈ p, FileNames.invalid? name = none := by
  rw [checkLoop] at h
  split at h
  next => cases h
  next hvalid =>
    split_ifs at h
    exact ⟨Except.ok.inj h, List.findSome?_eq_none_iff.mp hvalid⟩

/-- **A path that is resolved to its end passes.** -/
theorem resolvePath_of_realpath {segs : List Text} {p : Location} (h : disk.realpath segs = .ok p) :
    resolvePath disk segs = .ok p := by
  rw [resolvePath, h]
  exact checkLoop_of_isReal (Disk.isReal_realpath h)

/-- **A resolved path** has names that can be looked up. -/
theorem isName_of_resolvePath {segs : List Text} {p : Location}
    (h : resolvePath disk segs = .ok p) :
    ∀ name ∈ p.drop (slashes p), IsName name := by
  rw [resolvePath] at h
  split at h
  next q hq =>
    obtain ⟨rfl, -⟩ := checkLoop_eq_ok h
    exact fun name hname => (Disk.isReal_realpath hq).names name (List.mem_of_mem_drop hname)
  next path _ =>
    obtain ⟨rfl, hvalid⟩ := checkLoop_eq_ok h
    intro name hname
    obtain ⟨hempty, hdot, hup⟩ := ne_of_mem_normpath hname
    exact ⟨hempty, hdot, hup, hvalid name (List.mem_of_mem_drop hname)⟩
  next => cases h

/-- **What the check accepts** is the resolved path, at the root or below it. -/
theorem resolveInside_eq_ok {candidate : ArgValue}
    (h : resolveInside disk root candidate = .ok target) :
    ∃ r raw, resolvePath disk root = .ok r ∧ candidate.spelled = some raw ∧
      resolvePath disk (if isAbsolute raw then parts raw else r ++ parts raw) = .ok target ∧
      isBelow r target = true := by
  rw [resolveInside] at h
  obtain ⟨r, hroot, h⟩ := Prog.outcome_bind_eq_ok.mp h
  cases hraw : candidate.spelled with
  | none =>
    rw [hraw] at h
    cases h
  | some raw =>
    rw [hraw] at h
    obtain ⟨p, hp, h⟩ := Prog.outcome_bind_eq_ok.mp h
    split at h
    next hbelow =>
      cases h
      exact ⟨r, raw, hroot, rfl, hp, hbelow⟩
    next => cases h

theorem isName_of_resolveInside {candidate : ArgValue}
    (h : resolveInside disk root candidate = .ok target) :
    ∀ name ∈ target.drop (slashes target), IsName name := by
  obtain ⟨_, _, _, _, htarget, _⟩ := resolveInside_eq_ok h
  exact isName_of_resolvePath htarget

theorem within_of_resolveInside {candidate : ArgValue}
    (h : resolveInside disk root candidate = .ok target) : Within disk root target := by
  obtain ⟨r, -, hroot, -, -, hbelow⟩ := resolveInside_eq_ok h
  rw [isBelow, Bool.and_eq_true] at hbelow
  exact ⟨r, hroot, isInside_iff.mp hbelow.1⟩

/-- A checked path leads to itself, or else where no link leads out. -/
theorem within_of_enclosed (henclosed : Enclosed disk root) {candidate : ArgValue}
    (h : resolveInside disk root candidate = .ok target) {p : Location}
    (hp : disk.fileAt target = some p) : Within disk root p := by
  by_cases hreal : disk.IsReal target
  · rw [Disk.fileAt_of_isReal hreal hp]
    exact within_of_resolveInside h
  · exact henclosed _ _ h hreal p hp

/-- A tool that opens only the path it has checked. -/
theorem withTarget_eq {path : ArgValue} {run run' : Location → Except PyError ReadResult}
    (h : ∀ target, resolveInside disk root path = .ok target → run target = run' target) :
    withTarget disk root path run = withTarget disk root path run' := by
  rw [withTarget, withTarget]
  cases hresolve : resolveInside disk root path with
  | error e => cases e <;> rfl
  | ok target => exact h target hresolve

variable (hagree : ∀ p, Within disk root p → contents p = contents' p)
include hagree

theorem readFile_eq (henclosed : Enclosed disk root) (path : ArgValue)
    (startLine endLine : Option ℤ) :
    readFile disk contents root path startLine endLine
      = readFile disk contents' root path startLine endLine := by
  refine withTarget_eq fun target hresolve => ?_
  have hsame : ∀ p, disk.fileAt target = some p → contents p = contents' p := fun p hp =>
    hagree p (within_of_enclosed henclosed hresolve hp)
  rw [readFileAt, readFileAt, readText_eq hsame, size_eq hsame]

theorem iterSourceFiles_eq (hcontained : Contained py disk root) :
    iterSourceFiles py disk contents root = iterSourceFiles py disk contents' root := by
  refine List.filter_congr fun path hpath => ?_
  cases hsource : isSource py disk path with
  | false => rfl
  | true => rw [size_eq fun p hp => hagree p (hcontained path hpath hsource p hp)]

theorem sourceTexts_eq (hcontained : Contained py disk root) :
    sourceTexts py disk contents root = sourceTexts py disk contents' root := by
  rw [sourceTexts, sourceTexts, iterSourceFiles_eq hagree hcontained]
  refine List.filterMap_congr fun path hpath => ?_
  obtain ⟨hwalk, hsource⟩ := List.mem_filter.mp hpath
  rw [Bool.and_eq_true] at hsource
  rw [readText_eq fun p hp => hagree p (hcontained path hwalk hsource.1 p hp)]

theorem searchPython_eq (hcontained : Contained py disk root) (pattern : Text) (glob : Option Text)
    (limit : ℕ) : searchPython py disk contents root pattern glob limit
      = searchPython py disk contents' root pattern glob limit := by
  rw [searchPython, searchPython, iterSourceFiles_eq hagree hcontained,
    sourceTexts_eq hagree hcontained]

theorem indexSymbols_eq (hcontained : Contained py disk root) :
    indexSymbols py disk contents root = indexSymbols py disk contents' root := by
  rw [indexSymbols, indexSymbols, sourceTexts_eq hagree hcontained]

theorem getDependencies_eq (hcontained : Contained py disk root) (henclosed : Enclosed disk root)
    (path : ArgValue) :
    getDependencies py disk contents root path = getDependencies py disk contents' root path := by
  refine withTarget_eq fun target hresolve => ?_
  have hsame : ∀ p, disk.fileAt target = some p → contents p = contents' p := fun p hp =>
    hagree p (within_of_enclosed henclosed hresolve hp)
  have hdependents (declared : List Text) (shown : Text) :
      dependents py disk contents root declared shown
      = dependents py disk contents' root declared shown := by
    rw [dependents, dependents, sourceTexts_eq hagree hcontained]
  rw [getDependenciesAt, getDependenciesAt, readText_eq hsame]
  simp only [hdependents]

end Agree

/-- **Where nothing leads out, the tools see only the workspace.** -/
theorem unaffected_of_contained {py : PyRuntime} {disk : Disk} {root : Location}
    (h : Contained py disk root) (henclosed : Enclosed disk root) : Unaffected py disk root := by
  intro call contents contents' hagree
  cases call with
  | readFile path startLine endLine => exact readFile_eq hagree henclosed path startLine endLine
  | listDirectory path recursive => rfl
  | searchCode pattern glob =>
    rw [Call.run, Call.run, searchCode, searchCode, searchPython_eq hagree h]
  | findSymbol symbol =>
    rw [Call.run, Call.run, findSymbol, findSymbol, indexSymbols_eq hagree h]
  | findReferences symbol =>
    rw [Call.run, Call.run, findReferences, findReferences, searchPython_eq hagree h,
      indexSymbols_eq hagree h]
  | getDependencies path => exact getDependencies_eq hagree h henclosed path

/-! ## A link that leads out -/

/-- The letter `x` is an expression for itself. -/
structure ReadsLetter (py : PyRuntime) : Prop where
  compiles : py.compileError "x".toList = none
  finds : py.search "x".toList "x".toList = true

section Leak

variable {py : PyRuntime} {disk : Disk} {contents : Contents} {root path p : Location}

/-- What a search for the letter finds. -/
theorem searchPython_letter (hpy : ReadsLetter py) (limit : ℕ) :
    searchPython py disk contents root "x".toList none limit
      = .ok (((sourceTexts py disk contents root).flatMap (fileMatches py root "x".toList)).take
        limit) := by
  rw [searchPython, hpy.compiles]
  simp

/-- Empty files are searched in vain. -/
theorem searchCode_empty (hpy : ReadsLetter py) (hempty : ∀ p, contents p = []) :
    searchCode py disk contents root "x" none = .ok (.success "no matches for /x/" []) := by
  have hnone : (sourceTexts py disk contents root).flatMap (fileMatches py root "x".toList)
      = [] := by
    refine List.flatMap_eq_nil_iff.mpr fun source hsource => ?_
    obtain ⟨path, -, htext⟩ := List.mem_filterMap.mp hsource
    obtain ⟨text, hread, rfl⟩ := Option.map_eq_some_iff.mp htext
    obtain ⟨p, -, rfl⟩ := Option.map_eq_some_iff.mp hread
    rw [fileMatches, hempty p]
    rfl
  rw [searchCode, Option.map_none, searchPython_letter hpy, hnone, List.take_nil]
  rfl

/-- The letter is found in a source file that holds it. -/
theorem searchCode_found (hpy : ReadsLetter py) (hpath : path ∈ disk.rglob root)
    (hsource : isSource py disk path = true) (hfile : disk.fileAt path = some p)
    (hx : contents p = [0x78]) (message : String) :
    searchCode py disk contents root "x" none ≠ .ok (.success message []) := by
  have hlisted : path ∈ iterSourceFiles py disk contents root := by
    refine List.mem_filter.mpr ⟨hpath, ?_⟩
    rw [hsource, size, hfile]
    simp [hx, maxFileBytes]
  have htext : (path, "x".toList) ∈ sourceTexts py disk contents root := by
    refine List.mem_filterMap.mpr ⟨path, hlisted, ?_⟩
    rw [readText, hfile, Option.map_some, hx]
    rfl
  have hmatch : ⟨shownPath root path, 1, "x".toList⟩ ∈
      (sourceTexts py disk contents root).flatMap (fileMatches py root "x".toList) := by
    refine List.mem_flatMap.mpr ⟨_, htext, List.mem_filterMap.mpr ⟨("x".toList, 1), ?_, ?_⟩⟩
    · change _ ∈ (Text.splitlines "x".toList).zipIdx 1
      decide
    · exact if_pos hpy.finds
  obtain ⟨first, rest, hfound⟩ := List.exists_cons_of_ne_nil (List.ne_nil_of_mem hmatch)
  rw [searchCode, Option.map_none, searchPython_letter hpy, hfound, maxMatches, List.take_succ_cons]
  simp [ReadResult.success]

/-- A file that is too large is told from an empty one. -/
theorem readFile_ne_empty {contents : Contents} {target : Location} {path : ArgValue}
    (hresolve : resolveInside disk root path = .ok target) (hfile : disk.fileAt target = some p)
    (hlarge : (contents p).length > maxBytes) :
    readFile disk contents root path none none
      ≠ readFile disk (fun _ => []) root path none none := by
  have hrefused : readFile disk contents root path none none
      = .ok
        (.failure s!"file too large ({(contents p).length} bytes); read a line range instead") := by
    rw [readFile, withTarget, hresolve]
    dsimp only
    rw [readFileAt, readText, hfile, Option.map_some, size, hfile]
    dsimp only
    rw [if_pos hlarge]
    rfl
  rw [hrefused, readFile, withTarget, hresolve]
  dsimp only
  rw [readFileAt, readText, hfile, Option.map_some, size, hfile]
  dsimp only
  rw [if_neg (by decide)]
  intro heq
  obtain ⟨shown, -, hsuccess⟩ := Prog.outcome_bind_eq_ok.mp heq.symm
  exact absurd (congrArg ReadResult.ok (Except.ok.inj hsuccess)) Bool.noConfusion

end Leak

/-- **When the read tools see only the workspace**: exactly if no source file of the walk is a link
that leads out of it, and no path that passes the check with links in it leads out. -/
theorem unaffected_iff (py : PyRuntime) (disk : Disk) (root : Location) (hpy : ReadsLetter py) :
    Unaffected py disk root ↔ Contained py disk root ∧ Enclosed disk root := by
  refine ⟨fun hall => ⟨fun path hpath hsource p hfile => ?_,
    fun path target hresolve _ p hfile => ?_⟩, fun h => unaffected_of_contained h.1 h.2⟩
  · by_contra hout
    -- Empty files on the whole disk, and then the letter in the file the link leads to.
    have hsame := hall (.searchCode "x" none) (fun _ => []) (fun q => if q = p then [0x78] else [])
      fun q hq => by
        rw [if_neg]
        rintro rfl
        exact hout hq
    rw [Call.run, Call.run, searchCode_empty hpy fun _ => rfl] at hsame
    exact searchCode_found hpy hpath hsource hfile (by simp) _ hsame.symm
  · by_contra hout
    -- Empty files again, and then a file that is too large to be read.
    have hsame := hall (.readFile path none none)
      (fun q => if q = p then List.replicate (maxBytes + 1) 0 else []) (fun _ => []) fun q hq => by
        rw [if_neg]
        rintro rfl
        exact hout hq
    refine readFile_ne_empty hresolve hfile ?_ hsame
    rw [if_pos rfl, List.length_replicate]
    exact Nat.lt_succ_self maxBytes

/-- A runtime for expressions of letters and digits: each is found where it occurs, up to case.  No
definition or import is recognised. -/
def literalPy : PyRuntime where
  lower := fun t => t.map Char.toLower
  isIdentifier := fun t => t ≠ [] && t.all Char.isAlpha
  compileError := fun _ => none
  search := fun pattern line => Text.contains (pattern.map Char.toLower) (line.map Char.toLower)
  groups := fun _ _ => none
  findall := fun _ _ => []

/-- A workspace `/w` with a link to a file next to it. -/
def linkedDisk : Disk where
  entries := [(["w".toList], .dir),
    (["w".toList, "notes.txt".toList], .link "../home/key.txt".toList), (["home".toList], .dir),
    (["home".toList, "key.txt".toList], .file)]
  below := by decide
  unique := by decide
  parents := by decide

theorem unaffected_iff_linkedDisk : ReadsLetter literalPy ∧
    (Unaffected literalPy linkedDisk ["w".toList] ↔
      Contained literalPy linkedDisk ["w".toList] ∧ Enclosed linkedDisk ["w".toList]) :=
  ⟨⟨rfl, by decide⟩, unaffected_iff literalPy linkedDisk ["w".toList] ⟨rfl, by decide⟩⟩

/-- **A search reads a file outside the workspace**, through a link that `read_file` refuses. -/
theorem linkedDisk_affected : ¬ Unaffected literalPy linkedDisk ["w".toList] := by
  intro h
  have hroot : resolvePath linkedDisk ["w".toList] = .ok ["w".toList] := by decide +kernel
  have hsame := h (.searchCode "x" none) (fun _ => [])
    (fun p => if p = ["home".toList, "key.txt".toList] then [0x78] else []) fun p hp => by
      obtain ⟨r, hr, hprefix⟩ := hp
      obtain rfl := Except.ok.inj (hroot.symm.trans hr)
      rw [if_neg]
      rintro rfl
      exact absurd hprefix (by decide)
  exact absurd hsame (by decide +kernel)

example : (Call.readFile (.str "notes.txt") none none).run literalPy linkedDisk (fun _ => [])
      ["w".toList]
    = .ok (.failure "path escapes workspace: notes.txt") := by decide +kernel

/-- A workspace with a link that leads back to itself, and one to the directory next to it. -/
def loopDisk : Disk where
  entries := [(["w".toList], .dir), (["w".toList, "loop".toList], .link "loop".toList),
    (["w".toList, "out".toList], .link "../home".toList), (["home".toList], .dir),
    (["home".toList, "key.txt".toList], .file)]
  below := by decide
  unique := by decide
  parents := by decide

-- Cut short at the loop, the path still goes through the other link.
example : resolveInside loopDisk ["w".toList] (.str "loop/../out/key.txt")
      = .ok ["w".toList, "out".toList, "key.txt".toList] ∧
    loopDisk.fileAt ["w".toList, "out".toList, "key.txt".toList]
      = some ["home".toList, "key.txt".toList] := by decide +kernel

end ReadTools

end AgentPlatform
