import AgentPlatform.Tools.ApplyPatch
import AgentPlatform.Tools.Ripgrep
import AgentPlatform.Tools.TestOutput

/-!
# Tools/Readers — the ten tools that edit nothing, behind one registry

The bodies of the tools that are not mutating, from the arguments of a call to the `ToolResult`: the
six that read the repository, and the four that run `git` or `dotnet`.  What they see of the
machine, and what Python raises where an argument is not of its type, is one `ReadEnv`.

* `run_path` — of the results of the ten, only a successful `read_file` has a `path`, and it always
  does.
-/

namespace AgentPlatform

open PosixPath Symlinks

/-- What the tools that edit nothing depend on. -/
structure ReadEnv where
  py : PyRuntime
  unicode : Regex.Unicode
  /-- How a tree lies on the disk. -/
  disk : FileTree → Disk
  contents : FileTree → Contents
  /-- What `rg` returns and prints in a directory, if it is installed. -/
  ripgrep : Location → FileTree → String → String → Option (ℤ × List UInt8)
  collectDiff : Location → FileTree → Except PyError DiffSummary
  /-- `git status --porcelain`. -/
  gitStatus : Location → FileTree → Except PyError CommandResult
  detectProjectKind : Location → FileTree → String
  runDotnetBuild : Location → FileTree → Except PyError CommandResult
  runDotnetTest : Location → Option ArgValue → FileTree → Except PyError CommandResult
  /-- What is raised when a keyword gets a value its body cannot use. -/
  misuse : String → ArgValue → PyError

/-- A result, with what the agents read of its `data`. -/
def ReadResult.toToolResult (r : ReadResult) (exitCode : Option ℤ) : ToolResult :=
  let text (key : String) : Option String :=
    match r.data.lookup key with
    | some (.text t) => some (String.ofList t)
    | _ => none
  let number (key : String) : ℕ :=
    match r.data.lookup key with
    | some (.number n) => n
    | _ => 0
  ⟨r.ok, r.content, ⟨text "path", text "change_type", number "lines_added", number "lines_removed"⟩,
    exitCode⟩

/-! ## Arguments -/

namespace Readers

variable (env : ReadEnv) (c : ToolContext) (t : FileTree) (args : Arguments)

/-- A keyword without default. -/
def keyword (key : String) : Except PyError ArgValue :=
  match args.lookup key with
  | some value => .ok value
  | none => .error (.other "TypeError" s!"missing required keyword argument: {key}")

/-- A keyword without default that is used as a string. -/
def required (key : String) : Except PyError String :=
  match args.lookup key with
  | some (.str s) => .ok s
  | some value => .error (env.misuse key value)
  | none => .error (.other "TypeError" s!"missing required keyword argument: {key}")

/-- A keyword that is used as a string unless it is false. -/
def optional (key default : String) : Except PyError String :=
  match args.lookup key with
  | none => .ok default
  | some (.str s) => .ok s
  | some value => if value.truthy then .error (env.misuse key value) else .ok ""

/-- A keyword that is used as an integer unless it is false. -/
def lineNumber (key : String) : Except PyError (Option ℤ) :=
  match args.lookup key with
  | none => .ok none
  | some value =>
    if value.truthy = false then .ok none
    else match value with
      | .json "True" => .ok (some 1)
      | .json s =>
        match s.toInt? with
        | some n => .ok (some n)
        | none => .error (env.misuse key value)
      | _ => .error (env.misuse key value)

/-! ## The tools that read the repository -/

/-- `ReadFileTool.run`; a line number that is no integer is noticed after the file has been read. -/
def readFile : Except PyError ReadResult := do
  let path ← keyword args "path"
  let read := ReadTools.readFile (env.disk t) (env.contents t) c.root path
  match lineNumber env args "start_line", lineNumber env args "end_line" with
  | .ok startLine, .ok endLine => read startLine endLine
  | .error e, _ | _, .error e =>
    let result ← read none none
    if result.ok then throw e else return result

/-- `ListDirectoryTool.run`. -/
def listDirectory : Except PyError ReadResult :=
  ReadTools.listDirectory (env.disk t) c.root ((args.lookup "path").getD (.str "."))
    ((args.lookup "recursive").any ArgValue.truthy)

/-- The report of the matches `rg` found. -/
def reportMatches (pattern : String) (found : List ReadTools.Match) : ReadResult :=
  if found = [] then .success s!"no matches for /{pattern}/" []
  else
    let files := ReadTools.sortedSet (found.map (·.path))
    let body := String.intercalate "\n" (found.map ReadTools.Match.render)
    .success s!"{found.length} match(es) in {files.length} file(s):\n{body}"
      [("files", .texts files), ("match_count", .number found.length)]

/-- `SearchCodeTool.run`. -/
def searchCode : Except PyError ReadResult := do
  let pattern ← required env args "pattern"
  let glob ← optional env args "glob" ""
  match Ripgrep.searchRipgrep (env.ripgrep c.root t pattern glob) ReadTools.maxMatches with
  | some found => return reportMatches pattern found
  | none => ReadTools.searchCode env.py (env.disk t) (env.contents t) c.root pattern (some glob)

/-- `FindSymbolTool.run`. -/
def findSymbol : Except PyError ReadResult := do
  let symbol ← required env args "symbol"
  return ReadTools.findSymbol env.py (env.disk t) (env.contents t) c.root symbol

/-- `FindReferencesTool.run`. -/
def findReferences : Except PyError ReadResult := do
  let symbol ← required env args "symbol"
  ReadTools.findReferences env.py (env.disk t) (env.contents t) c.root symbol

/-- `GetDependenciesTool.run`. -/
def getDependencies : Except PyError ReadResult := do
  let path ← keyword args "path"
  ReadTools.getDependencies env.py (env.disk t) (env.contents t) c.root path

/-! ## The tools that run a command -/

/-- `text or default`. -/
def orElse (text default : String) : String := if text = "" then default else text

/-- `GitDiffTool.run`. -/
def gitDiff : Except PyError ReadResult :=
  match c.workspace with
  | none => .ok (.failure "no workspace for this task")
  | some workspace => do
    let summary ← env.collectDiff workspace t
    if summary.files = [] then
      return .success "no changes" []
    else
      return .success (orElse summary.diff "(no textual diff)")
        [("files", .texts (summary.files.map String.toList)),
          ("insertions", .number summary.insertions.toNat),
          ("deletions", .number summary.deletions.toNat)]

/-- `GitStatusTool.run`; the exit code, which may be negative, is carried as its text. -/
def gitStatus : Except PyError ReadResult :=
  match c.workspace with
  | none => .ok (.failure "no workspace for this task")
  | some workspace => do
    let result ← env.gitStatus workspace t
    return .success (orElse result.stdout "clean")
      [("exit_code", .text (toString result.exitCode).toList)]

/-- A tool that needs a dotnet project. -/
def inDotnetProject (body : Except PyError ToolResult) : Except PyError ToolResult :=
  let kind := env.detectProjectKind c.root t
  if kind ≠ "dotnet" then
    .ok (.failure s!"no dotnet project found in workspace (detected: {kind})")
  else body

/-- `text[-n:]`. -/
def lastChars (n : ℕ) (text : Text) : String := String.ofList (text.drop (text.length - n))

/-- `BuildTool.run`. -/
def runBuild : Except PyError ToolResult :=
  inDotnetProject env c t do
    let result ← env.runDotnetBuild c.root t
    return (⟨result.exitCode = 0 && !result.timedOut,
      orElse (lastChars 8000 result.combinedOutput) "build produced no output", []⟩ :
        ReadResult).toToolResult (some result.exitCode)

/-- `TestOutcome.summary`. -/
def summary (o : TestOutput.TestOutcome) : String :=
  s!"passed={o.passed} failed={o.failed} skipped={o.skipped} exit_code={o.exitCode}"

/-- `RunTestsTool.run`. -/
def runTests : Except PyError ToolResult :=
  inDotnetProject env c t do
    let result ← env.runDotnetTest c.root (args.lookup "filter") t
    let outcome ← TestOutput.parseDotnetOutput env.unicode result
    let failures := outcome.failures.map TestOutput.TestFailure.render
    let body := if outcome.failures = [] then "All tests passed."
      else "Failures:\n" ++ String.intercalate "\n" (failures.take 10)
    return (⟨outcome.ok, summary outcome ++ "\n\n" ++ body,
      [("passed", .number outcome.passed), ("failed", .number outcome.failed),
        ("skipped", .number outcome.skipped), ("failures", .texts (failures.map String.toList))]⟩ :
        ReadResult).toToolResult (some result.exitCode)

/-! ## The registry -/

/-- `tool.run(tool_context, **arguments)` of a tool that edits nothing. -/
def run (name : String) : Except PyError ToolResult :=
  let plain (r : Except PyError ReadResult) : Except PyError ToolResult :=
    r.map (·.toToolResult none)
  if args.lookup "context" ≠ none ∨ args.lookup "self" ≠ none then
    .error (.other "TypeError" "got multiple values for an argument")
  else if name = "read_file" then plain (readFile env c t args)
  else if name = "list_directory" then plain (listDirectory env c t args)
  else if name = "search_code" then plain (searchCode env c t args)
  else if name = "find_symbol" then plain (findSymbol env c t args)
  else if name = "find_references" then plain (findReferences env c t args)
  else if name = "get_dependencies" then plain (getDependencies env c t args)
  else if name = "git_diff" then plain (gitDiff env c t)
  else if name = "git_status" then plain (gitStatus env c t)
  else if name = "run_build" then runBuild env c t
  else if name = "run_tests" then runTests env c t args
  -- the registry has no other tool
  else .error (.other "KeyError" name)

/-! ## Which results have a path -/

/-- Whatever the program returns has `Q`. -/
def Yields {α : Type} (Q : α → Prop) (x : Except PyError α) : Prop := ∀ a, x = .ok a → Q a

section Yields

variable {α β : Type} {Q : β → Prop}

theorem yields_ok {b : β} (h : Q b) : Yields Q (.ok b) := fun _ hb => Except.ok.inj hb ▸ h

theorem yields_error (e : PyError) : Yields Q (.error e) := fun _ h => nomatch h

theorem Yields.bind {P : α → Prop} {x : Except PyError α} {f : α → Except PyError β}
    (hx : Yields P x) (hf : ∀ a, P a → Yields Q (f a)) : Yields Q (x >>= f) := by
  cases x with
  | error e => exact yields_error e
  | ok a => exact hf a (hx a rfl)

theorem yields_bind {x : Except PyError α} {f : α → Except PyError β} (hf : ∀ a, Yields Q (f a)) :
    Yields Q (x >>= f) :=
  Yields.bind (P := fun _ => True) (fun _ _ => trivial) fun a _ => hf a

theorem Yields.ite {p : Prop} [Decidable p] {x y : Except PyError β} (hx : Yields Q x)
    (hy : Yields Q y) : Yields Q (if p then x else y) := by
  split
  · exact hx
  · exact hy

theorem Yields.map {P : α → Prop} {x : Except PyError α} {f : α → β} (hx : Yields P x)
    (hf : ∀ a, P a → Q (f a)) : Yields Q (x.map f) := by
  cases x with
  | error e => exact yields_error e
  | ok a => exact yields_ok (hf a (hx a rfl))

end Yields

/-- The `data` has no `path`. -/
def Pathless (r : ReadResult) : Prop := r.data.lookup "path" = none

theorem pathless_failure (content : String) : Pathless (.failure content) := rfl

theorem yields_withTarget {disk : Disk} {root : Location} {path : ArgValue}
    {body : Location → Except PyError ReadResult} {Q : ReadResult → Prop}
    (hfail : ∀ content, Q (.failure content)) (h : ∀ target, Yields Q (body target)) :
    Yields Q (ReadTools.withTarget disk root path body) := by
  rw [ReadTools.withTarget]
  split
  · exact h _
  · exact yields_ok (hfail _)
  · exact yields_error _

theorem listDirectory_pathless : Yields Pathless (listDirectory env c t args) := by
  refine yields_withTarget pathless_failure fun target => ?_
  refine Yields.ite (yields_bind fun entries => yields_ok rfl) (yields_ok rfl)

theorem searchCode_pathless : Yields Pathless (searchCode env c t args) := by
  refine yields_bind fun pattern => yields_bind fun glob => ?_
  split
  · refine yields_ok ?_
    rw [reportMatches]
    split <;> rfl
  · rw [ReadTools.searchCode]
    split <;> exact yields_ok rfl

theorem findSymbol_pathless : Yields Pathless (findSymbol env c t args) := by
  refine yields_bind fun symbol => yields_ok ?_
  rw [ReadTools.findSymbol]
  dsimp only
  split
  · split <;> rfl
  · rfl

theorem findReferences_pathless : Yields Pathless (findReferences env c t args) := by
  refine yields_bind fun symbol => ?_
  rw [ReadTools.findReferences]
  dsimp only
  split
  · split
    · exact yields_error _
    · refine Yields.ite (yields_ok rfl) (yields_ok rfl)
  · exact yields_ok rfl

theorem getDependencies_pathless : Yields Pathless (getDependencies env c t args) := by
  refine yields_bind fun path => yields_withTarget pathless_failure fun target => ?_
  rw [ReadTools.getDependenciesAt]
  split
  · exact yields_ok rfl
  · exact yields_bind fun shown => yields_ok rfl

theorem gitDiff_pathless : Yields Pathless (gitDiff env c t) := by
  rw [gitDiff]
  split
  · exact yields_ok rfl
  · exact yields_bind fun summary => Yields.ite (yields_ok rfl) (yields_ok rfl)

theorem gitStatus_pathless : Yields Pathless (gitStatus env c t) := by
  rw [gitStatus]
  split
  · exact yields_ok rfl
  · exact yields_bind fun result => yields_ok rfl

/-- A result that has a path if it is a success, and no path otherwise. -/
def NamesFile (r : ReadResult) : Prop :=
  if r.ok then ∃ path, path ≠ [] ∧ r.data.lookup "path" = some (.text path) else Pathless r

theorem relative_ne_nil {disk : Disk} {root path : Location} :
    Yields (· ≠ []) (ReadTools.relative disk root path) := by
  rw [ReadTools.relative]
  refine Yields.bind (P := fun target => ∀ name ∈ target.drop (slashes target), name ≠ [])
    (fun target htarget name hname => (ReadTools.isName_of_resolvePath htarget name hname).1)
    fun target htarget => yields_bind fun root => ?_
  split
  next hbelow =>
    refine yields_ok (relativeTo_ne_nil fun name hname => htarget name ?_)
    -- A second slash is the root's as well.
    rw [ReadTools.isBelow, Bool.and_eq_true, beq_iff_eq] at hbelow
    have hlength := slashes_le_length root
    rw [slashes, hbelow.2, ← slashes] at hlength
    rw [show root.length = slashes target + (root.length - slashes target) by
      omega, ← List.drop_drop] at hname
    exact List.mem_of_mem_drop hname
  next => exact yields_error _

/-- **`read_file` names the file it read.** -/
theorem readFile_namesFile : Yields NamesFile (readFile env c t args) := by
  have hread : ∀ path startLine endLine, Yields NamesFile
      (ReadTools.readFile (env.disk t) (env.contents t) c.root path startLine endLine) := by
    intro path startLine endLine
    refine yields_withTarget (fun _ => rfl) fun target => ?_
    rw [ReadTools.readFileAt]
    split
    · exact yields_ok rfl
    · refine Yields.ite (yields_ok rfl) ?_
      exact Yields.bind relative_ne_nil fun shown hshown => yields_ok ⟨shown, hshown, rfl⟩
  refine yields_bind fun path => ?_
  dsimp only
  split
  · exact hread _ _ _
  all_goals
    refine Yields.bind (hread path none none) fun result hresult => ?_
    exact Yields.ite (yields_error _) (yields_ok hresult)

theorem inDotnetProject_pathless {body : Except PyError ToolResult}
    (h : Yields (fun r => r.data.path = none) body) :
    Yields (fun r => r.data.path = none) (inDotnetProject env c t body) :=
  Yields.ite (yields_ok rfl) h

/-- The result has a path exactly if it is a success of `read_file`. -/
def PathIfRead (name : String) (r : ToolResult) : Prop :=
  if name = "read_file" ∧ r.ok = true then ∃ path, path ≠ "" ∧ r.data.path = some path
  else r.data.path = none

/-- **Only `read_file` names a file**, of the ten tools. -/
theorem run_path (name : String) : Yields (PathIfRead name) (run env c t args name) := by
  by_cases hname : name = "read_file"
  · subst hname
    refine Yields.ite (yields_error _) ?_
    rw [if_pos rfl]
    refine (readFile_namesFile env c t args).map fun r hr => ?_
    rw [PathIfRead]
    cases hok : r.ok with
    | true =>
      obtain ⟨path, hpath, hlookup⟩ : ∃ path, path ≠ [] ∧
          r.data.lookup "path" = some (.text path) := by
        simpa [NamesFile, hok] using hr
      rw [if_pos ⟨rfl, hok⟩]
      refine ⟨String.ofList path, fun hempty =>
        hpath ?_, by simp only [ReadResult.toToolResult, hlookup]⟩
      simpa using congrArg String.toList hempty
    | false =>
      have hlookup : r.data.lookup "path" = none := by simpa [NamesFile, hok, Pathless] using hr
      rw [if_neg fun h => by simp [ReadResult.toToolResult, hok] at h]
      simp only [ReadResult.toToolResult, hlookup]
  · have hplain : ∀ {x : Except PyError ReadResult}, Yields Pathless x →
        Yields (PathIfRead name) (x.map (·.toToolResult none)) := by
      intro x hx
      refine hx.map fun r hr => ?_
      rw [PathIfRead, if_neg fun h => hname h.1]
      simp only [ReadResult.toToolResult, show r.data.lookup "path" = none from hr]
    have hcommand : ∀ {x : Except PyError ToolResult}, Yields (fun r => r.data.path = none) x →
        Yields (PathIfRead name) x := by
      intro x hx r hr
      rw [PathIfRead, if_neg fun h => hname h.1]
      exact hx r hr
    rw [run, if_neg hname]
    refine Yields.ite (yields_error _) ?_
    refine Yields.ite (hplain (listDirectory_pathless env c t args)) ?_
    refine Yields.ite (hplain (searchCode_pathless env c t args)) ?_
    refine Yields.ite (hplain (findSymbol_pathless env c t args)) ?_
    refine Yields.ite (hplain (findReferences_pathless env c t args)) ?_
    refine Yields.ite (hplain (getDependencies_pathless env c t args)) ?_
    refine Yields.ite (hplain (gitDiff_pathless env c t)) ?_
    refine Yields.ite (hplain (gitStatus_pathless env c t)) ?_
    refine Yields.ite (hcommand (inDotnetProject_pathless env c t
      (yields_bind fun result => yields_ok rfl))) ?_
    refine Yields.ite (hcommand (inDotnetProject_pathless env c t
      (yields_bind fun result => yields_bind fun outcome => yields_ok rfl))) (yields_error _)

end Readers

/-- The tools, around any `_count_changes`. -/
def ReadEnv.toolRuntime (env : ReadEnv) (countChanges : Text → Text → ℕ × ℕ) : ToolRuntime where
  countChanges := countChanges
  readOnly name c args t := Readers.run env c t args name

end AgentPlatform
