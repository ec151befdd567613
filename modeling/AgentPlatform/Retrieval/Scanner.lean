import AgentPlatform.Tools.ReadTools

/-!
# Retrieval/Scanner — which files are worth indexing

`scan_repository` walks the resolved root in order and reads every source file of a size it can
index. What it skips, it skips for the names below the root.
-/

namespace AgentPlatform

open PosixPath Symlinks ReadTools

namespace Scanner

/-- `SKIP_DIRECTORIES`. -/
def skipDirectories : List String :=
  [".git", "bin", "obj", "node_modules", ".vs", ".idea", "__pycache__", ".next", "dist", "build",
    "packages", ".venv", "venv", "TestResults"]

/-- `INDEXABLE_SUFFIXES`. -/
def indexableSuffixes : List String := [".cs", ".py", ".ts", ".tsx", ".js", ".jsx", ".sql", ".md"]

/-- `MAX_FILE_BYTES`. -/
def maxFileBytes : ℕ := 1000000

/-- `ScannedFile`. -/
structure ScannedFile where
  path : Location
  relativePath : Text
  language : String
  content : Text
  deriving DecidableEq, Repr

variable (py : PyRuntime) (disk : Disk) (contents : Contents) (root : Location)

/-- The loop body of `scan_repository`. -/
def scanFile (path : Location) : Option ScannedFile :=
  if disk.isFile path then
    if (path.drop root.length).any (fun part => String.ofList part ∈ skipDirectories) then none
    else if String.ofList (py.lower (suffix path)) ∉ indexableSuffixes then none
    else if size disk contents path > maxFileBytes then none
    else (readText disk contents path).map fun content =>
      ⟨path, relativeTo root path, Parser.languageOf py (relativeTo root path), content⟩
  else none

/-- `scan_repository`. -/
def scanRepository : Except PyError (List ScannedFile) := do
  let root ← resolvePath disk root
  return ((disk.rglob root).insertionSort (· ≤ ·)).filterMap (scanFile py disk contents root)

end Scanner

end AgentPlatform
