import AgentPlatform.Machinery.PosixPath
import AgentPlatform.Machinery.Programs
import AgentPlatform.Tools.Arguments

/-!
# Tools/Workspace — the file tree, and the boundary around a task's worktree

A tree without symbolic links maps a location to a directory or a file.  `resolveInside` is the
boundary of `tools/workspace.py`: it reads a spelling of a path from the root and refuses a target
that is not the root or below it.  A name that cannot be looked up raises.  `ToolContext.root` is
the worktree once it exists, and the repository before.
-/

namespace AgentPlatform

open PosixPath

/-- What a file holds: text, or bytes that are not UTF-8. -/
inductive Content where
  | text (t : Text)
  | binary (bytes : List UInt8)
  deriving DecidableEq, Repr

/-- What a location holds. -/
inductive FileEntry where
  | file (c : Content)
  | dir
  deriving DecidableEq, Repr

/-- A tree of files and directories, without symbolic links. -/
abbrev FileTree := Location → Option FileEntry

namespace FileTree

/-- The content of the file at a location, if a file is there. -/
def fileAt (t : FileTree) (p : Location) : Option Content :=
  match t p with
  | some (.file c) => some c
  | _ => none

/-- `Path.is_file`. -/
def isFile (t : FileTree) (p : Location) : Bool := (t.fileAt p).isSome

/-- `Path.exists`. -/
def present (t : FileTree) (p : Location) : Bool := (t p).isSome

/-- The path is too long for a system call, or on the way to it a name is too long to be looked up.
What is there has a name that fits, and a name is looked up in a directory. -/
def tooLong (t : FileTree) (p : Location) : Bool :=
  decide (byteLength p > maxPath) || p.inits.any fun q =>
    decide (t q = none) && decide (t q.dropLast = some .dir) && !FileNames.fits (q.getLast?.getD [])

/-- Every name in the tree fits. -/
def NamesFit (t : FileTree) : Prop := ∀ p, t p ≠ none → ∀ name ∈ p, FileNames.fits name = true

/-- The tree with the missing directories down to `p`. -/
def made (t : FileTree) (p : Location) : FileTree := fun q =>
  if p.inits.contains q = true ∧ t q = none then some .dir else t q

/-- The tree with one location overwritten. -/
def put (t : FileTree) (p : Location) (e : FileEntry) : FileTree :=
  fun q => if q = p then some e else t q

@[simp] theorem fileAt_put_of_ne {t : FileTree} {p q : Location} (h : q ≠ p) (e : FileEntry) :
    (t.put p e).fileAt q = t.fileAt q := by simp [fileAt, put, h]

@[simp] theorem fileAt_put_file (t : FileTree) (p : Location) (c : Content) :
    (t.put p (.file c)).fileAt p = some c := by simp [fileAt, put]

end FileTree

/-- `resolve_inside`.  Every name of the path is looked up on the way. -/
def resolveInside (root : Location) (candidate : ArgValue) : Except PyError Location :=
  match candidate.spelled with
  | none => .error (.other "TypeError" "expected str, bytes or os.PathLike object")
  | some raw =>
    match (segments raw).findSome? FileNames.invalid? with
    | some e => .error (.ofInvalid e)
    | none =>
      if isInside root (PosixPath.resolve root raw) then .ok (PosixPath.resolve root raw)
      else .error (.workspaceViolation s!"path escapes workspace: {candidate.toStr}")

/-- What `resolve_inside` returns is the resolved spelling, inside the root. -/
theorem resolveInside_eq_ok {root target : Location} {candidate : ArgValue}
    (h : resolveInside root candidate = .ok target) :
    (∃ raw, candidate.spelled = some raw ∧ target = PosixPath.resolve root raw) ∧
    root <+: target := by
  rw [resolveInside] at h
  split at h
  · cases h
  · rename_i raw hraw
    split at h
    · cases h
    · split_ifs at h with hin
      cases h
      exact ⟨⟨raw, hraw, rfl⟩, isInside_iff.mp hin⟩

/-- `ToolContext`, as far as the tools that write read it. -/
structure ToolContext where
  repositoryPath : Location
  /-- `workspace.path`, once the task has a worktree. -/
  workspace : Option Location
  iteration : ℤ
  writeAllowed : Bool
  deriving DecidableEq, Repr

namespace ToolContext

/-- `ToolContext.root`: where reads and writes are anchored. -/
def root (c : ToolContext) : Location := c.workspace.getD c.repositoryPath

/-- `ToolContext.resolve`. -/
def resolve (c : ToolContext) (path : ArgValue) : Except PyError Location :=
  resolveInside c.root path

/-- `ToolContext.relative`. -/
def relative (c : ToolContext) (target : Location) : String :=
  String.ofList (relativeTo c.root target)

end ToolContext

/-- The relative path of a resolved location is not empty. -/
theorem ToolContext.relative_ne_empty {c : ToolContext} {path : ArgValue} {target : Location}
    (h : c.resolve path = .ok target) : c.relative target ≠ "" := by
  intro hempty
  obtain ⟨⟨raw, -, rfl⟩, -⟩ := resolveInside_eq_ok h
  have hnil := congrArg String.toList hempty
  rw [ToolContext.relative, String.toList_ofList] at hnil
  exact relativeTo_resolve_ne_nil _ _ hnil

end AgentPlatform
