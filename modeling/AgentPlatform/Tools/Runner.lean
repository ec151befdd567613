import AgentPlatform.Core.Domain
import AgentPlatform.Machinery.PosixPath
import AgentPlatform.Machinery.Programs

/-!
# Tools/Runner — `run_command`, and the log it writes

A command is refused before anything is spawned, fails to start, or runs; only one that ran is
logged, with its whole command line.  What the machine does is a `Machine`: the working directory,
what spawning the process leads to, and the level below which log records are dropped.
-/

namespace AgentPlatform

/-! ## Log records -/

/-- The value of a field of a log record. -/
inductive LogValue where
  | text (s : String)
  | int (n : ℤ)
  | bool (b : Bool)
  deriving DecidableEq

/-- A record of `log.info`, with the fields it is given. -/
structure LogRecord where
  event : String
  fields : List (String × LogValue)
  deriving DecidableEq

/-- `settings.log_level`. -/
inductive LogLevel where
  | notset | debug | info | warning | error | critical
  deriving DecidableEq

/-- `logging.getLevelName`, the level as a number. -/
def LogLevel.number : LogLevel → ℕ
  | notset => 0
  | debug => 10
  | info => 20
  | warning => 30
  | error => 40
  | critical => 50

/-! ## The machine -/

/-- A process that ran to its end, or to its timeout. -/
structure ProcessRun where
  returncode : Option ℤ
  /-- The two outputs, decoded. -/
  stdout : String
  stderr : String
  durationMs : ℕ
  timedOut : Bool
  deriving DecidableEq

/-- What spawning a process leads to. -/
inductive Spawned where
  | osError (errno : ℕ) (text : String)
  | ran (run : ProcessRun)
  deriving DecidableEq

/-- What a command meets outside. -/
structure Machine where
  logLevel : LogLevel
  /-- `Path(cwd).resolve()`. -/
  cwd : Except PyError String
  isDir : Bool
  spawned : Spawned

/-- `CommandResult`. -/
structure CommandResult where
  command : List String
  cwd : String
  exitCode : ℤ
  stdout : String
  stderr : String
  durationMs : ℕ
  timedOut : Bool
  deriving DecidableEq

/-- `CommandResult.combined_output`. -/
def CommandResult.combinedOutput (result : CommandResult) : Text :=
  Text.strip (result.stdout.toList ++ '\n' :: result.stderr.toList)

/-- A program that logs. -/
abbrev LogM := Prog (List LogRecord) PyError

namespace Runner

open Prog

/-- `ALLOWED_EXECUTABLES`. -/
def allowedExecutables : List String := ["git", "dotnet", "npm", "node", "python", "ruff", "pytest"]

/-- `MAX_OUTPUT_CHARS`. -/
def maxOutputChars : ℕ := 200000

/-- `_truncate`. -/
def truncate (text : Text) : Text :=
  if text.length ≤ maxOutputChars then text
  else
    let half := maxOutputChars / 2
    text.take half ++ "\n...[".toList ++ Nat.toDigits 10 (text.length - maxOutputChars) ++
      " chars truncated]...\n".toList ++ text.drop (text.length - half)

/-- `Path(program).stem`: the last name of the path, without its suffix. -/
def stem (program : String) : Text :=
  let names := (PosixPath.segments program.toList).filter fun seg => seg ≠ [] ∧ seg ≠ ['.']
  let name := names.getLast?.getD []
  let suffix := name.reverse.takeWhile (· ≠ '.')
  -- a name without a dot, one that ends in its dot and one that only begins with one have no suffix
  if suffix = [] ∨ name.length ≤ suffix.length + 1 then name
    else name.take (name.length - suffix.length - 1)

/-- `str.lower`, for a comparison with names in ASCII. -/
def lower (t : Text) : String := String.ofList (t.map Char.toLower)

/-- `log.info`. -/
def info (machine : Machine) (event : String) (fields : List (String × LogValue)) : LogM Unit :=
  whenever (machine.logLevel.number ≤ LogLevel.info.number) (modify (· ++ [⟨event, fields⟩]))

/-- An argument of a process cannot contain a NUL character. -/
def hasNul (command : List String) : Bool := command.any fun arg => arg.toList.contains '\x00'

/-- `asyncio.create_subprocess_exec` and `communicate`. -/
def spawn (machine : Machine) (program : String) (command : List String) : LogM ProcessRun :=
  if hasNul command then raise (.other "ValueError" "embedded null byte")
  else match machine.spawned with
    | .ran run => pure run
    | .osError errno text =>
      -- `FileNotFoundError` is `ENOENT`
      if errno = 2 then raise (.workspaceViolation s!"executable not found: {program}")
      else raise (.other "OSError" s!"[Errno {errno}] {text}")

/-- `run_command`. -/
def runCommand (machine : Machine) : List String → LogM CommandResult
  | [] => raise (.workspaceViolation "empty command")
  | program :: args => do
    whenever (lower (stem program) ∉ allowedExecutables)
      (raise (.workspaceViolation s!"executable not allowed: {program}"))
    let cwd ← lift machine.cwd
    whenever (machine.isDir = false)
      (raise (.workspaceViolation s!"working directory does not exist: {cwd}"))
    let run ← spawn machine program (program :: args)
    let kept (text : String) := String.ofList (truncate text.toList)
    let result : CommandResult := ⟨program :: args, cwd, run.returncode.getD (-1), kept run.stdout,
      kept run.stderr, run.durationMs, run.timedOut⟩
    info machine "command.executed" [("command", .text (" ".intercalate (program :: args))),
      ("cwd", .text cwd), ("exit_code", .int result.exitCode), ("duration_ms", .int run.durationMs),
      ("timed_out", .bool run.timedOut)]
    pure result

example : lower (stem "/usr/bin/Python.exe") = "python" := by decide +kernel

end Runner

end AgentPlatform
