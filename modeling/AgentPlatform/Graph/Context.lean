import AgentPlatform.Graph.Routing
import AgentPlatform.Machinery.Programs
import AgentPlatform.Policies.Evaluator

/-!
# Graph/Context — what a node acts on, and what it is told

A node body is a program over the `World` of its task: the worktree and the developer's checkout,
the commits of the task branch, the pending approval.  Everything else it depends on — what an agent
answered and edited, what `git`, `dotnet`, the CI and the database did — is one `NodeEnv`, an
arbitrary input of each execution.

The world logs what an execution did to it; the log is the execution's own and starts empty.
-/

namespace AgentPlatform

/-- The files of a tree, by their relative path; the first entry for a path counts. -/
abbrev Files := List (String × String)

/-- `DiffSummary`. -/
structure DiffSummary where
  diff : String
  files : List String
  insertions : ℤ
  deletions : ℤ
  deriving DecidableEq, Repr

/-- `Workspace`, as registered for the task. -/
structure Workspace where
  path : String
  branch : String
  deriving DecidableEq, Repr

/-- `TestOutcome`, with its failures rendered. -/
structure TestOutcome where
  passed : ℤ
  failed : ℤ
  skipped : ℤ
  failures : List String
  exitCode : ℤ
  output : String
  timedOut : Bool
  deriving DecidableEq, Repr

/-- `TestOutcome.ok`. -/
def TestOutcome.ok (o : TestOutcome) : Bool := o.exitCode = 0 && o.failed = 0 && !o.timedOut

/-- `CIStatus`. -/
inductive CIStatus where
  | pending | running | passed | failed | skipped | timedOut
  deriving DecidableEq, Repr

/-- The text the state carries. -/
def CIStatus.value : CIStatus → String
  | pending => "PENDING"
  | running => "RUNNING"
  | passed => "PASSED"
  | failed => "FAILED"
  | skipped => "SKIPPED"
  | timedOut => "TIMED_OUT"

/-- `CIRunResult`. -/
structure CIRunResult where
  id : String
  status : CIStatus
  url : String
  logs : String
  deriving DecidableEq, Repr

/-- `CIRunResult.finished`. -/
def CIRunResult.finished (r : CIRunResult) : Bool :=
  r.status = .passed || r.status = .failed || r.status = .skipped || r.status = .timedOut

/-- A commit of the task branch: its sha and the files it holds. -/
structure Commit where
  sha : String
  files : Files
  deriving DecidableEq, Repr

/-- What an execution did, as far as it can be seen from outside. -/
inductive Effect where
  | emitted (event : EventType)
  | wrote (path : String)
  /-- A write that landed in the developer's checkout. -/
  | wroteCheckout (path : String)
  | ranSuite (outcome : TestOutcome)
  /-- A diff collected from the worktree as it stands. -/
  | collected (files : Files) (summary : DiffSummary)
  | evaluated (files : List String) (decision : PolicyDecision)
  | committed (sha : String) (files : Files)
  | pushed (branch : String)
  | triggeredCi (branch : String) (sha : Option String)
  | ciVerdict (status : CIStatus)
  | requestedPullRequest (branch : String)
  | openedPullRequest (url : String)
  deriving DecidableEq, Repr

/-- **The effects that leave the worktree**: a commit, a push or a pull request. -/
def Effect.publishes : Effect → Bool
  | committed _ _ | pushed _ | requestedPullRequest _ | openedPullRequest _ => true
  | _ => false

/-- What the nodes of a task act on. -/
structure World where
  /-- `WorkspaceManager._active[task_id]`. -/
  workspace : Option Workspace
  tree : Files
  checkout : Files
  /-- The commits made for the task on its branch, newest first. -/
  commits : List Commit
  /-- A `PENDING` approval row exists. -/
  pendingApproval : Bool
  /-- What the running execution did so far, newest first. -/
  log : List Effect
  deriving DecidableEq, Repr

/-- The head of the task branch, once it holds a commit of the task. -/
def World.head? (w : World) : Option String := w.commits.head?.map Commit.sha

/-! ## What an execution is told -/

/-- What the planner answers. -/
structure PlanReply where
  steps : List String
  summary : String
  criteria : List String
  deriving DecidableEq, Repr

/-- What the repository agent answers. -/
structure ContextReply where
  files : List String
  findings : List String
  deriving DecidableEq, Repr

/-- What the risk agent's model answers. -/
structure RiskReply where
  riskLevel : String
  reasons : List String
  blastRadius : String
  deriving DecidableEq, Repr

/-- What the implementation agent answers. -/
structure ImplementationReply where
  summary : String
  changedFiles : List String
  testNotes : List String
  deriving DecidableEq, Repr

/-- What the testing agent answers. -/
structure TestPlanReply where
  summary : String
  commands : List String
  files : List String
  deriving DecidableEq, Repr

/-- What the debugging agent answers. -/
structure DebugReply where
  analysis : String
  fixApplied : Bool
  confidence : String
  deriving DecidableEq, Repr

/-- What the CI agent answers. -/
structure CIReply where
  analysis : String
  requiresHuman : Bool
  deriving DecidableEq, Repr

/-- One run of an agent: the files its tools wrote, and what it returned or raised. -/
structure AgentCall (α : Type) where
  edits : Files
  reply : Except PyError α

/-- What `git commit` did: a command that fails may have moved the branch before it failed. -/
inductive CommitCommand where
  | committed (sha : String)
  | failed (moved : Option String) (output : String)
  | raised (e : PyError)
  deriving DecidableEq, Repr

namespace CommitCommand

/-- It exits with zero. -/
def succeeds : CommitCommand → Bool
  | committed _ => true
  | _ => false

/-- It moves the branch. -/
def moves : CommitCommand → Bool
  | committed _ | failed (some _) _ => true
  | _ => false

end CommitCommand

/-- Everything one execution of a node is told from outside. -/
structure NodeEnv where
  /-- The supervisor raises before the body runs. -/
  before : Option PyError
  /-- Closing the agent run of a completed body raises, inside the supervisor's `try`. -/
  finish : Option PyError
  /-- The supervisor raises after its `try`. -/
  escape : Option PyError
  emit : EventType → Option PyError
  planner : Except PyError PlanReply
  repository : Except PyError ContextReply
  risk : Except PyError RiskReply
  implementation : AgentCall ImplementationReply
  testing : AgentCall TestPlanReply
  debugging : AgentCall DebugReply
  ci : AgentCall CIReply
  /-- `WorkspaceManager.create`: the files of the new worktree. -/
  createWorkspace : Except PyError Files
  /-- A failed `create` had already removed an old worktree and its branch. -/
  droppedBranch : Bool
  collectDiff : Except PyError DiffSummary
  suite : Except PyError TestOutcome
  /-- What the suite leaves in the worktree. -/
  artifacts : Files
  gitAdd : Except PyError Unit
  /-- Something is staged. -/
  staged : Except PyError Bool
  commit : CommitCommand
  /-- `git rev-parse HEAD` prints the head, or nothing. -/
  revParse : Except PyError Bool
  push : Option PyError
  trigger : Except PyError CIRunResult
  wait : Except PyError CIRunResult
  logs : Except PyError String
  recordCiRun : Option PyError
  createPullRequest : Except PyError String
  requestApproval : Option PyError

/-- `WorkflowContext`, as far as the nodes read it. -/
structure WorkflowContext where
  taskId : String
  /-- `WorkspaceManager.workspace_root / task_id`. -/
  workspacePath : String
  policy : PolicyEngine
  /-- `provider.name` of the CI provider. -/
  ciName : String
  /-- `signatures_for`. -/
  signaturesFor : List String → List String

/-- A program over the world. -/
abbrev NodeM := Prog World PyError

end AgentPlatform
