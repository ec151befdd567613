import Mathlib.Tactic.Common

/-!
# Core/Domain — task states, risk levels, events and errors

The vocabulary of `core/domain.py` and `core/errors.py`: the task state machine's statuses and which
of them are terminal, the two ordered scales of the policy engine, the workflow's nodes with the
status each puts the task in, and the exceptions the retry classifier tells apart.
-/

namespace AgentPlatform

/-- `TaskStatus`. -/
inductive TaskStatus where
  | queued | planning | repositoryAnalysis | riskAssessment | implementing | testing | testFailed
  | debugging | testPassed | ciRunning | ciFailed | ciDebugging | ciPassed | policyCheck
  | readyForReview | humanApproved | prCreated
  | completed | failed | cancelled | rejected | humanReviewRequired
  deriving DecidableEq, Repr

/-- `status in TERMINAL_STATUSES`. -/
def TaskStatus.terminal : TaskStatus → Bool
  | .completed | .failed | .cancelled | .rejected | .humanReviewRequired => true
  | _ => false

/-- `RiskLevel`. -/
inductive RiskLevel where
  | low | medium | high
  deriving DecidableEq, Repr

namespace RiskLevel

/-- `RISK_ORDER`. -/
def order : RiskLevel → ℕ
  | low => 0
  | medium => 1
  | high => 2

/-- The text the state carries. -/
def value : RiskLevel → String
  | low => "LOW"
  | medium => "MEDIUM"
  | high => "HIGH"

/-- `RiskLevel(text)`, a `ValueError` on any other text. -/
def ofValue? (text : String) : Option RiskLevel :=
  if text = "LOW" then some low
  else if text = "MEDIUM" then some medium
  else if text = "HIGH" then some high
  else none

end RiskLevel

/-- `max_risk`: the first of the highest levels, `LOW` if there is none. -/
def maxRisk (levels : List RiskLevel) : RiskLevel :=
  levels.foldl (fun best level => if best.order < level.order then level else best) .low

/-- `PolicyAction`. -/
inductive PolicyAction where
  | allow | humanApproval | block
  deriving DecidableEq, Repr

namespace PolicyAction

/-- `_ACTION_STRENGTH`. -/
def strength : PolicyAction → ℕ
  | allow => 0
  | humanApproval => 1
  | block => 2

/-- The text the state carries. -/
def value : PolicyAction → String
  | allow => "ALLOW"
  | humanApproval => "HUMAN_APPROVAL"
  | block => "BLOCK"

@[simp] theorem value_eq_block_iff (a : PolicyAction) : a.value = "BLOCK" ↔ a = block := by
  cases a <;> decide

end PolicyAction

/-- `EventType`. -/
inductive EventType where
  | taskCreated | taskClaimed | nodeStarted | nodeCompleted | toolCalled | toolCompleted
  | toolFailed | planCreated | filesDiscovered | riskAssessed | workspaceCreated | fileChanged
  | testsStarted | testsPassed | testFailed | debugIteration | noProgressDetected | policyEvaluated
  | policyBlocked | commitCreated | ciStarted | ciCompleted | approvalRequested | approvalGranted
  | approvalRejected | prCreated | taskCompleted | taskFailed | taskCancelled
  deriving DecidableEq, Repr

/-- The nodes of the workflow graph. -/
inductive Node where
  | plan | repositoryAnalysis | riskAssessment | implementation | testGeneration | runTests
  | debugging | securityPolicy | gitCommit | ciValidation | ciDebugging | createPr | humanReview
  | halt
  deriving DecidableEq, Repr

namespace Node

/-- The name the graph registers a node under. -/
def name : Node → String
  | plan => "plan"
  | repositoryAnalysis => "repository_analysis"
  | riskAssessment => "risk_assessment"
  | implementation => "implementation"
  | testGeneration => "test_generation"
  | runTests => "run_tests"
  | debugging => "debugging"
  | securityPolicy => "security_policy"
  | gitCommit => "git_commit"
  | ciValidation => "ci_validation"
  | ciDebugging => "ci_debugging"
  | createPr => "create_pr"
  | humanReview => "human_review"
  | halt => "halt"

/-- `NODE_STATUS.get(node, TaskStatus.PLANNING)`: `halt` has no entry of its own. -/
def status : Node → TaskStatus
  | plan => .planning
  | repositoryAnalysis => .repositoryAnalysis
  | riskAssessment => .riskAssessment
  | implementation => .implementing
  | testGeneration => .testing
  | runTests => .testing
  | debugging => .debugging
  | ciValidation => .ciRunning
  | ciDebugging => .ciDebugging
  | securityPolicy => .policyCheck
  | gitCommit => .testPassed
  | createPr => .prCreated
  | humanReview => .readyForReview
  | halt => .planning

/-- **A running node never puts its task in a terminal status.** -/
@[simp] theorem terminal_status (n : Node) : n.status.terminal = false := by cases n <;> rfl

theorem status_ne_queued (n : Node) : n.status ≠ .queued := by cases n <;> decide

end Node

/-- An exception, by the class the supervisor's handlers select on. -/
inductive PyError where
  | policyViolation (message : String)
  | workspaceViolation (message : String)
  | transient (message : String)
  /-- Any other `AgentPlatformError`. -/
  | platform (cls message : String)
  /-- Any other `Exception`. -/
  | other (cls message : String)
  deriving DecidableEq, Repr

namespace PyError

/-- `type(exc).__name__`. -/
def cls : PyError → String
  | policyViolation _ => "PolicyViolationError"
  | workspaceViolation _ => "WorkspaceViolationError"
  | transient _ => "TransientInfrastructureError"
  | platform c _ => c
  | other c _ => c

/-- `str(exc)`. -/
def message : PyError → String
  | policyViolation m | workspaceViolation m | transient m | platform _ m | other _ m => m

/-- **A hard boundary**: `PolicyViolationError` or `WorkspaceViolationError`. -/
def isBoundary : PyError → Bool
  | policyViolation _ | workspaceViolation _ => true
  | _ => false

/-- `isinstance(exc, AgentPlatformError)`. -/
def isPlatform : PyError → Bool
  | other _ _ => false
  | _ => true

end PyError

end AgentPlatform
