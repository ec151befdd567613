import Mathlib.Data.Int.Notation
import AgentPlatform.Machinery.TypedDict

/-!
# Graph/State — the state the workflow's nodes read and update

`AgentState` is a dictionary none of whose keys is required (`total=False`).  A node returns a
partial update and the graph merges it key by key, so a key a node leaves out — because it has
nothing to say about it, or because it raised — keeps the value an earlier node gave it.
-/

namespace AgentPlatform

/-- The keys of `AgentState`. -/
inductive Key where
  | taskId | workflowRunId
  | repositoryUrl | repositoryPath | workspacePath
  | issue
  | plan | planSummary | acceptanceCriteria
  | relevantFiles | repositoryContext
  | riskLevel | riskReasons | approvalRequired
  | modifiedFiles | gitDiff | linesAdded | linesRemoved
  | implementationSummary | testNotes | testFiles | testPlanSummary
  | testCommands | testResults | testFailures | testsPassed | testsFailed | testRunOk
  | debuggingAnalysis | previousFailures | failureSignatures | failureSignatureHistory
  | fixApplied | confidence | maxFiles
  | iteration | maxIterations | ciIteration | maxCiIterations
  | ciStatus | ciLogs | ciRunId | ciAnalysis | ciRequiresHuman
  | policyAction | policyFindings
  | gitBranch | commitSha | pullRequestUrl
  | outcome | haltReason | error
  | finalSummary
  deriving DecidableEq, Repr

/-- The type each key is declared with. -/
@[reducible] def Key.Ty : Key → Type
  | taskId | workflowRunId | repositoryUrl | repositoryPath | workspacePath | issue | planSummary
  | riskLevel | gitDiff | implementationSummary | testPlanSummary | testResults
  | debuggingAnalysis | confidence | ciStatus | ciLogs | ciRunId | ciAnalysis | policyAction
  | gitBranch | commitSha | pullRequestUrl | outcome | haltReason | error | finalSummary => String
  | plan | acceptanceCriteria | relevantFiles | repositoryContext | riskReasons | modifiedFiles
  | testNotes | testFiles | testCommands | testFailures | previousFailures | failureSignatures
  | policyFindings => List String
  | failureSignatureHistory => List (List String)
  | approvalRequired | testRunOk | fixApplied | ciRequiresHuman => Bool
  | linesAdded | linesRemoved | testsPassed | testsFailed | maxFiles | iteration | maxIterations
  | ciIteration | maxCiIterations => ℤ

/-- `AgentState`; a node's partial update has the same type. -/
abbrev AgentState := TypedDict Key.Ty

/-- The arguments of `initial_state`. -/
structure InitialArguments where
  taskId : String
  workflowRunId : String
  repositoryUrl : String
  repositoryPath : String
  issue : String
  maxIterations : ℤ
  maxCiIterations : ℤ
  deriving DecidableEq, Repr

/-- `initial_state`. -/
def initialState (a : InitialArguments) : AgentState := .of [
  ⟨.taskId, a.taskId⟩, ⟨.workflowRunId, a.workflowRunId⟩, ⟨.repositoryUrl, a.repositoryUrl⟩,
  ⟨.repositoryPath, a.repositoryPath⟩, ⟨.issue, a.issue⟩, ⟨.plan, []⟩, ⟨.acceptanceCriteria, []⟩,
  ⟨.relevantFiles, []⟩, ⟨.repositoryContext, []⟩, ⟨.riskLevel, "LOW"⟩, ⟨.riskReasons, []⟩,
  ⟨.approvalRequired, false⟩, ⟨.modifiedFiles, []⟩, ⟨.gitDiff, ""⟩, ⟨.testCommands, []⟩,
  ⟨.testResults, ""⟩, ⟨.testFailures, []⟩, ⟨.previousFailures, []⟩, ⟨.failureSignatures, []⟩,
  ⟨.failureSignatureHistory, []⟩, ⟨.testRunOk, false⟩, ⟨.maxFiles, 12⟩, ⟨.iteration, 0⟩,
  ⟨.maxIterations, a.maxIterations⟩, ⟨.ciIteration, 0⟩, ⟨.maxCiIterations, a.maxCiIterations⟩,
  ⟨.ciStatus, ""⟩, ⟨.policyAction, ""⟩, ⟨.policyFindings, []⟩, ⟨.outcome, ""⟩, ⟨.haltReason, ""⟩]

end AgentPlatform
