import AgentPlatform.Graph.Context

/-!
# Graph/Nodes — the bodies of the workflow's nodes

One program per node, call by call as in `graph/nodes.py`.  Reasoning is delegated to an agent; what
has a real side effect is executed by the platform.  A body returns the partial update to merge, or
raises with the effects it had so far.
-/

namespace AgentPlatform

namespace NodeM

/-- Note what the execution did. -/
def record (effect : Effect) : NodeM Unit := Prog.modify fun w => { w with log := effect :: w.log }

/-- `context.emit`. -/
def emit (env : NodeEnv) (event : EventType) : NodeM Unit := do
  record (.emitted event)
  Prog.call (env.emit event)

/-- `text.splitlines()[0]`. -/
@[irreducible] def firstLine (text : String) : NodeM String :=
  match Text.splitlines text.toList with
  | line :: _ => pure (String.ofList line)
  | [] => Prog.raise (.other "IndexError" "list index out of range")

/-- `workspaces.get(task_id)`. -/
def getWorkspace (ctx : WorkflowContext) : NodeM Workspace := fun w =>
  match w.workspace with
  | some ws => (.ok ws, w)
  | none => (.error (.workspaceViolation s!"no workspace for task {ctx.taskId}"), w)

end NodeM

open NodeM

/-- A file write of an agent's tool: to the worktree once it exists, to the checkout before. -/
def World.write (w : World) (edit : String × String) : World :=
  if w.workspace.isSome then
    { w with tree := edit :: w.tree, log := .wrote edit.1 :: w.log }
  else { w with checkout := edit :: w.checkout, log := .wroteCheckout edit.1 :: w.log }

namespace Nodes

/-- An agent's run in the tool context `_tool_context(state, in_workspace=True)`: its tools refuse
to write where the state says `BLOCK`. -/
def runAgent {α : Type} (s : AgentState) (call : AgentCall α) : NodeM α := do
  Prog.whenever (s.get? .policyAction ≠ some "BLOCK")
    (Prog.modify fun w => call.edits.foldl World.write w)
  Prog.lift call.reply

/-- The update a collected diff makes. -/
def diffUpdate (summary : DiffSummary) : AgentState := .of [⟨.gitDiff, summary.diff⟩,
  ⟨.modifiedFiles, summary.files⟩, ⟨.linesAdded, summary.insertions⟩,
  ⟨.linesRemoved, summary.deletions⟩]

/-- `Nodes._refresh_diff`. -/
def refreshDiff (env : NodeEnv) : NodeM AgentState := do
  let workspace ← Prog.read (·.workspace)
  match workspace with
  | none => pure .empty
  | some _ => do
    let summary ← Prog.lift env.collectDiff
    let tree ← Prog.read (·.tree)
    record (.collected tree summary)
    pure (diffUpdate summary)

section Bodies

variable (ctx : WorkflowContext) (env : NodeEnv)

/-- `Nodes.plan`. -/
def plan (_ : AgentState) : NodeM AgentState := do
  let reply ← Prog.lift env.planner
  emit env .planCreated
  pure (.of [⟨.plan, reply.steps⟩, ⟨.planSummary, reply.summary⟩,
    ⟨.acceptanceCriteria, reply.criteria⟩])

/-- `Nodes.repository_analysis`. -/
def repositoryAnalysis (_ : AgentState) : NodeM AgentState := do
  let reply ← Prog.lift env.repository
  emit env .filesDiscovered
  pure (.of [⟨.relevantFiles, reply.files⟩, ⟨.repositoryContext, reply.findings⟩])

/-- The model's risk level as `RiskAgent.assess` reads it: anything but a level counts as `LOW`. -/
def modelRisk (reply : RiskReply) : RiskLevel :=
  (RiskLevel.ofValue? (upper reply.riskLevel)).getD .low

/-- The reasons `RiskAgent.assess` reports. -/
def riskReasons (reply : RiskReply) (decision : PolicyDecision) : List String :=
  let radius := reply.blastRadius
  reply.reasons ++ (if radius = "" then [] else [s!"blast radius: {radius}"]) ++ decision.reasons

/-- `RiskAgent.assess`, with the block `risk_assessment` adds. -/
def assess (s : AgentState) (reply : RiskReply) : PolicyDecision × AgentState :=
  let decision := ctx.policy.evaluate (s.get .relevantFiles []) "" none false
  let combined := maxRisk [modelRisk reply, decision.risk]
  let update : AgentState := .of [⟨.riskLevel, combined.value⟩,
    ⟨.riskReasons, riskReasons reply decision⟩,
    ⟨.approvalRequired, decision.action ≠ .allow || combined = .high⟩,
    ⟨.policyAction, decision.action.value⟩]
  (decision, if decision.blocked then update.merge (.of [
    ⟨.haltReason, "policy blocked the change before any file was modified"⟩,
    ⟨.policyFindings, riskReasons reply decision⟩]) else update)

/-- `Nodes.risk_assessment`. -/
def riskAssessment (s : AgentState) : NodeM AgentState := do
  let reply ← Prog.lift env.risk
  let (decision, update) := assess ctx s reply
  record (.evaluated (s.get .relevantFiles []) decision)
  emit env .riskAssessed
  pure update

/-- `WorkspaceManager.create`: a new branch `agent/<task_id>` checked out in a new worktree. -/
def createWorkspace : NodeM Workspace := fun w =>
  match env.createWorkspace with
  | .ok files =>
    let ws : Workspace := ⟨ctx.workspacePath, s!"agent/{ctx.taskId}"⟩
    (.ok ws, { w with workspace := some ws, tree := files, commits := [] })
  | .error e => (.error e, if env.droppedBranch then { w with tree := [], commits := [] } else w)

/-- The worktree `Nodes.implementation` works in. -/
def ensureWorkspace : NodeM Workspace := do
  let workspace ← Prog.read (·.workspace)
  match workspace with
  | some ws => pure ws
  | none => do
    let ws ← createWorkspace ctx env
    emit env .workspaceCreated
    pure ws

/-- `Nodes.implementation`. -/
def implementation (s : AgentState) : NodeM AgentState := do
  let workspace ← ensureWorkspace ctx env
  let reply ← runAgent s env.implementation
  let diff ← refreshDiff env
  pure ((TypedDict.merge (.of [⟨.implementationSummary, reply.summary⟩,
    ⟨.modifiedFiles, reply.changedFiles⟩, ⟨.testNotes, reply.testNotes⟩]) diff).merge
    (.of [⟨.workspacePath, workspace.path⟩, ⟨.gitBranch, workspace.branch⟩]))

/-- `Nodes.test_generation`. -/
def testGeneration (s : AgentState) : NodeM AgentState := do
  let reply ← runAgent s env.testing
  let diff ← refreshDiff env
  pure (TypedDict.merge (.of [⟨.testPlanSummary, reply.summary⟩, ⟨.testCommands, reply.commands⟩,
    ⟨.testFiles, reply.files⟩]) diff)

/-- Some path of the tree ends in the suffix. -/
def hasSuffix (files : Files) (suffix : String) : Bool :=
  files.any fun entry => suffix.toList.isSuffixOf entry.1.toList

/-- `detect_project_kind`. -/
def detectProjectKind (files : Files) : String :=
  if hasSuffix files ".sln" || hasSuffix files ".csproj" then "dotnet"
  else if (files.lookup "package.json").isSome then "node"
  else if (files.lookup "pyproject.toml").isSome then "python"
  else "unknown"

/-- `run_dotnet_test`, parsed. -/
def runSuite : NodeM TestOutcome := do
  Prog.modify fun w => { w with tree := env.artifacts ++ w.tree }
  let outcome ← Prog.lift env.suite
  record (.ranSuite outcome)
  pure outcome

/-- `Nodes.run_tests` for a project whose suite cannot be run. -/
def skipTests (kind : String) : NodeM AgentState := do
  emit env .testsPassed
  pure (.of [⟨.testResults, s!"no runnable test project detected ({kind})"⟩, ⟨.testFailures, []⟩,
    ⟨.testsPassed, 0⟩, ⟨.testsFailed, 0⟩, ⟨.testRunOk, true⟩])

/-- `Nodes.run_tests`. -/
def runTests (s : AgentState) : NodeM AgentState := do
  let _ ← getWorkspace ctx
  emit env .testsStarted
  let tree ← Prog.read (·.tree)
  if detectProjectKind tree ≠ "dotnet" then skipTests env (detectProjectKind tree)
  else do
    let outcome ← runSuite env
    let signatures := ctx.signaturesFor outcome.failures
    let output := outcome.output.toList
    let diff ← refreshDiff env
    emit env (if outcome.ok then .testsPassed else .testFailed)
    pure (TypedDict.merge (.of [
      ⟨.testResults, String.ofList (output.drop (output.length - 12000))⟩,
      ⟨.testFailures, outcome.failures⟩, ⟨.testsPassed, outcome.passed⟩,
      ⟨.testsFailed, outcome.failed⟩, ⟨.testRunOk, outcome.ok⟩, ⟨.failureSignatures, signatures⟩,
      ⟨.failureSignatureHistory, s.get .failureSignatureHistory [] ++ [signatures]⟩]) diff)

/-- The attempts a debugging pass adds to `previous_failures`, one per failure not listed yet. -/
def noteFailures (iteration : ℤ) : List String → List String → NodeM (List String)
  | previous, [] => pure previous
  | previous, failure :: failures => do
    let line ← firstLine failure
    let entry := s!"iteration {iteration}: {line}"
    noteFailures iteration (if entry ∈ previous then previous else previous ++ [entry]) failures

/-- …and the headline of the analysis, if there is one. -/
def noteAnalysis (iteration : ℤ) (previous : List String) (analysis : String) :
    NodeM (List String) :=
  if analysis = "" then pure previous else do
    let line ← firstLine analysis
    let head := String.ofList (line.toList.take 200)
    pure (previous ++ [s!"iteration {iteration} analysis: {head}"])

/-- `Nodes.debugging`. -/
def debugging (s : AgentState) : NodeM AgentState := do
  let iteration := s.get .iteration 0 + 1
  emit env .debugIteration
  let noted ← noteFailures (iteration - 1) (s.get .previousFailures []) (s.get .testFailures [])
  let reply ← runAgent s env.debugging
  let previous ← noteAnalysis iteration noted reply.analysis
  let diff ← refreshDiff env
  pure (TypedDict.merge (.of [⟨.iteration, iteration⟩, ⟨.debuggingAnalysis, reply.analysis⟩,
    ⟨.previousFailures, previous⟩, ⟨.fixApplied, reply.fixApplied⟩,
    ⟨.confidence, reply.confidence⟩]) diff)

/-- `RiskLevel(state.get("risk_level", "LOW"))`. -/
def stateRisk (s : AgentState) : NodeM RiskLevel :=
  match RiskLevel.ofValue? (s.get .riskLevel "LOW") with
  | some level => pure level
  | none => Prog.raise (.other "ValueError" "not a valid RiskLevel")

/-- The decision of `Nodes.security_policy` on the diff it collected. -/
def policyDecision (s diff : AgentState) : PolicyDecision :=
  ctx.policy.evaluate (diff.get .modifiedFiles (s.get .modifiedFiles [])) (diff.get .gitDiff "")
    (some (diff.get .linesAdded 0 + diff.get .linesRemoved 0)) true

/-- The update of `Nodes.security_policy` beside the diff. -/
def policyUpdate (s diff : AgentState) (risk : RiskLevel) : AgentState :=
  let decision := policyDecision ctx s diff
  .of [⟨.policyAction, decision.action.value⟩, ⟨.policyFindings, decision.reasons⟩,
    ⟨.riskLevel, risk.value⟩,
    ⟨.approvalRequired, decision.action ≠ .allow || risk = .high ||
      diff.get .modifiedFiles (s.get .modifiedFiles []) ≠ []⟩]

/-- `Nodes.security_policy`. -/
def securityPolicy (s : AgentState) : NodeM AgentState := do
  let diff ← refreshDiff env
  let decision := policyDecision ctx s diff
  record (.evaluated (diff.get .modifiedFiles (s.get .modifiedFiles [])) decision)
  let level ← stateRisk s
  emit env .policyEvaluated
  let update := diff.merge (policyUpdate ctx s diff (maxRisk [level, decision.risk]))
  if decision.blocked then do
    emit env .policyBlocked
    let summary := decision.summary
    pure (update.merge (.of [⟨.haltReason, s!"policy blocked the change: {summary}"⟩]))
  else pure update

/-- The text `commit_message` takes its subject from. -/
def commitSubject (s : AgentState) : String :=
  if s.get .implementationSummary "" ≠ "" then s.get .implementationSummary ""
  else if s.get .planSummary "" ≠ "" then s.get .planSummary ""
  else s.get .issue "agent change"

/-- `text.strip().splitlines()[0]`. -/
def strippedFirstLine (text : String) : NodeM String :=
  firstLine (String.ofList (Text.strip text.toList))

/-- `git commit`: the branch moves to the files of the worktree. -/
def gitCommitCommand : NodeM Unit := fun w =>
  let moved (sha : String) : World := { w with
    commits := ⟨sha, w.tree⟩ :: w.commits
    log := .committed sha w.tree :: w.log }
  match env.commit with
  | .committed sha => (.ok (), moved sha)
  | .failed sha? output =>
    (.error (.platform "AgentPlatformError" s!"git commit failed: {output}"),
      (sha?.map moved).getD w)
  | .raised e => (.error e, w)

/-- `commit_all`. -/
def commitAll : NodeM String := do
  Prog.lift env.gitAdd
  let staged ← Prog.lift env.staged
  Prog.whenever (staged = false) (Prog.raise (.platform "AgentPlatformError" "nothing to commit"))
  gitCommitCommand env
  let printed ← Prog.lift env.revParse
  let head ← Prog.read World.head?
  pure (if printed then head.getD "" else "")

/-- `commit_changes`. -/
def commitChanges (s : AgentState) : NodeM String := do
  let _ ← strippedFirstLine (commitSubject s)
  commitAll env

/-- `commit_changes` inside `try … except AgentPlatformError`: a platform error is a message. -/
def tryCommit (s : AgentState) : NodeM (Except String String) :=
  Prog.catching (do
    let sha ← commitChanges env s
    pure (.ok sha))
    fun e => if e.isPlatform then pure (.error e.message) else Prog.raise e

/-- The update of `Nodes.git_commit` once it has tried. -/
def reportCommit (workspace : Workspace) : Except String String → NodeM AgentState
  | .ok sha => do
    emit env .commitCreated
    pure (.of [⟨.commitSha, sha⟩, ⟨.gitBranch, workspace.branch⟩])
  | .error failure => pure (.of [⟨.haltReason, s!"commit failed: {failure}"⟩])

/-- `Nodes.git_commit`. -/
def gitCommit (s : AgentState) : NodeM AgentState := do
  let workspace ← getWorkspace ctx
  if s.get .modifiedFiles [] = [] then
    pure (.of [⟨.haltReason, "the agent produced no file changes"⟩, ⟨.policyAction, "BLOCK"⟩])
  else tryCommit env s >>= reportCommit env workspace

/-- `provider.trigger`, then `wait` if the run has not finished. -/
def ciRun (branch : String) (s : AgentState) : NodeM CIRunResult := do
  record (.triggeredCi branch (s.get? .commitSha))
  let run ← Prog.lift env.trigger
  if run.finished = false ∧ run.id ≠ "" then Prog.lift env.wait else pure run

/-- The logs of a run: fetched where it has an id. -/
def ciLogs (run : CIRunResult) : NodeM String :=
  if run.id ≠ "" then Prog.lift env.logs else pure run.logs

/-- The push of `Nodes.ci_validation`, where there is a pipeline to run. -/
def pushForCi (branch : String) : NodeM Unit := Prog.whenever (ctx.ciName ≠ "none") do
  record (.pushed branch)
  Prog.call env.push

/-- `Nodes.ci_validation`. -/
def ciValidation (s : AgentState) : NodeM AgentState := do
  let workspace ← getWorkspace ctx
  let branch := s.get .gitBranch workspace.branch
  pushForCi ctx env branch
  emit env .ciStarted
  let run ← ciRun env branch s
  let logs ← ciLogs env run
  Prog.call env.recordCiRun
  emit env .ciCompleted
  record (.ciVerdict run.status)
  pure (.of [⟨.ciStatus, run.status.value⟩, ⟨.ciLogs, if logs ≠ "" then logs else run.logs⟩,
    ⟨.ciRunId, run.id⟩])

/-- `Nodes.ci_debugging`. -/
def ciDebugging (s : AgentState) : NodeM AgentState := do
  let reply ← runAgent s env.ci
  let diff ← refreshDiff env
  pure (TypedDict.merge (.of [⟨.ciIteration, s.get .ciIteration 0 + 1⟩,
    ⟨.ciAnalysis, reply.analysis⟩, ⟨.ciRequiresHuman, reply.requiresHuman⟩]) diff)

/-- The text `open_pull_request` takes its title from. -/
def pullRequestTitle (s : AgentState) : String :=
  let task := s.get .taskId ""
  if s.get .implementationSummary "" ≠ "" then s.get .implementationSummary ""
  else if s.get .planSummary "" ≠ "" then s.get .planSummary ""
  else s!"Agent change for {task}"

/-- `open_pull_request`: the branch is pushed before the title is built. -/
def openPullRequest (s : AgentState) : NodeM String := do
  record (.pushed (s.get .gitBranch ""))
  Prog.call env.push
  let _ ← strippedFirstLine (pullRequestTitle s)
  record (.requestedPullRequest (s.get .gitBranch ""))
  let url ← Prog.lift env.createPullRequest
  record (.openedPullRequest url)
  pure url

/-- `Nodes.create_pr`. -/
def createPr (s : AgentState) : NodeM AgentState := do
  let _ ← getWorkspace ctx
  let url ← openPullRequest env s
  emit env .prCreated
  pure (.of [⟨.pullRequestUrl, url⟩])

/-- `_final_summary`. -/
def finalSummary (s : AgentState) : String :=
  let head := if s.get .implementationSummary "" ≠ "" then s.get .implementationSummary ""
    else if s.get .planSummary "" ≠ "" then s.get .planSummary "" else "Change prepared."
  let files := (s.get .modifiedFiles []).length
  let passed := s.get .testsPassed 0
  let failed := s.get .testsFailed 0
  let ci := if s.get .ciStatus "" ≠ "" then s.get .ciStatus "" else "not run"
  let risk := s.get .riskLevel "LOW"
  let iterations := s.get .iteration 0
  String.intercalate " " [head, s!"Files changed: {files}.",
    s!"Tests: {passed} passed, {failed} failed.", s!"CI: {ci}.", s!"Risk: {risk}.",
    s!"Debug iterations: {iterations}."]

/-- `context.request_approval`: a row is inserted unless one is pending. -/
def requestApproval : NodeM Unit := do
  Prog.call env.requestApproval
  Prog.modify fun w => { w with pendingApproval := true }

/-- `Nodes.human_review`. -/
def humanReview (s : AgentState) : NodeM AgentState := do
  requestApproval env
  emit env .approvalRequested
  pure (.of [⟨.finalSummary, finalSummary s⟩, ⟨.approvalRequired, true⟩,
    ⟨.outcome, "READY_FOR_REVIEW"⟩])

/-- `Nodes.halt`. -/
def halt (s : AgentState) : NodeM AgentState := do
  let reason := haltReason s
  emit env (if s.get? .policyAction = some "BLOCK" then .policyBlocked else .noProgressDetected)
  pure (.of [⟨.outcome, "HUMAN_REVIEW_REQUIRED"⟩, ⟨.haltReason, reason⟩,
    ⟨.finalSummary, s!"Stopped and escalated to a human. {reason}"⟩, ⟨.approvalRequired, true⟩])

/-- The body each node of the graph runs. -/
def body : Node → AgentState → NodeM AgentState
  | .plan => plan env
  | .repositoryAnalysis => repositoryAnalysis env
  | .riskAssessment => riskAssessment ctx env
  | .implementation => implementation ctx env
  | .testGeneration => testGeneration env
  | .runTests => runTests ctx env
  | .debugging => debugging env
  | .securityPolicy => securityPolicy ctx env
  | .gitCommit => gitCommit ctx env
  | .ciValidation => ciValidation ctx env
  | .ciDebugging => ciDebugging env
  | .createPr => createPr ctx env
  | .humanReview => humanReview env
  | .halt => halt env

end Bodies

end Nodes

end AgentPlatform
