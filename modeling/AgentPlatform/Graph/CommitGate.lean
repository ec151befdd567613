import AgentPlatform.Graph.NodeSpecs
import AgentPlatform.Graph.Workflow
import AgentPlatform.Policies.Coverage
import AgentPlatform.Tools.GitDiff

/-!
# Graph/CommitGate — what the policy is shown before a commit

`security_policy` evaluates what `collect_diff` read, and `collect_diff` reads what survived the
quoting of names, the cut of long outputs and the failure of a command.  `gateSees_iff_covers` says
when that is enough for every policy: when the output still covers the change.  An intact diff does
(`gateSees_of_intact`).
-/

namespace AgentPlatform

/-! ## The decision the gate takes -/

/-- A diff is collected of a task's worktree. -/
theorem refreshDiff_of_ok {env : NodeEnv} {w : World} (hws : w.workspace ≠ none)
    {summary : DiffSummary} (hdiff : env.collectDiff = .ok summary) :
    Nodes.refreshDiff env w
      = (.ok (Nodes.diffUpdate summary), { w with log := .collected w.tree summary :: w.log }) := by
  obtain ⟨ws, hws⟩ := Option.ne_none_iff_exists'.mp hws
  rw [Nodes.refreshDiff, hdiff]
  simp only [Prog.bind_apply, Prog.read, hws, Prog.lift, NodeM.record, Prog.modify, Prog.pure_apply]

namespace Execution

variable {ctx : WorkflowContext} {x : Execution}

/-- After the decision `security_policy` only emits. -/
theorem securityPolicy_makes (ctx : WorkflowContext) (hn : x.node = .securityPolicy)
    (hws : x.world.workspace ≠ none)
    {summary : DiffSummary} (hdiff : x.env.collectDiff = .ok summary) :
    Made Change.isEmitted { x.world
      with log := [.evaluated summary.files (ctx.policy.evaluate summary.files
      summary.diff (some (summary.insertions + summary.deletions)) true),
        .collected x.world.tree summary] } (x.worldAfter ctx) := by
  have hdecision : Nodes.policyDecision ctx x.state (Nodes.diffUpdate summary)
      = ctx.policy.evaluate summary.files summary.diff
        (some (summary.insertions + summary.deletions)) true := by
    simp [Nodes.policyDecision, Nodes.diffUpdate, TypedDict.get]
  have hfiles : (Nodes.diffUpdate summary).get .modifiedFiles (x.state.get .modifiedFiles [])
      = summary.files := by
    simp [Nodes.diffUpdate, TypedDict.get]
  have hrefresh := refreshDiff_of_ok (w := { x.world with log := [] }) hws hdiff
  rw [worldAfter, result, hn]
  change Made _ _ (Nodes.securityPolicy ctx x.env x.state _).2
  rw [Nodes.securityPolicy, Prog.bind_of_ok hrefresh, hdecision, hfiles,
    Prog.bind_of_ok (NodeM.record_eq_ok (u := ()).mpr rfl)]
  refine Prog.Keeps.bind (stateRisk_makes x.state) (fun level => ?_) _
  refine (emit_makes x.env rfl).bind fun _ => Prog.Keeps.ite (fun _ => ?_) fun _ =>
    Prog.keeps_pure _
  exact (emit_makes x.env rfl).bind fun _ => Prog.keeps_pure _

/-- **`security_policy` evaluates the diff it collected**, and nothing else. -/
theorem evaluated_mem_effects_iff (hn : x.node = .securityPolicy) (hws : x.world.workspace ≠ none)
    {summary : DiffSummary} (hdiff : x.env.collectDiff = .ok summary) {files : List String}
    {decision : PolicyDecision} :
    Effect.evaluated files decision ∈ x.effects ctx ↔
      files = summary.files ∧ decision = ctx.policy.evaluate summary.files summary.diff
        (some (summary.insertions + summary.deletions)) true := by
  have hmade := securityPolicy_makes ctx hn hws hdiff
  constructor
  · intro hmem
    rcases List.mem_pair.mp (hmade.mem_log_of_isEmitted hmem (by simp)) with h | h
    · exact Effect.evaluated.inj h
    · cases h
  · rintro ⟨rfl, rfl⟩
    exact hmade.mem_log List.mem_cons_self

end Execution

/-- The change itself, as a policy would look at it. -/
def ChangeSet.policyInput (cs : ChangeSet) : PolicyInput where
  files := cs.truth.files
  added := addedLinesOf cs.truth.diff
  lines := cs.truth.insertions + cs.truth.deletions

/-- What is left of it in the output of the commands. -/
def GitOutput.policyInput (out : GitOutput) : PolicyInput where
  files := filesOf out.nameStatus
  added := addedLinesOf (String.ofList out.diff)
  lines := (countsOf out.numstat).1 + (countsOf out.numstat).2

/-- `security_policy` of a task whose worktree has these changes, when the commands go like this. -/
def gateExecution (s : AgentState) (w : World) (ws : Workspace) (env : NodeEnv) (cs : ChangeSet)
    (runs : DiffRuns) : Execution :=
  ⟨.securityPolicy, s, { w with workspace := some ws },
    { env with collectDiff := .ok (collectDiff (cs.output runs)) }⟩

/-- **The commit gate sees the whole change**: whatever the rules and the thresholds, the action of
the execution is at least as strong as the one on every changed path and the full diff. -/
def GateSees (ctx : WorkflowContext) (cs : ChangeSet) (x : Execution) : Prop :=
  ∀ rules thresholds files decision,
    Effect.evaluated files decision ∈
        x.effects { ctx with policy := ⟨rules, thresholds, ctx.policy.runtime⟩ } →
      (PolicyEngine.evaluate ⟨rules, thresholds, ctx.policy.runtime⟩ cs.truth.files cs.truth.diff
        (some (cs.truth.insertions + cs.truth.deletions)) true).action.strength
          ≤ decision.action.strength

section Gate

variable {ctx : WorkflowContext} {s : AgentState} {w : World} {ws : Workspace} {env : NodeEnv}
  {cs : ChangeSet} {runs : DiffRuns}

theorem evaluated_mem_gateExecution {files : List String} {decision : PolicyDecision} :
    Effect.evaluated files decision ∈ (gateExecution s w ws env cs runs).effects ctx ↔
      files = (collectDiff (cs.output runs)).files ∧
        decision = ctx.policy.evaluate (collectDiff (cs.output runs)).files
          (collectDiff (cs.output runs)).diff (some ((collectDiff (cs.output runs)).insertions
            + (collectDiff (cs.output runs)).deletions)) true :=
  Execution.evaluated_mem_effects_iff rfl (by simp [gateExecution]) rfl

/-- The action on a collected diff is that on what is left in the output. -/
theorem strength_collectDiff (engine : PolicyEngine) (out : GitOutput) :
    (engine.evaluate (collectDiff out).files (collectDiff out).diff
      (some ((collectDiff out).insertions + (collectDiff out).deletions)) true).action.strength
      = engine.strength out.policyInput :=
  engine.strength_evaluate _ _ _

theorem strength_truth (engine : PolicyEngine) (cs : ChangeSet) :
    (engine.evaluate cs.truth.files cs.truth.diff
      (some (cs.truth.insertions + cs.truth.deletions)) true).action.strength
      = engine.strength cs.policyInput :=
  engine.strength_evaluate _ _ _

theorem gateSees_iff_atLeastAsStrict :
    GateSees ctx cs (gateExecution s w ws env cs runs) ↔
      AtLeastAsStrict ctx.policy.runtime cs.policyInput (cs.output runs).policyInput := by
  constructor
  · intro h rules thresholds
    have hseen := h rules thresholds _ _ (evaluated_mem_gateExecution.mpr ⟨rfl, rfl⟩)
    rwa [strength_truth, strength_collectDiff] at hseen
  · intro h rules thresholds files decision hevaluated
    obtain ⟨rfl, rfl⟩ := evaluated_mem_gateExecution.mp hevaluated
    rw [strength_truth, strength_collectDiff]
    exact h rules thresholds

end Gate

/-- A runtime that searches for literal expressions, anchored or not. -/
def literalRuntime : TextRuntime where
  lower := fun t => t.map Char.toLower
  search := fun expression t =>
    if "\\A".toList.isPrefixOf expression.toList then expression = Text.anchored t
    else Text.contains expression.toList t

theorem anchors_literalRuntime : literalRuntime.Anchors := by
  intro t u
  have hprefix : "\\A".toList.isPrefixOf (Text.anchored t).toList = true := by
    simp [Text.anchored]
  simp only [literalRuntime, hprefix, if_true, decide_eq_true_eq, Text.anchored_injective.eq_iff]
  exact eq_comm

/-- Every command completed. -/
def completedRuns : DiffRuns := ⟨true, ⟨none, false⟩, ⟨none, false⟩, ⟨none, false⟩⟩

/-- One line of `src/Total.cs` is replaced. -/
def fixedTotal : ChangeSet where
  changes := [⟨.one .modified "src/Total.cs", some (1, 1),
    "--- a/src/Total.cs\n+++ b/src/Total.cs\n@@ -1 +1 @@\n-broken\n+fixed\n".toList⟩]
  indexed := []

/-- A private key is added under a name with an accent. -/
def quotedSecret : ChangeSet where
  changes := [⟨.one .added "clé.pem", some (1, 0),
    "--- /dev/null\n+++ \"b/cl\\303\\251.pem\"\n@@ -0,0 +1 @@\n+MIIEvQ\n".toList⟩]
  indexed := []

/-- **An intact diff shows the whole change.** -/
theorem gateSees_of_intact {ctx : WorkflowContext} {s : AgentState} {w : World} {ws : Workspace}
    {env : NodeEnv} {cs : ChangeSet} {runs : DiffRuns} (h : cs.Intact runs) :
    GateSees ctx cs (gateExecution s w ws env cs runs) := by
  intro rules thresholds files decision hevaluated
  obtain ⟨rfl, rfl⟩ := evaluated_mem_gateExecution.mp hevaluated
  rw [h.collectDiff_eq]

end AgentPlatform
