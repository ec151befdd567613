import AgentPlatform.Graph.Changes

/-!
# Graph/NodeSpecs — what each node says

Two readings of a completed execution.  `Node.writes` lists the keys a node's update can hold, so
any other key of the state survives it; and one lemma per node reads the keys the routing depends on
back to the effect they report.
-/

namespace AgentPlatform

/-- The keys `_refresh_diff` writes. -/
def diffKeys : List Key := [.gitDiff, .modifiedFiles, .linesAdded, .linesRemoved]

/-- **The keys a node's update can hold.** -/
def Node.writes : Node → List Key
  | .plan => [.plan, .planSummary, .acceptanceCriteria]
  | .repositoryAnalysis => [.relevantFiles, .repositoryContext]
  | .riskAssessment => [.riskLevel, .riskReasons, .approvalRequired, .policyAction, .haltReason,
      .policyFindings]
  | .implementation => [.implementationSummary, .testNotes, .workspacePath, .gitBranch] ++ diffKeys
  | .testGeneration => [.testPlanSummary, .testCommands, .testFiles] ++ diffKeys
  | .runTests => [.testResults, .testFailures, .testsPassed, .testsFailed, .testRunOk,
      .failureSignatures, .failureSignatureHistory] ++ diffKeys
  | .debugging => [.iteration, .debuggingAnalysis, .previousFailures, .fixApplied, .confidence] ++
      diffKeys
  | .securityPolicy => [.policyAction, .policyFindings, .riskLevel,
    .approvalRequired, .haltReason] ++
      diffKeys
  | .gitCommit => [.haltReason, .policyAction, .commitSha, .gitBranch]
  | .ciValidation => [.ciStatus, .ciLogs, .ciRunId]
  | .ciDebugging => [.ciIteration, .ciAnalysis, .ciRequiresHuman] ++ diffKeys
  | .createPr => [.pullRequestUrl]
  | .humanReview => [.finalSummary, .approvalRequired, .outcome]
  | .halt => [.outcome, .haltReason, .finalSummary, .approvalRequired]

open Prog

theorem returns_of {ks : List Key} {l : List (Sigma Key.Ty)} (h : l.map Sigma.fst ⊆ ks) :
    Returns (TypedDict.Within ks) (pure (.of l) : NodeM AgentState) :=
  returns_pure ((TypedDict.within_of l).mono h)

theorem refreshDiff_returns (env : NodeEnv) :
    Returns (TypedDict.Within diffKeys) (Nodes.refreshDiff env) := by
  refine returns_bind fun workspace => ?_
  rcases workspace with _ | ws
  · exact returns_pure (TypedDict.within_empty _)
  · refine returns_bind fun _ => returns_bind fun _ => returns_bind fun _ => ?_
    exact returns_of (List.Subset.refl _)

/-- The end of a body that merges the diff into its own keys. -/
theorem refreshDiff_bind_returns {ks : List Key} (env : NodeEnv) (hd : diffKeys ⊆ ks)
    {f : AgentState → NodeM AgentState}
    (hf : ∀ d, TypedDict.Within ks d → Returns (TypedDict.Within ks) (f d)) :
    Returns (TypedDict.Within ks) (Nodes.refreshDiff env >>= f) :=
  (refreshDiff_returns env).bind fun d h => hf d (h.mono hd)

theorem assess_within (ctx : WorkflowContext) (s : AgentState) (reply : RiskReply) :
    TypedDict.Within Node.riskAssessment.writes (Nodes.assess ctx s reply).2 := by
  rw [Nodes.assess]
  dsimp only
  split
  · refine TypedDict.Within.merge ?_ ?_ <;>
      exact (TypedDict.within_of _).mono (by simp [Node.writes])
  · exact (TypedDict.within_of _).mono (by simp [Node.writes])

/-- **An update keeps to the keys of its node.** -/
theorem body_returns (ctx : WorkflowContext) (env : NodeEnv) (n : Node) (s : AgentState) :
    Returns (TypedDict.Within n.writes) (Nodes.body ctx env n s) := by
  cases n with
  | plan => exact returns_bind fun _ => returns_bind fun _ => returns_of (by simp [Node.writes])
  | repositoryAnalysis =>
    exact returns_bind fun _ => returns_bind fun _ => returns_of (by simp [Node.writes])
  | riskAssessment =>
    refine returns_bind fun reply => returns_bind fun _ => returns_bind fun _ => ?_
    exact returns_pure (assess_within ctx s reply)
  | implementation =>
    refine returns_bind fun ws => returns_bind fun reply => ?_
    refine refreshDiff_bind_returns env (by decide) fun d hd => returns_pure ?_
    refine ((TypedDict.Within.merge ?_ hd).merge ?_) <;>
      exact (TypedDict.within_of _).mono (by simp [Node.writes, diffKeys])
  | testGeneration =>
    refine returns_bind fun reply => ?_
    refine refreshDiff_bind_returns env (by decide) fun d hd => returns_pure ?_
    exact ((TypedDict.within_of _).mono (by simp [Node.writes])).merge hd
  | runTests =>
    refine returns_bind fun _ => returns_bind fun _ => returns_bind fun tree => ?_
    refine Returns.ite (fun _ => ?_) fun _ => ?_
    · exact returns_bind fun _ => returns_of (by simp [Node.writes])
    refine returns_bind fun outcome => ?_
    refine refreshDiff_bind_returns env (by decide) fun d hd => ?_
    refine returns_bind fun _ => returns_pure ?_
    exact ((TypedDict.within_of _).mono (by simp [Node.writes])).merge hd
  | debugging =>
    refine returns_bind fun _ => returns_bind fun _ => returns_bind fun reply => ?_
    refine returns_bind fun previous => ?_
    refine refreshDiff_bind_returns env (by decide) fun d hd => returns_pure ?_
    exact ((TypedDict.within_of _).mono (by simp [Node.writes])).merge hd
  | securityPolicy =>
    refine refreshDiff_bind_returns env (by decide) fun d hd => ?_
    refine returns_bind fun _ => returns_bind fun level => returns_bind fun _ => ?_
    have hupdate : TypedDict.Within Node.securityPolicy.writes (d.merge (Nodes.policyUpdate ctx s d
        (maxRisk [level, (Nodes.policyDecision ctx s d).risk]))) :=
      hd.merge ((TypedDict.within_of _).mono (by simp [Node.writes]))
    refine Returns.ite (fun _ => returns_bind fun _ => ?_) fun _ => returns_pure hupdate
    exact returns_pure (hupdate.merge ((TypedDict.within_of _).mono (by simp [Node.writes])))
  | gitCommit =>
    refine returns_bind fun ws => ?_
    refine Returns.ite (fun _ => ?_) fun _ => ?_
    · exact returns_of (by simp [Node.writes])
    refine returns_bind ?_
    rintro (failure | sha)
    · exact returns_of (by simp [Node.writes])
    · exact returns_bind fun _ => returns_of (by simp [Node.writes])
  | ciValidation =>
    refine returns_bind fun _ => returns_bind fun _ => returns_bind fun _ =>
      returns_bind fun run => ?_
    refine returns_bind fun logs => returns_bind fun _ => returns_bind fun _ => ?_
    exact returns_bind fun _ => returns_of (by simp [Node.writes])
  | ciDebugging =>
    refine returns_bind fun reply => ?_
    refine refreshDiff_bind_returns env (by decide) fun d hd => returns_pure ?_
    exact ((TypedDict.within_of _).mono (by simp [Node.writes])).merge hd
  | createPr =>
    refine returns_bind fun _ => returns_bind fun url => ?_
    exact returns_bind fun _ => returns_of (by simp [Node.writes])
  | humanReview =>
    exact returns_bind fun _ => returns_bind fun _ => returns_of (by simp [Node.writes])
  | halt => exact returns_bind fun _ => returns_of (by simp [Node.writes])

namespace Execution

variable {ctx : WorkflowContext} {x : Execution}

/-! ## What survives an execution -/

theorem within_of_ok {u : AgentState} (h : x.outcome ctx = .ok u) :
    TypedDict.Within x.node.writes u :=
  body_returns ctx x.env x.node x.state _ _ _ (result_of_ok h)

/-- **A key outside the node's own survives**, whether its body returned or raised. -/
theorem get?_stateAfter {k : Key} (hk : k ∉ x.node.writes)
    (herr : k ∉ [Key.haltReason, .error, .policyAction]) :
    (x.stateAfter ctx).get? k = x.state.get? k := by
  have hupdate : (x.update ctx).get? k = none := by
    rw [update]
    split
    · exact within_of_ok ‹_› k hk
    · simp only [List.mem_cons, List.not_mem_nil, or_false, not_or] at herr
      exact get?_errorUpdate herr.1 herr.2.1 herr.2.2
  rw [stateAfter, TypedDict.get?_merge, hupdate]
  rfl

theorem get_stateAfter {k : Key} (hk : k ∉ x.node.writes)
    (herr : k ∉ [Key.haltReason, .error, .policyAction]) (v : Key.Ty k) :
    (x.stateAfter ctx).get k v = x.state.get k v := by
  rw [TypedDict.get, TypedDict.get, get?_stateAfter hk herr]

/-- A failed node leaves every key but three as it found it. -/
theorem get?_stateAfter_of_raised {k : Key} {e : PyError} (h : x.raised ctx = some e)
    (herr : k ∉ [Key.haltReason, .error, .policyAction]) :
    (x.stateAfter ctx).get? k = x.state.get? k := by
  simp only [List.mem_cons, List.not_mem_nil, or_false, not_or] at herr
  rw [stateAfter, TypedDict.get?_merge, update_of_raised h,
    get?_errorUpdate herr.1 herr.2.1 herr.2.2]
  rfl

theorem get_stateAfter_of_raised {k : Key} {e : PyError} (h : x.raised ctx = some e)
    (herr : k ∉ [Key.haltReason, .error, .policyAction]) (v : Key.Ty k) :
    (x.stateAfter ctx).get k v = x.state.get k v := by
  rw [TypedDict.get, TypedDict.get, get?_stateAfter_of_raised h herr]

/-- **A hard boundary puts the task under a block.** -/
theorem blocked_of_boundary {e : PyError} (h : x.raised ctx = some e) (hb : e.isBoundary = true) :
    (x.stateAfter ctx).get? .policyAction = some "BLOCK" := by
  rw [stateAfter, TypedDict.get?_merge, update_of_raised h, get?_policyAction_errorUpdate hb]
  rfl

/-- A failed node does not lift a block. -/
theorem blocked_of_raised {e : PyError} (h : x.raised ctx = some e)
    (hs : x.state.get? .policyAction = some "BLOCK") :
    (x.stateAfter ctx).get? .policyAction = some "BLOCK" := by
  rcases hb : e.isBoundary with _ | _
  · rw [stateAfter, TypedDict.get?_merge, update_of_raised h,
      get?_policyAction_errorUpdate_of_not hb, hs]
    rfl
  · exact blocked_of_boundary h hb

/-- …and neither does a node that does not decide on it. -/
theorem blocked_stateAfter (hk : Key.policyAction ∉ x.node.writes)
    (hs : x.state.get? .policyAction = some "BLOCK") :
    (x.stateAfter ctx).get? .policyAction = some "BLOCK" := by
  rcases h : x.raised ctx with _ | e
  · obtain ⟨u, hu⟩ := completed_iff.mp h
    rw [stateAfter, TypedDict.get?_merge, update_of_ok hu, within_of_ok hu _ hk, hs]
    rfl
  · exact blocked_of_raised h hs

end Execution

/-! ## What a completed execution did -/

namespace NodeM

variable {env : NodeEnv} {event : EventType} {effect : Effect} {w w' : World} {u : Unit}

@[simp] theorem record_eq_ok :
    record effect w = (.ok u, w') ↔ { w with log := effect :: w.log } = w' := modify_eq_ok

@[simp] theorem emit_eq_ok : emit env event w = (.ok u, w') ↔
    env.emit event = none ∧ { w with log := .emitted event :: w.log } = w' := by
  simp [emit, bind_eq_ok, and_comm]

@[simp] theorem getWorkspace_eq_ok {ctx : WorkflowContext} {ws : Workspace} :
    getWorkspace ctx w = (.ok ws, w') ↔ w.workspace = some ws ∧ w = w' := by
  rw [getWorkspace]
  split <;> simp_all

end NodeM

/-- **A refreshed diff is the diff of the worktree as it stands.** -/
theorem refreshDiff_eq_ok {env : NodeEnv} {w w' : World} {d : AgentState}
    (h : Nodes.refreshDiff env w = (.ok d, w')) :
    (w.workspace = none ∧ d = .empty ∧ w' = w) ∨
      ∃ summary, w.workspace ≠ none ∧ env.collectDiff = .ok summary ∧ d = Nodes.diffUpdate summary ∧
        w' = { w with log := .collected w.tree summary :: w.log } := by
  obtain ⟨workspace, v, hread, h⟩ := bind_eq_ok.mp h
  obtain ⟨rfl, rfl⟩ := read_eq_ok.mp hread
  rcases hws : w.workspace with _ | ws
  · rw [hws] at h
    obtain ⟨rfl, rfl⟩ := pure_eq_ok.mp h
    exact .inl ⟨rfl, rfl, rfl⟩
  · rw [hws] at h
    simp only [bind_eq_ok, lift_eq_ok, read_eq_ok, NodeM.record_eq_ok, pure_eq_ok] at h
    obtain ⟨summary, _, ⟨hdiff, rfl⟩, tree, _, ⟨rfl, rfl⟩, _, _, rfl, rfl, rfl⟩ := h
    refine .inr ⟨summary, by simp, hdiff, rfl, ?_⟩
    rw [hws]

/-- A level the state carries. -/
theorem stateRisk_eq_ok {s : AgentState} {w w' : World} {level : RiskLevel}
    (h : Nodes.stateRisk s w = (.ok level, w')) :
    RiskLevel.ofValue? (s.get .riskLevel "LOW") = some level ∧ w = w' := by
  rw [Nodes.stateRisk] at h
  rcases hr : RiskLevel.ofValue? (s.get .riskLevel "LOW") with _ | level'
  · rw [hr] at h
    exact absurd h (by simp)
  · rw [hr] at h
    obtain ⟨rfl, rfl⟩ := pure_eq_ok.mp h
    exact ⟨rfl, rfl⟩

section Bodies

variable {ctx : WorkflowContext} {env : NodeEnv} {s u : AgentState} {w w' : World}

/-- A completed `risk_assessment`: the decision it took on the candidate files. -/
theorem riskAssessment_eq_ok (h : Nodes.riskAssessment ctx env s w = (.ok u, w')) :
    ∃ reply : RiskReply,
      let decision := ctx.policy.evaluate (s.get .relevantFiles []) "" none false
      u.get? .policyAction = some decision.action.value ∧
        u.get? .riskLevel = some (maxRisk [Nodes.modelRisk reply, decision.risk]).value := by
  simp only [Nodes.riskAssessment, bind_eq_ok, pure_eq_ok] at h
  obtain ⟨reply, _, -, _, _, -, _, _, -, rfl, -⟩ := h
  refine ⟨reply, ?_⟩
  rw [Nodes.assess]
  dsimp only
  split <;> simp

/-- A completed `security_policy`: the diff it collected, its decision on it, and the level it
found. -/
theorem securityPolicy_eq_ok (h : Nodes.securityPolicy ctx env s w = (.ok u, w')) :
    ∃ d v, Nodes.refreshDiff env w = (.ok d, v) ∧ v.log ⊆ w'.log ∧
      u.get? .policyAction = some (Nodes.policyDecision ctx s d).action.value ∧
      u.get? .modifiedFiles = d.get? .modifiedFiles ∧
      ∃ level, RiskLevel.ofValue? (s.get .riskLevel "LOW") = some level ∧
        u.get? .riskLevel = some (maxRisk [level, (Nodes.policyDecision ctx s d).risk]).value := by
  obtain ⟨d, v, hd, h⟩ := bind_eq_ok.mp h
  obtain ⟨_, v₁, hrecord, h⟩ := bind_eq_ok.mp h
  obtain rfl := NodeM.record_eq_ok.mp hrecord
  obtain ⟨level, v₂, hlevel, h⟩ := bind_eq_ok.mp h
  obtain ⟨hfound, rfl⟩ := stateRisk_eq_ok hlevel
  obtain ⟨_, v₃, hemit, h⟩ := bind_eq_ok.mp h
  obtain ⟨-, rfl⟩ := NodeM.emit_eq_ok.mp hemit
  refine ⟨d, v, hd, ?_⟩
  dsimp only at h
  split at h
  · obtain ⟨_, v₄, hemit, h⟩ := bind_eq_ok.mp h
    obtain ⟨-, rfl⟩ := NodeM.emit_eq_ok.mp hemit
    obtain ⟨rfl, rfl⟩ := pure_eq_ok.mp h
    exact ⟨by intro e he; simp [he], by
      simp [Nodes.policyUpdate], by
        simp [Nodes.policyUpdate], level, hfound, by simp [Nodes.policyUpdate]⟩
  · obtain ⟨rfl, rfl⟩ := pure_eq_ok.mp h
    exact ⟨by intro e he; simp [he], by
      simp [Nodes.policyUpdate], by
        simp [Nodes.policyUpdate], level, hfound, by simp [Nodes.policyUpdate]⟩

/-- A completed `run_tests` on a `dotnet` worktree: the suite it ran, its verdict, and the
signatures it notes. -/
theorem runTests_outcome (h : Nodes.runTests ctx env s w = (.ok u, w'))
    (hkind : Nodes.detectProjectKind w.tree = "dotnet") :
    ∃ outcome, env.suite = .ok outcome ∧ Effect.ranSuite outcome ∈ w'.log ∧
      u.get? .testRunOk = some outcome.ok ∧ u.get? .failureSignatureHistory
        = some (s.get .failureSignatureHistory [] ++ [ctx.signaturesFor outcome.failures]) := by
  obtain ⟨_, v, hws, h⟩ := bind_eq_ok.mp h
  obtain ⟨-, rfl⟩ := NodeM.getWorkspace_eq_ok.mp hws
  obtain ⟨_, v₁, hemit, h⟩ := bind_eq_ok.mp h
  obtain ⟨-, rfl⟩ := NodeM.emit_eq_ok.mp hemit
  obtain ⟨tree, v₂, htree, h⟩ := bind_eq_ok.mp h
  obtain ⟨rfl, rfl⟩ := read_eq_ok.mp htree
  rw [if_neg (by simpa using hkind)] at h
  obtain ⟨outcome, v₃, hsuite, h⟩ := bind_eq_ok.mp h
  obtain ⟨d, v₄, hd, h⟩ := bind_eq_ok.mp h
  obtain ⟨_, v₅, hemit, h⟩ := bind_eq_ok.mp h
  obtain ⟨-, rfl⟩ := NodeM.emit_eq_ok.mp hemit
  obtain ⟨rfl, rfl⟩ := pure_eq_ok.mp h
  have hran : env.suite = .ok outcome ∧ Effect.ranSuite outcome ∈ v₃.log := by
    simp only [Nodes.runSuite, bind_eq_ok, modify_eq_ok, lift_eq_ok, NodeM.record_eq_ok,
      pure_eq_ok] at hsuite
    obtain ⟨_, _, rfl, _, _, ⟨hok, rfl⟩, _, _, rfl, rfl, rfl⟩ := hsuite
    exact ⟨hok, List.mem_cons_self⟩
  have hdiff := refreshDiff_returns env _ _ _ hd
  refine ⟨outcome, hran.1, ?_, ?_, ?_⟩
  · have hkept := (refreshDiff_makes env fun _ _ => rfl : Keeps (Made fun _ => true) _).of_eq hd
    exact List.mem_cons_of_mem _ (hkept.mem_log hran.2)
  · simp [hdiff .testRunOk (by decide)]
  · simp [hdiff .failureSignatureHistory (by decide)]

theorem runTests_eq_ok (h : Nodes.runTests ctx env s w = (.ok u, w'))
    (hkind : Nodes.detectProjectKind w.tree = "dotnet") :
    ∃ outcome, Effect.ranSuite outcome ∈ w'.log ∧ u.get? .testRunOk = some outcome.ok := by
  obtain ⟨outcome, -, hran, hok, -⟩ := runTests_outcome h hkind
  exact ⟨outcome, hran, hok⟩

/-- A completed `debugging` has counted itself. -/
theorem debugging_eq_ok (h : Nodes.debugging env s w = (.ok u, w')) :
    u.get? .iteration = some (s.get .iteration 0 + 1) := by
  simp only [Nodes.debugging, bind_eq_ok, pure_eq_ok] at h
  obtain ⟨_, _, -, _, _, -, reply, _, -, _, _, -, d, _, hd, rfl, -⟩ := h
  simp [refreshDiff_returns env _ _ _ hd .iteration (by decide)]

/-- A completed `ci_debugging` has counted itself. -/
theorem ciDebugging_eq_ok (h : Nodes.ciDebugging env s w = (.ok u, w')) :
    u.get? .ciIteration = some (s.get .ciIteration 0 + 1) := by
  simp only [Nodes.ciDebugging, bind_eq_ok, pure_eq_ok] at h
  obtain ⟨reply, _, -, d, _, hd, rfl, -⟩ := h
  simp [refreshDiff_returns env _ _ _ hd .ciIteration (by decide)]

/-- A completed `ci_validation`: the commit it was triggered for, and the verdict it reports. -/
theorem ciValidation_eq_ok (h : Nodes.ciValidation ctx env s w = (.ok u, w')) :
    ∃ branch status, Effect.triggeredCi branch (s.get? .commitSha) ∈ w'.log ∧
      Effect.ciVerdict status ∈ w'.log ∧ u.get? .ciStatus = some status.value := by
  obtain ⟨ws, v, -, h⟩ := bind_eq_ok.mp h
  obtain ⟨_, v₁, -, h⟩ := bind_eq_ok.mp h
  obtain ⟨_, v₂, -, h⟩ := bind_eq_ok.mp h
  obtain ⟨run, v₃, hrun, h⟩ := bind_eq_ok.mp h
  have htriggered : Effect.triggeredCi (s.get .gitBranch ws.branch) (s.get? .commitSha)
      ∈ v₃.log := by
    obtain ⟨_, v₄, hrecord, hrun⟩ := bind_eq_ok.mp hrun
    obtain rfl := NodeM.record_eq_ok.mp hrecord
    obtain ⟨run', v₅, hlift, hrun⟩ := bind_eq_ok.mp hrun
    obtain ⟨-, rfl⟩ := lift_eq_ok.mp hlift
    split at hrun
    · obtain ⟨-, rfl⟩ := lift_eq_ok.mp hrun
      exact List.mem_cons_self
    · obtain ⟨-, rfl⟩ := pure_eq_ok.mp hrun
      exact List.mem_cons_self
  obtain ⟨logs, v₄, hlogs, h⟩ := bind_eq_ok.mp h
  have hkept := (ciLogs_makes env run : Keeps (Made fun _ => true) _).of_eq hlogs
  simp only [bind_eq_ok, call_eq_ok, NodeM.emit_eq_ok, NodeM.record_eq_ok, pure_eq_ok] at h
  obtain ⟨_, _, ⟨-, rfl⟩, _, _, ⟨-, rfl⟩, _, _, rfl, rfl, rfl⟩ := h
  refine ⟨s.get .gitBranch ws.branch, run.status, ?_, List.mem_cons_self, by simp⟩
  exact List.mem_cons_of_mem _ (List.mem_cons_of_mem _ (hkept.mem_log htriggered))

/-- A completed `create_pr`: the pull request it opened. -/
theorem createPr_eq_ok (h : Nodes.createPr ctx env s w = (.ok u, w')) :
    ∃ url, Effect.openedPullRequest url ∈ w'.log ∧ u.get? .pullRequestUrl = some url := by
  obtain ⟨ws, v, -, h⟩ := bind_eq_ok.mp h
  obtain ⟨url, v₁, hopen, h⟩ := bind_eq_ok.mp h
  obtain ⟨_, v₂, hemit, h⟩ := bind_eq_ok.mp h
  obtain ⟨-, rfl⟩ := NodeM.emit_eq_ok.mp hemit
  obtain ⟨rfl, rfl⟩ := pure_eq_ok.mp h
  have hlogged : Effect.openedPullRequest url ∈ v₁.log := by
    simp only [Nodes.openPullRequest, bind_eq_ok, NodeM.record_eq_ok, pure_eq_ok] at hopen
    obtain ⟨_, _, -, _, _, -, _, _, -, _, _, -, _, _, -, _, _, rfl, rfl, rfl⟩ := hopen
    exact List.mem_cons_self
  exact ⟨url, List.mem_cons_of_mem _ hlogged, by simp⟩

/-- A completed `human_review` leaves a pending approval and calls the task ready. -/
theorem humanReview_eq_ok (h : Nodes.humanReview env s w = (.ok u, w')) :
    w'.pendingApproval = true ∧ u.get? .outcome = some "READY_FOR_REVIEW" := by
  simp only [Nodes.humanReview, Nodes.requestApproval, bind_eq_ok, call_eq_ok, modify_eq_ok,
    NodeM.emit_eq_ok, pure_eq_ok] at h
  obtain ⟨_, _, ⟨_, _, ⟨-, rfl⟩, rfl⟩, _, _, ⟨-, rfl⟩, rfl, rfl⟩ := h
  exact ⟨rfl, by simp⟩

/-- A completed `halt` hands the task over. -/
theorem halt_eq_ok (h : Nodes.halt env s w = (.ok u, w')) :
    u.get? .outcome = some "HUMAN_REVIEW_REQUIRED" := by
  simp only [Nodes.halt, bind_eq_ok, pure_eq_ok] at h
  obtain ⟨_, _, -, rfl, -⟩ := h
  simp

/-- A commit that was made is the head of the branch, and its sha is what is printed, if
anything. -/
theorem commitAll_eq_ok {sha : String} (h : Nodes.commitAll env w = (.ok sha, w'))
    (hsha : sha ≠ "") :
    w'.head? = some sha ∧ ∃ files, Effect.committed sha files ∈ w'.log := by
  simp only [Nodes.commitAll, bind_eq_ok, lift_eq_ok, read_eq_ok, pure_eq_ok] at h
  obtain ⟨_, _, ⟨-, rfl⟩, staged, _, ⟨-, rfl⟩, _, v, -, _, v', hcommit, printed, _,
    ⟨-, rfl⟩, head, _, ⟨rfl, rfl⟩, hprinted, rfl⟩ := h
  rcases hc : env.commit with new | ⟨moved, output⟩ | e
  · simp only [Nodes.gitCommitCommand, hc, Prod.mk.injEq, true_and] at hcommit
    subst hcommit
    rcases printed with _ | _
    · exact absurd hprinted.symm hsha
    · obtain rfl : new = sha := by simpa [World.head?] using hprinted
      exact ⟨rfl, v.tree, List.mem_cons_self⟩
  · simp [Nodes.gitCommitCommand, hc] at hcommit
  · simp [Nodes.gitCommitCommand, hc] at hcommit

/-- The commands of `commit_all`, where none of them fails. -/
theorem commitAll_eq (hadd : env.gitAdd = .ok ()) (hstaged : env.staged = .ok true)
    (hcommit : env.commit.succeeds = true) (hprinted : env.revParse.isOk = true) (w : World) :
    ∃ sha w', Nodes.commitAll env w = (.ok sha, w') := by
  rcases hc : env.commit with new | ⟨moved, output⟩ | e
  · rcases hp : env.revParse with e | printed
    · simp [hp, Except.isOk, Except.toBool] at hprinted
    · exact ⟨_, _, by
        simp only [Nodes.commitAll, Prog.bind_apply, Prog.lift, hadd, hstaged, Prog.whenever,
          Bool.true_eq_false, if_false, Prog.pure_apply, Nodes.gitCommitCommand, hc, hp, Prog.read]
        rfl⟩
  · simp [hc, CommitCommand.succeeds] at hcommit
  · simp [hc, CommitCommand.succeeds] at hcommit

/-- …and where `git commit` moves nothing or is not reached. -/
theorem commitAll_eq_error
    (h : ¬ (env.gitAdd = .ok () ∧ env.staged = .ok true ∧ env.commit.moves = true)) (w : World) :
    ∃ e, Nodes.commitAll env w = (.error e, w) := by
  rcases hadd : env.gitAdd with e | _
  · exact ⟨e, by simp [Nodes.commitAll, Prog.bind_apply, Prog.lift, hadd]⟩
  rcases hstaged : env.staged with e | staged
  · exact ⟨e, by simp [Nodes.commitAll, Prog.bind_apply, Prog.lift, hadd, hstaged]⟩
  rcases staged with _ | _
  · exact ⟨_, by simp [Nodes.commitAll, Prog.bind_apply, Prog.lift, hadd, hstaged, Prog.whenever,
      Prog.raise]; rfl⟩
  have hmoves : env.commit.moves = false := by simpa [hadd, hstaged] using h
  rcases hc : env.commit with new | ⟨_ | sha, output⟩ | e
  · simp [hc, CommitCommand.moves] at hmoves
  · exact ⟨_, by simp [Nodes.commitAll, Prog.bind_apply, Prog.lift, hadd, hstaged, Prog.whenever,
      Prog.pure_apply, Nodes.gitCommitCommand, hc]; rfl⟩
  · simp [hc, CommitCommand.moves] at hmoves
  · exact ⟨_, by simp [Nodes.commitAll, Prog.bind_apply, Prog.lift, hadd, hstaged, Prog.whenever,
      Prog.pure_apply, Nodes.gitCommitCommand, hc]; rfl⟩

/-- What an empty text raises is no platform error. -/
theorem firstLine_eq_error {text : String} {e : PyError}
    (h : NodeM.firstLine text w = (.error e, w')) : e.isPlatform = false := by
  rcases hlines : Text.splitlines text.toList with _ | ⟨line, lines⟩
  · simp only [NodeM.firstLine, hlines, Prog.raise, Prod.mk.injEq, Except.error.injEq] at h
    rw [← h.1]
    rfl
  · simp [NodeM.firstLine, hlines, Prog.pure_apply] at h

/-- A completed `git_commit` whose commands cannot fail has recorded a commit. -/
theorem gitCommit_records (h : Nodes.gitCommit ctx env s w = (.ok u, w'))
    (hfiles : s.get .modifiedFiles [] ≠ [])
    (hall : ∀ v, ∃ sha v', Nodes.commitAll env v = (.ok sha, v')) :
    ∃ sha, u.get? .commitSha = some sha := by
  obtain ⟨ws, v, -, h⟩ := bind_eq_ok.mp h
  rw [if_neg hfiles] at h
  obtain ⟨result, v₁, htry, h⟩ := bind_eq_ok.mp h
  rcases result with failure | sha
  · rcases catching_eq_ok.mp htry with hchanges | ⟨e, t, hraised, hhandler⟩
    · obtain ⟨_, _, -, hok⟩ := bind_eq_ok.mp hchanges
      exact absurd hok (by simp)
    · rw [Nodes.commitChanges, Nodes.strippedFirstLine, Prog.bind_apply, Prog.bind_apply] at hraised
      rcases hline : NodeM.firstLine (String.ofList (Text.strip (Nodes.commitSubject s).toList)) v
        with ⟨e' | line, v'⟩
      · rw [hline] at hraised
        obtain ⟨rfl, rfl⟩ : e' = e ∧ v' = t := by simpa using hraised
        rw [firstLine_eq_error hline] at hhandler
        exact absurd hhandler (by simp)
      · obtain ⟨sha, v'', hsha⟩ := hall v'
        rw [hline] at hraised
        simp [hsha, Prog.pure_apply] at hraised
  · obtain ⟨_, v₂, -, h⟩ := bind_eq_ok.mp h
    obtain ⟨rfl, -⟩ := pure_eq_ok.mp h
    exact ⟨sha, by simp⟩

/-- **What `git_commit` records is the commit it made**, at the head of the branch. -/
theorem gitCommit_eq_ok (h : Nodes.gitCommit ctx env s w = (.ok u, w')) {sha : String}
    (hu : u.get? .commitSha = some sha) (hsha : sha ≠ "") :
    w'.head? = some sha ∧ ∃ files, Effect.committed sha files ∈ w'.log := by
  obtain ⟨ws, v, -, h⟩ := bind_eq_ok.mp h
  split at h
  · obtain ⟨rfl, -⟩ := pure_eq_ok.mp h
    simp at hu
  obtain ⟨result, v₁, htry, h⟩ := bind_eq_ok.mp h
  rcases result with failure | sha'
  · obtain ⟨rfl, -⟩ := pure_eq_ok.mp h
    simp at hu
  obtain ⟨_, v₂, hemit, h⟩ := bind_eq_ok.mp h
  obtain ⟨-, rfl⟩ := NodeM.emit_eq_ok.mp hemit
  obtain ⟨rfl, rfl⟩ := pure_eq_ok.mp h
  obtain rfl : sha' = sha := by simpa using hu
  have hcommit : ∃ v', Nodes.commitAll env v' = (.ok sha', v₁) := by
    rcases catching_eq_ok.mp htry with hchanges | ⟨e, t, -, hhandler⟩
    · simp only [Nodes.commitChanges, bind_eq_ok, pure_eq_ok] at hchanges
      obtain ⟨_, _, ⟨_, v', -, hall⟩, hok, rfl⟩ := hchanges
      obtain rfl := Except.ok.inj hok
      exact ⟨v', hall⟩
    · split at hhandler <;> simp at hhandler
  obtain ⟨v', hall⟩ := hcommit
  obtain ⟨hhead, files, hmem⟩ := commitAll_eq_ok hall hsha
  exact ⟨hhead, files, List.mem_cons_of_mem _ hmem⟩

end Bodies

namespace Execution

variable {ctx : WorkflowContext} {x : Execution} {u : AgentState}

/-- The decision of a completed `security_policy`, on the diff it collected from the worktree. -/
theorem securityPolicy_of_ok (hn : x.node = .securityPolicy) (h : x.outcome ctx = .ok u)
    (hws : x.world.workspace ≠ none) :
    ∃ summary, Effect.collected x.world.tree summary ∈ x.effects ctx ∧
      u.get? .policyAction = some (ctx.policy.evaluate summary.files summary.diff
        (some (summary.insertions + summary.deletions)) true).action.value := by
  have hbody := result_of_ok h
  rw [hn] at hbody
  obtain ⟨d, v, hd, hlog, haction, -⟩ := securityPolicy_eq_ok hbody
  rcases refreshDiff_eq_ok hd with ⟨hnone, -, -⟩ | ⟨summary, -, -, rfl, rfl⟩
  · exact absurd hnone hws
  · exact ⟨summary, hlog List.mem_cons_self, by simpa [Nodes.policyDecision, Nodes.diffUpdate,
      TypedDict.get] using haction⟩

/-! ### What `git_commit` is given -/

/-- `git_commit` gets as far as `git commit`: there are files to commit, and something is staged. -/
def Stages (x : Execution) : Prop :=
  x.state.get .modifiedFiles [] ≠ [] ∧ x.env.gitAdd = .ok () ∧ x.env.staged = .ok true

/-- **`git_commit` commits**: it completes, and each of its commands succeeds. -/
def Commits (ctx : WorkflowContext) (x : Execution) : Prop :=
  x.Completed ctx ∧ x.Stages ∧ x.env.commit.succeeds = true ∧ x.env.revParse.isOk = true

instance : DecidablePred Stages := fun _ => inferInstanceAs (Decidable (_ ∧ _))

instance (ctx : WorkflowContext) : DecidablePred (Commits ctx) :=
  fun _ => inferInstanceAs (Decidable (_ ∧ _))

/-- A `git_commit` that commits records what it committed. -/
theorem Commits.records (hn : x.node = .gitCommit) (h : x.Commits ctx) :
    ∃ sha, (x.update ctx).get? .commitSha = some sha := by
  obtain ⟨hdone, ⟨hfiles, hadd, hstaged⟩, hcommit, hprinted⟩ := h
  obtain ⟨u, hu⟩ := completed_iff.mp hdone
  have hbody := result_of_ok hu
  rw [hn] at hbody
  rw [update_of_ok hu]
  exact gitCommit_records hbody hfiles (commitAll_eq hadd hstaged hcommit hprinted)

/-- A `git_commit` that does not move the branch only emits. -/
theorem makes_of_not_moves (hn : x.node = .gitCommit)
    (h : ¬ (x.Stages ∧ x.env.commit.moves = true)) :
    Made Change.isEmitted { x.world with log := [] } (x.worldAfter ctx) := by
  have hkeeps : Prog.Keeps (Made Change.isEmitted) (Nodes.gitCommit ctx x.env x.state) := by
    refine gitCommit_makes ctx x.env x.state (fun hfiles w => ?_) rfl
    obtain ⟨e, he⟩ := commitAll_eq_error (fun hmoves =>
      h ⟨⟨hfiles, hmoves.1, hmoves.2.1⟩, hmoves.2.2⟩) w
    rw [he]
    exact refl w
  rw [worldAfter, result, hn]
  exact hkeeps { x.world with log := [] }

/-- **A branch `git commit` does not move stays where it is.** -/
theorem commits_of_not_moves (hn : x.node = .gitCommit)
    (h : ¬ (x.Stages ∧ x.env.commit.moves = true)) :
    (x.worldAfter ctx).commits = x.world.commits := by
  refine (makes_of_not_moves hn h).eq_of (f := World.commits) fun c w hc => ?_
  cases c <;> first | rfl | cases hc

end Execution

end AgentPlatform
