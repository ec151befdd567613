import AgentPlatform.Graph.NodeSpecs
import AgentPlatform.Graph.Workflow

/-!
# Graph/Boundary — what becomes of a run that hit a hard boundary

A policy or workspace violation is recorded as `policy_action = BLOCK` and the run goes on along its
edges.  The block is what keeps it from publishing: it sends the run to `halt` at the next policy
gate, unless a later decision overwrites it or the run is already past the gate.

`Sealed` is the invariant of a run whose block holds; `boundaryIsFatal_of_held` derives from it that
nothing is published any more and that the task is handed to a human.
-/

namespace AgentPlatform

/-- The body hit a hard boundary. -/
def Execution.hitBoundary (ctx : WorkflowContext) (x : Execution) : Bool :=
  (x.raised ctx).any PyError.isBoundary

theorem Execution.exists_of_hitBoundary {ctx : WorkflowContext} {x : Execution}
    (h : x.hitBoundary ctx = true) : ∃ e, x.raised ctx = some e ∧ e.isBoundary = true := by
  rcases hr : x.raised ctx with _ | e
  · simp [hitBoundary, hr] at h
  · exact ⟨e, rfl, by simpa [hitBoundary, hr] using h⟩

/-- **A hard boundary is fatal**: no later step of the run publishes, and the task ends with a
human. -/
def BoundaryIsFatal (ctx : WorkflowContext) (c : Config) : Prop :=
  ∀ later b earlier, c.trace = later ++ b :: earlier → b.hitBoundary ctx = true →
    (∀ x ∈ later, ∀ e ∈ x.effects ctx, e.publishes = false) ∧
      c.finalStatus = .humanReviewRequired

/-! ## The condition -/

/-- The edge out of the execution does not lead past a gate: a commit or a CI status of an earlier
pass would carry the run on, and `create_pr`, `human_review` and `halt` have no gate behind them. -/
def BeforeGates (x : Execution) : Prop :=
  x.node ≠ .createPr ∧ x.node ≠ .humanReview ∧ x.node ≠ .halt ∧
    (x.node = .gitCommit → x.state.get .commitSha "" = "") ∧
    (x.node = .ciValidation → ¬ ciPass x.state)

/-- The policy engine's decision on what a policy node is given: the candidate files, or the
diff. -/
def Execution.decision? (ctx : WorkflowContext) (x : Execution) : Option PolicyDecision :=
  match x.node with
  | .riskAssessment => some (ctx.policy.evaluate (x.state.get .relevantFiles []) "" none false)
  | .securityPolicy =>
    match (Nodes.refreshDiff x.env { x.world with log := [] }).1 with
    | .ok diff => some (Nodes.policyDecision ctx x.state diff)
    | .error _ => none
  | _ => none

/-- A policy node that completes is given what the engine blocks, and `halt` completes. -/
def KeepsBlock (ctx : WorkflowContext) (x : Execution) : Prop :=
  (x.Completed ctx → ∀ decision ∈ x.decision? ctx, decision.action = .block) ∧
    (x.node = .halt → x.Completed ctx)

/-- **The block of a hard boundary holds over a step**: the boundary is hit before the gates; from
then on no decision lifts the block, `halt` completes and the supervisor itself does not raise. -/
def BoundaryHeld (ctx : WorkflowContext) (c : Config) (env : NodeEnv) : Prop :=
  (∀ x ∈ c.execution? env, (x.hitBoundary ctx = true → BeforeGates x ∧ env.escape = none) ∧
    ((∃ b ∈ c.trace, b.hitBoundary ctx = true) → KeepsBlock ctx x ∧ env.escape = none)) ∧
  ((∃ b ∈ c.trace, b.hitBoundary ctx = true) → env.before = none)

instance : DecidablePred BeforeGates := fun _ => inferInstanceAs (Decidable (_ ∧ _))

instance (ctx : WorkflowContext) : DecidablePred (KeepsBlock ctx) :=
  fun _ => inferInstanceAs (Decidable (_ ∧ _))

instance (ctx : WorkflowContext) (c : Config)
    (env : NodeEnv) : Decidable (BoundaryHeld ctx c env) :=
  inferInstanceAs (Decidable (_ ∧ _))

/-! ## The invariant -/

/-- The nodes a blocked run can still be at, besides `halt`. -/
def sealedNodes : List Node := [.repositoryAnalysis, .riskAssessment, .implementation,
  .testGeneration, .runTests, .debugging, .ciDebugging, .securityPolicy]

/-- **A run whose block holds.** -/
def Sealed (c : Config) : Prop :=
  match c.pc with
  | .node n => n = .halt ∨ n ∈ sealedNodes ∧ c.state.get? .policyAction = some "BLOCK"
  | .ended => c.state.get .outcome "" = "HUMAN_REVIEW_REQUIRED"
  | .aborted _ => False

section Invariant

variable {ctx : WorkflowContext} {c : Config} {env : NodeEnv} {x : Execution}

/-- A sealed run is handed to a human. -/
theorem Sealed.finalStatus (h : Sealed c) : c.finalStatus = .humanReviewRequired := by
  rw [Sealed] at h
  refine Config.finalStatus_of_handedOver (fun hpc => ?_) fun e hpc => ?_
  · rwa [hpc] at h
  · rwa [hpc] at h

/-- A blocked run stays among the nodes it can be at. -/
theorem Edge.of_sealed {s : AgentState} {n : Node} {target : Target} (h : Edge s n target)
    (hn : n ∈ sealedNodes) (hs : s.get? .policyAction = some "BLOCK") :
    target = .node .halt ∨ ∃ m ∈ sealedNodes, target = .node m := by
  cases h with
  | riskTaken h => exact absurd hs h
  | policyPassed h => exact absurd hs h
  | _ => simp_all [sealedNodes]

/-- An edge out of a blocked state before the gates leads to a node a blocked run can be at. -/
theorem Edge.of_beforeGates {s : AgentState} {n : Node} {target : Target} (h : Edge s n target)
    (hs : s.get? .policyAction = some "BLOCK") (h₁ : n ≠ .createPr) (h₂ : n ≠ .humanReview)
    (h₃ : n ≠ .halt) (h₄ : n = .gitCommit → s.get .commitSha "" = "")
    (h₅ : n = .ciValidation → ¬ ciPass s) :
    target = .node .halt ∨ ∃ m ∈ sealedNodes, target = .node m := by
  cases h with
  | riskTaken h => exact absurd hs h
  | policyPassed h => exact absurd hs h
  | committed h => exact absurd (h₄ rfl) h
  | ciPassed h => exact absurd h (h₅ rfl)
  | _ => simp_all [sealedNodes]

theorem sealed_of_next (hx : c.execution? env = some x) (hescape : env.escape = none)
    (hblock : (x.stateAfter ctx).get? .policyAction = some "BLOCK")
    (hnext : x.next ctx = .node .halt ∨ ∃ m ∈ sealedNodes, x.next ctx = .node m) :
    Sealed (step ctx c env) := by
  rw [step_of_execution hx hescape, Sealed]
  rcases hnext with hnext | ⟨m, hm, hnext⟩
  · rw [hnext]
    exact .inl rfl
  · rw [hnext]
    exact .inr ⟨hm, hblock⟩

/-- **A boundary hit before the gates seals the run.** -/
theorem sealed_of_hitBoundary (hx : c.execution? env = some x) (hhit : x.hitBoundary ctx = true)
    (hgates : BeforeGates x) (hescape : env.escape = none) : Sealed (step ctx c env) := by
  obtain ⟨e, hr, hb⟩ := Execution.exists_of_hitBoundary hhit
  have hblock := Execution.blocked_of_boundary hr hb
  obtain ⟨h₁, h₂, h₃, h₄, h₅⟩ := hgates
  refine sealed_of_next hx hescape hblock ((edge_route _ _).of_beforeGates hblock h₁ h₂ h₃ ?_ ?_)
  · intro hn
    rw [Execution.get_stateAfter_of_raised hr (by decide)]
    exact h₄ hn
  · intro hn
    rw [ciPass, Execution.get_stateAfter_of_raised hr (by decide)]
    exact h₅ hn

/-- A policy node that completes records the engine's decision. -/
theorem decision_of_ok {u : AgentState} (hn : x.node = .riskAssessment ∨ x.node = .securityPolicy)
    (h : x.outcome ctx = .ok u) :
    ∃ decision ∈ x.decision? ctx, u.get? .policyAction = some decision.action.value := by
  have hbody := Execution.result_of_ok h
  rcases hn with hn | hn
  · rw [hn] at hbody
    obtain ⟨reply, haction, -⟩ := riskAssessment_eq_ok hbody
    exact ⟨_, by rw [Execution.decision?, hn]; rfl, haction⟩
  · rw [hn] at hbody
    obtain ⟨diff, v, hdiff, -, haction, -⟩ := securityPolicy_eq_ok hbody
    refine ⟨_, ?_, haction⟩
    rw [Execution.decision?, hn]
    dsimp only
    rw [hdiff]
    rfl

/-- A node of a blocked run that keeps the block leaves the state blocked. -/
theorem blocked_of_keepsBlock (hkeeps : KeepsBlock ctx x) (hn : x.node ∈ sealedNodes)
    (hs : x.state.get? .policyAction = some "BLOCK") :
    (x.stateAfter ctx).get? .policyAction = some "BLOCK" := by
  by_cases hpolicy : x.node = .riskAssessment ∨ x.node = .securityPolicy
  · rcases hr : x.raised ctx with _ | e
    · obtain ⟨u, hu⟩ := Execution.completed_iff.mp hr
      obtain ⟨decision, hmem, haction⟩ := decision_of_ok hpolicy hu
      rw [hkeeps.1 hr decision hmem] at haction
      rw [Execution.stateAfter, TypedDict.get?_merge, Execution.update_of_ok hu, haction]
      rfl
    · exact Execution.blocked_of_raised hr hs
  · refine Execution.blocked_stateAfter ?_ hs
    revert hn hpolicy
    cases x.node <;> decide

/-- **A sealed run stays sealed.** -/
theorem sealed_step (h : Sealed c) (hbefore : env.before = none)
    (hok : ∀ x ∈ c.execution? env, KeepsBlock ctx x ∧ env.escape = none) :
    Sealed (step ctx c env) := by
  rcases hpc : c.pc with n | _ | e
  · have hx : c.execution? env = some ⟨n, c.state, c.world, env⟩ := by
      simp [Config.execution?, hpc, hbefore]
    obtain ⟨hkeeps, hescape⟩ := hok _ hx
    rw [Sealed, hpc] at h
    rcases h with rfl | ⟨hn, hs⟩
    · obtain ⟨u, hu⟩ := Execution.completed_iff.mp (hkeeps.2 rfl)
      have houtcome := halt_eq_ok (Execution.result_of_ok hu)
      rw [step_of_execution hx hescape, Sealed]
      change TypedDict.get (Execution.stateAfter ctx _) .outcome "" = _
      rw [Execution.stateAfter, Execution.update_of_ok hu, TypedDict.get_merge_of_some houtcome]
    · have hblock := blocked_of_keepsBlock hkeeps hn hs
      exact sealed_of_next hx hescape hblock ((edge_route _ _).of_sealed hn hblock)
  · have hstay : step ctx c env = c := by simp only [step, hpc]
    rwa [hstay]
  · rw [Sealed, hpc] at h
    exact h.elim

/-- What a run keeps: nothing is published after a boundary, and a run that hit one is sealed. -/
structure Fatal (ctx : WorkflowContext) (c : Config) : Prop where
  silent : ∀ later b earlier, c.trace = later ++ b :: earlier → b.hitBoundary ctx = true →
    ∀ x ∈ later, ∀ e ∈ x.effects ctx, e.publishes = false
  sealed : (∃ b ∈ c.trace, b.hitBoundary ctx = true) → Sealed c

/-- A node a blocked run can be at publishes nothing. -/
theorem silent_of_sealed (h : Sealed c) (hx : c.execution? env = some x) :
    ∀ e ∈ x.effects ctx, e.publishes = false := by
  intro e he
  rw [← Bool.not_eq_true]
  intro hp
  have hnode := Execution.node_of_publishes he hp
  rw [Sealed, (execution?_eq_some hx).1] at h
  rcases h with hhalt | ⟨hmem, -⟩
  · rw [hhalt] at hnode
    simp at hnode
  · rcases hnode with hn | hn | hn <;> rw [hn] at hmem <;> exact absurd hmem (by decide)

/-- One step of a run whose boundaries hold. -/
theorem fatal_step (h : Fatal ctx c)
    (hok : BoundaryHeld ctx c env) : Fatal ctx (step ctx c env) := by
  obtain ⟨hexec, hbefore⟩ := hok
  rcases hx : c.execution? env with _ | x
  · have htrace : (step ctx c env).trace = c.trace := by rw [trace_step, hx]; rfl
    refine ⟨htrace ▸ h.silent, fun hb => ?_⟩
    rw [htrace] at hb
    exact sealed_step (h.sealed hb) (hbefore hb) (by simp [hx])
  have htrace : (step ctx c env).trace = x :: c.trace := by rw [trace_step, hx]; rfl
  obtain ⟨hhit, hkeep⟩ := hexec x hx
  refine ⟨fun later b earlier heq hb y hy => ?_, fun hb => ?_⟩
  · rw [htrace] at heq
    rcases later with _ | ⟨y', later⟩
    · simp at hy
    simp only [List.cons_append, List.cons.injEq] at heq
    obtain ⟨rfl, heq⟩ := heq
    rcases List.mem_cons.mp hy with rfl | hy
    · exact silent_of_sealed (h.sealed ⟨b, heq ▸ by simp, hb⟩) hx
    · exact h.silent later b earlier heq hb y hy
  · rw [htrace] at hb
    obtain ⟨b, hmem, hb⟩ := hb
    rcases List.mem_cons.mp hmem with rfl | hmem
    · exact sealed_of_hitBoundary hx hb (hhit hb).1 (hhit hb).2
    · refine sealed_step (h.sealed ⟨b, hmem, hb⟩) (hbefore ⟨b, hmem, hb⟩) fun y hy => ?_
      obtain rfl : x = y := Option.some.inj (hx.symm.trans hy)
      exact hkeep ⟨b, hmem, hb⟩

/-- **A hard boundary is fatal**, in every run whose blocks hold. -/
theorem boundaryIsFatal_of_held (ctx : WorkflowContext) (s₀ : AgentState) (w₀ : World)
    (envs : List NodeEnv) (h : Runs.Along (step ctx) (BoundaryHeld ctx) (start s₀ w₀) envs) :
    BoundaryIsFatal ctx (Runs.run (step ctx) (start s₀ w₀) envs) := by
  have hstart : Fatal ctx (start s₀ w₀) := ⟨by simp [start], by simp [start]⟩
  have hrun := h.invariant (fun c env hc hok => fatal_step hc hok) hstart
  intro later b earlier htrace hb
  refine ⟨hrun.silent later b earlier htrace hb, (hrun.sealed ⟨b, ?_, hb⟩).finalStatus⟩
  rw [htrace]
  simp

end Invariant

/-- A write refused during `implementation`, in a run whose tests then fail. -/
def refusedWrite : List NodeEnv :=
  let refused : NodeEnv := { NodeEnv.calm with
    implementation :=
      ⟨[], .error (.policyViolation "policy blocked write to .env: block-secrets")⟩ }
  let failing : NodeEnv := { NodeEnv.calm with
    suite := .ok ⟨2, 1, 0, ["TotalTests.Rounds: AssertFailed"], 1, "Failed!", false⟩ }
  [.calm, .calm, .calm, refused, .calm, failing, .calm, failing, .calm, .calm]

theorem refusedWrite_fatal : BoundaryIsFatal sampleContext (sampleRun refusedWrite) :=
  boundaryIsFatal_of_held _ _ _ _ (by decide +kernel)

/-- The same write refused after an edit, in a run whose tests pass. -/
def overwrittenBlock : List NodeEnv :=
  let refused : NodeEnv := { NodeEnv.calm with
    implementation := ⟨[("src/Total.cs", "fixed")],
      .error (.policyViolation "policy blocked write to .env: block-secrets")⟩ }
  [.calm, .calm, .calm, refused] ++ List.replicate 7 .calm

/-- **A decision on the diff lifts the block**: the run commits, opens its pull request and calls
the task ready. -/
theorem overwrittenBlock_publishes :
    ¬ BoundaryIsFatal sampleContext (sampleRun overwrittenBlock) := by
  intro h
  have hhit : ((sampleRun overwrittenBlock).trace.drop 7).head?.map
      (fun b => b.hitBoundary sampleContext) = some true := by decide +kernel
  have hstatus : (sampleRun overwrittenBlock).finalStatus = .readyForReview := by decide +kernel
  rcases hdrop : (sampleRun overwrittenBlock).trace.drop 7 with _ | ⟨b, earlier⟩
  · simp [hdrop] at hhit
  have htrace : (sampleRun overwrittenBlock).trace
      = (sampleRun overwrittenBlock).trace.take 7 ++ b :: earlier := by
    rw [← hdrop, List.take_append_drop]
  have hfinal := (h _ b earlier htrace (by simpa [hdrop] using hhit)).2
  rw [hstatus] at hfinal
  cases hfinal

end AgentPlatform
