import AgentPlatform.Graph.Boundary
import AgentPlatform.Machinery.Ranking

/-!
# Graph/Risk — the risk level over a run

`risk_assessment` sets the level to the stronger of the model's word and the policy engine's, once
per run, and `security_policy` raises it to the engine's verdict on each diff.  What the model says
is any text, and a payload that cannot be read is any exception.

No node lowers the level after `risk_assessment` has completed, and it ends at least as high as
every decision of a policy node that completed (`risk_only_rises`).
-/

namespace AgentPlatform

namespace RiskLevel

@[simp] theorem ofValue?_value (level : RiskLevel) : ofValue? level.value = some level := by
  cases level <;> decide

end RiskLevel

/-! ## The highest of some levels -/

/-- **`max_risk` is at least each of its arguments.** -/
theorem order_le_maxRisk {level : RiskLevel} {levels : List RiskLevel} (h : level ∈ levels) :
    level.order ≤ (maxRisk levels).order :=
  (Ranking.isTop_best RiskLevel.order .low levels).le level (.inr h)

/-! ## The property -/

/-- The level a state carries. -/
def riskOf (s : AgentState) : Option RiskLevel := RiskLevel.ofValue? (s.get .riskLevel "LOW")

/-- The state carries a level at or above `n` in `RISK_ORDER`. -/
def RiskAtLeast (n : ℕ) (s : AgentState) : Prop := ∃ level, riskOf s = some level ∧ n ≤ level.order

/-- The execution completed, and its update was merged into the state. -/
def Execution.Merged (ctx : WorkflowContext) (x : Execution) : Prop :=
  x.Completed ctx ∧ x.env.escape = none

/-- `risk_assessment` has completed. -/
def Assessed (ctx : WorkflowContext) (c : Config) : Prop :=
  ∃ x ∈ c.trace, x.node = .riskAssessment ∧ x.Merged ctx

/-- **Risk only rises**: from a run that has assessed the task on, and over the decisions it
took. -/
def RiskOnlyRises (ctx : WorkflowContext) (c : Config) (later : List NodeEnv) : Prop :=
  (Assessed ctx c → ∃ level, riskOf c.state = some level ∧
    RiskAtLeast level.order (Runs.run (step ctx) c later).state) ∧
  (∀ x ∈ c.trace, x.Merged ctx → ∀ decision ∈ x.decision? ctx,
    RiskAtLeast decision.risk.order c.state)

/-! ## One execution -/

section Executions

variable {ctx : WorkflowContext} {c : Config} {env : NodeEnv} {x : Execution} {n : ℕ}

theorem RiskAtLeast.mono {s : AgentState} {m : ℕ} (h : RiskAtLeast n s) (hm : m ≤ n) :
    RiskAtLeast m s := by
  obtain ⟨level, hlevel, hn⟩ := h
  exact ⟨level, hlevel, le_trans hm hn⟩

/-- A policy node that completes sets a level at or above its decision's, and `security_policy` one
at or above the level it found. -/
theorem risk_of_ok {u : AgentState} (hn : x.node = .riskAssessment ∨ x.node = .securityPolicy)
    (h : x.outcome ctx = .ok u) :
    ∃ level : RiskLevel, u.get? .riskLevel = some level.value ∧
      (∀ decision ∈ x.decision? ctx, decision.risk.order ≤ level.order) ∧
      (x.node = .securityPolicy → ∀ old, riskOf x.state = some old → old.order ≤ level.order) := by
  have hbody := Execution.result_of_ok h
  rcases hn with hn | hn
  · rw [hn] at hbody
    obtain ⟨reply, -, hrisk⟩ := riskAssessment_eq_ok hbody
    refine ⟨_, hrisk, fun decision hd => ?_, fun hpolicy =>
      absurd (hn.symm.trans hpolicy) (by decide)⟩
    rw [Execution.decision?, hn] at hd
    obtain rfl := Option.some.inj hd
    exact order_le_maxRisk (by simp)
  · rw [hn] at hbody
    obtain ⟨diff, v, hdiff, -, -, -, level, hlevel, hrisk⟩ := securityPolicy_eq_ok hbody
    refine ⟨_, hrisk, fun decision hd => ?_, fun _ old hold => ?_⟩
    · rw [Execution.decision?, hn] at hd
      dsimp only at hd
      rw [hdiff] at hd
      obtain rfl := Option.some.inj hd
      exact order_le_maxRisk (by simp)
    · obtain rfl := Option.some.inj (hlevel.symm.trans hold)
      exact order_le_maxRisk (by simp)

theorem riskOf_stateAfter {u : AgentState} {level : RiskLevel} (h : x.outcome ctx = .ok u)
    (hu : u.get? .riskLevel = some level.value) : riskOf (x.stateAfter ctx) = some level := by
  have hget : (x.stateAfter ctx).get .riskLevel "LOW" = level.value := by
    rw [Execution.stateAfter, Execution.update_of_ok h, TypedDict.get_merge_of_some hu]
  rw [riskOf, hget, RiskLevel.ofValue?_value]

/-- **No node but `risk_assessment` lowers the level.** -/
theorem riskAtLeast_stateAfter (hn : x.node ≠ .riskAssessment) (h : RiskAtLeast n x.state) :
    RiskAtLeast n (x.stateAfter ctx) := by
  have hkept : (x.stateAfter ctx).get .riskLevel "LOW" = x.state.get .riskLevel "LOW" →
      RiskAtLeast n (x.stateAfter ctx) := by
    intro heq
    rwa [RiskAtLeast, riskOf, heq]
  rcases hr : x.raised ctx with _ | e
  · by_cases hpolicy : x.node = .securityPolicy
    · obtain ⟨u, hu⟩ := Execution.completed_iff.mp hr
      obtain ⟨level, hlevel, -, hrises⟩ := risk_of_ok (.inr hpolicy) hu
      obtain ⟨old, hold, hle⟩ := h
      exact ⟨level, riskOf_stateAfter hu hlevel, le_trans hle (hrises hpolicy old hold)⟩
    · refine hkept (Execution.get_stateAfter ?_ (by decide) _)
      cases hnode : x.node <;> simp_all [Node.writes, diffKeys]
  · exact hkept (Execution.get_stateAfter_of_raised hr (by decide) _)

/-- A decision that is taken is a policy node's. -/
theorem node_of_decision {decision : PolicyDecision} (h : decision ∈ x.decision? ctx) :
    x.node = .riskAssessment ∨ x.node = .securityPolicy := by
  cases hnode : x.node <;> simp_all [Execution.decision?]

/-! ## Runs -/

/-- The nodes up to `risk_assessment`. -/
def assessing : List Node := [.plan, .repositoryAnalysis, .riskAssessment]

/-- The run is past `risk_assessment`, or over. -/
def PastAssessment (c : Config) : Prop := ∀ m, c.pc = .node m → m ∉ assessing

/-- No edge leads back to `risk_assessment`. -/
theorem Edge.not_assessing {s : AgentState} {m m' : Node} (h : Edge s m (.node m'))
    (hm : m ≠ .plan) (hm' : m ≠ .repositoryAnalysis) : m' ∉ assessing := by
  cases h <;> first | exact absurd rfl hm | exact absurd rfl hm' | decide

theorem pastAssessment_of_next (hn : x.node ≠ .plan) (hn' : x.node ≠ .repositoryAnalysis)
    (hpc : c.pc = (x.next ctx).pc) : PastAssessment c := by
  intro m hm
  have hedge := edge_route x.node (x.stateAfter ctx)
  change Edge _ x.node (x.next ctx) at hedge
  rcases hnext : x.next ctx with m' | _
  · rw [hnext] at hedge
    rw [hpc, hnext] at hm
    cases hm
    exact hedge.not_assessing hn hn'
  · rw [hpc, hnext] at hm
    cases hm

/-- Past `risk_assessment` the level does not fall. -/
theorem riskAtLeast_step (h : PastAssessment c ∧ RiskAtLeast n c.state) (env : NodeEnv) :
    PastAssessment (step ctx c env) ∧ RiskAtLeast n (step ctx c env).state := by
  obtain ⟨hpast, hrisk⟩ := h
  rcases step_cases ctx c env with ⟨-, -, hstate, hpc⟩ | ⟨x, -, hpc, hxs, -, hstep⟩
  · refine ⟨fun m hm => ?_, hstate ▸ hrisk⟩
    rcases hpc with hpc | ⟨e, hpc⟩
    · exact hpast m (hpc ▸ hm)
    · rw [hpc] at hm
      cases hm
  · have hnode := hpast x.node hpc
    simp only [assessing, List.mem_cons, List.not_mem_nil, or_false, not_or] at hnode
    rcases hstep with ⟨e, -, hstep⟩ | ⟨-, hstep⟩
    · rw [hstep]
      exact ⟨fun m hm => (by cases hm), hrisk⟩
    · rw [hstep]
      exact ⟨pastAssessment_of_next hnode.1 hnode.2.1 rfl,
        riskAtLeast_stateAfter hnode.2.2 (hxs ▸ hrisk)⟩

/-- **What a run keeps**: up to `risk_assessment` no decision was taken, and every decision that was
merged is covered by the level. -/
structure RiskCovers (ctx : WorkflowContext) (c : Config) : Prop where
  undecided : ∀ m, c.pc = .node m → m ∈ assessing →
    ∀ x ∈ c.trace, x.node ∈ [.plan, .repositoryAnalysis]
  covered : ∀ x ∈ c.trace, x.Merged ctx → ∀ decision ∈ x.decision? ctx,
    RiskAtLeast decision.risk.order c.state

theorem riskCovers_step (h : RiskCovers ctx c)
    (env : NodeEnv) : RiskCovers ctx (step ctx c env) := by
  rcases step_cases ctx c env with ⟨-, htrace, hstate, hpc⟩ | ⟨x, -, hpc, hxs, hxe, hstep⟩
  · refine ⟨fun m hm => ?_, ?_⟩
    · rw [htrace]
      rcases hpc with hpc | ⟨e, hpc⟩
      · exact h.undecided m (hpc ▸ hm)
      · rw [hpc] at hm
        cases hm
    · rw [htrace, hstate]
      exact h.covered
  rcases hstep with ⟨e, hescape, hstep⟩ | ⟨hescape, hstep⟩
  · rw [hstep]
    refine ⟨fun m hm => (by cases hm), fun y hy hmerged => ?_⟩
    rcases List.mem_cons.mp hy with rfl | hy
    · have hnone := hmerged.2
      rw [hxe, hescape] at hnone
      cases hnone
    · exact h.covered y hy hmerged
  · rw [hstep]
    refine ⟨fun m hm hearly y hy => ?_, fun y hy hmerged decision hd => ?_⟩
    · have hfrom : x.node = .plan ∨ x.node = .repositoryAnalysis := by
        by_contra hnot
        rw [not_or] at hnot
        exact pastAssessment_of_next hnot.1 hnot.2 rfl m hm hearly
      rcases List.mem_cons.mp hy with rfl | hy
      · rcases hfrom with hfrom | hfrom <;> simp [hfrom]
      · refine h.undecided x.node hpc ?_ y hy
        rcases hfrom with hfrom | hfrom <;> simp [hfrom, assessing]
    · rcases List.mem_cons.mp hy with rfl | hy
      · obtain ⟨u, hu⟩ := Execution.completed_iff.mp hmerged.1
        obtain ⟨level, hlevel, hdecision, -⟩ := risk_of_ok (node_of_decision hd) hu
        exact ⟨level, riskOf_stateAfter hu hlevel, hdecision decision hd⟩
      · by_cases hn : x.node = .riskAssessment
        · have hearlier := h.undecided x.node hpc (by simp [hn, assessing]) y hy
          rcases node_of_decision hd with hy' | hy' <;> simp [hy'] at hearlier
        · exact riskAtLeast_stateAfter hn (hxs ▸ h.covered y hy hmerged decision hd)

/-- **Risk only rises**, in every run. -/
theorem risk_only_rises (ctx : WorkflowContext) (s₀ : AgentState) (w₀ : World)
    (envs later : List NodeEnv) :
    RiskOnlyRises ctx (Runs.run (step ctx) (start s₀ w₀) envs) later := by
  have hstart : RiskCovers ctx (start s₀ w₀) := ⟨by simp [start], by simp [start]⟩
  have hcovers := Runs.run_invariant (P := RiskCovers ctx)
    (fun _ env h => riskCovers_step h env) hstart envs
  refine ⟨?_, hcovers.covered⟩
  rintro ⟨x, hx, hnode, hmerged⟩
  have hdecision : x.decision? ctx
      = some (ctx.policy.evaluate (x.state.get .relevantFiles []) "" none false) := by
    rw [Execution.decision?, hnode]
  obtain ⟨level, hlevel, -⟩ := hcovers.covered x hx hmerged _ hdecision
  have hpast : PastAssessment (Runs.run (step ctx) (start s₀ w₀) envs) := by
    intro m hm hearly
    have hearlier := hcovers.undecided m hm hearly x hx
    simp [hnode] at hearlier
  have hlater : PastAssessment (Runs.run (step ctx)
    (Runs.run (step ctx) (start s₀ w₀) envs) later) ∧ RiskAtLeast level.order
        (Runs.run (step ctx) (Runs.run (step ctx) (start s₀ w₀) envs) later).state :=
    Runs.run_invariant (P := fun c : Config => PastAssessment c ∧ RiskAtLeast level.order c.state)
      (fun _ env h => riskAtLeast_step h env) ⟨hpast, level, hlevel, Nat.le_refl _⟩ later
  exact ⟨level, hlevel, hlater.2⟩

end Executions

end AgentPlatform
