import AgentPlatform.Graph.Gates

/-!
# Graph/Failure — what becomes of a run in which a node failed

The supervisor turns an exception into `halt_reason` and `error`, and no routing function reads
either key: the edge out of a failed node is the one its old state selects.  Six nodes go on
unconditionally, and the run comes to `halt` only if a later gate sends it there.

The one way past every gate is a CI verdict that reads as a pass, so a run with a failure ends in
`halt` exactly as long as CI never passes it (`failureHalts_of_refused`).
-/

namespace AgentPlatform

/-- The body of a node other than `halt` failed, and on no hard boundary. -/
def Execution.fails (ctx : WorkflowContext) (x : Execution) : Bool :=
  x.node ≠ .halt && (x.raised ctx).any fun e => !e.isBoundary

/-- A node of the run failed. -/
def Config.Failed (ctx : WorkflowContext) (c : Config) : Prop := ∃ b ∈ c.trace, b.fails ctx = true

/-- The run makes no further step: it is over, or its recursion limit is used up. -/
def Config.Over (c : Config) : Prop := (∀ n, c.pc ≠ .node n) ∨ recursionLimit ≤ c.trace.length

/-- The run ended through `halt`, handed over to a human. -/
def Config.EndsInHalt (c : Config) : Prop :=
  c.pc = .ended ∧ (∃ h t, c.trace = h :: t ∧ h.node = .halt) ∧
    c.state.get .outcome "" = "HUMAN_REVIEW_REQUIRED"

/-- **A node failure becomes a halt.** -/
def FailureHalts (ctx : WorkflowContext) (c : Config) : Prop :=
  c.Failed ctx → c.Over → c.EndsInHalt

/-! ## The condition -/

/-- The run the CI provider answers with: the one it triggered, or what waiting for it came to. -/
def NodeEnv.ciResult (env : NodeEnv) : Except PyError CIRunResult :=
  match env.trigger with
  | .ok run => if run.finished = false ∧ run.id ≠ "" then env.wait else .ok run
  | .error e => .error e

/-- The CI provider passes the commit, or has nothing to say about it. -/
def NodeEnv.ciPasses (env : NodeEnv) : Bool :=
  match env.ciResult with
  | .ok run => run.status = .passed || run.status = .skipped
  | .error _ => false

/-- CI does not let the run through: the provider does not pass the commit, and a `ci_validation`
that fails finds no passing status in the state. -/
def CiRefuses (ctx : WorkflowContext) (x : Execution) : Prop :=
  x.node = .ciValidation →
    (x.raised ctx ≠ none → ¬ ciPass x.state) ∧ (x.Completed ctx → x.env.ciPasses = false)

/-- What keeps a run with a failure on its way to `halt`: CI refuses it, `halt` itself completes,
the supervisor survives, and the recursion limit is not used up before. -/
def GoesToHalt (ctx : WorkflowContext) (c : Config) (x : Execution) : Prop :=
  CiRefuses ctx x ∧ (x.node = .halt → x.Completed ctx) ∧ x.env.escape = none ∧
    (recursionLimit ≤ c.trace.length + 1 → x.node = .halt)

/-- **The step keeps a failed run on its way to `halt`**, and no failure is behind the last gate. -/
def FailureHeld (ctx : WorkflowContext) (c : Config) (env : NodeEnv) : Prop :=
  (∀ x ∈ c.execution? env,
    (x.fails ctx = true → x.node ≠ .createPr ∧ x.node ≠ .humanReview) ∧
    (c.Failed ctx ∨ x.fails ctx = true → GoesToHalt ctx c x)) ∧
  (c.Failed ctx → env.before = none)

instance (ctx : WorkflowContext) (c : Config) : Decidable (c.Failed ctx) :=
  inferInstanceAs (Decidable (∃ b ∈ c.trace, b.fails ctx = true))

instance (ctx : WorkflowContext) : DecidablePred (CiRefuses ctx) :=
  fun _ => inferInstanceAs (Decidable (_ → _))

instance (ctx : WorkflowContext) (c : Config) : DecidablePred (GoesToHalt ctx c) :=
  fun x => inferInstanceAs (Decidable (CiRefuses ctx x ∧ (x.node = .halt → x.Completed ctx) ∧
    x.env.escape = none ∧ (recursionLimit ≤ c.trace.length + 1 → x.node = .halt)))

instance (ctx : WorkflowContext) (c : Config) (env : NodeEnv) : Decidable (FailureHeld ctx c env) :=
  inferInstanceAs (Decidable (_ ∧ _))

/-! ## The invariant -/

/-- **A run on its way to `halt`**: short of `create_pr`, or already there. -/
def Doomed (c : Config) : Prop :=
  match c.pc with
  | .node n => n ≠ .createPr ∧ n ≠ .humanReview ∧ c.trace.length < recursionLimit
  | .ended => c.EndsInHalt
  | .aborted _ => False

section Invariant

variable {ctx : WorkflowContext} {c : Config} {env : NodeEnv} {x : Execution}

/-- A doomed run that makes no further step ended in `halt`. -/
theorem Doomed.endsInHalt (h : Doomed c) (hover : c.Over) : c.EndsInHalt := by
  rw [Doomed] at h
  rcases hpc : c.pc with n | _ | e
  · rw [hpc] at h
    rcases hover with hover | hlimit
    · exact absurd hpc (hover n)
    · exact absurd hlimit (by omega)
  · rwa [hpc] at h
  · rw [hpc] at h
    exact h.elim

theorem ciRun_eq_ok {branch : String} {s : AgentState} {w w' : World} {run : CIRunResult}
    (h : Nodes.ciRun env branch s w = (.ok run, w')) : env.ciResult = .ok run := by
  obtain ⟨_, v, -, h⟩ := Prog.bind_eq_ok.mp h
  obtain ⟨run', v', hlift, h⟩ := Prog.bind_eq_ok.mp h
  obtain ⟨htrigger, -⟩ := Prog.lift_eq_ok.mp hlift
  rw [NodeEnv.ciResult, htrigger]
  dsimp only
  split at h
  · rename_i hwait
    rw [if_pos hwait]
    exact (Prog.lift_eq_ok.mp h).1
  · rename_i hdone
    rw [if_neg hdone]
    exact congrArg Except.ok (Prog.pure_eq_ok.mp h).1

/-- A completed `ci_validation` reports the run the provider answered with. -/
theorem ciStatus_of_ciValidation {s u : AgentState} {w w' : World}
    (h : Nodes.ciValidation ctx env s w = (.ok u, w')) :
    ∃ run, env.ciResult = .ok run ∧ u.get? .ciStatus = some run.status.value := by
  obtain ⟨ws, v, -, h⟩ := Prog.bind_eq_ok.mp h
  obtain ⟨_, v₁, -, h⟩ := Prog.bind_eq_ok.mp h
  obtain ⟨_, v₂, -, h⟩ := Prog.bind_eq_ok.mp h
  obtain ⟨run, v₃, hrun, h⟩ := Prog.bind_eq_ok.mp h
  simp only [Prog.bind_eq_ok, Prog.pure_eq_ok] at h
  obtain ⟨_, _, -, _, _, -, _, _, -, _, _, -, rfl, -⟩ := h
  exact ⟨run, ciRun_eq_ok hrun, by simp⟩

/-- **A CI that refuses leaves no passing status.** -/
theorem CiRefuses.not_ciPass (h : CiRefuses ctx x) (hn : x.node = .ciValidation) :
    ¬ ciPass (x.stateAfter ctx) := by
  intro hpass
  rcases hr : x.raised ctx with _ | e
  · obtain ⟨u, hu⟩ := Execution.completed_iff.mp hr
    have hbody := Execution.result_of_ok hu
    rw [hn] at hbody
    obtain ⟨run, hrun, hstatus⟩ := ciStatus_of_ciValidation hbody
    have hpasses := (h hn).2 hr
    rw [NodeEnv.ciPasses, hrun] at hpasses
    have hafter : (x.stateAfter ctx).get? .ciStatus = some run.status.value := by
      rw [Execution.stateAfter, TypedDict.get?_merge, Execution.update_of_ok hu, hstatus]
      rfl
    rcases status_of_ciPass hafter hpass with hread | hread <;> simp [hread] at hpasses
  · rw [ciPass, Execution.get_stateAfter_of_raised hr (by decide)] at hpass
    exact (h hn).1 (by simp [hr]) hpass

/-- Short of the last gate, an edge leads to a node short of it, unless CI lets the run through. -/
theorem Edge.short_of_ciPass {s : AgentState} {n : Node} {target : Target} (h : Edge s n target)
    (hpr : n ≠ .createPr) (hreview : n ≠ .humanReview) (hhalt : n ≠ .halt)
    (hci : n = .ciValidation → ¬ ciPass s) :
    ∃ m, target = .node m ∧ m ≠ .createPr ∧ m ≠ .humanReview := by
  cases h with
  | ciPassed h => exact absurd h (hci rfl)
  | createPr => exact absurd rfl hpr
  | humanReview => exact absurd rfl hreview
  | halt => exact absurd rfl hhalt
  | _ => exact ⟨_, rfl, by decide, by decide⟩

/-- **An execution short of the last gate keeps the run on its way.** -/
theorem doomed_of_goesToHalt (hx : c.execution? env = some x) (hgoes : GoesToHalt ctx c x)
    (hpr : x.node ≠ .createPr) (hreview : x.node ≠ .humanReview) : Doomed (step ctx c env) := by
  obtain ⟨hci, hdone, hescape, hlimit⟩ := hgoes
  have henv := (execution?_eq_some hx).2.1
  rw [henv] at hescape
  rw [step_of_execution hx hescape, Doomed]
  by_cases hhalt : x.node = .halt
  · obtain ⟨u, hu⟩ := Execution.completed_iff.mp (hdone hhalt)
    have hbody := Execution.result_of_ok hu
    rw [hhalt] at hbody
    have hnext : x.next ctx = .stop := by rw [Execution.next, hhalt]; rfl
    rw [hnext]
    refine ⟨rfl, ⟨x, c.trace, rfl, hhalt⟩, ?_⟩
    rw [Execution.stateAfter, Execution.update_of_ok hu,
      TypedDict.get_merge_of_some (halt_eq_ok hbody)]
  · obtain ⟨m, hnext, hm⟩ := (edge_route x.node (x.stateAfter ctx)).short_of_ciPass
      hpr hreview hhalt
      fun hn => hci.not_ciPass hn
    have htarget : x.next ctx = .node m := hnext
    rw [htarget]
    refine ⟨hm.1, hm.2, ?_⟩
    rw [List.length_cons]
    by_contra hlong
    exact hhalt (hlimit (by omega))

theorem doomed_step (hheld : FailureHeld ctx c env) (hfailed : c.Failed ctx) (hc : Doomed c) :
    Doomed (step ctx c env) := by
  rcases hx : c.execution? env with _ | x
  · have hbefore := hheld.2 hfailed
    rcases hpc : c.pc with n | _ | e
    · simp [Config.execution?, hpc, hbefore] at hx
    · have hstay : step ctx c env = c := by simp only [step, hpc]
      rwa [hstay]
    · rw [Doomed, hpc] at hc
      exact hc.elim
  · have hnode := hc
    rw [Doomed, (execution?_eq_some hx).1] at hnode
    exact doomed_of_goesToHalt hx ((hheld.1 x hx).2 (.inl hfailed)) hnode.1 hnode.2.1

/-- One step of a run whose failures are held. -/
theorem failed_step (hheld : FailureHeld ctx c env) (hc : c.Failed ctx → Doomed c)
    (hfailed : (step ctx c env).Failed ctx) : Doomed (step ctx c env) := by
  obtain ⟨b, hmem, hb⟩ := hfailed
  rw [trace_step, List.mem_append] at hmem
  rcases hmem with hmem | hmem
  · have hx : c.execution? env = some b := by simpa using hmem
    obtain ⟨hpr, hreview⟩ := (hheld.1 b hx).1 hb
    exact doomed_of_goesToHalt hx ((hheld.1 b hx).2 (.inr hb)) hpr hreview
  · exact doomed_step hheld ⟨b, hmem, hb⟩ (hc ⟨b, hmem, hb⟩)

/-- **A node failure becomes a halt**, in every run that CI does not let through after it. -/
theorem failureHalts_of_refused (ctx : WorkflowContext) (s₀ : AgentState) (w₀ : World)
    (envs : List NodeEnv) (h : Runs.Along (step ctx) (FailureHeld ctx) (start s₀ w₀) envs) :
    FailureHalts ctx (Runs.run (step ctx) (start s₀ w₀) envs) := by
  intro hfailed hover
  have hstart : (start s₀ w₀).Failed ctx → Doomed (start s₀ w₀) := by
    rintro ⟨b, hmem, -⟩
    exact absurd hmem (by simp [start])
  have hrun := h.invariant (P := fun c => c.Failed ctx → Doomed c)
    (fun c env hc hheld hfailed => failed_step hheld hc hfailed) hstart
  exact (hrun hfailed).endsInHalt hover

end Invariant

/-- The planner is lost to a model timeout, and the suite fails the same way twice. -/
def failedPlan : List NodeEnv :=
  let timeout : NodeEnv := { NodeEnv.calm with planner := .error (.transient "model timed out") }
  let failing : NodeEnv := { NodeEnv.calm with
    suite := .ok ⟨2, 1, 0, ["TotalTests.Rounds: AssertFailed"], 1, "Failed!", false⟩ }
  [timeout, .calm, .calm, .calm, .calm, failing, .calm, failing, .calm]

theorem failedPlan_halts : FailureHalts sampleContext (sampleRun failedPlan) :=
  failureHalts_of_refused _ _ _ _ (by decide +kernel)

/-- The implementation agent is lost to a model timeout. -/
def failedImplementation : List NodeEnv :=
  let timeout : NodeEnv := { NodeEnv.calm with
    implementation := ⟨[("src/Total.cs", "half done")], .error (.transient "model timed out")⟩ }
  [.calm, .calm, .calm, timeout] ++ List.replicate 7 .calm

/-- **A change whose implementation failed is ready for review**: the tests pass, and nothing reads
the `halt_reason`. -/
theorem failedImplementation_ready :
    ¬ FailureHalts sampleContext (sampleRun failedImplementation) := by
  intro h
  have hfailed : (sampleRun failedImplementation).Failed sampleContext := by decide +kernel
  have hended : (sampleRun failedImplementation).pc = .ended := by decide +kernel
  have hready : (sampleRun failedImplementation).state.get .outcome "" = "READY_FOR_REVIEW" := by
    decide +kernel
  obtain ⟨-, -, houtcome⟩ := h hfailed (.inl (by simp [hended]))
  rw [hready] at houtcome
  exact absurd houtcome (by decide)

end AgentPlatform
