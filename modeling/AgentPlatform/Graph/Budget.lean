import AgentPlatform.Graph.NodeSpecs
import AgentPlatform.Graph.Workflow

/-!
# Graph/Budget — the two loops and what bounds them

The debugging loop and the CI loop share `run_tests`, and each is bounded by a counter its own node
writes.  A run is given `11 + 2M + 5C` executions: eleven down the spine, two for each debugging
pass and five for each CI pass.  `rank` is what is left of that at a node; every execution spends at
least one (`rank_next`), as long as the loop nodes count themselves.
-/

namespace AgentPlatform

/-- How often a node was executed. -/
def executions (n : Node) (trace : List Execution) : ℕ := trace.countP fun x => x.node = n

/-- **The run keeps to its budgets**: `debugging` runs at most `M` times and `ci_debugging` at most
`C` times; no more than `11 + 2M + 5C` nodes are executed, and after that many steps the run is over
— with the default budgets, before the recursion limit is. -/
structure WithinBudget (M C : ℤ) (steps : ℕ) (c : Config) : Prop where
  debugging : (executions .debugging c.trace : ℤ) ≤ M
  ciDebugging : (executions .ciDebugging c.trace : ℤ) ≤ C
  length : (c.trace.length : ℤ) ≤ 11 + 2 * M + 5 * C
  ends : 11 + 2 * M + 5 * C ≤ steps → ∀ n, c.pc ≠ .node n
  backstop : M = 3 → C = 2 → steps = recursionLimit → ∀ n, c.pc ≠ .node n

/-- A loop node counts itself: its update is merged. -/
def Counted (ctx : WorkflowContext) (x : Execution) : Prop :=
  x.node = .debugging ∨ x.node = .ciDebugging → x.Completed ctx

instance (ctx : WorkflowContext) : DecidablePred (Counted ctx) :=
  fun _ => inferInstanceAs (Decidable (_ → _))

/-- **The executions left at a node**, with `i` debugging and `j` CI passes done. -/
def rank (M C i j : ℤ) : Node → ℤ
  | .plan => 11 + 2 * (M - i) + 5 * (C - j)
  | .repositoryAnalysis => 10 + 2 * (M - i) + 5 * (C - j)
  | .riskAssessment => 9 + 2 * (M - i) + 5 * (C - j)
  | .implementation => 8 + 2 * (M - i) + 5 * (C - j)
  | .testGeneration => 7 + 2 * (M - i) + 5 * (C - j)
  | .runTests => 6 + 2 * (M - i) + 5 * (C - j)
  | .debugging => 5 + 2 * (M - i) + 5 * (C - j)
  | .securityPolicy => 5 + 2 * (M - i) + 5 * (C - j)
  | .gitCommit => 4 + 2 * (M - i) + 5 * (C - j)
  | .ciValidation => 3 + 2 * (M - i) + 5 * (C - j)
  | .ciDebugging => 2 + 2 * (M - i) + 5 * (C - j)
  | .createPr => 2
  | .humanReview => 1
  | .halt => 1

/-- **The budget of a run at a node**: the state's counters are the executions of the loop nodes,
within their limits, and what is done and what is left is within the whole. -/
structure OnBudget (M C : ℤ) (n : Node) (c : Config) : Prop where
  maxIterations : c.state.get .maxIterations 3 = M
  maxCiIterations : c.state.get .maxCiIterations 2 = C
  iteration : c.state.get .iteration 0 = executions .debugging c.trace
  ciIteration : c.state.get .ciIteration 0 = executions .ciDebugging c.trace
  debugging : (executions .debugging c.trace : ℤ) ≤ M ∧
    (n = .debugging → (executions .debugging c.trace : ℤ) < M)
  ciDebugging : (executions .ciDebugging c.trace : ℤ) ≤ C ∧
    (n = .ciDebugging → (executions .ciDebugging c.trace : ℤ) < C)
  left : c.trace.length + rank M C (executions .debugging c.trace)
    (executions .ciDebugging c.trace) n ≤ 11 + 2 * M + 5 * C

/-- What a run keeps: its budget while it is at a node, and its bounds once it is over. -/
def KeepsBudget (M C : ℤ) (c : Config) : Prop :=
  match c.pc with
  | .node n => OnBudget M C n c
  | _ => (executions .debugging c.trace : ℤ) ≤ M ∧ (executions .ciDebugging c.trace : ℤ) ≤ C ∧
    (c.trace.length : ℤ) ≤ 11 + 2 * M + 5 * C

section Budget

variable {ctx : WorkflowContext} {M C : ℤ} {c : Config} {env : NodeEnv} {x : Execution}

theorem executions_cons (n : Node) (x : Execution) (t : List Execution) :
    (executions n (x :: t) : ℤ) = executions n t + if x.node = n then 1 else 0 := by
  by_cases h : x.node = n <;> simp [executions, h]

/-- No node writes a limit. -/
theorem get_maxIterations_stateAfter :
    (x.stateAfter ctx).get .maxIterations 3 = x.state.get .maxIterations 3 :=
  Execution.get_stateAfter (by cases x.node <;> decide) (by decide) _

theorem get_maxCiIterations_stateAfter :
    (x.stateAfter ctx).get .maxCiIterations 2 = x.state.get .maxCiIterations 2 :=
  Execution.get_stateAfter (by cases x.node <;> decide) (by decide) _

/-- **The debugging counter counts `debugging`.** -/
theorem get_iteration_stateAfter (hcounted : Counted ctx x) :
    (x.stateAfter ctx).get .iteration 0
      = x.state.get .iteration 0 + if x.node = .debugging then 1 else 0 := by
  by_cases hn : x.node = .debugging
  · obtain ⟨u, hu⟩ := Execution.completed_iff.mp (hcounted (.inl hn))
    have hbody := Execution.result_of_ok hu
    rw [hn] at hbody
    rw [if_pos hn, Execution.stateAfter, Execution.update_of_ok hu,
      TypedDict.get_merge_of_some (debugging_eq_ok hbody)]
  · rw [if_neg hn, Int.add_zero]
    refine Execution.get_stateAfter ?_ (by decide) _
    revert hn
    cases x.node <;> decide

/-- **The CI counter counts `ci_debugging`.** -/
theorem get_ciIteration_stateAfter (hcounted : Counted ctx x) :
    (x.stateAfter ctx).get .ciIteration 0
      = x.state.get .ciIteration 0 + if x.node = .ciDebugging then 1 else 0 := by
  by_cases hn : x.node = .ciDebugging
  · obtain ⟨u, hu⟩ := Execution.completed_iff.mp (hcounted (.inr hn))
    have hbody := Execution.result_of_ok hu
    rw [hn] at hbody
    rw [if_pos hn, Execution.stateAfter, Execution.update_of_ok hu,
      TypedDict.get_merge_of_some (ciDebugging_eq_ok hbody)]
  · rw [if_neg hn, Int.add_zero]
    refine Execution.get_stateAfter ?_ (by decide) _
    revert hn
    cases x.node <;> decide

/-- **An edge spends the execution it leaves**, with the counters as the execution left them. -/
theorem rank_next {s : AgentState} {n m : Node} {i j : ℤ} (h : Edge s n (.node m)) (hi : i ≤ M)
    (hj : j ≤ C) (hd : n = .debugging → i < M) (hc : n = .ciDebugging → j < C) :
    rank M C (i + if n = .debugging then 1 else 0) (j + if n = .ciDebugging then 1 else 0) m + 1
      ≤ rank M C i j n := by
  cases h <;> simp [rank] <;> omega

/-- Every node has an execution left. -/
theorem one_le_rank {n : Node} {i j : ℤ} (hi : i ≤ M) (hj : j ≤ C) : 1 ≤ rank M C i j n := by
  cases n <;> simp only [rank] <;> omega

/-- An edge into a loop is taken within its budget. -/
theorem budget_of_edge {s : AgentState} {n m : Node} (h : Edge s n (.node m)) :
    (m = .debugging → s.get .iteration 0 < s.get .maxIterations 3) ∧
      (m = .ciDebugging → s.get .ciIteration 0 < s.get .maxCiIterations 2) := by
  cases h <;> simp_all

/-- The counts of the loop nodes after an execution within its budget. -/
theorem executions_le {n m : Node} {k : ℤ} {t : List Execution} (hle : (executions m t : ℤ) ≤ k)
    (hlt : n = m → (executions m t : ℤ) < k) (hn : x.node = n) :
    (executions m (x :: t) : ℤ) ≤ k := by
  rw [executions_cons, hn]
  split
  · have hroom := hlt ‹_›
    omega
  · simpa using hle

/-- One execution at a node: the bounds hold, wherever the run goes. -/
theorem OnBudget.bounds {n : Node} (h : OnBudget M C n c) (hn : x.node = n) :
    (executions .debugging (x :: c.trace) : ℤ) ≤ M ∧
    (executions .ciDebugging (x :: c.trace) : ℤ) ≤ C ∧
      ((x :: c.trace).length : ℤ) ≤ 11 + 2 * M + 5 * C := by
  refine ⟨executions_le h.debugging.1 h.debugging.2 hn,
    executions_le h.ciDebugging.1 h.ciDebugging.2 hn, ?_⟩
  have hleft := h.left
  have hrank : 1 ≤ rank M C _ _ n := one_le_rank h.debugging.1 h.ciDebugging.1
  push_cast [List.length_cons]
  omega

/-- **An execution that counts itself keeps the run on budget**, at the node it leads to. -/
theorem OnBudget.next {n m : Node} (h : OnBudget M C n c) (hn : x.node = n) (hs : x.state = c.state)
    (hcounted : Counted ctx x) (hedge : Edge (x.stateAfter ctx) n (.node m)) (w : World) :
    OnBudget M C m ⟨.node m, x.stateAfter ctx, w, x :: c.trace⟩ := by
  obtain ⟨hd, hc, -⟩ := h.bounds hn
  have hM : (x.stateAfter ctx).get .maxIterations 3 = M := by
    rw [get_maxIterations_stateAfter, hs, h.maxIterations]
  have hC : (x.stateAfter ctx).get .maxCiIterations 2 = C := by
    rw [get_maxCiIterations_stateAfter, hs, h.maxCiIterations]
  have hi : (x.stateAfter ctx).get .iteration 0 = executions .debugging (x :: c.trace) := by
    rw [get_iteration_stateAfter hcounted, hs, h.iteration, executions_cons]
  have hj : (x.stateAfter ctx).get .ciIteration 0 = executions .ciDebugging (x :: c.trace) := by
    rw [get_ciIteration_stateAfter hcounted, hs, h.ciIteration, executions_cons]
  obtain ⟨hloop, hciLoop⟩ := budget_of_edge hedge
  rw [hi, hM] at hloop
  rw [hj, hC] at hciLoop
  refine ⟨hM, hC, hi, hj, ⟨hd, hloop⟩, ⟨hc, hciLoop⟩, ?_⟩
  have hrank := rank_next hedge h.debugging.1 h.ciDebugging.1 h.debugging.2 h.ciDebugging.2
  have hleft := h.left
  simp only [executions_cons, hn, List.length_cons]
  push_cast
  omega

/-- The bounds of a run that keeps its budget. -/
theorem KeepsBudget.bounds (h : KeepsBudget M C c) :
    (executions .debugging c.trace : ℤ) ≤ M ∧ (executions .ciDebugging c.trace : ℤ) ≤ C ∧
      (c.trace.length : ℤ) ≤ 11 + 2 * M + 5 * C := by
  rcases hpc : c.pc with n | _ | e
  · rw [KeepsBudget, hpc] at h
    have hrank : 1 ≤ rank M C _ _ n := one_le_rank h.debugging.1 h.ciDebugging.1
    have hleft := h.left
    exact ⟨h.debugging.1, h.ciDebugging.1, by omega⟩
  · rwa [KeepsBudget, hpc] at h
  · rwa [KeepsBudget, hpc] at h

/-- One step of a run whose loop nodes count themselves. -/
theorem keepsBudget_step (h : KeepsBudget M C c) (hok : Each (Counted ctx) c env) :
    KeepsBudget M C (step ctx c env) := by
  rcases hpc : c.pc with n | _ | e
  · rw [KeepsBudget, hpc] at h
    rcases hbefore : env.before with _ | e
    · have hx : c.execution? env = some ⟨n, c.state, c.world, env⟩ := by
        simp [Config.execution?, hpc, hbefore]
      have hbounds := h.bounds (x := ⟨n, c.state, c.world, env⟩) rfl
      rcases hescape : env.escape with _ | e
      · rw [step_of_execution hx hescape, KeepsBudget]
        rcases hnext : Execution.next ctx ⟨n, c.state, c.world, env⟩ with m | _
        · have hedge := edge_route n (Execution.stateAfter ctx ⟨n, c.state, c.world, env⟩)
          rw [show route n _ = .node m from hnext] at hedge
          exact h.next rfl rfl (hok _ hx) hedge _
        · exact hbounds
      · simp only [step, hpc, hbefore, hescape]
        exact hbounds
    · simp only [step, hpc, hbefore]
      have hkeeps : KeepsBudget M C c := by rwa [KeepsBudget, hpc]
      exact hkeeps.bounds
  · simpa only [step, hpc] using h
  · simpa only [step, hpc] using h

end Budget

/-- The counters of `initial_state`. -/
theorem keepsBudget_start (a : InitialArguments) (w₀ : World) (hM : 0 ≤ a.maxIterations)
    (hC : 0 ≤ a.maxCiIterations) :
    KeepsBudget a.maxIterations a.maxCiIterations (start (initialState a) w₀) :=
  { maxIterations := rfl
    maxCiIterations := rfl
    iteration := rfl
    ciIteration := rfl
    debugging := ⟨hM, by simp⟩
    ciDebugging := ⟨hC, by simp⟩
    left := by simp [start, rank, executions] }

/-- **The workflow is bounded by its own budgets**, in every run whose loop nodes count
themselves. -/
theorem withinBudget_of_counted (ctx : WorkflowContext) (a : InitialArguments) (w₀ : World)
    (envs : List NodeEnv) (hM : 0 ≤ a.maxIterations) (hC : 0 ≤ a.maxCiIterations)
    (h : Runs.Along (step ctx) (Each (Counted ctx)) (start (initialState a) w₀) envs) :
    WithinBudget a.maxIterations a.maxCiIterations envs.length
      (Runs.run (step ctx) (start (initialState a) w₀) envs) := by
  have hkeeps : KeepsBudget a.maxIterations a.maxCiIterations
      (Runs.run (step ctx) (start (initialState a) w₀) envs) :=
    h.invariant (fun c env hc hok => keepsBudget_step hc hok) (keepsBudget_start a w₀ hM hC)
  have hover : 11 + 2 * a.maxIterations + 5 * a.maxCiIterations ≤ envs.length →
      ∀ n, (Runs.run (step ctx) (start (initialState a) w₀) envs).pc ≠ .node n := by
    intro hlen n hpc
    have hsteps := length_trace_of_node hpc
    rw [KeepsBudget, hpc] at hkeeps
    have hrank : 1 ≤ rank a.maxIterations a.maxCiIterations _ _ n :=
      one_le_rank hkeeps.debugging.1 hkeeps.ciDebugging.1
    have hleft := hkeeps.left
    change _ = 0 + envs.length at hsteps
    omega
  obtain ⟨hdebugging, hciDebugging, hlength⟩ := hkeeps.bounds
  refine ⟨hdebugging, hciDebugging, hlength, hover, fun h3 h2 hlimit => hover ?_⟩
  rw [h3, h2, hlimit, recursionLimit]
  decide

/-- A quiet run, to its end. -/
theorem withinBudget_calm : WithinBudget 3 2 60 (sampleRun (List.replicate 60 .calm)) :=
  withinBudget_of_counted sampleContext sampleArguments sampleWorld (List.replicate 60 .calm)
    (by decide) (by decide) (by decide +kernel)

/-- A task with one debugging pass and no CI pass. -/
def tightBudget : InitialArguments :=
  { sampleArguments with maxIterations := 1, maxCiIterations := 0 }

/-- Every `run_tests` is lost to the event store, and every debugging pass to the model. -/
def modelTimeout : List NodeEnv :=
  let outage : NodeEnv := { NodeEnv.calm with
    emit := storeLost .testsStarted
    debugging := ⟨[], .error (.transient "model timed out")⟩ }
  List.replicate 14 outage

/-- **A loop node that fails does not count itself**: a budget of one admits four debugging passes
in fourteen executions, and the run is not over. -/
theorem modelTimeout_loops : ¬ WithinBudget 1 0 14
    (Runs.run (step sampleContext) (start (initialState tightBudget) sampleWorld)
      modelTimeout) := by
  intro h
  have hcount : executions .debugging (Runs.run (step sampleContext)
      (start (initialState tightBudget) sampleWorld) modelTimeout).trace = 4 := by decide +kernel
  have hle := h.debugging
  rw [hcount] at hle
  exact absurd hle (by decide)

end AgentPlatform
