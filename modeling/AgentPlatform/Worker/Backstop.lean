import AgentPlatform.Graph.NodeSpecs
import AgentPlatform.Worker.Cluster

/-!
# Worker/Backstop — the row after the recursion limit is reached

Every node of a run leaves two checkpoints on the task row, and `_run_workflow` saves one state more
when the graph is over.  For a `GraphRecursionError` that state is not the last checkpoint: it is
the dictionary the graph was *invoked* on, with an outcome and a reason.  `save_state` replaces the
state and derives nine columns from it, some falling back on the column as it stands.

* `settle_sameCheckpoint_iff` — the error path keeps the checkpoint exactly when the nodes have
  changed nothing that the checkpoint is for.
* `not_sameCheckpoint_of_fresh` — so the first execution of a task always loses it.
-/

namespace AgentPlatform

/-- The row of a `Task`, with the columns `save_state` and `set_status` write. -/
structure StoredTask extends TaskRow where
  iteration : ℤ
  ciIteration : ℤ
  riskLevel : Option String
  workspacePath : Option String
  branch : Option String
  commitSha : Option String
  pullRequestUrl : Option String
  approvalRequired : Bool
  summary : Option String
  currentNode : Option String
  error : Option String

/-- `value or column`: a missing and an empty text both leave the column. -/
def orColumn (value column : Option String) : Option String :=
  match value with
  | some text => if text = "" then column else some text
  | none => column

/-- A column that was derived from a value is not changed by deriving it again. -/
theorem orColumn_again {value value' : Option String} (h : value' = value)
    (column : Option String) :
    orColumn value' (orColumn value column) = orColumn value column := by
  subst h
  rcases value' with _ | text
  · rfl
  · simp only [orColumn]
    split <;> rfl

namespace StoredTask

variable (row : StoredTask)

/-- `save_state`. -/
def saveState (state : AgentState) : StoredTask where
  toTaskRow := row.toTaskRow.saveState state
  iteration := state.get .iteration row.iteration
  ciIteration := state.get .ciIteration row.ciIteration
  riskLevel := orColumn (state.get? .riskLevel) row.riskLevel
  workspacePath := orColumn (state.get? .workspacePath) row.workspacePath
  branch := orColumn (state.get? .gitBranch) row.branch
  commitSha := orColumn (state.get? .commitSha) row.commitSha
  pullRequestUrl := orColumn (state.get? .pullRequestUrl) row.pullRequestUrl
  approvalRequired := state.get .approvalRequired row.approvalRequired
  summary := orColumn (state.get? .finalSummary) row.summary
  currentNode := row.currentNode
  error := row.error

/-- `set_status`: a `node` or an `error` of `None` leaves its column. -/
def setStatus (status : TaskStatus) (node error : Option String) : StoredTask :=
  { row with
    toTaskRow := row.toTaskRow.setStatus status
    currentNode := node.or row.currentNode
    error := error.or row.error }

/-- `save_checkpoint`. -/
def checkpoint (state : AgentState) (n : Node) : StoredTask :=
  (row.saveState state).setStatus n.status (some n.name) none

/-- The row after the executions of a trace: the supervisor checkpoints the state before each body
and the merged state after it. -/
def checkpointed (ctx : WorkflowContext) : List Execution → StoredTask
  | [] => row
  | x :: t => ((checkpointed ctx t).checkpoint x.state x.node).checkpoint (x.stateAfter ctx) x.node

/-- `_finalize`. -/
def finalize (state : AgentState) : StoredTask :=
  (row.saveState state).setStatus (outcomeStatus state) none
    (orColumn (state.get? .haltReason) none)

/-- The end of `_run_workflow`: `_finalize` on what the graph returned, `_finalize` on the state it
was invoked on after a `GraphRecursionError`, `_finalize_failure` after any other exception. -/
def settle (d : Deployment) (first : AgentState) (c : Config) : StoredTask :=
  match c.ending with
  | .returned => row.finalize c.state
  | .recursionError => row.finalize (d.recursionState first)
  | .raised e => row.setStatus .failed none (some e.message)

variable {row}

/-- **`settle` is the last write of a handler**, on the columns the cluster knows. -/
theorem toTaskRow_settle (d : Deployment) (first : AgentState) (c : Config) :
    (row.settle d first c).toTaskRow = row.toTaskRow.finalize d first c := by
  rcases hending : c.ending with _ | _ | e
  · simp only [settle, TaskRow.finalize, Config.finalStatus, hending]
    rfl
  · simp only [settle, TaskRow.finalize, Config.finalStatus, hending]
    rfl
  · simp only [settle, TaskRow.finalize, Config.finalStatus, hending]
    rfl

theorem toTaskRow_checkpoint (state : AgentState) (n : Node) :
    (row.checkpoint state n).toTaskRow = row.toTaskRow.checkpoint state n := rfl

@[simp] theorem state_setStatus (status : TaskStatus) (node error : Option String) :
    (row.setStatus status node error).state = row.state := by
  simp only [setStatus, TaskRow.setStatus]
  split <;> rfl

@[simp] theorem state_checkpoint (state : AgentState) (n : Node) :
    (row.checkpoint state n).state = state := state_setStatus _ _ _

@[simp] theorem state_finalize (state : AgentState) : (row.finalize state).state = state :=
  state_setStatus _ _ _

end StoredTask

/-! ## What the error path keeps -/

/-- The keys the error path is meant to write. -/
def Key.verdict : List Key := [.outcome, .haltReason]

/-- Two states hold the same at every key but the outcome and its reason. -/
def SameWork (s s' : AgentState) : Prop := ∀ k ∉ Key.verdict, s.get? k = s'.get? k

/-- **A row keeps a checkpoint**: every key but the outcome and its reason, and every column derived
from the state. -/
structure SameCheckpoint (saved last : StoredTask) : Prop where
  state : SameWork saved.state last.state
  iteration : saved.iteration = last.iteration
  ciIteration : saved.ciIteration = last.ciIteration
  riskLevel : saved.riskLevel = last.riskLevel
  workspacePath : saved.workspacePath = last.workspacePath
  branch : saved.branch = last.branch
  commitSha : saved.commitSha = last.commitSha
  pullRequestUrl : saved.pullRequestUrl = last.pullRequestUrl
  approvalRequired : saved.approvalRequired = last.approvalRequired
  summary : saved.summary = last.summary

section Save

variable {row : StoredTask} {s s' : AgentState}

theorem get_get {k : Key} (h : s'.get? k = s.get? k) (v : Key.Ty k) :
    s'.get k (s.get k v) = s.get k v := by
  rw [TypedDict.get, TypedDict.get, h]
  rcases s.get? k with _ | x <;> rfl

/-- **The columns follow the keys**: a state that agrees with the checkpointed one derives the
columns the checkpoint derived. -/
theorem finalize_checkpoint (n : Node) (h : SameWork s' s) :
    SameCheckpoint ((row.checkpoint s n).finalize s') (row.checkpoint s n) where
  state := by simpa using h
  iteration := get_get (h .iteration (by decide)) _
  ciIteration := get_get (h .ciIteration (by decide)) _
  approvalRequired := get_get (h .approvalRequired (by decide)) _
  riskLevel := orColumn_again (h .riskLevel (by decide)) _
  workspacePath := orColumn_again (h .workspacePath (by decide)) _
  branch := orColumn_again (h .gitBranch (by decide)) _
  commitSha := orColumn_again (h .commitSha (by decide)) _
  pullRequestUrl := orColumn_again (h .pullRequestUrl (by decide)) _
  summary := orColumn_again (h .finalSummary (by decide)) _

end Save

/-! ## Runs -/

/-- The graph of one execution of the task: invoked on the row's checkpoint, run in the environments
given. -/
def Deployment.invoke (d : Deployment) (runId : String) (previous : AgentState) (w : World)
    (envs : List NodeEnv) : Config :=
  Runs.run (step d.context) (start (d.firstState runId previous) w) envs

/-- `recursionState` is the state the graph was invoked on, at every key the error path is not
for. -/
theorem sameWork_recursionState (d : Deployment) (first s : AgentState) :
    SameWork (d.recursionState first) s ↔ SameWork first s := by
  have hkeep : ∀ k ∉ Key.verdict, (d.recursionState first).get? k = first.get? k := by
    intro k hk
    simp only [Key.verdict, List.mem_cons, List.not_mem_nil, or_false, not_or] at hk
    simp [Deployment.recursionState, hk.1, hk.2]
  constructor
  · intro h k hk
    rw [← hkeep k hk, h k hk]
  · intro h k hk
    rw [hkeep k hk, h k hk]

/-- A path that is not empty ends in the state its newest execution left. -/
theorem Path.state_cons {ctx : WorkflowContext} {s₀ s : AgentState} {w₀ w : World} {x : Execution}
    {t : List Execution} {target : Target} (h : Path ctx s₀ w₀ (x :: t) target s w) :
    s = x.stateAfter ctx := by
  cases h
  rfl

section Runs

variable {d : Deployment} {row : StoredTask} {runId : String} {w : World} {envs : List NodeEnv}

/-- A run that is cut off has a newest execution. -/
theorem exists_path_cons (hne : envs ≠ [])
    (hcut : (d.invoke runId row.state w envs).ending = .recursionError) :
    ∃ (x : Execution) (t : List Execution) (target : Target) (w' : World),
      (d.invoke runId row.state w envs).trace = x :: t ∧
      Path d.context (d.firstState runId row.state) w (x :: t) target
        (d.invoke runId row.state w envs).state w' := by
  have hpath : OnPath d.context (d.firstState runId row.state) w
      (d.invoke runId row.state w envs) := onPath_run envs
  have hlength : 0 < (d.invoke runId row.state w envs).trace.length := by
    rcases hpc : (d.invoke runId row.state w envs).pc with n | _ | e
    · -- still going: every environment has been an execution
      have hlength : (d.invoke runId row.state w envs).trace.length = envs.length := by
        have hlength := length_trace_of_node hpc
        rwa [start, List.length_nil, Nat.zero_add] at hlength
      rw [hlength]
      exact List.length_pos_iff.mpr hne
    · -- over, but not before the limit
      exact (by decide : 0 < recursionLimit).trans_le
        ((Config.ending_eq_recursionError_of_ended hpc).mp hcut)
    · rw [Config.ending_eq_raised.mpr hpc] at hcut
      simp at hcut
  rw [OnPath] at hpath
  rcases ht : (d.invoke runId row.state w envs).trace with _ | ⟨x, t⟩
  · simp [ht] at hlength
  · rw [ht] at hpath
    split at hpath
    · exact ⟨x, t, _, _, rfl, hpath⟩
    · exact ⟨x, t, _, _, rfl, hpath⟩
    · rename_i hpc
      simp [Config.ending, hpc] at hcut

/-- **What stands on the row of a run that is cut off**: the state the run has reached. -/
theorem exists_checkpoint (hne : envs ≠ [])
    (hcut : (d.invoke runId row.state w envs).ending = .recursionError) :
    ∃ (before : StoredTask) (m : Node),
      row.checkpointed d.context (d.invoke runId row.state w envs).trace
        = before.checkpoint (d.invoke runId row.state w envs).state m := by
  obtain ⟨x, t, _, _, ht, hpath⟩ := exists_path_cons hne hcut
  exact ⟨_, x.node, by rw [ht, StoredTask.checkpointed, hpath.state_cons]⟩

/-- The error path saves the state the graph was invoked on. -/
theorem settle_of_recursionError (hcut : (d.invoke runId row.state w envs).ending = .recursionError)
    (last : StoredTask) :
    last.settle d (d.firstState runId row.state) (d.invoke runId row.state w envs)
      = last.finalize (d.recursionState (d.firstState runId row.state)) := by
  simp only [StoredTask.settle, hcut]

/-- A row that keeps the checkpoint was saved from a state the nodes had not moved on from. -/
theorem sameWork_of_sameCheckpoint (hne : envs ≠ [])
    (hcut : (d.invoke runId row.state w envs).ending = .recursionError)
    (h : SameCheckpoint
      ((row.checkpointed d.context (d.invoke runId row.state w envs).trace).settle d
        (d.firstState runId row.state) (d.invoke runId row.state w envs))
      (row.checkpointed d.context (d.invoke runId row.state w envs).trace)) :
    SameWork (d.firstState runId row.state) (d.invoke runId row.state w envs).state := by
  obtain ⟨before, m, hlast⟩ := exists_checkpoint hne hcut
  rw [settle_of_recursionError hcut, hlast] at h
  rw [← sameWork_recursionState d]
  simpa using h.state

/-- **When the backstop keeps the checkpoint.**  The row `_run_workflow` saves after a
`GraphRecursionError` — of a run that is still going, or at `END` after its sixtieth node — agrees
with the last checkpoint of the supervisor — on every key but the outcome and its reason, and on
every derived column — exactly when the nodes that ran left those keys as the graph was invoked on
them. -/
theorem settle_sameCheckpoint_iff (hne : envs ≠ [])
    (hcut : (d.invoke runId row.state w envs).ending = .recursionError) :
    let c := d.invoke runId row.state w envs
    let last := row.checkpointed d.context c.trace
    SameCheckpoint (last.settle d (d.firstState runId row.state) c) last ↔
      SameWork (d.firstState runId row.state) c.state := by
  refine ⟨sameWork_of_sameCheckpoint hne hcut, fun h => ?_⟩
  obtain ⟨before, m, hlast⟩ := exists_checkpoint hne hcut
  rw [settle_of_recursionError hcut, hlast]
  exact finalize_checkpoint m ((sameWork_recursionState d _ _).mpr h)

/-! ## A task's first execution

`initial_state` leaves `plan_summary` and `error` out, and the first node writes one of them. -/

/-- The planner has answered or failed. -/
def Planned (s : AgentState) : Prop :=
  (s.get? .planSummary).isSome = true ∨ (s.get? .error).isSome = true

theorem planned_of_plan {ctx : WorkflowContext} {x : Execution} (hx : x.node = .plan) :
    Planned (x.stateAfter ctx) := by
  rcases h : x.raised ctx with _ | e
  · obtain ⟨u, hu⟩ := Execution.completed_iff.mp h
    have hbody := Execution.result_of_ok hu
    rw [hx] at hbody
    obtain ⟨reply, _, -, hbody⟩ := Prog.bind_eq_ok.mp hbody
    obtain ⟨_, _, -, hbody⟩ := Prog.bind_eq_ok.mp hbody
    obtain ⟨rfl, -⟩ := Prog.pure_eq_ok.mp hbody
    exact .inl (by simp [Execution.stateAfter, Execution.update_of_ok hu])
  · refine .inr ?_
    rw [Execution.stateAfter, Execution.update_of_raised h]
    cases e <;> simp [errorUpdate]

/-- No node takes a key out of the state. -/
theorem Planned.stateAfter {ctx : WorkflowContext} {x : Execution} (h : Planned x.state) :
    Planned (x.stateAfter ctx) := by
  rw [Planned, Execution.stateAfter, TypedDict.get?_merge, TypedDict.get?_merge, Option.isSome_or,
    Option.isSome_or, Bool.or_eq_true, Bool.or_eq_true]
  exact h.imp .inr .inr

theorem planned_of_path {ctx : WorkflowContext} {s₀ s : AgentState} {w₀ w : World} {x : Execution}
    {t : List Execution} {target : Target}
    (h : Path ctx s₀ w₀ (x :: t) target s w) : Planned s := by
  generalize ht : x :: t = t' at h
  induction h generalizing x t with
  | nil => exact absurd ht (by simp)
  | @cons t'' n s w h y hn hs hw ih =>
    rcases t'' with _ | ⟨z, t''⟩
    · cases h
      exact planned_of_plan hn
    · have hbefore : Planned s := ih rfl
      exact (hs ▸ hbefore).stateAfter

/-- **The first execution of a task never keeps its checkpoint**: the invoked state has neither a
plan nor an error. -/
theorem not_sameCheckpoint_of_fresh (hfresh : row.state = .empty) (hne : envs ≠ [])
    (hcut : (d.invoke runId row.state w envs).ending = .recursionError) :
    let c := d.invoke runId row.state w envs
    let last := row.checkpointed d.context c.trace
    ¬ SameCheckpoint (last.settle d (d.firstState runId row.state) c) last := by
  intro c last h
  have hsame := sameWork_of_sameCheckpoint hne hcut h
  obtain ⟨_, _, _, _, -, hpath⟩ := exists_path_cons hne hcut
  rcases planned_of_path hpath with hplan | herror
  · rw [← hsame .planSummary (by decide), hfresh] at hplan
    exact absurd hplan Bool.false_ne_true
  · rw [← hsame .error (by decide), hfresh] at herror
    exact absurd herror Bool.false_ne_true

end Runs

/-! ## A run that reaches the limit

A `run_tests` or `debugging` node that raises leaves the keys `after_tests` reads alone, so the two
follow each other for as long as both raise. -/

/-- A node that raises does not change where `after_tests` leads. -/
theorem afterTests_of_raised {ctx : WorkflowContext} {x : Execution} {e : PyError}
    (h : x.raised ctx = some e) : afterTests (x.stateAfter ctx) = afterTests x.state := by
  have hkeep : ∀ k ∉ [Key.haltReason, .error, .policyAction], ∀ v,
      (x.stateAfter ctx).get k v = x.state.get k v := fun k hk v =>
    Execution.get_stateAfter_of_raised h hk v
  have hpass : testsPass (x.stateAfter ctx) ↔ testsPass x.state := by
    simp only [testsPass, hkeep .testsFailed (by decide), hkeep .testsPassed (by decide),
      hkeep .testRunOk (by decide)]
  simp only [afterTests, hpass, hkeep .iteration (by decide), hkeep .maxIterations (by decide),
    hkeep .failureSignatureHistory (by decide), hkeep .modifiedFiles (by decide),
    hkeep .maxFiles (by decide)]

/-- The run stands in the debugging loop, with budget left. -/
def Looping (c : Config) : Prop :=
  (c.pc = .node .runTests ∨ c.pc = .node .debugging) ∧ afterTests c.state = .debugging

/-- Every `run_tests` is lost to the event store and every debugging pass to the model. -/
def outage : NodeEnv := { NodeEnv.calm with
  emit := storeLost .testsStarted
  debugging := ⟨[], .error (.transient "model timed out")⟩ }

theorem outage_raises {ctx : WorkflowContext} {x : Execution} (henv : x.env = outage)
    (hx : x.node = .runTests ∨ x.node = .debugging) : ∃ e, x.raised ctx = some e := by
  rcases h : x.raised ctx with _ | e
  · exfalso
    obtain ⟨u, hu⟩ := Execution.completed_iff.mp h
    have hbody := Execution.result_of_ok hu
    rw [henv] at hbody
    rcases hx with hx | hx
    · rw [hx] at hbody
      obtain ⟨_, _, -, hbody⟩ := Prog.bind_eq_ok.mp hbody
      obtain ⟨_, _, hemit, -⟩ := Prog.bind_eq_ok.mp hbody
      exact absurd (NodeM.emit_eq_ok.mp hemit).1 (by decide)
    · rw [hx] at hbody
      obtain ⟨_, _, -, hbody⟩ := Prog.bind_eq_ok.mp hbody
      obtain ⟨_, _, -, hbody⟩ := Prog.bind_eq_ok.mp hbody
      obtain ⟨_, _, hagent, -⟩ := Prog.bind_eq_ok.mp hbody
      obtain ⟨_, _, -, hreply⟩ := Prog.bind_eq_ok.mp hagent
      exact absurd (Prog.lift_eq_ok.mp hreply).1 (by simp [outage])
  · exact ⟨e, rfl⟩

theorem Looping.step {ctx : WorkflowContext} {c : Config} (h : Looping c) :
    Looping (step ctx c outage) := by
  obtain ⟨hpc, hafter⟩ := h
  have hnode : ∃ m, c.pc = .node m ∧ (m = .runTests ∨ m = .debugging) := by
    rcases hpc with hpc | hpc
    · exact ⟨_, hpc, .inl rfl⟩
    · exact ⟨_, hpc, .inr rfl⟩
  obtain ⟨m, hpc, hm⟩ := hnode
  have hx : c.execution? outage = some ⟨m, c.state, c.world, outage⟩ := by
    simp [Config.execution?, hpc, outage, NodeEnv.calm]
  rw [step_of_execution hx rfl]
  generalize hxe : (⟨m, c.state, c.world, outage⟩ : Execution) = x
  have hxm : x.node = m := by rw [← hxe]
  have hstate : x.state = c.state := by rw [← hxe]
  obtain ⟨e, he⟩ : ∃ e, x.raised ctx = some e := outage_raises (by rw [← hxe]) (hxm ▸ hm)
  have hkeep : afterTests (x.stateAfter ctx) = .debugging := by
    rw [afterTests_of_raised he, hstate, hafter]
  refine ⟨?_, hkeep⟩
  rcases hm with rfl | rfl
  · exact .inr (by simp [Execution.next, hxm, route, hkeep, Target.pc])
  · exact .inl (by simp [Execution.next, hxm, route, Target.pc])

/-- **An outage keeps the graph in its loop**, for any number of nodes. -/
theorem Looping.run {ctx : WorkflowContext} {c : Config} (h : Looping c) (n : ℕ) :
    Looping (Runs.run (AgentPlatform.step ctx) c (List.replicate n outage)) := by
  induction n generalizing c with
  | zero => exact h
  | succ n ih => exact ih h.step

/-- The row of a task when it is created. -/
def createdTask : StoredTask :=
  ⟨.create, 0, 0, none, none, none, none, none, false, none, none, none⟩

/-- The execution of the task in an outage that begins with its first test run. -/
def outageRun : Config :=
  sampleDeployment.invoke "run-1" createdTask.state sampleWorld
    (List.replicate recursionLimit outage)

theorem looping_outageRun : Looping outageRun := by
  -- the change is made in the first five nodes
  have hfive : Looping (sampleDeployment.invoke "run-1" createdTask.state sampleWorld
      (List.replicate 5 outage)) := ⟨.inl (by decide +kernel), by decide +kernel⟩
  have hsplit : List.replicate recursionLimit outage
      = List.replicate 5 outage ++ List.replicate 55 outage := by
    rw [List.replicate_append_replicate]
    rfl
  rw [outageRun, Deployment.invoke, hsplit, Runs.run_append]
  exact hfive.run 55

theorem ending_outageRun : outageRun.ending = .recursionError := by
  rcases looping_outageRun.1 with h | h
  · exact Config.ending_of_node h
  · exact Config.ending_of_node h

theorem settle_sameCheckpoint_iff_outage :
    let d := sampleDeployment
    let last := createdTask.checkpointed d.context outageRun.trace
    SameCheckpoint (last.settle d (d.firstState "run-1" createdTask.state) outageRun) last ↔
      SameWork (d.firstState "run-1" createdTask.state) outageRun.state :=
  settle_sameCheckpoint_iff (by decide) ending_outageRun

/-- **The backstop erases the checkpoint** of a task whose change was made and whose tests were lost
to an outage. -/
theorem outageRun_erased :
    let d := sampleDeployment
    let last := createdTask.checkpointed d.context outageRun.trace
    ¬ SameCheckpoint (last.settle d (d.firstState "run-1" createdTask.state) outageRun) last :=
  not_sameCheckpoint_of_fresh rfl (by decide) ending_outageRun

end AgentPlatform
