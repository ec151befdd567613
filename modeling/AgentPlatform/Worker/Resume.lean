import AgentPlatform.Worker.Cluster

/-!
# Worker/Resume — what a run costs when its worker is killed

The checkpoint holds the state and not the node: `_run_workflow` overlays the initial state with
what was saved and invokes the graph, which begins at `plan`.  Every execution before the one the
worker died in is made again, on a state that has the results of a later one.

`walk` replays node results over the edges; `resumes_iff` says which deaths cost a node and not the
task: those in the first node.
-/

namespace AgentPlatform

/-! ## The graph over given results -/

/-- The nodes executed, where the edge of the last one leads, and the state it leaves. -/
structure Walk where
  nodes : List Node
  target : Target
  state : AgentState

/-- **The graph from a node on, whose nodes have these results.** -/
def walk (n : Node) (s : AgentState) : List AgentState → Walk
  | [] => ⟨[], .node n, s⟩
  | u :: us =>
    match route n (s.merge u) with
    | .node m => { walk m (s.merge u) us with nodes := n :: (walk m (s.merge u) us).nodes }
    | .stop => ⟨[n], .stop, s.merge u⟩

/-- A death of the worker, after a checkpoint of the execution at `index`: the one before the body,
or the one after it. -/
structure Death where
  index : ℕ
  after : Bool
  deriving DecidableEq, Repr

namespace Death

variable (ctx : WorkflowContext) (xs : List Execution) (b : Death)

/-- `tasks.state`, as the death leaves it. -/
def saved : AgentState :=
  match xs[b.index]? with
  | some x => if b.after then x.stateAfter ctx else x.state
  | none => .empty

/-- What the uninterrupted run still had to execute, with the interrupted node or, if its results
were saved, without it. -/
def remaining : List (List Execution) :=
  if b.after then [xs.drop b.index, xs.drop (b.index + 1)] else [xs.drop b.index]

end Death

/-- **A killed worker costs a node**: resumed from the checkpoint, with the results the nodes still
had to give, the run executes exactly the nodes that were left and ends as the uninterrupted one. -/
def CostsANode (d : Deployment) (runId : String) (first : AgentState)
    (xs : List Execution) (b : Death) :
    Prop :=
  let whole := walk .plan first (xs.map (·.update d.context))
  ∃ rest ∈ b.remaining xs,
    let resumed :=
    walk .plan (d.firstState runId (b.saved d.context xs)) (rest.map (·.update d.context))
    resumed.nodes = rest.map (·.node) ∧ resumed.target = whole.target ∧
      resumed.state.get .outcome "" = whole.state.get .outcome ""

instance (d : Deployment) (runId : String) (first : AgentState) (xs : List Execution) (b : Death) :
    Decidable (CostsANode d runId first xs b) :=
  inferInstanceAs (Decidable (∃ rest ∈ b.remaining xs, _ ∧ _ ∧ _))

/-! ## A run is a walk -/

section Walks

variable {ctx : WorkflowContext} {n : Node} {s t : AgentState} {us : List AgentState}

/-- A walk begins where it is. -/
theorem head?_nodes_walk (u : AgentState) : (walk n s (u :: us)).nodes.head? = some n := by
  rw [walk]
  split <;> rfl

/-- One more result. -/
theorem walk_append {m : Node} (h : (walk n s us).target = .node m) (u : AgentState) :
    walk n s (us ++ [u]) = ⟨(walk n s us).nodes ++ [m], route m ((walk n s us).state.merge u),
      (walk n s us).state.merge u⟩ := by
  induction us generalizing n s with
  | nil =>
    obtain rfl : n = m := by simpa [walk] using h
    rcases hroute : route n (s.merge u) <;> simp [walk, hroute]
  | cons v us ih =>
    rcases hroute : route n (s.merge v) with k | _
    · simp only [walk, hroute] at h
      simp only [List.cons_append, walk, hroute, ih h]
    · simp [walk, hroute] at h

/-- **A run is the walk of its results.** -/
theorem walk_of_path {s₀ : AgentState} {w₀ w : World} {trace : List Execution} {target : Target}
    (h : Path ctx s₀ w₀ trace target s w) :
    walk .plan s₀ (trace.reverse.map (·.update ctx)) = ⟨trace.reverse.map (·.node), target, s⟩ := by
  induction h with
  | nil => rfl
  | cons h x hn hs hw ih =>
    rw [List.reverse_cons, List.map_append, List.map_append, List.map_singleton, List.map_singleton,
      walk_append (m := x.node) (by rw [ih, hn]), ih, ← hs]
    rfl

end Walks

/-! ## States that differ in the run they name -/

/-- The states agree, but for `workflow_run_id`. -/
def SameTask (s t : AgentState) : Prop := ∀ k, k ≠ .workflowRunId → s.get? k = t.get? k

namespace SameTask

variable {s t u : AgentState}

theorem symm (h : SameTask s t) : SameTask t s := fun k hk => (h k hk).symm

theorem trans (h : SameTask s t) (h' : SameTask t u) : SameTask s u :=
  fun k hk => (h k hk).trans (h' k hk)

theorem merge (h : SameTask s t) (u : AgentState) : SameTask (s.merge u) (t.merge u) := by
  intro k hk
  rw [TypedDict.get?_merge, TypedDict.get?_merge, h k hk]

theorem get (h : SameTask s t) {k : Key} (hk : k ≠ .workflowRunId) (v : k.Ty) :
    s.get k v = t.get k v := by
  rw [TypedDict.get, TypedDict.get, h k hk]

/-- **No edge looks at the run.** -/
theorem route_eq (h : SameTask s t) (n : Node) : route n s = route n t := by
  have hpolicy : s.get? .policyAction = t.get? .policyAction := h _ (by decide)
  cases n with
  | riskAssessment => rw [route, route, afterRisk, afterRisk, hpolicy]
  | securityPolicy => rw [route, route, afterPolicy, afterPolicy, hpolicy]
  | gitCommit => rw [route, route, afterCommit, afterCommit, h.get (by decide)]
  | runTests =>
    simp only [route, afterTests, testsPass, h.get (k := .testsFailed) (by decide),
      h.get (k := .testsPassed) (by decide), h.get (k := .testRunOk) (by decide),
      h.get (k := .iteration) (by decide), h.get (k := .maxIterations) (by decide),
      h.get (k := .failureSignatureHistory) (by decide), h.get (k := .modifiedFiles) (by decide),
      h.get (k := .maxFiles) (by decide)]
    congr
  | ciValidation =>
    simp only [route, afterCi, ciPass, h.get (k := .ciStatus) (by decide),
      h.get (k := .ciRequiresHuman) (by decide), h.get (k := .ciIteration) (by decide),
      h.get (k := .maxCiIterations) (by decide)]
    congr
  | _ => rfl

/-- The same nodes, to the same place, in the same state but for the run. -/
def Walks (a b : Walk) : Prop := a.nodes = b.nodes ∧ a.target = b.target ∧ SameTask a.state b.state

/-- Two walks that agree after their first node agree. -/
theorem walk_cons {n : Node} {u : AgentState} {us : List AgentState}
    (h : SameTask (s.merge u) (t.merge u))
    (hrest : ∀ m, Walks (walk m (s.merge u) us) (walk m (t.merge u) us)) :
    Walks (walk n s (u :: us)) (walk n t (u :: us)) := by
  rw [walk, walk, h.route_eq n]
  split
  · obtain ⟨hnodes, htarget, hstate⟩ := hrest _
    exact ⟨by dsimp only; rw [hnodes], htarget, hstate⟩
  · exact ⟨rfl, rfl, h⟩

/-- **A walk is the same task's whatever the run.** -/
theorem walk_eq (h : SameTask s t) (n : Node) (us : List AgentState) :
    Walks (walk n s us) (walk n t us) := by
  induction us generalizing n s t with
  | nil => exact ⟨rfl, rfl, h⟩
  | cons u us ih => exact walk_cons (h.merge u) fun m => ih (h.merge u) m

end SameTask

namespace Deployment

variable (d : Deployment) (runId : String)

/-- What a run of the task starts from before anything was saved. -/
def base : AgentState := (initialState d.arguments).merge (.of [⟨.maxFiles, d.maxFiles⟩])

/-- Every key but the run comes from the checkpoint, or is the initial one. -/
theorem get?_firstState (previous : AgentState) {k : Key} (hk : k ≠ .workflowRunId) :
    (d.firstState runId previous).get? k = (previous.get? k).or (d.base.get? k) := by
  have hfresh : (initialState { d.arguments with workflowRunId := runId }).get? k
      = (initialState d.arguments).get? k := by
    by_cases htask : k = .taskId
    · subst htask
      simp [initialState]
    · simp only [initialState, TypedDict.of_cons, TypedDict.get?_set_of_ne _ _ htask,
        TypedDict.get?_set_of_ne _ _ hk]
  simp only [firstState, base, TypedDict.get?_merge, hfresh, TypedDict.of_cons, TypedDict.of_nil,
    TypedDict.get?_set_of_ne _ _ hk, TypedDict.get?_empty, Option.none_or]

/-- **A resumed run is the same task's**: nothing that was saved is lost. -/
theorem sameTask_firstState {s : AgentState} (h : ∀ k, d.base.get? k ≠ none → s.get? k ≠ none) :
    SameTask (d.firstState runId s) s := by
  intro k hk
  rw [d.get?_firstState runId s hk]
  rcases hs : s.get? k with _ | v
  · have hbase : d.base.get? k = none := by
      by_contra hne
      exact h k hne hs
    rw [hbase]
    rfl
  · rfl

theorem base_le_merge {s : AgentState} (h : ∀ k, d.base.get? k ≠ none → s.get? k ≠ none)
    (u : AgentState) (k : Key) (hk : d.base.get? k ≠ none) : (s.merge u).get? k ≠ none := by
  rw [TypedDict.get?_merge]
  rcases u.get? k with _ | v
  · exact h k hk
  · simp

/-- A state a run starts from holds everything an initial state does. -/
theorem base_le_firstState (previous : AgentState) (k : Key) (h : d.base.get? k ≠ none) :
    (d.firstState runId previous).get? k ≠ none := by
  by_cases hk : k = .workflowRunId
  · subst hk
    simp [firstState]
  · rw [d.get?_firstState runId previous hk]
    rcases hprevious : previous.get? k with _ | v
    · exact h
    · simp

end Deployment

/-! ## Deaths -/

/-- No edge leads back to the first node. -/
theorem Edge.ne_plan {s : AgentState} {n : Node} {target : Target} (h : Edge s n target) :
    target ≠ .node .plan := by
  cases h <;> simp

theorem Path.target_ne_plan {ctx : WorkflowContext} {s₀ s : AgentState}
    {w₀ w : World} {x : Execution}
    {t : List Execution} {target : Target} (h : Path ctx s₀ w₀ (x :: t) target s w) :
    target ≠ .node .plan := by
  cases h with
  | cons h x hn hs hw => exact (edge_route x.node (x.stateAfter ctx)).ne_plan

section Deaths

variable {ctx : WorkflowContext} {s₀ s : AgentState} {w₀ w : World} {trace : List Execution}
  {target : Target}

/-- What is executed after the first node is not `plan`. -/
theorem Path.node_ne_plan (h : Path ctx s₀ w₀ trace target s w) {k : ℕ} {x : Execution}
    (hx : trace.reverse[k + 1]? = some x) : x.node ≠ .plan := by
  induction h with
  | nil => simp at hx
  | @cons t n s w h y hn hs hw ih =>
    rw [List.reverse_cons, List.getElem?_append, List.length_reverse] at hx
    split at hx
    · exact ih hx
    · obtain ⟨hk, rfl⟩ : k + 1 - t.length = 0 ∧ y = x := by
        simpa [List.getElem?_singleton] using hx
      cases t with
      | nil => simp at hk
      | cons z t =>
        intro hplan
        exact h.target_ne_plan (by rw [← hn, hplan])

/-- **A later death costs the task**: the graph begins at `plan`, which no run has left to
execute. -/
theorem Path.not_costsANode {d : Deployment} (h : Path d.context s₀ w₀ trace target s w)
    (runId : String) {b : Death} (hb : b.index < trace.length) (hlater : b.index ≠ 0) :
    ¬ CostsANode d runId s₀ trace.reverse b := by
  obtain ⟨k, hk⟩ := Nat.exists_eq_succ_of_ne_zero hlater
  rintro ⟨rest, hrest, hnodes, htarget, -⟩
  obtain ⟨j, rfl⟩ : ∃ j, rest = trace.reverse.drop (j + 1) := by
    rw [Death.remaining, hk] at hrest
    split at hrest
    · rcases List.mem_pair.mp hrest with rfl | rfl
      · exact ⟨k, rfl⟩
      · exact ⟨k + 1, rfl⟩
    · exact ⟨k, List.mem_singleton.mp hrest⟩
  rcases hdrop : trace.reverse.drop (j + 1) with _ | ⟨x, rest⟩
  · -- nothing is left, and the resumed run has not begun
    rw [hdrop, walk_of_path h] at htarget
    cases trace with
    | nil => simp at hb
    | cons y t => exact h.target_ne_plan htarget.symm
  · have hx : trace.reverse[j + 1]? = some x := by
      rw [← List.head?_drop, hdrop]
      rfl
    have hplan := congrArg List.head? hnodes
    rw [hdrop, List.map_cons, List.map_cons, head?_nodes_walk] at hplan
    exact h.node_ne_plan hx (Option.some.inj hplan).symm

/-- The first execution is of the state the run starts from. -/
theorem Path.state_head (h : Path ctx s₀ w₀ trace target s w) {x : Execution} {xs : List Execution}
    (hxs : trace.reverse = x :: xs) : x.state = s₀ := by
  have hx : [x] <:+ trace := ⟨xs.reverse, by rw [← List.reverse_reverse trace, hxs]; simp⟩
  have hx' := h.of_suffix hx
  generalize htarget : Target.node x.node = place at hx'
  cases hx'
  rfl

/-- **A death in the first node costs that node.** -/
theorem Path.costsANode {d : Deployment} (h : Path d.context s₀ w₀ trace target s w)
    (hbase : ∀ k, d.base.get? k ≠ none → s₀.get? k ≠ none) (runId : String) {b : Death}
    (hb : b.index < trace.length) (hfirst : b.index = 0) :
    CostsANode d runId s₀ trace.reverse b := by
  rw [← List.length_reverse] at hb
  rcases hxs : trace.reverse with _ | ⟨x, xs⟩
  · simp [hxs] at hb
  refine ⟨x :: xs, by rw [Death.remaining, hfirst]; split <;> simp, ?_⟩
  have hwalk := walk_of_path h
  rw [hxs] at hwalk
  have hagree : SameTask.Walks
      (walk .plan (d.firstState runId (b.saved d.context (x :: xs)))
        ((x :: xs).map (·.update d.context)))
      (walk .plan s₀ ((x :: xs).map (·.update d.context))) := by
    have hstate := h.state_head hxs
    rcases hafter : b.after with _ | _
    · -- the checkpoint before the body is the state the run started from
      have hsaved : b.saved d.context (x :: xs)
        = s₀ := by simp [Death.saved, hfirst, hafter, hstate]
      rw [hsaved]
      exact (d.sameTask_firstState runId hbase).walk_eq .plan _
    · -- the one after it has the update, and merging it again changes nothing
      have hsaved : b.saved d.context (x :: xs) = s₀.merge (x.update d.context) := by
        simp [Death.saved, hfirst, hafter, Execution.stateAfter, hstate]
      have hsame : SameTask ((d.firstState runId (s₀.merge (x.update d.context))).merge
          (x.update d.context)) (s₀.merge (x.update d.context)) := by
        have hmerged := (d.sameTask_firstState runId
          (d.base_le_merge hbase (x.update d.context))).merge (x.update d.context)
        rwa [TypedDict.merge_merge_self] at hmerged
      rw [hsaved, List.map_cons]
      exact SameTask.walk_cons hsame fun m => hsame.walk_eq m _
  obtain ⟨hnodes, htarget, houtcome⟩ := hagree
  refine ⟨?_, htarget, houtcome.get (k := .outcome) (by decide) ""⟩
  rw [hnodes, hwalk]

end Deaths

/-- **A killed worker costs a node exactly if it dies in the first one.** -/
theorem costsANode_iff_first (d : Deployment) (runId₀ runId : String)
    (previous : AgentState) (w₀ : World) (envs : List NodeEnv) (b : Death)
    (hb : b.index < (Runs.run (step d.context) (start (d.firstState runId₀ previous) w₀)
      envs).trace.length) :
    CostsANode d runId (d.firstState runId₀ previous)
      (Runs.run (step d.context) (start (d.firstState runId₀ previous) w₀) envs).trace.reverse b ↔
      b.index = 0 := by
  have hrun : OnPath d.context (d.firstState runId₀ previous) w₀ _ := onPath_run envs
  obtain ⟨_, _, _, h⟩ := hrun.exists_path
  constructor
  · intro hcosts
    by_contra hlater
    exact h.not_costsANode runId hb hlater hcosts
  · exact h.costsANode (d.base_le_firstState runId₀ previous) runId hb

/-- A run of the sample task whose suite fails once. -/
def debuggedRun : Config :=
  let failing : NodeEnv := { NodeEnv.calm with
    suite := .ok ⟨2, 1, 0, ["TotalTests.Rounds: AssertFailed"], 1, "Failed!", false⟩ }
  Runs.run (step sampleDeployment.context) (start
    (sampleDeployment.firstState "run-1" .empty) sampleWorld)
    (List.replicate 5 .calm ++ [failing] ++ List.replicate 7 .calm)

theorem firstDeath_costsANode :
    CostsANode sampleDeployment "run-2" (sampleDeployment.firstState "run-1" .empty)
      debuggedRun.trace.reverse ⟨0, true⟩ :=
  (costsANode_iff_first sampleDeployment "run-1" "run-2" .empty sampleWorld _ ⟨0, true⟩
    (by decide +kernel)).mpr rfl

/-- Killed in `debugging`, the run begins at `plan` again: it plans, implements and tests anew. -/
theorem debuggingDeath_costsTask :
    ¬ CostsANode sampleDeployment "run-2" (sampleDeployment.firstState "run-1" .empty)
      debuggedRun.trace.reverse ⟨6, false⟩ := by
  decide +kernel

end AgentPlatform
