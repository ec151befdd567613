import AgentPlatform.Agents.ToolGate
import AgentPlatform.Graph.NodeSpecs
import AgentPlatform.Graph.Workflow
import AgentPlatform.Tools.LinkedWrites

/-!
# Graph/Checkout — where an agent's edits land

A tool is anchored at `ToolContext.root`: the task's worktree once one is registered, the
developer's repository before.  Three agents edit in whatever the registry holds when their node
starts, so their edits stay out of the repository only as long as a node that left no worktree
behind left a block.  And from a worktree a path leads into the repository only if resolving it was
cut short at a link that leads back to itself.

* `blocked_of_unregistered` — `run_tests` and `ci_validation` always do: without a worktree they hit
  the workspace boundary.
* `checkoutUntouched_of_failsClosed` — so the repository is safe as long as `implementation` does,
  and no path that was cut short leads there.
-/

namespace AgentPlatform

open PosixPath Symlinks

/-! ## The tool context of a node -/

/-- The agent a node runs. -/
def Node.agent? : Node → Option AgentRole
  | .plan => some .planner
  | .repositoryAnalysis => some .repository
  | .riskAssessment => some .risk
  | .implementation => some .implementation
  | .testGeneration => some .testing
  | .debugging => some .debugging
  | .ciDebugging => some .ci
  | _ => none

/-- The location an absolute path names. -/
def locate (path : String) : Location := PosixPath.resolve [] path.toList

/-- `Nodes._tool_context`, for the workspace it finds. -/
def toolContext (s : AgentState) (workspace : Option Workspace) : ToolContext where
  repositoryPath := locate (s.get .repositoryPath "")
  workspace := workspace.map fun ws => locate ws.path
  iteration := s.get .iteration 0
  writeAllowed := s.get? .policyAction ≠ some "BLOCK"

/-- The tool context an execution runs its agent in, if it gets that far. -/
def Execution.toolContext? (ctx : WorkflowContext) (x : Execution) : Option ToolContext :=
  match x.node with
  | .plan | .repositoryAnalysis | .riskAssessment => some (toolContext x.state none)
  | .implementation =>
    match Nodes.ensureWorkspace ctx x.env { x.world with log := [] } with
    | (.ok _, w) => some (toolContext x.state w.workspace)
    | (.error _, _) => none
  | .testGeneration | .debugging | .ciDebugging => some (toolContext x.state x.world.workspace)
  | _ => none

/-- The files on a disk with links, and the rows tool calls leave behind. -/
abbrev DiskWorld := GatedWorld Storage

/-- `tool.run(tool_context, **arguments)`, on a disk. -/
def runOnDisk (rt : LinkedWrites.DiskRuntime) (c : ToolContext) (args : Arguments) :
    Tool → LinkedWrites.DiskM ToolResult
  | .applyPatch => LinkedWrites.applyPatch rt c args
  | .createFile => LinkedWrites.createFile c args
  | .reader name => fun s => (rt.readOnly name c args s, s)

/-- A tool call of a model's response, with what goes wrong around it. -/
structure ToolInvocation where
  name : String
  arguments : Arguments
  env : GateEnv

/-- `Agent._execute_tool`, on a disk. -/
def callTool (rt : LinkedWrites.DiskRuntime) (engine : PolicyEngine) (role : AgentRole)
    (c : ToolContext) (w : DiskWorld) (call : ToolInvocation) : DiskWorld :=
  (executeWith (runOnDisk rt c call.arguments) engine call.env role call.name call.arguments c w).2

/-- A condition on a call, for a repository and the context the call is made in. -/
abbrev CallCondition := Location → ToolContext → DiskWorld → ToolInvocation → Prop

/-- No condition. -/
def anyCall : CallCondition := fun _ _ _ _ => True

/-- The location is under the repository, but not under the worktree. -/
def ToolContext.InCheckout (c : ToolContext) (repository q : Location) : Prop :=
  repository <+: q ∧ ∀ worktree ∈ c.workspace, ¬ worktree <+: q

/-- **The path of an edit does not lead into the checkout** where resolving it was cut short: at a
link that leads back to itself, behind which other links are left as they are. -/
def staysOut : CallCondition := fun repository c w call =>
  ∀ tool ∈ Tool.get? call.name, tool.mutating = true → ∀ path ∈ call.arguments.lookup "path",
    LinkedWrites.Lands (fun q => ¬ c.InCheckout repository q) w.tree.disk c.root path

/-- **Calls of this agent leave the repository alone**, in every sequence of calls that meet the
condition: no file is created and no content changes where `repository_path` leads, outside the
worktree.  The worktree is a directory that `WorkspaceManager` has resolved. -/
def KeepsRepository (ok : CallCondition) (role : AgentRole) (c : ToolContext) : Prop :=
  ∀ (rt : LinkedWrites.DiskRuntime) (engine : PolicyEngine) (w : DiskWorld)
    (calls : List ToolInvocation) (repository : Location),
    ReadTools.resolvePath w.tree.disk c.repositoryPath = .ok repository →
    (∀ worktree ∈ c.workspace, w.tree.disk.IsReal worktree) →
    Runs.Along (callTool rt engine role c) (ok repository c) w calls →
    LinkedWrites.WritesInside (fun q => ¬ c.InCheckout repository q) w.tree
      (Runs.run (callTool rt engine role c) w calls).tree

/-- **The developer's checkout is never written**: not by the edits of a run, and not by any tool
call that an agent of one of its executions could make. -/
structure CheckoutUntouched (ctx : WorkflowContext) (w₀ : World) (ok : CallCondition) (c : Config) :
    Prop where
  checkout : c.world.checkout = w₀.checkout
  calls : ∀ x ∈ c.trace, ∀ role ∈ x.node.agent?, ∀ tc ∈ x.toolContext? ctx,
    KeepsRepository ok role tc

/-- What `WorkspaceManager.create` raises, if it does. -/
def NodeEnv.createFailure? (env : NodeEnv) : Option PyError :=
  match env.createWorkspace with
  | .error e => some e
  | .ok _ => none

/-- Where there is no worktree yet, whatever `WorkspaceManager.create` raises is a hard boundary. -/
def CreateFailsClosed (x : Execution) : Prop :=
  x.node = .implementation → x.world.workspace = none →
    ∀ e ∈ x.env.createFailure?, e.isBoundary = true

instance : DecidablePred CreateFailsClosed := fun _ => inferInstanceAs (Decidable (_ → _))

/-! ## What a tool context lets an agent write -/

section Calls

variable {ok : CallCondition} {role : AgentRole} {c : ToolContext}

/-- Agents whose tools write nothing leave the repository alone. -/
theorem keepsRepository_of_same
    (h : ∀ (rt : LinkedWrites.DiskRuntime) (args : Arguments), ∀ name ∈ role.allowlist,
      ∀ tool ∈ Tool.get? name, Prog.Keeps (· = ·) (runOnDisk rt c args tool)) :
    KeepsRepository ok role c := by
  intro rt engine w calls repository _ _ _
  have hsame : w.tree = (Runs.run (callTool rt engine role c) w calls).tree := by
    refine Runs.run_invariant (P := fun v : DiskWorld => w.tree = v.tree)
      (fun v call hv => ?_) rfl calls
    exact hv.trans (executeWith_keeps call.env call.name call.arguments c
      (fun hallowed tool htool _ => h rt call.arguments call.name hallowed tool htool) v)
  exact hsame ▸ refl w.tree

/-- The agents that run before there is a worktree only read. -/
theorem keepsRepository_of_reads (hrole : role = .planner ∨ role = .repository ∨ role = .risk) :
    KeepsRepository ok role c := by
  refine keepsRepository_of_same fun rt args name hname tool htool => ?_
  have hreads : ∀ name ∈ role.allowlist, ∀ tool ∈ Tool.get? name, tool.mutating = false := by
    rcases hrole with rfl | rfl | rfl <;> decide
  cases tool with
  | reader name => exact fun _ => rfl
  | applyPatch => cases hreads name hname _ htool
  | createFile => cases hreads name hname _ htool

/-- Without leave to write nothing is written. -/
theorem keepsRepository_of_denied (h : c.writeAllowed = false) : KeepsRepository ok role c := by
  refine keepsRepository_of_same fun rt args _ _ tool _ => ?_
  cases tool with
  | reader name => exact fun _ => rfl
  | applyPatch => exact LinkedWrites.editTool_keeps_of_denied rt .applyPatch h
  | createFile => exact LinkedWrites.editTool_keeps_of_denied rt .createFile h

/-- **One call from a worktree** that leads to one of the locations `P`. -/
theorem runOnDisk_writesInside {P : Location → Prop} (rt : LinkedWrites.DiskRuntime)
    {args : Arguments} {s : Storage} (tool : Tool) (hroot : s.disk.IsReal c.root)
    (hinside : ∀ q, c.root <+: q → P q)
    (hlands : tool.mutating = true → ∀ path ∈ args.lookup "path",
      LinkedWrites.Lands P s.disk c.root path) :
    LinkedWrites.WritesInside P s (runOnDisk rt c args tool s).2 := by
  cases tool with
  | reader name => exact refl s
  | applyPatch => exact LinkedWrites.editTool_writesInside rt .applyPatch hroot hinside (hlands rfl)
  | createFile => exact LinkedWrites.editTool_writesInside rt .createFile hroot hinside (hlands rfl)

/-- **An agent anchored in a worktree leaves the repository alone**, while the paths it names stay
out of it: the worktree is met without a link before a call, and so it is after the call. -/
theorem keepsRepository_of_worktree (h : c.workspace ≠ none) : KeepsRepository staysOut role c := by
  intro rt engine w calls repository _ hreal halong
  obtain ⟨worktree, hws⟩ := Option.ne_none_iff_exists'.mp h
  have hroot : c.root = worktree := by rw [ToolContext.root, hws]; rfl
  have hinside : ∀ q, c.root <+: q → ¬ c.InCheckout repository q :=
    fun q hq hin => hin.2 worktree hws (hroot ▸ hq)
  refine (halong.invariant (P := fun v => v.tree.disk.IsReal c.root ∧
    LinkedWrites.WritesInside (fun q => ¬ c.InCheckout repository q) w.tree v.tree) ?_ ?_).2
  · rintro v call ⟨hanchor, hkept⟩ hout
    have hcall : LinkedWrites.WritesInside (fun q => ¬ c.InCheckout repository q) v.tree
        (callTool rt engine role c v call).tree := by
      rcases tree_executeWith call.env call.name call.arguments c (runOnDisk rt c call.arguments)
        engine role v with hsame | ⟨tool, htool, htree⟩
      · exact hsame.symm ▸ refl v.tree
      · exact htree.symm ▸ runOnDisk_writesInside rt tool hanchor hinside (hout tool htool)
    exact ⟨hcall.isReal hanchor, trans_of (LinkedWrites.WritesInside _) hkept hcall⟩
  · exact ⟨hroot ▸ hreal worktree hws, refl w.tree⟩

/-- **An agent anchored in a worktree, or without leave to write, leaves the repository alone.** -/
theorem keepsRepository_of_anchored (h : c.workspace ≠ none ∨ c.writeAllowed = false) :
    KeepsRepository staysOut role c := by
  rcases h with hws | hdenied
  · exact keepsRepository_of_worktree hws
  · exact keepsRepository_of_denied hdenied

end Calls

/-! ## The registry -/

section Registry

variable {ctx : WorkflowContext} {x : Execution}

/-- No change takes a registered worktree away. -/
theorem Made.registered {allowed : Change → Bool} {w w' : World} (h : Made allowed w w')
    (hw : w.workspace ≠ none) : w'.workspace ≠ none ∧ w'.checkout = w.checkout := by
  refine h.invariant (P := fun v => v.workspace ≠ none ∧ v.checkout = w.checkout)
    (fun c v _ hv => ?_) ⟨hw, rfl⟩
  cases c with
  | wrote edit =>
    have hsome : v.workspace.isSome = true := Option.ne_none_iff_isSome.mp hv.1
    simp only [World.change, World.write, hsome, if_true]
    exact hv
  | created workspace files => exact ⟨by simp [World.change], hv.2⟩
  | _ => exact hv

/-- An event that is written, and what follows. -/
theorem NodeM.emit_bind_of_none {α : Type} {env : NodeEnv} {event : EventType} {a : α} {w : World}
    (h : env.emit event = none) : (do NodeM.emit env event; pure a : NodeM α) w
      = (.ok a, { w with log := .emitted event :: w.log }) := by
  simp [NodeM.emit, NodeM.record, Prog.bind_apply, Prog.modify, Prog.call, h, Prog.pure_apply]

/-- …and one that is lost. -/
theorem NodeM.emit_bind_of_some {α : Type} {env : NodeEnv} {event : EventType} {a : α} {w : World}
    {e : PyError} (h : env.emit event = some e) : (do NodeM.emit env event; pure a : NodeM α) w
      = (.error e, { w with log := .emitted event :: w.log }) := by
  simp [NodeM.emit, NodeM.record, Prog.bind_apply, Prog.modify, Prog.call, h, Prog.raise]

/-- What `implementation` finds or makes. -/
theorem ensureWorkspace_cases (ctx : WorkflowContext) (env : NodeEnv) (w : World) :
    (∃ ws w', Nodes.ensureWorkspace ctx env w = (.ok ws, w') ∧ w'.workspace ≠ none ∧
      w'.checkout = w.checkout) ∨
    (∃ e w', Nodes.ensureWorkspace ctx env w = (.error e, w') ∧ w'.checkout = w.checkout ∧
      (w'.workspace = none → w.workspace = none ∧ env.createWorkspace = .error e)) := by
  rcases hws : w.workspace with _ | ws
  · rcases hcreate : env.createWorkspace with e | files
    · refine .inr ⟨e, (Nodes.createWorkspace ctx env w).2, ?_, ?_, fun _ => ⟨rfl, rfl⟩⟩
      · simp [Nodes.ensureWorkspace, Prog.bind_apply, Prog.read, hws,
          Nodes.createWorkspace, hcreate]
      · rw [Nodes.createWorkspace, hcreate]
        dsimp only
        split <;> rfl
    · have hcreated : Nodes.ensureWorkspace ctx env w = (do
          NodeM.emit env .workspaceCreated
          pure ⟨ctx.workspacePath, s!"agent/{ctx.taskId}"⟩ : NodeM Workspace)
          { w with workspace := some ⟨ctx.workspacePath, s!"agent/{ctx.taskId}"⟩, tree := files
                   commits := [] } := by
        simp only [Nodes.ensureWorkspace, Prog.bind_apply, Prog.read, hws,
          Nodes.createWorkspace, hcreate]
      rw [hcreated]
      rcases hemit : env.emit .workspaceCreated with _ | e
      · refine .inl ⟨_, _, NodeM.emit_bind_of_none hemit, ?_⟩
        exact ⟨by simp, rfl⟩
      · refine .inr ⟨e, _, NodeM.emit_bind_of_some hemit, rfl, ?_⟩
        simp
  · refine .inl ⟨ws, w, ?_, by simp [hws], rfl⟩
    simp [Nodes.ensureWorkspace, Prog.bind_apply, Prog.read, hws, Prog.pure_apply]

/-- `implementation` after its worktree. -/
theorem implementation_apply (ctx : WorkflowContext) (env : NodeEnv) (s : AgentState) (w : World) :
    (∃ w', (Nodes.implementation ctx env s w).2 = w' ∧ w'.workspace ≠ none ∧
      w'.checkout = w.checkout) ∨
    (∃ e w', Nodes.implementation ctx env s w = (.error e, w') ∧ w'.checkout = w.checkout ∧
      (w'.workspace = none → w.workspace = none ∧ env.createWorkspace = .error e)) := by
  rcases ensureWorkspace_cases ctx env w with ⟨ws, w', hok, hws, hcheckout⟩ | ⟨e, w', herr, h⟩
  · refine .inl ⟨_, rfl, ?_⟩
    rw [Nodes.implementation, Prog.bind_apply, hok]
    have hmade : Prog.Keeps (Made fun _ => true) (do
        let reply ← Nodes.runAgent s env.implementation
        let diff ← Nodes.refreshDiff env
        pure ((TypedDict.merge (.of [⟨.implementationSummary, reply.summary⟩,
          ⟨.modifiedFiles, reply.changedFiles⟩, ⟨.testNotes, reply.testNotes⟩]) diff).merge
          (.of [⟨.workspacePath, ws.path⟩, ⟨.gitBranch, ws.branch⟩])) : NodeM AgentState) := by
      refine (runAgent_makes s _ fun _ => rfl).bind fun reply => ?_
      exact (refreshDiff_makes env fun _ _ => rfl).bind fun _ => Prog.keeps_pure _
    obtain ⟨hkept, hsame⟩ := (hmade w').registered hws
    exact ⟨hkept, hsame.trans hcheckout⟩
  · refine .inr ⟨e, w', ?_, h⟩
    rw [Nodes.implementation, Prog.bind_apply, herr]

/-- A body that raised is an execution that failed. -/
theorem Execution.raised_of_result {e : PyError} {w : World} (h : x.result ctx = (.error e, w)) :
    x.raised ctx = some e ∧ x.worldAfter ctx = w := by
  refine ⟨raised_eq_some.mpr ?_, ?_⟩
  · rw [outcome, h]
  · rw [worldAfter, h]

/-- **An `implementation` that leaves no worktree behind failed to create one.** -/
theorem Execution.create_of_unregistered (hn : x.node = .implementation)
    (hws : (x.worldAfter ctx).workspace = none) :
    ∃ e, x.world.workspace = none ∧ x.env.createWorkspace = .error e ∧ x.raised ctx = some e := by
  rcases implementation_apply ctx x.env x.state { x.world with log := [] }
    with ⟨w', hw', hsome, -⟩ | ⟨e, w', herr, -, hnone⟩
  · refine absurd hws ?_
    rw [Execution.worldAfter, Execution.result, hn]
    exact hw' ▸ hsome
  · have hresult : x.result ctx = (.error e, w') := by rw [Execution.result, hn]; exact herr
    obtain ⟨hraised, hworld⟩ := Execution.raised_of_result hresult
    obtain ⟨hold, hcreate⟩ := hnone (hworld ▸ hws)
    exact ⟨e, hold, hcreate, hraised⟩

/-- The nodes whose agents edit in whatever worktree is registered. -/
def editors : List Node := [.testGeneration, .debugging, .ciDebugging]

/-- **An editing agent has a worktree, or no leave to write.** -/
def Execution.Anchored (x : Execution) : Prop :=
  x.node ∈ editors → x.world.workspace = none → x.state.get? .policyAction = some "BLOCK"

/-- Without a worktree, `run_tests` and `ci_validation` hit the boundary. -/
theorem blocked_of_unregistered (hn : x.node = .runTests ∨ x.node = .ciValidation)
    (hws : x.world.workspace = none) : (x.stateAfter ctx).get? .policyAction = some "BLOCK" := by
  have hresult : ∃ m w, x.result ctx = (.error (.workspaceViolation m), w) := by
    rcases hn with hn | hn <;> rw [Execution.result, hn]
    · exact ⟨_, _, by simp only [Nodes.body, Nodes.runTests, Prog.bind_apply,
        NodeM.getWorkspace, hws]; rfl⟩
    · exact ⟨_, _, by simp only [Nodes.body, Nodes.ciValidation, Prog.bind_apply,
        NodeM.getWorkspace, hws]; rfl⟩
  obtain ⟨m, w, hresult⟩ := hresult
  exact Execution.blocked_of_boundary (Execution.raised_of_result hresult).1 rfl

/-- **The way to an editing agent**: from a node that left a worktree, or a block. -/
theorem blocked_of_next {m : Node} (hclosed : CreateFailsClosed x) (hnext : x.next ctx = .node m)
    (hm : m ∈ editors) (hws : (x.worldAfter ctx).workspace = none) :
    (x.stateAfter ctx).get? .policyAction = some "BLOCK" := by
  have hedge : Edge (x.stateAfter ctx) x.node (.node m) := hnext ▸ edge_route _ _
  have hpred : x.node = .implementation ∨ x.node = .runTests ∨ x.node = .ciValidation := by
    generalize x.node = n at hedge
    cases hedge <;> first | exact absurd hm (by decide) | simp
  rcases hpred with hn | hn
  · obtain ⟨e, hold, hcreate, hraised⟩ := Execution.create_of_unregistered hn hws
    refine Execution.blocked_of_boundary hraised (hclosed hn hold e ?_)
    rw [NodeEnv.createFailure?, hcreate]
    rfl
  · refine blocked_of_unregistered hn ?_
    rwa [Execution.workspace_worldAfter (by rcases hn with hn | hn <;> simp [hn])] at hws

/-! ## The edits of an execution -/

/-- A change that is no edit leaves the checkout alone. -/
theorem Made.checkout_eq {allowed : Change → Bool} {w w' : World} (h : Made allowed w w')
    (hedits : ∀ edit, allowed (.wrote edit) = false) : w'.checkout = w.checkout := by
  refine h.eq_of (f := World.checkout) fun c v hc => ?_
  cases c with
  | wrote edit => exact absurd hc (by simp [hedits])
  | _ => rfl

/-- An agent under a block edits nothing. -/
theorem runAgent_makes_of_blocked {α : Type} {allowed : Change → Bool} {s : AgentState}
    (call : AgentCall α) (h : s.get? .policyAction = some "BLOCK") :
    Prog.Keeps (Made allowed) (Nodes.runAgent s call) := by
  rw [Nodes.runAgent, Prog.whenever, if_neg (by simp [h])]
  exact (Prog.keeps_pure _).bind fun _ => Prog.keeps_lift _

/-- Nothing but logging. -/
theorem editor_makes_of_blocked (ctx : WorkflowContext) {n : Node} (env : NodeEnv) {s : AgentState}
    (hn : n ∈ editors) (h : s.get? .policyAction = some "BLOCK") :
    Prog.Keeps (Made fun c => c.isLogged) (Nodes.body ctx env n s) := by
  simp only [editors, List.mem_cons, List.not_mem_nil, or_false] at hn
  rcases hn with rfl | rfl | rfl
  · refine (runAgent_makes_of_blocked _ h).bind fun reply => ?_
    exact (refreshDiff_makes env fun _ _ => rfl).bind fun _ => Prog.keeps_pure _
  · refine (emit_makes env rfl).bind fun _ => (noteFailures_makes _ _ _).bind fun noted => ?_
    refine (runAgent_makes_of_blocked _ h).bind fun reply => ?_
    refine (noteAnalysis_makes _ _ _).bind fun previous => ?_
    exact (refreshDiff_makes env fun _ _ => rfl).bind fun _ => Prog.keeps_pure _
  · refine (runAgent_makes_of_blocked _ h).bind fun reply => ?_
    exact (refreshDiff_makes env fun _ _ => rfl).bind fun _ => Prog.keeps_pure _

/-- **An anchored execution leaves the checkout alone.** -/
theorem Execution.Anchored.checkout (h : x.Anchored) :
    (x.worldAfter ctx).checkout = x.world.checkout := by
  by_cases himpl : x.node = .implementation
  · rw [Execution.worldAfter, Execution.result, himpl]
    rcases implementation_apply ctx x.env x.state { x.world with log := [] }
      with ⟨w', hw', -, hcheckout⟩ | ⟨e, w', herr, hcheckout, -⟩
    · exact (congrArg World.checkout hw').trans hcheckout
    · exact (congrArg (fun r => World.checkout (Prod.snd r)) herr).trans hcheckout
  by_cases heditor : x.node ∈ editors
  · by_cases hws : x.world.workspace = none
    · have hmade := editor_makes_of_blocked ctx x.env heditor (h heditor hws)
        { x.world with log := [] }
      exact hmade.checkout_eq fun _ => rfl
    · exact (x.makes.registered hws).2
  · refine x.makes.checkout_eq fun edit => ?_
    revert himpl heditor
    cases x.node <;> simp [editors, Node.may]

/-- **An anchored execution's agent leaves the repository alone**, whatever it calls. -/
theorem Execution.Anchored.calls (h : x.Anchored) {role : AgentRole} {tc : ToolContext}
    (hrole : role ∈ x.node.agent?) (htc : tc ∈ x.toolContext? ctx) :
    KeepsRepository staysOut role tc := by
  rw [Execution.toolContext?] at htc
  have hedits : x.node ∈ editors → tc ∈ some (toolContext x.state x.world.workspace) →
      KeepsRepository staysOut role tc := by
    intro heditor htc
    obtain rfl := Option.some.inj htc
    refine keepsRepository_of_anchored ?_
    by_cases hws : x.world.workspace = none
    · exact .inr (by simp [toolContext, h heditor hws])
    · exact .inl (by simpa [toolContext] using hws)
  cases hn : x.node
  case plan | repositoryAnalysis | riskAssessment =>
    refine keepsRepository_of_reads ?_
    simp only [hn, Node.agent?, Option.mem_some_iff] at hrole
    simp [← hrole]
  case implementation =>
    rw [hn] at htc
    dsimp only at htc
    rcases ensureWorkspace_cases ctx x.env { x.world with log := [] }
      with ⟨ws, w', hok, hws, -⟩ | ⟨e, w', herr, -⟩
    · rw [hok] at htc
      obtain rfl := Option.some.inj htc
      exact keepsRepository_of_anchored (.inl (by simpa [toolContext] using hws))
    · rw [herr] at htc
      cases htc
  case testGeneration | debugging | ciDebugging =>
    exact hedits (by simp [hn, editors]) (by simpa [hn] using htc)
  all_goals simp [hn, Node.agent?] at hrole

/-! ## Runs -/

variable {w₀ : World} {c : Config} {env : NodeEnv}

/-- The next execution of the run is anchored. -/
def AnchoredAt (c : Config) : Prop :=
  ∀ n ∈ editors, c.pc = .node n → c.world.workspace = none →
    c.state.get? .policyAction = some "BLOCK"

theorem AnchoredAt.execution (h : AnchoredAt c) (hx : c.execution? env = some x) : x.Anchored := by
  intro hn hws
  obtain ⟨hpc, -, hbefore⟩ := execution?_eq_some hx
  simp only [Config.execution?, hpc, hbefore, Option.some.injEq] at hx
  rw [← hx] at hws ⊢
  exact h _ hn hpc hws

/-- What a run keeps. -/
structure Safe (ctx : WorkflowContext) (w₀ : World) (c : Config) : Prop where
  anchored : AnchoredAt c
  untouched : CheckoutUntouched ctx w₀ staysOut c

theorem anchoredAt_of_next (hclosed : CreateFailsClosed x) (hx : c.execution? env = some x) :
    AnchoredAt (step ctx c env) := by
  intro n hn hpc hws
  rcases hescape : env.escape with _ | e
  · rw [step_of_execution hx hescape] at hpc hws ⊢
    have hnext : x.next ctx = .node n := by
      rcases h : x.next ctx with m | _
      · simpa [h, Target.pc] using hpc
      · simp [h, Target.pc] at hpc
    exact blocked_of_next hclosed hnext hn hws
  · obtain ⟨hnode, -, hbefore⟩ := execution?_eq_some hx
    simp [step, hnode, hbefore, hescape] at hpc

/-- The world a step leaves is the world its execution leaves. -/
theorem world_step (ctx : WorkflowContext) (hx : c.execution? env = some x) :
    (step ctx c env).world = x.worldAfter ctx ∧ x.world = c.world := by
  rcases hpc : c.pc with n | _ | e
  · rcases hbefore : env.before with _ | e
    · simp only [Config.execution?, hpc, hbefore, Option.some.injEq] at hx
      subst hx
      rcases hescape : env.escape with _ | e <;> simp [step, hpc, hbefore, hescape]
    · simp [Config.execution?, hpc, hbefore] at hx
  · simp [Config.execution?, hpc] at hx
  · simp [Config.execution?, hpc] at hx

/-- **One step that fails closed.** -/
theorem safe_step (h : Safe ctx w₀ c) (hok : Each CreateFailsClosed c env) :
    Safe ctx w₀ (step ctx c env) := by
  rcases hx : c.execution? env with _ | x
  · have hkept : (step ctx c env).world = c.world ∧ (step ctx c env).trace = c.trace ∧
        ∀ n, (step ctx c env).pc ≠ .node n := by
      rcases hpc : c.pc with n | _ | e
      · rcases hbefore : env.before with _ | e
        · simp [Config.execution?, hpc, hbefore] at hx
        · simp [step, hpc, hbefore]
      · simp [step, hpc]
      · simp [step, hpc]
    obtain ⟨hworld, htrace, hover⟩ := hkept
    refine ⟨fun n _ hpc => absurd hpc (hover n), ?_, ?_⟩
    · exact (congrArg World.checkout hworld).trans h.untouched.checkout
    · rw [htrace]
      exact h.untouched.calls
  have hanchored := h.anchored.execution hx
  obtain ⟨hworld, hbefore⟩ := world_step ctx hx
  refine ⟨anchoredAt_of_next (hok x hx) hx, ?_, fun y hy => ?_⟩
  · rw [hworld, hanchored.checkout, hbefore]
    exact h.untouched.checkout
  · rw [trace_step, hx, Option.toList_some, List.singleton_append, List.mem_cons] at hy
    rcases hy with rfl | hy
    · exact fun role hrole tc htc => hanchored.calls hrole htc
    · exact h.untouched.calls y hy

/-- **The developer's checkout is never written**, in every run whose `implementation` fails closed,
by calls whose paths stay out of it. -/
theorem checkoutUntouched_of_failsClosed (ctx : WorkflowContext) (s₀ : AgentState) (w₀ : World)
    (envs : List NodeEnv)
    (h : Runs.Along (step ctx) (Each CreateFailsClosed) (start s₀ w₀) envs) :
    CheckoutUntouched ctx w₀ staysOut (Runs.run (step ctx) (start s₀ w₀) envs) := by
  have hstart : Safe ctx w₀ (start s₀ w₀) := by
    refine ⟨fun n hn hpc => ?_, rfl, by simp [start]⟩
    obtain rfl : Node.plan = n := Pc.node.inj hpc
    exact absurd hn (by decide)
  exact (h.invariant (fun c env hc hok => safe_step hc hok) hstart).untouched

end Registry

/-- A repository that is not a git repository. -/
def refusedWorktree : List NodeEnv :=
  let refused : NodeEnv := { NodeEnv.calm with
    createWorkspace := .error (.workspaceViolation "not a git repository: /repo") }
  [.calm, .calm, .calm, refused] ++ List.replicate 6 .calm

theorem refusedWorktree_untouched :
    CheckoutUntouched sampleContext sampleWorld staysOut (sampleRun refusedWorktree) :=
  checkoutUntouched_of_failsClosed _ _ _ _ (by decide +kernel)

/-- A worktree that cannot be made because no process can be started, and a test the agent then
adds. -/
def failedWorktree : List NodeEnv :=
  let unstarted : NodeEnv := { NodeEnv.calm with
    createWorkspace := .error (.other "BlockingIOError" "Resource temporarily unavailable") }
  let adds : NodeEnv := { NodeEnv.calm with
    testing := ⟨[("tests/TotalTests.cs", "new test")], .ok ⟨"", [], ["tests/TotalTests.cs"]⟩⟩ }
  [.calm, .calm, .calm, unstarted, adds]

/-- A repository without files. -/
def emptyRepository : Storage where
  disk :=
    { entries := [(["repo".toList], .dir)]
      below := by decide +kernel
      unique := by decide +kernel
      parents := by decide +kernel }
  contents := fun _ => []

/-- The call of the testing agent, in the developer's repository. -/
def checkoutCall : DiskWorld :=
  callTool LinkedWrites.quietRuntime shippedBlockRules .testing ⟨["repo".toList], none, 0, true⟩
    ⟨emptyRepository, [], [], []⟩
    ⟨"create_file", [("path", .str "TotalTests.cs"), ("content", .str "new test")], .quiet⟩

/-- **The test lands in the developer's checkout**: `test_generation` runs its agent in a context
anchored there, with leave to write. -/
theorem failedWorktree_writesCheckout :
    (sampleRun failedWorktree).trace.head?.map
        (fun x => (x.node, x.toolContext? sampleContext))
        = some (.testGeneration, some ⟨["repo".toList], none, 0, true⟩) ∧
      checkoutCall.tree.disk.kindAt ["repo".toList, "TotalTests.cs".toList] = some .file ∧
      ¬ CheckoutUntouched sampleContext sampleWorld anyCall (sampleRun failedWorktree) := by
  refine ⟨by decide +kernel, by decide +kernel, fun h => ?_⟩
  have hwritten : (sampleRun failedWorktree).world.checkout
      = [("tests/TotalTests.cs", "new test"), ("src/Total.cs", "broken")] := by decide +kernel
  have hkept := h.checkout
  rw [hwritten] at hkept
  exact absurd hkept (by decide)

end AgentPlatform
