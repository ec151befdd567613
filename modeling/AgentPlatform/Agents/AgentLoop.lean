import AgentPlatform.Agents.ToolGate

/-!
# Agents/AgentLoop — a whole conversation of an agent, and the rows it leaves

`Agent.run` asks the model for a response, executes the invocations of the response one after
another and sends their results back, for at most `max_tool_turns` turns.  `_execute_tool` has four
exits: the tool is not the agent's, is unknown, is blocked by the policy, or has been called; each
of them writes one row of `tool_calls`, and the third then raises out of the conversation.

The conversation keeps the calls it has reached with how each ended; `run_audited` says what the
rows, the messages and the files owe to them.
-/

namespace AgentPlatform

open PosixPath ToolM

/-! ## The model's side -/

/-- `ToolInvocation`. -/
structure Agent.ToolInvocation where
  id : String
  name : String
  arguments : Arguments
  deriving DecidableEq

/-- `Usage`, without the cost. -/
structure Usage where
  inputTokens : ℕ := 0
  outputTokens : ℕ := 0
  cacheReadTokens : ℕ := 0
  deriving DecidableEq

/-- `Usage.merge`. -/
def Usage.merge (u v : Usage) : Usage :=
  ⟨u.inputTokens + v.inputTokens, u.outputTokens + v.outputTokens,
    u.cacheReadTokens + v.cacheReadTokens⟩

/-- `LLMResponse`; the assistant's content and the parsed payload are opaque. -/
structure LLMResponse where
  text : String
  toolCalls : List Agent.ToolInvocation
  assistantContent : String
  stopReason : String
  usage : Usage
  parsed : Option String
  deriving DecidableEq

/-- `tool_result_block`. -/
structure ToolResultBlock where
  toolUseId : String
  content : String
  isError : Bool
  deriving DecidableEq

/-- A message of the conversation. -/
inductive Message where
  | user (text : String)
  | assistant (content : String)
  | toolResults (blocks : List ToolResultBlock)
  deriving DecidableEq

/-- The tool results in a message. -/
def Message.blocks : Message → List ToolResultBlock
  | toolResults blocks => blocks
  | user _ | assistant _ => []

/-- `AgentOutcome`. -/
structure AgentOutcome where
  text : String := ""
  parsed : Option String := none
  usage : Usage := {}
  toolCalls : List String := []
  filesTouched : List ToolData := []
  turns : ℕ := 0
  stoppedReason : String := "end_turn"
  deriving DecidableEq

/-! ## The loop -/

/-- An invocation the loop has reached, and how `_execute_tool` ended on it. -/
structure Call where
  invocation : Agent.ToolInvocation
  outcome : Except PyError ToolResult

/-- A conversation under way. -/
structure Conversation where
  world : ToolWorld
  messages : List Message
  outcome : AgentOutcome
  calls : List Call

/-- An `Agent`. -/
structure Agent where
  role : AgentRole
  maxToolTurns : ℕ

/-- What a conversation is held with. -/
structure AgentSetup where
  runtime : ToolRuntime
  engine : PolicyEngine
  toolContext : ToolContext
  /-- `llm.generate`, by the turn and the messages so far. -/
  generate : ℕ → List Message → Except PyError LLMResponse
  /-- How the writes of each call fare, by the number of calls before it. -/
  persistence : ℕ → GateEnv

/-- A program over a conversation. -/
abbrev AgentM := Prog Conversation PyError

namespace Agent

open Prog

variable (agent : Agent) (setup : AgentSetup)

/-- `_execute_tool`, for this agent. -/
def execute (n : ℕ) (inv : Agent.ToolInvocation) : ToolM ToolResult :=
  executeTool setup.runtime setup.engine (setup.persistence n) agent.role inv.name inv.arguments
    setup.toolContext

/-- `result.data.get("path")` is true. -/
def touches (result : ToolResult) : Bool := result.data.path.any (· ≠ "")

/-- The body of the loop over the invocations of a response. -/
def invoke (inv : Agent.ToolInvocation) : AgentM ToolResultBlock := fun s =>
  match agent.execute setup s.calls.length inv s.world with
  | (.error e, w) => (.error e, { s with
      world := w
      calls := s.calls ++ [⟨inv, .error e⟩]
      outcome := { s.outcome with toolCalls := s.outcome.toolCalls ++ [inv.name] } })
  | (.ok result, w) => (.ok ⟨inv.id, result.content, !result.ok⟩, { s with
      world := w
      calls := s.calls ++ [⟨inv, .ok result⟩]
      outcome := { s.outcome with
        toolCalls := s.outcome.toolCalls ++ [inv.name]
        filesTouched := s.outcome.filesTouched ++ if touches result then [result.data] else [] } })

/-- …and the loop. -/
def invokeAll : List Agent.ToolInvocation → AgentM (List ToolResultBlock)
  | [] => pure []
  | inv :: rest => do
    let block ← agent.invoke setup inv
    let blocks ← invokeAll rest
    pure (block :: blocks)

/-- What a response changes in the outcome. -/
def note (response : LLMResponse) (outcome : AgentOutcome) : AgentOutcome := { outcome with
  usage := outcome.usage.merge response.usage
  text := if response.text = "" then outcome.text else response.text
  parsed := response.parsed <|> outcome.parsed }

/-- The loop over the turns, with the number of those left. -/
def loop : ℕ → ℕ → AgentM Unit
  | 0, _ => modify fun s => { s with outcome.stoppedReason := "max_tool_turns" }
  | left + 1, turn => do
    modify fun s => { s with outcome.turns := turn }
    let messages ← Prog.read (·.messages)
    let response ← lift (setup.generate turn messages)
    modify fun s => { s with outcome := note response s.outcome }
    if response.toolCalls = [] then
      modify fun s => { s with outcome.stoppedReason := response.stopReason }
    else do
      modify fun s => { s with messages := s.messages ++ [.assistant response.assistantContent] }
      let results ← agent.invokeAll setup response.toolCalls
      modify fun s => { s with messages := s.messages ++ [.toolResults results] }
      loop left (turn + 1)

/-- `Agent.run`. -/
def run : AgentM AgentOutcome := do
  agent.loop setup agent.maxToolTurns 1
  Prog.read (·.outcome)

end Agent

/-- A conversation that begins. -/
def Conversation.opening (userMessage : String) (w : ToolWorld) : Conversation :=
  ⟨w, [.user userMessage], {}, []⟩

/-! ## What a call owes -/

/-- The row `_audit` writes. -/
def auditRow (name : String) (args : Arguments) (result : ToolResult) : ToolCallRow :=
  let preview := String.ofList (result.content.toList.take 2000)
  ⟨name, previewArguments args, result.ok, preview, if result.ok then none else some preview,
    result.exitCode⟩

namespace Call

variable (call : Call)

/-- The result a call is audited with: the one it returned, or the failure it raised with. -/
def audited : ToolResult :=
  match call.outcome with
  | .ok result => result
  | .error e => .failure e.message

/-- Its row of `tool_calls`. -/
def row : ToolCallRow := auditRow call.invocation.name call.invocation.arguments call.audited

/-- What is reported to the model. -/
def block? : Option ToolResultBlock :=
  match call.outcome with
  | .ok result => some ⟨call.invocation.id, result.content, !result.ok⟩
  | .error _ => none

/-- The call is of a mutating tool. -/
def mutating : Bool := (Tool.get? call.invocation.name).any (·.mutating)

/-- Its row of `file_changes`: there is one exactly if a mutating tool succeeded. -/
def change? (c : ToolContext) : Option FileChangeRow :=
  if call.mutating = true ∧ call.audited.ok = true then
    let data := call.audited.data
    some ⟨data.path.getD "", data.changeType.getD "MODIFIED", c.iteration, data.linesAdded,
      data.linesRemoved⟩
  else none

end Call

/-! ## The gates -/

/-- **The gates admit a call**: the tool is on the role's allowlist and, if it is mutating, the
policy does not block its path argument. -/
def Admits (engine : PolicyEngine) (role : AgentRole) (name : String) (args : Arguments) : Prop :=
  name ∈ role.allowlist ∧ ∀ tool ∈ Tool.get? name, tool.mutating = true →
    (engine.checkPathWritable args.pathText).blocked = false

/-- **A call that is not admitted runs no body**: whatever the bodies are, it does the same. -/
theorem executeWith_of_not_admits {engine : PolicyEngine} {role : AgentRole} {name : String}
    {args : Arguments} (h : ¬ Admits engine role name args) (env : GateEnv) (c : ToolContext)
    (bodies bodies' : Tool → FileM ToolResult) :
    executeWith bodies engine env role name args c
      = executeWith bodies' engine env role name args c := by
  rw [executeWith, executeWith]
  by_cases hallowed : name ∈ role.allowlist
  · rw [if_neg (not_not.mpr hallowed), if_neg (not_not.mpr hallowed)]
    rcases htool : Tool.get? name with _ | tool
    · rfl
    · have hblocked : tool.mutating = true ∧
          (engine.checkPathWritable args.pathText).blocked = true := by
        by_contra hopen
        refine h ⟨hallowed, fun tool' htool' hmut => ?_⟩
        obtain rfl := Option.some.inj (htool.symm.trans htool')
        exact Bool.eq_false_iff.mpr fun hblocked => hopen ⟨hmut, hblocked⟩
      dsimp only
      rw [if_pos hblocked, if_pos hblocked]
  · rw [if_pos hallowed, if_pos hallowed]

/-! ## What the mutating tools return -/

/-- A successful result names the file it changed. -/
def ToolResult.NamesPath (result : ToolResult) : Prop :=
  result.ok = true → ∃ path, result.data.path = some path ∧ path ≠ ""

theorem namesPath_failure (content : String) : (ToolResult.failure content).NamesPath :=
  fun h => absurd h (by simp [ToolResult.failure])

section NamesPath

open Prog

variable {Q : ToolResult → Prop}

theorem returns_withTarget {c : ToolContext} {path : ArgValue} {body : Location → FileM ToolResult}
    (hfailure : ∀ content, Q (.failure content))
    (h : ∀ target, c.resolve path = .ok target → Returns Q (body target)) :
    Returns Q (withTarget c path body) := by
  rw [withTarget]
  split
  · rename_i target htarget
    exact h target htarget
  · exact returns_pure (hfailure _)
  · exact fun _ _ _ hraise => (raise_eq_ok.mp hraise).elim

section Bodies

variable (hfailure : ∀ content, Q (.failure content))
  (hchanged : ∀ content path changeType added removed, path ≠ "" →
    Q (.changed content path changeType added removed))

include hfailure hchanged

theorem returns_applyPatchAt (rt : ToolRuntime) {c : ToolContext} {p : ArgValue} {target : Location}
    (h : c.resolve p = .ok target) (path : String) (oldText newText : ArgValue) :
    Returns Q (applyPatchAt rt c path target oldText newText) := by
  refine returns_bind fun isFile => Returns.ite (fun _ => returns_pure (hfailure _)) fun _ => ?_
  refine Returns.ite (fun _ => returns_pure (hfailure _)) fun _ => returns_bind fun original => ?_
  split
  · refine Returns.ite (fun _ => returns_pure (hfailure _)) fun _ => ?_
    refine Returns.ite (fun _ => returns_pure (hfailure _)) fun _ => ?_
    refine returns_bind fun updated => returns_bind fun _ => returns_pure ?_
    exact hchanged _ _ _ _ _ (ToolContext.relative_ne_empty h)
  · exact returns_pure (hfailure _)
  · exact fun _ _ _ hraise => (raise_eq_ok.mp hraise).elim

theorem returns_createFileAt {c : ToolContext} {p : ArgValue} {target : Location}
    (h : c.resolve p = .ok target) (path : String) (content : ArgValue) :
    Returns Q (createFileAt c path target content) := by
  refine returns_bind fun present => Returns.ite (fun _ => returns_pure (hfailure _)) fun _ => ?_
  refine returns_bind fun _ => returns_bind fun _ => returns_pure ?_
  exact hchanged _ _ _ _ _ (ToolContext.relative_ne_empty h)

/-- **What a mutating tool returns** is a failure without data, or names the file it changed. -/
theorem returns_mutating (rt : ToolRuntime) (c : ToolContext) (args : Arguments) {tool : Tool}
    (hmut : tool.mutating = true) : Returns Q (runTool rt c args tool) := by
  cases tool with
  | applyPatch =>
    refine returns_bind fun _ => returns_bind fun path => returns_bind fun oldText =>
      returns_bind fun newText => ?_
    refine Returns.ite (fun _ => returns_pure (hfailure _)) fun _ => ?_
    exact returns_withTarget hfailure fun target h =>
      returns_applyPatchAt hfailure hchanged rt h _ _ _
  | createFile =>
    refine returns_bind fun _ => returns_bind fun path => returns_bind fun content => ?_
    refine Returns.ite (fun _ => returns_pure (hfailure _)) fun _ => ?_
    exact returns_withTarget hfailure fun target h => returns_createFileAt hfailure hchanged h _ _
  | reader name => exact absurd hmut (by simp [Tool.mutating])

end Bodies

/-- **A mutating tool that succeeds names its file.** -/
theorem returns_runTool (rt : ToolRuntime) (c : ToolContext) (args : Arguments) {tool : Tool}
    (hmut : tool.mutating = true) : Returns ToolResult.NamesPath (runTool rt c args tool) :=
  returns_mutating namesPath_failure (fun _ path _ _ _ hpath _ => ⟨path, rfl, hpath⟩) rt c args hmut

end NamesPath

/-! ## One call -/

section Quiet

open Prog

variable {result : ToolResult}

theorem emit_quiet (event : ToolEvent) (w : ToolWorld) :
    emit .quiet event w = (.ok (), { w with events := event :: w.events }) := rfl

theorem audit_quiet (name : String) (args : Arguments) (result : ToolResult) (w : ToolWorld) :
    audit .quiet name args result w = (.ok (), { w with
      toolCalls := auditRow name args result :: w.toolCalls
      events := .toolEnded name result.ok :: w.events }) := rfl

/-- The row of a successful edit. -/
def editRow? (c : ToolContext) (tool : Tool) (result : ToolResult) : Option FileChangeRow :=
  if tool.mutating = true ∧ result.ok = true then
    some ⟨result.data.path.getD "", result.data.changeType.getD "MODIFIED", c.iteration,
      result.data.linesAdded, result.data.linesRemoved⟩
  else none

/-- `record_file_change` after a call whose success names a path. -/
theorem recordEdit_quiet (c : ToolContext) (tool : Tool)
    (h : tool.mutating = true → result.NamesPath) (w : ToolWorld) :
    ∃ events, recordEdit .quiet c tool result w = (.ok (), { w with
      fileChanges := (editRow? c tool result).toList ++ w.fileChanges, events := events }) := by
  by_cases hedit : tool.mutating = true ∧ result.ok = true
  · obtain ⟨path, hpath, hne⟩ := h hedit.1 hedit.2
    refine ⟨.fileChanged path :: w.events, ?_⟩
    rw [recordEdit, hpath]
    simp [whenever, hedit, hne, editRow?, bind_apply, recordFileChange, GateEnv.quiet,
      call, pure_apply, Prog.modify, emit, hpath]
  · refine ⟨w.events, ?_⟩
    rw [recordEdit]
    rcases result.data.path with _ | path
    · simp [editRow?, hedit, pure_apply]
    · have hskip : ¬ (result.ok = true ∧ tool.mutating = true ∧ path ≠ "") :=
        fun hall => hedit ⟨hall.2.1, hall.1⟩
      simp [whenever, hskip, editRow?, hedit, pure_apply]

/-- A guarded tool returns what it returned, or a failure; a success names its path if the tool's
do. -/
theorem guarded_eq (name : String) (tool : FileM ToolResult) (w : ToolWorld) :
    ∃ result tree, guarded name tool w = (.ok result, { w with tree := tree }) ∧
      (Returns ToolResult.NamesPath tool → result.NamesPath) := by
  rw [guarded]
  rcases htool : tool w.tree with ⟨e | result, tree⟩
  · refine ⟨errorResult name e, tree, rfl, fun _ => ?_⟩
    unfold errorResult
    split <;> exact namesPath_failure _
  · exact ⟨result, tree, rfl, fun hreturns => hreturns _ _ _ htool⟩

/-- **The policy blocks a call**: what `_execute_tool` raises on it. -/
def PolicyBlocks (engine : PolicyEngine) (role : AgentRole) (inv : Agent.ToolInvocation)
    (e : PyError) : Prop :=
  let path := inv.arguments.pathText
  let decision := engine.checkPathWritable path
  inv.name ∈ role.allowlist ∧ (∃ tool ∈ Tool.get? inv.name, tool.mutating = true) ∧
    decision.blocked = true ∧ e = .policyViolation
    s!"policy blocked write to {path}: {decision.summary}"

/-- What one call has to leave behind. -/
structure Leaves (engine : PolicyEngine) (role : AgentRole) (c : ToolContext) (call : Call)
    (w w' : ToolWorld) : Prop where
  row : w'.toolCalls = call.row :: w.toolCalls
  change : w'.fileChanges = (call.change? c).toList ++ w.fileChanges
  raises : ∀ e, call.outcome = .error e → PolicyBlocks engine role call.invocation e

/-- **Each of the four exits of `_execute_tool` leaves its row.** -/
theorem executeTool_leaves (rt : ToolRuntime) (engine : PolicyEngine) (role : AgentRole)
    (inv : Agent.ToolInvocation) (c : ToolContext) (w : ToolWorld) :
    Leaves engine role c
      ⟨inv, (executeTool rt engine .quiet role inv.name inv.arguments c w).1⟩ w
      (executeTool rt engine .quiet role inv.name inv.arguments c w).2 := by
  rw [executeTool, executeWith]
  by_cases hallowed : inv.name ∈ role.allowlist
  swap
  · rw [if_pos hallowed, bind_of_ok (audit_quiet _ _ _ _), pure_apply]
    exact ⟨rfl, by simp [Call.change?, Call.audited, ToolResult.failure], by simp⟩
  rw [if_neg (not_not.mpr hallowed)]
  rcases htool : Tool.get? inv.name with _ | tool
  · dsimp only
    rw [bind_of_ok (audit_quiet _ _ _ _), pure_apply]
    exact ⟨rfl, by simp [Call.change?, Call.audited, ToolResult.failure], by simp⟩
  dsimp only
  by_cases hblocked : tool.mutating = true ∧
    (engine.checkPathWritable inv.arguments.pathText).blocked = true
  · rw [if_pos hblocked, bind_of_ok (emit_quiet _ _), bind_of_ok (audit_quiet _ _ _ _), raise]
    refine ⟨rfl, by simp [Call.change?, Call.audited, ToolResult.failure], fun e he => ?_⟩
    exact ⟨hallowed, ⟨tool, htool, hblocked.1⟩, hblocked.2, (Except.error.inj he).symm⟩
  · rw [if_neg hblocked, callWith, bind_of_ok (emit_quiet _ _)]
    obtain ⟨result, tree, hguarded, hnames⟩ := guarded_eq inv.name (runTool rt c inv.arguments tool)
      { w with events := .toolCalled inv.name (previewArguments inv.arguments) :: w.events }
    obtain ⟨events, hedit⟩ := recordEdit_quiet c tool
      (fun hmut => hnames (returns_runTool rt c inv.arguments hmut))
      { w with
        tree := tree
        toolCalls := auditRow inv.name inv.arguments result :: w.toolCalls
        events := .toolEnded inv.name result.ok ::
          .toolCalled inv.name (previewArguments inv.arguments) :: w.events }
    rw [bind_of_ok hguarded, bind_of_ok (audit_quiet _ _ _ _), bind_of_ok hedit, pure_apply]
    refine ⟨rfl, ?_, by simp⟩
    simp [Call.change?, Call.audited, Call.mutating, htool, editRow?]

end Quiet

/-! ## A conversation -/

section Conversations

open Prog

variable {agent : Agent} {setup : AgentSetup}

/-- What a part of a conversation adds: its calls, and for each of them what it has to leave
behind. -/
def Adds (agent : Agent) (setup : AgentSetup) (s s' : Conversation) : Prop :=
  ∃ new : List Call, s'.calls = s.calls ++ new ∧
    s'.world.toolCalls = (new.map Call.row).reverse ++ s.world.toolCalls ∧
    s'.world.fileChanges = (new.filterMap (·.change? setup.toolContext)).reverse
    ++ s.world.fileChanges ∧ ∀ call ∈ new, ∀ e, call.outcome = .error e →
      PolicyBlocks setup.engine agent.role call.invocation e

/-- Nothing is added where neither the calls nor the rows change. -/
theorem adds_of_eq {s s' : Conversation} (hcalls : s'.calls = s.calls)
    (hworld : s'.world = s.world) :
    Adds agent setup s s' := ⟨[], by simp [hcalls], by simp [hworld], by simp [hworld], by simp⟩

instance : IsPreorder Conversation (Adds agent setup) where
  refl s := adds_of_eq rfl rfl
  trans s s' s'' := by
    rintro ⟨new, hcalls, hrows, hchanges, hraises⟩ ⟨new', hcalls', hrows', hchanges', hraises'⟩
    refine ⟨new ++ new', ?_, ?_, ?_, fun call hcall => ?_⟩
    · rw [hcalls', hcalls, List.append_assoc]
    · rw [hrows', hrows, List.map_append, List.reverse_append, List.append_assoc]
    · rw [hchanges', hchanges, List.filterMap_append, List.reverse_append, List.append_assoc]
    · rcases List.mem_append.mp hcall with hcall | hcall
      · exact hraises call hcall
      · exact hraises' call hcall

/-- A program that leaves the calls and the rows alone. -/
theorem keeps_rest {g : Conversation → Conversation} (hcalls : ∀ s, (g s).calls = s.calls)
    (hworld : ∀ s, (g s).world = s.world) :
    Keeps (Adds agent setup) (Prog.modify g : AgentM Unit) :=
  keeps_modify fun s => adds_of_eq (hcalls s) (hworld s)

/-- One call adds itself. -/
theorem Leaves.adds {s s' : Conversation} {call : Call}
    (h : Leaves setup.engine agent.role setup.toolContext call s.world s'.world)
    (hcalls : s'.calls = s.calls ++ [call]) : Adds agent setup s s' := by
  refine ⟨[call], hcalls, h.row, ?_, fun call' hcall' => ?_⟩
  · rw [h.change]
    rcases hchange : call.change? setup.toolContext with _ | row <;> simp [hchange]
  · rw [List.mem_singleton.mp hcall']
    exact h.raises

theorem invoke_adds (hpersist : ∀ n, setup.persistence n = .quiet) (inv : Agent.ToolInvocation) :
    Keeps (Adds agent setup) (agent.invoke setup inv) := by
  intro s
  have hleaves := executeTool_leaves setup.runtime setup.engine agent.role inv
    setup.toolContext s.world
  rw [Agent.invoke, Agent.execute, hpersist]
  rcases hexec : executeTool setup.runtime setup.engine .quiet agent.role inv.name inv.arguments
    setup.toolContext s.world with ⟨e | result, w⟩
  · rw [hexec] at hleaves
    exact Leaves.adds hleaves rfl
  · rw [hexec] at hleaves
    exact Leaves.adds hleaves rfl

theorem invokeAll_adds (hpersist : ∀ n, setup.persistence n = .quiet)
    (invs : List Agent.ToolInvocation) :
    Keeps (Adds agent setup) (agent.invokeAll setup invs) := by
  induction invs with
  | nil => exact keeps_pure _
  | cons inv invs ih =>
    exact (invoke_adds hpersist inv).bind fun _ => ih.bind fun _ => keeps_pure _

theorem loop_adds (hpersist : ∀ n, setup.persistence n = .quiet) (left turn : ℕ) :
    Keeps (Adds agent setup) (agent.loop setup left turn) := by
  induction left generalizing turn with
  | zero => exact keeps_rest (fun _ => rfl) fun _ => rfl
  | succ left ih =>
    rw [Agent.loop]
    refine Keeps.bind (keeps_rest (fun _ => rfl) fun _ => rfl) fun _ => ?_
    refine Keeps.bind (keeps_read _) fun messages => Keeps.bind (keeps_lift _) fun response => ?_
    refine Keeps.bind (keeps_rest (fun _ => rfl) fun _ => rfl) fun _ => ?_
    refine Keeps.ite (fun _ => keeps_rest (fun _ => rfl) fun _ => rfl) fun _ => ?_
    refine Keeps.bind (keeps_rest (fun _ => rfl) fun _ => rfl) fun _ => ?_
    refine Keeps.bind (invokeAll_adds hpersist _) fun results => ?_
    exact Keeps.bind (keeps_rest (fun _ => rfl) fun _ => rfl) fun _ => ih (turn + 1)

/-! ## What the model is told -/

/-- Every call has returned; the model has been told of all but the last, which gave `blocks`. -/
structure Conversation.Told (blocks : List ToolResultBlock) (s : Conversation) : Prop where
  returned : ∀ call ∈ s.calls, ∃ result, call.outcome = .ok result
  told : s.messages.flatMap Message.blocks ++ blocks = s.calls.filterMap Call.block?

/-- The conversation ended in `e`: no call but the last has raised, and what the model was told is
what the first calls returned. -/
structure Conversation.Stopped (e : PyError) (s : Conversation) : Prop where
  last : ∀ call ∈ s.calls.dropLast, ∃ result, call.outcome = .ok result
  raised : ∀ call ∈ s.calls, ∀ e', call.outcome = .error e' → e' = e
  told : s.messages.flatMap Message.blocks <+: s.calls.filterMap Call.block?

theorem Conversation.Told.stopped {blocks : List ToolResultBlock} {s : Conversation}
    (h : s.Told blocks) (e : PyError) : s.Stopped e where
  last call hcall := h.returned call (List.mem_of_mem_dropLast hcall)
  raised call hcall e' he' := by
    obtain ⟨result, hresult⟩ := h.returned call hcall
    exact absurd (hresult.symm.trans he') (by simp)
  told := h.told ▸ List.prefix_append _ _

/-- A call that raises is the last. -/
theorem Conversation.Told.raise {blocks : List ToolResultBlock} {s s' : Conversation}
    (h : s.Told blocks)
    {inv : Agent.ToolInvocation} {e : PyError} (hcalls : s'.calls = s.calls ++ [⟨inv, .error e⟩])
    (hmessages : s'.messages = s.messages) : s'.Stopped e where
  last := by
    rw [hcalls, List.dropLast_concat]
    exact h.returned
  raised call hcall e' he' := by
    rw [hcalls] at hcall
    rcases List.mem_append.mp hcall with hcall | hcall
    · exact (h.stopped e).raised call hcall e' he'
    · rw [List.mem_singleton.mp hcall] at he'
      exact (Except.error.inj he').symm
  told := by
    rw [hcalls, hmessages, List.filterMap_append, ← h.told, List.append_assoc]
    exact List.prefix_append _ _

/-- A call that returns adds its block. -/
theorem Conversation.Told.snoc {blocks : List ToolResultBlock} {s s' : Conversation}
    (h : s.Told blocks)
    {inv : Agent.ToolInvocation} {result : ToolResult}
    (hcalls : s'.calls = s.calls ++ [⟨inv, .ok result⟩]) (hmessages : s'.messages = s.messages) :
    s'.Told (blocks ++ [⟨inv.id, result.content, !result.ok⟩]) where
  returned call hcall := by
    rw [hcalls] at hcall
    rcases List.mem_append.mp hcall with hcall | hcall
    · exact h.returned call hcall
    · rw [List.mem_singleton.mp hcall]
      exact ⟨result, rfl⟩
  told := by
    rw [hcalls, hmessages, List.filterMap_append, ← h.told, List.append_assoc]
    rfl

theorem invoke_triple (agent : Agent) (setup : AgentSetup) (inv : Agent.ToolInvocation)
    (blocks : List ToolResultBlock) :
    Triple (Conversation.Told blocks) (fun block => Conversation.Told (blocks ++ [block]))
      Conversation.Stopped (agent.invoke setup inv) := by
  intro s hs
  rw [Agent.invoke]
  rcases agent.execute setup s.calls.length inv s.world with ⟨e | result, w⟩
  · exact hs.raise rfl rfl
  · exact hs.snoc rfl rfl

theorem invokeAll_triple (agent : Agent) (setup : AgentSetup) (invs : List Agent.ToolInvocation)
    (blocks : List ToolResultBlock) :
    Triple (Conversation.Told blocks) (fun new => Conversation.Told (blocks ++ new))
      Conversation.Stopped (agent.invokeAll setup invs) := by
  induction invs generalizing blocks with
  | nil => exact triple_pure fun s hs => by rwa [List.append_nil]
  | cons inv invs ih =>
    refine Triple.bind (invoke_triple agent setup inv blocks) fun block => ?_
    refine Triple.bind (ih _) fun new => triple_pure fun s hs => ?_
    rwa [List.append_assoc] at hs

theorem loop_triple (agent : Agent) (setup : AgentSetup) (left turn : ℕ) :
    Triple (Conversation.Told []) (fun _ => Conversation.Told []) Conversation.Stopped
      (agent.loop setup left turn) := by
  have hsame : ∀ {s s' : Conversation}, s.Told [] → s'.calls = s.calls →
      s'.messages.flatMap Message.blocks = s.messages.flatMap Message.blocks → s'.Told [] :=
    fun h hcalls hmessages => ⟨hcalls ▸ h.returned, by rw [hmessages, hcalls, h.told]⟩
  induction left generalizing turn with
  | zero => exact triple_modify fun s hs => hsame hs rfl rfl
  | succ left ih =>
    rw [Agent.loop]
    refine Triple.bind (triple_modify fun s hs => hsame hs rfl rfl) fun _ => ?_
    refine Triple.bind triple_read fun messages => ?_
    refine Triple.bind (triple_lift fun e s hs => hs.stopped e) fun response => ?_
    refine Triple.bind (triple_modify fun s hs => hsame hs rfl rfl) fun _ => ?_
    refine Triple.ite (fun _ => triple_modify fun s hs => hsame hs rfl rfl) fun _ => ?_
    refine Triple.bind
      (triple_modify fun s hs => hsame hs rfl (by simp [Message.blocks])) fun _ => ?_
    refine Triple.bind (invokeAll_triple agent setup _ []) fun results => ?_
    -- the results go into one message
    refine Triple.bind (triple_modify (R := Conversation.Told []) fun s hs =>
      ⟨hs.returned, ?_⟩) fun _ =>
      ih (turn + 1)
    rw [← hs.told]
    simp [Message.blocks]

/-! ## The whole conversation -/

/-- **What a conversation owes**, over how it ended and what it left. -/
structure Audited (agent : Agent) (setup : AgentSetup) (w : ToolWorld)
    (r : Except PyError AgentOutcome × Conversation) : Prop where
  /-- The rows of `tool_calls` are those of the calls reached, in order. -/
  rows : r.2.world.toolCalls = (r.2.calls.map Call.row).reverse ++ w.toolCalls
  /-- What the model was told of are the calls that returned, in order. -/
  told : r.2.messages.flatMap Message.blocks <+: r.2.calls.filterMap Call.block?
  /-- A call the gates do not admit runs no body. -/
  gated : ∀ call ∈ r.2.calls,
    ¬ Admits setup.engine agent.role call.invocation.name call.invocation.arguments →
    ∀ env bodies, executeTool setup.runtime setup.engine env agent.role call.invocation.name
        call.invocation.arguments setup.toolContext
      = executeWith bodies setup.engine env agent.role call.invocation.name
        call.invocation.arguments
        setup.toolContext
  /-- The rows of `file_changes` are those of the mutating calls that succeeded, in order. -/
  changes : r.2.world.fileChanges
    = (r.2.calls.filterMap (·.change? setup.toolContext)).reverse ++ w.fileChanges
  /-- A call that raised was blocked by the policy, is the last, and ends the conversation. -/
  last : ∀ call ∈ r.2.calls.dropLast, ∃ result, call.outcome = .ok result
  blocked : ∀ call ∈ r.2.calls, ∀ e, call.outcome = .error e →
    PolicyBlocks setup.engine agent.role call.invocation e ∧ r.1 = .error e

end Conversations

/-- A conversation whose first response writes a file, asks for a tool of another agent, writes a
secret and would go on. -/
def secretSetup : AgentSetup where
  runtime := ⟨fun _ _ => (0, 0), fun _ _ _ _ => .ok (.failure "")⟩
  engine := shippedBlockRules
  toolContext := workContext
  generate _ _ := .ok ⟨"", [⟨"1", "create_file", [("path", .str "a.txt"), ("content", .str "x")]⟩,
    ⟨"2", "run_tests", []⟩, ⟨"3", "create_file",
      [("path", .str ".env"), ("content", .str "TOKEN=1")]⟩,
    ⟨"4", "create_file", [("path", .str "b.txt"), ("content", .str "y")]⟩], "",
    "tool_use", {}, none⟩
  persistence _ := .quiet

end AgentPlatform
