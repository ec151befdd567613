import AgentPlatform.Policies.Evaluator
import AgentPlatform.Tools.ApplyPatch

/-!
# Agents/ToolGate — the three gates of `Agent._execute_tool`

A tool call passes the agent's allowlist, the policy engine and, inside the tool, the workspace
boundary.  The policy gate reads the path **as the model spelled it**; the tool writes to the
location the spelling **resolves** to.  So the gate protects a blocked file exactly against the
spellings whose raw text some `BLOCK` rule matches as well (`Slips`).
-/

namespace AgentPlatform

open PosixPath

/-- The agents, by the name their prompt and their allowlist are filed under. -/
inductive AgentRole where
  | planner | repository | implementation | testing | debugging | ci | risk
  deriving DecidableEq, Repr

namespace AgentRole

/-- `Agent.name`. -/
def name : AgentRole → String
  | planner => "planner"
  | repository => "repository"
  | implementation => "implementation"
  | testing => "testing"
  | debugging => "debugging"
  | ci => "ci"
  | risk => "risk"

/-- `AGENT_TOOL_ALLOWLIST`. -/
def allowlist : AgentRole → List String
  | planner => []
  | repository => ["search_code", "read_file", "list_directory", "find_symbol", "find_references",
      "get_dependencies"]
  | implementation => ["read_file", "search_code", "find_symbol", "list_directory", "apply_patch",
      "create_file", "git_diff"]
  | testing => ["read_file", "search_code", "find_symbol", "list_directory", "apply_patch",
      "create_file", "run_build"]
  | debugging => ["read_file", "search_code", "find_symbol", "find_references", "apply_patch",
      "create_file", "git_diff"]
  | ci => ["read_file", "search_code", "apply_patch", "git_diff"]
  | risk => ["read_file", "git_diff", "list_directory"]

end AgentRole

/-- A registered tool: one of the two that edit source files, or another, by its name. -/
inductive Tool where
  | applyPatch
  | createFile
  | reader (name : String)
  deriving DecidableEq, Repr

namespace Tool

/-- `Tool.mutating`. -/
def mutating : Tool → Bool
  | applyPatch | createFile => true
  | reader _ => false

/-- `ToolRegistry.get`. -/
def get? (name : String) : Option Tool :=
  if name = "apply_patch" then some applyPatch
  else if name = "create_file" then some createFile
  else if name ∈ ["read_file", "list_directory", "search_code", "find_symbol", "find_references",
      "get_dependencies", "git_diff", "git_status", "run_build", "run_tests"] then
    some (reader name)
  else none

theorem get?_applyPatch : get? "apply_patch" = some applyPatch := if_pos rfl

theorem get?_createFile : get? "create_file" = some createFile := by decide

end Tool

/-- `tool.run(tool_context, **arguments)`. -/
def runTool (rt : ToolRuntime) (c : ToolContext) (args : Arguments) : Tool → FileM ToolResult
  | .applyPatch => applyPatch rt c args
  | .createFile => createFile c args
  | .reader name => fun t => (rt.readOnly name c args t, t)

/-! ## The audit trail -/

/-- `_preview_arguments`: long texts are truncated. -/
def previewArguments (args : Arguments) : Arguments :=
  let truncated (s : String) : String :=
    if s.length > 500 then
      s!"{String.ofList (s.toList.take 500)}...[{s.length - 500} more chars]" else s
  args.map fun (key, value) => (key, match value with
    | .str s => .str (truncated s)
    | .surrogates w =>
      if w.points.length > 500 then
        let more := s!"...[{w.points.length - 500} more chars]"
        .ofPoints (w.points.take 500 ++ more.toList.map Char.toNat)
      else value
    | .json _ => value)

/-- A row of `tool_calls`. -/
structure ToolCallRow where
  tool : String
  arguments : Arguments
  ok : Bool
  resultPreview : String
  error : Option String
  exitCode : Option ℤ
  deriving DecidableEq, Repr

/-- A row of `file_changes`. -/
structure FileChangeRow where
  path : String
  changeType : String
  iteration : ℤ
  linesAdded : ℕ
  linesRemoved : ℕ
  deriving DecidableEq, Repr

/-- An event of a tool call, with its payload. -/
inductive ToolEvent where
  | policyBlocked (tool path : String) (reasons : List String)
  | toolCalled (tool : String) (arguments : Arguments)
  | toolEnded (tool : String) (ok : Bool)
  | fileChanged (path : String)
  deriving DecidableEq, Repr

/-- `EventType` of an event. -/
def ToolEvent.type : ToolEvent → EventType
  | policyBlocked _ _ _ => .policyBlocked
  | toolCalled _ _ => .toolCalled
  | toolEnded _ ok => if ok then .toolCompleted else .toolFailed
  | fileChanged _ => .fileChanged

/-- What a tool call reads and writes: the files, whatever they are modelled by, and the rows it
leaves behind, newest first. -/
structure GatedWorld (τ : Type) where
  tree : τ
  toolCalls : List ToolCallRow
  fileChanges : List FileChangeRow
  events : List ToolEvent

/-- …over a file tree. -/
abbrev ToolWorld := GatedWorld FileTree

/-- A program over the tool world. -/
abbrev GatedM (τ : Type) := Prog (GatedWorld τ) PyError

abbrev ToolM := GatedM FileTree

/-- The failures of the database and of the event bus during one call. -/
structure GateEnv where
  /-- The insert of the event fails. -/
  append : EventType → Option PyError
  /-- The publication of an event that is stored fails. -/
  publish : EventType → Option PyError
  recordToolCall : Option PyError
  recordFileChange : Option PyError

namespace ToolM

variable {τ : Type}

/-- `context.emit`. -/
def emit (env : GateEnv) (event : ToolEvent) : GatedM τ Unit := do
  Prog.call (env.append event.type)
  Prog.modify fun w => { w with events := event :: w.events }
  Prog.call (env.publish event.type)

/-- `Agent._audit`. -/
def audit (env : GateEnv) (name : String) (args : Arguments) (result : ToolResult) :
    GatedM τ Unit := do
  Prog.call env.recordToolCall
  let preview := String.ofList (result.content.toList.take 2000)
  Prog.modify fun w => { w with toolCalls :=
    ⟨name, previewArguments args, result.ok, preview, if result.ok then none else some preview,
      result.exitCode⟩ :: w.toolCalls }
  emit env (.toolEnded name result.ok)

/-- `context.record_file_change`. -/
def recordFileChange (env : GateEnv) (row : FileChangeRow) : GatedM τ Unit := do
  Prog.call env.recordFileChange
  Prog.modify fun w => { w with fileChanges := row :: w.fileChanges }

/-- What a tool that raised is reported as. -/
def errorResult (name : String) : PyError → ToolResult
  | .workspaceViolation m => .failure s!"workspace violation: {m}"
  | .other "TypeError" m => .failure s!"invalid arguments for {name}: {m}"
  | e => .failure s!"{e.cls}: {e.message}"

/-- The guarded call of the tool: whatever it raises comes back as a result. -/
def guarded (name : String) (tool : Prog τ PyError ToolResult) : GatedM τ ToolResult := fun w =>
  match tool w.tree with
  | (.ok result, t) => (.ok result, { w with tree := t })
  | (.error e, t) => (.ok (errorResult name e), { w with tree := t })

end ToolM

open ToolM

/-- `str(arguments.get("path", ""))`: the path the policy gate reads. -/
def Arguments.pathText (args : Arguments) : String :=
  ((args.lookup "path").map ArgValue.toStr).getD ""

section Gates

variable {τ : Type}

/-- The rows a successful edit leaves. -/
def recordEdit (env : GateEnv) (c : ToolContext) (tool : Tool) (result : ToolResult) :
    GatedM τ Unit :=
  match result.data.path with
  | none => pure ()
  | some path => Prog.whenever (result.ok = true ∧ tool.mutating = true ∧ path ≠ "") do
    recordFileChange env ⟨path, result.data.changeType.getD "MODIFIED", c.iteration,
      result.data.linesAdded, result.data.linesRemoved⟩
    emit env (.fileChanged path)

/-- `Agent._execute_tool` after the policy gate, around the body of a tool. -/
def callWith (env : GateEnv) (name : String) (args : Arguments) (c : ToolContext) (tool : Tool)
    (body : Prog τ PyError ToolResult) : GatedM τ ToolResult := do
  emit env (.toolCalled name (previewArguments args))
  let result ← guarded name body
  audit env name args result
  recordEdit env c tool result
  pure result

/-- `Agent._execute_tool`, around the bodies of the tools. -/
def executeWith (bodies : Tool → Prog τ PyError ToolResult) (engine : PolicyEngine) (env : GateEnv)
    (role : AgentRole) (name : String) (args : Arguments) (c : ToolContext) : GatedM τ ToolResult :=
  if name ∉ role.allowlist then do
    let refusal := ToolResult.failure s!"tool '{name}' is not available to the {role.name} agent"
    audit env name args refusal
    pure refusal
  else match Tool.get? name with
    | none => do
      let refusal := ToolResult.failure s!"unknown tool: {name}"
      audit env name args refusal
      pure refusal
    | some tool =>
      let decision := engine.checkPathWritable args.pathText
      if tool.mutating = true ∧ decision.blocked = true then do
        let message := s!"policy blocked write to {args.pathText}: {decision.summary}"
        emit env (.policyBlocked name args.pathText decision.reasons)
        audit env name args (.failure message)
        Prog.raise (.policyViolation message)
      else callWith env name args c tool (bodies tool)

end Gates

/-- `Agent._execute_tool`. -/
def executeTool (rt : ToolRuntime) (engine : PolicyEngine) (env : GateEnv) (role : AgentRole)
    (name : String) (args : Arguments) (c : ToolContext) : ToolM ToolResult :=
  executeWith (runTool rt c args) engine env role name args c

/-! ## What a call can write -/

section Frame

variable {τ : Type}

/-- The files are related. -/
def OnTree (R : τ → τ → Prop) (w w' : GatedWorld τ) : Prop := R w.tree w'.tree

instance (R : τ → τ → Prop) [IsPreorder τ R] : IsPreorder (GatedWorld τ) (OnTree R) where
  refl w := refl_of R w.tree
  trans _ _ _ h₁ h₂ := trans_of R h₁ h₂

variable {R : τ → τ → Prop} [IsPreorder τ R] (env : GateEnv) (name : String) (args : Arguments)
  (c : ToolContext)

theorem emit_keeps (event : ToolEvent) : Prog.Keeps (OnTree R) (emit env event) := by
  refine Prog.Keeps.bind (Prog.keeps_call _) fun _ => ?_
  refine Prog.Keeps.bind (Prog.keeps_modify fun w => ?_) fun _ => Prog.keeps_call _
  exact refl_of R w.tree

theorem audit_keeps (result : ToolResult) :
    Prog.Keeps (OnTree R) (audit env name args result) := by
  refine Prog.Keeps.bind (Prog.keeps_call _) fun _ => ?_
  refine Prog.Keeps.bind (Prog.keeps_modify fun w => ?_) fun _ => emit_keeps env _
  exact refl_of R w.tree

theorem recordEdit_keeps (tool : Tool) (result : ToolResult) :
    Prog.Keeps (OnTree R) (recordEdit env c tool result) := by
  rw [recordEdit]
  rcases result.data.path with _ | path
  · exact Prog.keeps_pure _
  · refine (Prog.Keeps.bind ?_ fun _ => emit_keeps env _).whenever
    refine Prog.Keeps.bind (Prog.keeps_call _) fun _ => Prog.keeps_modify fun w => ?_
    exact refl_of R w.tree

theorem tree_guarded (body : Prog τ PyError ToolResult) (w : GatedWorld τ) :
    (guarded name body w).2.tree = (body w.tree).2 := by
  rw [guarded]
  rcases body w.tree with ⟨_ | _, _⟩ <;> rfl

theorem callWith_keeps (tool : Tool) {body : Prog τ PyError ToolResult} (h : Prog.Keeps R body) :
    Prog.Keeps (OnTree R) (callWith env name args c tool body) := by
  refine Prog.Keeps.bind (emit_keeps env _) fun _ => ?_
  refine Prog.Keeps.bind (fun w => ?_) fun result => ?_
  · rw [OnTree, tree_guarded]
    exact h w.tree
  · refine Prog.Keeps.bind (audit_keeps env _ _ _) fun _ => ?_
    exact Prog.Keeps.bind (recordEdit_keeps env c _ _) fun _ => Prog.keeps_pure _

/-- **A gated call does to the files what its tool does, and only past the gates**: the tool is on
the allowlist, and no `BLOCK` rule matches the path text of one that is mutating. -/
theorem executeWith_keeps {engine : PolicyEngine} {role : AgentRole}
    {bodies : Tool → Prog τ PyError ToolResult}
    (h : name ∈ role.allowlist → ∀ tool, Tool.get? name = some tool →
      (tool.mutating = true → ¬ engine.Blocks args.pathText) → Prog.Keeps R (bodies tool)) :
    Prog.Keeps (OnTree R) (executeWith bodies engine env role name args c) := by
  rw [executeWith]
  refine Prog.Keeps.ite (fun _ => ?_) fun hallowed => ?_
  · exact Prog.Keeps.bind (audit_keeps env _ _ _) fun _ => Prog.keeps_pure _
  rcases htool : Tool.get? name with _ | tool
  · exact Prog.Keeps.bind (audit_keeps env _ _ _) fun _ => Prog.keeps_pure _
  refine Prog.Keeps.ite (fun _ => ?_) fun hopen => ?_
  · refine Prog.Keeps.bind (emit_keeps env _) fun _ => ?_
    exact Prog.Keeps.bind (audit_keeps env _ _ _) fun _ => Prog.keeps_raise _
  · refine callWith_keeps env name args c tool (h (not_not.mp hallowed) tool htool ?_)
    exact fun hmut hblocks => hopen ⟨hmut, (engine.blocked_checkPathWritable _).mpr hblocks⟩

/-- **What a gated call does to the files**: nothing, or what its tool does. -/
theorem tree_executeWith (bodies : Tool → Prog τ PyError ToolResult) (engine : PolicyEngine)
    (role : AgentRole) (w : GatedWorld τ) :
    (executeWith bodies engine env role name args c w).2.tree = w.tree ∨
      ∃ tool, Tool.get? name = some tool ∧
        (executeWith bodies engine env role name args c w).2.tree = (bodies tool w.tree).2 := by
  rw [executeWith]
  split
  next =>
    exact .inl (Prog.Keeps.bind (audit_keeps (R := (· = ·)) env _ _ _)
      (fun _ => Prog.keeps_pure _) w).symm
  next =>
    rcases htool : Tool.get? name with _ | tool
    · exact .inl (Prog.Keeps.bind (audit_keeps (R := (· = ·)) env _ _ _)
        (fun _ => Prog.keeps_pure _) w).symm
    dsimp only
    split
    next =>
      refine .inl (Prog.Keeps.bind (emit_keeps (R := (· = ·)) env _) (fun _ => ?_) w).symm
      exact Prog.Keeps.bind (audit_keeps env _ _ _) fun _ => Prog.keeps_raise _
    next =>
      rw [callWith, Prog.bind_apply]
      rcases hemit : emit env (.toolCalled name (previewArguments args)) w with ⟨e | _, w₁⟩
      · exact .inl ((emit_keeps (R := (· = ·)) env _).of_eq hemit).symm
      · refine .inr ⟨tool, rfl, ?_⟩
        have hsame : w.tree = w₁.tree := (emit_keeps (R := (· = ·)) env _).of_eq hemit
        rw [hsame, ← tree_guarded name]
        dsimp only
        rw [Prog.bind_apply]
        rcases hguarded : guarded name (bodies tool) w₁ with ⟨e | result, w₂⟩
        · rfl
        · exact (Prog.Keeps.bind (audit_keeps (R := (· = ·)) env _ _ _) (fun _ =>
            Prog.Keeps.bind (recordEdit_keeps env c _ _) fun _ => Prog.keeps_pure _) w₂).symm

end Frame

theorem runTool_keeps (rt : ToolRuntime) (c : ToolContext) (args : Arguments) (tool : Tool) :
    Prog.Keeps (OnlyAt (args.target? c)) (runTool rt c args tool) := by
  cases tool with
  | applyPatch => exact applyPatch_keeps rt c args
  | createFile => exact createFile_keeps c args
  | reader name => exact fun t => refl t

theorem runTool_inLimits (rt : ToolRuntime) (c : ToolContext) (args : Arguments) (tool : Tool) :
    Prog.Keeps InLimits (runTool rt c args tool) := by
  cases tool with
  | applyPatch => exact applyPatch_inLimits rt c args
  | createFile => exact createFile_inLimits c args
  | reader name => exact fun t => refl t

/-- No file outside the locations `P` is created or changed, and no directory is replaced. -/
structure WritesWithin (P : Location → Prop) (t t' : FileTree) : Prop where
  files : ∀ q, ¬ P q → t'.fileAt q = t.fileAt q
  dirs : ∀ q, t q = some .dir → t' q = some .dir

instance (P : Location → Prop) : IsPreorder FileTree (WritesWithin P) where
  refl _ := ⟨fun _ _ => rfl, fun _ h => h⟩
  trans _ _ _ h₁ h₂ := ⟨fun q hq => (h₂.files q hq).trans (h₁.files q hq),
    fun q hq => h₂.dirs q (h₁.dirs q hq)⟩

/-- **A gated call writes to its resolved target alone, and only past the policy gate**: a mutating
tool whose path text some `BLOCK` rule matches writes nothing. -/
theorem executeTool_keeps (rt : ToolRuntime) (engine : PolicyEngine) (env : GateEnv)
    (role : AgentRole) (name : String) (args : Arguments) (c : ToolContext) :
    Prog.Keeps (OnTree (WritesWithin fun q => args.target? c = some q ∧
        ∀ tool, Tool.get? name = some tool → tool.mutating = true → ¬ engine.Blocks args.pathText))
      (executeTool rt engine env role name args c) := by
  refine executeWith_keeps env name args c fun _ tool htool hopen t => ?_
  have honly := runTool_keeps rt c args tool t
  refine ⟨fun q hq => honly.files q fun htarget => hq ⟨htarget, ?_⟩, honly.dirs⟩
  intro tool' htool' hmut
  obtain rfl := Option.some.inj (htool.symm.trans htool')
  exact hopen hmut

/-! ## Blocked files -/

section Blocked

variable (engine : PolicyEngine) (c : ToolContext)

/-- The worktree-relative path as a rule reads it: a byte that is no text is some character. -/
def ToolContext.shown (c : ToolContext) (q : Location) : String :=
  String.ofList (FileNames.readable (c.relative q).toList)

/-- **No call that names `path` writes a blocked file**: whatever the role, the tool of the two, the
other arguments, the worktree and the failures around the call, no file whose worktree-relative
resolved path some `BLOCK` rule matches is created or changed. -/
def NeverWritesBlocked (path : Option ArgValue) : Prop :=
  ∀ (rt : ToolRuntime) (env : GateEnv) (role : AgentRole) (name : String) (args : Arguments)
    (w : ToolWorld), (name = "apply_patch" ∨ name = "create_file") → args.lookup "path" = path →
    w.tree c.root = some .dir → w.tree.NamesFit →
    ∀ q, (executeTool rt engine env role name args c w).2.tree.fileAt q ≠ w.tree.fileAt q →
      ¬ engine.Blocks (c.shown q)

/-- **A spelling slips past the gate**: it resolves below the root to a path that a file can have
and some `BLOCK` rule matches, and no `BLOCK` rule matches the spelling itself. -/
def Slips (path : Option ArgValue) : Prop :=
  c.writeAllowed = true ∧ ∃ p target, path = some p ∧ c.resolve p = .ok target ∧
    target ≠ c.root ∧ Fits target ∧ engine.Blocks (c.shown target) ∧ ¬ engine.Blocks p.toStr

end Blocked

/-- A mutating tool's call changes a file only past the gate, below the root. -/
theorem changed_of_executeTool {rt : ToolRuntime} {engine : PolicyEngine} {env : GateEnv}
    {role : AgentRole} {name : String} {args : Arguments} {c : ToolContext} {w : ToolWorld}
    (hname : name = "apply_patch" ∨ name = "create_file") (hroot : w.tree c.root = some .dir)
    (hfits : w.tree.NamesFit) {q : Location}
    (hq : (executeTool rt engine env role name args c w).2.tree.fileAt q ≠ w.tree.fileAt q) :
    args.target? c = some q ∧ ¬ engine.Blocks args.pathText ∧ q ≠ c.root ∧ Fits q := by
  have hkeeps := executeTool_keeps rt engine env role name args c w
  have hmut : ∃ tool, Tool.get? name = some tool ∧ tool.mutating = true := by
    rcases hname with rfl | rfl
    · exact ⟨.applyPatch, Tool.get?_applyPatch, rfl⟩
    · exact ⟨.createFile, Tool.get?_createFile, rfl⟩
  obtain ⟨tool, hget, htool⟩ := hmut
  obtain ⟨htarget, hopen⟩ := not_not.mp fun h => hq (hkeeps.files q h)
  have hlimits : InLimits w.tree (executeTool rt engine env role name args c w).2.tree :=
    executeWith_keeps env name args c (fun _ tool _ _ => runTool_inLimits rt c args tool) w
  refine ⟨htarget, hopen tool hget htool, ?_, hlimits.fits hfits hq⟩
  rintro rfl
  refine hq ?_
  rw [FileTree.fileAt, FileTree.fileAt, hkeeps.dirs _ hroot, hroot]

/-- The tree in which everything above `target` is a directory and nothing else exists. -/
def freshTree (target : Location) : FileTree := fun q =>
  if q.isPrefixOf target ∧ q ≠ target then some .dir else none

theorem freshTree_self (target : Location) : freshTree target target = none := by
  simp [freshTree]

/-- A location above the target is a directory of it. -/
theorem freshTree_above {target q : Location} (h : q <+: target) (hne : q ≠ target) :
    freshTree target q = some .dir := by
  rw [freshTree, if_pos ⟨List.isPrefixOf_iff_prefix.mpr h, hne⟩]

/-- …and so is its parent and whatever is above that. -/
theorem freshTree_above_dropLast {target q : Location} (h : q <+: target.dropLast)
    (hne : target ≠ []) : freshTree target q = some .dir := by
  refine freshTree_above (h.trans target.dropLast_prefix) ?_
  rintro rfl
  have hle := h.length_le
  have hpos := List.length_pos_of_ne_nil hne
  rw [List.length_dropLast] at hle
  omega

theorem freshTree_eq_none {target q : Location} (h : freshTree target q = none)
    (hq : q <+: target) :
    q = target := by
  by_contra hne
  rw [freshTree_above hq hne] at h
  cases h

/-- What is there has names that fit. -/
theorem namesFit_freshTree {target : Location} (h : Fits target) : (freshTree target).NamesFit := by
  intro q hq name hname
  rw [freshTree] at hq
  split_ifs at hq with hprefix
  · exact h.names name ((List.isPrefixOf_iff_prefix.mp hprefix.1).subset hname)
  · exact absurd rfl hq

theorem tooLong_freshTree {target : Location} (h : Fits target) :
    (freshTree target).tooLong target = false := by
  rw [FileTree.tooLong, Bool.or_eq_false_iff, decide_eq_false_iff_not, Nat.not_lt,
    List.any_eq_false]
  refine ⟨h.path, fun q hq hlong => ?_⟩
  simp only [Bool.and_eq_true, decide_eq_true_eq, Bool.not_eq_true'] at hlong
  obtain rfl := freshTree_eq_none hlong.1.1 ((List.mem_inits _ _).mp hq)
  rw [fits_getLast h] at hlong
  cases hlong.2

/-- A call of `create_file` for an empty file. -/
def createArguments (p : ArgValue) : Arguments := [("path", p), ("content", .str "")]

theorem lookup_createArguments (p : ArgValue) : (createArguments p).lookup "path" = some p := by
  simp [createArguments]

theorem pathText_createArguments (p : ArgValue) : (createArguments p).pathText = p.toStr := by
  rw [Arguments.pathText, lookup_createArguments]
  rfl

/-- **A path that resolves to an absent file creates it**, its parents being directories. -/
theorem createFile_freshTree {c : ToolContext} {p : ArgValue} {target : Location}
    (hw : c.writeAllowed = true) (hp : c.resolve p = .ok target) (hne : target ≠ [])
    (hfits : Fits target) :
    (createFile c (createArguments p) (freshTree target)).2.fileAt target = some (.text []) := by
  have hparent : freshTree target target.dropLast = some .dir :=
    freshTree_above_dropLast List.prefix_rfl hne
  have hfile : ∀ q, (freshTree target).isFile q = false := by
    intro q
    rw [FileTree.isFile, FileTree.fileAt, freshTree]
    split <;> simp_all
  have hthere : ∀ q ∈ target.dropLast.inits, freshTree target q = some .dir := fun q hq =>
    freshTree_above_dropLast ((List.mem_inits _ _).mp hq) hne
  have hunfit : target.dropLast.inits.find? (FileM.unfit (freshTree target)) = none := by
    refine List.find?_eq_none.mpr fun q hq => ?_
    simp [FileM.unfit, hthere q hq]
  have hdirs : FileM.mkdirs target.dropLast (freshTree target) = (.ok (), freshTree target) := by
    rw [FileM.mkdirs, if_neg (by simp [hfile]), if_neg (by simp [hfile]), hunfit]
    refine congrArg _ (funext fun q => if_neg fun h => ?_)
    rw [hthere q (List.contains_iff_mem.mp h.1)] at h
    cases h.2
  have hopen : FileM.canOpen (freshTree target) target = true := by
    simp [FileM.canOpen, freshTree_self, hparent, fits_getLast hfits]
  have hpresent : FileM.present target (freshTree target) = (.ok false, freshTree target) := by
    simp [FileM.present, FileM.probe, tooLong_freshTree hfits, FileTree.present, freshTree_self]
  simp [createFile, createArguments, Prog.bind_apply, FileM.bindPositional, FileM.keyword,
    List.lookup_cons, Prog.whenever, Prog.pure_apply, hw, withTarget, hp, createFileAt, hpresent,
    hdirs, FileM.writeText, hopen]

/-- The call in which no database write and no publication fails. -/
def GateEnv.quiet : GateEnv := ⟨fun _ => none, fun _ => none, none, none⟩

/-- **Past the gate the tool runs**: where nothing around it fails, the call leaves the tree the
tool leaves. -/
theorem executeTool_tree {rt : ToolRuntime} {engine : PolicyEngine} {role : AgentRole}
    {name : String} {args : Arguments} {c : ToolContext} {tool : Tool} (w : ToolWorld)
    (hrole : name ∈ role.allowlist) (hget : Tool.get? name = some tool)
    (hopen : ¬ engine.Blocks args.pathText) :
    (executeTool rt engine .quiet role name args c w).2.tree
      = (runTool rt c args tool w.tree).2 := by
  have hgate : ¬ (tool.mutating = true ∧ (engine.checkPathWritable args.pathText).blocked = true) :=
    fun h => hopen ((engine.blocked_checkPathWritable _).mp h.2)
  have hemit : ∀ (event : ToolEvent) (w : ToolWorld), ∃ es,
      emit .quiet event w = (.ok (), { w with events := es }) := fun event w => ⟨_, rfl⟩
  have haudit : ∀ (result : ToolResult) (w : ToolWorld), ∃ es rows,
      audit .quiet name args result w = (.ok (), { w with events := es, toolCalls := rows }) :=
    fun result w => ⟨_, _, rfl⟩
  have hedit : ∀ (result : ToolResult) (w : ToolWorld),
      (recordEdit .quiet c tool result w).2.tree = w.tree := by
    intro result w
    rw [recordEdit]
    rcases result.data.path with _ | path
    · rfl
    · dsimp only
      rw [Prog.whenever]
      split <;> rfl
  have hguarded : ∀ (tool : FileM ToolResult) (w : ToolWorld), ∃ result,
      guarded name tool w = (.ok result, { w with tree := (tool w.tree).2 }) := by
    intro tool w
    rw [guarded]
    rcases tool w.tree with ⟨e | result, t⟩
    · exact ⟨_, rfl⟩
    · exact ⟨_, rfl⟩
  rw [executeTool, executeWith, if_neg (not_not.mpr hrole), hget]
  dsimp only
  rw [if_neg hgate, callWith]
  obtain ⟨es, hes⟩ := hemit (.toolCalled name (previewArguments args)) w
  obtain ⟨result, hresult⟩ := hguarded (runTool rt c args tool) { w with events := es }
  obtain ⟨es', rows, hrows⟩ := haudit result
    { w with events := es, tree := (runTool rt c args tool w.tree).2 }
  have hrec := hedit result
    { w with events := es', tree := (runTool rt c args tool w.tree).2, toolCalls := rows }
  simp only [Prog.bind_apply, hes, hresult, hrows]
  rcases hr : recordEdit .quiet c tool result
    { w with events := es', tree := (runTool rt c args tool w.tree).2, toolCalls := rows }
    with ⟨_ | _, w'⟩ <;> simpa [hr, Prog.pure_apply] using hrec

/-- **What protects a blocked file**: no call that names a path writes one, exactly when the path
does not slip past the gate. -/
theorem neverWritesBlocked_iff (engine : PolicyEngine) (c : ToolContext)
    (path : Option ArgValue) : NeverWritesBlocked engine c path ↔ ¬ Slips engine c path := by
  constructor
  · rintro hnever ⟨hw, p, target, rfl, hp, hne, hfits, hblocks, hopen⟩
    have hroot : c.root <+: target := (resolveInside_eq_ok hp).2
    have hnil : target ≠ [] := by
      rintro rfl
      exact hne (List.prefix_nil.mp hroot).symm
    obtain ⟨w, htree⟩ : ∃ w : ToolWorld, w.tree = freshTree target := ⟨⟨_, [], [], []⟩, rfl⟩
    have hcreated : (executeTool ⟨fun _ _ => (0, 0), fun _ _ _ _ => .ok (.failure "")⟩ engine .quiet
        .implementation "create_file" (createArguments p) c w).2.tree.fileAt target
          ≠ w.tree.fileAt target := by
      rw [executeTool_tree w (by decide) Tool.get?_createFile
        ((pathText_createArguments p).symm ▸ hopen), htree, runTool,
        createFile_freshTree hw hp hnil hfits, FileTree.fileAt, freshTree_self]
      simp
    exact hnever _ _ _ _ _ w (.inr rfl) (lookup_createArguments p)
      (htree ▸ freshTree_above hroot hne.symm) (htree ▸ namesFit_freshTree hfits) target hcreated
      hblocks
  · intro hslips rt env role name args w hname hpath hroot hfits q hq hblocks
    obtain ⟨htarget, hopen, hne, hfit⟩ := changed_of_executeTool hname hroot hfits hq
    obtain ⟨hw, p, hlookup, hp⟩ := Arguments.target?_eq_some htarget
    have htext : args.pathText = p.toStr := by rw [Arguments.pathText, hlookup]; rfl
    exact hslips ⟨hw, p, q, hpath ▸ hlookup, hp, hne, hfit, hblocks, htext ▸ hopen⟩

/-- ASCII lower case, and no regular expression that matches. -/
def asciiRuntime : TextRuntime := ⟨fun t => t.map Char.toLower, fun _ _ => false⟩

/-- The two rules of `policies/rules.yaml` that block a path. -/
def shippedBlockRules : PolicyEngine where
  rules := [
    ⟨"block-secrets", .block, .high, "Never let the agent add or modify credential material.",
      [".env", "*.pem", "*.pfx", "*.key", "*credentials*", "*secrets*"], [], []⟩,
    ⟨"production-infrastructure", .block, .high,
      "Production infrastructure is out of scope for the POC (section 54).", [],
      ["infra/prod/", "deploy/production/", "kubernetes/production/"], []⟩]
  thresholds := ⟨some 12, some 800, some 4⟩
  runtime := asciiRuntime

/-- The context of a task whose worktree is `/work`. -/
def workContext : ToolContext := ⟨["repo".toList], some ["work".toList], 0, true⟩

/-- An empty worktree, before any call. -/
def emptyWork : ToolWorld :=
  ⟨fun q => if q = [] ∨ q = ["work".toList] then some .dir else none, [], [], []⟩

/-- The implementation agent calls `create_file` for `.env/`. -/
def envSlashCall : ToolWorld :=
  (executeTool ⟨fun _ _ => (0, 0), fun _ _ _ _ => .ok (.failure "")⟩ shippedBlockRules .quiet
    .implementation "create_file" [("path", .str ".env/"), ("content", .str "TOKEN=1")]
    workContext emptyWork).2

/-- **A trailing slash writes the blocked file**: `create_file` for `.env/` creates `.env`. -/
theorem createFile_env_slash :
    envSlashCall.tree.fileAt ["work".toList, ".env".toList] = some (.text "TOKEN=1".toList) ∧
      ¬ NeverWritesBlocked shippedBlockRules workContext (some (.str ".env/")) := by
  have hfits : emptyWork.tree.NamesFit := by
    intro q hq
    have hthere : q = [] ∨ q = ["work".toList] := by
      by_contra hnot
      exact hq (if_neg hnot)
    rcases hthere with rfl | rfl
    · simp
    · rw [List.forall_mem_singleton]
      decide
  refine ⟨by decide, fun h => ?_⟩
  exact h _ _ _ _ _ emptyWork (.inr rfl) (by decide) (by decide) hfits
    ["work".toList, ".env".toList]
    (by decide : envSlashCall.tree.fileAt _ ≠ emptyWork.tree.fileAt _) (by decide)

end AgentPlatform
