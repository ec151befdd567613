import AgentPlatform.Agents.AgentLoop
import AgentPlatform.Tools.Readers

/-!
# Agents/FilesTouched — what an agent reports as its edits

`Agent.run` notes the data of every result that has a `path`, and the implementation, testing and
debugging agents derive what they changed from these notes, "what the tools actually wrote".  Of the
twelve tools three return a `path`: the two that edit, and `read_file`.

* `touched_evidence_iff` — the notes are exactly the edits of the run, and what the agents derive
  from them names no file that was only read, exactly if every file the run read is also one it
  changed.
-/

namespace AgentPlatform

open Prog

/-! ## What the agents derive -/

/-- `[entry["path"] for entry in outcome.files_touched if entry.get("path")]`. -/
def AgentOutcome.touched (o : AgentOutcome) : List String :=
  (o.filesTouched.filterMap (·.path)).filter (· ≠ "")

/-- `modified_files` of `ImplementationAgent.implement`; `changedFiles` is the payload's. -/
def ImplementationAgent.modifiedFiles (o : AgentOutcome)
    (changedFiles : List String) : List String :=
  let declared := changedFiles.filter fun path => Text.strip path.toList ≠ []
  ReadTools.sortedNames (if o.touched = [] then declared else o.touched)

/-- `test_files` of `TestingAgent.generate`. -/
def TestingAgent.testFiles (o : AgentOutcome) (testFiles : List String) : List String :=
  ReadTools.sortedNames (if o.touched = [] then testFiles else o.touched)

/-- `fix_applied` of `DebuggingAgent.debug`, by the truth of the payload's if it has one. -/
def DebuggingAgent.fixApplied (o : AgentOutcome) (fixApplied : Option Bool) : Bool :=
  fixApplied.getD (o.touched ≠ [])

/-! ## What a run did -/

namespace Call

/-- The call changed the file: it is a success of `apply_patch` or `create_file`. -/
def Wrote (call : Call) (path : String) : Prop :=
  call.mutating = true ∧ call.audited.ok = true ∧ call.audited.data.path = some path

/-- The call read the file: it is a success of `read_file`. -/
def Read (call : Call) (path : String) : Prop :=
  call.invocation.name = "read_file" ∧ call.audited.ok = true ∧ call.audited.data.path = some path

end Call

/-- The run read the file and did not change it. -/
def OnlyRead (calls : List Call) (path : String) : Prop :=
  (∃ call ∈ calls, call.Read path) ∧ ¬ ∃ call ∈ calls, call.Wrote path

/-- **The evidence of a run means writes.** -/
structure Evidence (o : AgentOutcome) (calls : List Call) : Prop where
  exact : ∀ path, path ∈ o.touched ↔ ∃ call ∈ calls, call.Wrote path
  modified : ∀ changedFiles, ∀ path ∈ ImplementationAgent.modifiedFiles o changedFiles,
    ¬ OnlyRead calls path
  tests : ∀ testFiles, ∀ path ∈ TestingAgent.testFiles o testFiles, ¬ OnlyRead calls path
  fix : DebuggingAgent.fixApplied o none = true → ∃ call ∈ calls, ∃ path, call.Wrote path

/-! ## One call -/

section OneCall

/-- A result of the tool `name`: with a path it is a success, of an edit or of `read_file`. -/
def ToolResult.PathOf (name : String) (r : ToolResult) : Prop :=
  r.data.path = none ∨ (∃ path, path ≠ "" ∧ r.data.path = some path) ∧ r.ok = true ∧
    ((Tool.get? name).any (·.mutating) = true ∨ name = "read_file")

variable (env : ReadEnv) (countChanges : Text → Text → ℕ × ℕ)

theorem runTool_pathOf {name : String} {tool : Tool} (htool : Tool.get? name = some tool)
    (c : ToolContext) (args : Arguments) :
    Returns (ToolResult.PathOf name) (runTool (env.toolRuntime countChanges) c args tool) := by
  by_cases hmut : tool.mutating = true
  · refine returns_mutating (fun _ => .inl rfl) (fun _ path _ _ _ hpath => ?_) _ c args hmut
    exact .inr ⟨⟨path, hpath, rfl⟩, rfl, .inl (by simp [htool, hmut])⟩
  · cases tool with
    | applyPatch => exact absurd rfl hmut
    | createFile => exact absurd rfl hmut
    | reader name' =>
      obtain rfl : name' = name := by
        rw [Tool.get?] at htool
        split_ifs at htool <;> cases htool
        rfl
      intro t r t' hrun
      have hpath := Readers.run_path env c t args name' r (congrArg Prod.fst hrun)
      rw [Readers.PathIfRead] at hpath
      split at hpath
      · rename_i hread
        exact .inr ⟨hpath, hread.2, .inr hread.1⟩
      · exact .inl hpath

theorem guarded_pathOf {name : String} {tool : FileM ToolResult}
    (h : Returns (ToolResult.PathOf name) tool) :
    Returns (ToolResult.PathOf name) (ToolM.guarded name tool) := by
  intro w r w' hrun
  rw [ToolM.guarded] at hrun
  rcases htool : tool w.tree with ⟨e | result, t⟩
  · rw [htool] at hrun
    obtain rfl : ToolM.errorResult name e = r := Except.ok.inj (congrArg Prod.fst hrun)
    refine .inl ?_
    unfold ToolM.errorResult
    split <;> rfl
  · rw [htool] at hrun
    obtain rfl : result = r := Except.ok.inj (congrArg Prod.fst hrun)
    exact h w.tree result t htool

theorem executeTool_pathOf (engine : PolicyEngine) (gate : GateEnv)
    (role : AgentRole) (name : String) (args : Arguments) (c : ToolContext) :
    Returns (ToolResult.PathOf name)
      (executeTool (env.toolRuntime countChanges) engine gate role name args c) := by
  rw [executeTool]
  refine Returns.ite (fun _ => returns_bind fun _ => returns_pure (.inl rfl)) fun _ => ?_
  cases htool : Tool.get? name with
  | none => exact returns_bind fun _ => returns_pure (.inl rfl)
  | some tool =>
    refine Returns.ite (fun _ => ?_) fun _ => returns_bind fun _ => ?_
    · exact returns_bind fun _ => returns_bind fun _ => fun _ _ _ h => (raise_eq_ok.mp h).elim
    · refine Returns.bind (P := ToolResult.PathOf name) ?_ fun r hr =>
        returns_bind fun _ => returns_bind fun _ => returns_pure hr
      exact guarded_pathOf (runTool_pathOf env countChanges htool c args)

end OneCall

/-! ## A conversation -/

section Conversations

variable (env : ReadEnv) (countChanges : Text → Text → ℕ × ℕ) (agent : Agent) (setup : AgentSetup)

/-- The setup, with the twelve tools of the registry. -/
def AgentSetup.withTools : AgentSetup := { setup with runtime := env.toolRuntime countChanges }

/-- What a call leaves in `files_touched`. -/
def Call.note? (call : Call) : Option ToolData :=
  if Agent.touches call.audited then some call.audited.data else none

/-- The notes are those of the calls, and every call returned what its tool returns. -/
structure Conversation.Noted (s : Conversation) : Prop where
  notes : s.outcome.filesTouched = s.calls.filterMap Call.note?
  results : ∀ call ∈ s.calls, call.audited.PathOf call.invocation.name

theorem Conversation.Noted.concat {s s' : Conversation} (h : s.Noted) {call : Call}
    (hcalls : s'.calls = s.calls ++ [call])
    (hnotes : s'.outcome.filesTouched = s.outcome.filesTouched ++ call.note?.toList)
    (hresult : call.audited.PathOf call.invocation.name) : s'.Noted where
  notes := by
    rw [hnotes, hcalls, h.notes, List.filterMap_append]
    cases hnote : call.note? with
    | none => simp [hnote]
    | some data => simp [hnote]
  results := by
    rw [hcalls]
    intro other hother
    rcases List.mem_append.mp hother with hold | hnew
    · exact h.results other hold
    · rw [List.mem_singleton.mp hnew]
      exact hresult

theorem invoke_noted (inv : Agent.ToolInvocation) :
    Triple Conversation.Noted (fun _ => Conversation.Noted) (fun _ => Conversation.Noted)
      (agent.invoke (setup.withTools env countChanges) inv) := by
  intro s hs
  have hpath := executeTool_pathOf env countChanges setup.engine (setup.persistence s.calls.length)
    agent.role inv.name inv.arguments setup.toolContext s.world
  rw [Agent.invoke]
  rcases hexec : agent.execute (setup.withTools env countChanges) s.calls.length inv s.world with
    ⟨e | result, w⟩
  · have hnote : (⟨inv, .error e⟩ : Call).note? = none := rfl
    exact hs.concat rfl (by simp [hnote]) (.inl rfl)
  · have hnote : (⟨inv, .ok result⟩ : Call).note?.toList =
        if Agent.touches result then [result.data] else [] := by
      change (if Agent.touches result then some result.data else none).toList = _
      split <;> rfl
    exact hs.concat rfl (congrArg _ hnote.symm) (hpath result w hexec)

theorem invokeAll_noted (invs : List Agent.ToolInvocation) :
    Triple Conversation.Noted (fun _ => Conversation.Noted) (fun _ => Conversation.Noted)
      (agent.invokeAll (setup.withTools env countChanges) invs) := by
  induction invs with
  | nil => exact triple_pure fun s hs => hs
  | cons inv invs ih =>
    refine Triple.bind (invoke_noted env countChanges agent setup inv) fun _ => ?_
    exact Triple.bind ih fun _ => triple_pure fun s hs => hs

theorem loop_noted (left turn : ℕ) :
    Triple Conversation.Noted (fun _ => Conversation.Noted) (fun _ => Conversation.Noted)
      (agent.loop (setup.withTools env countChanges) left turn) := by
  have hsame : ∀ {s s' : Conversation}, s.Noted → s'.calls = s.calls →
      s'.outcome.filesTouched = s.outcome.filesTouched → s'.Noted :=
    fun h hcalls hnotes => ⟨by rw [hnotes, hcalls, h.notes], hcalls ▸ h.results⟩
  induction left generalizing turn with
  | zero => exact triple_modify fun s hs => hsame hs rfl rfl
  | succ left ih =>
    rw [Agent.loop]
    refine Triple.bind (triple_modify fun s hs => hsame hs rfl rfl) fun _ => ?_
    refine Triple.bind triple_read fun messages => ?_
    refine Triple.bind (triple_lift fun _ _ hs => hs) fun response => ?_
    refine Triple.bind (triple_modify fun s hs => hsame hs rfl rfl) fun _ => ?_
    refine Triple.ite (fun _ => triple_modify fun s hs => hsame hs rfl rfl) fun _ => ?_
    refine Triple.bind (triple_modify fun s hs => hsame hs rfl rfl) fun _ => ?_
    refine Triple.bind (invokeAll_noted env countChanges agent setup _) fun results => ?_
    exact Triple.bind (triple_modify fun s hs => hsame hs rfl rfl) fun _ => ih (turn + 1)

/-! ## Evidence -/

section Evidence

variable {s : Conversation}

/-- A call is noted with the file it changed or read. -/
theorem Call.note?_path {call : Call} (h : call.audited.PathOf call.invocation.name)
    (path : String) :
    (∃ data ∈ call.note?, data.path = some path ∧ path ≠ "") ↔ call.Wrote path ∨
    call.Read path := by
  constructor
  · rintro ⟨data, hdata, hpath, -⟩
    rw [Option.mem_def, Call.note?] at hdata
    split_ifs at hdata
    obtain rfl := Option.some.inj hdata
    rcases h with hnone | ⟨-, hok, hmut | hread⟩
    · exact absurd (hnone.symm.trans hpath) (by simp)
    · exact .inl ⟨hmut, hok, hpath⟩
    · exact .inr ⟨hread, hok, hpath⟩
  · intro hdid
    have hpath : call.audited.data.path = some path := hdid.elim (·.2.2) (·.2.2)
    rcases h with hnone | ⟨⟨path', hne, hpath'⟩, -, -⟩
    · exact absurd (hnone.symm.trans hpath) (by simp)
    · obtain rfl := Option.some.inj (hpath.symm.trans hpath')
      have htouches : Agent.touches call.audited = true := by simp [Agent.touches, hpath, hne]
      exact ⟨call.audited.data, by simp [Call.note?, htouches], hpath, hne⟩

/-- The notes name the files the run changed and those it read. -/
theorem Conversation.Noted.mem_touched (h : s.Noted) (path : String) :
    path ∈ s.outcome.touched ↔ ∃ call ∈ s.calls, call.Wrote path ∨ call.Read path := by
  rw [AgentOutcome.touched, h.notes, List.mem_filter, List.mem_filterMap]
  constructor
  · rintro ⟨⟨data, hdata, hpath⟩, hne⟩
    obtain ⟨call, hcall, hnote⟩ := List.mem_filterMap.mp hdata
    exact ⟨call, hcall, (Call.note?_path (h.results call hcall) path).mp
      ⟨data, hnote, hpath, of_decide_eq_true hne⟩⟩
  · rintro ⟨call, hcall, hdid⟩
    obtain ⟨data, hnote, hpath, hne⟩ := (Call.note?_path (h.results call hcall) path).mpr hdid
    exact ⟨⟨data, List.mem_filterMap.mpr ⟨call, hcall, hnote⟩, hpath⟩, decide_eq_true hne⟩

/-- **Where the run changed every file it read**, its notes are its edits. -/
theorem Conversation.Noted.accounts_iff (h : s.Noted) :
    Evidence s.outcome s.calls ↔
      ∀ call ∈ s.calls, ∀ path, call.Read path → ∃ call' ∈ s.calls, call'.Wrote path := by
  constructor
  · intro hevidence call hcall path hread
    exact (hevidence.exact path).mp ((h.mem_touched path).mpr ⟨call, hcall, .inr hread⟩)
  · intro hcondition
    have hexact : ∀ path, path ∈ s.outcome.touched ↔ ∃ call ∈ s.calls, call.Wrote path := by
      intro path
      rw [h.mem_touched path]
      constructor
      · rintro ⟨call, hcall, hwrote | hread⟩
        · exact ⟨call, hcall, hwrote⟩
        · exact hcondition call hcall path hread
      · rintro ⟨call, hcall, hwrote⟩
        exact ⟨call, hcall, .inl hwrote⟩
    have hnone : ∀ path, ¬ OnlyRead s.calls path := by
      rintro path ⟨⟨call, hcall, hread⟩, hunchanged⟩
      exact hunchanged (hcondition call hcall path hread)
    refine ⟨hexact, fun _ path _ => hnone path, fun _ path _ => hnone path, fun hfix => ?_⟩
    have htouched : s.outcome.touched ≠ [] := by simpa [DebuggingAgent.fixApplied] using hfix
    obtain ⟨path, hpath⟩ := List.exists_mem_of_ne_nil _ htouched
    obtain ⟨call, hcall, hwrote⟩ := (hexact path).mp hpath
    exact ⟨call, hcall, path, hwrote⟩

end Evidence

/-- **Tool evidence means writes exactly in the runs that change every file they read**: there
`files_touched` holds the paths of the successful `apply_patch` and `create_file` calls and no
others, and neither the modified files, nor the test files, nor the default of `fix_applied` speak
of a file that was only read. -/
theorem touched_evidence_iff (userMessage : String) (w : ToolWorld) :
    let s := (agent.run (setup.withTools env countChanges) (.opening userMessage w)).2
    Evidence s.outcome s.calls ↔
      ∀ call ∈ s.calls, ∀ path, call.Read path → ∃ call' ∈ s.calls, call'.Wrote path := by
  have hnoted : Triple Conversation.Noted (fun _ => Conversation.Noted) (fun _ =>
    Conversation.Noted)
      (agent.run (setup.withTools env countChanges)) :=
    Triple.bind (loop_noted env countChanges agent setup _ _) fun _ => triple_read
  have hopening := hnoted (.opening userMessage w) ⟨rfl, by simp [Conversation.opening]⟩
  refine Conversation.Noted.accounts_iff ?_
  rcases hrun : agent.run (setup.withTools env countChanges) (.opening userMessage w)
    with ⟨e | outcome, s⟩
  · rw [hrun] at hopening
    exact hopening
  · rw [hrun] at hopening
    exact hopening

end Conversations

/-! ## A run that only reads -/

/-- A worktree `/work` with one file. -/
def readmeDisk : Symlinks.Disk where
  entries := [(["work".toList], .dir), (["work".toList, "README.md".toList], .file)]
  below := by decide
  unique := by decide
  parents := by decide

/-- …before any call. -/
def readmeWork : ToolWorld :=
  ⟨fun q => if q = ["work".toList, "README.md".toList] then some (.file (.text "hello".toList))
    else if q = [] ∨ q = ["work".toList] then some .dir else none, [], [], []⟩

/-- A machine without `rg`, where no command prints anything. -/
def readmeEnv : ReadEnv where
  py := ReadTools.literalPy
  unicode := .ascii
  disk _ := readmeDisk
  contents _ _ := [0x68, 0x65, 0x6c, 0x6c, 0x6f]
  ripgrep _ _ _ _ := none
  collectDiff _ _ := .ok ⟨"", [], 0, 0⟩
  gitStatus _ _ := .ok ⟨[], "", 0, "", "", 0, false⟩
  detectProjectKind _ _ := "unknown"
  runDotnetBuild _ _ := .ok ⟨[], "", 0, "", "", 0, false⟩
  runDotnetTest _ _ _ := .ok ⟨[], "", 0, "", "", 0, false⟩
  misuse key _ := .other "TypeError" key

/-- The model reads the file and is done. -/
def readmeSetup : AgentSetup where
  runtime := ⟨fun _ _ => (0, 0), fun _ _ _ _ => .ok (.failure "")⟩
  engine := shippedBlockRules
  toolContext := workContext
  generate turn _ := .ok (if turn = 1
    then ⟨"", [⟨"1", "read_file", [("path", .str "README.md")]⟩], "", "tool_use", {}, none⟩
    else ⟨"nothing to do", [], "", "end_turn", {}, none⟩)
  persistence _ := .quiet

/-- The conversation of the implementation agent. -/
def readmeRun : Conversation :=
  (Agent.run ⟨.implementation, 16⟩ (readmeSetup.withTools readmeEnv fun _ _ => (0, 0))
    (.opening "go" readmeWork)).2

/-- **A file that was only read is reported as modified.** -/
theorem readmeRun_not_evidence :
    ImplementationAgent.modifiedFiles readmeRun.outcome [] = ["README.md"] ∧
      DebuggingAgent.fixApplied readmeRun.outcome none = true ∧
      readmeRun.calls.map Call.mutating = [false] ∧
      ¬ Evidence readmeRun.outcome readmeRun.calls := by
  have hfix : DebuggingAgent.fixApplied readmeRun.outcome none = true := by decide +kernel
  have hreads : readmeRun.calls.map Call.mutating = [false] := by decide +kernel
  refine ⟨by decide +kernel, hfix, hreads, fun h => ?_⟩
  obtain ⟨call, hcall, path, hmut, -⟩ := h.fix hfix
  have hread : call.mutating ∈ readmeRun.calls.map Call.mutating := List.mem_map_of_mem hcall
  rw [hreads, List.mem_singleton, hmut] at hread
  exact Bool.noConfusion hread

end AgentPlatform
