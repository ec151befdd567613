import AgentPlatform.Agents.Supervisor
import AgentPlatform.Machinery.Runs

/-!
# Graph/Changes — what each node can do to the world

Whatever a body returns or raises, the world it leaves is reached by a run of `Change`s, each of a
kind its node may make (`body_makes`).  The frame conditions are read off that: a part of the world
no kind of change touches is unchanged (`Made.eq_of`), and only the node that may log an effect has
it (`publishes_of_mem_log`, `wrote_of_mem_log`).
-/

namespace AgentPlatform

/-- A change a body makes to the world. -/
inductive Change where
  | logged (effect : Effect)
  | wrote (edit : String × String)
  | created (workspace : Workspace) (files : Files)
  | dropped
  | artifacts (files : Files)
  | moved (sha : String)
  | approved
  deriving DecidableEq, Repr

/-- Nothing but the log changes. -/
def Change.isLogged : Change → Bool
  | logged _ => true
  | _ => false

/-- Nothing but an event is logged. -/
def Change.isEmitted : Change → Bool
  | logged (.emitted _) => true
  | _ => false

/-- The world after a change. -/
def World.change (w : World) : Change → World
  | .logged effect => { w with log := effect :: w.log }
  | .wrote edit => w.write edit
  | .created workspace files => { w with workspace := some workspace, tree := files, commits := [] }
  | .dropped => { w with tree := [], commits := [] }
  | .artifacts files => { w with tree := files ++ w.tree }
  | .moved sha =>
    { w with commits := ⟨sha, w.tree⟩ :: w.commits, log := .committed sha w.tree :: w.log }
  | .approved => { w with pendingApproval := true }

/-- The effects a node logs by themselves. -/
def Node.mayLog : Node → Effect → Bool
  | _, .emitted _ => true
  | .riskAssessment, .evaluated _ _ => true
  | .implementation, .collected _ _ => true
  | .testGeneration, .collected _ _ => true
  | .debugging, .collected _ _ => true
  | .ciDebugging, .collected _ _ => true
  | .runTests, .collected _ _ => true
  | .runTests, .ranSuite _ => true
  | .securityPolicy, .collected _ _ => true
  | .securityPolicy, .evaluated _ _ => true
  | .ciValidation, .pushed _ => true
  | .ciValidation, .triggeredCi _ _ => true
  | .ciValidation, .ciVerdict _ => true
  | .createPr, .pushed _ => true
  | .createPr, .requestedPullRequest _ => true
  | .createPr, .openedPullRequest _ => true
  | _, _ => false

/-- **The changes a node may make.** -/
def Node.may : Node → Change → Bool
  | n, .logged effect => n.mayLog effect
  | .implementation, .wrote _ => true
  | .testGeneration, .wrote _ => true
  | .debugging, .wrote _ => true
  | .ciDebugging, .wrote _ => true
  | .implementation, .created _ _ => true
  | .implementation, .dropped => true
  | .runTests, .artifacts _ => true
  | .gitCommit, .moved _ => true
  | .humanReview, .approved => true
  | _, _ => false

/-- Every node may publish. -/
example (n : Node) (e : EventType) : n.may (.logged (.emitted e)) = true := by
      simp [Node.may, Node.mayLog]

/-- **The world `w'` is reached from `w` by changes of the allowed kind.** -/
def Made (allowed : Change → Bool) (w w' : World) : Prop :=
  ∃ cs : List Change, (∀ c ∈ cs, allowed c = true) ∧ w' = Runs.run World.change w cs

namespace Made

variable {allowed : Change → Bool} {w w' : World}

instance : IsPreorder World (Made allowed) where
  refl w := ⟨[], by simp, rfl⟩
  trans := by
    rintro w _ _ ⟨cs, hcs, rfl⟩ ⟨ds, hds, rfl⟩
    refine ⟨cs ++ ds, fun c hc => ?_, (Runs.run_append _ _ _ _).symm⟩
    rcases List.mem_append.mp hc with hc | hc
    · exact hcs c hc
    · exact hds c hc

theorem single {c : Change} (h : allowed c = true) (w : World) : Made allowed w (w.change c) :=
  ⟨[c], by simpa using h, rfl⟩

/-- **What every allowed change preserves, they preserve together.** -/
theorem invariant {P : World → Prop} (h : Made allowed w w')
    (hstep : ∀ c w, allowed c = true → P w → P (w.change c)) (hw : P w) : P w' := by
  obtain ⟨cs, hcs, rfl⟩ := h
  induction cs generalizing w with
  | nil => exact hw
  | cons c cs ih =>
    refine ih (hstep c w ?_ hw) fun d hd => hcs d (List.mem_cons_of_mem _ hd)
    exact hcs c List.mem_cons_self

/-- **A part of the world no allowed change touches is unchanged.** -/
theorem eq_of {β : Type} {f : World → β} (h : Made allowed w w')
    (hf : ∀ c w, allowed c = true → f (w.change c) = f w) : f w' = f w :=
  h.invariant (P := fun v => f v = f w) (fun c v hc hv => (hf c v hc).trans hv) rfl

/-- What was logged stays logged. -/
theorem mem_log {e : Effect} (h : Made allowed w w') (he : e ∈ w.log) : e ∈ w'.log := by
  refine h.invariant (P := fun v => e ∈ v.log) (fun c v _ hv => ?_) he
  cases c with
  | wrote edit =>
    simp only [World.change, World.write]
    split <;> exact List.mem_cons_of_mem _ hv
  | logged effect => exact List.mem_cons_of_mem _ hv
  | moved sha => exact List.mem_cons_of_mem _ hv
  | created ws files => exact hv
  | dropped => exact hv
  | artifacts files => exact hv
  | approved => exact hv

/-- **What holds of everything the allowed changes log holds of the log.** -/
theorem forall_log {Q : Effect → Prop} (h : Made allowed w w')
    (hlogged : ∀ e, allowed (.logged e) = true → Q e)
    (hwrote : ∀ edit, allowed (.wrote edit) = true → Q (.wrote edit.1) ∧ Q (.wroteCheckout edit.1))
    (hmoved : ∀ sha files, allowed (.moved sha) = true → Q (.committed sha files))
    (hw : ∀ e ∈ w.log, Q e) : ∀ e ∈ w'.log, Q e := by
  refine h.invariant (P := fun v => ∀ e ∈ v.log, Q e) (fun c v hc hv => ?_) hw
  cases c with
  | logged effect => exact List.forall_mem_cons.mpr ⟨hlogged effect hc, hv⟩
  | wrote edit =>
    simp only [World.change, World.write]
    split
    · exact List.forall_mem_cons.mpr ⟨(hwrote edit hc).1, hv⟩
    · exact List.forall_mem_cons.mpr ⟨(hwrote edit hc).2, hv⟩
  | moved sha => exact List.forall_mem_cons.mpr ⟨hmoved sha _ hc, hv⟩
  | created ws files => exact hv
  | dropped => exact hv
  | artifacts files => exact hv
  | approved => exact hv

/-- An effect that is no event was logged before. -/
theorem mem_log_of_isEmitted {e : Effect} (h : Made Change.isEmitted w w') (he : e ∈ w'.log)
    (hevent : ∀ event, e ≠ .emitted event) : e ∈ w.log := by
  refine h.invariant (P := fun v => ∀ e ∈ v.log, (∀ event, e ≠ .emitted event) → e ∈ w.log)
    (fun c v hc hv => ?_) (fun e he _ => he) e he hevent
  cases c with
  | logged effect =>
    cases effect with
    | emitted event =>
      intro e he hother
      rcases List.mem_cons.mp he with rfl | he
      · exact absurd rfl (hother event)
      · exact hv e he hother
    | _ => cases hc
  | _ => cases hc

end Made

/-! ## The parts of a body -/

section Parts

variable {allowed : Change → Bool}

theorem record_makes {effect : Effect} (h : allowed (.logged effect) = true) :
    Prog.Keeps (Made allowed) (NodeM.record effect) := fun w => Made.single h w

theorem emit_makes (env : NodeEnv) {event : EventType}
    (h : allowed (.logged (.emitted event)) = true) :
    Prog.Keeps (Made allowed) (NodeM.emit env event) :=
  (record_makes h).bind fun _ => Prog.keeps_call _

theorem firstLine_makes (text : String) : Prog.Keeps (Made allowed) (NodeM.firstLine text) := by
  rw [NodeM.firstLine]
  split
  · exact Prog.keeps_pure _
  · exact Prog.keeps_raise _

theorem getWorkspace_makes (ctx : WorkflowContext) :
    Prog.Keeps (Made allowed) (NodeM.getWorkspace ctx) := by
  intro w
  rw [NodeM.getWorkspace]
  split <;> exact refl w

theorem runAgent_makes {α : Type} (s : AgentState) (call : AgentCall α)
    (h : ∀ edit, allowed (.wrote edit) = true) :
    Prog.Keeps (Made allowed) (Nodes.runAgent s call) := by
  refine Prog.Keeps.bind (Prog.Keeps.whenever fun w => ?_) fun _ => Prog.keeps_lift _
  refine ⟨call.edits.map Change.wrote, fun c hc => ?_, ?_⟩
  · obtain ⟨edit, -, rfl⟩ := List.mem_map.mp hc
    exact h edit
  · rw [Runs.run, List.foldl_map]
    rfl

theorem refreshDiff_makes (env : NodeEnv)
    (h : ∀ files summary, allowed (.logged (.collected files summary)) = true) :
    Prog.Keeps (Made allowed) (Nodes.refreshDiff env) := by
  refine (Prog.keeps_read _).bind fun workspace => ?_
  rcases workspace with _ | ws
  · exact Prog.keeps_pure _
  refine (Prog.keeps_lift _).bind fun summary => (Prog.keeps_read _).bind fun tree => ?_
  exact (record_makes (h tree summary)).bind fun _ => Prog.keeps_pure _

theorem createWorkspace_makes (ctx : WorkflowContext) (env : NodeEnv)
    (hcreated : ∀ ws files, allowed (.created ws files) = true)
    (hdropped : allowed .dropped = true) :
    Prog.Keeps (Made allowed) (Nodes.createWorkspace ctx env) := by
  intro w
  rw [Nodes.createWorkspace]
  split
  · exact Made.single (hcreated _ _) w
  · split
    · exact Made.single hdropped w
    · exact refl w

theorem ensureWorkspace_makes (ctx : WorkflowContext) (env : NodeEnv)
    (hcreated : ∀ ws files, allowed (.created ws files) = true) (hdropped : allowed .dropped = true)
    (hemit : allowed (.logged (.emitted .workspaceCreated)) = true) :
    Prog.Keeps (Made allowed) (Nodes.ensureWorkspace ctx env) := by
  refine (Prog.keeps_read _).bind fun workspace => ?_
  rcases workspace with _ | ws
  · refine (createWorkspace_makes ctx env hcreated hdropped).bind fun ws => ?_
    exact (emit_makes env hemit).bind fun _ => Prog.keeps_pure _
  · exact Prog.keeps_pure _

theorem runSuite_makes (env : NodeEnv) (hart : ∀ files, allowed (.artifacts files) = true)
    (hran : ∀ outcome, allowed (.logged (.ranSuite outcome)) = true) :
    Prog.Keeps (Made allowed) (Nodes.runSuite env) := by
  refine Prog.Keeps.bind (fun w => Made.single (hart env.artifacts) w) fun _ => ?_
  refine (Prog.keeps_lift _).bind fun outcome => ?_
  exact (record_makes (hran outcome)).bind fun _ => Prog.keeps_pure _

theorem noteFailures_makes (iteration : ℤ) (previous failures : List String) :
    Prog.Keeps (Made allowed) (Nodes.noteFailures iteration previous failures) := by
  induction failures generalizing previous with
  | nil => exact Prog.keeps_pure _
  | cons failure failures ih => exact (firstLine_makes failure).bind fun line => ih _

theorem noteAnalysis_makes (iteration : ℤ) (previous : List String) (analysis : String) :
    Prog.Keeps (Made allowed) (Nodes.noteAnalysis iteration previous analysis) :=
  Prog.Keeps.ite (fun _ => Prog.keeps_pure _) fun _ =>
    (firstLine_makes _).bind fun _ => Prog.keeps_pure _

theorem stateRisk_makes (s : AgentState) : Prog.Keeps (Made allowed) (Nodes.stateRisk s) := by
  rw [Nodes.stateRisk]
  split
  · exact Prog.keeps_pure _
  · exact Prog.keeps_raise _

theorem gitCommitCommand_makes (env : NodeEnv) (h : ∀ sha, allowed (.moved sha) = true) :
    Prog.Keeps (Made allowed) (Nodes.gitCommitCommand env) := by
  intro w
  rw [Nodes.gitCommitCommand]
  rcases env.commit with sha | ⟨_ | sha, output⟩ | e
  · exact Made.single (h sha) w
  · exact refl w
  · exact Made.single (h sha) w
  · exact refl w

theorem commitAll_makes (env : NodeEnv) (h : ∀ sha, allowed (.moved sha) = true) :
    Prog.Keeps (Made allowed) (Nodes.commitAll env) := by
  refine (Prog.keeps_lift _).bind fun _ => (Prog.keeps_lift _).bind fun staged => ?_
  refine Prog.Keeps.bind (Prog.keeps_raise _).whenever fun _ => ?_
  refine (gitCommitCommand_makes env h).bind fun _ => ?_
  exact (Prog.keeps_lift _).bind fun _ => (Prog.keeps_read _).bind fun _ => Prog.keeps_pure _

/-- `git_commit` makes the changes its git commands make, and reports them. -/
theorem gitCommit_makes (ctx : WorkflowContext) (env : NodeEnv) (s : AgentState)
    (h : s.get .modifiedFiles [] ≠ [] → Prog.Keeps (Made allowed) (Nodes.commitAll env))
    (hemit : allowed (.logged (.emitted .commitCreated)) = true) :
    Prog.Keeps (Made allowed) (Nodes.gitCommit ctx env s) := by
  refine (getWorkspace_makes ctx).bind fun ws => Prog.Keeps.ite (fun _ => ?_) fun hfiles => ?_
  · exact Prog.keeps_pure _
  refine Prog.Keeps.bind (Prog.Keeps.catching ?_ fun e => ?_) fun result => ?_
  · rw [Nodes.commitChanges, Nodes.strippedFirstLine]
    exact Prog.Keeps.bind ((firstLine_makes _).bind fun _ => h hfiles) fun _ => Prog.keeps_pure _
  · exact Prog.Keeps.ite (fun _ => Prog.keeps_pure _) fun _ => Prog.keeps_raise _
  · rcases result with failure | sha
    · exact Prog.keeps_pure _
    · exact (emit_makes env hemit).bind fun _ => Prog.keeps_pure _

theorem pushForCi_makes (ctx : WorkflowContext) (env : NodeEnv) {branch : String}
    (h : ∀ branch, allowed (.logged (.pushed branch)) = true) :
    Prog.Keeps (Made allowed) (Nodes.pushForCi ctx env branch) :=
  Prog.Keeps.whenever ((record_makes (h branch)).bind fun _ => Prog.keeps_call _)

theorem ciRun_makes (env : NodeEnv) {branch : String} (s : AgentState)
    (h : ∀ branch sha, allowed (.logged (.triggeredCi branch sha)) = true) :
    Prog.Keeps (Made allowed) (Nodes.ciRun env branch s) := by
  refine (record_makes (h branch _)).bind fun _ => (Prog.keeps_lift _).bind fun run => ?_
  exact Prog.Keeps.ite (fun _ => Prog.keeps_lift _) fun _ => Prog.keeps_pure _

theorem ciLogs_makes (env : NodeEnv) (run : CIRunResult) :
    Prog.Keeps (Made allowed) (Nodes.ciLogs env run) :=
  Prog.Keeps.ite (fun _ => Prog.keeps_lift _) fun _ => Prog.keeps_pure _

theorem openPullRequest_makes (env : NodeEnv) (s : AgentState)
    (hpush : ∀ branch, allowed (.logged (.pushed branch)) = true)
    (hrequest : ∀ branch, allowed (.logged (.requestedPullRequest branch)) = true)
    (hopen : ∀ url, allowed (.logged (.openedPullRequest url)) = true) :
    Prog.Keeps (Made allowed) (Nodes.openPullRequest env s) := by
  rw [Nodes.openPullRequest, Nodes.strippedFirstLine]
  refine (record_makes (hpush _)).bind fun _ => (Prog.keeps_call _).bind fun _ => ?_
  refine (firstLine_makes _).bind fun _ => (record_makes (hrequest _)).bind fun _ => ?_
  refine (Prog.keeps_lift _).bind fun url => ?_
  exact (record_makes (hopen url)).bind fun _ => Prog.keeps_pure _

end Parts

/-- **Every body keeps to the changes of its node**, whatever it returns or raises. -/
theorem body_makes (ctx : WorkflowContext) (env : NodeEnv) (n : Node) (s : AgentState) :
    Prog.Keeps (Made n.may) (Nodes.body ctx env n s) := by
  cases n with
  | plan =>
    refine (Prog.keeps_lift _).bind fun reply => ?_
    exact (emit_makes env rfl).bind fun _ => Prog.keeps_pure _
  | repositoryAnalysis =>
    refine (Prog.keeps_lift _).bind fun reply => ?_
    exact (emit_makes env rfl).bind fun _ => Prog.keeps_pure _
  | riskAssessment =>
    refine (Prog.keeps_lift _).bind fun reply => ?_
    refine (record_makes rfl).bind fun _ => ?_
    exact (emit_makes env rfl).bind fun _ => Prog.keeps_pure _
  | implementation =>
    refine (ensureWorkspace_makes ctx env (fun _ _ => rfl) rfl rfl).bind fun ws => ?_
    refine (runAgent_makes s _ fun _ => rfl).bind fun reply => ?_
    exact (refreshDiff_makes env fun _ _ => rfl).bind fun _ => Prog.keeps_pure _
  | testGeneration =>
    refine (runAgent_makes s _ fun _ => rfl).bind fun reply => ?_
    exact (refreshDiff_makes env fun _ _ => rfl).bind fun _ => Prog.keeps_pure _
  | runTests =>
    refine (getWorkspace_makes ctx).bind fun _ => (emit_makes env rfl).bind fun _ => ?_
    refine (Prog.keeps_read _).bind fun tree => Prog.Keeps.ite (fun _ => ?_) fun _ => ?_
    · exact (emit_makes env rfl).bind fun _ => Prog.keeps_pure _
    · refine (runSuite_makes env (fun _ => rfl) fun _ => rfl).bind fun outcome => ?_
      refine (refreshDiff_makes env fun _ _ => rfl).bind fun diffUpdate => ?_
      exact (emit_makes env rfl).bind fun _ => Prog.keeps_pure _
  | debugging =>
    refine (emit_makes env rfl).bind fun _ => (noteFailures_makes _ _ _).bind fun noted => ?_
    refine (runAgent_makes s _ fun _ => rfl).bind fun reply => ?_
    refine (noteAnalysis_makes _ _ _).bind fun previous => ?_
    exact (refreshDiff_makes env fun _ _ => rfl).bind fun _ => Prog.keeps_pure _
  | securityPolicy =>
    refine (refreshDiff_makes env fun _ _ => rfl).bind fun diffUpdate => ?_
    refine (record_makes rfl).bind fun _ => (stateRisk_makes s).bind fun level => ?_
    refine (emit_makes env rfl).bind fun _ => Prog.Keeps.ite (fun _ => ?_) fun _ => ?_
    · exact (emit_makes env rfl).bind fun _ => Prog.keeps_pure _
    · exact Prog.keeps_pure _
  | gitCommit => exact gitCommit_makes ctx env s (fun _ => commitAll_makes env fun _ => rfl) rfl
  | ciValidation =>
    refine (getWorkspace_makes ctx).bind fun ws => ?_
    refine (pushForCi_makes ctx env fun _ => rfl).bind fun _ =>
      (emit_makes env rfl).bind fun _ => ?_
    refine (ciRun_makes env s fun _ _ => rfl).bind fun run =>
      (ciLogs_makes env run).bind fun logs => ?_
    refine (Prog.keeps_call _).bind fun _ => (emit_makes env rfl).bind fun _ => ?_
    exact (record_makes rfl).bind fun _ => Prog.keeps_pure _
  | ciDebugging =>
    refine (runAgent_makes s _ fun _ => rfl).bind fun reply => ?_
    exact (refreshDiff_makes env fun _ _ => rfl).bind fun _ => Prog.keeps_pure _
  | createPr =>
    refine (getWorkspace_makes ctx).bind fun ws => ?_
    refine (openPullRequest_makes env s (fun _ => rfl) (fun _ => rfl) fun _ => rfl).bind
      fun url => ?_
    exact (emit_makes env rfl).bind fun _ => Prog.keeps_pure _
  | humanReview =>
    refine Prog.Keeps.bind ?_ fun _ => (emit_makes env rfl).bind fun _ => Prog.keeps_pure _
    exact (Prog.keeps_call _).bind fun _ => fun w => Made.single (c := .approved) rfl w
  | halt => exact (emit_makes env rfl).bind fun _ => Prog.keeps_pure _

/-! ## Frame conditions of an execution -/

namespace Execution

variable {ctx : WorkflowContext} {x : Execution} {e : Effect}

theorem makes (x : Execution) :
    Made x.node.may { x.world with log := [] } (x.worldAfter ctx) :=
  body_makes ctx x.env x.node x.state _

/-- **Only three nodes publish.** -/
theorem node_of_publishes (he : e ∈ x.effects ctx) (hp : e.publishes = true) :
    x.node = .gitCommit ∨ x.node = .ciValidation ∨ x.node = .createPr := by
  refine x.makes.forall_log (Q := fun e => e.publishes = true →
    x.node = .gitCommit ∨ x.node = .ciValidation ∨ x.node = .createPr) ?_ ?_ ?_ (by simp) e he hp
  · intro e hmay
    cases e <;> cases hn : x.node <;> simp_all [Node.may, Node.mayLog, Effect.publishes]
  · intro edit _
    exact ⟨by simp [Effect.publishes], by simp [Effect.publishes]⟩
  · intro sha files hmay
    cases hn : x.node <;> simp_all [Node.may]

/-- **Only the agents that edit write.** -/
theorem node_of_wrote {path : String} (he : Effect.wrote path ∈ x.effects ctx) :
    x.node = .implementation ∨ x.node = .testGeneration ∨ x.node = .debugging ∨
      x.node = .ciDebugging := by
  refine x.makes.forall_log (Q := fun e => e = .wrote path → x.node = .implementation ∨
    x.node = .testGeneration ∨ x.node = .debugging ∨ x.node = .ciDebugging) ?_ ?_
    ?_ (by simp) _ he rfl
  · rintro e hmay rfl
    cases hn : x.node <;> simp_all [Node.may, Node.mayLog]
  · intro edit hmay
    cases hn : x.node <;> simp_all [Node.may]
  · intro sha files _ h
    cases h

/-- The worktree's files change where an agent edits or the suite runs. -/
theorem tree_worldAfter (h₁ : x.node ≠ .implementation) (h₂ : x.node ≠ .testGeneration)
    (h₃ : x.node ≠ .debugging) (h₄ : x.node ≠ .ciDebugging) (h₅ : x.node ≠ .runTests) :
    (x.worldAfter ctx).tree = x.world.tree := by
  refine x.makes.eq_of (f := World.tree) fun c w hc => ?_
  cases c <;> cases hn : x.node <;> simp_all [Node.may, World.change]

/-- The worktree is registered by `implementation`. -/
theorem workspace_worldAfter (h : x.node ≠ .implementation) :
    (x.worldAfter ctx).workspace = x.world.workspace := by
  refine x.makes.eq_of (f := World.workspace) fun c w hc => ?_
  cases c with
  | wrote edit =>
    rw [World.change, World.write]
    split <;> rfl
  | _ => cases hn : x.node <;> simp_all [Node.may, World.change]

/-- The branch moves in `git_commit`, and starts over in `implementation`. -/
theorem commits_worldAfter (h₁ : x.node ≠ .implementation) (h₂ : x.node ≠ .gitCommit) :
    (x.worldAfter ctx).commits = x.world.commits := by
  refine x.makes.eq_of (f := World.commits) fun c w hc => ?_
  cases c with
  | wrote edit =>
    rw [World.change, World.write]
    split <;> rfl
  | _ => cases hn : x.node <;> simp_all [Node.may, World.change]

/-- **A commit holds the files of the worktree.** -/
theorem files_of_committed {sha : String} {files : Files}
    (he : Effect.committed sha files ∈ x.effects ctx) :
    x.node = .gitCommit ∧ files = x.world.tree := by
  have hnode : x.node = .gitCommit := by
    refine x.makes.forall_log (Q := fun e => e = .committed sha files → x.node = .gitCommit)
      ?_ ?_ ?_ (by simp) _ he rfl
    · rintro e hmay rfl
      cases hn : x.node <;> simp_all [Node.may, Node.mayLog]
    · intro edit _
      exact ⟨by simp, by simp⟩
    · intro sha files hmay
      cases hn : x.node <;> simp_all [Node.may]
  refine ⟨hnode, ?_⟩
  have hlog : (∀ sha files, Effect.committed sha files ∈ (x.worldAfter ctx).log →
      files = x.world.tree) ∧ (x.worldAfter ctx).tree = x.world.tree := by
    refine x.makes.invariant (P := fun v => (∀ sha files, Effect.committed sha files ∈ v.log →
      files = x.world.tree) ∧ v.tree = x.world.tree) (fun c v hc hv => ?_) (by simp)
    rw [hnode] at hc
    cases c with
    | logged effect =>
      refine ⟨fun sha files h => ?_, hv.2⟩
      rcases List.mem_cons.mp h with rfl | h
      · cases hc
      · exact hv.1 sha files h
    | moved sha' =>
      refine ⟨fun sha files h => ?_, hv.2⟩
      rcases List.mem_cons.mp h with heq | h
      · obtain ⟨-, rfl⟩ := Effect.committed.inj heq
        exact hv.2
      · exact hv.1 sha files h
    | _ => cases hc
  exact hlog.1 sha files he

end Execution

end AgentPlatform
