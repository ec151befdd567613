import AgentPlatform.Graph.Workflow
import AgentPlatform.Graph.NodeSpecs

/-!
# Graph/CommitRecord — the commit of a `git_commit`, and the one the state names

`git commit` moves the branch in the middle of the node.  What comes after it can fail —
`git rev-parse`, the event, closing the agent run, the supervisor's checkpoint — and drops the whole
update, while an older `commit_sha` may still stand in the state; and a node that makes no commit
leaves an older one there for `after_commit` to read.

A run records each of its commits, and takes no older one for new, exactly if at each `git_commit`
nothing fails after the branch has moved, and no `commit_sha` stands in the state if it does not
move (`recordsCommit_iff`).
-/

namespace AgentPlatform

/-- The commit the branch was moved to, also by a command that fails afterwards. -/
def CommitCommand.moved? : CommitCommand → Option String
  | committed sha => some sha
  | failed sha? _ => sha?
  | raised _ => none

/-- What `git rev-parse HEAD` prints for a head. -/
def NodeEnv.revParsed? (env : NodeEnv) (sha : String) : Option String :=
  match env.revParse with
  | .ok printed => some (if printed then sha else "")
  | .error _ => none

/-- `commit_message` finds a subject line. -/
def hasSubject (s : AgentState) : Bool :=
  Text.splitlines (Text.strip (Nodes.commitSubject s).toList) ≠ []

namespace Execution

variable (ctx : WorkflowContext) (x : Execution)

/-- The commit a `git_commit` moves the branch to. -/
def moved? : Option String :=
  if x.world.workspace.isSome ∧ x.Stages ∧ hasSubject x.state then x.env.commit.moved? else none

/-- Nothing fails after `git commit` has moved the branch to `sha`. -/
def Settles (sha : String) : Prop :=
  x.env.commit.succeeds = true ∧ x.env.revParsed? sha = some sha ∧
    x.env.emit .commitCreated = none ∧ x.env.finish = none ∧ x.env.escape = none

/-- **The condition on a `git_commit`**: where it moves the branch, nothing fails afterwards; where
it does not, the state names no commit, or the supervisor raises. -/
def RecordsCommit : Prop :=
  match x.moved? with
  | some sha => x.Settles sha
  | none => x.state.get .commitSha "" = "" ∨ x.env.escape ≠ none

/-- `git` gives a new commit a new sha. -/
def NewSha : Prop := ∀ sha ∈ x.moved?, x.state.get? .commitSha ≠ some sha

instance (sha : String) : Decidable (x.Settles sha) := inferInstanceAs (Decidable (_ ∧ _))

instance : DecidablePred RecordsCommit := fun x => by
  unfold RecordsCommit
  exact match x.moved? with
    | some sha => inferInstanceAs (Decidable (x.Settles sha))
    | none => inferInstanceAs (Decidable (_ ∨ _))

instance : DecidablePred NewSha := fun x => inferInstanceAs (Decidable (∀ sha ∈ x.moved?, _))

end Execution

/-- **A created commit is a recorded commit**: if the branch moved, the state after the node names
the new head, and if not, `after_commit` does not go on to CI. -/
def CommitRecorded (ctx : WorkflowContext) (c : Config) (env : NodeEnv) : Prop :=
  ∀ x ∈ c.execution? env, x.node = .gitCommit →
    ((x.worldAfter ctx).commits ≠ x.world.commits →
      (step ctx c env).state.get? .commitSha = (x.worldAfter ctx).head?) ∧
    ((x.worldAfter ctx).commits = x.world.commits → (step ctx c env).pc ≠ .node .ciValidation)

instance (ctx : WorkflowContext) (c : Config)
    (env : NodeEnv) : Decidable (CommitRecorded ctx c env) :=
  inferInstanceAs (Decidable (∀ x ∈ c.execution? env, _))

/-! ## What the body does -/

/-- The branch moves to the files of the worktree. -/
def World.advance (w : World) (sha : String) : World :=
  { w with commits := ⟨sha, w.tree⟩ :: w.commits, log := .committed sha w.tree :: w.log }

section Body

open Prog

variable {ctx : WorkflowContext} {env : NodeEnv} {s : AgentState} {w : World}

/-- `commit_all` once something is staged. -/
theorem commitAll_of_staged (hadd : env.gitAdd = .ok ()) (hstaged : env.staged = .ok true) :
    Nodes.commitAll env w = match env.commit, env.revParse with
      | .committed sha, .ok printed => (.ok (if printed then sha else ""), w.advance sha)
      | .committed sha, .error e => (.error e, w.advance sha)
      | .failed sha? output, _ => (.error
        (.platform "AgentPlatformError" s!"git commit failed: {output}"),
        (sha?.map w.advance).getD w)
      | .raised e, _ => (.error e, w) := by
  rcases hc : env.commit with sha | ⟨sha?, output⟩ | e <;> rcases hp :
    env.revParse with e' | printed <;>
    simp [Nodes.commitAll, bind_apply, lift, hadd, hstaged, whenever, pure_apply,
      Nodes.gitCommitCommand, hc, hp, Prog.read, World.advance, World.head?]
  all_goals rfl

/-- The subject line of the commit message is found, or missing it is an `IndexError`. -/
theorem strippedFirstLine_of_subject (w : World) :
    if hasSubject s = true then ∃ line, Nodes.strippedFirstLine (Nodes.commitSubject s) w
      = (.ok line, w)
    else Nodes.strippedFirstLine (Nodes.commitSubject s) w
      = (.error (.other "IndexError" "list index out of range"), w) := by
  rcases hlines : Text.splitlines (Text.strip (Nodes.commitSubject s).toList) with _ | ⟨line, lines⟩
  · simp [hasSubject, hlines, Nodes.strippedFirstLine, NodeM.firstLine, raise]
  · simp [hasSubject, hlines, Nodes.strippedFirstLine, NodeM.firstLine, pure_apply]

/-- `git_commit` with something to commit and a subject to commit it under. -/
theorem gitCommit_of_subject {ws : Workspace} (hws : w.workspace = some ws)
    (hfiles : s.get .modifiedFiles [] ≠ []) (hsubject : hasSubject s = true) :
    Nodes.gitCommit ctx env s w = match Nodes.commitAll env w with
      | (.ok sha, w') => Nodes.reportCommit env ws (.ok sha) w'
      | (.error e, w') => if e.isPlatform then Nodes.reportCommit env ws (.error e.message) w'
          else (.error e, w') := by
  have hline := strippedFirstLine_of_subject (s := s) w
  rw [if_pos hsubject] at hline
  obtain ⟨line, hline⟩ := hline
  have hget : NodeM.getWorkspace ctx w = (.ok ws, w) := by simp [NodeM.getWorkspace, hws]
  rw [Nodes.gitCommit, bind_of_ok hget, if_neg hfiles, bind_apply, Nodes.tryCommit,
    catching, bind_apply, Nodes.commitChanges, bind_of_ok hline]
  rcases Nodes.commitAll env w with ⟨e | sha, w'⟩
  · rcases hplatform : e.isPlatform with _ | _ <;> simp [hplatform, pure_apply, raise]
  · rfl

/-- The commit an outcome names. -/
def namedCommit : Except PyError AgentState → Option String
  | .ok u => u.get? .commitSha
  | .error _ => none

/-- `git_commit` that does not get as far as `git commit`. -/
theorem gitCommit_of_unstarted (ctx : WorkflowContext)
    (h : ¬ (w.workspace.isSome ∧ s.get .modifiedFiles [] ≠ [] ∧ hasSubject s = true)) :
    (Nodes.gitCommit ctx env s w).2 = w ∧ namedCommit (Nodes.gitCommit ctx env s w).1 = none := by
  rcases hws : w.workspace with _ | ws
  · simp [Nodes.gitCommit, bind_apply, NodeM.getWorkspace, hws, namedCommit]
  have hget : NodeM.getWorkspace ctx w = (.ok ws, w) := by simp [NodeM.getWorkspace, hws]
  rw [Nodes.gitCommit, bind_of_ok hget]
  by_cases hfiles : s.get .modifiedFiles [] = []
  · simp [hfiles, pure_apply, namedCommit]
  · have hsubject : hasSubject s ≠ true := fun hsubject => h ⟨by simp [hws], hfiles, hsubject⟩
    have hline := strippedFirstLine_of_subject (s := s) w
    rw [if_neg hsubject] at hline
    simp [hfiles, Nodes.tryCommit, catching, bind_apply, Nodes.commitChanges, hline,
      PyError.isPlatform, raise, namedCommit]

/-- What `git_commit` reports for a commit: its update, unless the event is lost. -/
theorem reportCommit_ok {ws : Workspace} {sha : String} :
    Nodes.reportCommit env ws (.ok sha) w = (match env.emit .commitCreated with
      | none => .ok (.of [⟨.commitSha, sha⟩, ⟨.gitBranch, ws.branch⟩])
      | some e => .error e, { w with log := .emitted .commitCreated :: w.log }) := by
  rcases hemit : env.emit .commitCreated with _ | e <;>
    simp [Nodes.reportCommit, bind_apply, NodeM.emit, NodeM.record, Prog.modify, call,
      hemit, pure_apply, raise]

/-- A commit that failed is reported, or raised on: either way it is not named. -/
theorem reportCommit_error (env : NodeEnv) (ws : Workspace) (e : PyError) (w : World) :
    (if e.isPlatform then Nodes.reportCommit env ws (.error e.message) w else (.error e, w)).2 = w ∧
      namedCommit (if e.isPlatform then Nodes.reportCommit env ws (.error e.message) w
        else (.error e, w)).1 = none := by
  rcases e.isPlatform with _ | _
  · exact ⟨rfl, rfl⟩
  · exact ⟨rfl, by simp [Nodes.reportCommit, pure_apply, namedCommit]⟩

/-- **`git_commit` once something is staged**: where the branch stands, and the commit it names. -/
theorem gitCommit_of_staged (ctx : WorkflowContext) {ws : Workspace} (hws : w.workspace = some ws)
    (hfiles : s.get .modifiedFiles [] ≠ []) (hsubject : hasSubject s = true)
    (hadd : env.gitAdd = .ok ()) (hstaged : env.staged = .ok true) :
    (Nodes.gitCommit ctx env s w).2.commits
        = (env.commit.moved?.map fun sha => ⟨sha, w.tree⟩ :: w.commits).getD w.commits ∧
      namedCommit (Nodes.gitCommit ctx env s w).1
        = if env.commit.succeeds = true ∧ env.emit .commitCreated = none then
            env.commit.moved?.bind env.revParsed? else none := by
  rw [gitCommit_of_subject hws hfiles hsubject, commitAll_of_staged hadd hstaged]
  rcases hc : env.commit with sha | ⟨sha?, output⟩ | e
  · rcases hp : env.revParse with e | printed
    · obtain ⟨hworld, hnamed⟩ := reportCommit_error env ws e (w.advance sha)
      dsimp only
      rw [hworld, hnamed]
      exact ⟨rfl, by simp [CommitCommand.moved?, NodeEnv.revParsed?, hp]⟩
    · dsimp only
      rw [reportCommit_ok]
      refine ⟨rfl, ?_⟩
      rcases hemit : env.emit .commitCreated with _ | e
      · simp [namedCommit, CommitCommand.succeeds, CommitCommand.moved?, NodeEnv.revParsed?, hp]
      · simp [namedCommit]
  · rcases sha? with _ | sha
    · exact ⟨rfl, by simp [CommitCommand.succeeds, Nodes.reportCommit,
        PyError.isPlatform, pure_apply, namedCommit]⟩
    · exact ⟨rfl, by simp [CommitCommand.succeeds, Nodes.reportCommit,
        PyError.isPlatform, pure_apply, namedCommit]⟩
  · obtain ⟨hworld, hnamed⟩ := reportCommit_error env ws e w
    dsimp only
    rw [hworld, hnamed]
    exact ⟨rfl, by simp [CommitCommand.succeeds]⟩

/-- `git_commit` with nothing staged. -/
theorem gitCommit_of_not_staged (ctx : WorkflowContext)
    (h : ¬ (env.gitAdd = .ok () ∧ env.staged = .ok true)) :
    (Nodes.gitCommit ctx env s w).2 = w ∧ namedCommit (Nodes.gitCommit ctx env s w).1 = none := by
  by_cases hstarts : w.workspace.isSome ∧ s.get .modifiedFiles [] ≠ [] ∧ hasSubject s = true
  · obtain ⟨hws, hfiles, hsubject⟩ := hstarts
    obtain ⟨ws, hws⟩ := Option.isSome_iff_exists.mp hws
    have hfails : ¬ (env.gitAdd = .ok () ∧ env.staged = .ok true ∧ env.commit.moves = true) :=
      fun hmoves => h ⟨hmoves.1, hmoves.2.1⟩
    obtain ⟨e, he⟩ := commitAll_eq_error hfails w
    rw [gitCommit_of_subject hws hfiles hsubject, he]
    exact reportCommit_error env ws e w
  · exact gitCommit_of_unstarted ctx hstarts

end Body

namespace Execution

variable {ctx : WorkflowContext} {x : Execution}

theorem get?_commitSha_update : (x.update ctx).get? .commitSha
    = if x.env.finish = none then namedCommit (x.result ctx).1 else none := by
  rw [update, outcome]
  rcases hr : (x.result ctx).1 with e | u
  · simp [namedCommit, get?_errorUpdate]
  · rcases hf : x.env.finish with _ | e
    · simp [namedCommit]
    · simp [get?_errorUpdate]

/-- The commit that stands in the update of a `git_commit` that moved the branch to `sha`. -/
def named? (x : Execution) (sha : String) : Option String :=
  if x.env.commit.succeeds = true ∧ x.env.emit .commitCreated = none ∧ x.env.finish = none then
    x.env.revParsed? sha else none

/-- **What a `git_commit` does to the branch, and what its update says.** -/
theorem commit_of_gitCommit (hn : x.node = .gitCommit) :
    (x.worldAfter ctx).commits
        = (x.moved?.map fun sha => ⟨sha, x.world.tree⟩ :: x.world.commits).getD x.world.commits ∧
      (x.update ctx).get? .commitSha = x.moved?.bind x.named? := by
  have hresult : x.result ctx = Nodes.gitCommit ctx x.env x.state { x.world with log := [] } := by
    rw [result, hn]
    rfl
  rw [get?_commitSha_update, worldAfter, hresult]
  by_cases hstarts : x.world.workspace.isSome ∧ x.Stages ∧ hasSubject x.state
  · obtain ⟨ws, hws⟩ := Option.isSome_iff_exists.mp hstarts.1
    obtain ⟨-, ⟨hfiles, hadd, hstaged⟩, hsubject⟩ := hstarts
    obtain ⟨hcommits, hnamed⟩ := gitCommit_of_staged ctx
      (w := { x.world with log := [] }) hws hfiles
      hsubject hadd hstaged
    have hmoved : x.moved? = x.env.commit.moved? :=
      if_pos ⟨by simp [hws], ⟨hfiles, hadd, hstaged⟩, hsubject⟩
    rw [hcommits, hnamed, hmoved]
    refine ⟨rfl, ?_⟩
    rcases x.env.commit.moved? with _ | sha
    · simp
    · simp only [Option.bind_some, named?]
      split_ifs <;> simp_all
  · have hmoved : x.moved? = none := if_neg hstarts
    have hbody : (Nodes.gitCommit ctx x.env x.state { x.world with log := [] }).2
          = { x.world with log := [] } ∧
        namedCommit (Nodes.gitCommit ctx x.env x.state { x.world with log := [] }).1 = none := by
      by_cases hstaged : x.env.gitAdd = .ok () ∧ x.env.staged = .ok true
      · exact gitCommit_of_unstarted ctx fun h => hstarts ⟨h.1, ⟨h.2.1, hstaged⟩, h.2.2⟩
      · exact gitCommit_of_not_staged ctx hstaged
    rw [hbody.1, hbody.2, hmoved]
    exact ⟨rfl, by simp⟩

end Execution

/-! ## Steps and runs -/

section Runs

variable {ctx : WorkflowContext} {c : Config} {env : NodeEnv} {x : Execution}

/-- `after_commit` goes on to CI where the merged state names a commit. -/
theorem next_gitCommit (hn : x.node = .gitCommit) :
    (x.next ctx).pc = .node .ciValidation ↔ (x.stateAfter ctx).get .commitSha "" ≠ "" := by
  rw [Execution.next, hn, route, afterCommit]
  split_ifs with h
  · simp [Target.pc, h]
  · simp [Target.pc, h]

/-- A `git_commit` that does not move the branch. -/
theorem recordsCommit_of_unmoved (hn : x.node = .gitCommit) (hm : x.moved? = none)
    (hxe : x.env = env) (hstep : (∃ e, env.escape = some e ∧
        step ctx c env = ⟨.aborted e, c.state, x.worldAfter ctx, x :: c.trace⟩) ∨
      (env.escape = none ∧
        step ctx c env = ⟨(x.next ctx).pc, x.stateAfter ctx, x.worldAfter ctx, x :: c.trace⟩)) :
    x.RecordsCommit ↔ (step ctx c env).pc ≠ .node .ciValidation := by
  rw [Execution.RecordsCommit, hm]
  dsimp only
  rw [hxe]
  rcases hstep with ⟨e, hescape, hstep⟩ | ⟨hescape, hstep⟩
  · rw [hstep, hescape]
    simp
  · have hkept : (x.stateAfter ctx).get .commitSha "" = x.state.get .commitSha "" := by
      refine TypedDict.get_merge_of_none ?_ _
      rw [(Execution.commit_of_gitCommit hn).2, hm]
      rfl
    rw [hstep, hescape, ne_eq (x.next ctx).pc, next_gitCommit hn, hkept]
    simp

/-- A `git_commit` that moves the branch. -/
theorem recordsCommit_of_moved (hn : x.node = .gitCommit) {sha : String} (hm : x.moved? = some sha)
    (hnew : x.NewSha) (hxs : x.state = c.state) (hxe : x.env = env)
    (hstep : (∃ e, env.escape = some e ∧
        step ctx c env = ⟨.aborted e, c.state, x.worldAfter ctx, x :: c.trace⟩) ∨
      (env.escape = none ∧
        step ctx c env = ⟨(x.next ctx).pc, x.stateAfter ctx, x.worldAfter ctx, x :: c.trace⟩)) :
    x.RecordsCommit ↔ (step ctx c env).state.get? .commitSha = some sha := by
  have hstale : x.state.get? .commitSha ≠ some sha := hnew sha hm
  rw [Execution.RecordsCommit, hm]
  dsimp only
  rw [Execution.Settles, hxe]
  rcases hstep with ⟨e, hescape, hstep⟩ | ⟨hescape, hstep⟩
  · rw [hstep, hescape, ← hxs]
    simp [hstale]
  · rw [hstep, hescape, Execution.stateAfter, TypedDict.get?_merge,
      (Execution.commit_of_gitCommit hn).2, hm, Option.bind_some, Execution.named?, hxe]
    split_ifs with hcond
    · rcases hparsed : env.revParsed? sha with _ | printed
      · simp [hstale]
      · simp [hcond]
    · simp only [Option.none_or, hstale, iff_false]
      exact fun h => hcond ⟨h.1, h.2.2.1, h.2.2.2.1⟩

/-- **One `git_commit`** records its commit exactly if it meets the condition. -/
theorem commitRecorded_iff (hnew : Each (fun x => x.node = .gitCommit → x.NewSha) c env) :
    CommitRecorded ctx c env ↔ Each (fun x => x.node = .gitCommit → x.RecordsCommit) c env := by
  rcases step_cases ctx c env with ⟨hx, -⟩ | ⟨x, hx, -, hxs, hxe, hstep⟩
  · simp [CommitRecorded, Each, hx]
  simp only [CommitRecorded, Each, hx, Option.mem_def, Option.some.injEq, forall_eq'] at hnew ⊢
  refine forall_congr' fun hn => ?_
  have hcommits : (x.worldAfter ctx).commits = _ := (Execution.commit_of_gitCommit hn).1
  rcases hm : x.moved? with _ | sha
  · rw [hm] at hcommits
    rw [recordsCommit_of_unmoved hn hm hxe hstep]
    exact ⟨fun h => h.2 hcommits, fun h => ⟨fun hne => absurd hcommits hne, fun _ => h⟩⟩
  · rw [hm] at hcommits
    have hmoved : (x.worldAfter ctx).commits ≠ x.world.commits := by
      rw [hcommits]
      simp
    have hhead : (x.worldAfter ctx).head? = some sha := by
      rw [World.head?, hcommits]
      rfl
    rw [recordsCommit_of_moved hn hm (hnew hn) hxs hxe hstep, hhead]
    exact ⟨fun h => h.1 hmoved, fun h => ⟨fun _ => h, fun hsame => absurd hsame hmoved⟩⟩

/-- **A run records every commit it creates, and takes no other for new, exactly if every
`git_commit` of it meets the condition.** -/
theorem recordsCommit_iff (ctx : WorkflowContext) (s₀ : AgentState) (w₀ : World)
    (envs : List NodeEnv)
    (hnew : Runs.Along (step ctx) (Each fun x => x.node = .gitCommit →
      x.NewSha) (start s₀ w₀) envs) :
    Runs.Along (step ctx) (CommitRecorded ctx) (start s₀ w₀) envs ↔
      Runs.Along (step ctx) (Each fun x => x.node = .gitCommit →
        x.RecordsCommit) (start s₀ w₀) envs :=
  hnew.congr fun _ _ h => commitRecorded_iff h

end Runs

/-- An uneventful run records its commit. -/
theorem recordsCommit_calm : Runs.Along (step sampleContext) (CommitRecorded sampleContext)
    (start (initialState sampleArguments) sampleWorld) (List.replicate 8 .calm) :=
  (recordsCommit_iff _ _ _ _ (by decide +kernel)).mpr (by decide +kernel)

/-- The first commit is made, and the event store is lost when it is announced. -/
def unannouncedCommit : List NodeEnv :=
  List.replicate 7 .calm ++ [{ NodeEnv.calm with emit := storeLost .commitCreated }]

/-- **The branch stands at the new commit, and the state names none.** -/
theorem unannouncedCommit_unrecorded :
    (sampleRun unannouncedCommit).world.head? = some "c1" ∧
      (sampleRun unannouncedCommit).state.get? .commitSha = none ∧
      ¬ Runs.Along (step sampleContext) (CommitRecorded sampleContext)
        (start (initialState sampleArguments) sampleWorld) unannouncedCommit := by
  refine ⟨?_, ?_, ?_⟩ <;> decide +kernel

end AgentPlatform
