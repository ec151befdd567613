import AgentPlatform.Graph.CommitGate
import AgentPlatform.Graph.Review

/-!
# Graph/WholeTask — what `modified_files` is a diff of

`collect_diff` compares the worktree with `HEAD`, and `HEAD` moves with every commit of the CI loop.
Before the first commit `HEAD` is the base of the task and the list is the task's; after it, the
list is what the last commit added to the one before, and so is the set the thresholds of the last
`security_policy` count.

`reviewerSeesTask_of_landsWhole` says when the two are the same: no commit goes on from a head that
differs from the base where it should not.
-/

namespace AgentPlatform

/-! ## Trees that differ -/

/-- The paths are those at which the trees differ. -/
def Lists (paths : List String) (a b : Files) : Prop := ∀ p, p ∈ paths ↔ a.lookup p ≠ b.lookup p

/-- `c` differs from `a` where it differs from `b`. -/
def SameChange (a b c : Files) : Prop := ∀ p, a.lookup p ≠ c.lookup p ↔ b.lookup p ≠ c.lookup p

theorem lookup_eq_none {files : Files} {p : String} (h : p ∉ files.map Prod.fst) :
    files.lookup p = none := by
  refine List.lookup_eq_none_iff.mpr fun entry hentry => ?_
  rw [bne_iff_ne]
  rintro rfl
  exact h (List.mem_map_of_mem hentry)

/-- Trees differ at paths they hold. -/
theorem lists_iff {paths : List String} {a b : Files} :
    (∀ p ∈ paths ++ (a.map Prod.fst ++ b.map Prod.fst), (p ∈ paths ↔ a.lookup p ≠ b.lookup p)) ↔
      Lists paths a b := by
  refine ⟨fun h p => ?_, fun h p _ => h p⟩
  by_cases hp : p ∈ paths ++ (a.map Prod.fst ++ b.map Prod.fst)
  · exact h p hp
  · simp only [List.mem_append, not_or] at hp
    simp [hp.1, lookup_eq_none hp.2.1, lookup_eq_none hp.2.2]

theorem sameChange_iff {a b c : Files} :
    (∀ p ∈ a.map Prod.fst ++ (b.map Prod.fst ++ c.map Prod.fst),
      (a.lookup p ≠ c.lookup p ↔ b.lookup p ≠ c.lookup p)) ↔ SameChange a b c := by
  refine ⟨fun h p => ?_, fun h p _ => h p⟩
  by_cases hp : p ∈ a.map Prod.fst ++ (b.map Prod.fst ++ c.map Prod.fst)
  · exact h p hp
  · simp only [List.mem_append, not_or] at hp
    rw [lookup_eq_none hp.1, lookup_eq_none hp.2.1]

instance (paths : List String) (a b : Files) : Decidable (Lists paths a b) :=
  decidable_of_iff _ lists_iff

instance (a b c : Files) : Decidable (SameChange a b c) := decidable_of_iff _ sameChange_iff

/-- A list of what differs from `a` is one of what differs from `b`. -/
theorem Lists.of_sameChange {paths : List String} {a b c : Files} (h : Lists paths a c)
    (hsame : SameChange a b c) : Lists paths b c := fun p => (h p).trans (hsame p)

/-- The files of the head of the task branch; before its first commit, those of the base. -/
def World.headFiles (base : Files) (w : World) : Files :=
  (w.commits.head?.map Commit.files).getD base

/-- A diff that was collected, and the tree it was collected from. -/
def Effect.collected? : Effect → Option (Files × DiffSummary)
  | collected files summary => some (files, summary)
  | _ => none

/-- **`collect_diff` is `git diff HEAD`**: every diff of the execution lists the paths at which the
worktree differs from the head. -/
def DiffsHead (ctx : WorkflowContext) (base : Files) (x : Execution) : Prop :=
  ∀ e ∈ x.effects ctx, ∀ c ∈ e.collected?, Lists c.2.files ((x.worldAfter ctx).headFiles base) c.1

instance (ctx : WorkflowContext) (base : Files) : DecidablePred (DiffsHead ctx base) :=
  fun _ => inferInstanceAs (Decidable (∀ e ∈ _, _))

/-- The files of the last evaluation of `security_policy`. -/
def LastEvaluated (ctx : WorkflowContext) (trace : List Execution) (files : List String) : Prop :=
  ∃ x decision, trace.find? (fun y => y.node = .securityPolicy) = some x ∧
    Effect.evaluated files decision ∈ x.effects ctx

/-- **The reviewer sees the whole task**: `modified_files` lists what differs between the base and
the head of the branch, and so did the files the thresholds were last applied to. -/
def ReviewerSeesTask (ctx : WorkflowContext) (base : Files) (c : Config) : Prop :=
  c.pc = .ended → c.state.get .outcome "" = "READY_FOR_REVIEW" →
    Lists (c.state.get .modifiedFiles []) base (c.world.headFiles base) ∧
      ∃ files, LastEvaluated ctx c.trace files ∧ Lists files base (c.world.headFiles base)

/-- `security_policy` fails closed, `git_commit` passes on no old commit and moves the branch from a
head that differs from the worktree where the base does, and `halt` completes unless the state it
finds is not `READY_FOR_REVIEW`. -/
def LandsWhole (ctx : WorkflowContext) (base : Files) (x : Execution) : Prop :=
  PolicyFailsClosed ctx x ∧
    (x.node = .gitCommit → (x.state.get .commitSha "" ≠ "" → x.Commits ctx) ∧
      (x.Stages → x.env.commit.moves = true →
        SameChange (x.world.headFiles base) base x.world.tree)) ∧
    (x.node = .halt → x.Completed ctx ∨ x.state.get .outcome "" ≠ "READY_FOR_REVIEW")

instance (ctx : WorkflowContext) (base : Files) : DecidablePred (LandsWhole ctx base) :=
  fun _ => inferInstanceAs (Decidable (_ ∧ _))

/-! ## The commit that lands -/

namespace Execution

variable {ctx : WorkflowContext} {x : Execution}

/-- **A commit is of the worktree, and the head of the branch.** -/
theorem headFiles_of_committed {sha : String} {files : Files}
    (h : Effect.committed sha files ∈ x.effects ctx) (base : Files) :
    (x.worldAfter ctx).headFiles base = x.world.tree := by
  obtain ⟨hn, -⟩ := files_of_committed h
  have hmakes : Made Node.gitCommit.may { x.world with log := [] } (x.worldAfter ctx) :=
    hn ▸ x.makes
  have hlanded := hmakes.invariant (P := fun w => w.tree = x.world.tree ∧
    ((∃ sha files, Effect.committed sha files ∈ w.log) → w.headFiles base = x.world.tree))
    (fun c w hc hw => ?_) ⟨rfl, by simp⟩
  · exact hlanded.2 ⟨sha, files, h⟩
  · cases c with
    | logged effect =>
      refine ⟨hw.1, fun ⟨sha, files, hmem⟩ => ?_⟩
      rcases List.mem_cons.mp hmem with rfl | hmem
      · cases hc
      · exact hw.2 ⟨sha, files, hmem⟩
    | moved sha => exact ⟨hw.1, fun _ => hw.1⟩
    | _ => cases hc

/-- A commit was staged, and moved the branch. -/
theorem stages_of_committed {sha : String} {files : Files}
    (h : Effect.committed sha files ∈ x.effects ctx) : x.Stages ∧ x.env.commit.moves = true := by
  obtain ⟨hn, -⟩ := files_of_committed h
  by_contra hunmoved
  have hlogged := (makes_of_not_moves hn hunmoved).mem_log_of_isEmitted h (by simp)
  exact absurd hlogged List.not_mem_nil

/-- A completed `security_policy` leaves in the state the files it evaluated, of a diff of the
worktree. -/
theorem modifiedFiles_of_ok {u : AgentState} (hn : x.node = .securityPolicy)
    (hu : x.outcome ctx = .ok u) (hws : x.world.workspace ≠ none) :
    ∃ summary decision, Effect.collected x.world.tree summary ∈ x.effects ctx ∧
      Effect.evaluated summary.files decision ∈ x.effects ctx ∧
      (x.stateAfter ctx).get .modifiedFiles [] = summary.files := by
  have hbody := result_of_ok hu
  rw [hn] at hbody
  obtain ⟨d, v, hd, hlog, -, hfiles, -⟩ := securityPolicy_eq_ok hbody
  rcases refreshDiff_eq_ok hd with ⟨hnone, -, -⟩ | ⟨summary, -, hdiff, rfl, rfl⟩
  · exact absurd hnone hws
  · refine ⟨summary, _, hlog List.mem_cons_self,
      (evaluated_mem_effects_iff hn hws hdiff).mpr ⟨rfl, rfl⟩, ?_⟩
    rw [stateAfter, update_of_ok hu]
    exact TypedDict.get_merge_of_some (hfiles.trans (by simp [Nodes.diffUpdate])) _

end Execution

/-! ## The way to the review -/

section Review

variable {ctx : WorkflowContext} {base : Files} {s₀ s : AgentState} {w₀ w : World}
  {t : List Execution}

/-- The state and the last evaluation show the whole branch. -/
def ShowsBranch (ctx : WorkflowContext) (base : Files) (t : List Execution)
    (s : AgentState) (w : World) :
    Prop :=
  Lists (s.get .modifiedFiles []) base (w.headFiles base) ∧
    ∃ files, LastEvaluated ctx t files ∧ Lists files base (w.headFiles base)

/-- **The way into `ci_validation`**: a commit of what `security_policy` was shown. -/
theorem Path.showsBranch_ciValidation (h : Path ctx s₀ w₀ t (.node .ciValidation) s w)
    (hgit : ∀ x ∈ t, DiffsHead ctx base x) (hlands : ∀ x ∈ t, LandsWhole ctx base x) :
    ShowsBranch ctx base t s w := by
  obtain ⟨g, t₁, rfl, hedge, rfl, rfl, hpath⟩ := h.pred (by simp)
  obtain ⟨hg, hsha⟩ := hedge.of_ciValidation
  obtain ⟨hfresh, hsame⟩ := (hlands g List.mem_cons_self).2.1 hg
  obtain ⟨sha, files, -, hmem, -⟩ := Execution.commit_of_goesOn hg hfresh hsha
  obtain ⟨hstages, hmoves⟩ := Execution.stages_of_committed hmem
  rw [hg] at hpath
  obtain ⟨p, t₂, u, rfl, hp, hu, -, hstate, hworld⟩ := hpath.pred_gitCommit fun y hy =>
    (hlands y (List.mem_cons_of_mem _ hy)).1
  have hkept : (p.worldAfter ctx).workspace = p.world.workspace :=
    Execution.workspace_worldAfter (by simp [hp])
  have hws : p.world.workspace ≠ none := by
    rw [← hkept, ← hworld]
    exact workspace_of_committed hmem
  have htree : g.world.tree = p.world.tree := by
    rw [hworld]
    exact Execution.tree_worldAfter (by simp [hp]) (by simp [hp]) (by simp [hp]) (by simp [hp])
      (by simp [hp])
  obtain ⟨summary, decision, hcollected, hevaluated, hfiles⟩ :=
    Execution.modifiedFiles_of_ok hp hu hws
  have hwhole : Lists summary.files base g.world.tree := by
    have hlists := hgit p (by simp) _ hcollected (p.world.tree, summary) rfl
    rw [← hworld, ← htree] at hlists
    exact hlists.of_sameChange (hsame hstages hmoves)
  rw [ShowsBranch, Execution.headFiles_of_committed hmem]
  refine ⟨?_, summary.files, ⟨p, decision, by simp [hg, hp], hevaluated⟩, hwhole⟩
  rw [Execution.get_stateAfter (by rw [hg]; decide) (by decide), hstate, hfiles]
  exact hwhole

/-- The nodes behind `git_commit` keep it so. -/
theorem ShowsBranch.after {x : Execution} (h : ShowsBranch ctx base t x.state x.world)
    (hn : x.node = .ciValidation ∨ x.node = .createPr ∨ x.node = .humanReview) :
    ShowsBranch ctx base (x :: t) (x.stateAfter ctx) (x.worldAfter ctx) := by
  have hkey : Key.modifiedFiles ∉ x.node.writes := by
    rcases hn with hn | hn | hn <;> rw [hn] <;> decide
  have hnode : x.node ≠ .securityPolicy := by rcases hn with hn | hn | hn <;> rw [hn] <;> decide
  have hhead : (x.worldAfter ctx).headFiles base = x.world.headFiles base := by
    rw [World.headFiles, World.headFiles, Execution.commits_worldAfter] <;>
      rcases hn with hn | hn | hn <;> rw [hn] <;> decide
  obtain ⟨hmodified, files, ⟨p, decision, hlast, hevaluated⟩, hfiles⟩ := h
  rw [ShowsBranch, hhead, Execution.get_stateAfter hkey (by decide)]
  exact ⟨hmodified, files, ⟨p, decision, by simpa [hnode] using hlast, hevaluated⟩, hfiles⟩

/-- **The way into `human_review`**: behind the commit nothing changes what is shown. -/
theorem Path.showsBranch_humanReview (h : Path ctx s₀ w₀ t (.node .humanReview) s w)
    (hgit : ∀ x ∈ t, DiffsHead ctx base x) (hlands : ∀ x ∈ t, LandsWhole ctx base x) :
    ShowsBranch ctx base t s w := by
  obtain ⟨p, t₁, rfl, hedge, rfl, rfl, hpath⟩ := h.pred (by simp)
  have hp := hedge.of_humanReview
  rw [hp] at hpath
  obtain ⟨c, t₂, rfl, hedge, hstate, hworld, hpath⟩ := hpath.pred (by simp)
  obtain ⟨hc, -⟩ := hedge.of_createPr
  rw [hc] at hpath
  have hbefore := hpath.showsBranch_ciValidation (fun y hy => hgit y (by simp [hy]))
    fun y hy => hlands y (by simp [hy])
  have hshown : ShowsBranch ctx base (c :: t₂) p.state p.world := by
    rw [hstate, hworld]
    exact hbefore.after (.inl hc)
  exact hshown.after (.inr (.inl hp))

/-- **The reviewer sees the whole task**, in every run whose commits land whole. -/
theorem reviewerSeesTask_of_landsWhole (ctx : WorkflowContext) (base : Files)
    (s₀ : AgentState) (w₀ : World)
    (envs : List NodeEnv)
    (hgit : Runs.Along (step ctx) (Each (DiffsHead ctx base)) (start s₀ w₀) envs)
    (h : Runs.Along (step ctx) (Each (LandsWhole ctx base)) (start s₀ w₀) envs) :
    ReviewerSeesTask ctx base (Runs.run (step ctx) (start s₀ w₀) envs) := by
  intro hended hready
  have hdiffs := forall_trace_of_along hgit
  have hlands := forall_trace_of_along h
  have hpath : OnPath ctx s₀ w₀ _ := onPath_run envs
  rw [OnPath, hended] at hpath
  obtain ⟨x, t, ht, hedge, hstate, hworld, hpath⟩ := hpath.pred (by simp)
  rw [ht] at hdiffs hlands
  rw [hstate] at hready
  rw [ht, hstate, hworld]
  rcases hedge.of_stop with hn | hn
  · rw [hn] at hpath
    have hshown := hpath.showsBranch_humanReview (fun y hy => hdiffs y (List.mem_cons_of_mem _ hy))
      fun y hy => hlands y (List.mem_cons_of_mem _ hy)
    exact hshown.after (.inr (.inr hn))
  · have hhalt := (hlands x List.mem_cons_self).2.2 hn
    exact absurd hready (Execution.outcome_of_halt hn hhalt)

end Review

/-- The base of the sample task. -/
def sampleBase : Files := [("App.csproj", ""), ("src/Total.cs", "broken")]

/-- A quiet run, to its end. -/
theorem reviewerSeesTask_calm :
    ReviewerSeesTask sampleContext sampleBase (sampleRun (List.replicate 11 .calm)) :=
  reviewerSeesTask_of_landsWhole _ _ _ _ _ (by decide +kernel) (by decide +kernel)

/-- CI fails on the first commit, and the fix for it is in another file. -/
def fixedForCi : List NodeEnv :=
  let failing : NodeEnv := { NodeEnv.calm with trigger := .ok ⟨"7", .failed, "", ""⟩ }
  let fixing : NodeEnv := { NodeEnv.calm with
    ci := ⟨[("src/Rates.cs", "added")], .ok ⟨"missing rates", false⟩⟩
    collectDiff := .ok ⟨"+added", ["src/Rates.cs"], 1, 0⟩
    commit := .committed "c2" }
  List.replicate 8 .calm ++ [failing, fixing, fixing, fixing, fixing, .calm, .calm, .calm]

/-- **The reviewer sees the second commit only**, and the thresholds counted its one file. -/
theorem fixedForCi_partlySeen :
    Runs.Along (step sampleContext) (Each (DiffsHead sampleContext sampleBase))
        (start (initialState sampleArguments) sampleWorld) fixedForCi ∧
      ¬ ReviewerSeesTask sampleContext sampleBase (sampleRun fixedForCi) := by
  refine ⟨by decide +kernel, fun h => ?_⟩
  have hended : (sampleRun fixedForCi).pc = .ended := by decide +kernel
  have hready : (sampleRun fixedForCi).state.get .outcome ""
    = "READY_FOR_REVIEW" := by decide +kernel
  have hpartly : ¬ Lists ((sampleRun fixedForCi).state.get .modifiedFiles []) sampleBase
      ((sampleRun fixedForCi).world.headFiles sampleBase) := by decide +kernel
  exact hpartly (h hended hready).1

end AgentPlatform
