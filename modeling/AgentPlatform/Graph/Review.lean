import AgentPlatform.Graph.Gates

/-!
# Graph/Review — what `READY_FOR_REVIEW` promises

`human_review` alone sets the outcome, and every edge behind `git_commit` that leads to it is taken
whatever the nodes on the way left in the state.  What a reviewer finds therefore depends on the
four last nodes: the commit the state names, the pull request, the approval row — and on what a
checkpoint of an earlier run had left in the same keys.
-/

namespace AgentPlatform

/-- **What a task that is ready for review has**: the commit its state names is the head of the task
branch, a pull request was opened in the run and the state has its url, and an approval is
pending. -/
def ReadyMeansReviewable (ctx : WorkflowContext) (c : Config) : Prop :=
  c.pc = .ended → c.state.get .outcome "" = "READY_FOR_REVIEW" →
    (∃ sha, c.state.get? .commitSha = some sha ∧ c.world.head? = some sha) ∧
    (∃ x ∈ c.trace, ∃ url, Effect.openedPullRequest url ∈ x.effects ctx ∧
      c.state.get? .pullRequestUrl = some url) ∧
    c.world.pendingApproval = true

/-- `git_commit` passes on the head of the branch: it finds no commit in the state, or it makes its
own, or the one it finds is the head and `git commit` does not move it. -/
def PassesOnHead (ctx : WorkflowContext) (x : Execution) : Prop :=
  x.state.get .commitSha "" = "" ∨ x.Commits ctx ∨
    x.world.head? = x.state.get? .commitSha ∧ ¬ (x.Stages ∧ x.env.commit.moves = true)

/-- `create_pr` completes, `git_commit` passes on the head of the branch, and the node that settles
the run completes unless the state it finds is not `READY_FOR_REVIEW`. -/
def ReviewSound (ctx : WorkflowContext) (x : Execution) : Prop :=
  (x.node = .createPr → x.Completed ctx) ∧ (x.node = .gitCommit → PassesOnHead ctx x) ∧
    (x.node = .humanReview ∨ x.node = .halt →
      x.Completed ctx ∨ x.state.get .outcome "" ≠ "READY_FOR_REVIEW")

instance (ctx : WorkflowContext) : DecidablePred (PassesOnHead ctx) :=
  fun _ => inferInstanceAs (Decidable (_ ∨ _))

instance (ctx : WorkflowContext) : DecidablePred (ReviewSound ctx) :=
  fun _ => inferInstanceAs (Decidable (_ ∧ _))

section Review

variable {ctx : WorkflowContext} {s₀ s : AgentState} {w₀ w : World} {t : List Execution}

/-- **The state names the head of the branch.** -/
def NamesHead (s : AgentState) (w : World) : Prop :=
  ∃ sha, s.get? .commitSha = some sha ∧ w.head? = some sha

/-- The nodes behind `git_commit` keep it so. -/
theorem NamesHead.after {x : Execution} (h : NamesHead x.state x.world)
    (hn : x.node = .ciValidation ∨ x.node = .createPr ∨ x.node = .humanReview) :
    NamesHead (x.stateAfter ctx) (x.worldAfter ctx) := by
  obtain ⟨sha, hsha, hhead⟩ := h
  have hkey : Key.commitSha ∉ x.node.writes := by rcases hn with hn | hn | hn <;> rw [hn] <;> decide
  have hcommits : (x.worldAfter ctx).commits = x.world.commits := by
    refine Execution.commits_worldAfter ?_ ?_ <;>
      rcases hn with hn | hn | hn <;> rw [hn] <;> decide
  refine ⟨sha, ?_, ?_⟩
  · rw [Execution.get?_stateAfter hkey (by decide), hsha]
  · rw [World.head?, hcommits]
    exact hhead

/-- **The way into `ci_validation`** from a `git_commit` that passes on the head. -/
theorem Path.namesHead_ciValidation (h : Path ctx s₀ w₀ t (.node .ciValidation) s w)
    (hsound : ∀ x ∈ t, ReviewSound ctx x) : NamesHead s w := by
  obtain ⟨g, t', rfl, hedge, rfl, rfl, -⟩ := h.pred (by simp)
  obtain ⟨hg, hsha⟩ := hedge.of_ciValidation
  have hpasses := (hsound g List.mem_cons_self).2.1 hg
  rcases hu : (g.update ctx).get? .commitSha with _ | sha
  · have hafter : (g.stateAfter ctx).get? .commitSha = g.state.get? .commitSha := by
      rw [Execution.stateAfter, TypedDict.get?_merge, hu]
      rfl
    rw [TypedDict.get, hafter] at hsha
    rcases hpasses with hempty | hcommits | ⟨hhead, hunmoved⟩
    · exact absurd hempty hsha
    · obtain ⟨sha, hsome⟩ := hcommits.records hg
      rw [hu] at hsome
      cases hsome
    · have hstays : (g.worldAfter ctx).head? = g.world.head? := by
        rw [World.head?, Execution.commits_of_not_moves hg hunmoved]
        rfl
      rcases hold : g.state.get? .commitSha with _ | sha
      · rw [hold] at hsha
        exact absurd rfl hsha
      · exact ⟨sha, hafter.trans hold, hstays.trans (hhead.trans hold)⟩
  · have hrecorded : (g.update ctx).get .commitSha "" ≠ "" := by
      rw [Execution.stateAfter, TypedDict.get_merge_of_some hu] at hsha
      rwa [TypedDict.get, hu]
    obtain ⟨sha', -, hafter, -, hhead⟩ := Execution.recorded_commit hg hrecorded
    exact ⟨sha', hafter, hhead⟩

/-- **The way into `human_review`**: the state names the head, and the pull request that was
opened. -/
theorem Path.reviewable (h : Path ctx s₀ w₀ t (.node .humanReview) s w)
    (hsound : ∀ x ∈ t, ReviewSound ctx x) :
    NamesHead s w ∧ ∃ x ∈ t, ∃ url, Effect.openedPullRequest url ∈ x.effects ctx ∧
      s.get? .pullRequestUrl = some url := by
  obtain ⟨p, t₁, rfl, hedge, rfl, rfl, hpath⟩ := h.pred (by simp)
  have hp := hedge.of_humanReview
  rw [hp] at hpath
  obtain ⟨c, t₂, rfl, hedge, hstate, hworld, hpath⟩ := hpath.pred (by simp)
  obtain ⟨hc, -⟩ := hedge.of_createPr
  rw [hc] at hpath
  have hnames : NamesHead p.state p.world := by
    rw [hstate, hworld]
    refine (hpath.namesHead_ciValidation fun y hy => hsound y (by simp [hy])).after (.inl hc)
  refine ⟨hnames.after (.inr (.inl hp)), p, List.mem_cons_self, ?_⟩
  obtain ⟨u, hu⟩ := Execution.completed_iff.mp ((hsound p List.mem_cons_self).1 hp)
  have hbody := Execution.result_of_ok hu
  rw [hp] at hbody
  obtain ⟨url, hopened, hurl⟩ := createPr_eq_ok hbody
  refine ⟨url, hopened, ?_⟩
  rw [Execution.stateAfter, TypedDict.get?_merge, Execution.update_of_ok hu, hurl]
  rfl

/-- **A `halt` that completes hands the task over**; one that fails leaves the outcome it found. -/
theorem Execution.outcome_of_halt {x : Execution} (hn : x.node = .halt)
    (h : x.Completed ctx ∨ x.state.get .outcome "" ≠ "READY_FOR_REVIEW") :
    (x.stateAfter ctx).get .outcome "" ≠ "READY_FOR_REVIEW" := by
  rcases hr : x.raised ctx with _ | e
  · obtain ⟨u, hu⟩ := Execution.completed_iff.mp hr
    have hbody := Execution.result_of_ok hu
    rw [hn] at hbody
    rw [Execution.stateAfter, Execution.update_of_ok hu,
      TypedDict.get_merge_of_some (halt_eq_ok hbody)]
    decide
  · rw [Execution.get_stateAfter_of_raised hr (by decide)]
    refine h.resolve_left fun hdone => ?_
    rw [Execution.Completed, hr] at hdone
    cases hdone

/-- **`READY_FOR_REVIEW` means reviewable**, from any checkpoint, in every run whose last nodes are
sound. -/
theorem readyMeansReviewable_of_reviewSound (ctx : WorkflowContext) (s₀ : AgentState) (w₀ : World)
    (envs : List NodeEnv) (h : Runs.Along (step ctx) (Each (ReviewSound ctx)) (start s₀ w₀) envs) :
    ReadyMeansReviewable ctx (Runs.run (step ctx) (start s₀ w₀) envs) := by
  intro hended hready
  have htrace := forall_trace_of_along h
  have hpath : OnPath ctx s₀ w₀ _ := onPath_run envs
  rw [OnPath, hended] at hpath
  obtain ⟨x, t, ht, hedge, hstate, hworld, hpath⟩ := hpath.pred (by simp)
  rw [ht] at htrace
  have hlast := (htrace x List.mem_cons_self).2.2 hedge.of_stop
  rw [hstate] at hready
  rcases hedge.of_stop with hn | hn
  · rcases hr : x.raised ctx with _ | e
    · obtain ⟨u, hu⟩ := Execution.completed_iff.mp hr
      have hbody := Execution.result_of_ok hu
      rw [hn] at hpath hbody
      obtain ⟨hpending, -⟩ := humanReview_eq_ok hbody
      obtain ⟨hnames, y, hy, url, hopened, hurl⟩ :=
        hpath.reviewable fun y hy => htrace y (List.mem_cons_of_mem _ hy)
      rw [hstate, hworld, ht]
      refine ⟨hnames.after (.inr (.inr hn)), ⟨y, List.mem_cons_of_mem _ hy, url, hopened, ?_⟩,
        hpending⟩
      rw [Execution.get?_stateAfter (by rw [hn]; decide) (by decide), hurl]
    · rw [Execution.get_stateAfter_of_raised hr (by decide)] at hready
      rcases hlast with hdone | hother
      · rw [Execution.Completed, hr] at hdone
        cases hdone
      · exact absurd hready hother
  · exact absurd hready (Execution.outcome_of_halt hn hlast)

end Review

/-- A quiet run, to its end. -/
theorem readyMeansReviewable_calm :
    ReadyMeansReviewable sampleContext (sampleRun (List.replicate 11 .calm)) :=
  readyMeansReviewable_of_reviewSound _ _ _ _ (by decide +kernel)

/-- The provider refuses the pull request. -/
def refusedPullRequest : List NodeEnv :=
  List.replicate 11 { NodeEnv.calm with createPullRequest := .error (.transient "github 502") }

/-- **A pull request that was never opened is ready for review.** -/
theorem refusedPullRequest_ready :
    ¬ ReadyMeansReviewable sampleContext (sampleRun refusedPullRequest) := by
  intro h
  have hended : (sampleRun refusedPullRequest).pc = .ended := by decide +kernel
  have hready : (sampleRun refusedPullRequest).state.get .outcome "" = "READY_FOR_REVIEW" := by
    decide +kernel
  have hurl : (sampleRun refusedPullRequest).state.get? .pullRequestUrl = none := by decide +kernel
  obtain ⟨-, ⟨-, -, url, -, hsome⟩, -⟩ := h hended hready
  rw [hurl] at hsome
  cases hsome

end AgentPlatform
