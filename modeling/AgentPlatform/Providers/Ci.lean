import AgentPlatform.Graph.Failure

/-!
# Providers/Ci — which workflow run decides

`GitHubActionsProvider` finds the run the push started and polls it until it finishes.  GitHub may
list several runs for the commit, one for each workflow, in any order: `trigger` takes the first one
listed for the commit and `wait` asks for that one alone.

GitHub is what it answers, request by request; `Truthful` says that its answers agree on the
conclusion each run comes to.

* `ciRun_passed` — a pass is the pass of the first run listed for the commit, and says nothing about
  those listed behind it.
-/

namespace AgentPlatform

namespace GitHubActions

/-- A workflow run, as the API shows it. -/
structure WorkflowRun where
  id : ℕ
  headSha : Option String
  status : Option String
  conclusion : Option String
  htmlUrl : String
  deriving DecidableEq, Repr

/-- An HTTP response; `failure` is the text `raise_for_status` puts in its exception. -/
structure Response (α : Type) where
  code : ℕ
  body : α
  failure : String

/-- What a request comes to. -/
abbrev Answer (α : Type) := Except PyError (Response α)

/-- `response.raise_for_status()`, before the body is read. -/
def Response.raiseForStatus {α : Type} (r : Response α) : Except PyError α :=
  if 200 ≤ r.code ∧ r.code < 300 then .ok r.body else .error (.other "HTTPStatusError" r.failure)

/-- `_CONCLUSION_MAP`. -/
def conclusionMap : String → Option CIStatus
  | "success" => some .passed
  | "failure" => some .failed
  | "timed_out" => some .timedOut
  | "cancelled" => some .failed
  | "startup_failure" => some .failed
  | "skipped" => some .skipped
  | "neutral" => some .passed
  | _ => none

/-- The status the API shows of a run is one of those before its conclusion. -/
def WorkflowRun.waiting (run : WorkflowRun) : Bool :=
  run.status = some "queued" || run.status = some "waiting" || run.status = some "requested" ||
    run.status = some "pending"

/-- The status `_to_result` gives a run. -/
def WorkflowRun.resolved (run : WorkflowRun) : CIStatus :=
  if run.waiting then .pending
  else if run.status = some "in_progress" then .running
  else (conclusionMap (run.conclusion.getD "")).getD .failed

/-- `_to_result`. -/
def toResult (run : WorkflowRun) : CIRunResult := ⟨toString run.id, run.resolved, run.htmlUrl, ""⟩

/-- `_list_runs`. -/
def listRuns (answer : Answer (List WorkflowRun)) : Except PyError (List WorkflowRun) := do
  let response ← answer
  if response.code ≥ 500 then .error (.transient s!"github actions {response.code}")
  else response.raiseForStatus

/-- The run is for the commit. -/
def WorkflowRun.isFor (sha : Option String) (run : WorkflowRun) : Bool :=
  sha.isNone || run.headSha = sha

section Provider

variable (branch : String) (listing : ℕ → Answer (List WorkflowRun)) (sha : Option String)

/-- The attempts of `trigger`, from one on. -/
def triggerFrom : ℕ → ℕ → Except PyError CIRunResult
  | 0, _ => .ok ⟨"", .skipped, "", s!"no workflow run found for {branch}"⟩
  | n + 1, attempt => do
    let runs ← listRuns (listing attempt)
    match runs.find? (WorkflowRun.isFor sha) with
    | some run => pure (toResult run)
    | none => triggerFrom n (attempt + 1)

/-- `trigger`. -/
def trigger : Except PyError CIRunResult := triggerFrom branch listing sha 6 0

/-- The list in which one of the attempts finds a run. -/
def listedFrom : ℕ → ℕ → Option (List WorkflowRun)
  | 0, _ => none
  | n + 1, attempt =>
    match listRuns (listing attempt) with
    | .ok runs => if runs.any (WorkflowRun.isFor sha) then some runs else listedFrom n (attempt + 1)
    | .error _ => none

/-- **The list of runs `trigger` goes by.** -/
def listed : Option (List WorkflowRun) := listedFrom listing sha 6 0

end Provider

/-- `get_status`. -/
def getStatus (runId : String) (answer : Answer WorkflowRun) : Except PyError CIRunResult :=
  if runId = "" then .ok ⟨"", .skipped, "", ""⟩
  else do
    let response ← answer
    if response.code = 404 then .ok ⟨runId, .skipped, "", ""⟩
    else do
      let run ← response.raiseForStatus
      pure (toResult run)

/-- One round of `wait`: what `get_status` is answered, and whether the deadline has passed then. -/
structure Poll where
  answer : Answer WorkflowRun
  late : Bool

/-- `wait`, for as many rounds as are given. -/
def wait (runId : String) : List Poll → Option (Except PyError CIRunResult)
  | [] => none
  | poll :: polls =>
    match getStatus runId poll.answer with
    | .error e => some (.error e)
    | .ok result =>
      if result.finished then some (.ok result)
      else if poll.late then some (.ok ⟨runId, .timedOut, result.url, ""⟩)
      else wait runId polls

/-- `trigger`, then `wait` if the run has not finished, as `Nodes.ci_validation` calls them. -/
def ciRun (branch : String) (listing : ℕ → Answer (List WorkflowRun)) (polls : String → List Poll)
    (sha : Option String) : Option (Except PyError CIRunResult) :=
  match trigger branch listing sha with
  | .error e => some (.error e)
  | .ok run => if run.finished = false ∧ run.id ≠ "" then wait run.id (polls run.id)
    else some (.ok run)

/-- **The node sees what the provider comes to.** -/
theorem ciRun_eq_ciResult {env : NodeEnv} {branch : String}
    {listing : ℕ → Answer (List WorkflowRun)}
    {polls : String → List Poll} {sha : Option String}
    (htrigger : env.trigger = trigger branch listing sha)
    (hwait : ∀ run, env.trigger = .ok run → wait run.id (polls run.id) = some env.wait) :
    ciRun branch listing polls sha = some env.ciResult := by
  rw [ciRun, NodeEnv.ciResult, ← htrigger]
  rcases h : env.trigger with e | run
  · rfl
  · dsimp only
    split
    · exact hwait run h
    · rfl

/-! ## Conclusions -/

/-- What is shown of a run that is over is the conclusion it came to. -/
def WorkflowRun.Settled (conclusions : ℕ → Option String) (run : WorkflowRun) : Prop :=
  run.waiting = false → run.status ≠ some "in_progress" → conclusions run.id = run.conclusion

instance (conclusions : ℕ → Option String)
    (run : WorkflowRun) : Decidable (run.Settled conclusions) :=
  inferInstanceAs (Decidable (_ → _ → _))

/-- **GitHub answers truthfully**: a run has one conclusion once it has completed, and what is asked
about a run is answered about that run. -/
structure Truthful (conclusions : ℕ → Option String) (listing : ℕ → Answer (List WorkflowRun))
    (polls : String → List Poll) : Prop where
  listed : ∀ attempt runs, listRuns (listing attempt) = .ok runs →
    ∀ run ∈ runs, run.Settled conclusions
  polled : ∀ id : ℕ, ∀ poll ∈ polls (toString id), ∀ response run, poll.answer = .ok response →
    response.raiseForStatus = .ok run → run.id = id ∧ run.Settled conclusions

/-- Every run of the list that is for the commit came to a conclusion that counts as passed or
skipped. -/
def EveryRunPassed (conclusions : ℕ → Option String) (sha : String)
    (runs : List WorkflowRun) : Prop :=
  ∀ run ∈ runs, run.headSha = some sha → ∃ c, conclusions run.id = some c ∧
    (conclusionMap c = some .passed ∨ conclusionMap c = some .skipped)

/-- **CI passes only if every pipeline passed.** -/
def PassMeansEvery (conclusions : ℕ → Option String) (branch : String)
    (listing : ℕ → Answer (List WorkflowRun)) (polls : String → List Poll) (sha : String) : Prop :=
  ∀ r, ciRun branch listing polls (some sha) = some (.ok r) → r.status = .passed →
    ∀ runs, listed listing (some sha) = some runs → EveryRunPassed conclusions sha runs

section Passing

variable {conclusions : ℕ → Option String} {branch runId sha : String} {run : WorkflowRun}
  {listing : ℕ → Answer (List WorkflowRun)} {polls : String → List Poll} {r : CIRunResult}

/-- A run that is shown as passed has passed. -/
theorem passed_of_resolved (h : run.resolved = .passed) (hsettled : run.Settled conclusions) :
    ∃ c, conclusions run.id = some c ∧ conclusionMap c = some .passed := by
  rw [WorkflowRun.resolved] at h
  split at h
  · cases h
  rename_i hwaiting
  split at h
  · cases h
  rename_i hprogress
  have hconclusion := hsettled (by simpa using hwaiting) hprogress
  rcases hc : run.conclusion with _ | c
  · rw [hc] at h
    cases h
  · rw [hc, Option.getD_some] at h
    refine ⟨c, hconclusion.trans hc, ?_⟩
    rcases hmap : conclusionMap c with _ | status
    · rw [hmap] at h
      cases h
    · rw [hmap] at h
      exact congrArg some h

/-- **What `trigger` returns**: the first run for the commit in the list it goes by, or no run. -/
theorem triggerFrom_eq_ok {commit : Option String} {n attempt : ℕ}
    (h : triggerFrom branch listing commit n attempt = .ok r) : r.status = .skipped ∨
    ∃ k runs run, listedFrom listing commit n attempt = some runs ∧
    listRuns (listing k) = .ok runs ∧
      runs.find? (WorkflowRun.isFor commit) = some run ∧ r = toResult run := by
  induction n generalizing attempt with
  | zero =>
    obtain rfl := Except.ok.inj h
    exact .inl rfl
  | succ n ih =>
    obtain ⟨runs, hruns, h⟩ := Prog.outcome_bind_eq_ok.mp h
    rw [listedFrom, hruns]
    dsimp only
    rcases hfind : runs.find? (WorkflowRun.isFor commit) with _ | run
    · rw [hfind] at h
      have hany : runs.any (WorkflowRun.isFor commit) = false := by
        simpa using hfind
      rw [hany]
      exact ih h
    · rw [hfind] at h
      have hany : runs.any (WorkflowRun.isFor commit) = true :=
        List.any_eq_true.mpr ⟨run, List.mem_of_find?_eq_some hfind, List.find?_some hfind⟩
      rw [if_pos hany]
      exact .inr ⟨attempt, runs, run, rfl, hruns, hfind, (Except.ok.inj h).symm⟩

theorem getStatus_passed {answer : Answer WorkflowRun} (h : getStatus runId answer = .ok r)
    (hpassed : r.status = .passed) : ∃ response run, answer = .ok response ∧
      response.raiseForStatus = .ok run ∧ run.resolved = .passed := by
  rw [getStatus] at h
  split at h
  · obtain rfl := Except.ok.inj h
    cases hpassed
  obtain ⟨response, hanswer, h⟩ := Prog.outcome_bind_eq_ok.mp h
  split at h
  · obtain rfl := Except.ok.inj h
    cases hpassed
  obtain ⟨run, hrun, h⟩ := Prog.outcome_bind_eq_ok.mp h
  obtain rfl := Except.ok.inj h
  exact ⟨response, run, hanswer, hrun, hpassed⟩

/-- **A run that `wait` finds passed** was shown as passed in some round. -/
theorem wait_passed {rounds : List Poll} (h : wait runId rounds = some (.ok r))
    (hpassed : r.status = .passed) : ∃ poll ∈ rounds, ∃ response run, poll.answer = .ok response ∧
      response.raiseForStatus = .ok run ∧ run.resolved = .passed := by
  induction rounds with
  | nil => cases h
  | cons poll rounds ih =>
    rw [wait] at h
    rcases hstatus : getStatus runId poll.answer with e | result
    · rw [hstatus] at h
      cases h
    · rw [hstatus] at h
      dsimp only at h
      split at h
      · obtain rfl := Except.ok.inj (Option.some.inj h)
        exact ⟨poll, List.mem_cons_self, getStatus_passed hstatus hpassed⟩
      split at h
      · obtain rfl := Except.ok.inj (Option.some.inj h)
        cases hpassed
      · obtain ⟨poll', hmem, hpoll⟩ := ih h
        exact ⟨poll', List.mem_cons_of_mem poll hmem, hpoll⟩

/-- The run that is followed has passed. -/
theorem followed_passed (hgithub : Truthful conclusions listing polls)
    (hsettled : run.Settled conclusions)
    (hrun : (if (toResult run).finished = false ∧ (toResult run).id ≠ "" then
      wait (toResult run).id (polls (toResult run).id) else some (.ok (toResult run)))
        = some (.ok r))
    (hpassed : r.status = .passed) :
    ∃ c, conclusions run.id = some c ∧ conclusionMap c = some .passed := by
  split at hrun
  · obtain ⟨poll, hmem, response, shown, hanswer, hshown, hresolved⟩ := wait_passed hrun hpassed
    obtain ⟨hid, hsettled'⟩ := hgithub.polled run.id poll hmem response shown hanswer hshown
    rw [← hid]
    exact passed_of_resolved hresolved hsettled'
  · obtain rfl := Except.ok.inj (Option.some.inj hrun)
    exact passed_of_resolved hpassed hsettled

/-- **A pass is the pass of the first run listed for the commit**; that every run of the commit
passed is then a matter of those listed behind it. -/
theorem ciRun_passed (hgithub : Truthful conclusions listing polls)
    (hrun : ciRun branch listing polls (some sha) = some (.ok r)) (hpassed : r.status = .passed) :
    ∃ earlier first later, listed listing (some sha) = some (earlier ++ first :: later) ∧
      (∀ run ∈ earlier, run.headSha ≠ some sha) ∧ first.headSha = some sha ∧
      (∃ c, conclusions first.id = some c ∧ conclusionMap c = some .passed) ∧
      (EveryRunPassed conclusions sha (earlier ++ first :: later) ↔
        EveryRunPassed conclusions sha later) := by
  rw [ciRun] at hrun
  rcases htrigger : trigger branch listing (some sha) with e | result
  · rw [htrigger] at hrun
    cases hrun
  rw [htrigger] at hrun
  dsimp only at hrun
  rcases triggerFrom_eq_ok htrigger with hskipped | ⟨k, runs, first, hlisted, hruns, hfind, rfl⟩
  · rw [if_neg (by simp [CIRunResult.finished, hskipped])] at hrun
    obtain rfl := Except.ok.inj (Option.some.inj hrun)
    rw [hskipped] at hpassed
    cases hpassed
  obtain ⟨hfor, earlier, later, rfl, hearlier⟩ := List.find?_eq_some_iff_append.mp hfind
  have hsha : ∀ run : WorkflowRun, run.isFor (some sha) = true ↔ run.headSha = some sha := by
    simp [WorkflowRun.isFor]
  have hbefore : ∀ run ∈ earlier, run.headSha ≠ some sha := by
    intro run hmem heq
    simpa [(hsha run).mpr heq] using hearlier run hmem
  obtain ⟨c, hc, hpass⟩ := followed_passed hgithub
    (hgithub.listed k _ hruns first (by simp)) hrun hpassed
  refine ⟨earlier, first, later, hlisted, hbefore, (hsha first).mp hfor, ⟨c, hc, hpass⟩, ?_, ?_⟩
  · exact fun h run hmem => h run (by simp [hmem])
  · intro h run hmem heq
    rcases List.mem_append.mp hmem with hmem | hmem
    · exact absurd heq (hbefore run hmem)
    rcases List.mem_cons.mp hmem with rfl | hmem
    · exact ⟨c, hc, .inl hpass⟩
    · exact h run hmem heq

end Passing

/-- A commit with two workflows: the tests, which have passed, and a policy check that is still
running. -/
def twoWorkflows : List WorkflowRun :=
  [⟨1, some "c1", some "completed", some "success", "runs/1"⟩,
    ⟨2, some "c1", some "in_progress", none, "runs/2"⟩]

/-- …and will fail. -/
def testsOnly : ℕ → Option String
  | 1 => some "success"
  | 2 => some "failure"
  | _ => none

/-- GitHub lists both at every attempt. -/
def listsBoth : ℕ → Answer (List WorkflowRun) := fun _ => .ok ⟨200, twoWorkflows, ""⟩

theorem truthful_listsBoth : Truthful testsOnly listsBoth (fun _ => []) where
  listed := by
    rintro attempt runs hruns
    obtain rfl : twoWorkflows = runs := Except.ok.inj hruns
    decide
  polled := by simp

theorem ciRun_listsBoth : ciRun "agent/T-1" listsBoth (fun _ => []) (some "c1")
    = some (.ok ⟨"1", .passed, "runs/1", ""⟩) := by decide

theorem ciRun_passed_listsBoth : ∃ earlier first later,
    listed listsBoth (some "c1") = some (earlier ++ first :: later) ∧
      (∀ run ∈ earlier, run.headSha ≠ some "c1") ∧ first.headSha = some "c1" ∧
      (∃ c, testsOnly first.id = some c ∧ conclusionMap c = some .passed) ∧
      (EveryRunPassed testsOnly "c1" (earlier ++ first :: later) ↔
        EveryRunPassed testsOnly "c1" later) :=
  ciRun_passed truthful_listsBoth ciRun_listsBoth rfl

/-- **A pass does not mean that every pipeline passed**: the policy check of the commit fails. -/
theorem listsBoth_passes : Truthful testsOnly listsBoth (fun _ => []) ∧
    ¬ PassMeansEvery testsOnly "agent/T-1" listsBoth (fun _ => []) "c1" := by
  refine ⟨truthful_listsBoth, fun h => ?_⟩
  obtain ⟨c, hc, hpassed⟩ := h _ ciRun_listsBoth rfl twoWorkflows rfl
    ⟨2, some "c1", some "in_progress", none, "runs/2"⟩ (by decide) rfl
  obtain rfl : "failure" = c := Option.some.inj hc
  exact absurd hpassed (by decide)

end GitHubActions

end AgentPlatform
