import AgentPlatform.Core.Domain
import AgentPlatform.Machinery.Runs
import Mathlib.Logic.Function.Basic

/-!
# Tools/Worktrees — creating a task's worktree again

`WorkspaceManager` over the three places a worktree leaves something behind: the directory, the
registration in the repository and the branch.  `create` clears all three, but only if the directory
is there; `destroy` keeps the branch unless it is told otherwise; and a directory can be lost on its
own, with the registration and the branch staying behind.

* `create_succeeds_iff` — after every history of calls and losses, `create` succeeds exactly if the
  directory is there, or neither the registration nor the branch is.
-/

namespace AgentPlatform

namespace Worktrees

/-- A repository: its linked worktrees, each with the branch checked out there, and its branches. -/
structure Repo where
  worktrees : List (String × String)
  branches : List String
  deriving DecidableEq

/-- `Workspace`. -/
structure Workspace where
  taskId : String
  path : String
  branch : String
  repositoryPath : String
  deriving DecidableEq

/-- The disk, the repositories on it, and `WorkspaceManager._active`. -/
structure State where
  /-- `Path.exists`. -/
  exist : String → Bool
  repos : String → Option Repo
  active : String → Option Workspace

namespace State

/-- What git does to a repository; outside of one it fails. -/
def onRepo (s : State) (repo : String) (f : Repo → Repo) : State :=
  { s with repos := Function.update s.repos repo ((s.repos repo).map f) }

@[simp] theorem repos_onRepo (s : State) (repo : String) (f : Repo → Repo) :
    (s.onRepo repo f).repos repo = (s.repos repo).map f := Function.update_self _ _ _

/-- The directory of the repository, or what was meant to be one, is there. -/
def isDir (s : State) (repo : String) : Bool := (s.repos repo).isSome || s.exist repo

/-- The directory is gone. -/
def without (s : State) (path : String) : State :=
  { s with exist := Function.update s.exist path false }

end State

/-! ## Git -/

/-- The directory is a linked worktree. -/
def Repo.registered (r : Repo) (path : String) : Bool := r.worktrees.any fun w => w.1 = path

/-- The branch is checked out in a linked worktree. -/
def Repo.checkedOut (r : Repo) (branch : String) : Bool := r.worktrees.any fun w => w.2 = branch

/-- `git worktree remove --force`. -/
def worktreeRemove (repo path : String) (s : State) : State :=
  if (s.repos repo).any (·.registered path) then
    (s.onRepo repo fun r => { r with worktrees := r.worktrees.filter (·.1 ≠ path) }).without path
  else s

/-- `git worktree prune`: the registrations of directories that are gone are dropped. -/
def worktreePrune (repo : String) (s : State) : State :=
  s.onRepo repo fun r => { r with worktrees := r.worktrees.filter fun w => s.exist w.1 }

/-- `git branch -D`, which refuses a branch that is checked out. -/
def branchDelete (repo branch : String) (s : State) : State :=
  s.onRepo repo fun r =>
    if r.checkedOut branch then r else { r with branches := r.branches.filter (· ≠ branch) }

/-- `git worktree add <path> -b <branch>` succeeds. -/
def canAdd (repo path branch : String) (s : State) : Bool :=
  match s.repos repo with
  | none => false
  | some r => !s.exist path && !r.registered path && !r.branches.contains branch

/-- What it does then. -/
def worktreeAdd (repo path branch : String) (s : State) : State :=
  { s.onRepo repo fun r => ⟨(path, branch) :: r.worktrees, branch :: r.branches⟩ with
    exist := Function.update s.exist path true }

/-! ## The manager -/

section Manager

variable (root : String)

/-- `self.workspace_root / task_id`. -/
def target (task : String) : String := root ++ "/" ++ task

/-- `f"{BRANCH_PREFIX}{task_id}"`. -/
def branchOf (task : String) : String := "agent/" ++ task

/-- `_remove_worktree`, up to the branch. -/
def clearDirectory (repo path : String) (s : State) : State :=
  let s := worktreeRemove repo path s
  worktreePrune repo (if s.exist path then s.without path else s)

/-- `_remove_worktree`. -/
def removeWorktree (repo path : String) (branch : Option String) (s : State) : State :=
  match branch with
  | some branch =>
    if branch = "" then clearDirectory repo path s
    else branchDelete repo branch (clearDirectory repo path s)
  | none => clearDirectory repo path s

/-- `if target.exists()` of `create`. -/
def prepare (task repo : String) (s : State) : State :=
  if s.exist (target root task) then removeWorktree repo (target root task) (some (branchOf task)) s
  else s

/-- `create`; `refusal` is the exit status and the error output of a `git worktree add` that
failed. -/
def create (refusal task repo : String) (s : State) : Except PyError Workspace × State :=
  if s.repos repo = none then (.error (.workspaceViolation s!"not a git repository: {repo}"), s)
  else
    let path := target root task
    let branch := branchOf task
    let s := prepare root task repo s
    if canAdd repo path branch s then
      let workspace : Workspace := ⟨task, path, branch, repo⟩
      let s := worktreeAdd repo path branch s
      (.ok workspace, { s with active := Function.update s.active task (some workspace) })
    else (.error (.workspaceViolation s!"git worktree add failed {refusal}"), s)

/-- `adopt`. -/
def adopt (task path branch repo : String) (s : State) : State :=
  { s with active := Function.update s.active task (some ⟨task, path, branch, repo⟩) }

/-- `destroy`.  Without the directory of the repository the first command raises, and nothing is
removed. -/
def destroy (task : String) (keepBranch : Bool) (s : State) : State :=
  match s.active task with
  | none => s
  | some workspace =>
    let s := { s with active := Function.update s.active task none }
    if s.isDir workspace.repositoryPath then
      removeWorktree workspace.repositoryPath workspace.path
        (if keepBranch then none else some workspace.branch) s
    else s

/-- What happens to the worktrees. -/
inductive Event where
  | create (refusal task repo : String)
  | adopt (task path branch repo : String)
  | destroy (task : String) (keepBranch : Bool)
  /-- The directory is lost. -/
  | lose (path : String)
  /-- The worker dies, and another one starts with a manager of its own. -/
  | restart
  deriving DecidableEq

/-- One event. -/
def step (s : State) : Event → State
  | .create refusal task repo => (create root refusal task repo s).2
  | .adopt task path branch repo => adopt task path branch repo s
  | .destroy task keepBranch => destroy task keepBranch s
  | .lose path => s.without path
  | .restart => { s with active := fun _ => none }

end Manager

/-! ## What stays registered -/

/-- **Registrations only go**: the repositories stay, and none has a worktree it did not have. -/
structure Shrinks (s s' : State) : Prop where
  repos : ∀ repo, (s'.repos repo).isSome = (s.repos repo).isSome
  worktrees : ∀ repo r r', s.repos repo = some r → s'.repos repo = some r' →
    r'.worktrees ⊆ r.worktrees

theorem Shrinks.refl (s : State) : Shrinks s s :=
  ⟨fun _ => rfl, fun _ _ _ h h' => by
    rw [Option.some.inj (h.symm.trans h')]; exact List.Subset.refl _⟩

theorem Shrinks.trans {s s' s'' : State} (h : Shrinks s s')
    (h' : Shrinks s' s'') : Shrinks s s'' where
  repos repo := (h'.repos repo).trans (h.repos repo)
  worktrees repo r r'' hr hr'' := by
    obtain ⟨r', hr'⟩ := Option.isSome_iff_exists.mp ((h.repos repo).trans (by rw [hr]; rfl))
    exact List.Subset.trans (h'.worktrees repo r' r'' hr' hr'') (h.worktrees repo r r' hr hr')

theorem shrinks_of_repos_eq {s s' : State} (h : s'.repos = s.repos) : Shrinks s s' :=
  ⟨fun repo => by rw [h], fun repo r r' hr hr' => by
    rw [h, hr] at hr'
    rw [Option.some.inj hr']
    exact List.Subset.refl _⟩

theorem shrinks_onRepo (s : State) (repo : String) {f : Repo → Repo}
    (hf : ∀ r, (f r).worktrees ⊆ r.worktrees) : Shrinks s (s.onRepo repo f) where
  repos other := by
    by_cases hother : other = repo
    · subst hother
      simp [State.onRepo]
    · simp [State.onRepo, Function.update_of_ne hother]
  worktrees other r r' hr hr' := by
    by_cases hother : other = repo
    · subst hother
      simp only [State.onRepo, Function.update_self, hr, Option.map_some, Option.some.injEq] at hr'
      exact hr' ▸ hf r
    · simp only [State.onRepo, Function.update_of_ne hother, hr, Option.some.injEq] at hr'
      rw [hr']
      exact List.Subset.refl _

theorem shrinks_worktreeRemove (repo path : String) (s : State) :
    Shrinks s (worktreeRemove repo path s) := by
  rw [worktreeRemove]
  split
  · exact (shrinks_onRepo s repo fun r =>
      List.filter_sublist.subset).trans (shrinks_of_repos_eq rfl)
  · exact .refl s

theorem shrinks_worktreePrune (repo : String) (s : State) : Shrinks s (worktreePrune repo s) :=
  shrinks_onRepo s repo fun _ => List.filter_sublist.subset

theorem shrinks_branchDelete (repo branch : String) (s : State) :
    Shrinks s (branchDelete repo branch s) := by
  refine shrinks_onRepo s repo fun r => ?_
  split <;> exact List.Subset.refl _

theorem shrinks_clearDirectory (repo path : String) (s : State) :
    Shrinks s (clearDirectory repo path s) := by
  refine (shrinks_worktreeRemove repo path s).trans (.trans ?_ (shrinks_worktreePrune repo _))
  split
  · exact shrinks_of_repos_eq rfl
  · exact .refl _

theorem shrinks_removeWorktree (repo path : String) (branch : Option String) (s : State) :
    Shrinks s (removeWorktree repo path branch s) := by
  cases branch with
  | none => exact shrinks_clearDirectory repo path s
  | some branch =>
    rw [removeWorktree]
    split
    · exact shrinks_clearDirectory repo path s
    · exact (shrinks_clearDirectory repo path s).trans (shrinks_branchDelete repo branch _)

/-! ## The invariant -/

/-- **The branch of a task is checked out nowhere but in the task's worktree.** -/
def Proper (root : String) (s : State) : Prop :=
  ∀ repo r, s.repos repo = some r → ∀ w ∈ r.worktrees, ∀ task, w.2 = branchOf task →
    w.1 = target root task

section Invariant

variable {root : String} {s s' : State}

theorem Proper.shrinks (h : Proper root s) (hshrinks : Shrinks s s') : Proper root s' := by
  intro repo r' hr' w hw task hbranch
  obtain ⟨r, hr⟩ := Option.isSome_iff_exists.mp
    ((hshrinks.repos repo).symm.trans (by rw [hr']; rfl))
  exact h repo r hr w (hshrinks.worktrees repo r r' hr hr' hw) task hbranch

theorem branchOf_injective : Function.Injective branchOf := by
  intro task task' h
  simpa [branchOf] using h

theorem Proper.worktreeAdd (h : Proper root s) (repo task : String) :
    Proper root (worktreeAdd repo (target root task) (branchOf task) s) := by
  intro other r hr w hw task' hbranch
  by_cases hother : other = repo
  · subst hother
    simp only [Worktrees.worktreeAdd, State.onRepo, Function.update_self,
      Option.map_eq_some_iff] at hr
    obtain ⟨r₀, hr₀, rfl⟩ := hr
    rcases List.mem_cons.mp hw with rfl | hw
    · rw [branchOf_injective hbranch]
    · exact h other r₀ hr₀ w hw task' hbranch
  · simp only [Worktrees.worktreeAdd, State.onRepo, Function.update_of_ne hother] at hr
    exact h other r hr w hw task' hbranch

theorem shrinks_prepare (root task repo : String)
    (s : State) : Shrinks s (prepare root task repo s) := by
  rw [prepare]
  split
  · exact shrinks_removeWorktree _ _ _ _
  · exact .refl s

/-- **What `create` can do**: nothing, clear up, or clear up and add the worktree. -/
theorem create_snd (root refusal task repo : String) (s : State) :
    (create root refusal task repo s).2 = s ∨
      (create root refusal task repo s).2 = prepare root task repo s ∨
      (create root refusal task repo s).2.repos =
        (worktreeAdd repo (target root task) (branchOf task) (prepare root task repo s)).repos := by
  rw [create]
  split
  · exact .inl rfl
  · dsimp only
    split
    · exact .inr (.inr rfl)
    · exact .inr (.inl rfl)

theorem shrinks_destroy (task : String) (keepBranch : Bool) (s : State) :
    Shrinks s (destroy task keepBranch s) := by
  rw [destroy]
  split
  · exact .refl s
  · have hpopped : Shrinks s { s with active := Function.update s.active task none } :=
      shrinks_of_repos_eq rfl
    dsimp only
    split
    · exact hpopped.trans (shrinks_removeWorktree _ _ _ _)
    · exact hpopped

/-- **Every event keeps the branches of the tasks in their worktrees.** -/
theorem Proper.step (h : Proper root s) (e : Event) : Proper root (step root s e) := by
  cases e with
  | create refusal task repo =>
    have hprepared := h.shrinks (shrinks_prepare root task repo s)
    rw [Worktrees.step]
    rcases create_snd root refusal task repo s with hnone | hcleared | hadded
    · rwa [hnone]
    · rwa [hcleared]
    · exact (hprepared.worktreeAdd repo task).shrinks (shrinks_of_repos_eq hadded)
  | adopt task path branch repo => exact h.shrinks (shrinks_of_repos_eq rfl)
  | destroy task keepBranch => exact h.shrinks (shrinks_destroy task keepBranch s)
  | lose path => exact h.shrinks (shrinks_of_repos_eq rfl)
  | restart => exact h.shrinks (shrinks_of_repos_eq rfl)

/-- No event makes a repository cease to be one. -/
theorem isSome_step (repo : String) (e : Event) :
    ((step root s e).repos repo).isSome = (s.repos repo).isSome := by
  cases e with
  | create refusal task repo' =>
    have hprepared := (shrinks_prepare root task repo' s).repos repo
    rw [Worktrees.step]
    rcases create_snd root refusal task repo' s with hnone | hcleared | hadded
    · rw [hnone]
    · rw [hcleared, hprepared]
    · rw [hadded, ← hprepared]
      by_cases hrepo : repo = repo'
      · subst hrepo
        simp [Worktrees.worktreeAdd, State.onRepo]
      · simp [Worktrees.worktreeAdd, State.onRepo, Function.update_of_ne hrepo]
  | adopt task path branch repo' => rfl
  | destroy task keepBranch => exact (shrinks_destroy task keepBranch s).repos repo
  | lose path => rfl
  | restart => rfl

end Invariant

/-! ## Creating again -/

/-- What is left of a worktree: its registration or its branch. -/
def Leftover (root task repo : String) (s : State) : Prop :=
  ∃ r, s.repos repo = some r ∧ (r.registered (target root task) = true ∨ branchOf task ∈ r.branches)

/-- **`create` succeeds** and registers a workspace on the branch of the task. -/
def Succeeds (root refusal task repo : String) (s : State) : Prop :=
  let workspace : Workspace := ⟨task, target root task, branchOf task, repo⟩
  (create root refusal task repo s).1 = .ok workspace ∧
    (create root refusal task repo s).2.active task = some workspace ∧
    ∃ r, (create root refusal task repo s).2.repos repo = some r ∧
      (target root task, branchOf task) ∈ r.worktrees ∧ branchOf task ∈ r.branches

section Create

variable {root refusal task repo : String} {s : State}

/-- `create` succeeds as `git worktree add` does. -/
theorem succeeds_iff_canAdd (hgit : s.repos repo ≠ none) :
    Succeeds root refusal task repo s ↔
      canAdd repo (target root task) (branchOf task) (prepare root task repo s) = true := by
  constructor
  · intro h
    by_contra hrefused
    have hcreate := h.1
    rw [create, if_neg hgit] at hcreate
    simp only [if_neg hrefused, reduceCtorEq] at hcreate
  · intro hadd
    obtain ⟨r, hr⟩ : ∃ r, (prepare root task repo s).repos repo = some r := by
      rw [canAdd] at hadd
      split at hadd
      · cases hadd
      · rename_i r hr
        exact ⟨r, hr⟩
    rw [Succeeds, create, if_neg hgit]
    simp only [if_pos hadd]
    refine ⟨trivial, Function.update_self _ _ _, ?_⟩
    simp [worktreeAdd, State.onRepo, hr]

theorem clearDirectory_exist (repo path : String) (s : State) :
    (clearDirectory repo path s).exist path = false := by
  rw [clearDirectory]
  dsimp only [worktreePrune, State.onRepo]
  split
  · exact Function.update_self _ _ _
  · rename_i habsent
    exact Bool.eq_false_iff.mpr habsent

/-- `git worktree prune` drops the registration of a directory that is gone. -/
theorem registered_worktreePrune {path : String}
    (hexist : (worktreePrune repo s).exist path = false) {r : Repo}
    (hr : (worktreePrune repo s).repos repo = some r) : r.registered path = false := by
  change s.exist path = false at hexist
  rw [worktreePrune, State.repos_onRepo, Option.map_eq_some_iff] at hr
  obtain ⟨r₀, -, rfl⟩ := hr
  rw [Repo.registered, List.any_eq_false]
  intro w hw hpath
  have hkept := (List.mem_filter.mp hw).2
  rw [of_decide_eq_true hpath, hexist] at hkept
  exact Bool.noConfusion hkept

/-- Where the directory is, clearing up leaves nothing in the way. -/
theorem canAdd_removeWorktree (h : Proper root s) (hgit : s.repos repo ≠ none) :
    canAdd repo (target root task) (branchOf task)
      (removeWorktree repo (target root task) (some (branchOf task)) s) = true := by
  have hproper := h.shrinks (shrinks_clearDirectory repo (target root task) s)
  have hexist := clearDirectory_exist repo (target root task) s
  obtain ⟨r, hr⟩ : ∃ r, (clearDirectory repo (target root task) s).repos repo = some r := by
    refine Option.isSome_iff_exists.mp (((shrinks_clearDirectory repo _ s).repos repo).trans ?_)
    exact Option.isSome_iff_ne_none.mpr hgit
  have hregistered : r.registered (target root task) = false := by
    rw [clearDirectory] at hexist hr
    exact registered_worktreePrune hexist hr
  -- the branch could only be checked out in the worktree that is gone
  have hfree : r.checkedOut (branchOf task) = false := by
    rw [Repo.checkedOut, List.any_eq_false]
    intro w hw hbranch
    have hpath := hproper repo r hr w hw task (of_decide_eq_true hbranch)
    exact List.any_eq_false.mp hregistered w hw (decide_eq_true hpath)
  have hname : branchOf task ≠ "" := by simp [branchOf]
  rw [removeWorktree, if_neg hname, canAdd, branchDelete, State.repos_onRepo, hr]
  change (!(clearDirectory repo (target root task) s).exist _ && _ && _) = true
  simp only [hexist, hfree, Bool.false_eq_true, if_false]
  simpa [Repo.registered] using hregistered

/-- **`create` succeeds exactly where the directory is, or nothing is left of the worktree.** -/
theorem succeeds_iff (h : Proper root s) (hgit : s.repos repo ≠ none) :
    Succeeds root refusal task repo s ↔
      s.exist (target root task) = true ∨ ¬ Leftover root task repo s := by
  rw [succeeds_iff_canAdd hgit, prepare]
  by_cases hexist : s.exist (target root task) = true
  · rw [if_pos hexist]
    exact iff_of_true (canAdd_removeWorktree h hgit) (.inl hexist)
  · rw [if_neg hexist, or_iff_right hexist]
    obtain ⟨r, hr⟩ := Option.ne_none_iff_exists'.mp hgit
    simp [canAdd, Leftover, hr, hexist]

end Create

/-- **A worktree can be created again exactly where its directory is still there, or neither its
registration nor its branch is**: after every history of `create`, `adopt` and `destroy` calls, lost
directories and restarted workers. -/
theorem create_succeeds_iff (root : String) (s : State) (h : Proper root s) (events : List Event)
    (refusal task repo : String) (hgit : s.repos repo ≠ none) :
    Succeeds root refusal task repo (Runs.run (step root) s events) ↔
      (Runs.run (step root) s events).exist (target root task) = true ∨
        ¬ Leftover root task repo (Runs.run (step root) s events) := by
  have hgit' : (Runs.run (step root) s events).repos repo ≠ none := by
    refine Option.isSome_iff_ne_none.mp ?_
    exact Runs.run_invariant (P := fun s : State => (s.repos repo).isSome = true)
      (fun s e hs => (isSome_step repo e).trans hs) (Option.isSome_iff_ne_none.mpr hgit) events
  exact succeeds_iff (Runs.run_invariant (fun s e hs => hs.step e) h events) hgit'

/-- A repository no task has worked in. -/
def fresh : State where
  exist _ := false
  repos repo := if repo = "/repo" then some ⟨[], ["main"]⟩ else none
  active _ := none

theorem fresh_proper : Proper "/workspaces" fresh := by
  intro repo r hr w hw
  simp only [fresh, Option.ite_none_right_eq_some, Option.some.injEq] at hr
  rw [← hr.2] at hw
  simp at hw

/-- A worker that dies leaves its worktree to the next one, whose `create` succeeds. -/
theorem create_succeeds_iff_restart :
    Succeeds "/workspaces" "(128)" "TASK-1" "/repo" (Runs.run (step "/workspaces") fresh
      [.create "(128)" "TASK-1" "/repo", .restart]) :=
  (create_succeeds_iff "/workspaces" fresh fresh_proper _ "(128)" "TASK-1" "/repo" (by decide)).mpr
    (.inl (by decide))

/-- **A worktree cannot be created again** after a `destroy` that keeps its branch, which is the
default, nor after its directory was lost. -/
theorem create_fails :
    ¬ Succeeds "/workspaces" "(128)" "TASK-1" "/repo" (Runs.run (step "/workspaces") fresh
        [.create "(128)" "TASK-1" "/repo", .destroy "TASK-1" true]) ∧
      ¬ Succeeds "/workspaces" "(128)" "TASK-1" "/repo" (Runs.run (step "/workspaces") fresh
        [.create "(128)" "TASK-1" "/repo", .lose "/workspaces/TASK-1", .restart]) :=
  ⟨fun h => absurd h.1 (by decide), fun h => absurd h.1 (by decide)⟩

end Worktrees

end AgentPlatform
