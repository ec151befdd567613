import AgentPlatform.Worker.Writes

/-!
# Worker/HumanStop — what a decision stops

A decision is checked against a status that was read and written by an `UPDATE` that asks for none.
Neither the supervisor's checkpoints nor `_finalize` look at the status they overwrite, so a
decision is final only where nobody else has a write to come.

* `frozen_iff` — a committed decision is final exactly when no handler owes a status write and every
  other request in flight would write the same status.
* `cancelledTask_publishes` — a cancelled task that goes on to commit, push and open a pull request.
-/

namespace AgentPlatform

/-- A handler that owes no write leaves a terminal status and what was published alone. -/
theorem Moved.stopped {d : Deployment} {s t : Shared} {h h' : Handler} (hmoved : Moved d s h t h')
    (hstatus : s.row.status.terminal = true) (hphase : h.phase.writing = false) :
    t.row.status = s.row.status ∧ t.published = s.published ∧ h'.phase.writing = false := by
  cases hmoved with
  | claim _ hclaim => exact absurd hstatus (by simp [(TaskRow.claim_eq_some hclaim).1])
  | begin hp _ | enter hp | abort hp _ | act hp | leave hp _ | finalize hp =>
    rw [hp] at hphase
    exact absurd hphase (by simp [Phase.writing, Phase.nextStatus])
  | escape _ hwriting => exact absurd hphase (by simp [hwriting])
  | releaseRow _ => exact ⟨TaskRow.status_release, rfl, rfl⟩
  | stay => exact ⟨rfl, rfl, hphase⟩
  | finish hp => exact ⟨rfl, rfl, by rcases hp with rfl | ⟨ok, rfl⟩ <;> rfl⟩
  | _ => exact ⟨rfl, rfl, rfl⟩

namespace Cluster

variable {d : Deployment} {s s' : Cluster} {a : Action} {dec : Decision}

/-- **Nothing happens to the task any more**: its status stays what it is, and no commit, push or
pull request is made for it. -/
def Frozen (d : Deployment) (s : Cluster) : Prop :=
  ∀ as, (run d s as).shared.row.status = s.shared.row.status ∧
    (run d s as).shared.published = s.shared.published

/-- **Nobody has another status to write**: no handler, and no request but those that agree. -/
structure Unopposed (dec : Decision) (handlers : List Handler)
    (requests : List Decision) : Prop where
  handlers : ∀ h ∈ handlers, h.phase.writing = false
  requests : ∀ other ∈ requests, other.status = dec.status

/-- What every step keeps once an unopposed decision is committed. -/
structure Stopped (dec : Decision) (s : Cluster) : Prop
    extends Unopposed dec s.handlers s.requests where
  status : s.shared.row.status = dec.status

theorem Stopped.step (hs : Stopped dec s) (hstep : Stepped d s a s') :
    Stopped dec s' ∧ s'.shared.published = s.shared.published := by
  cases hstep with
  | handler hget hmoved =>
    have hmem := List.mem_of_getElem? hget
    obtain ⟨hstatus, hpublished, hphase⟩ :=
      hmoved.stopped (by simp [hs.status]) (hs.handlers _ hmem)
    refine ⟨⟨⟨?_, hs.requests⟩, hstatus.trans hs.status⟩, hpublished⟩
    exact Processes.forall_set (p := fun h : Handler => h.phase.writing = false) hs.handlers hphase
  | deliver _ =>
    refine ⟨⟨⟨?_, hs.requests⟩, hs.status⟩, rfl⟩
    exact Processes.forall_append (p := fun h : Handler => h.phase.writing = false) hs.handlers rfl
  | request hadmits => exact absurd hadmits (by simp [hs.status])
  | commit hget =>
    refine ⟨⟨⟨hs.handlers, fun other hother => ?_⟩, ?_⟩, rfl⟩
    · exact hs.requests other (List.mem_of_mem_eraseIdx hother)
    · rw [Decision.status_write]
      exact hs.requests _ (List.mem_of_getElem? hget)
  | abandon =>
    refine ⟨⟨⟨hs.handlers, fun other hother => ?_⟩, hs.status⟩, rfl⟩
    exact hs.requests other (List.mem_of_mem_eraseIdx hother)
  | _ => exact ⟨⟨⟨hs.handlers, hs.requests⟩, hs.status⟩, rfl⟩

theorem Stopped.frozen (hs : Stopped dec s) : Frozen d s := by
  intro as
  have hrun := Runs.run_invariant
    (P := fun t => Stopped dec t ∧ t.shared.published = s.shared.published)
    (fun t a ht => ⟨(ht.1.step (stepped_step d t a)).1,
      (ht.1.step (stepped_step d t a)).2.trans ht.2⟩) ⟨hs, rfl⟩ as
  exact ⟨hrun.1.status.trans hs.status.symm, hrun.2⟩

/-- A workflow never writes what a decision writes. -/
theorem nextStatus_ne_decision {p : Phase} {status : TaskStatus} (h : p.nextStatus = some status) :
    status ≠ dec.status := by
  rintro rfl
  rcases p
  case claimed previous => cases dec <;> simp [Phase.nextStatus, Node.status, Decision.status] at h
  case entering r | acting r env | leaving r env =>
    have hnode := Node.terminal_status r.node
    rw [Option.some.inj h, Decision.terminal_status] at hnode
    exact absurd hnode (by simp)
  case finalizing first c =>
    have hfinal := Option.some.inj h
    rcases c.finalStatus_cases with hc | hc | hc <;> rw [hc] at hfinal <;> cases dec <;>
      simp [Decision.status] at hfinal
  all_goals simp [Phase.nextStatus] at h

/-- **When a human stop is final**: exactly when no handler owes a status write and no other request
in flight writes another status. -/
theorem frozen_iff {j : ℕ} (hget : s.requests[j]? = some dec) :
    Frozen d (step d s (.commit j)) ↔ Unopposed dec s.handlers (s.requests.eraseIdx j) := by
  have hstep : step d s (.commit j)
      = { s with shared := { s.shared with row := dec.write s.shared.row }
                 requests := s.requests.eraseIdx j } := by
    simp [step, hget]
  rw [hstep]
  constructor
  · intro hfrozen
    refine ⟨fun h hmem => ?_, fun other hother => ?_⟩
    · by_contra hwriting
      obtain ⟨status, hnext⟩ := Option.isSome_iff_exists.mp ((Bool.not_eq_false _).mp hwriting)
      obtain ⟨i, hi⟩ := List.getElem?_of_mem hmem
      obtain ⟨as, _, hstatus⟩ := canWrite_nextStatus (d := d)
        (s := { s with shared := { s.shared with row := dec.write s.shared.row }
                       requests := s.requests.eraseIdx j }) hi hnext
      have hsame := (hfrozen as).1
      rw [hstatus, Decision.status_write] at hsame
      exact nextStatus_ne_decision hnext hsame
    · obtain ⟨k, hk⟩ := List.getElem?_of_mem hother
      have hsame := (hfrozen [.commit k]).1
      simpa [run, step, hk] using hsame
  · intro hunopposed
    exact Stopped.frozen ⟨hunopposed, Decision.status_write _ _⟩

/-- A task cancelled while it is queued. -/
def queuedTask : Cluster := run sampleDeployment (create 0) [.publish, .request .cancel]

/-- Its message is delivered to no effect. -/
theorem frozen_queuedTask :
    queuedTask.requests[0]? = some .cancel ∧
      Frozen sampleDeployment (step sampleDeployment queuedTask (.commit 0)) := by
  have hget : queuedTask.requests[0]? = some .cancel := by decide +kernel
  exact ⟨hget, (frozen_iff hget).mpr ⟨by decide +kernel, by decide +kernel⟩⟩

/-- A task cancelled between two nodes of its graph. -/
def cancelledTask : Cluster :=
  run sampleDeployment (create 0) ([.publish] ++ takesUp 0 "worker-1" 0 0
    ++ (List.replicate 3 (executes 0 .calm)).flatten ++ [.request .cancel, .commit 0])

/-- The worker goes on as if nothing had happened. -/
def resumedTask : Cluster :=
  run sampleDeployment cancelledTask ((List.replicate 8 (executes 0 .calm)).flatten ++ settles 0)

/-- **A cancelled task is committed, pushed and proposed for review.** -/
theorem cancelledTask_publishes :
    cancelledTask.shared.row.status = .cancelled ∧ cancelledTask.shared.published = [] ∧
      resumedTask.shared.row.status = .readyForReview ∧
      Effect.openedPullRequest "pr/1" ∈ resumedTask.shared.published ∧
      ¬ Frozen sampleDeployment cancelledTask := by
  have hcancelled : cancelledTask.shared.row.status = .cancelled := by decide +kernel
  have hresumed : resumedTask.shared.row.status = .readyForReview := by decide +kernel
  refine ⟨hcancelled, by decide +kernel, hresumed, by decide +kernel, fun hfrozen => ?_⟩
  have hsame : resumedTask.shared.row.status = cancelledTask.shared.row.status := (hfrozen _).1
  rw [hcancelled, hresumed] at hsame
  exact absurd hsame (by decide)

end Cluster

end AgentPlatform
