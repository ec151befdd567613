import AgentPlatform.Worker.Cluster

/-!
# Worker/Writes — a handler can make its next write

Nothing a handler needs to go on is in anyone else's hands: from any state of the cluster, one or
two steps of a handler past its claim reach the status write it owes (`exists_write`), and leave
alone the queue and every delivery that waits (`Follows`).
-/

namespace AgentPlatform

namespace Cluster

variable {d : Deployment} {s t u : Cluster} {i : ℕ} {h : Handler}

theorem step_handler (m : Move) (hget : s.handlers[i]? = some h) :
    step d s (.handler i m)
      = { s with shared := (h.move d s.shared m).1
                 handlers := s.handlers.set i (h.move d s.shared m).2 } := by
  simp [step, hget]

theorem getElem?_set_get {h' : Handler} (hget : s.handlers[i]? = some h) :
    (s.handlers.set i h')[i]? = some h' := by
  rw [List.getElem?_set_self (List.getElem?_eq_some_iff.mp hget).1]

/-- **No claim, no message, no delivery came or went**, and a row nobody held is still free. -/
structure Follows (s t : Cluster) : Prop where
  released : s.shared.row.lockedBy = none → t.shared.row.lockedBy = none
  starts : t.shared.starts = s.shared.starts
  messages : t.shared.messages = s.shared.messages
  publishers : t.shared.publishers = s.shared.publishers
  waiting : ∀ h ∈ s.handlers, h.phase.waiting = true → h ∈ t.handlers

theorem Follows.trans (h₁ : Follows s t) (h₂ : Follows t u) : Follows s u where
  released hs := h₂.released (h₁.released hs)
  starts := h₂.starts.trans h₁.starts
  messages := h₂.messages.trans h₁.messages
  publishers := h₂.publishers.trans h₁.publishers
  waiting h hmem hwaiting := h₂.waiting h (h₁.waiting h hmem hwaiting) hwaiting

/-- A handler past its claim that touches at most the row, and does not lease it. -/
theorem follows_of_move {m : Move} (hget : s.handlers[i]? = some h)
    (hphase : h.phase.waiting = false)
    (hreleased : s.shared.row.lockedBy = none → (h.move d s.shared m).1.row.lockedBy = none)
    (hframe : (h.move d s.shared m).1.starts = s.shared.starts ∧
      (h.move d s.shared m).1.messages = s.shared.messages ∧
      (h.move d s.shared m).1.publishers = s.shared.publishers) :
    Follows s (step d s (.handler i m)) := by
  obtain ⟨hstarts, hmessages, hpublishers⟩ := hframe
  rw [step_handler m hget]
  refine ⟨hreleased, hstarts, hmessages, hpublishers, fun g hg hwaiting => ?_⟩
  obtain ⟨j, hj⟩ := List.getElem?_of_mem hg
  have hji : j ≠ i := by
    rintro rfl
    rw [hget] at hj
    rw [← Option.some.inj hj, hphase] at hwaiting
    exact absurd hwaiting (by simp)
  refine List.mem_of_getElem? (i := j) ?_
  rwa [List.getElem?_set_ne (Ne.symm hji)]

/-- The handler's next write, with what led to it. -/
def CanWrite (d : Deployment) (s : Cluster) (status : TaskStatus) : Prop :=
  ∃ as, Follows s (run d s as) ∧ (run d s as).shared.row.status = status

theorem CanWrite.of_step {status : TaskStatus} {a : Action} (hstep : Follows s (step d s a))
    (h : CanWrite d (step d s a) status) : CanWrite d s status := by
  obtain ⟨as, hfollows, hstatus⟩ := h
  exact ⟨a :: as, hstep.trans hfollows, hstatus⟩

section Phases

variable (hget : s.handlers[i]? = some h)

include hget

theorem canWrite_finalizing {first : AgentState} {c : Config}
    (hphase : h.phase = .finalizing first c) :
    CanWrite d s c.finalStatus := by
  refine ⟨[.handler i (.finalize true)], follows_of_move hget (by rw [hphase]; rfl) ?_ ?_, ?_⟩
  · intro hrow
    simpa [Handler.move, hphase] using TaskRow.lockedBy_finalize first c hrow
  · simp [Handler.move, hphase]
  · rw [run, Runs.run_cons, Runs.run_nil, step_handler _ hget]
    simp [Handler.move, hphase]

theorem canWrite_leaving {r : Invocation} {env : NodeEnv} (hphase : h.phase = .leaving r env) :
    CanWrite d s r.node.status := by
  refine ⟨[.handler i (.leave true)], follows_of_move hget (by rw [hphase]; rfl) ?_ ?_, ?_⟩
  · intro hrow
    simpa [Handler.move, hphase] using TaskRow.lockedBy_checkpoint _ r.node hrow
  · simp [Handler.move, hphase]
  · rw [run, Runs.run_cons, Runs.run_nil, step_handler _ hget]
    simp [Handler.move, hphase]

theorem canWrite_acting {r : Invocation} {env : NodeEnv} (hphase : h.phase = .acting r env) :
    CanWrite d s r.node.status := by
  have hmove : (h.move d s.shared .act).2 = { h with phase := .leaving r env } := by
    simp [Handler.move, hphase]
  refine .of_step (a := .handler i .act) (follows_of_move hget (by rw [hphase]; rfl) ?_ ?_) ?_
  · intro hrow
    simpa [Handler.move, hphase] using hrow
  · simp [Handler.move, hphase]
  · refine canWrite_leaving (i := i) (h := { h with phase := .leaving r env }) ?_ rfl
    rw [step_handler _ hget, hmove]
    exact getElem?_set_get hget

theorem canWrite_entering {r : Invocation} (hphase : h.phase = .entering r) :
    CanWrite d s r.node.status := by
  refine ⟨[.handler i (.enter .calm)], follows_of_move hget (by rw [hphase]; rfl) ?_ ?_, ?_⟩
  · intro hrow
    simpa [Handler.move, hphase, NodeEnv.calm] using TaskRow.lockedBy_checkpoint _ r.node hrow
  · simp [Handler.move, hphase, NodeEnv.calm]
  · rw [run, Runs.run_cons, Runs.run_nil, step_handler _ hget]
    simp [Handler.move, hphase, NodeEnv.calm]

theorem canWrite_claimed {previous : AgentState} (hphase : h.phase = .claimed previous) :
    CanWrite d s Node.plan.status := by
  let r : Invocation :=
    ⟨d.firstState "run" previous, .plan, d.firstState "run" previous, sampleWorld, []⟩
  have hmove : h.move d s.shared (.begin "run" sampleWorld none)
      = (s.shared, { h with phase := .entering r }) := by
    simp [Handler.move, hphase, Phase.place, start, recursionLimit, r]
  refine .of_step (a := .handler i (.begin "run" sampleWorld none))
    (follows_of_move hget (by rw [hphase]; rfl) ?_ ?_) ?_
  · rw [hmove]
    exact id
  · rw [hmove]
    exact ⟨rfl, rfl, rfl⟩
  · refine canWrite_entering (r := r) (i := i) (h := { h with phase := .entering r }) ?_ rfl
    rw [step_handler _ hget, hmove]
    exact getElem?_set_get hget

/-- **A handler can make the write it owes.** -/
theorem canWrite_nextStatus {status : TaskStatus} (hnext : h.phase.nextStatus = some status) :
    CanWrite d s status := by
  rcases hp : h.phase
  case claimed previous =>
    obtain rfl : Node.plan.status = status := by simpa [hp, Phase.nextStatus] using hnext
    exact canWrite_claimed hget hp
  case entering r =>
    obtain rfl : r.node.status = status := by simpa [hp, Phase.nextStatus] using hnext
    exact canWrite_entering hget hp
  case acting r env =>
    obtain rfl : r.node.status = status := by simpa [hp, Phase.nextStatus] using hnext
    exact canWrite_acting hget hp
  case leaving r env =>
    obtain rfl : r.node.status = status := by simpa [hp, Phase.nextStatus] using hnext
    exact canWrite_leaving hget hp
  case finalizing first c =>
    obtain rfl : c.finalStatus = status := by simpa [hp, Phase.nextStatus] using hnext
    exact canWrite_finalizing hget hp
  all_goals simp [hp, Phase.nextStatus] at hnext

end Phases

end Cluster

end AgentPlatform
