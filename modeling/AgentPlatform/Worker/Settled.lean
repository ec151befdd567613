import AgentPlatform.Worker.Writes

/-!
# Worker/Settled — what a leftover message does to a settled task

A settled task is one in `READY_FOR_REVIEW` or in a terminal status that no worker holds.  The check
in `_execute` and the claim's `WHERE` clause both ask for a terminal status, and `READY_FOR_REVIEW`
is not one, so a message that outlived the execution claims the task again.

`neverAgain_iff` says exactly when no later delivery does: the status is terminal and no handler
will write one that is not (`Closed`), or nothing is left to deliver (`Drained`).
-/

namespace AgentPlatform

/-! ## What a step of a handler keeps -/

/-- A handler with nothing but terminal statuses to write keeps a terminal row so, and claims
nothing. -/
theorem Moved.closed {d : Deployment} {s t : Shared} {h h' : Handler} (hmoved : Moved d s h t h')
    (hstatus : s.row.status.terminal = true) (hphase : h.phase.reopening = false) :
    t.row.status.terminal = true ∧ t.starts = s.starts ∧ h'.phase.reopening = false := by
  cases hmoved with
  | claim _ hclaim => exact absurd hstatus (by simp [(TaskRow.claim_eq_some hclaim).1])
  | begin hp _ | enter hp | abort hp _ | act hp | leave hp _ =>
    rw [hp] at hphase
    exact absurd hphase (by simp [Phase.reopening, Phase.nextStatus])
  | finalize hp =>
    rw [hp] at hphase
    exact ⟨by simpa [Phase.reopening, Phase.nextStatus] using hphase, rfl, rfl⟩
  | releaseRow _ => exact ⟨by simpa using hstatus, rfl, rfl⟩
  | stay => exact ⟨hstatus, rfl, hphase⟩
  | finish hp => exact ⟨hstatus, rfl, by rcases hp with rfl | ⟨ok, rfl⟩ <;> rfl⟩
  | _ => exact ⟨hstatus, rfl, rfl⟩

/-- A handler past its claim starts nothing and gives the row no holder. -/
theorem Moved.idle {d : Deployment} {s t : Shared} {h h' : Handler} (hmoved : Moved d s h t h')
    (hphase : h.phase.waiting = false) (hlock : s.row.lockedBy = none)
    (hstatus : s.row.status ≠ .queued) :
    t.row.lockedBy = none ∧ t.row.status ≠ .queued ∧ t.starts = s.starts ∧
      t.publishers = s.publishers ∧ (s.messages = [] → t.messages = []) ∧
      h'.phase.waiting = false := by
  cases hmoved with
  | lock hp _ | examine hp | claim hp _ =>
    rw [hp] at hphase
    exact absurd hphase (by simp [Phase.waiting])
  | skip hwaiting _ => exact absurd hphase (by simp [hwaiting])
  | begin _ _ => exact ⟨hlock, hstatus, rfl, rfl, id, Phase.waiting_place _ _⟩
  | enter _ =>
    exact ⟨TaskRow.lockedBy_checkpoint _ _ hlock, by
      simpa using Node.status_ne_queued _, rfl, rfl, id, rfl⟩
  | leave _ hrow =>
    rcases hrow with rfl | rfl
    · exact ⟨hlock, hstatus, rfl, rfl, id, Phase.waiting_place _ _⟩
    · exact ⟨TaskRow.lockedBy_checkpoint _ _ hlock, by
        simpa using Node.status_ne_queued _, rfl, rfl, id, Phase.waiting_place _ _⟩
  | finalize _ =>
    exact ⟨TaskRow.lockedBy_finalize _ _ hlock, by
      simpa using Config.finalStatus_ne_queued _, rfl, rfl, id, rfl⟩
  | releaseRow _ => exact ⟨TaskRow.lockedBy_release hlock, by
    simpa using hstatus, rfl, rfl, id, rfl⟩
  | acknowledge => exact ⟨hlock, hstatus, rfl, rfl, fun h => by simp [h], rfl⟩
  | stay => exact ⟨hlock, hstatus, rfl, rfl, id, hphase⟩
  | finish hp => exact ⟨hlock, hstatus, rfl, rfl, id, by rcases hp with rfl | ⟨ok, rfl⟩ <;> rfl⟩
  | _ => exact ⟨hlock, hstatus, rfl, rfl, id, rfl⟩

namespace Cluster

variable {d : Deployment} {s s' : Cluster} {a : Action}

/-- **The task is settled and released.** -/
structure Settled (s : Cluster) : Prop where
  status : s.shared.row.status = .readyForReview ∨ s.shared.row.status.terminal = true
  released : s.shared.row.lockedBy = none

/-- **The workflow never runs again**: no continuation of the run claims the task. -/
def NeverAgain (d : Deployment) (s : Cluster) : Prop :=
  ∀ as, (run d s as).shared.starts = s.shared.starts

/-- The status is terminal and stays so: no handler still has another kind of status to write. -/
structure Closed (s : Cluster) : Prop where
  terminal : s.shared.row.status.terminal = true
  handlers : ∀ h ∈ s.handlers, h.phase.reopening = false

/-- No message, no publisher and no delivery on its way to a claim is left. -/
structure Drained (s : Cluster) : Prop where
  messages : s.shared.messages = []
  publishers : s.shared.publishers = 0
  handlers : ∀ h ∈ s.handlers, h.phase.waiting = false

/-! ## Closed and drained clusters start nothing -/

theorem Closed.step (hs : Closed s) (hstep : Stepped d s a s') :
    Closed s' ∧ s'.shared.starts = s.shared.starts := by
  cases hstep with
  | handler hget hmoved =>
    have hmem := List.mem_of_getElem? hget
    obtain ⟨hstatus, hstarts, hphase⟩ := hmoved.closed hs.terminal (hs.handlers _ hmem)
    exact ⟨⟨hstatus, Processes.forall_set (p := fun h : Handler => h.phase.reopening = false)
      hs.handlers hphase⟩, hstarts⟩
  | deliver _ =>
    exact ⟨⟨hs.terminal,
      Processes.forall_append (p := fun h : Handler => h.phase.reopening = false) hs.handlers rfl⟩,
      rfl⟩
  | commit _ => exact ⟨⟨by simp, hs.handlers⟩, rfl⟩
  | _ => exact ⟨⟨hs.terminal, hs.handlers⟩, rfl⟩

/-- What a drained cluster keeps besides: nobody holds the row, and it is not `QUEUED`. -/
structure Idle (s : Cluster) : Prop extends Drained s where
  released : s.shared.row.lockedBy = none
  status : s.shared.row.status ≠ .queued

theorem Idle.step (hs : Idle s) (hstep : Stepped d s a s') :
    Idle s' ∧ s'.shared.starts = s.shared.starts := by
  cases hstep with
  | publish hn => exact absurd hs.publishers (by simp [hn])
  | forget => exact ⟨⟨⟨hs.messages, by simp [hs.publishers], hs.handlers⟩, hs.released,
    hs.status⟩, rfl⟩
  | sweep hfound =>
    simp [TaskRow.unclaimed, TaskRow.recoverable, hs.released, hs.status] at hfound
  | lose => exact ⟨⟨⟨by simp [hs.messages], hs.publishers, hs.handlers⟩, hs.released,
    hs.status⟩, rfl⟩
  | deliver hmessage => exact absurd hmessage (by simp [hs.messages])
  | handler hget hmoved =>
    have hmem := List.mem_of_getElem? hget
    obtain ⟨hlock, hstatus, hstarts, hpublishers, hmessages, hphase⟩ :=
      hmoved.idle (hs.handlers _ hmem) hs.released hs.status
    refine ⟨⟨⟨hmessages hs.messages, hpublishers.trans hs.publishers, ?_⟩, hlock, hstatus⟩, hstarts⟩
    exact Processes.forall_set (p := fun h : Handler => h.phase.waiting = false) hs.handlers hphase
  | commit hget =>
    refine ⟨⟨⟨hs.messages, hs.publishers, hs.handlers⟩,
      Decision.lockedBy_write _ hs.released, ?_⟩, rfl⟩
    rename_i dec
    cases dec <;> simp [Decision.status]
  | tick | request _ | abandon | stay =>
    exact ⟨⟨⟨hs.messages, hs.publishers, hs.handlers⟩, hs.released, hs.status⟩, rfl⟩

/-! ## Everything else can be started again -/

/-- Some continuation of the run claims the task. -/
def Startable (d : Deployment) (s : Cluster) : Prop :=
  ∃ as, s.shared.starts < (run d s as).shared.starts

theorem Startable.of_step (a : Action) (h : Startable d (step d s a))
    (hstarts : (step d s a).shared.starts = s.shared.starts) : Startable d s := by
  obtain ⟨as, has⟩ := h
  rw [hstarts] at has
  exact ⟨a :: as, has⟩

/-- The row is open: not terminal, and nobody holds it. -/
structure Open (s : Cluster) : Prop where
  status : s.shared.row.status.terminal = false
  released : s.shared.row.lockedBy = none

/-- A handler that has looked at an open row claims it. -/
theorem Open.startable_examined (hs : Open s) {i : ℕ} {h : Handler} (hget : s.handlers[i]? = some h)
    (hphase : h.phase = .examined) : Startable d s := by
  refine ⟨[.handler i (.claim 0)], ?_⟩
  change _ < (step d s (.handler i (.claim 0))).shared.starts
  rw [step_handler _ hget]
  simp [Handler.move, hphase, TaskRow.claim_of_unlocked hs.status hs.released]

theorem Open.startable_locked (hs : Open s) {i : ℕ} {h : Handler} (hget : s.handlers[i]? = some h)
    (hphase : h.phase = .locked) : Startable d s := by
  have hstep : step d s (.handler i .examine)
      = { s with handlers := s.handlers.set i { h with phase := .examined } } := by
    rw [step_handler _ hget]
    simp [Handler.move, hphase, hs.status]
  refine .of_step (.handler i .examine) ?_ (by rw [hstep])
  rw [hstep]
  exact Open.startable_examined ⟨hs.status, hs.released⟩ (getElem?_set_get hget) rfl

theorem Open.startable_free (hs : Open s) {i : ℕ} {h : Handler} (hget : s.handlers[i]? = some h)
    (hphase : h.phase = .received)
    (hfree : s.shared.locks.live s.shared.clock d.lockName = none) : Startable d s := by
  have hgranted : (s.shared.locks.acquire s.shared.clock d.leaseSeconds d.lockName h.worker).1
      = true :=
    MemoryLockManager.acquire_fst.mpr hfree
  rcases hacquire : s.shared.locks.acquire s.shared.clock d.leaseSeconds d.lockName h.worker
    with ⟨granted, locks⟩
  rw [hacquire] at hgranted
  obtain rfl : granted = true := hgranted
  have hstep : step d s (.handler i .acquire)
      = { s with
          shared := { s.shared with locks := locks }
          handlers := s.handlers.set i
            { h with phase := .locked, expires := s.shared.clock + d.leaseSeconds } } := by
    rw [step_handler _ hget]
    simp [Handler.move, hphase, hacquire]
  refine .of_step (.handler i .acquire) ?_ (by rw [hstep])
  rw [hstep]
  exact Open.startable_locked ⟨hs.status, hs.released⟩ (getElem?_set_get hget) rfl

/-- When enough time has passed, the lock is free. -/
theorem exists_live_eq_none (m : MemoryLockManager) (now : ℕ) (name : String) :
    ∃ δ, m.live (now + δ) name = none := by
  rcases hentry : m.locks name with _ | ⟨holder, deadline⟩
  · exact ⟨0, MemoryLockManager.live_eq_none (by simp [hentry])⟩
  · refine ⟨deadline, MemoryLockManager.live_eq_none fun holder' deadline' h => ?_⟩
    rw [hentry] at h
    obtain ⟨rfl, rfl⟩ := Prod.mk.inj (Option.some.inj h)
    omega

theorem Open.startable_received (hs : Open s) {i : ℕ} {h : Handler} (hget : s.handlers[i]? = some h)
    (hphase : h.phase = .received) : Startable d s := by
  obtain ⟨δ, hfree⟩ := exists_live_eq_none s.shared.locks s.shared.clock d.lockName
  refine .of_step (.tick δ) ?_ rfl
  exact Open.startable_free ⟨hs.status, hs.released⟩ hget hphase hfree

theorem Open.startable_message (hs : Open s) {message : ℕ}
    (hmessage : message ∈ s.shared.messages) :
    Startable d s := by
  have hstep : step d s (.deliver "worker" message)
      = { s with handlers := s.handlers ++ [⟨"worker", message, 0, .received⟩] } := by
    simp [step, hmessage]
  refine .of_step (.deliver "worker" message) ?_ (by rw [hstep])
  rw [hstep]
  have hget : (s.handlers ++ [(⟨"worker", message, 0, .received⟩ : Handler)])[s.handlers.length]?
      = some ⟨"worker", message, 0, .received⟩ := by simp
  exact Open.startable_received ⟨hs.status, hs.released⟩ hget rfl

/-- **An open row is claimed again while anything is left to deliver.** -/
theorem Open.startable (hs : Open s) (hleft : ¬ Drained s) : Startable d s := by
  by_cases hmessages : s.shared.messages = []
  · rcases hpublishers : s.shared.publishers with _ | n
    · have hwaiting : ¬ ∀ h ∈ s.handlers, h.phase.waiting = false :=
        fun h => hleft ⟨hmessages, hpublishers, h⟩
      simp only [not_forall, Bool.not_eq_false] at hwaiting
      obtain ⟨h, hmem, hphase⟩ := hwaiting
      obtain ⟨i, hget⟩ := List.getElem?_of_mem hmem
      rcases hp : h.phase
      case received => exact hs.startable_received hget hp
      case locked => exact hs.startable_locked hget hp
      case examined => exact hs.startable_examined hget hp
      all_goals simp [hp, Phase.waiting] at hphase
    · have hstep : step d s .publish = { s with shared := { s.shared with
          publishers := n, messages := s.shared.sent :: s.shared.messages,
          sent := s.shared.sent + 1 } } := by
        simp [step, hpublishers]
      refine .of_step .publish ?_ (by rw [hstep])
      rw [hstep]
      exact Open.startable_message ⟨hs.status, hs.released⟩ List.mem_cons_self
  · obtain ⟨message, hmessage⟩ := List.exists_mem_of_ne_nil _ hmessages
    exact hs.startable_message hmessage

theorem Drained.of_follows {t : Cluster} (hfollows : Follows s t) (ht : Drained t) : Drained s := by
  refine ⟨hfollows.messages ▸ ht.messages, hfollows.publishers ▸ ht.publishers, fun h hmem => ?_⟩
  by_contra hwaiting
  have hwaits : h.phase.waiting = true := by simpa using hwaiting
  exact hwaiting (ht.handlers h (hfollows.waiting h hmem hwaits))

theorem Startable.of_run (as : List Action) (h : Startable d (run d s as))
    (hstarts : (run d s as).shared.starts = s.shared.starts) : Startable d s := by
  obtain ⟨bs, hbs⟩ := h
  rw [hstarts] at hbs
  refine ⟨as ++ bs, ?_⟩
  rwa [run, Runs.run_append]

/-- **A handler that opens the row** lets what is left to deliver claim it. -/
theorem startable_reopening {i : ℕ} {h : Handler} (hget : s.handlers[i]? = some h)
    (hrow : s.shared.row.lockedBy = none) (hleft : ¬ Drained s)
    (hphase : h.phase.reopening = true) :
    Startable d s := by
  obtain ⟨status, hnext, hopen⟩ := (Option.any_eq_true _ _).mp hphase
  obtain ⟨as, hfollows, hstatus⟩ := canWrite_nextStatus (d := d) hget hnext
  refine Startable.of_run as (Open.startable ⟨?_, hfollows.released hrow⟩ fun ht => ?_)
    hfollows.starts
  · rw [hstatus]
    simpa using hopen
  · exact hleft (Drained.of_follows hfollows ht)

/-! ## The settled task -/

/-- What every step keeps, while it claims nothing, keeps the task from running. -/
theorem neverAgain_of_invariant {P : Cluster → Prop}
    (hstep : ∀ t t' a, P t → Stepped d t a t' → P t' ∧ t'.shared.starts = t.shared.starts)
    (hs : P s) : NeverAgain d s := by
  intro as
  refine (Runs.run_invariant (P := fun t => P t ∧ t.shared.starts = s.shared.starts)
    (fun t a ht => ?_) ⟨hs, rfl⟩ as).2
  obtain ⟨hkept, hstarts⟩ := hstep t _ a ht.1 (stepped_step d t a)
  exact ⟨hkept, hstarts.trans ht.2⟩

theorem Settled.idle (hs : Settled s) (hdrained : Drained s) : Idle s := by
  refine ⟨hdrained, hs.released, fun hqueued => ?_⟩
  have hstatus := hs.status
  rw [hqueued] at hstatus
  rcases hstatus with h | h <;> exact absurd h (by decide)

/-- **When a settled task is never executed again**: exactly when its status is terminal and nobody
will make it anything else, or nothing is left to deliver. -/
theorem neverAgain_iff (hs : Settled s) : NeverAgain d s ↔ Closed s ∨ Drained s := by
  constructor
  · intro hnever
    by_contra hopen
    obtain ⟨hclosed, hleft⟩ := not_or.mp hopen
    have hstart : Startable d s := by
      by_cases hterminal : s.shared.row.status.terminal = true
      · have hreopening : ¬ ∀ h ∈ s.handlers, h.phase.reopening = false :=
          fun h => hclosed ⟨hterminal, h⟩
        simp only [not_forall, Bool.not_eq_false] at hreopening
        obtain ⟨h, hmem, hphase⟩ := hreopening
        obtain ⟨i, hget⟩ := List.getElem?_of_mem hmem
        exact startable_reopening hget hs.released hleft hphase
      · exact Open.startable ⟨by simpa using hterminal, hs.released⟩ hleft
    obtain ⟨as, has⟩ := hstart
    exact absurd (hnever as) (by omega)
  · rintro (hclosed | hdrained)
    · exact neverAgain_of_invariant (fun _ _ _ ht => ht.step) hclosed
    · exact neverAgain_of_invariant (fun _ _ _ ht => ht.step) (hs.idle hdrained)

/-- A task that was swept once before it was claimed, so that a second message is on its way. -/
def sweptTwice : List Action := [.publish, .sweep 0, .publish] ++ takesUp 0 "worker-1" 0 0

/-- The task whose supervisor raised at its first node. -/
def failedTask : Cluster :=
  run sampleDeployment (create 0) (sweptTwice
    ++ [.handler 0 (.enter { NodeEnv.calm
      with before := some (.other "OperationalError" "connection lost") })]
    ++ settles 0)

/-- A failed task is closed to its second message. -/
theorem neverAgain_failedTask : Settled failedTask ∧ NeverAgain sampleDeployment failedTask := by
  have hsettled : Settled failedTask := ⟨.inr (by decide +kernel), by decide +kernel⟩
  exact ⟨hsettled, (neverAgain_iff hsettled).mpr (.inl ⟨by decide +kernel, by decide +kernel⟩)⟩

/-- The same task after a run of the whole graph. -/
def reviewedTask : Cluster :=
  run sampleDeployment (create 0)
    (sweptTwice ++ (List.replicate 11 (executes 0 .calm)).flatten ++ settles 0)

/-- **The second message runs a task that is ready for review again.** -/
theorem readyForReview_runsAgain :
    Settled reviewedTask ∧ reviewedTask.shared.row.status = .readyForReview ∧
      ¬ NeverAgain sampleDeployment reviewedTask := by
  refine ⟨⟨.inl (by decide +kernel), by decide +kernel⟩, by decide +kernel, fun hnever => ?_⟩
  have hstarts := hnever (takesUp 1 "worker-2" 1 60)
  exact absurd hstarts (by decide +kernel)

end Cluster

end AgentPlatform
