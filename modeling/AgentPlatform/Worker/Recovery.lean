import AgentPlatform.Worker.Lease

/-!
# Worker/Recovery — what the two sweeps find

`find_unclaimed` selects a queued row without a lease, `find_recoverable` a running row with one
that has expired.  A running row without a lease is selected by neither: the `finally` of `_execute`
makes one whenever an exception leaves the executor, and a crash makes one where the lease was gone
before.

`recovers_iff_noTaskLost`: as long as no execution leaves such a row behind, no task is lost — and
only so long.
-/

namespace AgentPlatform

namespace TaskRow

variable {row : TaskRow}

/-- A sweep will find the row, or has no reason to. -/
def tracked (row : TaskRow) : Bool :=
  row.status.terminal || row.status = .readyForReview || row.unclaimed || row.lockedBy.isSome

/-- …also when the worker has given up its lease: the task is settled or queued, or another worker
holds it. -/
def trackedWithout (row : TaskRow) (worker : String) : Bool :=
  row.status.terminal || row.status = .readyForReview || row.status = .queued ||
    row.lockedBy.any (· ≠ worker)

theorem tracked_release (worker : String) :
    (row.release worker).tracked = row.trackedWithout worker := by
  rw [tracked, trackedWithout, unclaimed, status_release, release]
  cases hlocked : row.lockedBy with
  | none => simp [hlocked]
  | some other =>
    by_cases hworker : other = worker
    · simp [hworker]
    · simp [hlocked, hworker]

theorem Consistent.finalize (h : row.Consistent) (d : Deployment)
    (first : AgentState) (c : Config) : (row.finalize d first c).Consistent := by
  rw [TaskRow.finalize]
  split
  · exact (h.saveState _).setStatus _
  · exact (h.saveState _).setStatus _
  · exact h.setStatus _

theorem Consistent.write (h : row.Consistent) (dec : Decision) : (dec.write row).Consistent := by
  cases dec with
  | approve => exact (h.setStatus _).setStatus _
  | reject => exact h.setStatus _
  | cancel => exact h.setStatus _

/-- **What the sweeps find**: a row that is neither settled nor queued, exactly when it has a
lease. -/
theorem tracked_iff (h : row.Consistent) : row.tracked = true ↔
    (row.status.terminal = false → row.status ≠ .readyForReview → row.unclaimed = true ∨
      ∀ now, (∀ t ∈ row.leaseExpiresAt, t < now) → row.recoverable now = true) := by
  rw [Consistent] at h
  constructor
  · intro htracked hopen hready
    simp only [tracked, hopen, hready, Bool.false_or, decide_false, Bool.or_eq_true] at htracked
    refine htracked.imp_right fun hlocked now hexpired => ?_
    obtain ⟨t, ht⟩ := Option.isSome_iff_exists.mp (h ▸ hlocked)
    simp [recoverable, hopen, hready, hlocked, leaseExpired, ht, hexpired t ht]
  · intro hfound
    by_contra htracked
    simp only [tracked, Bool.not_eq_true, Bool.or_eq_false_iff, decide_eq_false_iff_not] at htracked
    obtain ⟨⟨⟨hopen, hready⟩, hunclaimed⟩, hfree⟩ := htracked
    rcases hfound hopen hready with hfound | hfound
    · simp [hunclaimed] at hfound
    · have hnone : row.leaseExpiresAt = none := by
        rw [hfree] at h
        simpa using h.symm
      have hrecoverable := hfound 0 (by simp [hnone])
      simp [recoverable, hfree] at hrecoverable

end TaskRow

/-! ## The steps that take an execution away -/

/-- The handler stops executing the task without writing anything. -/
def Phase.leavesBy : Phase → Move → Bool
  | releasing true _, .releaseLock | releasing true _, .fail => true
  | p, .crash => p.inside
  | _, _ => false

theorem Phase.inside_place (first : AgentState) (c : Config) : (place first c).inside = true :=
  inside_of_writing (writing_place first c)

section Moves

variable {d : Deployment} {s t : Shared} {h h' : Handler}

theorem Moved.consistent (hmoved : Moved d s h t h')
    (hrow : s.row.Consistent) : t.row.Consistent := by
  cases hmoved with
  | claim hphase hclaim => exact TaskRow.Consistent.claim hclaim
  | enter hphase => exact (hrow.saveState _).setStatus _
  | leave hphase hrow' =>
    rcases hrow' with rfl | rfl
    · exact hrow
    · exact (hrow.saveState _).setStatus _
  | finalize hphase => exact hrow.finalize _ _ _
  | releaseRow hphase => exact hrow.release _
  | _ => exact hrow

variable {m : Move}

/-- A worker may die anywhere. -/
theorem move_crash (d : Deployment) (s : Shared) (h : Handler) :
    h.move d s .crash = (s, { h with phase := .gone }) := by
  rcases hphase : h.phase <;> simp [Handler.move, hphase]

/-- A handler that leaves writes nothing. -/
theorem move_of_leavesBy (hleaves : h.phase.leavesBy m = true) :
    (h.move d s m).2.phase.inside = false ∧ (h.move d s m).1.row = s.row := by
  rw [Phase.leavesBy.eq_def] at hleaves
  split at hleaves
  next hphase => simp [Handler.move, hphase, Phase.inside]
  next hphase => simp [Handler.move, hphase, Phase.inside]
  next =>
    rw [move_crash]
    exact ⟨rfl, rfl⟩
  next => cases hleaves

/-- A handler that releases the row has left. -/
theorem move_of_atRelease (hat : h.phase.atRelease = true) :
    h.phase.leavesBy .releaseRow = false ∧ (h.move d s .releaseRow).2.phase.inside = false ∧
      (h.move d s .releaseRow).1.row = s.row.release h.worker := by
  rcases hphase : h.phase <;> simp [hphase, Phase.atRelease] at hat
  simp [Handler.move, hphase, Phase.inside, Phase.leavesBy]

/-- **A handler that neither leaves nor releases the row takes nothing away.** -/
theorem move_of_stays (hleaves : h.phase.leavesBy m = false)
    (hrelease : m = .releaseRow → h.phase.atRelease = false) :
    (h.phase.inside = true → (h.move d s m).2.phase.inside = true) ∧
      ((h.move d s m).1.row = s.row ∨ (h.move d s m).2.phase.inside = true) := by
  unfold Handler.move
  split
  case h_1 | h_3 | h_5 | h_9 => split <;> simp_all [Phase.inside]
  case h_7 =>
    split
    · exact ⟨fun _ => rfl, .inl rfl⟩
    · dsimp only
      exact ⟨fun _ => Phase.inside_place _ _, .inl rfl⟩
  case h_11 => exact ⟨fun _ => Phase.inside_place _ _, .inr (Phase.inside_place _ _)⟩
  case h_14 ran ok hphase | h_15 ran ok hphase =>
    rw [hphase] at hleaves ⊢
    cases ran with
    | false => exact ⟨fun hin => hin, .inl rfl⟩
    | true => cases hleaves
  case h_16 => simp_all [Phase.atRelease]
  case h_20 => simp_all [Phase.inside, Phase.leavesBy]
  all_goals simp_all [Phase.inside]

end Moves

/-! ## The sweeps' view of the cluster -/

namespace Cluster

variable {d : Deployment} {s : Cluster}

/-- **No task is lost**: a task that is neither settled nor waiting for review, and that no live
execution holds, is found by a sweep, at once or when its lease has expired. -/
def NoTaskLost (s : Cluster) : Prop :=
  s.shared.row.status.terminal = false → s.shared.row.status ≠ .readyForReview →
    (∀ h ∈ s.handlers, h.phase.inside = false) →
    s.shared.row.unclaimed = true ∨
      ∀ now, (∀ t ∈ s.shared.row.leaseExpiresAt, t < now) → s.shared.row.recoverable now = true

/-- A delivery other than `i` executes the task. -/
def InsideBesides (s : Cluster) (i : ℕ) : Prop :=
  ∃ j h, j ≠ i ∧ s.handlers[j]? = some h ∧ h.phase.inside = true

/-- **The step leaves the task to someone**: a handler that leaves, leaves a row the sweeps find or
another execution; where the lease is given up, the task is settled or queued, or another worker
holds it or executes it. -/
def Recovers (s : Cluster) : Action → Prop
  | .handler i m => ∀ h, s.handlers[i]? = some h →
      (h.phase.leavesBy m = true → s.shared.row.tracked = true ∨ s.InsideBesides i) ∧
      (m = .releaseRow → h.phase.atRelease = true →
        s.shared.row.trackedWithout h.worker = true ∨ s.InsideBesides i)
  | _ => True

/-- What the sweeps need to know. -/
theorem noTaskLost_iff (h : s.shared.row.Consistent) : NoTaskLost s ↔
    s.shared.row.tracked = true ∨ ∃ h ∈ s.handlers, h.phase.inside = true := by
  rw [TaskRow.tracked_iff h]
  constructor
  · intro hfound
    by_cases hinside : ∃ h ∈ s.handlers, h.phase.inside = true
    · exact .inr hinside
    · refine .inl fun hopen hready => hfound hopen hready fun h hmem => ?_
      rw [← Bool.not_eq_true]
      exact fun hin => hinside ⟨h, hmem, hin⟩
  · rintro (hfound | ⟨h, hmem, hin⟩) hopen hready hnone
    · exact hfound hopen hready
    · rw [hnone h hmem] at hin
      cases hin

/-- The executions, seen from the handler at `i`. -/
theorem exists_inside_iff {i : ℕ} {h : Handler} (hi : s.handlers[i]? = some h) :
    (∃ k ∈ s.handlers, k.phase.inside = true) ↔ h.phase.inside = true ∨ s.InsideBesides i := by
  constructor
  · rintro ⟨k, hk, hin⟩
    obtain ⟨j, hj⟩ := List.getElem?_of_mem hk
    by_cases hji : j = i
    · subst hji
      obtain rfl := Option.some.inj (hi.symm.trans hj)
      exact .inl hin
    · exact .inr ⟨j, k, hji, hj, hin⟩
  · rintro (hin | ⟨j, k, -, hj, hin⟩)
    · exact ⟨h, List.mem_of_getElem? hi, hin⟩
    · exact ⟨k, List.mem_of_getElem? hj, hin⟩

theorem insideBesides_set {i : ℕ} {h' : Handler} {t : Shared} :
    InsideBesides { s with shared := t, handlers := s.handlers.set i h' } i ↔
    s.InsideBesides i := by
  constructor
  · rintro ⟨j, k, hji, hj, hin⟩
    exact ⟨j, k, hji, by simpa [List.getElem?_set_ne (Ne.symm hji)] using hj, hin⟩
  · rintro ⟨j, k, hji, hj, hin⟩
    exact ⟨j, k, hji, by simpa [List.getElem?_set_ne (Ne.symm hji)] using hj, hin⟩

/-- A step of the cluster keeps leases consistent. -/
theorem consistent_step (h : s.shared.row.Consistent) (a : Action) :
    (step d s a).shared.row.Consistent := by
  have hstep := stepped_step d s a
  generalize step d s a = s' at hstep
  cases hstep with
  | handler hget hmoved => exact hmoved.consistent h
  | commit hget => exact h.write _
  | _ => exact h

/-- After a step of a handler: the row is found, or its handler or another is inside. -/
theorem noTaskLost_handler_iff (hrow : s.shared.row.Consistent) {i : ℕ} {h : Handler}
    (hi : s.handlers[i]? = some h) (m : Move) :
    NoTaskLost (step d s (.handler i m)) ↔ (h.move d s.shared m).1.row.tracked = true ∨
      (h.move d s.shared m).2.phase.inside = true ∨ s.InsideBesides i := by
  have hstep : step d s (.handler i m) = { s with
      shared := (h.move d s.shared m).1, handlers :=
        s.handlers.set i (h.move d s.shared m).2 } := by
    simp [step, hi]
  have hget : (step d s (.handler i m)).handlers[i]? = some (h.move d s.shared m).2 := by
    rw [hstep]
    simp [(List.getElem?_eq_some_iff.mp hi).1]
  rw [noTaskLost_iff (consistent_step hrow _), exists_inside_iff hget, hstep, insideBesides_set]

/-- A step of a handler keeps the task exactly if it leaves it to someone. -/
theorem recovers_handler_iff (hrow : s.shared.row.Consistent) (hs : NoTaskLost s)
    (i : ℕ) (m : Move) :
    Recovers s (.handler i m) ↔ NoTaskLost (step d s (.handler i m)) := by
  rcases hi : s.handlers[i]? with _ | h
  · have hstay : step d s (.handler i m) = s := by simp [step, hi]
    rw [hstay]
    exact ⟨fun _ => hs, fun _ h hh => by simp [hi] at hh⟩
  rw [noTaskLost_iff hrow, exists_inside_iff hi] at hs
  rw [noTaskLost_handler_iff hrow hi]
  simp only [Recovers, hi, Option.some.injEq, forall_eq']
  by_cases hrelease : m = .releaseRow ∧ h.phase.atRelease = true
  · obtain ⟨rfl, hat⟩ := hrelease
    obtain ⟨hleaves, hout, hreleased⟩ := move_of_atRelease (d := d) (s := s.shared) hat
    rw [hreleased, hout, TaskRow.tracked_release]
    simp [hleaves, hat]
  have hnot : m = .releaseRow → h.phase.atRelease = true → False := fun hm hat => hrelease ⟨hm, hat⟩
  by_cases hleaves : h.phase.leavesBy m = true
  · obtain ⟨hout, hsame⟩ := move_of_leavesBy (d := d) (s := s.shared) hleaves
    rw [hsame, hout]
    simp only [hleaves, true_implies, Bool.false_eq_true, false_or]
    exact ⟨fun h => h.1, fun h => ⟨h, fun hm hat => (hnot hm hat).elim⟩⟩
  · rw [Bool.not_eq_true] at hleaves
    obtain ⟨hkept, hsame⟩ := move_of_stays (d := d) (s := s.shared) hleaves fun hm =>
      eq_false_of_ne_true (hnot hm)
    refine ⟨fun _ => ?_, fun _ => ⟨by simp [hleaves], fun hm hat => (hnot hm hat).elim⟩⟩
    rcases hs with htracked | hin | hothers
    · rcases hsame with hsame | hin
      · exact .inl (hsame ▸ htracked)
      · exact .inr (.inl hin)
    · exact .inr (.inl (hkept hin))
    · exact .inr (.inr hothers)

/-- **One step keeps the task exactly if it leaves it to someone.** -/
theorem recovers_iff (hrow : s.shared.row.Consistent) (hs : NoTaskLost s) (a : Action) :
    Recovers s a ↔ NoTaskLost (step d s a) := by
  cases a with
  | handler i m => exact recovers_handler_iff hrow hs i m
  | commit j =>
    refine ⟨fun _ => ?_, fun _ => trivial⟩
    rw [step]
    split
    · exact fun hopen => absurd hopen (by simp)
    · exact hs
  | deliver worker message =>
    refine ⟨fun _ => ?_, fun _ => trivial⟩
    rw [step]
    split
    · exact fun hopen hready hnone =>
        hs hopen hready fun h hmem => hnone h (List.mem_append_left _ hmem)
    · exact hs
  | publish =>
    refine ⟨fun _ => ?_, fun _ => trivial⟩
    rw [step]
    split <;> exact hs
  | sweep now =>
    refine ⟨fun _ => ?_, fun _ => trivial⟩
    rw [step]
    split <;> exact hs
  | request dec =>
    refine ⟨fun _ => ?_, fun _ => trivial⟩
    rw [step]
    split <;> exact hs
  | forget | lose _ | tick _ | abandon _ => exact ⟨fun _ => hs, fun _ => trivial⟩

/-- **No task is lost in a run exactly if every step leaves it to someone.** -/
theorem recovers_iff_noTaskLost (d : Deployment) (clock : ℕ) (as : List Action) :
    Runs.Along (step d) Recovers (create clock) as ↔
      ∀ bs, bs <+: as → NoTaskLost (run d (create clock) bs) :=
  Runs.along_iff_forall_prefix (I := fun s : Cluster => s.shared.row.Consistent)
    (fun _ a h => consistent_step h a) (fun _ a hrow hs => recovers_iff hrow hs a) rfl
    (fun _ _ _ => .inl rfl)

/-- The planner's node is done when the database is lost: the next node does not begin, nor can the
failure be recorded.  Later the message is lost. -/
def lostDatabase : List Action :=
  let lost : NodeEnv := { NodeEnv.calm
    with before := some (.other "OperationalError" "connection lost") }
  [.publish] ++ takesUp 0 "worker-1" 0 0 ++ executes 0 .calm
    ++ [.handler 0 (.enter lost), .handler 0 .fail, .handler 0 .releaseLock, .handler 0 .releaseRow,
      .handler 0 .reply, .lose 0]

/-- **The task is in a running status, without a lease**: neither sweep will ever find it. -/
theorem lostDatabase_losesTask :
    (run sampleDeployment (create 0) lostDatabase).shared.row.status = .planning ∧
      (run sampleDeployment (create 0) lostDatabase).shared.row.lockedBy = none ∧
      ¬ NoTaskLost (run sampleDeployment (create 0) lostDatabase) := by
  have hstatus : (run sampleDeployment (create 0) lostDatabase).shared.row.status = .planning := by
    decide +kernel
  have hfree : (run sampleDeployment (create 0) lostDatabase).shared.row.lockedBy = none := by
    decide +kernel
  have hlease : (run sampleDeployment (create 0) lostDatabase).shared.row.leaseExpiresAt
      = none := by
    decide +kernel
  have hgone : ∀ h ∈ (run sampleDeployment (create 0) lostDatabase).handlers,
      h.phase.inside = false := by decide +kernel
  refine ⟨hstatus, hfree, fun h => ?_⟩
  rcases h (by rw [hstatus]; rfl) (by rw [hstatus]; decide) hgone with hfound | hfound
  · simp [TaskRow.unclaimed, hstatus] at hfound
  · have hrecoverable := hfound 0 (by simp [hlease])
    simp [TaskRow.recoverable, hfree] at hrecoverable

end Cluster

end AgentPlatform
