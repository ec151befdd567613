import AgentPlatform.Worker.Cluster

/-!
# Worker/Exclusion — one task, one execution

Two guards stand before an execution, the lock and the lease, and both expire `task_lease_seconds`
after they were taken.  Nothing renews either, so an execution that outlives them is unguarded: the
sweep finds its row recoverable, and the next delivery passes both.

* `Guarded` — while no handler outlives its lock, the lock names its only holder.
* `oneExecution_of_inTime` — then two executions are never inside at once.
* `outlivedLease_overlaps` — a node that takes longer than the lease, and the run beside it.
-/

namespace AgentPlatform

/-- What a step of a handler does to the lock: it takes it, gives it back, or leaves it alone. -/
theorem Moved.lock_cases {d : Deployment} {s t : Shared} {h h' : Handler}
    (hmoved : Moved d s h t h') : (s.locks.live s.clock d.lockName = none ∧
      t.locks = (s.locks.acquire s.clock d.leaseSeconds d.lockName h.worker).2 ∧
      t.clock = s.clock ∧ h'.worker = h.worker ∧ h'.expires = s.clock + d.leaseSeconds) ∨
    (h.phase.holding = true ∧ h'.phase.holding = false) ∨
    (t.locks = s.locks ∧ t.clock = s.clock ∧ h'.worker = h.worker ∧ h'.expires = h.expires ∧
      (h'.phase.holding = true → h.phase.holding = true)) := by
  cases hmoved with
  | lock hphase hfree => exact .inl ⟨hfree, rfl, rfl, rfl, rfl⟩
  | releaseLock hphase => exact .inr (.inl ⟨by rw [hphase]; rfl, rfl⟩)
  | stay => exact .inr (.inr ⟨rfl, rfl, rfl, rfl, id⟩)
  | skip hwaiting hholding => exact .inr (.inr ⟨rfl, rfl, rfl, rfl, fun _ => hholding⟩)
  | escape hinside _ =>
    exact .inr (.inr ⟨rfl, rfl, rfl, rfl, fun _ => Phase.holding_of_inside hinside⟩)
  | releaseRow _ => exact .inr (.inr ⟨rfl, rfl, rfl, rfl, fun h =>
    absurd h (by simp [Phase.holding])⟩)
  | acknowledge => exact .inr (.inr ⟨rfl, rfl, rfl, rfl, fun h =>
    absurd h (by simp [Phase.holding])⟩)
  | finish hphase =>
    refine .inr (.inr ⟨rfl, rfl, rfl, rfl, fun h => absurd h ?_⟩)
    rcases hphase with rfl | ⟨ok, rfl⟩ <;> simp [Phase.holding]
  | examine hphase | claim hphase _ | begin hphase _ | enter hphase | abort hphase _ | act hphase
  | leave hphase _ | finalize hphase =>
    exact .inr (.inr ⟨rfl, rfl, rfl, rfl, fun _ => by rw [hphase]; rfl⟩)

namespace Cluster

variable {d : Deployment} {s s' : Cluster} {a : Action}

/-- **One task, one execution**: at most one handler is between its claim and its release. -/
def OneExecution (s : Cluster) : Prop :=
  Processes.AtMostOne (fun h : Handler => h.phase.inside = true) s.handlers

/-- **Time does not pass the deadline of a lock that a handler still holds.** -/
def InTime (s : Cluster) : Action → Prop
  | .tick δ => ∀ h ∈ s.handlers, h.phase.holding = true → s.shared.clock + δ < h.expires
  | _ => True

instance (s : Cluster) : ∀ a, Decidable (InTime s a)
  | .tick δ => inferInstanceAs (Decidable
      (∀ h ∈ s.handlers, h.phase.holding = true → s.shared.clock + δ < h.expires))
  | .publish | .forget | .sweep _ | .lose _ | .deliver _ _ | .handler _ _ | .request _ | .commit _
  | .abandon _ => isTrue trivial

/-- **A handler that holds the lock is its only holder, and its entry is live.** -/
structure Guarded (d : Deployment) (s : Cluster) : Prop where
  unique : Processes.AtMostOne (fun h : Handler => h.phase.holding = true) s.handlers
  live : ∀ h ∈ s.handlers, h.phase.holding = true →
    s.shared.locks.locks d.lockName = some (h.worker, h.expires) ∧ s.shared.clock < h.expires

/-- Without a holder the lock is anyone's to take; with one it is not. -/
theorem Guarded.not_holding (hs : Guarded d s)
    (hfree : s.shared.locks.live s.shared.clock d.lockName = none) :
    ∀ h ∈ s.handlers, ¬ h.phase.holding = true := by
  intro h hmem hholding
  obtain ⟨hlocks, hclock⟩ := hs.live h hmem hholding
  rw [MemoryLockManager.live_of_lt hlocks hclock] at hfree
  exact absurd hfree (by simp)

/-- **A step of a handler keeps the guard.** -/
theorem Guarded.move (hlease : 0 < d.leaseSeconds) (hs : Guarded d s) {i : ℕ} {h h' : Handler}
    {t : Shared} (hget : s.handlers[i]? = some h) (hmoved : Moved d s.shared h t h') :
    Guarded d { s with shared := t, handlers := s.handlers.set i h' } := by
  have hmem := List.mem_of_getElem? hget
  rcases hmoved.lock_cases with ⟨hfree, hlocks, hclock, hworker, hexpires⟩
    | ⟨hheld, hgone⟩ | ⟨hlocks, hclock, hworker, hexpires, hheld⟩
  · have hnone := hs.not_holding hfree
    refine ⟨Processes.atMostOne_set_of_none hnone, fun g hg hholding => ?_⟩
    rcases List.mem_or_eq_of_mem_set hg with hg | rfl
    · exact absurd hholding (hnone g hg)
    · rw [hlocks, hclock, hworker, hexpires]
      exact ⟨MemoryLockManager.locks_acquire hfree, by omega⟩
  · refine ⟨hs.unique.set fun h => absurd h (by simp [hgone]), fun g hg hholding => ?_⟩
    obtain ⟨j, hj⟩ := List.getElem?_of_mem hg
    rcases Processes.getElem?_set_cases hj with ⟨_, rfl⟩ | ⟨hji, hj⟩
    · exact absurd hholding (by simp [hgone])
    · exact absurd (hs.unique _ _ _ _ hj hget hholding hheld) hji
  · refine ⟨hs.unique.set fun h => ⟨_, hget, hheld h⟩, fun g hg hholding => ?_⟩
    rw [hlocks, hclock]
    rcases List.mem_or_eq_of_mem_set hg with hg | rfl
    · exact hs.live g hg hholding
    · rw [hworker, hexpires]
      exact hs.live h hmem (hheld hholding)

/-- **A step in time keeps the guard.** -/
theorem Guarded.step (hlease : 0 < d.leaseSeconds) (hs : Guarded d s) (hstep : Stepped d s a s')
    (htime : InTime s a) : Guarded d s' := by
  cases hstep with
  | handler hget hmoved => exact hs.move hlease hget hmoved
  | deliver hmessage =>
    refine ⟨hs.unique.append (by simp [Phase.holding]), fun g hg hholding => ?_⟩
    rcases List.mem_append.mp hg with hg | hg
    · exact hs.live g hg hholding
    · rw [List.mem_singleton.mp hg] at hholding
      exact absurd hholding (by simp [Phase.holding])
  | tick => exact ⟨hs.unique, fun g hg hholding => ⟨(hs.live g hg hholding).1, htime g hg hholding⟩⟩
  | _ => exact ⟨hs.unique, hs.live⟩

theorem Guarded.oneExecution (hs : Guarded d s) : OneExecution s :=
  fun i j x y hi hj hx hy =>
    hs.unique i j x y hi hj (Phase.holding_of_inside hx) (Phase.holding_of_inside hy)

/-- **While no handler outlives its lock, the task has one execution at a time**: for any number of
workers, deliveries, sweeps and requests, in any order. -/
theorem oneExecution_of_inTime (hlease : 0 < d.leaseSeconds) (clock : ℕ) (as : List Action)
    (htime : Runs.Along (Cluster.step d) InTime (create clock) as) :
    OneExecution (run d (create clock) as) := by
  have hstart : Guarded d (create clock) :=
    ⟨fun i j x y hi => absurd hi (by simp [create]), by simp [create]⟩
  have hrun : Guarded d (run d (create clock) as) :=
    htime.invariant (fun s a hs htime => hs.step hlease (stepped_step d s a) htime) hstart
  exact hrun.oneExecution

/-- Two workers get the message within the lease: the second is turned away. -/
theorem oneExecution_contended :
    0 < sampleDeployment.leaseSeconds ∧
      OneExecution (run sampleDeployment (create 0)
        ([.publish] ++ takesUp 0 "worker-1" 0 0 ++ executes 0 .calm ++ [.tick 899]
          ++ takesUp 1 "worker-2" 0 901)) :=
  ⟨by decide, oneExecution_of_inTime (by decide) 0 _ (by decide +kernel)⟩

/-- Two handlers inside at once. -/
theorem not_oneExecution {i j : ℕ} (hij : i ≠ j)
    (hi : (s.handlers[i]?.map fun h => h.phase.inside) = some true)
    (hj : (s.handlers[j]?.map fun h => h.phase.inside) = some true) : ¬ OneExecution s := by
  obtain ⟨x, hx, hxin⟩ := Option.map_eq_some_iff.mp hi
  obtain ⟨y, hy, hyin⟩ := Option.map_eq_some_iff.mp hj
  exact fun h => hij (h i j x y hx hy hxin hyin)

/-- **The first worker is still planning when its lease is over.**  The sweep publishes the task
again and the second worker passes the lock and the claim. -/
theorem outlivedLease_overlaps :
    ¬ OneExecution (run sampleDeployment (create 0)
      ([.publish] ++ takesUp 0 "worker-1" 0 0
        ++ [.handler 0 (.enter .calm), .tick 901, .sweep 901, .publish]
        ++ takesUp 1 "worker-2" 1 901)) :=
  not_oneExecution (i := 0) (j := 1) (by decide) (by decide +kernel) (by decide +kernel)

end Cluster

end AgentPlatform
