import AgentPlatform.Worker.Cluster

/-!
# Worker/Lease — the database lease, without the lock

The lease names a worker, not an execution.  A delivery that was turned away releases like one that
ran, and what it releases is whatever lease its worker holds; a decision gives the lease up under an
execution that goes on.  With the lock store losing its locks, nothing else stands between a task
and a second execution.

* `Protected` — while neither happens, the lease names the worker of the only execution.
* `oneExecution_of_keepsLease` — then the lease alone is sufficient.
-/

namespace AgentPlatform

/-- The delivery is over. -/
def Phase.over : Phase → Bool
  | finished _ | gone => true
  | _ => false

/-- The handler is about to release the row. -/
def Phase.atRelease : Phase → Bool
  | unlocked _ => true
  | _ => false

/-! ## What a step of a handler does to the lease -/

/-- A status that is not terminal leaves the lease alone. -/
theorem TaskRow.lockedBy_setStatus_of_not_terminal {row : TaskRow} {status : TaskStatus}
    (h : status.terminal = false) : (row.setStatus status).lockedBy = row.lockedBy := by
  simp [setStatus, h]

theorem TaskRow.lockedBy_checkpoint_eq (row : TaskRow) (state : AgentState) (n : Node) :
    (row.checkpoint state n).lockedBy = row.lockedBy :=
  lockedBy_setStatus_of_not_terminal n.terminal_status

theorem TaskRow.finalize_cases (d : Deployment) (row : TaskRow) (first : AgentState) (c : Config) :
    (row.finalize d first c).lockedBy = row.lockedBy ∨
    (row.finalize d first c).status.terminal = true := by
  rw [status_finalize]
  rcases hstatus : c.finalStatus.terminal with _ | _
  · refine .inl ?_
    rw [finalize]
    split <;> exact lockedBy_setStatus_of_not_terminal hstatus
  · exact .inr rfl

theorem Phase.writing_place (first : AgentState) (c : Config) : (place first c).writing = true := by
  rw [place]
  split
  · split <;> rfl
  · rfl

theorem Phase.inside_of_writing {p : Phase} (h : p.writing = true) : p.inside = true := by
  cases p <;> first | rfl | exact absurd h (by simp [writing, nextStatus])

theorem Phase.over_of_writing {p : Phase} (h : p.writing = true) : p.over = false := by
  cases p <;> first | rfl | exact absurd h (by simp [writing, nextStatus])

section Moves

variable {d : Deployment} {s t : Shared} {h h' : Handler} {m : Move}

/-- **A step that starts an execution is a claim.** -/
theorem claim_of_starts (hstarts : (h.move d s m).1.starts ≠ s.starts) :
    ∃ now row, m = .claim now ∧ h.phase = .examined ∧
      s.row.claim now d.leaseSeconds h.worker = some row ∧
      h.move d s m = ({ s with row := row, starts := s.starts + 1 },
        { h with phase := .claimed row.state }) := by
  unfold Handler.move at hstarts
  split at hstarts
  case h_5 now hphase =>
    split at hstarts
    · rename_i row hclaim
      exact ⟨now, row, rfl, hphase, hclaim, by simp only [Handler.move, hphase, hclaim]⟩
    · exact absurd rfl hstarts
  all_goals
    try split at hstarts
  all_goals exact absurd rfl hstarts

/-- **What a step that starts nothing does to the lease**: nothing; or the mover writes a status,
which leaves the lease or is terminal and its last; or the mover releases its worker's lease and is
over. -/
theorem Moved.lease_cases (hmoved : Moved d s h t h') (hstarts : t.starts = s.starts) :
    (t.row = s.row ∧ (h'.phase.writing = true → h.phase.writing = true)) ∨
    (h.phase.writing = true ∧ (t.row.lockedBy = s.row.lockedBy ∨
      t.row.status.terminal = true ∧ h'.phase.writing = false)) ∨
    (h.phase.atRelease = true ∧ h'.phase.over = true ∧ t.row = s.row.release h.worker) := by
  cases hmoved with
  | claim hphase hclaim => exact absurd hstarts (Nat.succ_ne_self _)
  | enter hphase => exact .inr (.inl ⟨by rw [hphase]; rfl,
    .inl (TaskRow.lockedBy_checkpoint_eq _ _ _)⟩)
  | leave hphase hrow =>
    refine .inr (.inl ⟨by rw [hphase]; rfl, .inl ?_⟩)
    rcases hrow with rfl | rfl
    · rfl
    · exact TaskRow.lockedBy_checkpoint_eq _ _ _
  | finalize hphase =>
    refine .inr (.inl ⟨by rw [hphase]; rfl, ?_⟩)
    rcases TaskRow.finalize_cases d s.row _ _ with hkept | hterminal
    · exact .inl hkept
    · exact .inr ⟨hterminal, rfl⟩
  | releaseRow hphase => exact .inr (.inr ⟨by rw [hphase]; rfl, rfl, rfl⟩)
  | begin hphase _ => exact .inl ⟨rfl, fun _ => by rw [hphase]; rfl⟩
  | abort hphase _ => exact .inl ⟨rfl, fun _ => by rw [hphase]; rfl⟩
  | act hphase => exact .inl ⟨rfl, fun _ => by rw [hphase]; rfl⟩
  | stay => exact .inl ⟨rfl, id⟩
  | finish hphase =>
    refine .inl ⟨rfl, fun hw => absurd hw ?_⟩
    rcases hphase with rfl | ⟨ok, rfl⟩ <;> simp [Phase.writing, Phase.nextStatus]
  | _ => exact .inl ⟨rfl, fun hw => absurd hw (by simp [Phase.writing, Phase.nextStatus])⟩

/-- An execution was started before it is inside, and a delivery that has claimed does not wait. -/
theorem Moved.phase_of_starts (hmoved : Moved d s h t h') :
    h'.worker = h.worker ∧ (h.phase.waiting = false → h'.phase.waiting = false) ∧
      (t.starts = s.starts → h'.phase.inside = true → h.phase.inside = true) := by
  cases hmoved with
  | stay => exact ⟨rfl, id, fun _ => id⟩
  | claim hphase hclaim => exact ⟨rfl, fun _ => rfl, fun hstarts =>
    absurd hstarts (Nat.succ_ne_self _)⟩
  | lock hphase _ | examine hphase =>
    exact ⟨rfl, fun hw => absurd hw (by simp [hphase, Phase.waiting]),
      fun _ hin => absurd hin (by simp [Phase.inside])⟩
  | begin hphase _ =>
    exact ⟨rfl, fun _ => Phase.waiting_place _ _, fun _ _ => by rw [hphase]; rfl⟩
  | leave hphase _ =>
    exact ⟨rfl, fun _ => Phase.waiting_place _ _, fun _ _ => by rw [hphase]; rfl⟩
  | enter hphase | abort hphase _ | act hphase | finalize hphase =>
    exact ⟨rfl, fun _ => rfl, fun _ _ => by rw [hphase]; rfl⟩
  | skip hwaiting _ => exact ⟨rfl, fun _ => rfl, fun _ hin => absurd hin (by simp [Phase.inside])⟩
  | escape hinside _ => exact ⟨rfl, fun _ => rfl, fun _ _ => hinside⟩
  | releaseLock hphase | releaseRow hphase =>
    exact ⟨rfl, fun _ => rfl, fun _ hin => absurd hin (by simp [Phase.inside])⟩
  | acknowledge => exact ⟨rfl, fun _ => rfl, fun _ hin => absurd hin (by simp [Phase.inside])⟩
  | finish hphase =>
    rcases hphase with rfl | ⟨ok, rfl⟩ <;>
      exact ⟨rfl, fun _ => rfl, fun _ hin => absurd hin (by simp [Phase.inside])⟩

/-- Only `release` changes the row of a handler that is about to release it. -/
theorem row_of_atRelease (hat : h.phase.atRelease = true) (hm : m ≠ .releaseRow) :
    (h.move d s m).1.row = s.row := by
  rcases hphase : h.phase with _ | _ | _ | _ | _ | _ | _ | _ | _ | ok | _ | _ <;>
    simp [hphase, Phase.atRelease] at hat
  cases m <;> first | exact absurd rfl hm | simp [Handler.move, hphase]

/-- A delivery that is over stays over. -/
theorem Moved.over (hmoved : Moved d s h t h')
    (hover : h.phase.over = true) : h'.phase.over = true := by
  cases hmoved with
  | stay => exact hover
  | acknowledge => rfl
  | finish hphase => rcases hphase with rfl | ⟨ok, rfl⟩ <;> rfl
  | skip hwaiting _ =>
    revert hover hwaiting
    cases h.phase <;> simp [Phase.over, Phase.waiting]
  | escape _ hwriting => exact absurd hover (by simp [Phase.over_of_writing hwriting])
  | lock hphase | examine hphase | claim hphase | begin hphase | enter hphase | abort hphase
  | act hphase | leave hphase | finalize hphase | releaseLock hphase | releaseRow hphase =>
    exact absurd hover (by simp [hphase, Phase.over])

end Moves

/-! ## The cluster under a lock store that loses its locks -/

/-- **The cluster, with the deliveries whose claim succeeded**, newest first. -/
structure Leasing where
  cluster : Cluster
  claimed : List ℕ

/-- A step of a party, or the loss of the task's lock. -/
inductive LeaseAction where
  | act (a : Action)
  | flush

namespace LeaseAction

/-- The time at which a claim is made. -/
def claims? : LeaseAction → Option ℕ
  | act (.handler _ (.claim now)) => some now
  | _ => none

/-- The handler that releases its worker's lease. -/
def releases? : LeaseAction → Option ℕ
  | act (.handler i .releaseRow) => some i
  | _ => none

/-- The request that commits. -/
def commits? : LeaseAction → Option ℕ
  | act (.commit r) => some r
  | _ => none

end LeaseAction

namespace Leasing

variable (d : Deployment)

/-- A delivery that starts an execution has claimed. -/
def noteClaim (s : Leasing) (cluster : Cluster) : Action → List ℕ
  | .handler i _ =>
    if cluster.shared.starts = s.cluster.shared.starts then s.claimed else i :: s.claimed
  | _ => s.claimed

def step (s : Leasing) : LeaseAction → Leasing
  | .act a => ⟨s.cluster.step d a, s.noteClaim (s.cluster.step d a) a⟩
  | .flush => { s with cluster := { s.cluster with shared := { s.cluster.shared with
      locks := s.cluster.shared.locks.put d.lockName none } } }

/-- The cluster when the task has been created. -/
def create (clock : ℕ) : Leasing := ⟨.create clock, []⟩

/-- **The delivery executes the task**: it is between its claim and its own release. -/
def Executing (s : Leasing) (i : ℕ) (h : Handler) : Prop :=
  s.cluster.handlers[i]? = some h ∧ i ∈ s.claimed ∧ h.phase.over = false

/-- **At most one execution of the task.** -/
def OneExecution (s : Leasing) : Prop :=
  ∀ i j h k, s.Executing i h → s.Executing j k → i = j

/-- Every delivery that has claimed, but for `i`, meets `p`. -/
def Others (s : Leasing) (i : Option ℕ) (p : Handler → Prop) : Prop :=
  ∀ j ∈ s.claimed, some j ≠ i → ∀ h ∈ s.cluster.handlers[j]?, h.phase.over = false → p h

instance (s : Leasing) (i : Option ℕ) (p : Handler → Prop) [DecidablePred p] :
    Decidable (s.Others i p) :=
  inferInstanceAs (Decidable (∀ j ∈ s.claimed, _))

/-- **Every execution finishes before its lease expires**: no claim finds an expired lease while a
delivery executes the task. -/
def InLease (s : Leasing) (a : LeaseAction) : Prop :=
  ∀ now ∈ a.claims?, s.cluster.shared.row.leaseExpired now = true → s.Others none fun _ => False

/-- **The step leaves the lease of an execution alone**: a delivery that releases is not on the
worker of another execution, and no decision is committed under an execution that still writes its
status. -/
def KeepsLease (s : Leasing) (a : LeaseAction) : Prop :=
  (∀ i ∈ a.releases?, ∀ h ∈ s.cluster.handlers[i]?, h.phase.atRelease = true →
    s.Others (some i) fun k => k.worker ≠ h.worker) ∧
  (∀ r ∈ a.commits?, ∀ dec ∈ s.cluster.requests[r]?, s.Others none fun k => k.phase.writing = false)

instance (s : Leasing) (a : LeaseAction) : Decidable (InLease s a) :=
  inferInstanceAs (Decidable (∀ now ∈ a.claims?, _))

instance (s : Leasing) (a : LeaseAction) : Decidable (KeepsLease s a) :=
  inferInstanceAs (Decidable ((∀ i ∈ a.releases?, _) ∧ _))

/-! ## The invariant -/

variable {d} {s : Leasing} {i : ℕ} {h : Handler}

theorem Others.executing {p : Handler → Prop} {i : Option ℕ} (hothers : s.Others i p) {j : ℕ}
    (hj : s.Executing j h) (hne : some j ≠ i) : p h :=
  hothers j hj.2.1 hne h hj.1 hj.2.2

/-- The lease protects the execution: it names its worker, or the task is settled and the execution
has no status to write. -/
def Shields (row : TaskRow) (h : Handler) : Prop :=
  row.lockedBy = some h.worker ∨ row.status.terminal = true ∧ h.phase.writing = false

/-- The mover keeps its shield, unless it is over. -/
theorem Shields.mover {s t : Shared} {h' : Handler} (hshield : Shields s.row h)
    (hmoved : Moved d s h t h') (hstarts : t.starts = s.starts) (hlive : h'.phase.over = false) :
    Shields t.row h' := by
  have hworker := hmoved.phase_of_starts.1
  rcases hmoved.lease_cases hstarts
    with ⟨hrow, hwriting⟩ | ⟨hwriting, hkept | hsettled⟩ | ⟨-, hgone, -⟩
  · rcases hshield with hlocked | ⟨hterminal, hidle⟩
    · exact .inl (by rw [hworker, hrow, hlocked])
    · refine .inr ⟨hrow ▸ hterminal, ?_⟩
      rw [← Bool.not_eq_true]
      intro hw
      rw [hwriting hw] at hidle
      cases hidle
  · rcases hshield with hlocked | ⟨-, hidle⟩
    · exact .inl (by rw [hworker, hkept, hlocked])
    · rw [hwriting] at hidle
      cases hidle
  · exact .inr hsettled
  · rw [hlive] at hgone
    cases hgone

/-- Another's shield is kept by a mover that writes no status and releases another worker's
lease. -/
theorem Shields.other {s t : Shared} {h' k : Handler} (hshield : Shields s.row k)
    (hmoved : Moved d s h t h') (hstarts : t.starts = s.starts) (hidle : h.phase.writing = false)
    (hrelease : h.phase.atRelease = true → t.row = s.row ∨ k.worker ≠ h.worker) :
    Shields t.row k := by
  rcases hmoved.lease_cases hstarts with ⟨hrow, -⟩ | ⟨hwriting, -⟩ | ⟨hat, -, hrow⟩
  · exact hrow ▸ hshield
  · rw [hidle] at hwriting
    cases hwriting
  · rcases hrelease hat with hsame | hother
    · exact hsame ▸ hshield
    · rw [hrow]
      rcases hshield with hlocked | ⟨hterminal, hk⟩
      · have hforeign : s.row.lockedBy ≠ some h.worker := by
          rw [hlocked]
          simpa using hother
        exact .inl (by rw [TaskRow.release, if_neg hforeign, hlocked])
      · exact .inr ⟨by rw [TaskRow.status_release, hterminal], hk⟩

/-- Deliveries that have claimed do not wait, whichever of them moves on. -/
theorem waiting_set {handlers : List Handler} {claimed : List ℕ} {h' : Handler}
    (hclaimed : ∀ j ∈ claimed, ∃ k, handlers[j]? = some k ∧ k.phase.waiting = false)
    (hi : handlers[i]? = some h) (hmoves : h.phase.waiting = false → h'.phase.waiting = false) :
    ∀ j ∈ claimed, ∃ k, (handlers.set i h')[j]? = some k ∧ k.phase.waiting = false := by
  intro j hj
  obtain ⟨k, hk, hwait⟩ := hclaimed j hj
  by_cases hji : j = i
  · subst hji
    obtain rfl := Option.some.inj (hi.symm.trans hk)
    exact ⟨h', by simp [(List.getElem?_eq_some_iff.mp hi).1], hmoves hwait⟩
  · exact ⟨k, by rw [List.getElem?_set_ne (Ne.symm hji)]; exact hk, hwait⟩

/-- **The lease protects the only execution.** -/
structure Protected (s : Leasing) : Prop where
  unique : OneExecution s
  shielded : ∀ i h, s.Executing i h → Shields s.cluster.shared.row h
  claimed : ∀ i ∈ s.claimed, ∃ h, s.cluster.handlers[i]? = some h ∧ h.phase.waiting = false
  inside : ∀ i h, s.cluster.handlers[i]? = some h → h.phase.inside = true → i ∈ s.claimed

/-- A delivery that writes a status executes the task. -/
theorem Protected.executing_of_writing (hs : Protected s) (hi : s.cluster.handlers[i]? = some h)
    (hw : h.phase.writing = true) : s.Executing i h :=
  ⟨hi, hs.inside i h hi (Phase.inside_of_writing hw), Phase.over_of_writing hw⟩

/-- A step that moves no handler, and starts nothing. -/
theorem Protected.frame (hs : Protected s) {cluster : Cluster}
    (hhandlers : cluster.handlers = s.cluster.handlers)
    (hrow : ∀ i h, s.Executing i h → Shields s.cluster.shared.row h →
      Shields cluster.shared.row h) :
    Protected ⟨cluster, s.claimed⟩ := by
  have hexec : ∀ {j k}, Executing ⟨cluster, s.claimed⟩ j k → s.Executing j k := by
    rintro j k ⟨hj, hmem, hover⟩
    exact ⟨hhandlers ▸ hj, hmem, hover⟩
  refine ⟨fun j k h h' hj hk => hs.unique j k h h' (hexec hj) (hexec hk), fun j k hj => ?_, ?_, ?_⟩
  · exact hrow j k (hexec hj) (hs.shielded j k (hexec hj))
  · rw [hhandlers]
    exact hs.claimed
  · rw [hhandlers]
    exact hs.inside

/-- A claim that succeeds finds no execution: one would have kept it from finding the row. -/
theorem Protected.not_executing (hs : Protected s) {now : ℕ} {row : TaskRow}
    (hclaim : s.cluster.shared.row.claim now d.leaseSeconds h.worker = some row)
    (hlease : InLease s (.act (.handler i (.claim now)))) {j : ℕ} {k : Handler} :
    ¬ s.Executing j k := by
  obtain ⟨hterminal, hwhere, -⟩ := TaskRow.claim_eq_some hclaim
  intro hj
  rcases hs.shielded j k hj with hlocked | ⟨hsettled, -⟩
  · rcases hwhere with hfree | hexpired
    · rw [hlocked] at hfree
      cases hfree
    · exact (hlease now rfl hexpired).executing hj (by simp)
  · rw [hterminal] at hsettled
    cases hsettled

/-- A claim that succeeds is the only execution. -/
theorem Protected.claim (hs : Protected s) (hi : s.cluster.handlers[i]? = some h) {now : ℕ}
    {row : TaskRow}
    (hclaim : s.cluster.shared.row.claim now d.leaseSeconds h.worker = some row)
    (hlease : InLease s (.act (.handler i (.claim now)))) :
    Protected ⟨{ s.cluster with
      shared := { s.cluster.shared with row := row, starts := s.cluster.shared.starts + 1 }
      handlers := s.cluster.handlers.set i { h with phase := .claimed row.state } },
        i :: s.claimed⟩ := by
  obtain ⟨-, -, hrow⟩ := TaskRow.claim_eq_some hclaim
  have hlocked : row.lockedBy = some h.worker := by rw [hrow]
  have honly : ∀ {j k}, Executing ⟨{ s.cluster with
      shared := { s.cluster.shared with row := row, starts := s.cluster.shared.starts + 1 }
      handlers := s.cluster.handlers.set i { h with phase := .claimed row.state } },
      i :: s.claimed⟩ j k → j = i ∧ k.worker = h.worker := by
    rintro j k ⟨hj, hmem, hover⟩
    rcases Processes.getElem?_set_cases hj with ⟨rfl, rfl⟩ | ⟨hne, hj⟩
    · exact ⟨rfl, rfl⟩
    · rcases List.mem_cons.mp hmem with rfl | hmem
      · exact absurd rfl hne
      · exact absurd ⟨hj, hmem, hover⟩ (hs.not_executing hclaim hlease)
  refine ⟨fun j k h h' hj hk => (honly hj).1.trans (honly hk).1.symm, fun j k hj => .inl ?_,
    fun j hj => ?_, fun j k hj hin => ?_⟩
  · rw [(honly hj).2, hlocked]
  · rcases List.mem_cons.mp hj with rfl | hj
    · refine ⟨{ h with phase := .claimed row.state }, ?_, rfl⟩
      simp [(List.getElem?_eq_some_iff.mp hi).1]
    · exact waiting_set hs.claimed hi (fun _ => rfl) j hj
  · rcases Processes.getElem?_set_cases hj with ⟨rfl, rfl⟩ | ⟨hne, hj⟩
    · simp
    · exact List.mem_cons_of_mem _ (hs.inside j k hj hin)

/-- **A step of a handler that starts nothing.** -/
theorem Protected.move (hs : Protected s) (hi : s.cluster.handlers[i]? = some h) {t : Shared}
    {h' : Handler} (hmoved : Moved d s.cluster.shared h t h')
    (hstarts : t.starts = s.cluster.shared.starts)
    (hrelease : h.phase.atRelease = true → t.row = s.cluster.shared.row ∨
      s.Others (some i) fun k => k.worker ≠ h.worker) :
    Protected ⟨{ s.cluster with shared := t, handlers := s.cluster.handlers.set i h' },
      s.claimed⟩ := by
  obtain ⟨-, hwaiting, hinside⟩ := hmoved.phase_of_starts
  set s' : Leasing := ⟨{ s.cluster with shared := t, handlers := s.cluster.handlers.set i h' },
    s.claimed⟩ with hs'
  -- An execution after the step was one before it.
  have hexec : ∀ {j k}, s'.Executing j k → (j = i ∧ k = h' ∧ s.Executing i h) ∨
      (j ≠ i ∧ s.Executing j k) := by
    rintro j k ⟨hj, hmem, hlive⟩
    rcases Processes.getElem?_set_cases hj with ⟨rfl, rfl⟩ | ⟨hne, hj⟩
    · refine .inl ⟨rfl, rfl, hi, hmem, ?_⟩
      rw [← Bool.not_eq_true]
      intro hgone
      rw [hmoved.over hgone] at hlive
      cases hlive
    · exact .inr ⟨hne, hj, hmem, hlive⟩
  refine ⟨fun j k g g' hj hk => ?_, fun j k hj => ?_, waiting_set hs.claimed hi hwaiting,
    fun j k hj hin => ?_⟩
  · rcases hexec hj with ⟨rfl, -, hj'⟩ | ⟨-, hj'⟩ <;> rcases hexec hk with ⟨rfl, -, hk'⟩ | ⟨-, hk'⟩
    · rfl
    · exact hs.unique _ _ _ _ hj' hk'
    · exact hs.unique _ _ _ _ hj' hk'
    · exact hs.unique _ _ _ _ hj' hk'
  · rcases hexec hj with ⟨rfl, rfl, hold⟩ | ⟨hne, hold⟩
    · exact (hs.shielded j h hold).mover hmoved hstarts hj.2.2
    · have hidle : h.phase.writing = false := by
        rw [← Bool.not_eq_true]
        intro hwriting
        exact hne (hs.unique _ _ _ _ hold (hs.executing_of_writing hi hwriting))
      refine (hs.shielded j k hold).other hmoved hstarts hidle fun hat => ?_
      exact (hrelease hat).imp_right fun hothers => hothers.executing hold (by simpa using hne)
  · rcases Processes.getElem?_set_cases hj with ⟨rfl, rfl⟩ | ⟨hne, hj⟩
    · exact hs.inside j h hi (hinside hstarts hin)
    · exact hs.inside j k hj hin

/-- A new delivery executes nothing. -/
theorem Protected.deliver (hs : Protected s) (worker : String) (message : ℕ) :
    Protected ⟨{ s.cluster with handlers := s.cluster.handlers
      ++ [⟨worker, message, 0, .received⟩] }, s.claimed⟩ := by
  have hexec : ∀ {j k}, Executing ⟨{ s.cluster with
      handlers := s.cluster.handlers ++ [⟨worker, message, 0, .received⟩] }, s.claimed⟩ j k →
      s.Executing j k := by
    rintro j k ⟨hj, hmem, hlive⟩
    obtain ⟨g, hg, -⟩ := hs.claimed j hmem
    dsimp only at hj
    rw [List.getElem?_append_left (List.getElem?_eq_some_iff.mp hg).1] at hj
    exact ⟨hj, hmem, hlive⟩
  refine ⟨fun j k g g' hj hk => hs.unique j k g g' (hexec hj) (hexec hk),
    fun j k hj => hs.shielded j k (hexec hj), fun j hj => ?_, fun j k hj hin => ?_⟩
  · obtain ⟨g, hg, hwait⟩ := hs.claimed j hj
    exact ⟨g, by rw [List.getElem?_append_left
      (List.getElem?_eq_some_iff.mp hg).1]; exact hg, hwait⟩
  · rcases Processes.getElem?_append_cases hj with rfl | hj
    · exact absurd hin (by simp [Phase.inside])
    · exact hs.inside j k hj hin

/-- A step of a handler. -/
theorem Protected.handler (hs : Protected s) (i : ℕ) (m : Move)
    (hlease : InLease s (.act (.handler i m))) (hkeeps : KeepsLease s (.act (.handler i m))) :
    Protected (step d s (.act (.handler i m))) := by
  rcases hi : s.cluster.handlers[i]? with _ | h
  · have hstay : Cluster.step d s.cluster (.handler i m) = s.cluster := by simp [Cluster.step, hi]
    simp only [step, hstay, noteClaim, if_true]
    exact hs
  have hstep : Cluster.step d s.cluster (.handler i m) = { s.cluster with
      shared := (h.move d s.cluster.shared m).1
      handlers := s.cluster.handlers.set i (h.move d s.cluster.shared m).2 } := by
    simp [Cluster.step, hi]
  simp only [step, hstep, noteClaim]
  by_cases hstarts : (h.move d s.cluster.shared m).1.starts = s.cluster.shared.starts
  · rw [if_pos hstarts]
    refine hs.move hi (move_moved d s.cluster.shared h m) hstarts fun hat => ?_
    by_cases hm : m = .releaseRow
    · subst hm
      exact .inr (hkeeps.1 i rfl h hi hat)
    · exact .inl (row_of_atRelease hat hm)
  · rw [if_neg hstarts]
    obtain ⟨now, row, rfl, hphase, hclaim, hmove⟩ := claim_of_starts hstarts
    rw [hmove]
    exact hs.claim hi hclaim hlease

/-- **One step that keeps the lease.** -/
theorem Protected.step (hs : Protected s) (a : LeaseAction) (hlease : InLease s a)
    (hkeeps : KeepsLease s a) : Protected (Leasing.step d s a) := by
  cases a with
  | flush => exact hs.frame rfl fun _ _ _ hshield => hshield
  | act a =>
    cases a with
    | handler i m => exact hs.handler i m hlease hkeeps
    | deliver worker message =>
      simp only [Leasing.step, Cluster.step, noteClaim]
      split
      · exact hs.deliver worker message
      · exact hs
    | commit r =>
      simp only [Leasing.step, Cluster.step, noteClaim]
      split
      · rename_i dec hr
        refine hs.frame rfl fun i h hi _ =>
          .inr ⟨?_, (hkeeps.2 r rfl dec hr).executing hi (by simp)⟩
        simp
      · exact hs
    | _ =>
      simp only [Leasing.step, Cluster.step, noteClaim]
      first
        | exact hs.frame rfl fun _ _ _ hshield => hshield
        | (split <;> exact hs.frame rfl fun _ _ _ hshield => hshield)

/-- **The lease alone is sufficient**, as long as nothing takes it from under an execution: for any
number of workers and deliveries, however often the lock is lost. -/
theorem oneExecution_of_keepsLease (d : Deployment) (clock : ℕ) (as : List LeaseAction)
    (h : Runs.Along (Leasing.step d) (fun s a => InLease s a ∧ KeepsLease s a) (create clock) as) :
    OneExecution (Runs.run (Leasing.step d) (create clock) as) := by
  have hstart : Protected (create clock) := by
    refine ⟨fun i j g k hi => ?_, fun i k hi => ?_, by simp [create], fun i k hi => ?_⟩
    · exact absurd hi.2.1 (by simp [create])
    · exact absurd hi.2.1 (by simp [create])
    · exact absurd hi (by simp [create, Cluster.create])
  exact (h.invariant (fun s a hs hok => hs.step a hok.1 hok.2) hstart).unique

/-- The steps of a delivery that the lease turns away: it skips, and releases. -/
def turnedAway (i : ℕ) (worker : String) (message now : ℕ) : List Action :=
  [.deliver worker message, .handler i .acquire, .handler i .examine, .handler i (.claim now),
    .handler i .releaseLock, .handler i .releaseRow]

/-- The first worker executes, the lock is lost, and the second worker is turned away. -/
def foreignDuplicate : List LeaseAction :=
  ([Action.publish] ++ takesUp 0 "worker-1" 0 0 ++ executes 0 .calm).map .act ++ [.flush]
    ++ (turnedAway 1 "worker-2" 0 10).map .act

theorem foreignDuplicate_one :
    OneExecution (Runs.run (Leasing.step sampleDeployment) (create 0) foreignDuplicate) :=
  oneExecution_of_keepsLease sampleDeployment 0 foreignDuplicate (by decide +kernel)

/-- The lock is lost, the duplicate is delivered to the worker that executes, and a third delivery
goes to the second worker. -/
def ownDuplicate : List LeaseAction :=
  ([Action.publish] ++ takesUp 0 "worker-1" 0 0).map .act ++ [.flush]
    ++ (turnedAway 1 "worker-1" 0 10 ++ takesUp 2 "worker-2" 0 20).map .act

/-- **The duplicate releases the lease of the execution beside it**, and the second worker claims
the task, well within the first one's lease. -/
theorem ownDuplicate_overlaps :
    Runs.Along (Leasing.step sampleDeployment) InLease (create 0) ownDuplicate ∧
      ¬ OneExecution (Runs.run (Leasing.step sampleDeployment) (create 0) ownDuplicate) := by
  refine ⟨by decide +kernel, fun h => ?_⟩
  have hclaimed : (Runs.run (Leasing.step sampleDeployment) (create 0) ownDuplicate).claimed
      = [2, 0] := by
    decide +kernel
  have hfirst : ((Runs.run (Leasing.step sampleDeployment) (create 0)
      ownDuplicate).cluster.handlers[0]?.map fun h => h.phase.over)
        = some false := by decide +kernel
  have hthird : ((Runs.run (Leasing.step sampleDeployment) (create 0)
      ownDuplicate).cluster.handlers[2]?.map fun h => h.phase.over)
        = some false := by decide +kernel
  obtain ⟨x, hx, hxover⟩ := Option.map_eq_some_iff.mp hfirst
  obtain ⟨y, hy, hyover⟩ := Option.map_eq_some_iff.mp hthird
  have hsame := h 0 2 x y ⟨hx, by simp [hclaimed], hxover⟩ ⟨hy, by simp [hclaimed], hyover⟩
  exact absurd hsame (by decide)

end Leasing

end AgentPlatform
