import AgentPlatform.Machinery.Runs
import AgentPlatform.Persistence.Tasks

/-!
# Persistence/LeaseHistory — the lease columns over any sequence of statements

Workers and API requests issue `claim`, `renew_lease`, `release`, `set_status` and `save_state` in
any order.  The two lease columns are null together, a terminal status keeps the row unlocked, and a
lease changes hands only when its holder gave it up, the task was settled, or it had expired as last
renewed (`leases_consistent`).

The clock of each statement is its issuer's own, and nothing below needs the clocks to agree.
-/

namespace AgentPlatform

/-- A statement on the row of a task. -/
inductive RowStatement where
  | claim (worker : String) (leaseSeconds : ℕ)
  | renewLease (worker : String) (leaseSeconds : ℕ)
  | release (worker : String)
  | setStatus (status : TaskStatus)
  | saveState (state : AgentState)

/-- A statement, and `utcnow()` where it is issued. -/
structure Issued where
  now : ℕ
  statement : RowStatement

namespace TaskRow

/-- The row after a statement. -/
def issue (row : TaskRow) : Issued → TaskRow
  | ⟨now, .claim worker leaseSeconds⟩ => (row.claim now leaseSeconds worker).getD row
  | ⟨now, .renewLease worker leaseSeconds⟩ => (row.renewLease now leaseSeconds worker).2
  | ⟨_, .release worker⟩ => row.release worker
  | ⟨_, .setStatus status⟩ => row.setStatus status
  | ⟨_, .saveState state⟩ => row.saveState state

/-- The row of a task after a sequence of statements. -/
def after (as : List Issued) : TaskRow := Runs.run issue create as

/-- The statement is not a claim that succeeds. -/
def NotClaimed (row : TaskRow) (a : Issued) : Prop :=
  ∀ worker leaseSeconds, a.statement = .claim worker leaseSeconds →
    row.claim a.now leaseSeconds worker = none

/-- The holder releases its lease, or the task is settled. -/
def GivenUp (worker : String) (row : TaskRow) (a : Issued) : Prop :=
  a.statement = .release worker ∧ row.lockedBy = some worker ∨
    ∃ status, a.statement = .setStatus status ∧ status.terminal = true

/-- A status that puts the task back to work. -/
def reopens (a : Issued) : Bool :=
  match a.statement with
  | .setStatus status => !status.terminal
  | _ => false

/-- When a lease runs out, as its holder last renewed it. -/
def expiry (worker : String) : ℕ → List Issued → ℕ
  | t, [] => t
  | t, a :: as => expiry worker (match a.statement with
    | .renewLease w leaseSeconds => if w = worker then a.now + leaseSeconds else t
    | _ => t) as

/-! ## One statement -/

variable {row : TaskRow}

/-- The two columns are null together, and a terminal status has neither. -/
structure LeaseSound (row : TaskRow) : Prop where
  paired : row.Consistent
  unlocked : row.status.terminal = true → row.lockedBy = none

theorem claim_of_terminal {now leaseSeconds : ℕ} {worker : String}
    (h : row.status.terminal = true) :
    row.claim now leaseSeconds worker = none := by simp [claim, h]

/-- **No statement takes the columns apart.** -/
theorem leaseSound_issue (h : LeaseSound row) (a : Issued) : LeaseSound (row.issue a) := by
  obtain ⟨now, statement⟩ := a
  cases statement with
  | claim worker leaseSeconds =>
    rw [issue]
    rcases hclaim : row.claim now leaseSeconds worker with _ | row'
    · exact h
    · have hpaired := Consistent.claim hclaim
      obtain ⟨hterminal, -, rfl⟩ := claim_eq_some hclaim
      exact ⟨hpaired, by simp [hterminal]⟩
  | renewLease worker leaseSeconds =>
    refine ⟨h.paired.renewLease, ?_⟩
    rw [issue, renewLease]
    split
    · exact h.unlocked
    · exact h.unlocked
  | release worker =>
    refine ⟨h.paired.release worker, ?_⟩
    rw [issue, release]
    split
    · exact fun _ => rfl
    · exact h.unlocked
  | setStatus status =>
    refine ⟨h.paired.setStatus status, ?_⟩
    rw [issue, setStatus]
    split
    · exact fun _ => rfl
    · exact fun hterminal => absurd hterminal ‹_›
  | saveState state => exact ⟨h.paired.saveState state, h.unlocked⟩

/-- Only `set_status` changes the status. -/
theorem terminal_issue (h : row.status.terminal = true) {a : Issued} (ha : reopens a = false) :
    (row.issue a).status.terminal = true := by
  obtain ⟨now, statement⟩ := a
  cases statement with
  | claim worker leaseSeconds => simpa [issue, claim_of_terminal h] using h
  | renewLease worker leaseSeconds =>
    rw [issue, renewLease]
    split <;> exact h
  | release worker => simpa [issue] using h
  | setStatus status => simpa [issue, reopens] using ha
  | saveState state => exact h

/-- **A holder keeps its lease**, through any statement but a claim, until it gives it up. -/
theorem held_issue {worker : String} {t : ℕ} (hlocked : row.lockedBy = some worker)
    (hlease : row.leaseExpiresAt = some t) {a : Issued} (hclaim : NotClaimed row a)
    (hheld : ¬ GivenUp worker row a) :
    (row.issue a).lockedBy = some worker ∧
      (row.issue a).leaseExpiresAt = some (expiry worker t [a]) := by
  obtain ⟨now, statement⟩ := a
  cases statement with
  | claim other leaseSeconds =>
    have hnone : row.claim now leaseSeconds other = none := hclaim other leaseSeconds rfl
    rw [issue, hnone]
    exact ⟨hlocked, hlease⟩
  | renewLease other leaseSeconds =>
    by_cases hother : other = worker
    · subst hother
      simp [issue, renewLease, hlocked, expiry]
    · have hne : row.lockedBy ≠ some other := by
        rw [hlocked]
        simpa using Ne.symm hother
      rw [issue, renewLease, if_neg hne]
      exact ⟨hlocked, by simp [expiry, hother, hlease]⟩
  | release other =>
    have hne : row.lockedBy ≠ some other := by
      rw [hlocked]
      rintro ⟨⟩
      exact hheld (.inl ⟨rfl, hlocked⟩)
    rw [issue, release, if_neg hne]
    exact ⟨hlocked, hlease⟩
  | setStatus status =>
    have hopen : status.terminal ≠ true := fun hterminal => hheld (.inr ⟨status, rfl, hterminal⟩)
    rw [issue, setStatus, if_neg hopen]
    exact ⟨hlocked, hlease⟩
  | saveState state => exact ⟨hlocked, hlease⟩

/-! ## Sequences of statements -/

theorem leaseSound_after (as : List Issued) : LeaseSound (after as) :=
  Runs.run_invariant (P := LeaseSound) (fun _ a h => leaseSound_issue h a)
    ⟨consistent_create, fun _ => rfl⟩ as

theorem terminal_run (h : row.status.terminal = true) {as : List Issued}
    (has : ∀ a ∈ as, reopens a = false) : (Runs.run issue row as).status.terminal = true := by
  induction as generalizing row with
  | nil => exact h
  | cons a as ih =>
    obtain ⟨ha, has⟩ := List.forall_mem_cons.mp has
    exact ih (terminal_issue h ha) has

/-- A lease nobody else claims is given up on the way, or still held as last renewed. -/
theorem held_run {worker : String} {t : ℕ} {as : List Issued} (hlocked : row.lockedBy = some worker)
    (hlease : row.leaseExpiresAt = some t) (hclaims : Runs.Along issue NotClaimed row as) :
    Runs.Somewhere issue (GivenUp worker) row as ∨
      (Runs.run issue row as).lockedBy = some worker ∧
        (Runs.run issue row as).leaseExpiresAt = some (expiry worker t as) := by
  induction as generalizing row t with
  | nil => exact .inr ⟨hlocked, hlease⟩
  | cons a as ih =>
    by_cases hgiven : GivenUp worker row a
    · exact .inl (Runs.somewhere_head hgiven)
    · obtain ⟨hlocked', hlease'⟩ := held_issue hlocked hlease hclaims.1 hgiven
      rcases ih hlocked' hlease' hclaims.2 with hsome | hheld
      · exact .inl hsome.cons
      · exact .inr hheld

/-- **Lease columns stay consistent**: they are null together; a settled task is unlocked until a
status puts it back to work; no claim succeeds on a terminal row; and between two claims that
succeed the first worker released, the task was settled, or the lease ran out. -/
theorem leases_consistent :
    (∀ as, (after as).lockedBy = none ↔ (after as).leaseExpiresAt = none) ∧
    (∀ as now status later, status.terminal = true → (∀ a ∈ later, reopens a = false) →
      (after (as ++ ⟨now, .setStatus status⟩ :: later)).lockedBy = none) ∧
    (∀ as now worker leaseSeconds, (after as).status.terminal = true →
      (after as).claim now leaseSeconds worker = none) ∧
    (∀ as now worker leaseSeconds row later now' worker' leaseSeconds' row',
      (after as).claim now leaseSeconds worker = some row →
      Runs.Along issue NotClaimed row later →
      (Runs.run issue row later).claim now' leaseSeconds' worker' = some row' →
      Runs.Somewhere issue (GivenUp worker) row later ∨
        expiry worker (now + leaseSeconds) later < now') := by
  refine ⟨fun as => (leaseSound_after as).paired.none_iff, ?_, fun as now worker leaseSeconds =>
    claim_of_terminal, ?_⟩
  · intro as now status later hterminal hlater
    have hset : ((after as).issue ⟨now, .setStatus status⟩).status.terminal = true := by
      simpa [issue] using hterminal
    have hstays : (after (as ++ ⟨now, .setStatus status⟩ :: later)).status.terminal = true := by
      rw [after, Runs.run_append, Runs.run_cons]
      exact terminal_run hset hlater
    exact (leaseSound_after _).unlocked hstays
  · intro as now worker leaseSeconds row later now' worker' leaseSeconds' row' hclaim hlater hclaim'
    obtain ⟨-, -, rfl⟩ := claim_eq_some hclaim
    rcases held_run rfl rfl hlater with hgiven | ⟨hlocked, hlease⟩
    · exact .inl hgiven
    · obtain ⟨-, hfree | hexpired, -⟩ := claim_eq_some hclaim'
      · rw [hlocked] at hfree
        cases hfree
      · right
        simpa [leaseExpired, hlease] using hexpired

/-- A worker renews its lease once and dies; another claims the task when the renewed lease has run
out. -/
theorem leases_consistent_renewed :
    ∃ row row', (after []).claim 0 900 "worker-1" = some row ∧
      (Runs.run issue row [⟨600, .renewLease "worker-1" 900⟩]).claim 1501 900 "worker-2"
        = some row' ∧
      (Runs.Somewhere issue (GivenUp "worker-1") row [⟨600, .renewLease "worker-1" 900⟩] ∨
        expiry "worker-1" 900 [⟨600, .renewLease "worker-1" 900⟩] < 1501) :=
  ⟨_, _, rfl, rfl, leases_consistent.2.2.2 [] 0 "worker-1" 900 _ _ 1501 "worker-2" 900 _ rfl
    ⟨fun _ _ h => (by cases h), trivial⟩ rfl⟩

end TaskRow

end AgentPlatform
