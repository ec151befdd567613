import AgentPlatform.Core.Domain
import AgentPlatform.Graph.State

/-!
# Persistence/Tasks — the task row and the statements on it

`TaskRepository`: each definition is one SQL statement, taken as atomic, on the row of one task.
The row keeps the columns those statements read: the status, the lease and the checkpointed state.
`utcnow()` is read by the process that issues the statement, so `now` is an argument.
-/

namespace AgentPlatform

/-- The columns of `Task` that leasing and resuming read. -/
structure TaskRow where
  status : TaskStatus
  lockedBy : Option String
  leaseExpiresAt : Option ℕ
  state : AgentState

namespace TaskRow

variable (row : TaskRow) (now leaseSeconds : ℕ) (worker : String)

/-- `create`. -/
def create : TaskRow := ⟨.queued, none, none, .empty⟩

/-- `set_status`: an unconditional `UPDATE`; a terminal status gives the lease up. -/
def setStatus (status : TaskStatus) : TaskRow :=
  if status.terminal then { row with status := status, lockedBy := none, leaseExpiresAt := none }
  else { row with status := status }

/-- `save_state`. -/
def saveState (state : AgentState) : TaskRow := { row with state := state }

/-- `lease_expires_at < now`, which is not true of a null. -/
def leaseExpired : Bool :=
  match row.leaseExpiresAt with
  | some t => t < now
  | none => false

/-- `claim`: the row it updates, if its `WHERE` clause selects it. -/
def claim : Option TaskRow :=
  if !row.status.terminal && (row.lockedBy.isNone || row.leaseExpired now) then
    some { row with lockedBy := some worker, leaseExpiresAt := some (now + leaseSeconds) }
  else none

/-- `renew_lease`, which nothing in the worker calls. -/
def renewLease : Bool × TaskRow :=
  if row.lockedBy = some worker then
    (true, { row with leaseExpiresAt := some (now + leaseSeconds) })
  else (false, row)

/-- `release`. -/
def release : TaskRow :=
  if row.lockedBy = some worker then { row with lockedBy := none, leaseExpiresAt := none } else row

/-- `find_unclaimed` selects the row. -/
def unclaimed : Bool := row.status = .queued && row.lockedBy.isNone

/-- `find_recoverable` selects the row. -/
def recoverable : Bool :=
  !row.status.terminal && row.status ≠ .readyForReview && row.lockedBy.isSome
    && row.leaseExpired now

variable {row now leaseSeconds worker}

@[simp] theorem status_setStatus
    (status : TaskStatus) : (row.setStatus status).status = status := by
  rw [setStatus]
  split <;> rfl

@[simp] theorem status_release : (row.release worker).status = row.status := by
  rw [release]
  split <;> rfl

/-- **Only `claim` takes a lease.** -/
theorem lockedBy_setStatus (status : TaskStatus) (h : row.lockedBy = none) :
    (row.setStatus status).lockedBy = none := by
  rw [setStatus]
  split
  · rfl
  · exact h

theorem lockedBy_release (h : row.lockedBy = none) : (row.release worker).lockedBy = none := by
  simp [release, h]

/-- What a successful claim found, and what it writes. -/
theorem claim_eq_some {row' : TaskRow} (h : row.claim now leaseSeconds worker = some row') :
    row.status.terminal = false ∧ (row.lockedBy = none ∨ row.leaseExpired now = true) ∧
      row' = { row with lockedBy := some worker, leaseExpiresAt := some (now + leaseSeconds) } := by
  rw [claim] at h
  split at h
  · rename_i hwhere
    simp only [Bool.and_eq_true, Bool.not_eq_true', Bool.or_eq_true, Option.isNone_iff_eq_none]
      at hwhere
    exact ⟨hwhere.1, hwhere.2, (Option.some.inj h).symm⟩
  · exact absurd h (by simp)

/-- A lease has a holder and an end, or neither. -/
def Consistent (row : TaskRow) : Prop := row.lockedBy.isSome = row.leaseExpiresAt.isSome

namespace Consistent

theorem none_iff (h : row.Consistent) : row.lockedBy = none ↔ row.leaseExpiresAt = none := by
  rw [← Option.isSome_eq_false_iff.trans Option.isNone_iff_eq_none,
    ← Option.isSome_eq_false_iff.trans Option.isNone_iff_eq_none, h]

theorem setStatus (h : row.Consistent) (status : TaskStatus) :
    (row.setStatus status).Consistent := by
  rw [TaskRow.setStatus]
  split
  · rfl
  · exact h

theorem saveState (h : row.Consistent) (state : AgentState) : (row.saveState state).Consistent := h

theorem claim {row' : TaskRow} (h : row.claim now leaseSeconds worker = some row') :
    row'.Consistent := by
  obtain ⟨-, -, rfl⟩ := claim_eq_some h
  rfl

theorem renewLease (h : row.Consistent) :
    (row.renewLease now leaseSeconds worker).2.Consistent := by
  rw [TaskRow.renewLease]
  split
  next hlocked => simp [Consistent, hlocked]
  next => exact h

theorem release (h : row.Consistent) (worker : String) : (row.release worker).Consistent := by
  rw [TaskRow.release]
  split
  · rfl
  · exact h

end Consistent

theorem consistent_create : create.Consistent := rfl

/-- A row nobody holds is claimed unless its status is terminal. -/
theorem claim_of_unlocked (hstatus : row.status.terminal = false) (hlock : row.lockedBy = none) :
    row.claim now leaseSeconds worker
      = some { row with lockedBy := some worker, leaseExpiresAt := some (now + leaseSeconds) } := by
  simp [claim, hstatus, hlock]

end TaskRow

end AgentPlatform
