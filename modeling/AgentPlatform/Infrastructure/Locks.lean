import Mathlib.Data.List.Basic
import Mathlib.Tactic.Common

/-!
# Infrastructure/Locks — the expiring lock

`MemoryLockManager`, which the Redis adapter's `SET NX PX` and owner-checked scripts agree with: an
entry is the owner and the deadline of a lock, live while the clock has not reached the deadline.
Times are readings of the lock store's own clock, in any unit that measures the ttl.
-/

namespace AgentPlatform

/-- `MemoryLockManager._locks`. -/
structure MemoryLockManager where
  locks : String → Option (String × ℕ)

namespace MemoryLockManager

variable (m : MemoryLockManager) (now ttl : ℕ) (name owner : String)

/-- No lock was ever taken. -/
def empty : MemoryLockManager := ⟨fun _ => none⟩

/-- The dictionary with one entry changed. -/
def put (entry : Option (String × ℕ)) : MemoryLockManager :=
  ⟨fun other => if other = name then entry else m.locks other⟩

/-- `_live(name)`: the entry it returns. -/
def live : Option (String × ℕ) :=
  match m.locks name with
  | some (holder, deadline) => if now < deadline then some (holder, deadline) else none
  | none => none

/-- `_live(name)`: an expired entry is dropped. -/
def reap : MemoryLockManager :=
  match m.live now name with
  | some _ => m
  | none => m.put name none

/-- `acquire`. -/
def acquire : Bool × MemoryLockManager :=
  match m.live now name with
  | some _ => (false, m.reap now name)
  | none => (true, (m.reap now name).put name (some (owner, now + ttl)))

/-- `renew`, which nothing in the worker calls. -/
def renew : Bool × MemoryLockManager :=
  match m.live now name with
  | some (holder, _) =>
    if holder = owner then (true, m.put name (some (owner, now + ttl))) else (false, m)
  | none => (false, m.reap now name)

/-- `release`: only the owner's entry is dropped, expired or not. -/
def release : MemoryLockManager :=
  match m.locks name with
  | some (holder, _) => if holder = owner then m.put name none else m
  | none => m

variable {m now ttl name owner}

@[simp] theorem locks_put_self (entry : Option (String × ℕ)) :
    (m.put name entry).locks name = entry := by simp [put]

/-- An entry whose deadline is ahead is live. -/
theorem live_of_lt {holder : String} {deadline : ℕ} (h : m.locks name = some (holder, deadline))
    (hlt : now < deadline) : m.live now name = some (holder, deadline) := by
  simp [live, h, hlt]

/-- An entry is not live once the clock has reached its deadline. -/
theorem live_eq_none (h : ∀ holder deadline, m.locks name = some (holder, deadline) →
      deadline ≤ now) :
    m.live now name = none := by
  rw [live]
  split
  · rename_i holder deadline hentry
    have := h holder deadline hentry
    exact if_neg (by omega)
  · rfl

/-- **A lock is granted exactly when none is live.** -/
theorem acquire_fst : (m.acquire now ttl name owner).1 = true ↔ m.live now name = none := by
  rw [acquire]
  split <;> simp_all

/-- A granted lock is the owner's until its ttl has passed. -/
theorem locks_acquire (h : m.live now name = none) :
    (m.acquire now ttl name owner).2.locks name = some (owner, now + ttl) := by
  simp [acquire, h]

/-- A refused request changes nothing. -/
theorem acquire_of_live {entry : String × ℕ} (h : m.live now name = some entry) :
    m.acquire now ttl name owner = (false, m) := by
  simp [acquire, reap, h]

end MemoryLockManager

end AgentPlatform
