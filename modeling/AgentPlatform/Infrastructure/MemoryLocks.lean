import AgentPlatform.Infrastructure.Locks
import AgentPlatform.Machinery.ExpiringLocks
import Mathlib.Order.Nat

/-!
# Infrastructure/MemoryLocks — the in-process lock is an expiring lock

`MemoryLockManager` method by method, over any clock: `_live` compares the stored deadline with one
reading of `time.monotonic()` and drops an entry that has lapsed, and `acquire` and `renew` count
the new deadline from a second reading.  Entries of other names stay stored after they have lapsed,
and `release` reads no clock at all, so the dictionary is not the specification's table; it agrees
with it on what is in force (`call_simulates`).

* `memoryLocks_refine` — the answers of every sequence of calls are the specification's, the
  holdings in force after it are the specification's, and no call changes a holding of another name
  or of another owner.
* `acquire_manager` — the one-reading model the workers are proved with is the case of a clock that
  stands still during a call.
-/

namespace AgentPlatform

open ExpiringLock

/-- `MemoryLockManager._locks`: owner and deadline by name. -/
structure MemoryLocks (T : Type*) where
  locks : Holdings String String T

namespace MemoryLocks

variable {T : Type*} [LinearOrder T] [Add T]

/-- `MemoryLockManager()`. -/
def empty : MemoryLocks T := ⟨fun _ => none⟩

/-- `self._locks[name] = entry`. -/
def set (m : MemoryLocks T) (name : String) (entry : String × T) : MemoryLocks T :=
  ⟨Function.update m.locks name (some entry)⟩

/-- `self._locks.pop(name, None)`. -/
def pop (m : MemoryLocks T) (name : String) : MemoryLocks T :=
  ⟨Function.update m.locks name none⟩

/-- `_live(name)`: the entry while its deadline is ahead; a lapsed one is dropped. -/
def live (m : MemoryLocks T) (now : T) (name : String) : Option (String × T) × MemoryLocks T :=
  match m.locks name with
  | some entry => if entry.2 > now then (some entry, m) else (none, m.pop name)
  | none => (none, m)

/-- `acquire`: `_live` reads the clock at `asked`, the deadline is counted from `stamped`. -/
def acquire (m : MemoryLocks T) (asked stamped : T) (name : String) (ttl : T) (owner : String) :
    Bool × MemoryLocks T :=
  match m.live asked name with
  | (some _, m) => (false, m)
  | (none, m) => (true, m.set name (owner, stamped + ttl))

/-- `renew`. -/
def renew (m : MemoryLocks T) (asked stamped : T) (name : String) (ttl : T) (owner : String) :
    Bool × MemoryLocks T :=
  match m.live asked name with
  | (none, m) => (false, m)
  | (some entry, m) =>
    if entry.1 ≠ owner then (false, m) else (true, m.set name (owner, stamped + ttl))

/-- `release`: the caller's own entry is dropped, lapsed or not. -/
def release (m : MemoryLocks T) (name owner : String) : MemoryLocks T :=
  match m.locks name with
  | some entry => if entry.1 = owner then m.pop name else m
  | none => m

/-- A call of one of the three methods; `release` returns nothing. -/
def call (m : MemoryLocks T) (c : Call String String T) : Option Bool × MemoryLocks T :=
  match c.request with
  | .acquire ttl =>
    let (granted, m) := m.acquire c.asked c.stamped c.name ttl c.owner
    (some granted, m)
  | .renew ttl =>
    let (renewed, m) := m.renew c.asked c.stamped c.name ttl c.owner
    (some renewed, m)
  | .release => (none, m.release c.name c.owner)

/-- The holding in force. -/
def holding (m : MemoryLocks T) (now : T) (name : String) : Option (String × T) :=
  unexpired now (m.locks name)

/-! ## One call -/

section OneCall

omit [Add T]

variable {m : MemoryLocks T} {now : T} {name : String}

/-- `_live` returns the holding in force. -/
theorem live_fst : (m.live now name).1 = m.holding now name := by
  rw [live, holding]
  cases m.locks name with
  | none => rfl
  | some entry =>
    simp only [unexpired_some, gt_iff_lt]
    split <;> rfl

/-- `_live` drops only what has lapsed. -/
theorem live_agree : Agree now m.locks (m.live now name).2.locks := by
  intro later hlater other
  rw [live]
  split
  · rename_i entry hentry
    split
    · rfl
    · rename_i hexpired
      by_cases hother : other = name
      · subst hother
        have : ¬later < entry.2 := fun h => hexpired (hlater.trans_lt h)
        simp [pop, hentry, unexpired_some, this]
      · simp [pop, Function.update_of_ne hother]
  · rfl

/-- Dropping a lapsed entry changes nothing that is in force. -/
theorem agree_pop (h : m.holding now name = none) : Agree now m.locks (m.pop name).locks := by
  intro later hlater other
  by_cases hother : other = name
  · subst hother
    rw [← unexpired_unexpired hlater, ← holding, h]
    simp [pop]
  · simp [pop, Function.update_of_ne hother]

/-- A holding in force is released by its owner only. -/
theorem release_of_holding {holder owner : String} {deadline : T}
    (h : m.holding now name = some (holder, deadline)) :
    m.release name owner = if holder = owner then m.pop name else m := by
  obtain ⟨hentry, -⟩ := unexpired_eq_some.mp h
  simp [release, hentry]

/-- Where nothing is in force, a release changes nothing that is. -/
theorem release_of_lapsed {owner : String} (h : m.holding now name = none) :
    Agree now m.locks (m.release name owner).locks := by
  rw [release]
  split
  · split
    · exact agree_pop h
    · exact fun _ _ _ => rfl
  · exact fun _ _ _ => rfl

end OneCall

/-- **One call simulates one step of the specification**: from tables that agree at its check it
answers the same and leaves tables that agree from its last reading on. -/
theorem call_simulates (m : MemoryLocks T) (held : Holdings String String T)
    (c : Call String String T) (hclock : c.asked ≤ c.stamped) (h : Agree c.asked held m.locks) :
    (m.call c).1 = (step held c).1 ∧ Agree c.stamped (step held c).2 (m.call c).2.locks := by
  have hname : unexpired c.asked (held c.name) = m.holding c.asked c.name := h c.asked le_rfl c.name
  have hforce : Agree c.asked (fun name => unexpired c.asked (held name)) m.locks :=
    fun later hlater name => (agree_unexpired c.asked held later hlater name).trans
      (h later hlater name)
  have hlive : Agree c.asked (fun name => unexpired c.asked (held name))
      (m.live c.asked c.name).2.locks := fun later hlater name =>
    (hforce later hlater name).trans (live_agree later hlater name)
  have hfst : (m.live c.asked c.name).1 = unexpired c.asked (held c.name) :=
    live_fst.trans hname.symm
  cases hentry : m.live c.asked c.name with
  | mk entry m' =>
  rw [hentry] at hlive hfst
  cases hrequest : c.request with
  | acquire ttl =>
    simp only [call, step, acquire, hrequest, hentry, ← hfst]
    cases entry with
    | none => exact ⟨rfl, (hlive.update c.name _).mono hclock⟩
    | some entry => exact ⟨rfl, hlive.mono hclock⟩
  | renew ttl =>
    simp only [call, step, renew, hrequest, hentry, ← hfst]
    cases entry with
    | none => exact ⟨rfl, hlive.mono hclock⟩
    | some entry =>
      by_cases howner : entry.1 = c.owner
      · simp only [howner, ne_eq, not_true, if_false, if_true]
        exact ⟨trivial, (hlive.update c.name _).mono hclock⟩
      · simp only [howner, ne_eq, not_false_eq_true, if_true, if_false]
        exact ⟨trivial, hlive.mono hclock⟩
  | release =>
    simp only [call, step, hrequest, hname]
    cases hholding : m.holding c.asked c.name with
    | none =>
      exact ⟨rfl, fun later hlater name => (hforce later (hclock.trans hlater) name).trans
        (release_of_lapsed hholding later (hclock.trans hlater) name)⟩
    | some entry =>
      simp only [release_of_holding hholding]
      split
      · exact ⟨rfl, (hforce.update c.name none).mono hclock⟩
      · exact ⟨rfl, hforce.mono hclock⟩

/-- **A call leaves every other holding as it is**: what is in force under another name, or for
another owner, was in force before the call and still is. -/
theorem holding_call {m : MemoryLocks T} {c : Call String String T} {name holder : String}
    {deadline now : T} (hother : name ≠ c.name ∨ holder ≠ c.owner) (hclock : c.asked ≤ c.stamped)
    (hnow : c.stamped ≤ now) :
    (m.call c).2.holding now name = some (holder, deadline) ↔
      m.holding now name = some (holder, deadline) := by
  have hagree := (call_simulates m m.locks c hclock fun _ _ _ => rfl).2
  rw [holding, ← hagree now hnow]
  exact step_frame hother (hclock.trans hnow)

/-- **The in-process lock is an expiring lock.**  Along every sequence of calls whose clock readings
do not decrease, the answers are the specification's; the holdings in force after the calls are the
specification's; and the last of the calls, whichever it is, changed no holding under another name
or of another owner. -/
theorem memoryLocks_refine (calls : List (Call String String T))
    (hclock : (readings calls).Pairwise (· ≤ ·)) :
    answers call (empty : MemoryLocks T) calls = answers step (fun _ => none) calls ∧
      (∀ now, (∀ reading ∈ readings calls, reading ≤ now) → ∀ name,
        (after call (empty : MemoryLocks T) calls).holding now name =
          unexpired now (after step (fun _ => none) calls name)) ∧
      ∀ before c rest, calls = before ++ c :: rest → ∀ name holder deadline now, c.stamped ≤ now →
        name ≠ c.name ∨ holder ≠ c.owner →
        ((after call (empty : MemoryLocks T) (before ++ [c])).holding now name =
            some (holder, deadline) ↔
          (after call (empty : MemoryLocks T) before).holding now name
            = some (holder, deadline)) := by
  have hstart : ∀ now, Agree now (fun _ => none) (empty : MemoryLocks T).locks := fun _ _ _ _ => rfl
  obtain ⟨hanswers, hagree⟩ := simulates call_simulates hclock hstart
  refine ⟨hanswers, fun now hnow name => (hagree now hnow now le_rfl name).symm, ?_⟩
  rintro before c rest rfl name holder deadline now hnow hother
  have hreadings : readings (before ++ c :: rest) =
      readings before ++ c.asked :: c.stamped :: readings rest := by simp [readings]
  rw [hreadings] at hclock
  have hcall : c.asked ≤ c.stamped :=
    (List.pairwise_cons.mp (List.pairwise_append.mp hclock).2.1).1 _ List.mem_cons_self
  rw [after_concat]
  exact holding_call hother hcall hnow

/-- Two workers and one lock: the second is refused while the first holds it, the first renews, and
the second is granted the lock at the new deadline. -/
theorem memoryLocks_refine_handover :
    answers call (empty : MemoryLocks ℕ)
        [⟨"task:1", "worker-a", .acquire 60, 0, 0⟩, ⟨"task:1", "worker-b", .acquire 60, 10, 10⟩,
          ⟨"task:1", "worker-a", .renew 60, 30, 31⟩, ⟨"task:1", "worker-b", .release, 40, 40⟩,
          ⟨"task:1", "worker-b", .acquire 60, 91, 92⟩] =
      [some true, some false, some true, none, some true] := by
  refine (memoryLocks_refine _ ?_).1.trans ?_
  · decide
  · decide

/-! ## The one-reading model -/

/-- **The lock of the workers' model** is this one, with a clock that stands still during a call. -/
theorem acquire_manager (m : MemoryLockManager) (now ttl : ℕ) (name owner : String) :
    (⟨m.locks⟩ : MemoryLocks ℕ).acquire now now name ttl owner =
      ((m.acquire now ttl name owner).1, ⟨(m.acquire now ttl name owner).2.locks⟩) := by
  have hupdate : ∀ (m : MemoryLockManager) (entry : Option (String × ℕ)),
      (m.put name entry).locks = Function.update m.locks name entry := by
    intro m entry
    ext other : 1
    simp [MemoryLockManager.put, Function.update_apply]
  cases hentry : m.locks name with
  | none => simp [acquire, live, MemoryLockManager.acquire, MemoryLockManager.live,
      MemoryLockManager.reap, hentry, hupdate, set]
  | some entry =>
    by_cases hlive : now < entry.2
    · simp [acquire, live, MemoryLockManager.acquire, MemoryLockManager.live,
        MemoryLockManager.reap, hentry, hlive]
    · simp [acquire, live, MemoryLockManager.acquire, MemoryLockManager.live,
        MemoryLockManager.reap, hentry, hlive, hupdate, set, pop]

end MemoryLocks

end AgentPlatform
