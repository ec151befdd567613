import AgentPlatform.Machinery.Runs
import Mathlib.Data.List.Perm.Basic
import Mathlib.Tactic.Common

/-!
# Worker/Concurrency — the permits of one worker

`_handle` gives back a permit of the worker's semaphore whatever happens to the task.  Two of its
three callers, the loop of `run_forever` and `run_once`, take one before they call it; `sweep`,
which hands it the stream messages it has reclaimed, takes none.  The semaphore is a plain
`asyncio.Semaphore`, so a permit given back without having been taken is one more permit.

* `balanced_run` — after any run, the permits free and the permits taken are the worker's
  concurrency and one more for every reclaimed message whose handling is over.
* `capped_run` — the cap holds in every state of a run in which no sweep reclaims a message.
-/

namespace AgentPlatform

/-- `QueuedTask`. -/
structure QueuedTask where
  taskId : String
  receipt : Option String
  attempt : ℕ := 1
  deriving DecidableEq

/-- How a call that is awaited ends: `cancelled` is a `CancelledError`, no `Exception`. -/
inductive Awaited where
  | returned
  | raised
  | cancelled
  deriving DecidableEq

/-- What the calls of one `_handle` do. -/
structure HandleCalls where
  execute : Awaited
  ack : Awaited
  nack : Awaited

/-- `_handle` up to its `finally`: a task that fails is handed back, a cancellation passes
through. -/
def HandleCalls.ends (calls : HandleCalls) : Awaited :=
  let tried := match calls.execute with
    | .returned => calls.ack
    | failed => failed
  match tried with
  | .returned => .returned
  | .raised => calls.nack
  | .cancelled => .cancelled

/-- A `_handle` in progress; `sweep?` is the sweep that awaits it, if one does. -/
structure Handling where
  item : QueuedTask
  sweep? : Option ℕ
  deriving DecidableEq

/-- A pass of `sweep` through the messages it has reclaimed. -/
structure Sweep where
  rest : List QueuedTask
  /-- It awaits a `_handle`. -/
  awaiting : Bool
  deriving DecidableEq

/-- **The worker process**, as far as its semaphore is concerned. -/
structure Consumer where
  /-- The semaphore's value. -/
  value : ℕ
  /-- Received from the queue, at `semaphore.acquire()`. -/
  waiting : List QueuedTask
  /-- Past it, with `_handle` not begun. -/
  acquired : List QueuedTask
  handling : List Handling
  sweeps : List Sweep
  /-- How many reclaimed messages have been handled to the end. -/
  reclaimedOver : ℕ
  deriving DecidableEq

/-- What a worker is set up with. -/
structure WorkerSettings where
  workerConcurrency : ℕ
  /-- The queue is a `RedisTaskQueue`. -/
  redis : Bool

/-- What happens in the process, one thing at a time. -/
inductive ConsumerAction where
  /-- `queue.receive` returns an item, to `run_forever` or to `run_once`. -/
  | deliver (item : QueuedTask)
  /-- `semaphore.acquire` returns to the `i`-th that waits. -/
  | acquire (i : ℕ)
  /-- `_handle` begins for the `i`-th acquired item. -/
  | begin (i : ℕ)
  /-- The `i`-th `_handle` runs to its end. -/
  | finish (i : ℕ) (calls : HandleCalls)
  /-- A sweep reaches its reclaiming; `entries` is what `XAUTOCLAIM` hands over, a message id and
  the field `task_id`. -/
  | sweep (entries : List (String × Option String))
  /-- The `i`-th sweep calls `_handle` on its next message. -/
  | handleReclaimed (i : ℕ)

namespace WorkerSettings

/-- `RedisTaskQueue.reclaim_stale`: the entries that carry a task id. -/
def reclaimStale (entries : List (String × Option String)) : List QueuedTask :=
  entries.filterMap fun (messageId, taskId) =>
    match taskId with
    | some id => if id = "" then none else some ⟨id, some messageId, 2⟩
    | none => none

variable (settings : WorkerSettings)

/-- The messages a sweep goes through. -/
def reclaimed (entries : List (String × Option String)) : List QueuedTask :=
  if settings.redis then reclaimStale entries else []

/-- A worker that has just been built. -/
def consumer : Consumer := ⟨settings.workerConcurrency, [], [], [], [], 0⟩

end WorkerSettings

namespace Consumer

variable (settings : WorkerSettings) (c : Consumer)

/-- The `finally` of a `_handle`, and what its end means to the sweep that awaits it: the next
message, or the end of the pass if it raises. -/
def conclude (i : ℕ) (h : Handling) (ends : Awaited) : Consumer :=
  let c := { c with value := c.value + 1, handling := c.handling.eraseIdx i }
  match h.sweep? with
  | none => c
  | some j =>
    let rest := match ends, c.sweeps[j]? with
      | .returned, some sweep => sweep.rest
      | _, _ => []
    { c with sweeps := c.sweeps.set j ⟨rest, false⟩, reclaimedOver := c.reclaimedOver + 1 }

/-- One step; what cannot happen leaves the process as it is. -/
def step : ConsumerAction → Consumer
  | .deliver item => { c with waiting := c.waiting ++ [item] }
  | .acquire i =>
    match c.waiting[i]? with
    | some item =>
      if c.value = 0 then c
      else { c with
        value := c.value - 1, waiting := c.waiting.eraseIdx i, acquired := c.acquired ++ [item] }
    | none => c
  | .begin i =>
    match c.acquired[i]? with
    | some item =>
      { c with acquired := c.acquired.eraseIdx i, handling := c.handling ++ [⟨item, none⟩] }
    | none => c
  | .finish i calls =>
    match c.handling[i]? with
    | some h => c.conclude i h calls.ends
    | none => c
  | .sweep entries => { c with sweeps := c.sweeps ++ [⟨settings.reclaimed entries, false⟩] }
  | .handleReclaimed i =>
    match c.sweeps[i]? with
    | some ⟨item :: rest, false⟩ =>
      { c with handling := c.handling ++ [⟨item, some i⟩], sweeps := c.sweeps.set i ⟨rest, true⟩ }
    | _ => c

/-- **The worker's concurrency cap.** -/
def Capped : Prop :=
  c.handling.length ≤ settings.workerConcurrency ∧
    (c.handling = [] ∧ c.acquired = [] → c.value = settings.workerConcurrency)

instance : Decidable (c.Capped settings) := inferInstanceAs (Decidable (_ ∧ (_ → _)))

/-- How many of the `_handle` in progress were acquired for. -/
def permitted : ℕ := c.handling.countP (·.sweep?.isNone)

/-- **The balance of the semaphore.** -/
def Balanced : Prop :=
  c.value + c.acquired.length + c.permitted = settings.workerConcurrency + c.reclaimedOver

end Consumer

/-- **The condition on a step**: a sweep reclaims no message. -/
def ConsumerAction.ReclaimsNothing (settings : WorkerSettings) : ConsumerAction → Prop
  | .sweep entries => settings.reclaimed entries = []
  | _ => True

instance (settings : WorkerSettings) : DecidablePred (ConsumerAction.ReclaimsNothing settings)
  | .sweep _ => inferInstanceAs (Decidable (_ = _))
  | .deliver _ | .acquire _ | .begin _ | .finish _ _ | .handleReclaimed _ => isTrue trivial

namespace Consumer

variable {settings : WorkerSettings} {c : Consumer}

/-! ## The balance -/

/-- One entry leaves a list: what is left, and the entry, count for the whole. -/
theorem countP_eraseIdx_add {α : Type*} {l : List α} {i : ℕ} {x : α} (p : α → Bool)
    (h : l[i]? = some x) : (l.eraseIdx i).countP p + (if p x then 1 else 0) = l.countP p := by
  obtain ⟨hi, rfl⟩ := List.getElem?_eq_some_iff.mp h
  rw [← List.Perm.countP_eq p (List.getElem_cons_eraseIdx_perm hi), List.countP_cons]

theorem length_eraseIdx_add {α : Type*} {l : List α} {i : ℕ} {x : α} (h : l[i]? = some x) :
    (l.eraseIdx i).length + 1 = l.length := by
  have hcount := countP_eraseIdx_add (fun _ => true) h
  simpa using hcount

/-- The end of a `_handle` gives a permit back: its own, or one more. -/
theorem Balanced.conclude {i : ℕ} {h : Handling} (hc : c.Balanced settings)
    (hi : c.handling[i]? = some h) (ends : Awaited) : (c.conclude i h ends).Balanced settings := by
  have hcount := countP_eraseIdx_add (fun h : Handling => h.sweep?.isNone) hi
  rcases hs : h.sweep? with _ | j
  · simp only [hs, Option.isNone_none, if_true] at hcount
    simp only [Balanced, permitted, Consumer.conclude, hs] at hc ⊢
    omega
  · simp only [hs, Option.isNone_some, Bool.false_eq_true, if_false] at hcount
    simp only [Balanced, permitted, Consumer.conclude, hs] at hc ⊢
    omega

/-- **Every step keeps the balance.** -/
theorem Balanced.step (hc : c.Balanced settings) (a : ConsumerAction) :
    (c.step settings a).Balanced settings := by
  cases a with
  | deliver item => exact hc
  | acquire i =>
    rw [Consumer.step]
    split
    · rename_i item hi
      split_ifs with hvalue
      · exact hc
      · simp only [Balanced, permitted, List.length_append, List.length_singleton] at hc ⊢
        omega
    · exact hc
  | begin i =>
    rw [Consumer.step]
    split
    · rename_i item hi
      have hlength := length_eraseIdx_add hi
      simp only [Balanced, permitted, List.countP_append, List.countP_singleton, Option.isNone_none,
        if_true] at hc ⊢
      omega
    · exact hc
  | finish i calls =>
    rw [Consumer.step]
    split
    · rename_i h hi
      exact hc.conclude hi calls.ends
    · exact hc
  | sweep entries => exact hc
  | handleReclaimed i =>
    rw [Consumer.step]
    split
    · simpa [Balanced, permitted, List.countP_append] using hc
    · exact hc

theorem balanced_consumer : settings.consumer.Balanced settings := rfl

/-- **After any run** the free permits and the taken ones are the worker's concurrency, and one more
for every reclaimed message that has been handled to the end. -/
theorem balanced_run (settings : WorkerSettings) (as : List ConsumerAction) :
    (Runs.run (Consumer.step settings) settings.consumer as).Balanced settings :=
  Runs.run_invariant (fun _ a hc => hc.step a) balanced_consumer as

/-! ## Runs without reclaimed messages -/

/-- No reclaimed message has come to `_handle`, and none will. -/
structure Unreclaimed (c : Consumer) : Prop where
  rest : ∀ s ∈ c.sweeps, s.rest = []
  handling : ∀ h ∈ c.handling, h.sweep? = none
  noneOver : c.reclaimedOver = 0

theorem Unreclaimed.step (hc : c.Unreclaimed) {a : ConsumerAction}
    (ha : a.ReclaimsNothing settings) : (c.step settings a).Unreclaimed := by
  cases a with
  | deliver item => exact ⟨hc.rest, hc.handling, hc.noneOver⟩
  | acquire i =>
    rw [Consumer.step]
    split
    · split_ifs
      · exact hc
      · exact ⟨hc.rest, hc.handling, hc.noneOver⟩
    · exact hc
  | begin i =>
    rw [Consumer.step]
    split
    · refine ⟨hc.rest, fun h hh => ?_, hc.noneOver⟩
      rcases List.mem_append.mp hh with hh | hh
      · exact hc.handling h hh
      · rw [List.mem_singleton.mp hh]
    · exact hc
  | finish i calls =>
    rw [Consumer.step]
    split
    · rename_i h hi
      have hown := hc.handling h (List.mem_of_getElem? hi)
      rw [Consumer.conclude, hown]
      exact ⟨hc.rest, fun h' hh' => hc.handling h' (List.mem_of_mem_eraseIdx hh'), hc.noneOver⟩
    · exact hc
  | sweep entries =>
    refine ⟨fun s hs => ?_, hc.handling, hc.noneOver⟩
    rcases List.mem_append.mp hs with hs | hs
    · exact hc.rest s hs
    · rw [List.mem_singleton.mp hs]
      exact ha
  | handleReclaimed i =>
    rw [Consumer.step]
    split
    · rename_i item rest hi
      exact absurd (hc.rest _ (List.mem_of_getElem? hi)) (by simp)
    · exact hc

/-- Without reclaimed messages every `_handle` in progress was acquired for. -/
theorem Unreclaimed.permitted_eq (hc : c.Unreclaimed) : c.permitted = c.handling.length := by
  refine List.countP_eq_length.mpr fun h hh => ?_
  rw [hc.handling h hh]
  rfl

/-- A balance without reclaimed messages is the cap. -/
theorem Balanced.capped (hb : c.Balanced settings) (hc : c.Unreclaimed) : c.Capped settings := by
  rw [Balanced, hc.permitted_eq, hc.noneOver] at hb
  refine ⟨by omega, fun hidle => ?_⟩
  rw [hidle.1, hidle.2] at hb
  simpa using hb

/-- **The cap holds in every state of a run in which no sweep reclaims a message.** -/
theorem capped_run (settings : WorkerSettings) (as : List ConsumerAction)
    (h : Runs.Along (Consumer.step settings) (fun _ a => a.ReclaimsNothing settings)
      settings.consumer as)
    (bs : List ConsumerAction) (hbs : bs <+: as) :
    (Runs.run (Consumer.step settings) settings.consumer bs).Capped settings := by
  obtain ⟨cs, rfl⟩ := hbs
  have hunreclaimed := Runs.Along.invariant (P := Unreclaimed)
    (fun _ _ hc ha => hc.step ha) h.of_append
    ⟨by simp [WorkerSettings.consumer], by simp [WorkerSettings.consumer], rfl⟩
  exact (balanced_run settings bs).capped hunreclaimed

/-- A delivered task fails and is handed back beside a sweep that finds nothing. -/
def uneventful : List ConsumerAction :=
  [.deliver ⟨"TASK-1", some "1-0", 1⟩, .sweep [], .acquire 0, .begin 0,
    .finish 0 ⟨.raised, .returned, .returned⟩]

/-- The permit it took is back. -/
theorem capped_uneventful :
    (Runs.run (Consumer.step ⟨1, true⟩) (WorkerSettings.consumer ⟨1, true⟩) uneventful).Capped
      ⟨1, true⟩ :=
  capped_run ⟨1, true⟩ uneventful (by decide) uneventful (List.prefix_refl _)

/-- The first sweep of a worker reclaims a message and handles it. -/
def reclaiming : List ConsumerAction :=
  [.sweep [("1-0", some "TASK-1")], .handleReclaimed 0, .finish 0 ⟨.returned, .returned, .returned⟩]

/-- Two more messages are then delivered. -/
def crowded : List ConsumerAction :=
  reclaiming ++ [.deliver ⟨"TASK-2", some "2-0", 1⟩, .acquire 0, .begin 0,
    .deliver ⟨"TASK-3", some "3-0", 1⟩, .acquire 0, .begin 0]

/-- **A worker of concurrency 1 whose first sweep reclaims a message** is left with two permits, and
handles two tasks at once. -/
theorem reclaiming_not_capped :
    (Runs.run (Consumer.step ⟨1, true⟩) (WorkerSettings.consumer ⟨1, true⟩) reclaiming).handling
      = [] ∧
      (Runs.run (Consumer.step ⟨1, true⟩) (WorkerSettings.consumer ⟨1, true⟩) reclaiming).acquired
        = [] ∧
      (Runs.run (Consumer.step ⟨1, true⟩) (WorkerSettings.consumer ⟨1, true⟩) reclaiming).value
        = 2 ∧
      (Runs.run (Consumer.step ⟨1, true⟩) (WorkerSettings.consumer ⟨1, true⟩)
        crowded).handling.length = 2 ∧
      ¬ (Runs.run (Consumer.step ⟨1, true⟩) (WorkerSettings.consumer ⟨1, true⟩) reclaiming).Capped
        ⟨1, true⟩ ∧
      ¬ (Runs.run (Consumer.step ⟨1, true⟩) (WorkerSettings.consumer ⟨1, true⟩) crowded).Capped
        ⟨1, true⟩ := by
  decide

end Consumer

end AgentPlatform
