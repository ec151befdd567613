import AgentPlatform.Graph.Workflow
import AgentPlatform.Infrastructure.Locks
import AgentPlatform.Machinery.Processes
import AgentPlatform.Persistence.Tasks

/-!
# Worker/Cluster — every worker, request and message of one task

The parties that touch a task and what they share: the lock store with its clock, the task row, the
queue.  A **handler** is one delivery of a message on a worker, `WorkerConsumer._handle`, and walks
through `TaskExecutor._execute`: the lock, the look at the row, the claim, the workflow with its two
checkpoints a node, the final status, the two releases of the `finally`, the acknowledgement.  A
**request** is an approve, reject or cancel transaction between its read and its write.

An `Action` is one atomic step of one party.  A message may be delivered again until it is
acknowledged, a worker may die anywhere, and `now` in a statement is the clock of the process that
issues it, unrelated to the lock store's.

* `move_moved` — everything one step of a handler can do.
* `onRun_of_mem` — the workflow inside a handler is a run of `Graph/Workflow`.
-/

namespace AgentPlatform

/-- What the executions of the task are configured with. -/
structure Deployment where
  context : WorkflowContext
  arguments : InitialArguments
  maxFiles : ℤ
  /-- `settings.task_lease_seconds`. -/
  leaseSeconds : ℕ
  /-- `str(exc)` of the graph's `GraphRecursionError`. -/
  recursionMessage : String

namespace Deployment

variable (d : Deployment)

/-- `lock_name`. -/
def lockName : String :=
  let taskId := d.context.taskId
  s!"task:{taskId}"

/-- The state `_run_workflow` invokes the graph on: the initial state, overlaid with the checkpoint
of the row. -/
def firstState (runId : String) (previous : AgentState) : AgentState :=
  let fresh := initialState { d.arguments with workflowRunId := runId }
  ((fresh.merge (.of [⟨.maxFiles, d.maxFiles⟩])).merge previous).merge
    (.of [⟨.workflowRunId, runId⟩])

/-- The state `_run_workflow` finalizes when the recursion limit is reached. -/
def recursionState (first : AgentState) : AgentState :=
  let limit := toString recursionLimit
  let exc := d.recursionMessage
  first.merge (.of [⟨.outcome, "HUMAN_REVIEW_REQUIRED"⟩,
    ⟨.haltReason, s!"graph recursion limit ({limit}) reached: {exc}"⟩])

end Deployment

/-- `WorkflowContext.save_checkpoint`, one transaction. -/
def TaskRow.checkpoint (row : TaskRow) (state : AgentState) (n : Node) : TaskRow :=
  (row.saveState state).setStatus n.status

@[simp] theorem TaskRow.status_checkpoint (row : TaskRow) (state : AgentState) (n : Node) :
    (row.checkpoint state n).status = n.status := status_setStatus _

theorem TaskRow.lockedBy_checkpoint {row : TaskRow} (state : AgentState) (n : Node)
    (h : row.lockedBy = none) : (row.checkpoint state n).lockedBy = none :=
  lockedBy_setStatus _ h

/-! ## Handlers -/

/-- **A graph about to execute a node**, with the state it was invoked on. -/
structure Invocation where
  first : AgentState
  node : Node
  state : AgentState
  world : World
  trace : List Execution

namespace Invocation

variable (r : Invocation)

/-- Where the run of the graph stands. -/
def config : Config := ⟨.node r.node, r.state, r.world, r.trace⟩

/-- The execution of the node. -/
def execution (env : NodeEnv) : Execution := ⟨r.node, r.state, r.world, env⟩

end Invocation

/-- Where a handler is in `_handle` and `_execute`. -/
inductive Phase where
  | received
  /-- The lock was acquired. -/
  | locked
  /-- The status read was not terminal. -/
  | examined
  /-- The claim succeeded; the snapshot holds the row's state. -/
  | claimed (previous : AgentState)
  | entering (r : Invocation)
  /-- The first checkpoint of the node is written. -/
  | acting (r : Invocation) (env : NodeEnv)
  /-- The body has run. -/
  | leaving (r : Invocation) (env : NodeEnv)
  /-- The graph is over. -/
  | finalizing (first : AgentState) (c : Config)
  /-- In the `finally`, after an execution or (`ran = false`) a skip. -/
  | releasing (ran ok : Bool)
  | unlocked (ok : Bool)
  /-- `_execute` returned, or raised. -/
  | finished (ok : Bool)
  | gone

namespace Phase

/-- The handler has acquired the lock and not released it. -/
def holding : Phase → Bool
  | locked | examined | claimed _ | entering _ | acting _ _ | leaving _ _ | finalizing _ _
  | releasing _ _ => true
  | _ => false

/-- **The handler executes the task**: it claimed it and has not released it. -/
def inside : Phase → Bool
  | claimed _ | entering _ | acting _ _ | leaving _ _ | finalizing _ _ => true
  | releasing ran _ => ran
  | _ => false

/-- The handler may still come to claim the task. -/
def waiting : Phase → Bool
  | received | locked | examined => true
  | _ => false

/-- The status the handler writes next, unless a call fails before. -/
def nextStatus : Phase → Option TaskStatus
  | claimed _ => some Node.plan.status
  | entering r | acting r _ | leaving r _ => some r.node.status
  | finalizing _ c => some c.finalStatus
  | _ => none

/-- A status write is still to come. -/
def writing (p : Phase) : Bool := p.nextStatus.isSome

/-- …of a status that is not terminal. -/
def reopening (p : Phase) : Bool := p.nextStatus.any fun status => !status.terminal

/-- The graph goes on to its next node while the recursion limit allows, and is finalized
otherwise. -/
def place (first : AgentState) (c : Config) : Phase :=
  match c.pc with
  | .node n =>
    if c.trace.length < recursionLimit then entering ⟨first, n, c.state, c.world, c.trace⟩
    else finalizing first c
  | _ => finalizing first c

theorem place_of_aborted {first : AgentState} {c : Config} {e : PyError}
    (h : c.pc = .aborted e) : place first c = finalizing first c := by
  rw [place, h]

/-- A graph that is placed has been claimed before. -/
theorem waiting_place (first : AgentState) (c : Config) : (place first c).waiting = false := by
  rw [place]
  split
  · split <;> rfl
  · rfl

theorem holding_of_inside {p : Phase} (h : p.inside = true) : p.holding = true := by
  cases p <;> first | rfl | exact absurd h (by simp [inside])

end Phase

/-- One delivery of a message. -/
structure Handler where
  worker : String
  message : ℕ
  /-- The deadline of the lock it acquired. -/
  expires : ℕ
  phase : Phase

/-- `_finalize`, of the state the graph returned or of the one it was invoked on if it was cut off,
or `_finalize_failure` for a graph that raised. -/
def TaskRow.finalize (d : Deployment) (row : TaskRow) (first : AgentState) (c : Config) : TaskRow :=
  match c.ending with
  | .returned => (row.saveState c.state).setStatus c.finalStatus
  | .recursionError => (row.saveState (d.recursionState first)).setStatus c.finalStatus
  | .raised _ => row.setStatus c.finalStatus

@[simp] theorem TaskRow.status_finalize (d : Deployment) (row : TaskRow) (first : AgentState)
    (c : Config) : (row.finalize d first c).status = c.finalStatus := by
  rw [finalize]
  split <;> exact status_setStatus _

theorem TaskRow.lockedBy_finalize {d : Deployment} {row : TaskRow} (first : AgentState) (c : Config)
    (h : row.lockedBy = none) : (row.finalize d first c).lockedBy = none := by
  rw [finalize]
  split <;> exact lockedBy_setStatus _ h

/-- **An execution settles its task in one of three statuses.** -/
theorem Config.finalStatus_cases (c : Config) : c.finalStatus = .humanReviewRequired ∨
    c.finalStatus = .readyForReview ∨ c.finalStatus = .failed := by
  rw [finalStatus]
  split
  · rw [outcomeStatus]
    split
    · exact .inl rfl
    · split
      · exact .inr (.inl rfl)
      · exact .inr (.inr rfl)
  · exact .inl rfl
  · exact .inr (.inr rfl)

theorem Config.finalStatus_ne_queued (c : Config) : c.finalStatus ≠ .queued := by
  rcases c.finalStatus_cases with h | h | h <;> simp [h]

/-- What the parties share. -/
structure Shared where
  /-- The lock store's clock. -/
  clock : ℕ
  locks : MemoryLockManager
  row : TaskRow
  /-- `queue.publish` calls still to be made: the API's background task, and sweeps that have
  read. -/
  publishers : ℕ
  /-- The messages not yet acknowledged. -/
  messages : List ℕ
  /-- How many messages were published. -/
  sent : ℕ
  /-- How many claims succeeded. -/
  starts : ℕ
  /-- The commits, pushes and pull requests made, newest first. -/
  published : List Effect

/-- A step of a handler. -/
inductive Move where
  | acquire
  | examine
  | claim (now : ℕ)
  /-- `_run_workflow` up to the invocation of the graph; `refused` is a bad repository path. -/
  | begin (runId : String) (world : World) (refused : Option PyError)
  | enter (env : NodeEnv)
  | act
  /-- `saved`: a supervisor that raises here had written its checkpoint. -/
  | leave (saved : Bool)
  /-- `ok`: nothing raises between the write and the `finally`. -/
  | finalize (ok : Bool)
  | releaseLock
  | releaseRow
  /-- `ack`, or `nack` after an exception: an unacknowledged message stays. -/
  | reply
  /-- The call the handler is at raises. -/
  | fail
  | crash

/-- **One step of a handler.** -/
def Handler.move (d : Deployment) (s : Shared) (h : Handler) (m : Move) : Shared × Handler :=
  match h.phase, m with
  | .received, .acquire =>
    match s.locks.acquire s.clock d.leaseSeconds d.lockName h.worker with
    | (true, locks) =>
      ({ s with locks := locks }, { h with phase := .locked, expires := s.clock + d.leaseSeconds })
    | (false, locks) => ({ s with locks := locks }, { h with phase := .finished true })
  | .received, .fail => (s, { h with phase := .finished false })
  | .locked, .examine =>
    if s.row.status.terminal then (s, { h with phase := .releasing false true })
    else (s, { h with phase := .examined })
  | .locked, .fail => (s, { h with phase := .releasing false false })
  | .examined, .claim now =>
    match s.row.claim now d.leaseSeconds h.worker with
    | some row =>
      ({ s with row := row, starts := s.starts + 1 }, { h with phase := .claimed row.state })
    | none => (s, { h with phase := .releasing false true })
  | .examined, .fail => (s, { h with phase := .releasing false false })
  | .claimed previous, .begin runId world refused =>
    let first := d.firstState runId previous
    match refused with
    | some e =>
      (s, { h with phase := .finalizing first { start first world with pc := .aborted e } })
    | none => (s, { h with phase := .place first (start first world) })
  | .claimed _, .fail => (s, { h with phase := .releasing true false })
  | .entering r, .enter env =>
    match env.before with
    | some _ => (s, { h with phase := .finalizing r.first (step d.context r.config env) })
    | none =>
      ({ s with row := s.row.checkpoint r.state r.node }, { h with phase := .acting r env })
  | .acting r env, .act =>
    let made := ((r.execution env).effects d.context).filter Effect.publishes
    ({ s with published := made ++ s.published }, { h with phase := .leaving r env })
  | .leaving r env, .leave saved =>
    let row := s.row.checkpoint ((r.execution env).stateAfter d.context) r.node
    ({ s with row := if env.escape.isNone || saved then row else s.row },
      { h with phase := .place r.first (step d.context r.config env) })
  | .finalizing first c, .finalize ok =>
    ({ s with row := s.row.finalize d first c }, { h with phase := .releasing true ok })
  | .finalizing _ _, .fail => (s, { h with phase := .releasing true false })
  | .releasing _ ok, .releaseLock =>
    ({ s with locks := s.locks.release d.lockName h.worker }, { h with phase := .unlocked ok })
  | .releasing _ _, .fail => (s, { h with phase := .finished false })
  | .unlocked ok, .releaseRow =>
    ({ s with row := s.row.release h.worker }, { h with phase := .finished ok })
  | .unlocked _, .fail => (s, { h with phase := .finished false })
  | .finished true, .reply =>
    ({ s with messages := s.messages.filter (· ≠ h.message) }, { h with phase := .gone })
  | .finished false, .reply => (s, { h with phase := .gone })
  | _, .crash => (s, { h with phase := .gone })
  | _, _ => (s, h)

/-! ## What a step of a handler does -/

/-- **Every step of a handler**, with what it found. -/
inductive Moved (d : Deployment) (s : Shared) (h : Handler) : Shared → Handler → Prop
  | stay : Moved d s h s h
  | lock (hphase : h.phase = .received) (hfree : s.locks.live s.clock d.lockName = none) :
      Moved d s h
        { s with locks := (s.locks.acquire s.clock d.leaseSeconds d.lockName h.worker).2 }
        { h with phase := .locked, expires := s.clock + d.leaseSeconds }
  | examine (hphase : h.phase = .locked) : Moved d s h s { h with phase := .examined }
  | claim {now : ℕ} {row : TaskRow} (hphase : h.phase = .examined)
      (hclaim : s.row.claim now d.leaseSeconds h.worker = some row) :
      Moved d s h { s with row := row, starts := s.starts + 1 }
        { h with phase := .claimed row.state }
  | skip {ok : Bool} (hphase : h.phase.waiting = true) (hholding : h.phase.holding = true) :
      Moved d s h s { h with phase := .releasing false ok }
  | begin {previous first : AgentState} {c : Config} (hphase : h.phase = .claimed previous)
      (hrun : ∃ runId world, first = d.firstState runId previous ∧
        (c = start first world ∨ ∃ e, c = { start first world with pc := .aborted e })) :
      Moved d s h s { h with phase := .place first c }
  | enter {r : Invocation} {env : NodeEnv} (hphase : h.phase = .entering r) :
      Moved d s h { s with row := s.row.checkpoint r.state r.node }
        { h with phase := .acting r env }
  | abort {r : Invocation} {env : NodeEnv} {e : PyError} (hphase : h.phase = .entering r)
      (hbefore : env.before = some e) :
      Moved d s h s { h with phase := .finalizing r.first (step d.context r.config env) }
  | act {r : Invocation} {env : NodeEnv} (hphase : h.phase = .acting r env) :
      Moved d s h
        { s with published :=
            ((r.execution env).effects d.context).filter Effect.publishes ++ s.published }
        { h with phase := .leaving r env }
  | leave {r : Invocation} {env : NodeEnv} {row : TaskRow} (hphase : h.phase = .leaving r env)
      (hrow : row = s.row ∨
        row = s.row.checkpoint ((r.execution env).stateAfter d.context) r.node) :
      Moved d s h { s with row := row }
        { h with phase := .place r.first (step d.context r.config env) }
  | finalize {first : AgentState} {c : Config} {ok : Bool}
    (hphase : h.phase = .finalizing first c) :
      Moved d s h { s with row := s.row.finalize d first c } { h with phase := .releasing true ok }
  | escape (hphase : h.phase.inside = true) (hwriting : h.phase.writing = true) :
      Moved d s h s { h with phase := .releasing true false }
  | releaseLock {ran ok : Bool} (hphase : h.phase = .releasing ran ok) :
      Moved d s h { s with locks := s.locks.release d.lockName h.worker }
        { h with phase := .unlocked ok }
  | releaseRow {ok : Bool} (hphase : h.phase = .unlocked ok) :
      Moved d s h { s with row := s.row.release h.worker } { h with phase := .finished ok }
  | acknowledge : Moved d s h { s with messages := s.messages.filter (· ≠ h.message) }
      { h with phase := .gone }
  | finish {phase : Phase} (hphase : phase = .gone ∨ ∃ ok, phase = .finished ok) :
      Moved d s h s { h with phase := phase }

/-- **A step of a handler is one of these.** -/
theorem move_moved (d : Deployment) (s : Shared) (h : Handler) (m : Move) :
    Moved d s h (h.move d s m).1 (h.move d s m).2 := by
  unfold Handler.move
  split
  next hphase =>
    rcases hlive : s.locks.live s.clock d.lockName with _ | entry
    · have hlock := Moved.lock (d := d) hphase hlive
      have hgranted : (s.locks.acquire s.clock d.leaseSeconds d.lockName h.worker).1 = true :=
        MemoryLockManager.acquire_fst.mpr hlive
      rcases hgrant : s.locks.acquire s.clock d.leaseSeconds d.lockName h.worker
        with ⟨granted, locks⟩
      rw [hgrant] at hlock hgranted
      obtain rfl : granted = true := hgranted
      exact hlock
    · rw [MemoryLockManager.acquire_of_live hlive]
      exact .finish (.inr ⟨_, rfl⟩)
  next hphase => exact .finish (.inr ⟨_, rfl⟩)
  next hphase =>
    split
    · exact .skip (by rw [hphase]; rfl) (by rw [hphase]; rfl)
    · exact .examine hphase
  next hphase => exact .skip (by rw [hphase]; rfl) (by rw [hphase]; rfl)
  next hphase =>
    split
    · exact .claim hphase ‹_›
    · exact .skip (by rw [hphase]; rfl) (by rw [hphase]; rfl)
  next hphase => exact .skip (by rw [hphase]; rfl) (by rw [hphase]; rfl)
  next previous runId world refused hphase =>
    rcases refused with _ | e
    · exact .begin hphase ⟨runId, world, rfl, .inl rfl⟩
    · have hbegin := Moved.begin (d := d) (s := s) (h := h) hphase
        ⟨runId, world, rfl, .inr ⟨e, rfl⟩⟩
      rwa [Phase.place_of_aborted rfl] at hbegin
  next hphase => exact .escape (by rw [hphase]; rfl) (by rw [hphase]; rfl)
  next r env hphase =>
    split
    · exact .abort hphase ‹_›
    · exact .enter hphase
  next hphase => exact .act hphase
  next r env saved hphase =>
    refine .leave hphase ?_
    split
    · exact .inr rfl
    · exact .inl rfl
  next hphase => exact .finalize hphase
  next hphase => exact .escape (by rw [hphase]; rfl) (by rw [hphase]; rfl)
  next hphase => exact .releaseLock hphase
  next hphase => exact .finish (.inr ⟨_, rfl⟩)
  next hphase => exact .releaseRow hphase
  next hphase => exact .finish (.inr ⟨_, rfl⟩)
  next hphase => exact .acknowledge
  next hphase => exact .finish (.inl rfl)
  next => exact .finish (.inl rfl)
  next => exact .stay

/-! ## Requests and the cluster -/

/-- `TaskService.approve`, `reject` and `cancel`. -/
inductive Decision where
  | approve | reject | cancel
  deriving DecidableEq, Repr

namespace Decision

/-- The check on the status that was read; a request that fails it raises. -/
def admits : Decision → TaskStatus → Bool
  | approve, status => status = .readyForReview
  | reject, status => !(status.terminal && status ≠ .humanReviewRequired)
  | cancel, status => !status.terminal

/-- The status the request commits. -/
def status : Decision → TaskStatus
  | approve => .completed
  | reject => .rejected
  | cancel => .cancelled

/-- The statements of the request, one transaction. -/
def write (row : TaskRow) : Decision → TaskRow
  | approve => (row.setStatus .humanApproved).setStatus .completed
  | reject => row.setStatus .rejected
  | cancel => row.setStatus .cancelled

@[simp] theorem status_write (row : TaskRow)
    (dec : Decision) : (dec.write row).status = dec.status := by
  cases dec <;> simp [write, status]

theorem lockedBy_write {row : TaskRow} (dec : Decision) (h : row.lockedBy = none) :
    (dec.write row).lockedBy = none := by
  cases dec with
  | approve => exact TaskRow.lockedBy_setStatus _ (TaskRow.lockedBy_setStatus _ h)
  | reject => exact TaskRow.lockedBy_setStatus _ h
  | cancel => exact TaskRow.lockedBy_setStatus _ h

/-- **A decision is terminal, and refused once any is committed.** -/
@[simp] theorem terminal_status (dec : Decision) : dec.status.terminal = true := by
  cases dec <;> rfl

@[simp] theorem admits_status (dec dec' : Decision) : dec.admits dec'.status = false := by
  cases dec <;> cases dec' <;> rfl

end Decision

/-- **The cluster**, as one task sees it. -/
structure Cluster where
  shared : Shared
  handlers : List Handler
  /-- The requests whose read passed and whose write is still to come. -/
  requests : List Decision

/-- One atomic step of one party. -/
inductive Action where
  | publish
  /-- A publisher fails before it publishes. -/
  | forget
  /-- The reads of `WorkerConsumer.sweep`. -/
  | sweep (now : ℕ)
  /-- The queue loses a message. -/
  | lose (message : ℕ)
  /-- A message is delivered, for the first time or reclaimed. -/
  | deliver (worker : String) (message : ℕ)
  | handler (i : ℕ) (m : Move)
  /-- Time passes at the lock store. -/
  | tick (δ : ℕ)
  | request (dec : Decision)
  | commit (j : ℕ)
  | abandon (j : ℕ)

namespace Cluster

/-- The cluster when `create_task` has committed: the enqueueing background task is still to run. -/
def create (clock : ℕ) : Cluster := ⟨⟨clock, .empty, .create, 1, [], 0, 0, []⟩, [], []⟩

/-- **One step of the cluster.** -/
def step (d : Deployment) (s : Cluster) : Action → Cluster
  | .publish =>
    match s.shared.publishers with
    | 0 => s
    | n + 1 => { s with shared := { s.shared with
        publishers := n
        messages := s.shared.sent :: s.shared.messages
        sent := s.shared.sent + 1 } }
  | .forget => { s with shared := { s.shared with publishers := s.shared.publishers - 1 } }
  | .sweep now =>
    if s.shared.row.unclaimed || s.shared.row.recoverable now then
      { s with shared := { s.shared with publishers := s.shared.publishers + 1 } }
    else s
  | .lose message =>
    { s with shared := { s.shared with messages := s.shared.messages.filter (· ≠ message) } }
  | .deliver worker message =>
    if message ∈ s.shared.messages then
      { s with handlers := s.handlers ++ [⟨worker, message, 0, .received⟩] }
    else s
  | .handler i m =>
    match s.handlers[i]? with
    | some h =>
      { s with shared := (h.move d s.shared m).1, handlers :=
        s.handlers.set i (h.move d s.shared m).2 }
    | none => s
  | .tick δ => { s with shared := { s.shared with clock := s.shared.clock + δ } }
  | .request dec =>
    if dec.admits s.shared.row.status then { s with requests := s.requests ++ [dec] } else s
  | .commit j =>
    match s.requests[j]? with
    | some dec =>
      { s with shared := { s.shared with row := dec.write s.shared.row }
               requests := s.requests.eraseIdx j }
    | none => s
  | .abandon j => { s with requests := s.requests.eraseIdx j }

/-- A run of the cluster. -/
def run (d : Deployment) (s : Cluster) (as : List Action) : Cluster := Runs.run (step d) s as

/-- **Every step of the cluster**, with what it found. -/
inductive Stepped (d : Deployment) (s : Cluster) : Action → Cluster → Prop
  | stay {a : Action} : Stepped d s a s
  | publish {n : ℕ} (hn : s.shared.publishers = n + 1) :
      Stepped d s .publish { s with shared := { s.shared with
        publishers := n
        messages := s.shared.sent :: s.shared.messages
        sent := s.shared.sent + 1 } }
  | forget : Stepped d s .forget
      { s with shared := { s.shared with publishers := s.shared.publishers - 1 } }
  | sweep {now : ℕ} (hfound : (s.shared.row.unclaimed || s.shared.row.recoverable now) = true) :
      Stepped d s (.sweep now)
        { s with shared := { s.shared with publishers := s.shared.publishers + 1 } }
  | lose {message : ℕ} : Stepped d s (.lose message)
      { s with shared := { s.shared with messages := s.shared.messages.filter (· ≠ message) } }
  | deliver {worker : String} {message : ℕ} (hmessage : message ∈ s.shared.messages) :
      Stepped d s (.deliver worker message)
        { s with handlers := s.handlers ++ [⟨worker, message, 0, .received⟩] }
  | handler {i : ℕ} {m : Move} {h h' : Handler} {t : Shared} (hget : s.handlers[i]? = some h)
      (hmoved : Moved d s.shared h t h') :
      Stepped d s (.handler i m) { s with shared := t, handlers := s.handlers.set i h' }
  | tick {δ : ℕ} :
      Stepped d s (.tick δ) { s with shared := { s.shared with clock := s.shared.clock + δ } }
  | request {dec : Decision} (hadmits : dec.admits s.shared.row.status = true) :
      Stepped d s (.request dec) { s with requests := s.requests ++ [dec] }
  | commit {j : ℕ} {dec : Decision} (hget : s.requests[j]? = some dec) :
      Stepped d s (.commit j)
        { s with shared := { s.shared with row := dec.write s.shared.row }
                 requests := s.requests.eraseIdx j }
  | abandon {j : ℕ} : Stepped d s (.abandon j) { s with requests := s.requests.eraseIdx j }

/-- **A step of the cluster is one of these.** -/
theorem stepped_step (d : Deployment) (s : Cluster) (a : Action) : Stepped d s a (step d s a) := by
  unfold step
  split
  · split
    · exact .stay
    · exact .publish ‹_›
  · exact .forget
  · split
    · exact .sweep ‹_›
    · exact .stay
  · exact .lose
  · split
    · exact .deliver ‹_›
    · exact .stay
  · split
    · exact .handler ‹_› (move_moved _ _ _ _)
    · exact .stay
  · exact .tick
  · split
    · exact .request ‹_›
    · exact .stay
  · split
    · exact .commit ‹_›
    · exact .stay
  · exact .abandon

end Cluster

/-! ## The graph inside a handler

The two checkpoints of a node are steps of their own here, so a run of the graph is spread over the
steps of its handler; what it comes to is still a run of `Graph/Workflow`. -/

section Runs

variable {d : Deployment} {first : AgentState} {c : Config}

/-- The graph, invoked on a state the executor builds, has taken fewer than `limit` steps to `c`. -/
def Deployment.Reached (d : Deployment) (limit : ℕ) (first : AgentState) (c : Config) : Prop :=
  ∃ runId previous world envs, first = d.firstState runId previous ∧
    Runs.run (step d.context) (start first world) envs = c ∧ envs.length < limit

/-- **The graph of a phase is a run of the workflow**, and within the recursion limit. -/
def Phase.OnRun (d : Deployment) : Phase → Prop
  | entering r | acting r _ | leaving r _ => d.Reached recursionLimit r.first r.config
  | finalizing first c => d.Reached (recursionLimit + 1) first c
  | _ => True

theorem Deployment.Reached.step (h : d.Reached recursionLimit first c) (env : NodeEnv) :
    d.Reached (recursionLimit + 1) first (step d.context c env) := by
  obtain ⟨runId, previous, world, envs, hfirst, hrun, hlen⟩ := h
  refine ⟨runId, previous, world, envs ++ [env], hfirst, ?_, ?_⟩
  · rw [Runs.run_append, hrun, Runs.run_cons, Runs.run_nil]
  · rw [List.length_append, List.length_singleton]
    omega

theorem Phase.onRun_place (h : d.Reached (recursionLimit + 1) first c) :
    (place first c).OnRun d := by
  rcases hpc : c.pc with n | _ | e
  · rw [place, hpc]
    dsimp only
    split
    · rename_i hlimit
      obtain ⟨runId, previous, world, envs, hfirst, rfl, _⟩ := h
      have htrace := length_trace_of_node hpc
      refine ⟨runId, previous, world, envs, hfirst, ?_, ?_⟩
      · rw [Invocation.config, ← hpc]
      · rw [htrace, start, List.length_nil] at hlimit
        omega
    · exact h
  · rw [place, hpc]
    exact h
  · rw [place_of_aborted hpc]
    exact h

theorem reached_start {runId : String} {previous : AgentState} (world : World)
    (hfirst : first = d.firstState runId previous) :
    d.Reached (recursionLimit + 1) first (start first world) :=
  ⟨runId, previous, world, [], hfirst, rfl, by simp [recursionLimit]⟩

/-- A refused repository path leaves what a supervisor that raises at once leaves. -/
theorem reached_aborted {runId : String} {previous : AgentState} (world : World) (e : PyError)
    (hfirst : first = d.firstState runId previous) :
    d.Reached (recursionLimit + 1) first { start first world with pc := .aborted e } :=
  ⟨runId, previous, world, [{ NodeEnv.calm with before := some e }], hfirst, rfl,
    by simp [recursionLimit]⟩

theorem onRun_of_moved {s s' : Shared} {h h' : Handler} (hmoved : Moved d s h s' h')
    (hrun : h.phase.OnRun d) : h'.phase.OnRun d := by
  cases hmoved with
  | stay => exact hrun
  | begin hphase hbegin =>
    obtain ⟨runId, world, hfirst, rfl | ⟨e, rfl⟩⟩ := hbegin
    · exact Phase.onRun_place (reached_start world hfirst)
    · exact Phase.onRun_place (reached_aborted world e hfirst)
  | enter hphase => rwa [hphase] at hrun
  | abort hphase hbefore =>
    rw [hphase] at hrun
    exact hrun.step _
  | act hphase => rwa [hphase] at hrun
  | leave hphase hrow =>
    rw [hphase] at hrun
    exact Phase.onRun_place (hrun.step _)
  | finish hphase =>
    rcases hphase with rfl | ⟨ok, rfl⟩ <;> trivial
  | _ => trivial

namespace Cluster

/-- **What one handler's steps preserve, the cluster's steps preserve**, for a property of
phases. -/
theorem Stepped.forall_phase {P : Phase → Prop} {s s' : Cluster} {a : Action}
    (hstep : Stepped d s a s') (hreceived : P .received)
    (hmoved : ∀ h h' t, h ∈ s.handlers → Moved d s.shared h t h' → P h.phase → P h'.phase)
    (hs : ∀ h ∈ s.handlers, P h.phase) : ∀ h ∈ s'.handlers, P h.phase := by
  cases hstep with
  | deliver hmessage => exact Processes.forall_append hs hreceived
  | handler hget hmove =>
    have hmem := List.mem_of_getElem? hget
    exact Processes.forall_set hs (hmoved _ _ _ hmem hmove (hs _ hmem))
  | _ => exact hs

/-- **Every execution of the task is a run of the workflow.** -/
theorem onRun_of_mem (clock : ℕ) (as : List Action) :
    ∀ h ∈ (run d (create clock) as).handlers, h.phase.OnRun d := by
  refine Runs.run_invariant (P := fun s : Cluster => ∀ h ∈ s.handlers, h.phase.OnRun d)
    (fun s a hs => ?_) (by simp [create]) as
  exact (stepped_step d s a).forall_phase (P := Phase.OnRun d) trivial
    (fun _ _ _ _ => onRun_of_moved) hs

end Cluster

end Runs

/-! ## A task on two workers

The steps of an uneventful handler: every concrete run below is put together from these. -/

/-- The default lease, and the graph's own message. -/
def sampleDeployment : Deployment :=
  ⟨sampleContext, sampleArguments, 12, 900,
    "Recursion limit of 60 reached without hitting a stop condition."⟩

/-- Handler `i` takes the message up and claims the task. -/
def takesUp (i : ℕ) (worker : String) (message now : ℕ) : List Action :=
  [.deliver worker message, .handler i .acquire, .handler i .examine, .handler i (.claim now),
    .handler i (.begin "run-1" sampleWorld none)]

/-- Handler `i` executes a node. -/
def executes (i : ℕ) (env : NodeEnv) : List Action :=
  [.handler i (.enter env), .handler i .act, .handler i (.leave true)]

/-- Handler `i` settles the task, releases it and acknowledges its message. -/
def settles (i : ℕ) : List Action :=
  [.handler i (.finalize true), .handler i .releaseLock, .handler i .releaseRow, .handler i .reply]

end AgentPlatform
