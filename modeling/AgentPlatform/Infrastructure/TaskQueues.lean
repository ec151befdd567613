import AgentPlatform.Machinery.Streams
import AgentPlatform.Worker.Concurrency

/-!
# Infrastructure/TaskQueues — the two task queues

`MemoryTaskQueue` is a list.  `RedisTaskQueue` is a member of the group `agent-workers` of a stream:
it creates the group on its first call, reads one new message at a time, acknowledges what it is
told to, takes over what another member has left idle, and does nothing at all to hand a message
back.

Of Redis the model takes the stream commands as a parameter (`RedisStreams`) and what is documented
of them as laws (`Lawful`): each is one event of the stream's log, or none.
-/

namespace AgentPlatform

/-! ## In the process -/

/-- `MemoryTaskQueue`. -/
structure MemoryTaskQueue where
  queue : List String
  inFlight : List String
  deriving DecidableEq

namespace MemoryTaskQueue

variable (q : MemoryTaskQueue)

/-- `MemoryTaskQueue()`. -/
def empty : MemoryTaskQueue := ⟨[], []⟩

def publish (taskId : String) : MemoryTaskQueue := { q with queue := q.queue ++ [taskId] }

/-- `receive`; `none` at the timeout. -/
def receive : Option QueuedTask × MemoryTaskQueue :=
  match q.queue with
  | [] => (none, q)
  | taskId :: queue => (some ⟨taskId, some taskId, 1⟩, ⟨queue, taskId :: q.inFlight⟩)

def ack (item : QueuedTask) : MemoryTaskQueue :=
  { q with inFlight := q.inFlight.filter (· ≠ item.taskId) }

def nack (item : QueuedTask) : MemoryTaskQueue := (q.ack item).publish item.taskId

def depth : ℕ := q.queue.length

end MemoryTaskQueue

/-! ## Over Redis -/

/-- How `XGROUP CREATE` ends; `busyGroup` is the error of a group that exists. -/
inductive GroupReply where
  | ok
  | busyGroup
  | error
  deriving DecidableEq

/-- The commands on streams that the queue has the server run.  A message is its id and its field
`task_id`; `now` is the server's clock in milliseconds. -/
structure RedisStreams (S : Type*) where
  xgroupCreate : S → (stream group id : String) → GroupReply × S
  xadd : S → (stream taskId : String) → String × S
  /-- With `COUNT 1` and the id `>`; `none` when it stops blocking. -/
  xreadgroup : S → (now : ℕ) → (group consumer stream : String) → Option (String × String) × S
  xack : S → (stream group id : String) → S
  /-- `none` where the server does not know the command. -/
  xautoclaim : S → (now : ℕ) → (stream group consumer : String) → (minIdle count : ℕ) →
    Option (List (String × Option String)) × S
  /-- The groups' names with their `lag`. -/
  xinfoGroups : S → (stream : String) → Option (List (String × Option ℕ))

/-- `CONSUMER_GROUP`. -/
def consumerGroup : String := "agent-workers"

variable {S : Type*}

/-- **What Redis documents of these commands**, for a stream to which nothing else adds and of which
nothing is deleted.  `log` is the stream with its group, as created at the id `0`, and `created`
says that the group exists. -/
structure RedisStreams.Lawful (redis : RedisStreams S) (stream : String)
    (log : S → Streams.Log String String String) (created : S → Prop) : Prop where
  create : ∀ s, log (redis.xgroupCreate s stream consumerGroup "0").2 = log s ∧
    ((redis.xgroupCreate s stream consumerGroup "0").1 ≠ .error ∨ created s →
      created (redis.xgroupCreate s stream consumerGroup "0").2)
  add : ∀ s taskId,
    Streams.Step (log s) (.added (redis.xadd s stream taskId).1 taskId)
    (log (redis.xadd s stream taskId).2) ∧ (created s → created (redis.xadd s stream taskId).2)
  read : ∀ s now consumer reply s', created s →
    redis.xreadgroup s now consumerGroup consumer stream = (reply, s') →
    created s' ∧ (reply = none → log s' = log s) ∧
      ∀ id taskId, reply = some (id, taskId) →
      Streams.Step (log s) (.handed consumer id taskId now) (log s')
  ack : ∀ s id, Streams.Step (log s) (.acked id) (log (redis.xack s stream consumerGroup id)) ∧
    (created s → created (redis.xack s stream consumerGroup id))
  claim : ∀ s now consumer minIdle count reply s', created s →
    redis.xautoclaim s now stream consumerGroup consumer minIdle count = (reply, s') →
    created s' ∧ (reply = none → log s' = log s) ∧
      ∀ entries, reply = some entries → ∃ taken,
        entries = taken.map (fun e => (e.1, some e.2)) ∧
          Streams.Step (log s) (.claimed consumer taken now minIdle) (log s')
  lag : ∀ s, created s → ∃ groups, redis.xinfoGroups s stream = some groups ∧
    groups.find? (fun group => group.1 = consumerGroup) =
      some (consumerGroup, some ((log s).entries.length - (log s).read))

/-- `RedisTaskQueue`; the client is shared. -/
structure RedisTaskQueue where
  stream : String
  consumerName : String
  groupReady : Bool := false

namespace RedisTaskQueue

variable (redis : RedisStreams S) (q : RedisTaskQueue)

/-- `_ensure_group`: any other error is raised, and the group is asked for again. -/
def ensureGroup (s : S) : RedisTaskQueue × S :=
  if q.groupReady then (q, s)
  else match redis.xgroupCreate s q.stream consumerGroup "0" with
    | (.error, s) => (q, s)
    | (.ok, s) | (.busyGroup, s) => ({ q with groupReady := true }, s)

/-- `publish`, past `_ensure_group`; the id is the server's. -/
def publish (s : S) (taskId : String) : String × S := redis.xadd s q.stream taskId

/-- `receive`, past `_ensure_group`. -/
def receive (s : S) (now : ℕ) : Option QueuedTask × S :=
  match redis.xreadgroup s now consumerGroup q.consumerName q.stream with
  | (none, s) => (none, s)
  | (some (messageId, taskId), s) => (some ⟨taskId, some messageId, 1⟩, s)

/-- `reclaim_stale`, past `_ensure_group`: the entries it goes through. -/
def reclaimStale (s : S) (now minIdle : ℕ) : List (String × Option String) × S :=
  match redis.xautoclaim s now q.stream consumerGroup q.consumerName minIdle 10 with
  | (none, s) => ([], s)
  | (some entries, s) => (entries, s)

/-- `ack`. -/
def ack (s : S) (item : QueuedTask) : S :=
  match item.receipt with
  | none => s
  | some id => if id = "" then s else redis.xack s q.stream consumerGroup id

/-- `nack`: the message stays pending. -/
def nack (s : S) (_item : QueuedTask) : S := s

/-- `depth`, past `_ensure_group`: the messages nobody was handed. -/
def depth (s : S) : ℕ :=
  match redis.xinfoGroups s q.stream with
  | none => 0
  | some groups =>
    match groups.find? fun group => group.1 = consumerGroup with
    | some (_, lag) => lag.getD 0
    | none => 0

/-! ### What the calls do to the log -/

variable {redis q} {log : S → Streams.Log String String String} {created : S → Prop} {s s' : S}

@[simp] theorem stream_ensureGroup : (q.ensureGroup redis s).1.stream = q.stream := by
  rw [ensureGroup]
  split
  · rfl
  · split <;> rfl

/-- The log is not touched, and a queue that is ready has its group. -/
theorem ensureGroup_spec (h : redis.Lawful q.stream log created)
    (hready : q.groupReady → created s) :
    log (q.ensureGroup redis s).2 = log s ∧
    ((q.ensureGroup redis s).1.groupReady → created (q.ensureGroup redis s).2) ∧
      (created s → created (q.ensureGroup redis s).2) := by
  obtain ⟨hlog, hcreated⟩ := h.create s
  rw [ensureGroup]
  split
  · exact ⟨rfl, fun hq => hready hq, id⟩
  · rename_i hq
    rcases hreply : redis.xgroupCreate s q.stream consumerGroup "0" with ⟨reply, s'⟩
    rw [hreply] at hlog hcreated
    cases reply with
    | error => exact ⟨hlog, fun hq' => absurd hq' hq, fun hs => hcreated (.inr hs)⟩
    | ok => exact ⟨hlog, fun _ => hcreated (.inl (by simp)), fun hs => hcreated (.inr hs)⟩
    | busyGroup => exact ⟨hlog, fun _ => hcreated (.inl (by simp)), fun hs => hcreated (.inr hs)⟩

/-- An item is the next new message of the log. -/
theorem receive_spec (h : redis.Lawful q.stream log created) (hs : created s) (now : ℕ) :
    created (q.receive redis s now).2 ∧
      ((q.receive redis s now).1 = none → log (q.receive redis s now).2 = log s) ∧
      ∀ item, (q.receive redis s now).1 = some item → ∃ id, item = ⟨item.taskId, some id, 1⟩ ∧
        Streams.Step (log s) (.handed q.consumerName id item.taskId now)
          (log (q.receive redis s now).2) := by
  rcases hreply : redis.xreadgroup s now consumerGroup q.consumerName q.stream with ⟨reply, s'⟩
  obtain ⟨hcreated, hnone, hsome⟩ := h.read s now q.consumerName reply s' hs hreply
  rw [receive, hreply]
  cases reply with
  | none => exact ⟨hcreated, fun _ => hnone rfl, by simp⟩
  | some message =>
    refine ⟨hcreated, by simp, fun item hitem => ?_⟩
    obtain rfl := Option.some.inj hitem
    exact ⟨message.1, rfl, hsome message.1 message.2 rfl⟩

/-- The entries gone through are messages taken over. -/
theorem reclaimStale_spec (h : redis.Lawful q.stream log created) (hs : created s)
    (now minIdle : ℕ) :
    created (q.reclaimStale redis s now minIdle).2 ∧
      ∃ taken, (q.reclaimStale redis s now minIdle).1 = taken.map (fun e => (e.1, some e.2)) ∧
        Streams.Step (log s) (.claimed q.consumerName taken now minIdle)
          (log (q.reclaimStale redis s now minIdle).2) := by
  rcases hreply : redis.xautoclaim s now q.stream consumerGroup q.consumerName minIdle 10
    with ⟨reply, s'⟩
  obtain ⟨hcreated, hnone, hsome⟩ := h.claim s now q.consumerName minIdle 10 reply s' hs hreply
  rw [reclaimStale, hreply]
  cases reply with
  | none =>
    have hstep : Streams.Step (log s) (.claimed q.consumerName [] now minIdle)
        ((log s).reown [] q.consumerName now) :=
      .claimed (by simp)
    rw [Streams.Log.reown_nil, ← hnone rfl] at hstep
    exact ⟨hcreated, [], rfl, hnone rfl ▸ hstep⟩
  | some entries =>
    obtain ⟨taken, htaken, hstep⟩ := hsome entries rfl
    exact ⟨hcreated, taken, htaken, hstep⟩

/-- The depth is the number of messages nobody was handed. -/
theorem depth_eq (h : redis.Lawful q.stream log created) (hs : created s) :
    q.depth redis s = (log s).entries.length - (log s).read := by
  obtain ⟨groups, hgroups, hlag⟩ := h.lag s hs
  rw [depth, hgroups]
  simp only [hlag, Option.getD_some]

end RedisTaskQueue

end AgentPlatform
