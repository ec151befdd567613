import AgentPlatform.Infrastructure.TaskQueues

/-!
# Worker/Delivery — every message is handled at least once

Any number of workers and API processes over one Redis stream.  An action is one request to the
server, or one thing that happens in a worker (`Worker/Concurrency`); a process that dies takes no
more part. The history of the stream and the items whose `execute` returned are kept beside the
fleet.

* `fleet_atLeastOnce` — in every state of every run, whatever the interleaving: the messages are
  handed out as new each once and in the order they were published; a message that is neither unread
  nor pending was handled by somebody to the end; a message is handed out again only when its worker
  has been silent for the lease, and never once it is acknowledged.
* `localProcess_conserves` — the in-process queue of one worker: FIFO, and every published task is
  queued, in the worker's hands, executed or cancelled.
-/

namespace AgentPlatform

/-! ## What a worker has in its hands -/

namespace Consumer

/-- The items of the messages a worker was delivered and has not finished with. -/
def inHands (c : Consumer) : List QueuedTask :=
  c.waiting ++ c.acquired ++ c.handling.map (·.item)

/-- …and those its sweeps have reclaimed. -/
def items (c : Consumer) : List QueuedTask := c.inHands ++ c.sweeps.flatMap (·.rest)

variable {settings : WorkerSettings} {c : Consumer} {item : QueuedTask}

theorem mem_items : item ∈ c.items ↔
    item ∈ c.waiting ∨ item ∈ c.acquired ∨ (∃ h ∈ c.handling, h.item = item) ∨
    ∃ s ∈ c.sweeps, item ∈ s.rest := by
  simp [items, inHands]

end Consumer

/-- The items that come into a worker's hands. -/
def ConsumerAction.incoming (settings : WorkerSettings) : ConsumerAction → List QueuedTask
  | .deliver item => [item]
  | .sweep entries => settings.reclaimed entries
  | _ => []

namespace Consumer

variable {settings : WorkerSettings} {c : Consumer} {item : QueuedTask}

/-- The end of a `_handle` brings nothing. -/
theorem mem_items_conclude {i : ℕ} {h : Handling} {ends : Awaited}
    (hitem : item ∈ (c.conclude i h ends).items) : item ∈ c.items := by
  rw [mem_items] at hitem ⊢
  rcases hs : h.sweep? with _ | j
  · simp only [conclude, hs] at hitem
    refine hitem.imp_right (Or.imp_right (Or.imp_left ?_))
    rintro ⟨h', hh', heq⟩
    exact ⟨h', List.mem_of_mem_eraseIdx hh', heq⟩
  · simp only [conclude, hs] at hitem
    refine hitem.imp_right (Or.imp_right (Or.imp ?_ ?_))
    · rintro ⟨h', hh', heq⟩
      exact ⟨h', List.mem_of_mem_eraseIdx hh', heq⟩
    · rintro ⟨s, hmem, hrest⟩
      rcases List.mem_or_eq_of_mem_set hmem with hmem | rfl
      · exact ⟨s, hmem, hrest⟩
      · simp only at hrest
        split at hrest
        · rename_i sweep hsweep
          exact ⟨sweep, List.mem_of_getElem? hsweep, hrest⟩
        · simp at hrest

/-- **What is in a worker's hands was there before or comes in.** -/
theorem mem_items_step {a : ConsumerAction} (hitem : item ∈ (c.step settings a).items) :
    item ∈ c.items ∨ item ∈ a.incoming settings := by
  cases a with
  | deliver new =>
    rw [mem_items] at hitem ⊢
    simp only [step, List.mem_append, List.mem_singleton] at hitem
    rcases hitem with (hitem | rfl) | hitem
    · exact .inl (.inl hitem)
    · exact .inr (List.mem_singleton.mpr rfl)
    · exact .inl (.inr hitem)
  | acquire i =>
    refine .inl ?_
    rw [step] at hitem
    split at hitem
    · rename_i item' hi
      split_ifs at hitem
      · exact hitem
      · rw [mem_items] at hitem ⊢
        simp only [List.mem_append, List.mem_singleton] at hitem
        rcases hitem with hitem | (hitem | rfl) | hitem
        · exact .inl (List.mem_of_mem_eraseIdx hitem)
        · exact .inr (.inl hitem)
        · exact .inl (List.mem_of_getElem? hi)
        · exact .inr (.inr hitem)
    · exact hitem
  | begin i =>
    refine .inl ?_
    rw [step] at hitem
    split at hitem
    · rename_i item' hi
      rw [mem_items] at hitem ⊢
      simp only [List.mem_append, List.mem_singleton] at hitem
      rcases hitem with hitem | hitem | ⟨h, hh | rfl, heq⟩ | hitem
      · exact .inl hitem
      · exact .inr (.inl (List.mem_of_mem_eraseIdx hitem))
      · exact .inr (.inr (.inl ⟨h, hh, heq⟩))
      · exact .inr (.inl (heq ▸ List.mem_of_getElem? hi))
      · exact .inr (.inr (.inr hitem))
    · exact hitem
  | finish i calls =>
    refine .inl ?_
    rw [step] at hitem
    split at hitem
    · exact mem_items_conclude hitem
    · exact hitem
  | sweep entries =>
    rw [mem_items] at hitem ⊢
    simp only [step, List.mem_append, List.mem_singleton] at hitem
    rcases hitem with hitem | hitem | hitem | ⟨s, hs | rfl, hrest⟩
    · exact .inl (.inl hitem)
    · exact .inl (.inr (.inl hitem))
    · exact .inl (.inr (.inr (.inl hitem)))
    · exact .inl (.inr (.inr (.inr ⟨s, hs, hrest⟩)))
    · exact .inr hrest
  | handleReclaimed i =>
    refine .inl ?_
    rw [step] at hitem
    split at hitem
    · rename_i item' rest hi
      have hsweep := List.mem_of_getElem? hi
      rw [mem_items] at hitem ⊢
      simp only [List.mem_append, List.mem_singleton] at hitem
      rcases hitem with hitem | hitem | ⟨h, hh | rfl, rfl⟩ | ⟨s, hs, hrest⟩
      · exact .inl hitem
      · exact .inr (.inl hitem)
      · exact .inr (.inr (.inl ⟨h, hh, rfl⟩))
      · exact .inr (.inr (.inr ⟨_, hsweep, List.mem_cons_self⟩))
      · rcases List.mem_or_eq_of_mem_set hs with hs | rfl
        · exact .inr (.inr (.inr ⟨s, hs, hrest⟩))
        · exact .inr (.inr (.inr ⟨_, hsweep, List.mem_cons_of_mem _ hrest⟩))
    · exact hitem

end Consumer

/-! ## The fleet -/

/-- The server, and the processes by number: a queue each, and in a worker its consumer. -/
structure Fleet (S : Type*) where
  redis : S
  queues : ℕ → RedisTaskQueue
  workers : ℕ → Consumer
  /-- What happened to the stream. -/
  history : List (Streams.Event String String String)
  /-- The items whose `execute` returned. -/
  returned : List QueuedTask

/-- One thing that happens in the process `w`. -/
inductive FleetAction where
  | ensureGroup (w : ℕ)
  /-- By the API or by a sweep. -/
  | publish (w : ℕ) (taskId : String)
  | receive (w now : ℕ)
  | acquire (w i : ℕ)
  | begin (w i : ℕ)
  /-- `served`: an `ack` that was not awaited to its end has reached the server. -/
  | finish (w i : ℕ) (calls : HandleCalls) (served : Bool)
  | sweep (w now : ℕ)
  | handleReclaimed (w i : ℕ)

namespace Fleet

/-- What an item's coming tells of the stream. -/
def handsOut (consumer : String) (now : ℕ)
    (item : QueuedTask) : List (Streams.Event String String String) :=
  match item.receipt with
  | none => []
  | some id => [.handed consumer id item.taskId now]

/-- What acknowledging an item tells of it. -/
def acknowledges (item : QueuedTask) : List (Streams.Event String String String) :=
  match item.receipt with
  | none => []
  | some id => if id = "" then [] else [.acked id]

variable {S : Type*} (redis : RedisStreams S) (settings : WorkerSettings) (leaseSeconds : ℕ)
  (f : Fleet S)

/-- A worker takes a step of its own. -/
def consume (w : ℕ) (a : ConsumerAction) : Fleet S :=
  { f with workers := Function.update f.workers w ((f.workers w).step settings a) }

/-- `ack`. -/
def ack (w : ℕ) (item : QueuedTask) : Fleet S :=
  { f with redis := (f.queues w).ack redis f.redis item, history := f.history ++ acknowledges item }

/-- One step; what cannot happen leaves the fleet as it is. -/
def step : FleetAction → Fleet S
  | .ensureGroup w =>
    let (queue, s) := (f.queues w).ensureGroup redis f.redis
    { f with redis := s, queues := Function.update f.queues w queue }
  | .publish w taskId =>
    if (f.queues w).groupReady then
      let (id, s) := (f.queues w).publish redis f.redis taskId
      { f with redis := s, history := f.history ++ [.added id taskId] }
    else f
  | .receive w now =>
    if (f.queues w).groupReady then
      match (f.queues w).receive redis f.redis now with
      | (none, s) => { f with redis := s }
      | (some item, s) =>
        let history := f.history ++ handsOut (f.queues w).consumerName now item
        consume settings { f with redis := s, history := history } w (.deliver item)
    else f
  | .acquire w i => f.consume settings w (.acquire i)
  | .begin w i => f.consume settings w (.begin i)
  | .finish w i calls served =>
    match (f.workers w).handling[i]? with
    | none => f
    | some h =>
      let f := f.consume settings w (.finish i calls)
      if calls.execute = .returned then
        let f := { f with returned := f.returned ++ [h.item] }
        if calls.ack = .returned ∨ served then f.ack redis w h.item else f
      else f
  | .sweep w now =>
    if (f.queues w).groupReady then
      let (entries, s) := (f.queues w).reclaimStale redis f.redis now (leaseSeconds * 1000)
      let taken := entries.map fun e => (e.1, e.2.getD "")
      let history :=
        f.history ++ [.claimed (f.queues w).consumerName taken now (leaseSeconds * 1000)]
      consume settings { f with redis := s, history := history } w (.sweep entries)
    else f
  | .handleReclaimed w i => f.consume settings w (.handleReclaimed i)

/-! ### What every action keeps -/

/-- The item stands for a message that was handed out. -/
def Stands (l : Streams.Log String String String) (item : QueuedTask) : Prop :=
  ∃ id, item.receipt = some id ∧ (id, item.taskId) ∈ l.handed

/-- **What every action keeps.** -/
structure Inv (stream : String) (log : S → Streams.Log String String String) (created : S → Prop)
    (f : Fleet S) : Prop where
  reached : Streams.Reached f.history (log f.redis)
  streams : ∀ w, (f.queues w).stream = stream
  ready : ∀ w, (f.queues w).groupReady → created f.redis
  hands : ∀ w, ∀ item ∈ (f.workers w).items, Stands (log f.redis) item
  returned : ∀ item ∈ f.returned, Stands (log f.redis) item
  acked : ∀ before id after, f.history = before ++ .acked id :: after →
    id ∈ (before.filterMap Streams.Event.handed?).map (·.1) ∧
    ∃ item ∈ f.returned, item.receipt = some id
  lease : ∀ consumer taken now minIdle, .claimed consumer taken now minIdle ∈ f.history →
    minIdle = leaseSeconds * 1000

variable {redis settings leaseSeconds f} {stream : String}
  {log : S → Streams.Log String String String} {created : S → Prop} {s : S} {w : ℕ}

theorem Stands.mono {l l' : Streams.Log String String String} {item : QueuedTask}
    (h : Stands l item) (hsubset : l.handed ⊆ l'.handed) : Stands l' item := by
  obtain ⟨id, hid, hmem⟩ := h
  exact ⟨id, hid, hsubset hmem⟩

/-- A worker's own step brings in what was handed out. -/
theorem Inv.consume (h : f.Inv leaseSeconds stream log created) {a : ConsumerAction}
    (hincoming : ∀ item ∈ a.incoming settings, Stands (log f.redis) item) :
    (f.consume settings w a).Inv leaseSeconds stream log created where
  reached := h.reached
  streams := h.streams
  ready := h.ready
  hands := by
    intro w' item hitem
    by_cases hw : w' = w
    · subst hw
      simp only [Fleet.consume, Function.update_self] at hitem
      exact (Consumer.mem_items_step hitem).elim (h.hands w' item) (hincoming item)
    · simp only [Fleet.consume, Function.update_of_ne hw] at hitem
      exact h.hands w' item hitem
  returned := h.returned
  acked := h.acked
  lease := h.lease

/-- The server serves a request that tells the log nothing. -/
theorem Inv.served (h : f.Inv leaseSeconds stream log created) (hlog : log s = log f.redis)
    (hcreated : created f.redis → created s) :
    ({ f with redis := s } : Fleet S).Inv leaseSeconds stream log created where
  reached := hlog ▸ h.reached
  streams := h.streams
  ready w hw := hcreated (h.ready w hw)
  hands w item hitem := hlog ▸ h.hands w item hitem
  returned item hitem := hlog ▸ h.returned item hitem
  acked := h.acked
  lease := h.lease

/-- The server serves a request that is an event of the log. -/
theorem Inv.event (h : f.Inv leaseSeconds stream log created)
    {e : Streams.Event String String String}
    (hstep : Streams.Step (log f.redis) e (log s)) (hcreated : created f.redis → created s)
    (hacked : ∀ id, e = .acked id → ∃ item ∈ f.returned, item.receipt = some id)
    (hlease : ∀ consumer taken now minIdle, e = .claimed consumer taken now minIdle →
      minIdle = leaseSeconds * 1000) :
    ({ f with redis := s, history := f.history ++ [e] } : Fleet S).Inv leaseSeconds stream
      log created where
  reached := h.reached.concat hstep
  streams := h.streams
  ready w hw := hcreated (h.ready w hw)
  hands w item hitem := (h.hands w item hitem).mono (hstep.handed_subset h.reached.sound.read_le)
  returned item hitem := (h.returned item hitem).mono (hstep.handed_subset h.reached.sound.read_le)
  acked before id after hhistory := by
    rcases Streams.concat_eq_append_cons hhistory with ⟨rfl, rfl, -⟩ | ⟨rest, rfl, hbefore⟩
    · obtain ⟨item, hitem, hreceipt⟩ := hacked id rfl
      obtain ⟨id', hid', hmem⟩ := h.returned item hitem
      rw [hreceipt] at hid'
      obtain rfl := Option.some.inj hid'
      rw [h.reached.sound.handed]
      exact ⟨List.mem_map_of_mem hmem, item, hitem, hreceipt⟩
    · exact h.acked before id rest hbefore
  lease consumer taken now minIdle hmem := by
    rcases List.mem_append.mp hmem with hmem | hmem
    · exact h.lease consumer taken now minIdle hmem
    · exact hlease consumer taken now minIdle (List.mem_singleton.mp hmem).symm

/-- An `execute` returned. -/
theorem Inv.executed (h : f.Inv leaseSeconds stream log created) {item : QueuedTask}
    (hitem : Stands (log f.redis) item) :
    ({ f with returned := f.returned ++ [item] } : Fleet S).Inv leaseSeconds stream
      log created where
  reached := h.reached
  streams := h.streams
  ready := h.ready
  hands := h.hands
  returned item' hitem' := by
    rcases List.mem_append.mp hitem' with hitem' | hitem'
    · exact h.returned item' hitem'
    · exact (List.mem_singleton.mp hitem') ▸ hitem
  acked before id after hhistory := by
    obtain ⟨hid, item', hmem, hreceipt⟩ := h.acked before id after hhistory
    exact ⟨hid, item', List.mem_append_left _ hmem, hreceipt⟩
  lease := h.lease

/-- An item that was executed is acknowledged. -/
theorem Inv.ack (h : f.Inv leaseSeconds stream log created)
    (hlawful : redis.Lawful stream log created) {item : QueuedTask} (hitem : item ∈ f.returned) :
    (f.ack redis w item).Inv leaseSeconds stream log created := by
  rw [Fleet.ack, RedisTaskQueue.ack, acknowledges]
  cases hreceipt : item.receipt with
  | none => simpa using h
  | some id =>
    by_cases hid : id = ""
    · simpa [hid] using h
    · obtain ⟨hstep, hcreated⟩ := hlawful.ack f.redis id
      simp only [hid, if_false, h.streams w]
      refine h.event hstep hcreated (fun id' heq => ⟨item, hitem, ?_⟩) (by simp)
      rw [hreceipt, Streams.Event.acked.inj heq]

/-- What comes in with reclaimed messages. -/
theorem receipt_reclaimed {taken : List (String × String)} {item : QueuedTask}
    (hitem : item ∈ settings.reclaimed (taken.map fun e => (e.1, some e.2))) :
    ∃ id, item.receipt = some id ∧ (id, item.taskId) ∈ taken := by
  rw [WorkerSettings.reclaimed] at hitem
  split at hitem
  · obtain ⟨entry, hentry, hsome⟩ := List.mem_filterMap.mp hitem
    obtain ⟨e, he, rfl⟩ := List.mem_map.mp hentry
    simp only at hsome
    split at hsome
    · cases hsome
    · obtain rfl := Option.some.inj hsome
      exact ⟨e.1, rfl, he⟩
  · simp at hitem

/-- **Every action keeps it.** -/
theorem Inv.step (hlawful : redis.Lawful stream log created)
    (h : f.Inv leaseSeconds stream log created)
    (a : FleetAction) : (f.step redis settings leaseSeconds a).Inv leaseSeconds stream
      log created := by
  cases a with
  | ensureGroup w =>
    obtain ⟨hlog, hready, hcreated⟩ :=
      RedisTaskQueue.ensureGroup_spec (q := f.queues w) (s := f.redis)
      (by rw [h.streams w]; exact hlawful) (h.ready w)
    have hserved := h.served hlog hcreated
    refine ⟨hserved.reached, fun w' => ?_, fun w' hw' => ?_, hserved.hands,
      hserved.returned, hserved.acked, hserved.lease⟩
    · by_cases hw : w' = w
      · subst hw
        simp [Fleet.step, h.streams]
      · simp [Fleet.step, Function.update_of_ne hw, h.streams]
    · by_cases hw : w' = w
      · subst hw
        exact hready (by simpa [Fleet.step] using hw')
      · exact hserved.ready w' (by simpa [Fleet.step, Function.update_of_ne hw] using hw')
  | publish w taskId =>
    rw [Fleet.step]
    split
    · obtain ⟨hstep, hcreated⟩ := hlawful.add f.redis taskId
      rw [RedisTaskQueue.publish, h.streams w]
      exact h.event hstep hcreated (by simp) (by simp)
    · exact h
  | receive w now =>
    rw [Fleet.step]
    split
    · rename_i hready
      obtain ⟨hcreated, hnone, hsome⟩ := RedisTaskQueue.receive_spec (q := f.queues w)
        (by rw [h.streams w]; exact hlawful) (h.ready w hready) now
      rcases hreceive : (f.queues w).receive redis f.redis now with ⟨item?, s⟩
      rw [hreceive] at hcreated hnone hsome
      cases item? with
      | none => exact h.served (hnone rfl) fun _ => hcreated
      | some item =>
        obtain ⟨id, hitem, hstep⟩ := hsome item rfl
        have hevent := h.event hstep (fun _ => hcreated) (by simp) (by simp)
        have hhanded : Stands (log s) item := by
          refine ⟨id, by rw [hitem], ?_⟩
          rw [← hevent.reached.sound.handed]
          simp [Streams.Event.handed?]
        have hhistory : handsOut (f.queues w).consumerName now item =
            [.handed (f.queues w).consumerName id item.taskId now] := by
          rw [hitem]
          rfl
        simp only [hhistory]
        refine hevent.consume fun item' hitem' => ?_
        rw [List.mem_singleton.mp hitem']
        exact hhanded
    · exact h
  | acquire w i => exact h.consume (by simp [ConsumerAction.incoming])
  | begin w i => exact h.consume (by simp [ConsumerAction.incoming])
  | finish w i calls served =>
    rw [Fleet.step]
    split
    · exact h
    · rename_i handling hhandling
      have hitem : Stands (log f.redis) handling.item := by
        refine h.hands w _ (Consumer.mem_items.mpr (.inr (.inr (.inl ⟨handling, ?_, rfl⟩))))
        exact List.mem_of_getElem? hhandling
      have hconsumed : (f.consume settings w (.finish i calls)).Inv leaseSeconds
          stream log created :=
        h.consume (by simp [ConsumerAction.incoming])
      dsimp only
      split
      · have hreturned := hconsumed.executed hitem
        split
        · exact hreturned.ack hlawful (List.mem_append_right _ (List.mem_singleton.mpr rfl))
        · exact hreturned
      · exact hconsumed
  | sweep w now =>
    rw [Fleet.step]
    split
    · rename_i hready
      obtain ⟨hcreated, taken, htaken, hstep⟩ := RedisTaskQueue.reclaimStale_spec (q := f.queues w)
        (by rw [h.streams w]; exact hlawful) (h.ready w hready) now (leaseSeconds * 1000)
      have hevent := h.event hstep (fun _ => hcreated) (by simp) fun _ _ _ _ heq => by
        cases heq; rfl
      have hentries : (taken.map fun e => (e.1, some e.2)).map (fun e => (e.1, e.2.getD ""))
          = taken := by
        rw [List.map_map]
        exact List.map_id' taken
      simp only [htaken, hentries]
      refine hevent.consume fun item hitem => ?_
      obtain ⟨id, hreceipt, hmem⟩ := receipt_reclaimed hitem
      refine ⟨id, hreceipt, ?_⟩
      have hspaced := (hevent.reached.sound.spaced f.history _ taken now _ [] rfl _ hmem).1
      rw [h.reached.sound.handed] at hspaced
      exact hstep.handed_subset h.reached.sound.read_le hspaced
    · exact h
  | handleReclaimed w i => exact h.consume (by simp [ConsumerAction.incoming])

/-! ### At least once -/

/-- **Every message is handled at least once.**  `l` is the stream. -/
structure AtLeastOnce (redis : RedisStreams S) (leaseSeconds : ℕ)
    (l : Streams.Log String String String) (f : Fleet S) : Prop where
  /-- New messages are handed out each once, in the order they were published. -/
  in_order : f.history.filterMap Streams.Event.handed?
    = (f.history.filterMap Streams.Event.added?).take l.read
  /-- What a worker handles is a message that was handed out, with its own task. -/
  right_task : ∀ w, ∀ item ∈ (f.workers w).items ++ f.returned,
    ∃ id, item.receipt = some id ∧ (id, item.taskId) ∈ f.history.filterMap Streams.Event.handed?
  /-- A message is unread, or pending, or was executed to the end. -/
  nothing_lost : ∀ e ∈ f.history.filterMap Streams.Event.added?,
    e ∈ l.entries.drop l.read ∨ e.1 ∈ l.pendingIds ∨
      ∃ item ∈ f.returned, item.receipt = some e.1 ∧ item.taskId = e.2
  /-- A message is handed out again when nobody was handed it for the lease. -/
  redelivered : ∀ before consumer taken now minIdle after,
    f.history = before ++ .claimed consumer taken now minIdle :: after →
      ∀ e ∈ taken, ∃ t, Streams.lastDelivery before e.1 = some t ∧ t + leaseSeconds * 1000 ≤ now
  /-- A message is acknowledged once it was executed, and not handed out again. -/
  final : ∀ before id after, f.history = before ++ .acked id :: after →
    (∃ item ∈ f.returned, item.receipt = some id) ∧ ∀ e ∈ after, e.delivery? id = none
  /-- A queue's depth is the number of messages nobody was handed. -/
  depth : ∀ w, (f.queues w).groupReady →
    (f.queues w).depth redis f.redis = (l.entries.drop l.read).length

theorem Inv.atLeastOnce (hlawful : redis.Lawful stream log created)
    (h : f.Inv leaseSeconds stream log created) :
    f.AtLeastOnce redis leaseSeconds (log f.redis) where
  in_order := by
    rw [h.reached.sound.handed, h.reached.sound.added]
    rfl
  right_task w item hitem := by
    rw [h.reached.sound.handed]
    exact (List.mem_append.mp hitem).elim (h.hands w item) (h.returned item)
  nothing_lost e he := by
    have hsound := h.reached.sound
    rw [hsound.added] at he
    by_cases hread : e ∈ (log f.redis).handed
    · refine .inr ?_
      by_cases hpending : e.1 ∈ (log f.redis).pendingIds
      · exact .inl hpending
      · have hacked := hsound.settled e.1 ⟨List.mem_map_of_mem hread, hpending⟩
        obtain ⟨before, after, hhistory⟩ := List.append_of_mem hacked
        obtain ⟨-, item, hitem, hreceipt⟩ := h.acked before e.1 after hhistory
        obtain ⟨id, hid, hmem⟩ := h.returned item hitem
        rw [hreceipt] at hid
        obtain rfl := Option.some.inj hid
        have hsame := List.inj_on_of_nodup_map hsound.ids_nodup (List.mem_of_mem_take hmem) he rfl
        exact .inr ⟨item, hitem, hreceipt, congrArg Prod.snd hsame⟩
    · rw [← List.take_append_drop (log f.redis).read (log f.redis).entries, List.mem_append] at he
      exact .inl (he.resolve_left hread)
  redelivered before consumer taken now minIdle after hhistory e he := by
    have hmem : .claimed consumer taken now minIdle ∈ f.history := by rw [hhistory]; simp
    rw [← h.lease consumer taken now minIdle hmem]
    exact (h.reached.sound.spaced before consumer taken now minIdle after hhistory e he).2
  final before id after hhistory := by
    obtain ⟨hid, hreturned⟩ := h.acked before id after hhistory
    exact ⟨hreturned, (h.reached.sound.final before id after hhistory hid).2⟩
  depth w hready := by
    rw [RedisTaskQueue.depth_eq (by rw [h.streams w]; exact hlawful) (h.ready w hready),
      List.length_drop]

/-- **At least once, in every state of every run.** -/
theorem fleet_atLeastOnce (hlawful : redis.Lawful stream log created) (hempty : log s = .empty)
    {queues : ℕ → RedisTaskQueue} (hqueues : ∀ w, (queues w).stream = stream ∧
      (queues w).groupReady = false)
    (actions : List FleetAction) :
    (Runs.run (step redis settings leaseSeconds) ⟨s, queues, fun _ => settings.consumer, [], []⟩
      actions).AtLeastOnce redis leaseSeconds
        (log (Runs.run (step redis settings leaseSeconds) ⟨s, queues, fun _ =>
          settings.consumer, [], []⟩
          actions).redis) := by
  refine Inv.atLeastOnce hlawful (Runs.run_invariant (P := Inv leaseSeconds stream log created)
    (fun f a h => h.step hlawful a) ?_ actions)
  exact {
    reached := by rw [hempty]; exact .empty
    streams := fun w => (hqueues w).1
    ready := fun w hw => by simp [(hqueues w).2] at hw
    hands := fun w item hitem => by simp [Consumer.items, Consumer.inHands,
      WorkerSettings.consumer] at hitem
    returned := by simp
    acked := by simp
    lease := by simp }

/-! ### A server that does as documented -/

/-- An id longer than all the others together. -/
def freshId (ids : List String) : String := String.ofList ('0' :: ids.flatMap String.toList)

theorem freshId_notMem (ids : List String) : freshId ids ∉ ids := by
  intro hmem
  have hsublist : List.Sublist (freshId ids).toList (ids.map String.toList).flatten :=
    List.sublist_flatten_of_mem (List.mem_map_of_mem hmem)
  have hlength := hsublist.length_le
  rw [freshId, String.toList_ofList, ← List.flatMap_def, List.length_cons] at hlength
  omega

/-- The commands on one stream; the flag says that the group exists. -/
def streamServer : RedisStreams (Bool × Streams.Log String String String) where
  xgroupCreate s _ _ _ := if s.1 then (.busyGroup, s) else (.ok, (true, s.2))
  xadd s _ taskId :=
    let id := freshId (s.2.entries.map (·.1))
    (id, (s.1, { s.2 with entries := s.2.entries ++ [(id, taskId)] }))
  xreadgroup s now _ consumer _ :=
    match s.2.entries[s.2.read]? with
    | none => (none, s)
    | some (id, taskId) =>
      (some (id, taskId),
        (s.1, { s.2 with read := s.2.read + 1, pending := s.2.pending ++ [⟨id, consumer, now⟩] }))
  xack s _ _ id := (s.1, { s.2 with pending := s.2.pending.filter (·.id ≠ id) })
  xautoclaim s now _ _ consumer minIdle count :=
    let idle := ((s.2.pending.take (count * 10)).filter fun p => p.since + minIdle ≤ now).take count
    let taken := s.2.entries.filter fun e => (idle.map (·.id)).contains e.1
    (some (taken.map fun e => (e.1, some e.2)), (s.1, s.2.reown (taken.map (·.1)) consumer now))
  xinfoGroups s _ := some [(consumerGroup, some (s.2.entries.length - s.2.read))]

theorem lawful_streamServer (stream : String) :
    streamServer.Lawful stream (fun s => s.2) fun s => s.1 = true where
  create s := by
    obtain ⟨exists?, l⟩ := s
    cases exists? <;> simp [streamServer]
  add s taskId := ⟨.added (freshId_notMem _), id⟩
  read s now consumer reply s' hs hreply := by
    simp only [streamServer] at hreply
    split at hreply
    · obtain ⟨rfl, rfl⟩ := Prod.mk.inj hreply
      exact ⟨hs, fun _ => rfl, by simp⟩
    · rename_i id taskId hnext
      obtain ⟨rfl, rfl⟩ := Prod.mk.inj hreply
      refine ⟨hs, by simp, fun id' taskId' heq => ?_⟩
      obtain ⟨rfl, rfl⟩ := Prod.mk.inj (Option.some.inj heq)
      exact .handed hnext
  ack s id := ⟨.acked, fun hs => hs⟩
  claim s now consumer minIdle count reply s' hs hreply := by
    simp only [streamServer] at hreply
    obtain ⟨rfl, rfl⟩ := Prod.mk.inj hreply
    refine ⟨hs, by simp, fun entries heq => ⟨_, (Option.some.inj heq).symm,
      .claimed fun e he => ?_⟩⟩
    obtain ⟨hentry, hidle⟩ := List.mem_filter.mp he
    obtain ⟨p, hp, hpe⟩ := List.mem_map.mp (List.contains_iff_mem.mp hidle)
    obtain ⟨hpending, hlong⟩ := List.mem_filter.mp (List.mem_of_mem_take hp)
    exact ⟨hentry, p, List.mem_of_mem_take hpending, hpe, by simpa using hlong⟩
  lag s _ := ⟨_, rfl, by simp⟩

/-- A worker is handed a task and dies; when the lease is over another takes the message over and
handles it. -/
def takenOver : List FleetAction :=
  [.ensureGroup 0, .publish 0 "TASK-1", .receive 0 0, .ensureGroup 1, .sweep 1 60000,
    .handleReclaimed 1 0, .finish 1 0 ⟨.returned, .returned, .returned⟩ true]

theorem fleet_atLeastOnce_takenOver :
    (Runs.run (step streamServer ⟨1, true⟩ 60) ⟨(false, .empty), fun w =>
      ⟨"agent:tasks", toString w, false⟩, fun _ => WorkerSettings.consumer ⟨1, true⟩, [],
      []⟩ takenOver).AtLeastOnce streamServer 60
      (Runs.run (step streamServer ⟨1, true⟩ 60) ⟨(false, .empty), fun w =>
        ⟨"agent:tasks", toString w, false⟩, fun _ => WorkerSettings.consumer ⟨1, true⟩, [],
        []⟩ takenOver).redis.2 :=
  fleet_atLeastOnce (lawful_streamServer "agent:tasks") rfl (fun _ => ⟨rfl, rfl⟩) takenOver

end Fleet

/-! ## One process -/

/-- The queue and the worker of a single process. -/
structure LocalProcess where
  queue : MemoryTaskQueue
  worker : Consumer
  /-- What was put into the queue, and what was received from it. -/
  puts : List String
  received : List String
  published : List String
  /-- The tasks whose `execute` returned, and those whose `_handle` was cancelled. -/
  returned : List String
  cancelled : List String

/-- One thing that happens in the process. -/
inductive LocalAction where
  | publish (taskId : String)
  | receive
  | acquire (i : ℕ)
  | begin (i : ℕ)
  /-- `ack` and `nack` have nothing to wait for. -/
  | finish (i : ℕ) (execute : Awaited)

namespace LocalProcess

variable (settings : WorkerSettings) (p : LocalProcess)

/-- A process that has just begun. -/
def start : LocalProcess := ⟨.empty, settings.consumer, [], [], [], [], []⟩

/-- One step; what cannot happen leaves the process as it is. -/
def step : LocalAction → LocalProcess
  | .publish taskId =>
    { p with
      queue := p.queue.publish taskId, puts := p.puts ++ [taskId], published :=
        p.published ++ [taskId] }
  | .receive =>
    match p.queue.receive with
    | (none, queue) => { p with queue := queue }
    | (some item, queue) =>
      { p with
        queue := queue, received := p.received ++ [item.taskId]
        worker := p.worker.step settings (.deliver item) }
  | .acquire i => { p with worker := p.worker.step settings (.acquire i) }
  | .begin i => { p with worker := p.worker.step settings (.begin i) }
  | .finish i execute =>
    match p.worker.handling[i]? with
    | none => p
    | some h =>
      let p :=
        { p with worker := p.worker.step settings (.finish i ⟨execute, .returned, .returned⟩) }
      match execute with
      | .returned => { p with queue := p.queue.ack h.item, returned := p.returned
        ++ [h.item.taskId] }
      | .raised => { p with queue := p.queue.nack h.item, puts := p.puts ++ [h.item.taskId] }
      | .cancelled => { p with cancelled := p.cancelled ++ [h.item.taskId] }

/-- How often a task is in the worker's hands. -/
def inHands (taskId : String) : ℕ := p.worker.inHands.countP (·.taskId = taskId)

/-- **Nothing is lost and nothing is made up.** -/
structure Conserves : Prop where
  /-- First in, first out. -/
  fifo : p.received ++ p.queue.queue = p.puts
  conserved : ∀ taskId, p.published.count taskId =
    p.queue.queue.count taskId + p.inHands taskId + p.returned.count taskId
    + p.cancelled.count taskId

variable {settings p}

/-- An item goes from one list to another. -/
theorem countP_move {α : Type*} {xs : List α} {i : ℕ} {x : α} (ys : List α) (q : α → Bool)
    (h : xs[i]? = some x) :
    (xs.eraseIdx i).countP q + (ys ++ [x]).countP q = xs.countP q + ys.countP q := by
  have hcount := Consumer.countP_eraseIdx_add q h
  rw [List.countP_append, List.countP_singleton]
  omega

/-- Between two lists of a worker nothing is lost. -/
theorem inHands_step (settings : WorkerSettings) {c : Consumer} (taskId : String)
    {a : ConsumerAction} (ha : (∃ i, a = .acquire i) ∨ ∃ i, a = .begin i) :
    (c.step settings a).inHands.countP (·.taskId = taskId)
      = c.inHands.countP (·.taskId = taskId) := by
  rcases ha with ⟨i, rfl⟩ | ⟨i, rfl⟩
  · rw [Consumer.step]
    split
    · rename_i item hi
      split_ifs
      · rfl
      · have hmove := countP_move c.acquired (fun item : QueuedTask =>
          decide (item.taskId = taskId)) hi
        simp only [Consumer.inHands, List.countP_append] at hmove ⊢
        omega
    · rfl
  · rw [Consumer.step]
    split
    · rename_i item hi
      have hmove := countP_move (c.handling.map (·.item))
        (fun item : QueuedTask => decide (item.taskId = taskId)) hi
      simp only [Consumer.inHands, List.countP_append, List.map_append, List.map_cons, List.map_nil]
        at hmove ⊢
      omega
    · rfl

/-- The end of a `_handle` lets one item go. -/
theorem inHands_finish (settings : WorkerSettings) {c : Consumer} (taskId : String)
    {i : ℕ} {h : Handling} (hi : c.handling[i]? = some h) (calls : HandleCalls) :
    (c.step settings (.finish i calls)).inHands.countP (·.taskId = taskId) +
      (if h.item.taskId = taskId then 1 else 0) = c.inHands.countP (·.taskId = taskId) := by
  have hcount := Consumer.countP_eraseIdx_add (fun h : Handling =>
    decide (h.item.taskId = taskId)) hi
  have hinHands : (c.step settings (.finish i calls)).inHands =
      c.waiting ++ c.acquired ++ (c.handling.eraseIdx i).map (·.item) := by
    rw [Consumer.step, hi]
    simp only [Consumer.conclude]
    split <;> rfl
  rw [hinHands]
  simp only [Consumer.inHands, List.countP_append, List.countP_map, Function.comp_def,
    decide_eq_true_eq]
    at hcount ⊢
  omega

theorem Conserves.step (h : p.Conserves) (a : LocalAction) : (p.step settings a).Conserves := by
  cases a with
  | publish taskId =>
    refine ⟨?_, fun taskId' => ?_⟩
    · simp only [LocalProcess.step, MemoryTaskQueue.publish, ← List.append_assoc, h.fifo]
    · have hcount := h.conserved taskId'
      simp only [LocalProcess.step, MemoryTaskQueue.publish, inHands, List.count_append] at hcount ⊢
      omega
  | receive =>
    obtain ⟨⟨queue, inFlight⟩, worker, puts, received, published, returned, cancelled⟩ := p
    cases queue with
    | nil => exact h
    | cons taskId rest =>
      refine ⟨?_, fun taskId' => ?_⟩
      · have hfifo := h.fifo
        simpa [LocalProcess.step, MemoryTaskQueue.receive] using hfifo
      · have hcount := h.conserved taskId'
        simp only [LocalProcess.step, MemoryTaskQueue.receive, inHands, Consumer.step,
          Consumer.inHands, List.countP_append, List.countP_singleton, List.count_cons, beq_iff_eq,
          decide_eq_true_eq] at hcount ⊢
        omega
  | acquire i =>
    refine ⟨h.fifo, fun taskId => ?_⟩
    have hcount := h.conserved taskId
    rw [inHands, ← inHands_step settings taskId (.inl ⟨i, rfl⟩)] at hcount
    exact hcount
  | begin i =>
    refine ⟨h.fifo, fun taskId => ?_⟩
    have hcount := h.conserved taskId
    rw [inHands, ← inHands_step settings taskId (.inr ⟨i, rfl⟩)] at hcount
    exact hcount
  | finish i execute =>
    rw [LocalProcess.step]
    split
    · exact h
    · rename_i handling hi
      have hfinish := fun taskId =>
        inHands_finish settings taskId hi ⟨execute, .returned, .returned⟩
      dsimp only
      split
      · refine ⟨h.fifo, fun taskId => ?_⟩
        have hcount := h.conserved taskId
        have hhands := hfinish taskId
        simp only [inHands, MemoryTaskQueue.ack, List.count_append, List.count_singleton,
          beq_iff_eq] at hcount ⊢
        omega
      · refine ⟨?_, fun taskId => ?_⟩
        · simp only [MemoryTaskQueue.nack, MemoryTaskQueue.ack,
            MemoryTaskQueue.publish, ← List.append_assoc, h.fifo]
        · have hcount := h.conserved taskId
          have hhands := hfinish taskId
          simp only [inHands, MemoryTaskQueue.nack, MemoryTaskQueue.ack, MemoryTaskQueue.publish,
            List.count_append, List.count_singleton, beq_iff_eq] at hcount ⊢
          omega
      · refine ⟨h.fifo, fun taskId => ?_⟩
        have hcount := h.conserved taskId
        have hhands := hfinish taskId
        simp only [inHands, List.count_append, List.count_singleton, beq_iff_eq] at hcount ⊢
        omega

/-- **The in-process queue conserves its tasks**, in every state of every run. -/
theorem localProcess_conserves (settings : WorkerSettings) (actions : List LocalAction) :
    (Runs.run (step settings) (start settings) actions).Conserves :=
  Runs.run_invariant (fun _ a h => h.step a) ⟨rfl, fun _ => rfl⟩ actions

end LocalProcess

end AgentPlatform
