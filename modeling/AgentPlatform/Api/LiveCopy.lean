import AgentPlatform.Machinery.Text
import AgentPlatform.Persistence.Events

/-!
# Api/LiveCopy — the event on the bus, and the row it was made from

An event is built twice: `EventRepository.append` makes a row, and `WorkflowContext.emit` or
`TaskService._publish` then makes an `Event` from the same type and payload and the row's number.
Both draw an id of their own from `event_id`.  `emit` has committed the row when it publishes; a
request publishes each of its events before its one commit, and anything it does afterwards may
still fail.

* `delivered_has_no_row` — no event that was delivered has a committed row with its id.
* `agrees_iff_committed` — but for the id, it has one exactly if the transaction it was published
  from is committed, as a worker's always is.
-/

namespace AgentPlatform

namespace LiveCopy

/-- The fields a row of `task_events` and an `Event` share. -/
structure EventRecord where
  id : String
  taskId : String
  type : EventType
  sequence : ℕ
  /-- The payload, as JSON. -/
  payload : String
  deriving DecidableEq

/-- The same but for the id. -/
def EventRecord.Agrees (e row : EventRecord) : Prop :=
  row.taskId = e.taskId ∧ row.type = e.type ∧ row.sequence = e.sequence ∧ row.payload = e.payload

inductive SenderPhase where
  | running | committed | rolledBack
  deriving DecidableEq

/-- One call of `emit`, or one request with its session. -/
structure Sender where
  writer : Writer
  taskId : String
  phase : SenderPhase
  /-- The rows it has inserted. -/
  rows : List EventRecord
  /-- The row that is to be published next. -/
  unpublished : Option EventRecord
  deriving DecidableEq

/-- An event on the bus, and the sender it came from. -/
structure Delivery where
  sender : ℕ
  event : EventRecord
  deriving DecidableEq

/-- A committed row, and the sender it came from. -/
structure Committed where
  sender : ℕ
  row : EventRecord
  deriving DecidableEq

/-- The database, the bus and those who write to them; `drawn` counts the calls of `event_id`. -/
structure Board where
  committed : List Committed
  delivered : List Delivery
  senders : List Sender
  drawn : ℕ
  deriving DecidableEq

inductive SendAction where
  | begin (writer : Writer) (taskId : String)
  /-- `EventRepository.append`, with the number its `SELECT` answered. -/
  | append (i : ℕ) (type : EventType) (payload : String) (sequence : ℕ)
  /-- `events.publish` hands the event to the bus. -/
  | publish (i : ℕ)
  | commit (i : ℕ)
  /-- A call of the sender raises, or its commit does. -/
  | fail (i : ℕ)
  deriving DecidableEq

namespace Sender

variable (x : Sender)

/-- `emit` appends one event, a request any number, each after the one before is published. -/
def mayAppend : Bool := x.phase = .running && x.unpublished.isNone
      && (x.writer = .api || x.rows.isEmpty)

/-- `emit` publishes after its session is committed, a request before. -/
def mayPublish : Bool :=
  match x.writer with
  | .worker => x.phase = .committed
  | .api => x.phase = .running

/-- `emit` commits before it publishes, a request after. -/
def mayCommit : Bool := x.phase = .running && (x.writer = .worker || x.unpublished.isNone)

/-- An exception: what is not committed is rolled back. -/
def fail : Sender :=
  { x with phase := if x.phase = .running then .rolledBack else x.phase, unpublished := none }

end Sender

namespace Board

/-- Nothing sent yet. -/
def empty : Board := ⟨[], [], [], 0⟩

/-- **One step of one sender.** -/
def step (eventId : ℕ → String) (s : Board) : SendAction → Board
  | .begin writer taskId => { s with senders := s.senders
    ++ [⟨writer, taskId, .running, [], none⟩] }
  | .append i type payload sequence =>
    match s.senders[i]? with
    | some x =>
      if x.mayAppend then
        let row : EventRecord := ⟨eventId s.drawn, x.taskId, type, sequence, payload⟩
        { s with
          senders := s.senders.set i { x with rows := x.rows ++ [row], unpublished := some row }
          drawn := s.drawn + 1 }
      else s
    | none => s
  | .publish i =>
    match s.senders[i]? with
    | some x =>
      match x.unpublished with
      | some row =>
        if x.mayPublish then
          let event : EventRecord := ⟨eventId s.drawn, x.taskId, row.type,
            row.sequence, row.payload⟩
          { s with
            delivered := s.delivered ++ [⟨i, event⟩]
            senders := s.senders.set i { x with unpublished := none }
            drawn := s.drawn + 1 }
        else s
      | none => s
    | none => s
  | .commit i =>
    match s.senders[i]? with
    | some x =>
      if x.mayCommit then
        { s with
          committed := s.committed ++ x.rows.map fun row => ⟨i, row⟩
          senders := s.senders.set i { x with phase := .committed } }
      else s
    | none => s
  | .fail i =>
    match s.senders[i]? with
    | some x => { s with senders := s.senders.set i x.fail }
    | none => s

/-- The event has a committed row with the same id, type, sequence and payload. -/
def HasRow (s : Board) (e : EventRecord) : Prop :=
  ∃ c ∈ s.committed, c.row.id = e.id ∧ c.row.type = e.type ∧ c.row.sequence = e.sequence ∧
    c.row.payload = e.payload

instance (s : Board) (e : EventRecord) : Decidable (s.HasRow e) :=
  inferInstanceAs (Decidable (∃ c ∈ s.committed, _))

/-- **The live copy of every event is the durable one.** -/
def LiveIsDurable (s : Board) : Prop := ∀ d ∈ s.delivered, s.HasRow d.event

instance (s : Board) : Decidable s.LiveIsDurable :=
  inferInstanceAs (Decidable (∀ d ∈ s.delivered, _))

/-! ## The invariant -/

/-- What a sender's rows and phase owe to the board. -/
structure Kept (s : Board) (i : ℕ) (x : Sender) : Prop where
  /-- The next event is made from a row. -/
  unpublished : ∀ row ∈ x.unpublished, row ∈ x.rows
  tasks : ∀ row ∈ x.rows, row.taskId = x.taskId
  /-- Its rows are committed with it, all of them. -/
  committed : x.phase = .committed → ∀ row ∈ x.rows, ⟨i, row⟩ ∈ s.committed
  uncommitted : x.phase ≠ .committed → ∀ c ∈ s.committed, c.sender ≠ i

/-- **The invariant.** -/
structure Consistent (eventId : ℕ → String) (s : Board) : Prop where
  kept : ∀ i x, s.senders[i]? = some x → s.Kept i x
  /-- Ids are drawn, for a row or for an event. -/
  rows : ∀ x ∈ s.senders, ∀ row ∈ x.rows, (∃ k < s.drawn, row.id = eventId k) ∧
    ∀ d ∈ s.delivered, d.event.id ≠ row.id
  events : ∀ d ∈ s.delivered, ∃ k < s.drawn, d.event.id = eventId k
  /-- Committed rows are rows of their sender. -/
  origins : ∀ c ∈ s.committed, ∃ x, s.senders[c.sender]? = some x ∧ c.row ∈ x.rows
  /-- An event was made from a row of its sender, and a worker's is committed. -/
  sources : ∀ d ∈ s.delivered, ∃ x, s.senders[d.sender]? = some x ∧
    (∃ row ∈ x.rows, d.event.Agrees row) ∧ (x.writer = .worker → x.phase = .committed)

section Steps

variable {eventId : ℕ → String} {s : Board} {i : ℕ} {x : Sender}

theorem Kept.of_eq {s' : Board} (h : s.Kept i x)
    (hcommitted : s'.committed = s.committed) : s'.Kept i x :=
  ⟨h.unpublished, h.tasks, hcommitted ▸ h.committed, hcommitted ▸ h.uncommitted⟩

theorem Consistent.begin (hs : s.Consistent eventId) (writer : Writer) (taskId : String) :
    (s.step eventId (.begin writer taskId)).Consistent eventId := by
  have hlookup : ∀ {j y}, s.senders[j]? = some y →
      (s.senders ++ [⟨writer, taskId, .running, [], none⟩])[j]? = some y := fun hj => by
    obtain ⟨hlt, -⟩ := List.getElem?_eq_some_iff.mp hj
    rw [List.getElem?_append_left hlt]
    exact hj
  refine ⟨fun j y hj => ?_, Processes.forall_append hs.rows (by simp), hs.events, fun c hc =>
    ?_, fun d hd => ?_⟩
  · by_cases hlt : j < s.senders.length
    · rw [Board.step, List.getElem?_append_left hlt] at hj
      exact (hs.kept j y hj).of_eq rfl
    · rcases Processes.getElem?_append_cases hj with rfl | hold
      · refine ⟨by simp, by simp, by simp, fun _ c hc hsender => ?_⟩
        obtain ⟨y, hy, -⟩ := hs.origins c hc
        obtain ⟨hlt', -⟩ := List.getElem?_eq_some_iff.mp hy
        exact hlt (hsender ▸ hlt')
      · obtain ⟨hlt', -⟩ := List.getElem?_eq_some_iff.mp hold
        exact absurd hlt' hlt
  · obtain ⟨y, hy, hrow⟩ := hs.origins c hc
    exact ⟨y, hlookup hy, hrow⟩
  · obtain ⟨y, hy, hsource⟩ := hs.sources d hd
    exact ⟨y, hlookup hy, hsource⟩

theorem Consistent.append (hs : s.Consistent eventId) (hinj : Function.Injective eventId)
    (hi : s.senders[i]? = some x) (hmay : x.mayAppend = true) (type : EventType) (payload : String)
    (sequence : ℕ) :
    Consistent eventId { s with
      senders := s.senders.set i { x with
        rows := x.rows ++ [⟨eventId s.drawn, x.taskId, type, sequence, payload⟩]
        unpublished := some ⟨eventId s.drawn, x.taskId, type, sequence, payload⟩ }
      drawn := s.drawn + 1 } := by
  have hrunning : x.phase = .running := by
    simp only [Sender.mayAppend, Bool.and_eq_true, decide_eq_true_eq] at hmay
    exact hmay.1.1
  have hold := hs.kept i x hi
  refine ⟨fun j y hj => ?_, ?_, fun d hd => ?_, fun c hc => ?_, fun d hd => ?_⟩
  · rcases Processes.getElem?_set_cases hj with ⟨rfl, rfl⟩ | ⟨-, hj⟩
    · refine ⟨by simp, fun row hrow =>
        ?_, by simp [hrunning], fun _ => hold.uncommitted (by simp [hrunning])⟩
      rcases List.mem_append.mp hrow with hrow | hrow
      · exact hold.tasks row hrow
      · rw [List.mem_singleton.mp hrow]
    · exact (hs.kept j y hj).of_eq rfl
  · have holder : ∀ y ∈ s.senders, ∀ row ∈ y.rows, (∃ k < s.drawn + 1, row.id = eventId k) ∧
        ∀ d ∈ s.delivered, d.event.id ≠ row.id := fun y hy row hrow => by
      obtain ⟨⟨k, hk, hid⟩, hne⟩ := hs.rows y hy row hrow
      exact ⟨⟨k, by omega, hid⟩, hne⟩
    refine Processes.forall_set holder fun row hrow => ?_
    rcases List.mem_append.mp hrow with hrow | hrow
    · exact holder x (List.mem_of_getElem? hi) row hrow
    · rw [List.mem_singleton.mp hrow]
      refine ⟨⟨s.drawn, by simp, rfl⟩, fun d hd hid => ?_⟩
      obtain ⟨k, hk, hdrawn⟩ := hs.events d hd
      exact absurd (hinj (hdrawn.symm.trans hid)) (by omega)
  · obtain ⟨k, hk, hid⟩ := hs.events d hd
    exact ⟨k, by dsimp only; omega, hid⟩
  · exact Processes.exists_set hi (fun hrow => List.mem_append_left _ hrow) (hs.origins c hc)
  · refine Processes.exists_set hi ?_ (hs.sources d hd)
    rintro ⟨⟨row, hrow, hagrees⟩, hworker⟩
    exact ⟨⟨row, List.mem_append_left _ hrow, hagrees⟩, hworker⟩

theorem Consistent.publish (hs : s.Consistent eventId) (hinj : Function.Injective eventId)
    (hi : s.senders[i]? = some x) {row : EventRecord} (hrow : x.unpublished = some row)
    (hmay : x.mayPublish = true) :
    Consistent eventId { s with
      delivered := s.delivered ++
        [⟨i, ⟨eventId s.drawn, x.taskId, row.type, row.sequence, row.payload⟩⟩]
      senders := s.senders.set i { x with unpublished := none }
      drawn := s.drawn + 1 } := by
  have hold := hs.kept i x hi
  have hmem := hold.unpublished row hrow
  refine ⟨fun j y hj => ?_, ?_, fun d hd => ?_, fun c hc => ?_, fun d hd => ?_⟩
  · rcases Processes.getElem?_set_cases hj with ⟨rfl, rfl⟩ | ⟨-, hj⟩
    · exact ⟨by simp, hold.tasks, hold.committed, hold.uncommitted⟩
    · exact (hs.kept j y hj).of_eq rfl
  · have holder : ∀ y ∈ s.senders, ∀ r ∈ y.rows, (∃ k < s.drawn + 1, r.id = eventId k) ∧
        ∀ d ∈ s.delivered ++ [⟨i, ⟨eventId s.drawn, x.taskId, row.type,
          row.sequence, row.payload⟩⟩], d.event.id ≠ r.id := fun y hy r hr => by
      obtain ⟨⟨k, hk, hid⟩, hne⟩ := hs.rows y hy r hr
      refine ⟨⟨k, by omega, hid⟩, fun d hd => ?_⟩
      rcases List.mem_append.mp hd with hd | hd
      · exact hne d hd
      · rw [List.mem_singleton.mp hd]
        exact fun hsame => absurd (hinj (hsame.trans hid)) (by omega)
    exact Processes.forall_set holder (holder x (List.mem_of_getElem? hi))
  · rcases List.mem_append.mp hd with hd | hd
    · obtain ⟨k, hk, hid⟩ := hs.events d hd
      exact ⟨k, by dsimp only; omega, hid⟩
    · rw [List.mem_singleton.mp hd]
      exact ⟨s.drawn, by simp, rfl⟩
  · exact Processes.exists_set hi id (hs.origins c hc)
  · rcases List.mem_append.mp hd with hd | hd
    · exact Processes.exists_set hi id (hs.sources d hd)
    · rw [List.mem_singleton.mp hd]
      obtain ⟨hlt, -⟩ := List.getElem?_eq_some_iff.mp hi
      refine ⟨_, List.getElem?_set_self hlt, ⟨row, hmem, hold.tasks row hmem, rfl, rfl, rfl⟩,
        fun hw => ?_⟩
      have hwriter : x.writer = .worker := hw
      simpa [Sender.mayPublish, hwriter] using hmay

theorem Consistent.commit (hs : s.Consistent eventId) (hi : s.senders[i]? = some x) :
    Consistent eventId { s with
      committed := s.committed ++ x.rows.map fun row => ⟨i, row⟩
      senders := s.senders.set i { x with phase := .committed } } := by
  have hold := hs.kept i x hi
  refine ⟨fun j y hj => ?_, Processes.forall_set hs.rows (hs.rows x (List.mem_of_getElem? hi)),
    hs.events, fun c hc => ?_, fun d hd => ?_⟩
  · rcases Processes.getElem?_set_cases hj with ⟨rfl, rfl⟩ | ⟨hne, hj⟩
    · refine ⟨hold.unpublished, hold.tasks, fun _ row hrow => ?_, by simp⟩
      exact List.mem_append_right _ (List.mem_map_of_mem hrow)
    · have hother := hs.kept j y hj
      refine ⟨hother.unpublished, hother.tasks,
        fun hphase row hrow => List.mem_append_left _ (hother.committed hphase row hrow),
        fun hphase c hc => ?_⟩
      rcases List.mem_append.mp hc with hc | hc
      · exact hother.uncommitted hphase c hc
      · obtain ⟨row, -, rfl⟩ := List.mem_map.mp hc
        exact hne.symm
  · rcases List.mem_append.mp hc with hc | hc
    · exact Processes.exists_set hi id (hs.origins c hc)
    · obtain ⟨row, hrow, rfl⟩ := List.mem_map.mp hc
      obtain ⟨hlt, -⟩ := List.getElem?_eq_some_iff.mp hi
      exact ⟨_, List.getElem?_set_self hlt, hrow⟩
  · refine Processes.exists_set hi ?_ (hs.sources d hd)
    exact fun h => ⟨h.1, fun _ => rfl⟩

theorem Consistent.fail (hs : s.Consistent eventId) (hi : s.senders[i]? = some x) :
    Consistent eventId { s with senders := s.senders.set i x.fail } := by
  have hold := hs.kept i x hi
  have hphase : x.fail.phase = .committed ↔ x.phase = .committed := by
    rcases x with ⟨writer, taskId, phase, rows, unpublished⟩
    cases phase <;> simp [Sender.fail]
  refine ⟨fun j y hj => ?_, Processes.forall_set hs.rows (hs.rows x (List.mem_of_getElem? hi)),
    hs.events, fun c hc => Processes.exists_set hi id (hs.origins c hc), fun d hd => ?_⟩
  · rcases Processes.getElem?_set_cases hj with ⟨rfl, rfl⟩ | ⟨-, hj⟩
    · refine ⟨by simp [Sender.fail], hold.tasks, fun h => hold.committed (hphase.mp h), fun h => ?_⟩
      exact hold.uncommitted fun hx => h (hphase.mpr hx)
    · exact (hs.kept j y hj).of_eq rfl
  · refine Processes.exists_set hi ?_ (hs.sources d hd)
    exact fun h => ⟨h.1, fun hw => hphase.mpr (h.2 hw)⟩

/-- **Every step keeps the board consistent.** -/
theorem Consistent.step (hs : s.Consistent eventId) (hinj : Function.Injective eventId)
    (a : SendAction) : (s.step eventId a).Consistent eventId := by
  cases a with
  | begin writer taskId => exact hs.begin writer taskId
  | append i type payload sequence =>
    rw [Board.step]
    split
    · rename_i x hi
      split_ifs with hmay
      · exact hs.append hinj hi hmay type payload sequence
      · exact hs
    · exact hs
  | publish i =>
    rw [Board.step]
    split
    · rename_i x hi
      split
      · rename_i row hrow
        split_ifs with hmay
        · exact hs.publish hinj hi hrow hmay
        · exact hs
      · exact hs
    · exact hs
  | commit i =>
    rw [Board.step]
    split
    · rename_i x hi
      split_ifs
      · exact hs.commit hi
      · exact hs
    · exact hs
  | fail i =>
    rw [Board.step]
    split
    · rename_i x hi
      exact hs.fail hi
    · exact hs

theorem consistent_empty : empty.Consistent eventId :=
  ⟨by simp [empty], by simp [empty], by simp [empty], by simp [empty], by simp [empty]⟩

theorem consistent_run (hinj : Function.Injective eventId) (as : List SendAction) :
    (Runs.run (Board.step eventId) empty as).Consistent eventId :=
  Runs.run_invariant (fun _ a hs => hs.step hinj a) consistent_empty as

end Steps

/-! ## Live and durable -/

/-- **No event that was delivered has a committed row with its id**, whatever is committed, rolled
back or failed, where `event_id` gives a new id each time. -/
theorem delivered_has_no_row (eventId : ℕ → String) (hinj : Function.Injective eventId)
    (as : List SendAction) :
    ∀ d ∈ (Runs.run (Board.step eventId) empty as).delivered,
      ¬ (Runs.run (Board.step eventId) empty as).HasRow d.event := by
  have hs := consistent_run hinj as
  rintro d hd ⟨c, hc, hid, -⟩
  obtain ⟨x, hx, hrow⟩ := hs.origins c hc
  exact (hs.rows x (List.mem_of_getElem? hx) c.row hrow).2 d hd hid.symm

/-- **But for its id**, an event has a row of its transaction exactly if the transaction is
committed; a worker's is. -/
theorem agrees_iff_committed {eventId : ℕ → String} (hinj : Function.Injective eventId)
    (as : List SendAction) {d : Delivery}
    (hd : d ∈ (Runs.run (Board.step eventId) empty as).delivered) :
    ∃ x, (Runs.run (Board.step eventId) empty as).senders[d.sender]? = some x ∧
      (x.writer = .worker → x.phase = .committed) ∧
      ((∃ c ∈ (Runs.run (Board.step eventId) empty as).committed, c.sender = d.sender ∧
        d.event.Agrees c.row) ↔ x.phase = .committed) := by
  have hs := consistent_run hinj as
  obtain ⟨x, hx, ⟨row, hrow, hagrees⟩, hworker⟩ := hs.sources d hd
  refine ⟨x, hx, hworker, ?_, fun hphase => ?_⟩
  · rintro ⟨c, hc, hsender, -⟩
    by_contra hphase
    exact (hs.kept _ x hx).uncommitted hphase c hc hsender
  · exact ⟨⟨d.sender, row⟩, (hs.kept _ x hx).committed hphase row hrow, rfl, hagrees⟩

/-- Ids in the order they are drawn. -/
def sampleId (n : ℕ) : String := String.ofList ("evt-".toList ++ Nat.toDigits 10 n)

theorem sampleId_injective : Function.Injective sampleId := by
  intro m n h
  have hchars : "evt-".toList ++ Nat.toDigits 10 m = "evt-".toList ++ Nat.toDigits 10 n :=
    String.ofList_injective h
  have hread := congrArg Text.numeral? (List.append_cancel_left hchars)
  rw [Text.numeral?_toDigits, Text.numeral?_toDigits] at hread
  exact Option.some.inj hread

/-- A worker emits an event; then a request creates a task, and fails after it has published. -/
def emitAndFail : List SendAction :=
  [.begin .worker "TASK-1", .append 0 .nodeStarted "node" 1, .commit 0, .publish 0,
    .begin .api "TASK-2", .append 1 .taskCreated "repository" 1, .publish 1, .fail 1]

/-- Both events are on the bus, and neither has its row. -/
theorem delivered_has_no_row_emitAndFail :
    (Runs.run (Board.step sampleId) empty emitAndFail).delivered.length = 2 ∧
      ∀ d ∈ (Runs.run (Board.step sampleId) empty emitAndFail).delivered,
        ¬ (Runs.run (Board.step sampleId) empty emitAndFail).HasRow d.event :=
  ⟨by decide +kernel, delivered_has_no_row sampleId sampleId_injective emitAndFail⟩

/-- **A worker emits an event**: the row and the event differ in their ids. **A request fails after
it has published**: the event has no row at all. -/
theorem emitAndFail_not_liveIsDurable :
    (Runs.run (Board.step sampleId) empty emitAndFail).committed
        = [⟨0, ⟨"evt-0", "TASK-1", .nodeStarted, 1, "node"⟩⟩] ∧
      (Runs.run (Board.step sampleId) empty emitAndFail).delivered
        = [⟨0, ⟨"evt-1", "TASK-1", .nodeStarted, 1, "node"⟩⟩,
          ⟨1, ⟨"evt-3", "TASK-2", .taskCreated, 1, "repository"⟩⟩] ∧
      ¬ (Runs.run (Board.step sampleId) empty emitAndFail).LiveIsDurable := by
  decide +kernel

end Board

end LiveCopy

end AgentPlatform
