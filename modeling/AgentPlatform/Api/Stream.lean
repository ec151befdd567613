import AgentPlatform.Persistence.Events
import Mathlib.Data.List.Sort

/-!
# Api/Stream — a client following the events of a task

`stream_events` replays what is durable, reads the task's status, and only then subscribes to the
bus; a live event at or below the highest number sent is dropped.  A worker publishes an event after
its commit, an API request before.

A durable event falls through in the window before the subscription, behind a live event with a
higher number, or under a number the client is already past; apart from these the client receives
every event exactly once (`exactlyOnce_of_gapless`).
-/

namespace AgentPlatform

/-- Where the client's request stands. -/
inductive Connection where
  /-- No request: before the first one, or between two. -/
  | closed
  /-- The replay query has been answered, the status has not been read. -/
  | queried (rest : List TaskEvent)
  /-- The rest of the replay is to be sent; the task was settled, or not. -/
  | replaying (settled : Bool) (rest : List TaskEvent)
  | live (inbox : List TaskEvent)
  /-- An event that may close the stream was sent, and the status is read next. -/
  | checking (inbox : List TaskEvent)
  /-- `STREAM_END` was sent. -/
  | ended
  deriving DecidableEq, Repr

namespace Connection

/-- What is still to be replayed, between the query and the subscription. -/
def rest : Connection → List TaskEvent
  | queried rest | replaying _ rest => rest
  | _ => []

/-- What the subscription has delivered and the client has not seen. -/
def inbox : Connection → List TaskEvent
  | live inbox | checking inbox => inbox
  | _ => []

/-- The replay has been queried, and nothing is subscribed yet. -/
def unsubscribed : Connection → Bool
  | queried _ | replaying _ _ => true
  | _ => false

/-- A request is being answered. -/
def isUp : Connection → Bool
  | closed | ended => false
  | _ => true

/-- The status is read next, after an event that may close the stream. -/
def isChecking : Connection → Bool
  | checking _ => true
  | _ => false

/-- The bus puts an event in the queue of a subscriber. -/
def push (e : TaskEvent) : Connection → Connection
  | live inbox => live (inbox ++ [e])
  | checking inbox => checking (inbox ++ [e])
  | c => c

end Connection

/-- The log, the events published so far, and the client: the highest number it was sent and the
events it received, oldest first. -/
structure Stream where
  log : EventLog
  published : List TaskEvent
  highest : ℤ
  received : List TaskEvent
  connection : Connection
  deriving DecidableEq, Repr

/-- What happens next. -/
inductive StreamAction where
  | write (a : LogAction)
  | publish (e : TaskEvent)
  /-- A request with `after` the highest number received. -/
  | connect
  /-- `service.get`, and whether the status it answers with is in `SETTLED_STATUSES`. -/
  | readStatus (settled : Bool)
  | subscribe
  /-- The generator goes on to the next event, or to the end of a settled replay. -/
  | deliver
  | disconnect
  deriving DecidableEq, Repr

/-- The types after which the status is read. -/
def EventType.closing : EventType → Bool
  | .taskCompleted | .taskFailed | .taskCancelled | .approvalRequested | .noProgressDetected => true
  | _ => false

namespace Stream

/-- A client about to make its first request. -/
def fresh (after : ℤ) : Stream := ⟨.empty, [], after, [], .closed⟩

/-- An API request publishes each event before it goes on. -/
def mayWrite (s : Stream) : LogAction → Bool
  | .select i | .commit i => (s.log.transactions[i]?).all fun t =>
      t.writer = .worker || t.rows.all (· ∈ s.published)
  | _ => true

/-- A worker publishes what is committed, an API request what it has inserted. -/
def mayPublish (s : Stream) (e : TaskEvent) : Bool :=
  e ∉ s.published && (e ∈ s.log.durable ||
    s.log.transactions.any fun t => t.isOpen && t.writer = .api && e ∈ t.rows)

/-- `EventRepository.list`. -/
def replay (s : Stream) : List TaskEvent :=
  (s.log.durable.filter fun e => s.highest < e.sequence).insertionSort (·.sequence ≤ ·.sequence)

/-- The live loop drops the event. -/
def drops (s : Stream) (e : TaskEvent) : Bool := e.sequence ≠ 0 && (e.sequence : ℤ) ≤ s.highest

/-- The event is sent, and the client has it. -/
def send (s : Stream) (e : TaskEvent) (connection : Connection) : Stream :=
  { s with highest := max s.highest e.sequence, received := s.received
    ++ [e], connection := connection }

/-- The generator's next event. -/
def deliver (s : Stream) : Stream :=
  match s.connection with
  | .replaying settled (e :: rest) => s.send e (.replaying settled rest)
  | .replaying true [] => { s with connection := .ended }
  | .live (e :: inbox) =>
    if s.drops e then { s with connection := .live inbox }
    else s.send e (if e.type.closing then .checking inbox else .live inbox)
  | _ => s

/-- **One step**, until the stream ends. -/
def step (s : Stream) (a : StreamAction) : Stream :=
  if s.connection = .ended then s else
  match a with
  | .write a => if s.mayWrite a then { s with log := s.log.step a } else s
  | .publish e =>
    if s.mayPublish e then
      { s with published := e :: s.published, connection := s.connection.push e } else s
  | .connect => if s.connection = .closed then { s with connection := .queried s.replay } else s
  | .readStatus settled =>
    match s.connection with
    | .queried rest => { s with connection := .replaying settled rest }
    | .checking inbox => { s with connection := if settled then .ended else .live inbox }
    | _ => s
  | .subscribe => if s.connection = .replaying false []
    then { s with connection := .live [] } else s
  | .deliver => s.deliver
  | .disconnect => { s with connection := .closed }

/-- Nothing more is to come: the stream has ended, or the client is subscribed, has read its queue,
and every durable event has been published. -/
def AtRest (s : Stream) : Prop :=
  s.connection = .ended ∨ s.connection = .live [] ∧ ∀ e ∈ s.log.durable, e ∈ s.published

/-- **The client receives every durable event above `after` exactly once**: none twice, none passed
over, and none missing when nothing more is to come. -/
structure ExactlyOnce (after : ℤ) (s : Stream) : Prop where
  once : s.received.Nodup
  passed : ∀ e ∈ s.log.durable, after < e.sequence → (e.sequence : ℤ) ≤ s.highest →
    e ∈ s.received ∨ e ∈ s.connection.rest
  complete : s.AtRest → ∀ e ∈ s.log.durable, after < e.sequence → e ∈ s.received

/-! ## The condition -/

/-- No durable event stands above the client and at or below `n`, apart from `es`. -/
def NoneBelow (s : Stream) (n : ℤ) (es : List TaskEvent) : Prop :=
  ∀ d ∈ s.log.durable, s.highest < d.sequence → (d.sequence : ℤ) ≤ n → d ∈ es

/-- No durable event stands above the client. -/
def NoneAbove (s : Stream) : Prop := ∀ d ∈ s.log.durable, (d.sequence : ℤ) ≤ s.highest

/-- What the generator does next leaves no event behind. -/
def DeliversAll (s : Stream) : Connection → Prop
  | .replaying _ (e :: rest) => s.NoneBelow e.sequence (e :: rest)
  | .replaying true [] => s.NoneAbove
  | .live (e :: _) => s.drops e = false → s.NoneBelow e.sequence [e]
  | _ => True

/-- **The step opens no gap.** -/
def Gapless (after : ℤ) (s : Stream) : StreamAction → Prop
  -- A commit numbers no event at or below the client, unless the client has it.
  | .write (.commit i) => s.mayWrite (.commit i) = true → ∀ t ∈ s.log.transactions[i]?,
      EventLog.mayCommit t = true → ∀ e ∈ t.rows, after < e.sequence →
        e ∈ s.received ∨ s.highest < e.sequence
  -- Before the subscription only events of the replay are published.
  | .publish e => s.mayPublish e = true → s.connection.unsubscribed = true →
      e ∈ s.connection.rest ∨ (e.sequence : ℤ) ≤ s.highest
  -- No event is published and not committed yet when the replay is queried.
  | .connect => s.connection = .closed → ∀ t ∈ s.log.transactions, t.isOpen = true → ∀ e ∈ t.rows,
      e ∈ s.published → (e.sequence : ℤ) ≤ s.highest
  | .deliver => s.DeliversAll s.connection
  -- The stream ends when the client has seen the last number.
  | .readStatus true => s.connection.isChecking = true → s.NoneAbove
  -- No event of the replay shares its number with one already sent when the client is lost.
  | .disconnect => ∀ e ∈ s.connection.rest, s.highest < e.sequence
  | _ => True

instance (s : Stream) (n : ℤ) (es : List TaskEvent) : Decidable (s.NoneBelow n es) :=
  inferInstanceAs (Decidable (∀ d ∈ s.log.durable, _))

instance (s : Stream) : Decidable s.NoneAbove :=
  inferInstanceAs (Decidable (∀ d ∈ s.log.durable, _))

instance (s : Stream) : ∀ c, Decidable (s.DeliversAll c)
  | .replaying _ (_ :: _) => inferInstanceAs (Decidable (s.NoneBelow _ _))
  | .replaying true [] => inferInstanceAs (Decidable s.NoneAbove)
  | .live (_ :: _) => inferInstanceAs (Decidable (_ → s.NoneBelow _ _))
  | .closed | .queried _ | .replaying false [] | .live [] | .checking _ | .ended => isTrue trivial

instance (after : ℤ) (s : Stream) : ∀ a, Decidable (Gapless after s a)
  | .write (.commit _) => inferInstanceAs (Decidable (_ → ∀ t ∈ s.log.transactions[_]?, _))
  | .publish _ => inferInstanceAs (Decidable (_ → _ → _ ∨ _))
  | .connect => inferInstanceAs (Decidable (_ → ∀ t ∈ s.log.transactions, _))
  | .deliver => inferInstanceAs (Decidable (s.DeliversAll s.connection))
  | .readStatus true => inferInstanceAs (Decidable (_ → s.NoneAbove))
  | .disconnect => inferInstanceAs (Decidable (∀ e ∈ s.connection.rest, _))
  | .write (.begin _) | .write (.select _) | .write (.insert _ _) | .write (.rollback _)
  | .readStatus false | .subscribe => isTrue trivial

end Stream

/-! ## What the bus does to a connection -/

namespace Connection

variable {c : Connection} {e d : TaskEvent}

@[simp] theorem rest_push : (c.push e).rest = c.rest := by cases c <;> rfl

theorem mem_inbox_push (h : d ∈ c.inbox) : d ∈ (c.push e).inbox := by
  cases c <;> simp_all [inbox, push]

/-- A publication reaches a subscriber. -/
theorem push_cases (c : Connection) (e : TaskEvent) :
    e ∈ (c.push e).inbox ∨ c.unsubscribed = true ∨ c.isUp = false := by
  cases c <;> simp [inbox, push, unsubscribed, isUp]

theorem mem_inbox_of_push (h : d ∈ (c.push e).inbox) : d ∈ c.inbox ∨ d = e := by
  cases c <;> simp_all [inbox, push]

@[simp] theorem isUp_push : (c.push e).isUp = c.isUp := by cases c <;> rfl

@[simp] theorem push_eq_ended : c.push e = ended ↔ c = ended := by cases c <;> simp [push]

end Connection

namespace Stream

variable {after : ℤ} {s : Stream}

/-! ## The invariant -/

/-- **Every event is on its way**: what is durable has been received, is to be replayed, waits in
the queue or is yet to be published; so is what was published before its commit. -/
structure Covered (after : ℤ) (s : Stream) : Prop where
  sound : s.log.Sound
  fresh : s.log.Fresh
  published_lt : ∀ e ∈ s.published, e.id < s.log.nextId
  positive : ∀ e ∈ s.connection.inbox, 0 < e.sequence
  received_le : ∀ e ∈ s.received, (e.sequence : ℤ) ≤ s.highest
  once : s.received.Nodup
  rest_nodup : s.connection.rest.Nodup
  rest_new : ∀ e ∈ s.connection.rest, e ∉ s.received
  passed : ∀ e ∈ s.log.durable, after < e.sequence → (e.sequence : ℤ) ≤ s.highest →
    e ∈ s.received ∨ e ∈ s.connection.rest
  reached : s.connection.isUp = true → ∀ e ∈ s.log.durable, after < e.sequence →
    e ∈ s.received ∨ e ∈ s.connection.rest ∨ e ∈ s.connection.inbox ∨ e ∉ s.published
  uncommitted : s.connection.isUp = true → ∀ t ∈ s.log.transactions, t.isOpen = true → ∀ e ∈ t.rows,
    e ∈ s.published → (e.sequence : ℤ) ≤ s.highest ∨ e ∈ s.connection.rest ∨ e ∈ s.connection.inbox
  ended : s.connection = .ended → ∀ e ∈ s.log.durable, after < e.sequence → e ∈ s.received

theorem Covered.exactlyOnce (h : Covered after s) : ExactlyOnce after s := by
  refine ⟨h.once, h.passed, fun hrest e he hafter => ?_⟩
  rcases hrest with hended | ⟨hlive, hpublished⟩
  · exact h.ended hended e he hafter
  · rcases h.reached (by rw [hlive]; rfl) e he hafter with hmem | hmem | hmem | hmem
    · exact hmem
    · simp [hlive, Connection.rest] at hmem
    · simp [hlive, Connection.inbox] at hmem
    · exact absurd (hpublished e he) hmem

theorem covered_fresh (after : ℤ) : Covered after (fresh after) := by
  refine ⟨EventLog.sound_empty, EventLog.fresh_empty, ?_, ?_, ?_, ?_, ?_, ?_, ?_, ?_, ?_, ?_⟩ <;>
    simp [fresh, Connection.inbox, Connection.rest, Connection.isUp, EventLog.empty,
      EventLog.durable]

/-- A connection that moves on with the same replay and the same queue. -/
theorem Covered.moved (h : Covered after s) {c : Connection} (hrest : c.rest = s.connection.rest)
    (hinbox : c.inbox = s.connection.inbox) (hup : s.connection.isUp = true) (hlive : c ≠ .ended) :
    Covered after { s with connection := c } := by
  refine ⟨h.sound, h.fresh, h.published_lt, ?_, h.received_le, h.once, ?_, ?_, ?_, ?_, ?_,
    fun hend => absurd hend hlive⟩
  · rw [hinbox]
    exact h.positive
  · rw [hrest]
    exact h.rest_nodup
  · rw [hrest]
    exact h.rest_new
  · rw [hrest]
    exact h.passed
  · rw [hrest, hinbox]
    exact fun _ => h.reached hup
  · rw [hrest, hinbox]
    exact fun _ => h.uncommitted hup

/-- The stream ends, when the client has seen the last number. -/
theorem Covered.finish (h : Covered after s) (habove : s.NoneAbove)
    (hrest : s.connection.rest = []) :
    Covered after { s with connection := .ended } := by
  have hpassed : ∀ e ∈ s.log.durable, after < e.sequence → e ∈ s.received := by
    intro e he hafter
    rcases h.passed e he hafter (habove e he) with hmem | hmem
    · exact hmem
    · simp [hrest] at hmem
  exact ⟨h.sound, h.fresh, h.published_lt, by simp [Connection.inbox], h.received_le, h.once,
    by simp [Connection.rest], by simp [Connection.rest],
    fun e he hafter _ => .inl (hpassed e he hafter), by simp [Connection.isUp],
    by simp [Connection.isUp], fun _ => hpassed⟩

/-! ## The steps -/

/-- A statement of a transaction. -/
theorem Covered.write (h : Covered after s) (hlive : s.connection ≠ .ended) {a : LogAction}
    (hmay : s.mayWrite a = true) (hok : Gapless after s (.write a)) :
    Covered after { s with log := s.log.step a } := by
  have hnew : ∀ e ∈ (s.log.step a).durable, after < e.sequence → e ∈ s.log.durable ∨
      (e ∈ s.received ∨ s.highest < e.sequence) ∧
        ∃ t ∈ s.log.transactions, t.isOpen = true ∧ e ∈ t.rows := by
    intro e he hafter
    rcases EventLog.durable_step he with he | ⟨i, t, rfl, hi, ht, he⟩
    · exact .inl he
    · refine .inr ⟨hok hmay t hi ht e he hafter, t, List.mem_of_getElem? hi, ?_, he⟩
      simp only [EventLog.mayCommit, Bool.and_eq_true] at ht
      exact ht.1
  refine ⟨EventLog.sound_step h.sound a, EventLog.fresh_step h.fresh a, fun e he => ?_, h.positive,
    h.received_le, h.once, h.rest_nodup, h.rest_new, fun e he hafter hle => ?_,
    fun hup e he hafter => ?_, fun hup u hu ho e he hpub => ?_, fun hend => absurd hend hlive⟩
  · exact Nat.lt_of_lt_of_le (h.published_lt e he) (EventLog.nextId_le_step _ _)
  · rcases hnew e he hafter with he | ⟨hmem | habove, -⟩
    · exact h.passed e he hafter hle
    · exact .inl hmem
    · exact absurd hle (not_le.mpr habove)
  · rcases hnew e he hafter with he | ⟨hmem | habove, t, ht, ho, he⟩
    · exact h.reached hup e he hafter
    · exact .inl hmem
    · by_cases hpub : e ∈ s.published
      · rcases h.uncommitted hup t ht ho e he hpub with hle | hmem | hmem
        · exact absurd hle (not_le.mpr habove)
        · exact .inr (.inl hmem)
        · exact .inr (.inr (.inl hmem))
      · exact .inr (.inr (.inr hpub))
  · rcases EventLog.rows_step hu ho he with ⟨t, ht, ho', he'⟩ | hid
    · exact h.uncommitted hup t ht ho' e he' hpub
    · have hlt := h.published_lt e hpub
      omega

/-- What may be published is an event of the log. -/
theorem Covered.of_mayPublish (h : Covered after s) {e : TaskEvent} (hmay : s.mayPublish e = true) :
    e.id < s.log.nextId ∧ 0 < e.sequence := by
  simp only [mayPublish, Bool.and_eq_true, Bool.or_eq_true, decide_eq_true_eq,
    List.any_eq_true] at hmay
  rcases hmay.2 with he | ⟨t, ht, -, he⟩
  · exact ⟨h.fresh.durable_lt e he, h.sound.positive e he⟩
  · exact ⟨h.fresh.rows_lt t ht e he, h.sound.rows_positive ht he⟩

/-- An event that is published reaches the queue of the client, or did not need to. -/
theorem reaches_of_gapless {e : TaskEvent} (hmay : s.mayPublish e = true)
    (hok : Gapless after s (.publish e)) (hup : s.connection.isUp = true) :
    (e.sequence : ℤ) ≤ s.highest ∨ e ∈ s.connection.rest ∨ e ∈ (s.connection.push e).inbox := by
  rcases s.connection.push_cases e with hin | hun | hdown
  · exact .inr (.inr hin)
  · rcases hok hmay hun with hrest | hle
    · exact .inr (.inl hrest)
    · exact .inl hle
  · exact absurd hdown (by simp [hup])

/-- A publication. -/
theorem Covered.publish (h : Covered after s) (hlive : s.connection ≠ .ended) {e : TaskEvent}
    (hmay : s.mayPublish e = true) (hok : Gapless after s (.publish e)) :
    Covered after { s with published := e :: s.published, connection := s.connection.push e } := by
  obtain ⟨hid, hpositive⟩ := h.of_mayPublish hmay
  refine ⟨h.sound, h.fresh, ?_, fun d hd => ?_, h.received_le, h.once, ?_, ?_, ?_,
    fun hup d hd hafter => ?_, fun hup t ht ho d hd hpub => ?_, fun hend => ?_⟩
  · exact List.forall_mem_cons.mpr ⟨hid, h.published_lt⟩
  · rcases Connection.mem_inbox_of_push hd with hd | rfl
    · exact h.positive d hd
    · exact hpositive
  · simpa using h.rest_nodup
  · simpa using h.rest_new
  · simpa using h.passed
  · rw [Connection.isUp_push] at hup
    rw [Connection.rest_push]
    by_cases hde : d = e
    · subst hde
      rcases reaches_of_gapless hmay hok hup with hle | hrest | hin
      · rcases h.passed d hd hafter hle with hmem | hmem
        · exact .inl hmem
        · exact .inr (.inl hmem)
      · exact .inr (.inl hrest)
      · exact .inr (.inr (.inl hin))
    · rcases h.reached hup d hd hafter with hmem | hmem | hmem | hmem
      · exact .inl hmem
      · exact .inr (.inl hmem)
      · exact .inr (.inr (.inl (Connection.mem_inbox_push hmem)))
      · exact .inr (.inr (.inr (by simp [hde, hmem])))
  · rw [Connection.isUp_push] at hup
    rw [Connection.rest_push]
    rcases List.mem_cons.mp hpub with rfl | hpub
    · exact reaches_of_gapless hmay hok hup
    · rcases h.uncommitted hup t ht ho d hd hpub with hle | hmem | hmem
      · exact .inl hle
      · exact .inr (.inl hmem)
      · exact .inr (.inr (Connection.mem_inbox_push hmem))
  · exact absurd (Connection.push_eq_ended.mp hend) hlive

theorem mem_replay {e : TaskEvent} :
    e ∈ s.replay ↔ e ∈ s.log.durable ∧ s.highest < e.sequence := by
  rw [replay, List.mem_insertionSort, List.mem_filter, decide_eq_true_iff]

/-- The replay query. -/
theorem Covered.connect (h : Covered after s) (hclosed : s.connection = .closed)
    (hok : Gapless after s .connect) :
    Covered after { s with connection := .queried s.replay } := by
  have hpassed : ∀ e ∈ s.log.durable, after < e.sequence → (e.sequence : ℤ) ≤ s.highest →
      e ∈ s.received := by
    intro e he hafter hle
    rcases h.passed e he hafter hle with hmem | hmem
    · exact hmem
    · simp [hclosed, Connection.rest] at hmem
  refine ⟨h.sound, h.fresh, h.published_lt, by simp [Connection.inbox], h.received_le, h.once, ?_,
    fun e he hrec => ?_, fun e he hafter hle => .inl (hpassed e he hafter hle),
    fun _ e he hafter => ?_, fun _ t ht ho e he hpub =>
    .inl (hok hclosed t ht ho e he hpub), by simp⟩
  · exact (List.perm_insertionSort _ _).nodup_iff.mpr (h.fresh.durable.filter _)
  · exact absurd (h.received_le e hrec) (not_le.mpr (mem_replay.mp he).2)
  · rcases le_or_gt (e.sequence : ℤ) s.highest with hle | hgt
    · exact .inl (hpassed e he hafter hle)
    · exact .inr (.inl (mem_replay.mpr ⟨he, hgt⟩))

/-- The client goes. -/
theorem Covered.disconnect (h : Covered after s) (hok : Gapless after s .disconnect) :
    Covered after { s with connection := .closed } := by
  refine ⟨h.sound, h.fresh, h.published_lt, by simp [Connection.inbox], h.received_le, h.once,
    by simp [Connection.rest], by simp [Connection.rest], fun e he hafter hle => ?_,
    by simp [Connection.isUp], by simp [Connection.isUp], by simp⟩
  rcases h.passed e he hafter hle with hmem | hmem
  · exact .inl hmem
  · exact absurd hle (not_le.mpr (hok e hmem))

/-- Up to a number below which nothing but `es` is left, only `es` is still to come. -/
theorem Covered.passed_max (h : Covered after s) {n : ℤ} {es : List TaskEvent} {d : TaskEvent}
    (hnone : s.NoneBelow n es) (hd : d ∈ s.log.durable) (hafter : after < d.sequence)
    (hle : (d.sequence : ℤ) ≤ max s.highest n) :
    d ∈ s.received ∨ d ∈ s.connection.rest ∨ d ∈ es := by
  rcases le_or_gt (d.sequence : ℤ) s.highest with hlow | hhigh
  · rcases h.passed d hd hafter hlow with hmem | hmem
    · exact .inl hmem
    · exact .inr (.inl hmem)
  · have hupto : (d.sequence : ℤ) ≤ n := by omega
    exact .inr (.inr (hnone d hd hhigh hupto))

/-- **An event is sent**: one the client does not have, and past which nothing is left behind. -/
theorem Covered.send (h : Covered after s) {e : TaskEvent} {c : Connection} (hlive : c ≠ .ended)
    (hup : s.connection.isUp = true) (hnew : e ∉ s.received)
    (hinbox : ∀ d ∈ c.inbox, d ∈ s.connection.inbox) (hrest : c.rest.Nodup ∧ e ∉ c.rest)
    (hsent : ∀ d, d ∈ s.connection.rest ∨ d ∈ s.connection.inbox → d = e ∨ d ∈ c.rest ∨ d ∈ c.inbox)
    (hrest_old : ∀ d ∈ c.rest, d ∈ s.connection.rest)
    (hrest_sent : ∀ d ∈ s.connection.rest, d = e ∨ d ∈ c.rest)
    (hnone : s.NoneBelow e.sequence (e :: c.rest)) : Covered after (s.send e c) := by
  have hhighest : (s.send e c).highest = max s.highest e.sequence := rfl
  have hreceived : ∀ {d : TaskEvent}, d ∈ (s.send e c).received ↔ d ∈ s.received ∨ d = e := by
    simp [Stream.send]
  refine ⟨h.sound, h.fresh, h.published_lt, fun d hd =>
    h.positive d (hinbox d hd), fun d hd => ?_, ?_, hrest.1, fun d hd hrec => ?_,
      fun d hd hafter hle => ?_, fun _ d hd hafter => ?_,
    fun _ t ht ho d hd hpub => ?_, fun hend => absurd hend hlive⟩
  · rw [hhighest]
    rcases hreceived.mp hd with hd | rfl
    · exact (h.received_le d hd).trans (le_max_left _ _)
    · exact le_max_right _ _
  · exact List.nodup_append.mpr ⟨h.once, by simp, fun a ha b hb hab =>
      hnew (List.mem_singleton.mp hb ▸ hab ▸ ha)⟩
  · rcases hreceived.mp hrec with hrec | rfl
    · exact h.rest_new d (hrest_old d hd) hrec
    · exact hrest.2 hd
  · have hcases : d ∈ s.received ∨ d = e ∨ d ∈ c.rest := by
      rcases h.passed_max hnone hd hafter hle with hmem | hmem | hmem
      · exact .inl hmem
      · exact .inr (hrest_sent d hmem)
      · exact .inr (List.mem_cons.mp hmem)
    rcases hcases with hmem | hde | hmem
    · exact .inl (hreceived.mpr (.inl hmem))
    · exact .inl (hreceived.mpr (.inr hde))
    · exact .inr hmem
  · rcases h.reached hup d hd hafter with hmem | hmem | hmem | hmem
    · exact .inl (hreceived.mpr (.inl hmem))
    · rcases hsent d (.inl hmem) with hde | hmem | hmem
      · exact .inl (hreceived.mpr (.inr hde))
      · exact .inr (.inl hmem)
      · exact .inr (.inr (.inl hmem))
    · rcases hsent d (.inr hmem) with hde | hmem | hmem
      · exact .inl (hreceived.mpr (.inr hde))
      · exact .inr (.inl hmem)
      · exact .inr (.inr (.inl hmem))
    · exact .inr (.inr (.inr hmem))
  · rw [hhighest]
    rcases h.uncommitted hup t ht ho d hd hpub with hle | hmem
    · exact .inl (hle.trans (le_max_left _ _))
    · rcases hsent d hmem with rfl | hmem
      · exact .inl (le_max_right _ _)
      · exact .inr hmem

/-- A live event is dropped: its number has been passed. -/
theorem Covered.drop (h : Covered after s) {e : TaskEvent} {inbox : List TaskEvent}
    (hc : s.connection = .live (e :: inbox)) (hle : (e.sequence : ℤ) ≤ s.highest) :
    Covered after { s with connection := .live inbox } := by
  have hup : s.connection.isUp = true := by rw [hc]; rfl
  refine ⟨h.sound, h.fresh, h.published_lt, fun d hd => ?_, h.received_le, h.once,
    by simp [Connection.rest], by simp [Connection.rest], fun d hd hafter hlow => ?_,
    fun _ d hd hafter => ?_, fun _ t ht ho d hd hpub => ?_, by simp⟩
  · exact h.positive d (hc ▸ List.mem_cons_of_mem e hd)
  · simpa [hc, Connection.rest] using h.passed d hd hafter hlow
  · have hreached := h.reached hup d hd hafter
    simp only [hc, Connection.rest, Connection.inbox, List.mem_cons, List.not_mem_nil, false_or]
      at hreached
    rcases hreached with hmem | (rfl | hmem) | hmem
    · exact .inl hmem
    · have hpassed := h.passed d hd hafter hle
      simp only [hc, Connection.rest, List.not_mem_nil, or_false] at hpassed
      exact .inl hpassed
    · exact .inr (.inr (.inl hmem))
    · exact .inr (.inr (.inr hmem))
  · have hin := h.uncommitted hup t ht ho d hd hpub
    simp only [hc, Connection.rest, Connection.inbox, List.mem_cons, List.not_mem_nil,
      false_or] at hin
    rcases hin with hlow | rfl | hmem
    · exact .inl hlow
    · exact .inl hle
    · exact .inr (.inr hmem)

/-- The first event of the replay is sent. -/
theorem Covered.sendReplayed (h : Covered after s) {settled : Bool} {e : TaskEvent}
    {rest : List TaskEvent} (hc : s.connection = .replaying settled (e :: rest))
    (hnone : s.NoneBelow e.sequence (e :: rest)) :
    Covered after (s.send e (.replaying settled rest)) := by
  have hnodup := h.rest_nodup
  have hfirst := h.rest_new
  rw [hc] at hnodup hfirst
  obtain ⟨hnew, hrest⟩ := List.nodup_cons.mp hnodup
  refine h.send (by simp) (by rw [hc]; rfl) (hfirst e (List.mem_cons_self))
    (by simp [Connection.inbox])
    ⟨hrest, hnew⟩ ?_ ?_ ?_ hnone
  · simp [hc, Connection.rest, Connection.inbox]
  · exact fun d hd => hc ▸ List.mem_cons_of_mem e hd
  · simp [hc, Connection.rest]

/-- The first event of the queue is sent, with a number the client has not reached. -/
theorem Covered.sendLive (h : Covered after s) {e : TaskEvent} {inbox : List TaskEvent}
    {c : Connection}
    (hc : s.connection = .live (e :: inbox)) (hrest : c.rest = []) (hinbox : c.inbox = inbox)
    (hlive : c ≠ .ended) (habove : s.highest < e.sequence) (hnone : s.NoneBelow e.sequence [e]) :
    Covered after (s.send e c) := by
  have hnew : e ∉ s.received := fun hmem => absurd (h.received_le e hmem) (not_le.mpr habove)
  refine h.send hlive (by rw [hc]; rfl) hnew ?_ ?_ ?_ ?_ ?_ ?_
  · rw [hinbox, hc]
    exact fun d hd => List.mem_cons_of_mem e hd
  · simp [hrest]
  · intro d hd
    rw [hinbox]
    simp only [hc, Connection.rest, Connection.inbox, List.not_mem_nil, false_or,
      List.mem_cons] at hd
    exact hd.imp_right .inr
  · simp [hrest]
  · simp [hc, Connection.rest]
  · rwa [hrest]

/-- The generator goes on. -/
theorem Covered.deliver (h : Covered after s) (hok : Gapless after s .deliver) :
    Covered after s.deliver := by
  have hok : s.DeliversAll s.connection := hok
  rw [Stream.deliver]
  rcases hc : s.connection with _ | rest | ⟨settled, rest⟩ | inbox | inbox | _
  case replaying =>
    rw [hc] at hok
    rcases rest with _ | ⟨e, rest⟩
    · cases settled with
      | false => exact h
      | true => exact h.finish hok (by rw [hc]; rfl)
    · exact h.sendReplayed hc hok
  case live =>
    rcases inbox with _ | ⟨e, inbox⟩
    · exact h
    rw [hc] at hok
    dsimp only at hok ⊢
    have hpositive : 0 < e.sequence := h.positive e (by simp [hc, Connection.inbox])
    split
    · rename_i hdrops
      simp only [drops, Bool.and_eq_true, decide_eq_true_eq] at hdrops
      exact h.drop hc hdrops.2
    · rename_i hpasses
      have hnone := hok (by simpa using hpasses)
      have habove : s.highest < e.sequence := by
        simp only [drops, Bool.and_eq_true, decide_eq_true_eq, not_and, not_le] at hpasses
        exact hpasses (by omega)
      split
      · exact h.sendLive hc rfl rfl (by simp) habove hnone
      · exact h.sendLive hc rfl rfl (by simp) habove hnone
  all_goals exact h

/-- **One step without a gap.** -/
theorem covered_step (h : Covered after s) (a : StreamAction) (hok : Gapless after s a) :
    Covered after (step s a) := by
  by_cases hlive : s.connection = .ended
  · simp only [step, if_pos hlive]
    exact h
  simp only [step, if_neg hlive]
  cases a with
  | write a =>
    dsimp only
    split
    · exact h.write hlive ‹_› hok
    · exact h
  | publish e =>
    dsimp only
    split
    · exact h.publish hlive ‹_› hok
    · exact h
  | connect =>
    dsimp only
    split
    · exact h.connect ‹_› hok
    · exact h
  | readStatus settled =>
    dsimp only
    split
    · rename_i rest hc
      exact h.moved (by rw [hc]; rfl) (by rw [hc]; rfl) (by rw [hc]; rfl) (by simp)
    · rename_i inbox hc
      cases settled with
      | false => exact h.moved (by rw [hc]; rfl) (by rw [hc]; rfl) (by rw [hc]; rfl) (by simp)
      | true =>
        exact h.finish (hok (by rw [hc]; rfl)) (by rw [hc]; rfl)
    · exact h
  | subscribe =>
    dsimp only
    split
    · rename_i hc
      exact h.moved (by rw [hc]; rfl) (by rw [hc]; rfl) (by rw [hc]; rfl) (by simp)
    · exact h
  | deliver => exact h.deliver hok
  | disconnect => exact h.disconnect hok

/-- **The stream loses and repeats nothing**, in every run whose steps open no gap. -/
theorem exactlyOnce_of_gapless (after : ℤ) (as : List StreamAction)
    (h : Runs.Along step (Gapless after) (fresh after) as) :
    ExactlyOnce after (Runs.run step (fresh after) as) := by
  have hcovered := h.invariant (fun s a hs hok => covered_step hs a hok) (covered_fresh after)
  exact hcovered.exactlyOnce

/-- `emit` of a worker, from its `SELECT max` to its commit, in the transaction at `i`. -/
def emitted (i : ℕ) (type : EventType) : List StreamAction :=
  [.write (.begin .worker), .write (.select i), .write (.insert i type), .write (.commit i)]

/-- A client that follows a task, is lost, and comes back. -/
def followed : List StreamAction :=
  emitted 0 .nodeStarted ++ [.publish ⟨0, 1, .nodeStarted⟩, .connect, .readStatus false,
    .deliver, .subscribe]
    ++ emitted 1 .planCreated ++ [.publish ⟨1, 2, .planCreated⟩, .deliver, .disconnect]
    ++ emitted 2 .approvalRequested
      ++ [.publish ⟨2, 3, .approvalRequested⟩, .connect, .readStatus true, .deliver, .deliver]

theorem followed_exactlyOnce : ExactlyOnce 0 (Runs.run step (fresh 0) followed) :=
  exactlyOnce_of_gapless 0 followed (by decide)

/-- An event is committed and published between the replay query and the subscription; the next one
arrives. -/
def missedWindow : List StreamAction :=
  emitted 0 .nodeStarted ++ [.publish ⟨0, 1, .nodeStarted⟩, .connect, .readStatus false, .deliver]
    ++ emitted 1 .planCreated ++ [.publish ⟨1, 2, .planCreated⟩, .subscribe]
    ++ emitted 2 .nodeCompleted ++ [.publish ⟨2, 3, .nodeCompleted⟩, .deliver]

/-- **The event in the window is lost**: the client is at the third event, without the second. -/
theorem missedWindow_loses :
    (Runs.run step (fresh 0) missedWindow).received
        = [⟨0, 1, .nodeStarted⟩, ⟨2, 3, .nodeCompleted⟩] ∧
      ¬ ExactlyOnce 0 (Runs.run step (fresh 0) missedWindow) := by
  have hreceived : (Runs.run step (fresh 0) missedWindow).received
      = [⟨0, 1, .nodeStarted⟩, ⟨2, 3, .nodeCompleted⟩] := by decide
  refine ⟨hreceived, fun h => ?_⟩
  have hpassed := h.passed ⟨1, 2, .planCreated⟩ (by decide) (by decide) (by decide)
  rw [hreceived] at hpassed
  exact absurd hpassed (by decide)

end Stream

end AgentPlatform
