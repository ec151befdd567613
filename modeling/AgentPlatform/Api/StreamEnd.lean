import AgentPlatform.Api.Stream
import AgentPlatform.Graph.Failure
import AgentPlatform.Worker.Cluster

/-!
# Api/StreamEnd — when a stream on a settled task ends

A live stream reads the task's status only after an event of a listed type, and ends if the
committed status is settled by then.  What becomes of a task is a **timeline** of commits and
publications; the supervisor, `_finalize` and the API requests order the two differently.

* `ends_iff_announced` — a stream ends however its events are handed over exactly if an event of a
  listed type, numbered above the client, is published while the status is settled.
* `Opening.ends_iff` — which paths of the workflow publish one.  `halt` and the recursion limit do
  not: their `NO_PROGRESS_DETECTED` comes before the status, and nothing comes after it.
-/

namespace AgentPlatform

/-- `status in SETTLED_STATUSES`. -/
def TaskStatus.settled (status : TaskStatus) : Bool := status.terminal || status = .readyForReview

namespace StreamEnd

/-- What happens to a task: a status is committed, or an event published on the bus. -/
inductive Act (ε : Type) where
  | commit (status : TaskStatus)
  | publish (event : ε)
  deriving DecidableEq, Repr

namespace Act

/-- The act, with its event read through `f`. -/
def map {ε δ : Type} (f : ε → δ) : Act ε → Act δ
  | commit status => commit status
  | publish event => publish (f event)

/-- The event, of a publication. -/
def event? {ε : Type} : Act ε → Option ε
  | commit _ => none
  | publish event => some event

end Act

/-- The events published, in order. -/
def published (acts : List (Act TaskEvent)) : List TaskEvent := acts.filterMap Act.event?

section Published

variable {acts : List (Act TaskEvent)}

@[simp] theorem published_nil : published [] = [] := rfl

@[simp] theorem published_commit {status : TaskStatus} :
    published (.commit status :: acts) = published acts := rfl

@[simp] theorem published_publish {event : TaskEvent} :
    published (.publish event :: acts) = event :: published acts := rfl

@[simp] theorem published_append {acts' : List (Act TaskEvent)} :
    published (acts ++ acts') = published acts ++ published acts' := List.filterMap_append

end Published

/-- The status after the acts. -/
def statusAfter {ε : Type} (status : TaskStatus) : List (Act ε) → TaskStatus
  | [] => status
  | .commit status' :: acts => statusAfter status' acts
  | .publish _ :: acts => statusAfter status acts

/-! ## The client -/

/-- Where the generator stands. -/
inductive Phase where
  /-- The status is read next: when the stream opens, and after an event that may close it. -/
  | reading
  | live
  /-- `STREAM_END` was sent. -/
  | ended
  deriving DecidableEq, Repr

/-- A task and a client that follows it: what is still to happen to the task, its committed status,
the events the bus has delivered and the client has not been handed, the highest number sent. -/
structure Follower where
  acts : List (Act TaskEvent)
  status : TaskStatus
  inbox : List TaskEvent
  highest : ℤ
  phase : Phase
  deriving DecidableEq, Repr

/-- What happens next: to the task, or in the generator. -/
inductive Move where
  | act
  /-- `service.get`. -/
  | get
  /-- The next event of the queue is handed over. -/
  | hand
  deriving DecidableEq, Repr

namespace Follower

/-- The next thing that happens to the task. -/
def act (f : Follower) : Follower :=
  match f.acts with
  | [] => f
  | .commit status :: acts => { f with acts := acts, status := status }
  | .publish event :: acts => { f with acts := acts, inbox := f.inbox ++ [event] }

/-- The status is read: a settled one ends the stream. -/
def get (f : Follower) : Follower :=
  if f.phase = .reading then { f with phase := if f.status.settled then .ended else .live } else f

/-- An event is handed over: dropped at or below the highest number, else sent. -/
def hand (f : Follower) : Follower :=
  match f.phase, f.inbox with
  | .live, event :: inbox =>
    if event.sequence ≠ 0 ∧ (event.sequence : ℤ) ≤ f.highest then { f with inbox := inbox }
    else { f with
      inbox := inbox
      highest := max f.highest event.sequence
      phase := if event.type.closing then .reading else .live }
  | _, _ => f

/-- **One step.** -/
def step (f : Follower) : Move → Follower
  | .act => f.act
  | .get => f.get
  | .hand => f.hand

/-- Nothing more is to come: the task is settled, every event has been handed over, and no status is
being read. -/
structure Drained (f : Follower) : Prop where
  finished : f.acts = []
  settled : f.status.settled = true
  handed : f.inbox = []
  read : f.phase ≠ .reading

/-- **The stream ends, whenever its events are handed over and the status is read.** -/
def Ends (f : Follower) : Prop :=
  ∀ moves, (Runs.run step f moves).Drained → (Runs.run step f moves).phase = .ended

end Follower

/-! ## Announcements -/

/-- The numbers of the events that may close a stream and are published while the status is
settled. -/
def announced (status : TaskStatus) : List (Act TaskEvent) → List ℕ
  | [] => []
  | .commit status' :: acts => announced status' acts
  | .publish event :: acts =>
    if status.settled ∧ event.type.closing then event.sequence :: announced status acts
    else announced status acts

/-- Once settled, the status stays settled. -/
def StaysSettled (status : TaskStatus) : List (Act TaskEvent) → Prop
  | [] => True
  | .commit status' :: acts => (status.settled → status'.settled) ∧ StaysSettled status' acts
  | .publish _ :: acts => StaysSettled status acts

/-- What is announced is published. -/
theorem exists_published_of_announced {status : TaskStatus} {acts : List (Act TaskEvent)} {n : ℕ}
    (h : n ∈ announced status acts) :
    ∃ e ∈ published acts, e.sequence = n ∧ e.type.closing = true := by
  induction acts generalizing status with
  | nil => simp [announced] at h
  | cons a acts ih =>
    cases a with
    | commit status' => simpa using ih h
    | publish event =>
      rw [announced] at h
      rw [published_publish, List.exists_mem_cons_iff]
      split at h
      next hnow =>
        rcases List.mem_cons.mp h with rfl | h
        · exact .inl ⟨rfl, hnow.2⟩
        · exact .inr (ih h)
      next => exact .inr (ih h)

theorem mem_announced_publish {status : TaskStatus} {event : TaskEvent}
    {acts : List (Act TaskEvent)}
    {n : ℕ} (h : n ∈ announced status acts) : n ∈ announced status (.publish event :: acts) := by
  rw [announced]
  split
  · exact List.mem_cons_of_mem _ h
  · exact h

namespace Follower

variable {f : Follower} {n : ℕ}

/-- The events the client is still to be handed. -/
def upcoming (f : Follower) : List TaskEvent := f.inbox ++ published f.acts

/-- What every step keeps: the numbers to come increase, and a settled task stays settled. -/
structure Sound (f : Follower) : Prop where
  increasing : f.upcoming.Pairwise (·.sequence < ·.sequence)
  stays : StaysSettled f.status f.acts

/-- **The announcement `n` reaches the client**: the stream has ended, or the settled status is
being read, or the client is below `n`, which is still to be published or waits in the queue of a
settled task. -/
def Awaits (n : ℕ) (f : Follower) : Prop :=
  f.phase = .ended ∨ (f.phase = .reading ∧ f.status.settled = true) ∨
    (f.highest < n ∧ (n ∈ announced f.status f.acts ∨
      f.status.settled = true ∧ ∃ e ∈ f.inbox, e.sequence = n ∧ e.type.closing = true))

/-! ### What a step does -/

/-- **What a step does**: nothing; a commit; a publication; the status is read; an event is dropped;
an event is sent. -/
inductive Steps (f : Follower) : Follower → Prop
  | stay : Steps f f
  | commit {status : TaskStatus} {acts : List (Act TaskEvent)}
    (hacts : f.acts = .commit status :: acts) :
      Steps f { f with acts := acts, status := status }
  | publish {event : TaskEvent} {acts : List (Act TaskEvent)}
    (hacts : f.acts = .publish event :: acts) :
      Steps f { f with acts := acts, inbox := f.inbox ++ [event] }
  | finish (hphase : f.phase = .reading) (hsettled : f.status.settled = true) :
      Steps f { f with phase := .ended }
  | follow (hphase : f.phase = .reading) (hsettled : f.status.settled = false) :
      Steps f { f with phase := .live }
  | drop {event : TaskEvent} {inbox : List TaskEvent} (hphase : f.phase = .live)
      (hinbox : f.inbox = event :: inbox) (hle : (event.sequence : ℤ) ≤ f.highest) :
      Steps f { f with inbox := inbox }
  | send {event : TaskEvent} {inbox : List TaskEvent} (hphase : f.phase = .live)
      (hinbox : f.inbox = event :: inbox) :
      Steps f { f with
        inbox := inbox
        highest := max f.highest event.sequence
        phase := if event.type.closing then .reading else .live }

theorem steps_step (f : Follower) (m : Move) : Steps f (f.step m) := by
  cases m with
  | act =>
    rw [step, act]
    split
    next => exact .stay
    next hacts => exact .commit hacts
    next hacts => exact .publish hacts
  | get =>
    rw [step, get]
    split
    next hphase =>
      cases hsettled : f.status.settled with
      | true => exact .finish hphase hsettled
      | false => exact .follow hphase hsettled
    next => exact .stay
  | hand =>
    rw [step, hand]
    split
    next event inbox hphase hinbox =>
      split
      next hdrop => exact .drop hphase hinbox hdrop.2
      next => exact .send hphase hinbox
    next => exact .stay

/-- **What every step keeps.** -/
theorem Sound.steps {f' : Follower} (h : f.Sound) (hstep : Steps f f') : f'.Sound := by
  obtain ⟨hincreasing, hstays⟩ := h
  have hbehind {event : TaskEvent} {inbox : List TaskEvent} (hinbox : f.inbox = event :: inbox) :
      (inbox ++ published f.acts).Pairwise (·.sequence < ·.sequence) := by
    rw [upcoming, hinbox] at hincreasing
    exact (List.pairwise_cons.mp hincreasing).2
  cases hstep with
  | stay => exact ⟨hincreasing, hstays⟩
  | commit hacts =>
    rw [hacts, StaysSettled] at hstays
    rw [upcoming, hacts, published_commit] at hincreasing
    exact ⟨hincreasing, hstays.2⟩
  | publish hacts =>
    rw [hacts, StaysSettled] at hstays
    rw [upcoming, hacts, published_publish] at hincreasing
    exact ⟨by simpa [upcoming] using hincreasing, hstays⟩
  | finish => exact ⟨hincreasing, hstays⟩
  | follow => exact ⟨hincreasing, hstays⟩
  | drop _ hinbox => exact ⟨hbehind hinbox, hstays⟩
  | send _ hinbox => exact ⟨hbehind hinbox, hstays⟩

/-- A commit leaves a settled task settled. -/
theorem Awaits.commit {status : TaskStatus} {acts : List (Act TaskEvent)} (h : f.Awaits n)
    (hsound : f.Sound) (hacts : f.acts = .commit status :: acts) :
    Awaits n { f with acts := acts, status := status } := by
  have hstays := hsound.stays
  rw [hacts, StaysSettled] at hstays
  rcases h with hended | ⟨hreading, hsettled⟩ | ⟨hlt, hn | ⟨hsettled, hqueued⟩⟩
  · exact .inl hended
  · exact .inr (.inl ⟨hreading, hstays.1 hsettled⟩)
  · rw [hacts, announced] at hn
    exact .inr (.inr ⟨hlt, .inl hn⟩)
  · exact .inr (.inr ⟨hlt, .inr ⟨hstays.1 hsettled, hqueued⟩⟩)

/-- The announcement reaches the queue when it is published. -/
theorem Awaits.publish {event : TaskEvent} {acts : List (Act TaskEvent)} (h : f.Awaits n)
    (hacts : f.acts = .publish event :: acts) :
    Awaits n { f with acts := acts, inbox := f.inbox ++ [event] } := by
  rcases h with hended | hreading | ⟨hlt, hn | ⟨hsettled, e, he, hseq⟩⟩
  · exact .inl hended
  · exact .inr (.inl hreading)
  · rw [hacts, announced] at hn
    split at hn
    next hnow =>
      rcases List.mem_cons.mp hn with rfl | hn
      · exact .inr (.inr ⟨hlt, .inr ⟨hnow.1, event, by simp, rfl, hnow.2⟩⟩)
      · exact .inr (.inr ⟨hlt, .inl hn⟩)
    next => exact .inr (.inr ⟨hlt, .inl hn⟩)
  · exact .inr (.inr ⟨hlt, .inr ⟨hsettled, e, List.mem_append_left _ he, hseq⟩⟩)

/-- What is dropped is not the announcement: the client is below that. -/
theorem Awaits.drop {event : TaskEvent} {inbox : List TaskEvent} (h : f.Awaits n)
    (hphase : f.phase = .live) (hinbox : f.inbox = event :: inbox)
    (hle : (event.sequence : ℤ) ≤ f.highest) : Awaits n { f with inbox := inbox } := by
  rcases h with hended | ⟨hreading, -⟩ | ⟨hlt, hn | ⟨hsettled, e, he, hseq, hclosing⟩⟩
  · simp [hphase] at hended
  · simp [hphase] at hreading
  · exact .inr (.inr ⟨hlt, .inl hn⟩)
  · rw [hinbox] at he
    rcases List.mem_cons.mp he with rfl | he
    · omega
    · exact .inr (.inr ⟨hlt, .inr ⟨hsettled, e, he, hseq, hclosing⟩⟩)

/-- The events come in the order of their numbers, so what is sent before the announcement is below
it; when the announcement is sent, the settled status is read. -/
theorem Awaits.send {event : TaskEvent} {inbox : List TaskEvent} (h : f.Awaits n) (hsound : f.Sound)
    (hphase : f.phase = .live) (hinbox : f.inbox = event :: inbox) :
    Awaits n { f with
      inbox := inbox
      highest := max f.highest event.sequence
      phase := if event.type.closing then .reading else .live } := by
  have hbelow {e : TaskEvent} (he : e ∈ inbox ++ published f.acts) (hseq : e.sequence = n)
      (hlt : f.highest < n) : max f.highest (event.sequence : ℤ) < n := by
    have hincreasing := hsound.increasing
    rw [upcoming, hinbox] at hincreasing
    have := (List.pairwise_cons.mp hincreasing).1 e he
    omega
  rcases h with hended | ⟨hreading, -⟩ | ⟨hlt, hn | ⟨hsettled, e, he, hseq, hclosing⟩⟩
  · simp [hphase] at hended
  · simp [hphase] at hreading
  · obtain ⟨e, he, hseq, -⟩ := exists_published_of_announced hn
    exact .inr (.inr ⟨hbelow (List.mem_append_right _ he) hseq hlt, .inl hn⟩)
  · rw [hinbox] at he
    rcases List.mem_cons.mp he with rfl | he
    · exact .inr (.inl ⟨by simp [hclosing], hsettled⟩)
    · exact .inr (.inr ⟨hbelow (List.mem_append_left _ he) hseq hlt,
        .inr ⟨hsettled, e, he, hseq, hclosing⟩⟩)

/-- **An announcement above the client is not lost.** -/
theorem Awaits.steps {f' : Follower} (h : f.Awaits n) (hsound : f.Sound) (hstep : Steps f f') :
    f'.Awaits n := by
  cases hstep with
  | stay => exact h
  | commit hacts => exact h.commit hsound hacts
  | publish hacts => exact h.publish hacts
  | finish => exact .inl rfl
  | follow hphase hsettled =>
    rcases h with hended | ⟨-, hsettled'⟩ | hlater
    · simp [hphase] at hended
    · simp [hsettled] at hsettled'
    · exact .inr (.inr hlater)
  | drop hphase hinbox hle => exact h.drop hphase hinbox hle
  | send hphase hinbox => exact h.send hsound hphase hinbox

/-- **A stream with an announcement ahead ends.** -/
theorem Awaits.ends (h : f.Awaits n) (hsound : f.Sound) : f.Ends := by
  intro moves hdrained
  have hrun : (Runs.run step f moves).Sound ∧ (Runs.run step f moves).Awaits n :=
    Runs.run_invariant (P := fun f : Follower => f.Sound ∧ f.Awaits n)
      (fun f m hf => ⟨hf.1.steps (steps_step f m), hf.2.steps hf.1 (steps_step f m)⟩)
      ⟨hsound, h⟩ moves
  obtain ⟨hover, -, hhanded, hread⟩ := hdrained
  rcases hrun.2 with hended | ⟨hreading, -⟩ | ⟨-, hn | ⟨-, e, he, -⟩⟩
  · exact hended
  · exact absurd hreading hread
  · simp [hover, announced] at hn
  · simp [hhanded] at he

/-! ### The prompt client -/

/-- Every event is handed over, and every status read, before the next thing happens to the task. -/
def prompt (acts : List (Act TaskEvent)) : List Move := acts.flatMap fun _ => [.act, .hand, .get]

/-- **A prompt client outlives a task without an announcement above it.** -/
theorem run_prompt {acts : List (Act TaskEvent)} {status : TaskStatus} {highest : ℤ}
    (hpositive : ∀ e ∈ published acts, 0 < e.sequence)
    (hnone : ∀ n ∈ announced status acts, (n : ℤ) ≤ highest) :
    ∃ highest', Runs.run step ⟨acts, status, [], highest, .live⟩ (prompt acts)
      = ⟨[], statusAfter status acts, [], highest', .live⟩ := by
  induction acts generalizing status highest with
  | nil => exact ⟨highest, rfl⟩
  | cons a acts ih =>
    change ∃ highest', Runs.run step
      (((⟨a :: acts, status, [], highest, .live⟩ : Follower).act).hand).get
      (prompt acts) = _
    cases a with
    | commit status' => exact ih hpositive hnone
    | publish event =>
      have hpos : 0 < event.sequence := hpositive event (by simp)
      have hlater : ∀ n ∈ announced status acts, (n : ℤ) ≤ highest := fun n hn =>
        hnone n (mem_announced_publish hn)
      have hrest (h : ℤ) (hle : highest ≤ h) :
          ∃ highest', Runs.run step ⟨acts, status, [], h, .live⟩ (prompt acts)
            = ⟨[], statusAfter status acts, [], highest', .live⟩ :=
        ih (fun e he => hpositive e (by simp [he])) fun n hn => (hlater n hn).trans hle
      by_cases hdrop : (event.sequence : ℤ) ≤ highest
      · simpa [act, hand, get, hpos.ne', hdrop, statusAfter] using hrest highest le_rfl
      · -- The event is sent; if it may close the stream, the status read is not settled.
        have hopen : event.type.closing = true → status.settled = false := by
          intro hclosing
          by_contra hsettled
          have hnow := hnone event.sequence (by simp [announced, hclosing, hsettled])
          exact hdrop hnow
        have hmax := hrest (max highest event.sequence) (le_max_left _ _)
        cases hclosing : event.type.closing with
        | true => simpa [act, hand, get, hdrop, hclosing, hopen hclosing, statusAfter] using hmax
        | false => simpa [act, hand, get, hdrop, hclosing, statusAfter] using hmax

/-- **When a stream ends**: however its events are handed over, exactly if one that may close it,
numbered above the client, is published while the status is settled. -/
theorem ends_iff_announced {acts : List (Act TaskEvent)} {status : TaskStatus} {highest : ℤ}
    (hrunning : status.settled = false) (hsettles : (statusAfter status acts).settled = true)
    (hincreasing : (published acts).Pairwise (·.sequence < ·.sequence))
    (hpositive : ∀ e ∈ published acts, 0 < e.sequence) (hstays : StaysSettled status acts) :
    (⟨acts, status, [], highest, .reading⟩ : Follower).Ends ↔
      ∃ n ∈ announced status acts, highest < n := by
  constructor
  · intro hends
    by_contra hnone
    push Not at hnone
    obtain ⟨highest', hrun⟩ := run_prompt hpositive hnone
    have hopen : Runs.run step ⟨acts, status, [], highest, .reading⟩ (.get :: prompt acts)
        = ⟨[], statusAfter status acts, [], highest', .live⟩ := by
      rw [Runs.run_cons, ← hrun]
      simp [step, get, hrunning]
    have hended := hends (.get :: prompt acts)
    rw [hopen] at hended
    exact absurd (hended ⟨rfl, hsettles, rfl, by simp⟩) (by simp)
  · rintro ⟨n, hn, hlt⟩
    exact Awaits.ends (n := n) (.inr (.inr ⟨hlt, .inl hn⟩))
      ⟨by simpa [upcoming] using hincreasing, hstays⟩

end Follower

/-! ## A timeline that settles -/

section Settles

variable {ε : Type}

/-- No commit is of a settled status. -/
def Running (acts : List (Act ε)) : Prop := ∀ status, .commit status ∈ acts → status.settled = false

/-- Every commit is of a settled status. -/
def Final (acts : List (Act ε)) : Prop := ∀ status, .commit status ∈ acts → status.settled = true

/-- **The task runs, and settles for good**: `later` is what happens after the first settled
commit. -/
def Settles (acts later : List (Act ε)) : Prop :=
  ∃ running status, acts = running ++ .commit status :: later ∧ Running running ∧
    status.settled = true ∧ Final later

variable {acts later : List (Act ε)} {status : TaskStatus}

theorem running_append {acts' : List (Act ε)} :
    Running (acts ++ acts') ↔ Running acts ∧ Running acts' := by
  simp only [Running, List.mem_append, or_imp, forall_and]

theorem final_append {acts' : List (Act ε)} : Final (acts ++ acts') ↔ Final acts ∧ Final acts' := by
  simp only [Final, List.mem_append, or_imp, forall_and]

/-- More of the settled task. -/
theorem Settles.append {acts' : List (Act ε)} (h : Settles acts later) (hfinal : Final acts') :
    Settles (acts ++ acts') (later ++ acts') := by
  obtain ⟨running, status, rfl, hrunning, hsettled, hlater⟩ := h
  exact ⟨running, status, by simp, hrunning, hsettled, final_append.mpr ⟨hlater, hfinal⟩⟩

/-- More of the running task. -/
theorem Settles.prepend {acts' : List (Act ε)} (h : Settles acts later) (hrun : Running acts') :
    Settles (acts' ++ acts) later := by
  obtain ⟨running, status, rfl, hrunning, hsettled, hlater⟩ := h
  exact ⟨acts' ++ running, status, by simp, running_append.mpr ⟨hrun, hrunning⟩, hsettled, hlater⟩

theorem statusAfter_append (acts' : List (Act ε)) :
    statusAfter status (acts ++ acts') = statusAfter (statusAfter status acts) acts' := by
  induction acts generalizing status with
  | nil => rfl
  | cons a acts ih =>
    cases a with
    | commit status' => exact ih
    | publish event => exact ih

theorem settled_statusAfter (h : Final acts) (hsettled : status.settled = true) :
    (statusAfter status acts).settled = true := by
  induction acts generalizing status with
  | nil => exact hsettled
  | cons a acts ih =>
    have hacts : Final acts := fun t ht => h t (List.mem_cons_of_mem _ ht)
    cases a with
    | commit status' => exact ih hacts (h status' List.mem_cons_self)
    | publish event => exact ih hacts hsettled

/-- A settled timeline ends in a settled status. -/
theorem Settles.settled (h : Settles acts later) : (statusAfter status acts).settled = true := by
  obtain ⟨running, status', rfl, -, hsettled, hlater⟩ := h
  rw [statusAfter_append, statusAfter]
  exact settled_statusAfter hlater hsettled

/-- **A running task has not settled yet**: what is left of the timeline settles as the whole
does. -/
theorem Settles.of_append {past rest : List (Act ε)} (h : Settles (past ++ rest) later)
    (hrunning : (statusAfter status past).settled = false) : Settles rest later := by
  obtain ⟨running, status', heq, hrun, hsettled, hlater⟩ := h
  rcases List.append_eq_append_iff.mp heq with ⟨mid, rfl, rfl⟩ | ⟨mid, rfl, hmid⟩
  · exact ⟨mid, status', rfl, (running_append.mp hrun).2, hsettled, hlater⟩
  · rcases List.cons_eq_append_iff.mp hmid with ⟨rfl, rfl⟩ | ⟨mid, rfl, rfl⟩
    · exact ⟨[], status', rfl, by simp [Running], hsettled, hlater⟩
    · rw [statusAfter_append] at hrunning
      have hafter := settled_statusAfter (final_append.mp hlater).1 hsettled
      exact absurd hafter (by simpa [statusAfter] using hrunning)

end Settles

section Announced

variable {acts later running : List (Act TaskEvent)} {status : TaskStatus} {n : ℕ}

/-- A running task announces nothing. -/
theorem announced_running (acts : List (Act TaskEvent)) (h : Running running)
    (hstatus : status.settled = false) :
    announced status (running ++ acts) = announced (statusAfter status running) acts ∧
      (StaysSettled (statusAfter status running) acts → StaysSettled status (running ++ acts)) := by
  induction running generalizing status with
  | nil => exact ⟨rfl, id⟩
  | cons a running ih =>
    have hrunning : Running running := fun t ht => h t (List.mem_cons_of_mem _ ht)
    cases a with
    | commit status' =>
      obtain ⟨hsame, hstays⟩ := ih hrunning (h status' List.mem_cons_self)
      exact ⟨hsame, fun hacts => ⟨by simp [hstatus], hstays hacts⟩⟩
    | publish event =>
      obtain ⟨hsame, hstays⟩ := ih hrunning hstatus
      exact ⟨by simpa [announced, statusAfter, hstatus] using hsame, hstays⟩

theorem staysSettled_final (h : Final acts) : StaysSettled status acts := by
  induction acts generalizing status with
  | nil => trivial
  | cons a acts ih =>
    have hacts : Final acts := fun t ht => h t (List.mem_cons_of_mem _ ht)
    cases a with
    | commit status' => exact ⟨fun _ => h status' List.mem_cons_self, ih hacts⟩
    | publish event => exact ih hacts

/-- A settled task announces every event that may close a stream. -/
theorem mem_announced_final (h : Final acts) (hstatus : status.settled = true) :
    n ∈ announced status acts ↔ ∃ e ∈ published acts, e.type.closing = true ∧ e.sequence = n := by
  induction acts generalizing status with
  | nil => simp [announced]
  | cons a acts ih =>
    have hacts : Final acts := fun t ht => h t (List.mem_cons_of_mem _ ht)
    cases a with
    | commit status' => exact ih hacts (h status' List.mem_cons_self)
    | publish event =>
      rw [published_publish, List.exists_mem_cons_iff, ← ih hacts hstatus, announced]
      cases hclosing : event.type.closing with
      | true => simp [hstatus, eq_comm]
      | false => simp

/-- **What a task announces that settles for good.** -/
theorem Settles.mem_announced (h : Settles acts later) (hstatus : status.settled = false) :
    n ∈ announced status acts ↔ ∃ e ∈ published later, e.type.closing = true ∧ e.sequence = n := by
  obtain ⟨running, status', rfl, hrunning, hsettled, hlater⟩ := h
  rw [(announced_running _ hrunning hstatus).1, announced, mem_announced_final hlater hsettled]

theorem Settles.staysSettled (h : Settles acts later) (hstatus : status.settled = false) :
    StaysSettled status acts := by
  obtain ⟨running, status', rfl, hrunning, hsettled, hlater⟩ := h
  exact (announced_running _ hrunning hstatus).2 ⟨fun _ => hsettled, staysSettled_final hlater⟩

/-- **Whether anything is announced above a number**: what may close a stream before the task
settles is numbered below what does after. -/
theorem Settles.exists_announced_iff (h : Settles acts later) (hstatus : status.settled = false)
    (hincreasing : (published acts).Pairwise (·.sequence < ·.sequence)) (above : ℤ) :
    (∃ n ∈ announced status acts, above < n) ↔
      (∃ e ∈ published later, e.type.closing = true) ∧
        ∃ e ∈ published acts, e.type.closing = true ∧ above < e.sequence := by
  have hannounced := fun n => h.mem_announced (n := n) hstatus
  obtain ⟨running, status', hsplit, -⟩ := h
  rw [hsplit, published_append, published_commit] at hincreasing ⊢
  constructor
  · rintro ⟨n, hn, hlt⟩
    rw [← hsplit] at hn
    obtain ⟨e, he, hclosing, rfl⟩ := (hannounced n).mp hn
    exact ⟨⟨e, he, hclosing⟩, e, List.mem_append_right _ he, hclosing, hlt⟩
  · rintro ⟨⟨last, hlast, hclosing⟩, e, he, hcloses, hlt⟩
    rw [← hsplit]
    rcases List.mem_append.mp he with he | he
    · have hbelow := (List.pairwise_append.mp hincreasing).2.2 e he last hlast
      exact ⟨last.sequence, (hannounced _).mpr ⟨last, hlast, hclosing, rfl⟩, by omega⟩
    · exact ⟨e.sequence, (hannounced _).mpr ⟨e, he, hcloses, rfl⟩, hlt⟩

end Announced

/-! ## What the workflow does to its task -/

/-- A publication of a body: an emitted event whose `emit` returns. -/
def published? (env : NodeEnv) : Effect → Option (Act EventType)
  | .emitted event => if env.emit event = none then some (.publish event) else none
  | _ => none

/-- What a node's body publishes. -/
def bodyActs (ctx : WorkflowContext) (x : Execution) : List (Act EventType) :=
  (x.effects ctx).reverse.filterMap (published? x.env)

/-- `Supervisor.instrument`: the checkpoints before and after the body commit the node's status. -/
def nodeActs (ctx : WorkflowContext) (x : Execution) : List (Act EventType) :=
  [.publish .nodeStarted, .commit x.node.status] ++ bodyActs ctx x ++
    if x.env.escape = none then [.commit x.node.status, .publish .nodeCompleted] else []

/-- A run of the workflow to its end, or to the recursion limit. -/
structure FinishedRun where
  ctx : WorkflowContext
  state : AgentState
  world : World
  envs : List NodeEnv
  isOver : (Runs.run (AgentPlatform.step ctx) (start state world) envs).Over
  /-- The `emit` of `TASK_FAILED`. -/
  failureEmit : Option PyError

namespace FinishedRun

variable (r : FinishedRun)

/-- Where the run stands at its end. -/
def config : Config := Runs.run (AgentPlatform.step r.ctx) (start r.state r.world) r.envs

/-- The end of `_run_workflow`: `_finalize`, after `NO_PROGRESS_DETECTED` at the recursion limit, or
`_finalize_failure` before `TASK_FAILED`. -/
def lastActs : List (Act EventType) :=
  match r.config.ending with
  | .returned => [.commit r.config.finalStatus]
  | .recursionError => [.publish .noProgressDetected, .commit r.config.finalStatus]
  | .raised _ => .commit r.config.finalStatus ::
      if r.failureEmit = none then [.publish .taskFailed] else []

/-- `_run_workflow`. -/
def acts : List (Act EventType) :=
  .publish .taskClaimed :: r.config.trace.reverse.flatMap (nodeActs r.ctx) ++ r.lastActs

/-- **The run publishes an event that may close a stream while the task is settled**: `human_review`
with its approval recorded, the escalation of a run that is cut off after `human_review`, or the
failure of a run that raised. -/
def Announces : Prop :=
  (∃ x ∈ r.config.trace, x.node = .humanReview ∧ x.env.requestApproval = none ∧
    x.env.emit .approvalRequested = none) ∨
  (r.config.ending = .recursionError ∧ ∃ x ∈ r.config.trace, x.node = .humanReview) ∨
  (∃ e, r.config.ending = .raised e) ∧ r.failureEmit = none

end FinishedRun

/-- An execution of a task that settles it. -/
inductive Completion where
  /-- `_resolve_repository_path` raises. -/
  | badRepository
  | ran (r : FinishedRun)

namespace Completion

/-- The status the task is left in. -/
def status : Completion → TaskStatus
  | badRepository => .failed
  | ran r => r.config.finalStatus

def acts : Completion → List (Act EventType)
  | badRepository => [.commit .failed]
  | ran r => r.acts

def Announces : Completion → Prop
  | badRepository => False
  | ran r => r.Announces

end Completion

/-- An API request, and after how many publications it raises and rolls back, if it does. -/
structure Request where
  decision : Decision
  fails : Option ℕ

namespace Request

/-- The events of `approve`, `reject` and `cancel`. -/
def events : Decision → List EventType
  | .approve => [.approvalGranted, .taskCompleted]
  | .reject => [.approvalRejected]
  | .cancel => [.taskCancelled]

/-- What the request publishes on a task in a status. -/
def sent (r : Request) (status : TaskStatus) : List EventType :=
  if r.decision.admits status then
    match r.fails with
    | none => events r.decision
    | some k => (events r.decision).take k
  else []

/-- A request publishes before its transaction commits. -/
def acts (r : Request) (status : TaskStatus) : List (Act EventType) :=
  (r.sent status).map .publish ++
    if r.decision.admits status ∧ r.fails = none then [.commit r.decision.status] else []

/-- The request publishes an event that may close a stream. -/
def Announces (r : Request) (status : TaskStatus) : Prop := ∃ e ∈ r.sent status, e.closing = true

end Request

/-- What happens to the task: an execution, and perhaps a request. -/
def history (c : Completion) (request : Option Request) : List (Act EventType) :=
  c.acts ++ request.elim [] fun r => r.acts c.status

/-- **An event that may close a stream is published while the task is settled.** -/
def Announces (c : Completion) (request : Option Request) : Prop :=
  c.Announces ∨ ∃ r ∈ request, r.Announces c.status

/-! ### The node that settles its task -/

/-- An act a stream can end by: a commit, or an event that may close it. -/
def Act.matters : Act EventType → Bool
  | commit _ => true
  | publish event => event.closing

/-- An event that may close a stream is published. -/
def Closes (acts : List (Act EventType)) : Prop := ∃ e, .publish e ∈ acts ∧ e.closing = true

@[simp] theorem closes_append {acts acts' : List (Act EventType)} :
    Closes (acts ++ acts') ↔ Closes acts ∨ Closes acts' := by
  simp only [Closes, List.mem_append, or_and_right, exists_or]

@[simp] theorem closes_nil : ¬ Closes [] := by simp [Closes]

@[simp] theorem closes_commit {status : TaskStatus} {acts : List (Act EventType)} :
    Closes (.commit status :: acts) ↔ Closes acts := by simp [Closes]

@[simp] theorem closes_publish {event : EventType} {acts : List (Act EventType)} :
    Closes (.publish event :: acts) ↔ event.closing = true ∨ Closes acts := by
  simp [Closes, or_and_right, exists_or]

section Run

variable {ctx : WorkflowContext} {x : Execution}

/-- **Only `human_review` settles its task.** -/
theorem settled_status {n : Node} (h : n ≠ .humanReview) : n.status.settled = false := by
  cases n <;> first | rfl | exact absurd rfl h

theorem settled_finalStatus (c : Config) : c.finalStatus.settled = true := by
  rw [Config.finalStatus]
  split
  · rw [outcomeStatus]
    split
    · rfl
    · split <;> rfl
  · rfl
  · rfl

/-- A body commits no status. -/
theorem commit_notMem_bodyActs {status : TaskStatus} : .commit status ∉ bodyActs ctx x := by
  intro h
  obtain ⟨effect, -, heffect⟩ := List.mem_filterMap.mp h
  cases effect with
  | emitted event =>
    rw [published?] at heffect
    split at heffect <;> simp at heffect
  | _ => simp [published?] at heffect

theorem running_nodeActs (h : x.node ≠ .humanReview) : Running (nodeActs ctx x) := by
  intro status hmem
  have hstatus : status = x.node.status := by
    simp only [nodeActs, List.mem_append, List.mem_cons, commit_notMem_bodyActs] at hmem
    split at hmem <;> simpa using hmem
  rw [hstatus]
  exact settled_status h

/-- What `human_review` publishes. -/
theorem bodyActs_humanReview (h : x.node = .humanReview) : bodyActs ctx x =
    if x.env.requestApproval = none ∧ x.env.emit .approvalRequested = none then
      [.publish .approvalRequested] else [] := by
  have heffects : x.effects ctx =
      if x.env.requestApproval = none then [.emitted .approvalRequested] else [] := by
    rw [Execution.effects, Execution.worldAfter, Execution.result, h, Nodes.body, Nodes.humanReview,
      Nodes.requestApproval]
    cases x.env.requestApproval with
    | none =>
      cases hemit : x.env.emit .approvalRequested <;>
        simp [Prog.bind_apply, Prog.call, Prog.modify, Prog.raise, Prog.pure_apply, NodeM.emit,
          NodeM.record, hemit]
    | some e => simp [Prog.bind_apply, Prog.call, Prog.raise]
  rw [bodyActs, heffects]
  by_cases hrequest : x.env.requestApproval = none
  · by_cases hemit : x.env.emit .approvalRequested = none <;> simp [published?, hrequest, hemit]
  · simp [hrequest]

/-- **`human_review` settles its task**, before it asks for the approval. -/
theorem settles_nodeActs (ctx : WorkflowContext)
    (h : x.node = .humanReview) : ∃ later, Settles (nodeActs ctx x) later ∧
    (Closes later ↔ x.env.requestApproval = none ∧ x.env.emit .approvalRequested = none) := by
  refine ⟨bodyActs ctx x ++ if x.env.escape = none then
    [.commit x.node.status, .publish .nodeCompleted] else [],
    ⟨[.publish .nodeStarted], x.node.status, rfl, by simp [Running], by rw [h]; rfl, ?_⟩, ?_⟩
  · refine final_append.mpr ⟨fun status hmem => absurd hmem commit_notMem_bodyActs, ?_⟩
    intro status hmem
    split at hmem
    · have hstatus : status = x.node.status := by simpa using hmem
      rw [hstatus, h]
      rfl
    · simp at hmem
  · have htail : ¬ Closes (if x.env.escape = none then
        [.commit x.node.status, .publish .nodeCompleted] else []) := by
      split <;> simp [EventType.closing]
    rw [closes_append, or_iff_left htail, bodyActs_humanReview h]
    split
    next hsent => simp [hsent, EventType.closing]
    next hsent => simp [hsent]

/-- **`human_review` is the last node of a run.** -/
theorem humanReview_last {s₀ s : AgentState} {w₀ w : World} {t : List Execution} {target : Target}
    (h : Path ctx s₀ w₀ t target s w) : (∀ y ∈ t, y.node ≠ .humanReview) ∨
      ∃ y t', t = y :: t' ∧ y.node = .humanReview ∧ target = .stop ∧
      ∀ z ∈ t', z.node ≠ .humanReview := by
  induction h with
  | nil => exact .inl (by simp)
  | cons h y hn hs hw ih =>
    rcases ih with hnone | ⟨_, _, -, -, hstop, -⟩
    · by_cases hy : y.node = .humanReview
      · exact .inr ⟨y, _, rfl, hy, by rw [Execution.next, hy, route], hnone⟩
      · exact .inl (List.forall_mem_cons.mpr ⟨hy, hnone⟩)
    · simp at hstop

theorem running_flatMap {t : List Execution} (h : ∀ y ∈ t, y.node ≠ .humanReview) :
    Running (t.reverse.flatMap (nodeActs ctx)) := by
  intro status hmem
  obtain ⟨y, hy, hmem⟩ := List.mem_flatMap.mp hmem
  exact running_nodeActs (h y (List.mem_reverse.mp hy)) status hmem

end Run

namespace FinishedRun

variable (r : FinishedRun)

/-- The end of the run commits settled statuses only. -/
theorem final_lastActs : Final r.lastActs := by
  have hfinal := settled_finalStatus r.config
  intro status hmem
  rw [lastActs] at hmem
  split at hmem
  · simp_all
  · simp_all
  · split at hmem <;> simp_all

/-- …the first of them at once, or after `NO_PROGRESS_DETECTED`. -/
theorem settles_lastActs : ∃ later, Settles r.lastActs later ∧
    (Closes later ↔ (∃ e, r.config.ending = .raised e) ∧ r.failureEmit = none) := by
  have hfinal := settled_finalStatus r.config
  rw [lastActs]
  split
  next hending =>
    exact ⟨[], ⟨[], _, rfl, by simp [Running], hfinal, by simp [Final]⟩, by simp [hending]⟩
  next hending =>
    exact ⟨[], ⟨[.publish .noProgressDetected], _, rfl, by simp [Running], hfinal, by simp [Final]⟩,
      by simp [hending]⟩
  next hending =>
    refine ⟨_, ⟨[], _, rfl, by simp [Running], hfinal, ?_⟩, ?_⟩
    · intro status hmem
      split at hmem <;> simp at hmem
    · split <;> simp_all [EventType.closing]

/-- What the end of a run announces, if `human_review` settled the task before. -/
theorem closes_lastActs : Closes r.lastActs ↔ r.config.ending = .recursionError ∨
    (∃ e, r.config.ending = .raised e) ∧ r.failureEmit = none := by
  rw [lastActs]
  split
  next hending => simp [hending]
  next hending => simp [hending, EventType.closing]
  next hending => split <;> simp_all [EventType.closing]

/-- **How a run settles its task, and what it announces.** -/
theorem settles : ∃ later, Settles r.acts later ∧ (Closes later ↔ r.Announces) := by
  have hpath : OnPath r.ctx r.state r.world r.config := onPath_run r.envs
  obtain ⟨target, s, w, hp⟩ := hpath.exists_path
  have hclaimed : Running [Act.publish EventType.taskClaimed] := by simp [Running]
  rcases humanReview_last hp with hnone | ⟨x, t, htrace, hx, -, hnone⟩
  · -- No node settled the task: the end of the run does.
    obtain ⟨later, hlast, hcloses⟩ := r.settles_lastActs
    refine ⟨later, (hlast.prepend (running_flatMap hnone)).prepend hclaimed, ?_⟩
    rw [hcloses, Announces, or_iff_right, or_iff_right]
    · rintro ⟨-, x, hx, hnode⟩
      exact hnone x hx hnode
    · rintro ⟨x, hx, hnode, -⟩
      exact hnone x hx hnode
  · obtain ⟨later, hsettles, hcloses⟩ := settles_nodeActs r.ctx hx
    refine ⟨later ++ r.lastActs, ?_, ?_⟩
    · rw [acts, htrace, List.reverse_cons, List.flatMap_append, List.flatMap_singleton]
      exact ((hsettles.prepend (running_flatMap hnone)).prepend hclaimed).append r.final_lastActs
    · have hvisited : ∃ y ∈ r.config.trace, y.node = .humanReview :=
        ⟨x, by rw [htrace]; exact List.mem_cons_self, hx⟩
      rw [closes_append, hcloses, r.closes_lastActs, Announces, and_iff_left hvisited, htrace]
      refine or_congr_left ⟨fun h => ⟨x, List.mem_cons_self, hx, h⟩, ?_⟩
      rintro ⟨y, hy, hnode, h⟩
      rcases List.mem_cons.mp hy with rfl | hy
      · exact h
      · exact absurd hnode (hnone y hy)

end FinishedRun

namespace Request

variable (r : Request) (status : TaskStatus)

theorem final_acts : Final (r.acts status) := by
  intro status' hmem
  have hmem : status' = r.decision.status := by
    rw [acts, List.mem_append] at hmem
    rcases hmem with hmem | hmem
    · simp at hmem
    · split at hmem <;> simp_all
  rw [hmem, TaskStatus.settled, Decision.terminal_status, Bool.true_or]

theorem closes_acts : Closes (r.acts status) ↔ r.Announces status := by
  have hcommit : ¬ Closes (if r.decision.admits status ∧ r.fails = none
      then [.commit r.decision.status] else []) := by
    split <;> simp
  rw [acts, closes_append, or_iff_left hcommit, Closes, Announces]
  simp

end Request

/-- **How a task settles, and what is announced.** -/
theorem settles_history (c : Completion) (request : Option Request) :
    ∃ later, Settles (history c request) later ∧ (Closes later ↔ Announces c request) := by
  have hcompletion : ∃ later, Settles c.acts later ∧ (Closes later ↔ c.Announces) := by
    cases c with
    | badRepository =>
      exact ⟨[], ⟨[], .failed, rfl, by simp [Running], rfl, by simp [Final]⟩,
        by simp [Completion.Announces]⟩
    | ran r => exact r.settles
  obtain ⟨later, hsettles, hcloses⟩ := hcompletion
  cases request with
  | none => exact ⟨later, by simpa [history] using hsettles, by simpa [Announces] using hcloses⟩
  | some r =>
    refine ⟨later ++ r.acts c.status, hsettles.append (r.final_acts c.status), ?_⟩
    rw [closes_append, hcloses, r.closes_acts, Announces]
    simp

/-! ## A client of the task -/

/-- **A timeline of the task**: its history, with the numbers its events were given, and other
events — those of the agents' tools — anywhere between. -/
structure Timeline (c : Completion) (request : Option Request) where
  acts : List (Act TaskEvent)
  keeps : (acts.map (Act.map TaskEvent.type)).filter Act.matters
    = (history c request).filter Act.matters
  increasing : (published acts).Pairwise (·.sequence < ·.sequence)
  positive : ∀ e ∈ published acts, 0 < e.sequence

/-- **A stream opened while the task is running**, with `after` from the client: the replay is
queried after `past`, and everything published from then on reaches the queue. -/
structure Opening {c : Completion} {request : Option Request} (t : Timeline c request) where
  past : List (Act TaskEvent)
  rest : List (Act TaskEvent)
  split : t.acts = past ++ rest
  /-- The status before the execution. -/
  before : TaskStatus
  running : (statusAfter before past).settled = false
  after : ℤ
  /-- The numbers of the events replayed. -/
  replay : List ℕ
  replayed : ∀ n ∈ replay, ∀ e ∈ published rest, n < e.sequence

section Keeps

variable {acts : List (Act TaskEvent)} {h later : List (Act EventType)}

@[simp] theorem closes_filter : Closes (h.filter Act.matters) ↔ Closes h := by
  simp only [Closes, List.mem_filter, Act.matters]
  exact exists_congr fun e => ⟨fun he => ⟨he.1.1, he.2⟩, fun he => ⟨he, he.2⟩⟩

/-- The events that may close a stream, with and without their numbers. -/
theorem closes_map : Closes (acts.map (Act.map TaskEvent.type)) ↔
    ∃ e ∈ published acts, e.type.closing = true := by
  induction acts with
  | nil => simp
  | cons a acts ih =>
    cases a with
    | commit status => simpa [Act.map] using ih
    | publish event => simpa [Act.map] using or_congr_right ih

/-- A commit of the timeline is one of the history. -/
theorem mem_of_keeps (hkeeps : (acts.map (Act.map TaskEvent.type)).filter Act.matters
    = h.filter Act.matters) {status : TaskStatus} (hmem : .commit status ∈ acts) :
    .commit status ∈ h := by
  have hmapped : .commit status ∈ (acts.map (Act.map TaskEvent.type)).filter Act.matters :=
    List.mem_filter.mpr ⟨List.mem_map.mpr ⟨_, hmem, rfl⟩, rfl⟩
  rw [hkeeps] at hmapped
  exact (List.mem_filter.mp hmapped).1

/-- **A timeline settles as its history does.** -/
theorem Settles.of_keeps (hsettles : Settles h later)
    (hkeeps : (acts.map (Act.map TaskEvent.type)).filter Act.matters = h.filter Act.matters) :
    ∃ later', Settles acts later' ∧
      (later'.map (Act.map TaskEvent.type)).filter Act.matters = later.filter Act.matters := by
  obtain ⟨running, status, rfl, hrunning, hsettled, hlater⟩ := hsettles
  rw [List.filter_append, List.filter_cons_of_pos rfl, List.filter_eq_append_iff] at hkeeps
  obtain ⟨l₁, l₂, hacts, hfirst, hsecond⟩ := hkeeps
  obtain ⟨l₃, l₄, rfl, hquiet, -, hlast⟩ := List.filter_eq_cons_iff.mp hsecond
  obtain ⟨a₁, a₂, rfl, rfl, htail⟩ := List.map_eq_append_iff.mp hacts
  obtain ⟨a₃, a₄, rfl, rfl, hcons⟩ := List.map_eq_append_iff.mp htail
  obtain ⟨a, later', rfl, ha, rfl⟩ := List.map_eq_cons_iff.mp hcons
  obtain rfl : a = .commit status := by cases a <;> simp_all [Act.map]
  refine ⟨later', ⟨a₁ ++ a₃, status, by simp, ?_, hsettled,
    fun s hs => hlater s (mem_of_keeps hlast hs)⟩, hlast⟩
  refine running_append.mpr ⟨fun s hs => hrunning s (mem_of_keeps hfirst hs), fun s hs => ?_⟩
  exact absurd rfl (hquiet (.commit s) (List.mem_map.mpr ⟨_, hs, rfl⟩))

end Keeps

namespace Opening

variable {c : Completion} {request : Option Request} {t : Timeline c request} (o : Opening t)

/-- The highest number sent, when the replay is over. -/
def highest : ℤ := o.replay.foldl (fun (highest : ℤ) (n : ℕ) => max highest n) o.after

/-- The client, when its replay has been queried. -/
def follower : Follower := ⟨o.rest, statusAfter o.before o.past, [], o.highest, .reading⟩

/-- Only `after` can put the client above an event to come. -/
theorem highest_lt_iff {e : TaskEvent} (he : e ∈ published o.rest) :
    o.highest < e.sequence ↔ o.after < e.sequence := by
  have hreplayed := fun n hn => o.replayed n hn e he
  rw [highest]
  generalize o.after = after, o.replay = replay at hreplayed ⊢
  induction replay generalizing after with
  | nil => rfl
  | cons n replay ih =>
    have hn := hreplayed n List.mem_cons_self
    have hrest := ih (max after n) fun m hm => hreplayed m (List.mem_cons_of_mem _ hm)
    rw [List.foldl_cons]
    exact hrest.trans (by omega)

/-- **When a stream ends on a settled task**: exactly if an event that may close it is published
while the task is settled, and the client did not ask for what comes after all such events. -/
theorem ends_iff : o.follower.Ends ↔
    Announces c request ∧ ∃ e ∈ published o.rest, e.type.closing = true ∧ o.after < e.sequence := by
  obtain ⟨later, hhistory, hcloses⟩ := settles_history c request
  obtain ⟨later', htimeline, hkeeps⟩ := hhistory.of_keeps t.keeps
  have hrest : Settles o.rest later' := by
    rw [o.split] at htimeline
    exact htimeline.of_append o.running
  have hannounces : Announces c request ↔ ∃ e ∈ published later', e.type.closing = true := by
    rw [← hcloses, ← closes_filter, ← hkeeps, closes_filter, closes_map]
  have hincreasing : (published o.rest).Pairwise (·.sequence < ·.sequence) := by
    have hall := t.increasing
    rw [o.split, published_append] at hall
    exact (List.pairwise_append.mp hall).2.1
  have hpositive : ∀ e ∈ published o.rest, 0 < e.sequence := by
    intro e he
    exact t.positive e (by rw [o.split, published_append]; exact List.mem_append_right _ he)
  rw [follower, Follower.ends_iff_announced o.running hrest.settled hincreasing hpositive
    (hrest.staysSettled o.running), hrest.exists_announced_iff o.running hincreasing, hannounces]
  refine and_congr_right fun _ => exists_congr fun e => and_congr_right fun he => ?_
  rw [o.highest_lt_iff he]

end Opening

/-! ## A stream that ends, and one that does not -/

/-- The events numbered in the order of their publication. -/
def number : ℕ → List (Act EventType) → List (Act TaskEvent)
  | _, [] => []
  | n, .commit status :: acts => .commit status :: number n acts
  | n, .publish event :: acts => .publish ⟨n, n, event⟩ :: number (n + 1) acts

/-- Every call answers, and the task goes to `human_review`. -/
def reviewedRun : FinishedRun where
  ctx := sampleContext
  state := initialState sampleArguments
  world := sampleWorld
  envs := List.replicate 11 .calm
  isOver := .inl fun n => by
    have hended : (sampleRun (List.replicate 11 .calm)).pc = .ended := by decide +kernel
    exact (congrArg (· ≠ .node n) hended).mpr (by simp)
  failureEmit := none

/-- Its events, numbered from 1. -/
def reviewedTimeline : Timeline (.ran reviewedRun) none where
  acts := number 1 reviewedRun.acts
  keeps := by decide +kernel
  increasing := by decide +kernel
  positive := by decide +kernel

/-- A client that opens its stream while `plan` runs, with nothing replayed. -/
def reviewedOpening : Opening reviewedTimeline where
  past := reviewedTimeline.acts.take 3
  rest := reviewedTimeline.acts.drop 3
  split := (List.take_append_drop _ _).symm
  before := .queued
  running := by decide +kernel
  after := 0
  replay := []
  replayed := by simp

/-- **A task handed to a reviewer ends its streams**: `APPROVAL_REQUESTED` is published while the
task is settled. -/
theorem reviewedOpening_ends : reviewedOpening.follower.Ends := by
  have hlast : ∃ x ∈ reviewedRun.config.trace, x.node = .humanReview ∧
      x.env.requestApproval = none ∧ x.env.emit .approvalRequested = none := by decide +kernel
  have hsent : ∃ e ∈ published reviewedOpening.rest, e.type.closing = true ∧
      (0 : ℤ) < e.sequence := by
    decide +kernel
  exact reviewedOpening.ends_iff.mpr ⟨.inl (.inl hlast), hsent⟩

/-- The suite fails the same way twice, and the task goes to `halt`. -/
def haltedRun : FinishedRun where
  ctx := sampleContext
  state := initialState sampleArguments
  world := sampleWorld
  envs := failedPlan
  isOver := .inl fun n => by
    have hended : (sampleRun failedPlan).pc = .ended := by decide +kernel
    exact (congrArg (· ≠ .node n) hended).mpr (by simp)
  failureEmit := none

/-- Its events, numbered from 1. -/
def haltedTimeline : Timeline (.ran haltedRun) none where
  acts := number 1 haltedRun.acts
  keeps := by decide +kernel
  increasing := by decide +kernel
  positive := by decide +kernel

/-- A client that opens its stream while `plan` runs: `TASK_CLAIMED` and `NODE_STARTED` are
replayed. -/
def haltedOpening : Opening haltedTimeline where
  past := haltedTimeline.acts.take 3
  rest := haltedTimeline.acts.drop 3
  split := (List.take_append_drop _ _).symm
  before := .queued
  running := by decide +kernel
  after := 0
  replay := [1, 2]
  replayed := by decide +kernel

/-- **A halted task keeps its stream open**: `NO_PROGRESS_DETECTED` is handed over while the status
is still `PLANNING`, `_finalize` settles the task, and nothing is published after it. -/
theorem haltedOpening_not_ends : ¬ haltedOpening.follower.Ends := by
  intro h
  have hended := h (.get :: Follower.prompt haltedOpening.rest)
    ⟨by decide +kernel, by decide +kernel, by decide +kernel, by decide +kernel⟩
  exact absurd hended (by decide +kernel)

end StreamEnd

end AgentPlatform
