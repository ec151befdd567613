import AgentPlatform.Core.Domain
import AgentPlatform.Infrastructure.EventBus
import AgentPlatform.Machinery.EventSource
import AgentPlatform.Machinery.JsonParse

/-!
# Api/SseFrames — what the browser makes of the stream's text

`_sse` writes an event as one block of an event stream, its type in the `event` field and all of it
as JSON in the `data` field; a heartbeat is a comment.  The client of `apps/web/lib/api.ts` has a
listener for each of its `KNOWN_EVENT_TYPES` and one for `STREAM_END`.

* `client_receives` — the client is handed the events sent before `STREAM_END`, each once and in
  order, wherever the text is cut off a beginning of them, and it is told once that the stream has
  ended, if a browser reads the numbers in the events exactly.
-/

namespace AgentPlatform

open Json EventSource

/-- The value of an `EventType`. -/
def EventType.value : EventType → String
  | .taskCreated => "TASK_CREATED"
  | .taskClaimed => "TASK_CLAIMED"
  | .nodeStarted => "NODE_STARTED"
  | .nodeCompleted => "NODE_COMPLETED"
  | .toolCalled => "TOOL_CALLED"
  | .toolCompleted => "TOOL_COMPLETED"
  | .toolFailed => "TOOL_FAILED"
  | .planCreated => "PLAN_CREATED"
  | .filesDiscovered => "FILES_DISCOVERED"
  | .riskAssessed => "RISK_ASSESSED"
  | .workspaceCreated => "WORKSPACE_CREATED"
  | .fileChanged => "FILE_CHANGED"
  | .testsStarted => "TESTS_STARTED"
  | .testsPassed => "TESTS_PASSED"
  | .testFailed => "TEST_FAILED"
  | .debugIteration => "DEBUG_ITERATION"
  | .noProgressDetected => "NO_PROGRESS_DETECTED"
  | .policyEvaluated => "POLICY_EVALUATED"
  | .policyBlocked => "POLICY_BLOCKED"
  | .commitCreated => "COMMIT_CREATED"
  | .ciStarted => "CI_STARTED"
  | .ciCompleted => "CI_COMPLETED"
  | .approvalRequested => "APPROVAL_REQUESTED"
  | .approvalGranted => "APPROVAL_GRANTED"
  | .approvalRejected => "APPROVAL_REJECTED"
  | .prCreated => "PR_CREATED"
  | .taskCompleted => "TASK_COMPLETED"
  | .taskFailed => "TASK_FAILED"
  | .taskCancelled => "TASK_CANCELLED"

/-! ## The server -/

variable {F : Type} {D : Decoder F}

/-- `_sse`; `none` is the `KeyError` of a payload without a type. -/
def sse (E : FloatStr D) (payload : Dict F) : Option Text :=
  ((Grouping.value payload (key "type")).bind Event.str?).map fun type =>
    ['e', 'v', 'e', 'n', 't', ':', ' '] ++ textOf type ++ ['\n', 'd', 'a', 't', 'a', ':', ' '] ++
      dumps E.floatstr (.object payload) ++ ['\n', '\n']

/-- What the generator of `stream_events` yields. -/
inductive Frame (F : Type) where
  | event (e : Event F)
  | heartbeat
  | streamEnd (taskId : Json.Key) (highest : ℤ)

namespace Frame

/-- The dictionary of an event, in a replay and live. -/
def eventDict (e : Event F) : Dict F :=
  [(key "id", .string e.id), (key "task_id", .string e.taskId), (key "type", .string e.type),
    (key "sequence", .int e.sequence), (key "payload", .object e.payload),
    (key "timestamp", .string e.timestamp)]

def endDict (taskId : Json.Key) (highest : ℤ) : Dict F :=
  [(key "type", .string (key "STREAM_END")), (key "task_id", .string taskId),
    (key "sequence", .int highest), (key "payload", .object [])]

/-- The text of a frame. -/
def text (E : FloatStr D) : Frame F → Option Text
  | event e => sse E (eventDict e)
  | heartbeat => some [':', ' ', 'h', 'e', 'a', 'r', 't', 'b', 'e', 'a', 't', '\n', '\n']
  | streamEnd taskId highest => sse E (endDict taskId highest)

/-- The event of a frame. -/
def event? : Frame F → Option (Event F)
  | event e => some e
  | _ => none

/-- `STREAM_END`. -/
def isEnd : Frame F → Bool
  | streamEnd _ _ => true
  | _ => false

/-- An event is one of the platform's, and a browser reads it exactly: its texts are strings, its
floats finite, and its integers within `2 ^ 53`. -/
def Sound (B : Browser F) (E : FloatStr D) : Frame F → Prop
  | event e => B.Exact E.floatstr (.object e.toDict) ∧ ∃ t : EventType, e.type = key t.value
  | heartbeat => True
  | streamEnd taskId _ => IsStr taskId

end Frame

/-- The text of a stream. -/
def streamText (E : FloatStr D) (frames : List (Frame F)) : Text :=
  frames.flatMap fun f => (f.text E).getD []

/-! ## The client -/

/-- `KNOWN_EVENT_TYPES`. -/
def knownEventTypes : List String :=
  ["TASK_CREATED", "TASK_CLAIMED", "NODE_STARTED", "NODE_COMPLETED", "TOOL_CALLED",
    "TOOL_COMPLETED", "TOOL_FAILED", "PLAN_CREATED", "FILES_DISCOVERED", "RISK_ASSESSED",
    "WORKSPACE_CREATED", "FILE_CHANGED", "TESTS_STARTED", "TESTS_PASSED", "TEST_FAILED",
    "DEBUG_ITERATION", "NO_PROGRESS_DETECTED", "POLICY_EVALUATED", "POLICY_BLOCKED",
    "COMMIT_CREATED", "CI_STARTED", "CI_COMPLETED", "APPROVAL_REQUESTED", "APPROVAL_GRANTED",
    "APPROVAL_REJECTED", "PR_CREATED", "TASK_COMPLETED", "TASK_FAILED", "TASK_CANCELLED"]

/-- A subscription of `subscribeToEvents`: whether its source is open, what `onEvent` was called
with, and how often `onEnd` was called. -/
structure Subscription (F : Type) where
  isOpen : Bool
  events : List (Json F)
  ends : ℕ

namespace Subscription

/-- `source.close(); onEnd()`. -/
def finish (c : Subscription F) : Subscription F := { c with isOpen := false, ends := c.ends + 1 }

/-- `handle`; a text that `JSON.parse` refuses is dropped, and so is `null`, which has no type. -/
def handle (browser : Browser F) (c : Subscription F) (data : Text) : Subscription F :=
  match browser.parse data with
  | none => c
  | some .null => c
  | some (.object d) =>
    match Grouping.value d (key "type") with
    | some (.string type) =>
      if type = key "STREAM_END" then c.finish else { c with events := c.events ++ [.object d] }
    | _ => { c with events := c.events ++ [.object d] }
  | some parsed => { c with events := c.events ++ [parsed] }

/-- The listeners. -/
def listen (browser : Browser F) (c : Subscription F) (e : Dispatch) : Subscription F :=
  if !c.isOpen then c
  else if e.1 = "STREAM_END".toList then c.finish
  else if e.1 = defaultType ∨ knownEventTypes.any fun type =>
    e.1 = type.toList then c.handle browser e.2
  else c

/-- `onerror`, which the end of the connection brings about. -/
def error (c : Subscription F) : Subscription F := if c.isOpen then c.finish else c

/-- `subscribeToEvents`, on what has come of the stream's text. -/
def read (browser : Browser F) (stream : Text) : Subscription F :=
  (dispatched stream).foldl (listen browser) ⟨true, [], 0⟩

end Subscription

/-- What is handed to the client of a stream. -/
def delivered (frames : List (Frame F)) : List (Json F) :=
  ((frames.takeWhile fun f => !f.isEnd).filterMap Frame.event?).map fun e =>
    .object (Frame.eventDict e)

/-! ## Frames are blocks -/

variable {B : Browser F} {E : FloatStr D} {e : Event F} {f : Frame F}

theorem oneLine_of_printable {t : Text} (h : Printable t) : OneLine t := by
  intro c hc
  have hrange : 0x20 ≤ c.toNat ∧ c.toNat ≤ 0x7e := by simpa [Text.isPrintable] using h c hc
  constructor <;> rintro rfl <;> exact absurd hrange.1 (by decide)

theorem plain_value (t : EventType) : OneLine t.value.toList ∧ t.value.toList ≠ [] := by
  refine ⟨oneLine_of_printable ?_, ?_⟩
  · cases t <;> decide
  · cases t <;> decide

/-- The browser listens to every type of the platform, and takes none for the end. -/
theorem known_value (t : EventType) : t.value ≠ "STREAM_END" ∧ t.value ∈ knownEventTypes := by
  cases t <;> decide

namespace Frame

/-- A frame as a block of the event stream. -/
def block (E : FloatStr D) : Frame F → Block
  | event e => .event (textOf e.type) (dumps E.floatstr (.object (eventDict e)))
  | heartbeat => .comment ['h', 'e', 'a', 'r', 't', 'b', 'e', 'a', 't']
  | streamEnd taskId highest =>
    .event (textOf (key "STREAM_END")) (dumps E.floatstr (.object (endDict taskId highest)))

theorem text_eq_block : f.text E = some (f.block E).text := by
  cases f with
  | event e =>
    have htype : (Grouping.value (eventDict e) (key "type")).bind Event.str? = some e.type := rfl
    simp [text, sse, htype, block, Block.text, fieldLine, eventName, dataName]
  | heartbeat => rfl
  | streamEnd taskId highest =>
    have htype : (Grouping.value (endDict (F := F) taskId highest) (key "type")).bind Event.str? =
        some (key "STREAM_END") := rfl
    simp [text, sse, htype, block, Block.text, fieldLine, eventName, dataName]

theorem plain_block (h : f.Sound B E) : (f.block E).Plain := by
  cases f with
  | event e =>
    obtain ⟨-, t, ht⟩ := h
    obtain ⟨hline, hne⟩ := plain_value t
    rw [block, ht, textOf_key]
    exact ⟨hline, hne, oneLine_of_printable (printable_dumps E _)⟩
  | heartbeat => exact oneLine_of_printable (by decide)
  | streamEnd taskId highest =>
    rw [block, textOf_key]
    exact ⟨oneLine_of_printable (by decide), by decide, oneLine_of_printable (printable_dumps E _)⟩

/-- The dictionary of the stream has the fields of the event's own. -/
theorem exact_eventDict (h : B.Exact E.floatstr (.object e.toDict)) :
    B.Exact E.floatstr (.object (eventDict e)) :=
  FaithfulOn.of_subset h (by simp [eventDict, Event.toDict])
    (by decide : ["id", "task_id", "type", "sequence", "payload", "timestamp"].map key |>.Nodup)

end Frame

/-! ## The client hears the frames -/

namespace Subscription

variable {c : Subscription F} {frames : List (Frame F)}

theorem listen_closed (h : c.isOpen = false)
    (d : Dispatch) : c.listen B d = c := by simp [listen, h]

theorem foldl_listen_closed (h : c.isOpen = false)
    (ds : List Dispatch) : ds.foldl (listen B) c = c := by
  induction ds with
  | nil => rfl
  | cons d ds ih => rw [List.foldl_cons, listen_closed h, ih]

variable {events : List (Json F)} {ends : ℕ}

/-- An event is handed on. -/
theorem listen_event (h : (Frame.event e).Sound B E) :
    listen B ⟨true, events, ends⟩ (textOf e.type, dumps E.floatstr (.object (Frame.eventDict e))) =
      ⟨true, events ++ [.object (Frame.eventDict e)], ends⟩ := by
  obtain ⟨hexact, t, ht⟩ := h
  obtain ⟨hend, hknown⟩ := known_value t
  have hparse := Browser.parse_dumps (Frame.exact_eventDict hexact)
  have htype : Grouping.value (Frame.eventDict e) (key "type") = some (.string e.type) := rfl
  have hlisten : (knownEventTypes.any fun type => t.value = type) = true :=
    List.any_eq_true.mpr ⟨t.value, hknown, decide_eq_true rfl⟩
  simp only [listen, ht, textOf_key, Bool.not_true, Bool.false_eq_true, if_false,
    String.toList_inj, hend]
  rw [if_pos (.inr hlisten), handle, hparse]
  simp only [htype, ht, key_injective.eq_iff, hend, if_false]

/-- The end is heard. -/
theorem listen_end (data : Text) :
    listen B ⟨true, events, ends⟩ (textOf (key "STREAM_END"), data)
      = ⟨false, events, ends + 1⟩ := by
  simp [listen, textOf_key, finish]

/-- **What an open subscription makes of frames**: it hands on the events before the end. -/
theorem foldl_listen (events : List (Json F)) (ends : ℕ) (h : ∀ f ∈ frames, f.Sound B E) :
    (frames.filterMap fun f => (f.block E).event?).foldl (listen B) ⟨true, events, ends⟩ =
      ⟨!frames.any Frame.isEnd, events ++ delivered frames,
        ends + if frames.any Frame.isEnd then 1 else 0⟩ := by
  induction frames generalizing events with
  | nil => simp [delivered]
  | cons f frames ih =>
    obtain ⟨hf, hrest⟩ := List.forall_mem_cons.mp h
    cases f with
    | event e =>
      have hfirst : (Frame.block E (.event e)).event? =
          some (textOf e.type, dumps E.floatstr (.object (Frame.eventDict e))) := rfl
      rw [List.filterMap_cons, hfirst, List.foldl_cons, listen_event hf, ih _ hrest]
      simp [Frame.isEnd, delivered, Frame.event?]
    | heartbeat =>
      have hfirst : (Frame.block E (.heartbeat : Frame F)).event? = none := rfl
      have hdelivered : delivered ((.heartbeat : Frame F) :: frames) = delivered frames := rfl
      rw [List.filterMap_cons, hfirst, ih _ hrest, hdelivered]
      rfl
    | streamEnd taskId highest =>
      have hfirst : (Frame.block E (.streamEnd taskId highest : Frame F)).event? =
          some (textOf (key "STREAM_END"),
            dumps E.floatstr (.object (Frame.endDict taskId highest))) := rfl
      rw [List.filterMap_cons, hfirst, List.foldl_cons, listen_end, foldl_listen_closed rfl]
      simp [Frame.isEnd, delivered]

/-- Open and nothing ended, or closed and ended once. -/
def Told (c : Subscription F) : Prop := c.ends = if c.isOpen then 0 else 1

/-- A listener does nothing, or ends an open subscription, or hands on one thing more. -/
theorem listen_cases (B : Browser F) (c : Subscription F) (d : Dispatch) :
    c.listen B d = c ∨ c.isOpen = true ∧ c.listen B d = c.finish ∨
      ∃ v, c.listen B d = { c with events := c.events ++ [v] } := by
  obtain ⟨_ | _, events, ends⟩ := c
  · exact .inl rfl
  · rw [listen, if_neg (by simp)]
    split
    · exact .inr (.inl ⟨rfl, rfl⟩)
    · split
      · rw [handle]
        repeat' split
        all_goals first
          | exact .inl rfl
          | exact .inr (.inl ⟨rfl, rfl⟩)
          | exact .inr (.inr ⟨_, rfl⟩)
      · exact .inl rfl

theorem foldl_listen_mono (ds : List Dispatch) (h : c.Told) :
    c.events <+: (ds.foldl (listen B) c).events ∧ (ds.foldl (listen B) c).Told := by
  induction ds generalizing c with
  | nil => exact ⟨List.prefix_rfl, h⟩
  | cons d ds ih =>
    rw [List.foldl_cons]
    rcases listen_cases B c d with hd | ⟨hopen, hd⟩ | ⟨v, hd⟩
    · rw [hd]
      exact ih h
    · rw [hd]
      have hends : c.ends = 0 := by rw [h, if_pos hopen]
      exact ih (c := c.finish) (by simp [Told, finish, hends])
    · rw [hd]
      obtain ⟨hevents, htold⟩ := ih (c := { c with events := c.events ++ [v] }) h
      exact ⟨(List.prefix_append _ _).trans hevents, htold⟩

end Subscription

/-- **The client receives what was sent**: of a stream's whole text, the events before `STREAM_END`,
each once and in order; of any beginning of it, a beginning of these; and when the connection is
gone it has been told once that the stream ended. -/
theorem client_receives (B : Browser F) (E : FloatStr D) {frames : List (Frame F)}
    (h : ∀ f ∈ frames, f.Sound B E) :
    (Subscription.read B (streamText E frames)).events = delivered frames ∧
      ((Subscription.read B (streamText E frames)).isOpen = false ↔ ∃ f ∈ frames, f.isEnd = true) ∧
      ∀ stream, stream <+: streamText E frames →
        (Subscription.read B stream).events <+: delivered frames ∧
          (Subscription.read B stream).error.ends = 1 := by
  have hblocks : streamText E frames = (frames.map (Frame.block E)).flatMap Block.text := by
    rw [streamText, List.flatMap_map]
    exact List.flatMap_congr fun f _ => by rw [Frame.text_eq_block, Option.getD_some]
  have hdispatched : dispatched (streamText E frames) = frames.filterMap fun f =>
      (f.block E).event? := by
    have hplain : ∀ b ∈ frames.map (Frame.block E), b.Plain := by
      intro b hb
      obtain ⟨f, hf, rfl⟩ := List.mem_map.mp hb
      exact Frame.plain_block (h f hf)
    have hread := dispatched_blocks hplain []
    rw [List.append_nil, ← hblocks, List.filterMap_map] at hread
    exact hread.trans (List.append_nil _)
  have hwhole := Subscription.foldl_listen (E := E) [] 0 h
  rw [← hdispatched] at hwhole
  refine ⟨by rw [Subscription.read, hwhole, List.nil_append], ?_, fun stream hstream => ?_⟩
  · rw [Subscription.read, hwhole]
    simp
  · obtain ⟨more, hmore⟩ := dispatched_mono hstream
    rw [← hmore, List.foldl_append] at hwhole
    obtain ⟨-, htold⟩ := Subscription.foldl_listen_mono (B := B) (c := ⟨true, [], 0⟩)
      (dispatched stream) rfl
    obtain ⟨hevents, -⟩ := Subscription.foldl_listen_mono (B := B) more htold
    rw [hwhole] at hevents
    refine ⟨hevents, ?_⟩
    change Subscription.Told (Subscription.read B stream) at htold
    rw [Subscription.Told] at htold
    rw [Subscription.error]
    split at htold
    · rename_i hopen
      rw [if_pos hopen, Subscription.finish, htold]
    · rename_i hclosed
      rw [if_neg hclosed, htold]

/-- A task's first event, a quiet while, its last event, and the end. -/
def shortStream : List (Frame Unit) :=
  [.event (RedisEventBus.plainEvent "task-1" "TASK_CLAIMED" 2), .heartbeat,
    .event (RedisEventBus.plainEvent "task-1" "TASK_FAILED" 3), .streamEnd (key "task-1") 3]

/-- A browser with no integer beyond `2 ^ 53`. -/
def smallBrowser : Browser Unit where
  parseFloat := fun _ => ()
  double := fun i => if i.natAbs ≤ 2 ^ 53 then .int i else .float ()
  double_exact := fun _ hi => if_pos hi

theorem client_receives_shortStream :
    (Subscription.read smallBrowser (streamText RedisEventBus.loopback.floats shortStream)).events =
      [.object (Frame.eventDict (RedisEventBus.plainEvent "task-1" "TASK_CLAIMED" 2)),
        .object (Frame.eventDict (RedisEventBus.plainEvent "task-1" "TASK_FAILED" 3))] := by
  have hsound : ∀ f ∈ shortStream, f.Sound smallBrowser RedisEventBus.loopback.floats := by
    intro f hf
    simp only [shortStream, List.mem_cons, List.not_mem_nil, or_false] at hf
    rcases hf with rfl | rfl | rfl | rfl
    · exact ⟨RedisEventBus.faithful_plainEvent _ _ (by decide), .taskClaimed, rfl⟩
    · trivial
    · exact ⟨RedisEventBus.faithful_plainEvent _ _ (by decide), .taskFailed, rfl⟩
    · exact isStr_key _
  exact (client_receives smallBrowser RedisEventBus.loopback.floats hsound).1

end AgentPlatform
