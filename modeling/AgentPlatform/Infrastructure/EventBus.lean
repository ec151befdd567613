import AgentPlatform.Machinery.Fanout
import AgentPlatform.Machinery.Grouping
import AgentPlatform.Machinery.JsonDumps
import Mathlib.Data.Finset.Insert
import Mathlib.Data.Finset.Basic

/-!
# Infrastructure/EventBus — the two event buses

`MemoryEventBus` keeps a set of queues for each task; `RedisEventBus` sends an event as JSON on the
channel of its task.  A subscription is the generator `subscribe` returns: it is opened by its first
`__anext__`, and closed by its `finally`.

* `memoryEventBus_delivers`, `redisEventBus_delivers` — a subscriber of either gets the events
  published under its task since it subscribed, each once and in order; of Redis only that it fans
  messages out to the subscribers of their channel is used.
-/

namespace AgentPlatform

open Json Fanout

/-! ## Events -/

/-- `Event`. -/
structure Event (F : Type) where
  taskId : Json.Key
  type : Json.Key
  payload : Dict F
  sequence : ℤ
  id : Json.Key
  timestamp : Json.Key

namespace Event

variable {F : Type}

/-- `to_dict`. -/
def toDict (e : Event F) : Dict F :=
  [(key "task_id", .string e.taskId), (key "type", .string e.type),
    (key "payload", .object e.payload), (key "sequence", .int e.sequence), (key "id", .string e.id),
    (key "timestamp", .string e.timestamp)]

/-- A keyword argument, or the default of its field. -/
def argument {α : Type} (d : Dict F) (name : String) (cast : Json F → Option α)
    (default : Option α) :
    Option α :=
  match Grouping.value d (key name) with
  | some v => cast v
  | none => default

/-- A field that is a string. -/
def str? : Json F → Option Json.Key
  | .string s => some s
  | _ => none

def int? : Json F → Option ℤ
  | .int i => some i
  | _ => none

def dict? : Json F → Option (Dict F)
  | .object d => some d
  | _ => none

/-- The fields. -/
def fields : List Json.Key := ["task_id", "type", "payload", "sequence", "id", "timestamp"].map key

/-- `Event(**payload)`, with the id and the time its defaults would be; `none` is the `TypeError`.
It is `none` as well where a value is of another type, which the dataclass does not check. -/
def ofDict (newId now : Json.Key) (d : Dict F) : Option (Event F) :=
  if d.any fun p => !(fields.contains p.1) then none
  else do
    let taskId ← argument d "task_id" str? none
    let type ← argument d "type" str? none
    let payload ← argument d "payload" dict? (some [])
    let sequence ← argument d "sequence" int? (some 0)
    let id ← argument d "id" str? (some newId)
    let timestamp ← argument d "timestamp" str? (some now)
    return ⟨taskId, type, payload, sequence, id, timestamp⟩

/-- **An event is built again from its dictionary**, no default needed. -/
theorem ofDict_toDict (newId now : Json.Key)
    (e : Event F) : ofDict newId now e.toDict = some e := rfl

/-- Its texts are strings, and its payload is one that JSON has a text for. -/
def Sound (e : Event F) : Prop := Faithful (.object e.toDict)

end Event

/-! ## In process -/

/-- `MemoryEventBus`, with the queue and the task of each running subscription. -/
structure MemoryEventBus (F : Type) where
  subscribers : List (Json.Key × Finset ℕ)
  queues : ℕ → List (Event F)
  frames : ℕ → Option Json.Key

namespace MemoryEventBus

variable {F : Type}

/-- `self._subscribers.get(task_id, ())`. -/
def registered (subscribers : List (Json.Key × Finset ℕ)) (taskId : Json.Key) : Finset ℕ :=
  (Grouping.value subscribers taskId).getD ∅

/-- `self._subscribers.setdefault(task_id, set()).add(queue)`. -/
def register (subscribers : List (Json.Key × Finset ℕ)) (taskId : Json.Key)
    (i : ℕ) : List (Json.Key × Finset ℕ) :=
  Grouping.note (fun _ : ℕ => taskId) (fun i => {i}) (fun queues i => insert i queues) subscribers i

/-- The `finally` of `subscribe`: the last queue of a task takes the task's set with it. -/
def discard (subscribers : List (Json.Key × Finset ℕ)) (taskId : Json.Key)
    (i : ℕ) : List (Json.Key × Finset ℕ) :=
  match Grouping.value subscribers taskId with
  | none => subscribers
  | some queues =>
    if queues = ∅ then subscribers
    else if queues.erase i = ∅ then subscribers.filter (·.1 ≠ taskId)
    else subscribers.map fun p => if p.1 = taskId then (p.1, queues.erase i) else p

def empty : MemoryEventBus F := ⟨[], fun _ => [], fun _ => none⟩

/-- `publish`, and the turns of the generator `subscribe`: up to its first `await`, from an event to
the next, and its end. -/
def call (b : MemoryEventBus F) : Act Json.Key (Event F) → Option (Event F) × MemoryEventBus F
  | .publish e =>
    let subscribed := registered b.subscribers e.taskId
    (none, { b with queues := fun i => if i ∈ subscribed then b.queues i ++ [e] else b.queues i })
  | .subscribe i taskId =>
    match b.frames i with
    | some _ => (none, b)
    | none =>
      (none, ⟨register b.subscribers taskId i, Function.update b.queues i [],
        Function.update b.frames i (some taskId)⟩)
  | .take i =>
    match b.frames i, b.queues i with
    | some _, e :: queue => (some e, { b with queues := Function.update b.queues i queue })
    | _, _ => (none, b)
  | .close i =>
    match b.frames i with
    | none => (none, b)
    | some taskId =>
      (none, { b with subscribers := discard b.subscribers taskId i, frames :=
        Function.update b.frames i none })

variable {subscribers : List (Json.Key × Finset ℕ)} {taskId other : Json.Key} {i : ℕ}

theorem value_register : Grouping.value (register subscribers taskId i) other =
    if taskId = other then some (insert i (registered subscribers taskId))
    else Grouping.value subscribers other := by
  rw [register, Grouping.value_note]
  split
  · rename_i h
    subst h
    rw [registered]
    cases Grouping.value subscribers taskId <;> simp [Grouping.feed]
  · rfl

/-- A set is taken away with its last queue. -/
theorem value_discard (h : ∀ queues, Grouping.value subscribers taskId = some queues → queues ≠ ∅) :
    Grouping.value (discard subscribers taskId i) other =
      if taskId = other then
        if (registered subscribers taskId).erase i = ∅ then none
        else some ((registered subscribers taskId).erase i)
      else Grouping.value subscribers other := by
  rw [discard, registered]
  split
  · rename_i hnone
    split
    · rename_i hother
      subst hother
      simp [hnone]
    · rfl
  · rename_i queues hqueues
    rw [if_neg (h queues hqueues), hqueues, Option.getD_some]
    split
    · rw [Grouping.value_filter_ne]
      simp only [eq_comm]
    · have hmap : (subscribers.map fun p => if p.1 = taskId then (p.1, queues.erase i) else p) =
          subscribers.map fun p => (p.1, if p.1 = taskId then queues.erase i else p.2) :=
        List.map_congr_left fun p _ => by split <;> rfl
      rw [hmap]
      refine (Grouping.value_map (f := fun t q =>
        if t = taskId then queues.erase i else q)).trans ?_
      split
      · rename_i hother
        subst hother
        simp [hqueues]
      · rename_i hother
        simp [Ne.symm hother]

/-- The mailboxes of the specification are the queues of the running subscriptions, and a task is
registered with exactly these. -/
structure Tracks (b : MemoryEventBus F) (boxes : Boxes Json.Key (Event F)) : Prop where
  boxes : ∀ i, boxes i = (b.frames i).map fun taskId => (taskId, b.queues i)
  registered : ∀ i taskId, i ∈ registered b.subscribers taskId ↔ b.frames i = some taskId
  nonempty : ∀ taskId queues, Grouping.value b.subscribers taskId = some queues → queues ≠ ∅

variable {b : MemoryEventBus F} {boxes : Boxes Json.Key (Event F)}

theorem Tracks.subscribe (h : b.Tracks boxes) (hframe : b.frames i = none) :
    Tracks ⟨register b.subscribers taskId i, Function.update b.queues i [],
      Function.update b.frames i (some taskId)⟩ (Function.update boxes i (some (taskId, []))) := by
  refine ⟨fun j => ?_, fun j t => ?_, fun t queues ht => ?_⟩
  · by_cases hj : j = i
    · subst hj
      simp
    · simp [Function.update_of_ne hj, h.boxes]
  · have hregistered := h.registered j t
    rw [MemoryEventBus.registered, value_register]
    dsimp only
    by_cases hj : j = i
    · subst hj
      rw [Function.update_self]
      split
      · simp [*]
      · rename_i ht
        rw [← MemoryEventBus.registered, hregistered, hframe]
        simp [ht]
    · rw [Function.update_of_ne hj, ← hregistered]
      split
      · rename_i ht
        simp [hj, ht]
      · rfl
  · rw [value_register] at ht
    split at ht
    · cases ht
      exact Finset.insert_ne_empty _ _
    · exact h.nonempty t queues ht

theorem Tracks.close (h : b.Tracks boxes) (hframe : b.frames i = some taskId) :
    Tracks { b with subscribers := discard b.subscribers taskId i, frames :=
      Function.update b.frames i none }
      (Function.update boxes i none) := by
  refine ⟨fun j => ?_, fun j t => ?_, fun t queues ht => ?_⟩
  · by_cases hj : j = i
    · subst hj
      simp
    · simp [Function.update_of_ne hj, h.boxes]
  · have hregistered := h.registered j t
    have herase : (Grouping.value (discard b.subscribers taskId i) t).getD ∅ =
        if taskId = t then (MemoryEventBus.registered b.subscribers taskId).erase i
        else MemoryEventBus.registered b.subscribers t := by
      rw [value_discard (h.nonempty taskId)]
      split
      · split
        · rename_i hempty
          rw [hempty, Option.getD_none]
        · rfl
      · rfl
    rw [MemoryEventBus.registered, herase]
    dsimp only
    by_cases hj : j = i
    · subst hj
      rw [Function.update_self]
      split
      · simp
      · rename_i ht
        rw [hregistered, hframe]
        simp [ht]
    · rw [Function.update_of_ne hj, ← hregistered]
      split
      · rename_i ht
        simp [hj, ht]
      · rfl
  · rw [value_discard (h.nonempty taskId)] at ht
    split at ht
    · split at ht
      · cases ht
      · cases ht
        assumption
    · exact h.nonempty t queues ht

/-- **One call of the bus is one step of the specification.** -/
theorem Tracks.call (h : b.Tracks boxes) (a : Act Json.Key (Event F)) :
    (b.call a).1 = (Fanout.step Event.taskId (fun _ => []) boxes a).1 ∧
      (b.call a).2.Tracks (Fanout.step Event.taskId (fun _ => []) boxes a).2 := by
  cases a with
  | publish e =>
    refine ⟨rfl, fun i => ?_, h.registered, h.nonempty⟩
    simp only [MemoryEventBus.call, Fanout.step, h.boxes, h.registered]
    cases b.frames i <;> simp
  | subscribe i taskId =>
    have hbox := h.boxes i
    simp only [MemoryEventBus.call, Fanout.step]
    cases hframe : b.frames i with
    | none =>
      rw [hframe, Option.map_none] at hbox
      rw [hbox, Option.getD_none]
      exact ⟨rfl, h.subscribe hframe⟩
    | some t =>
      rw [hframe, Option.map_some] at hbox
      rw [hbox, Option.getD_some, ← hbox, Function.update_eq_self]
      exact ⟨rfl, h⟩
  | take i =>
    have hbox := h.boxes i
    cases hframe : b.frames i with
    | none =>
      rw [hframe] at hbox
      rw [step_take_nil (by simp [hbox])]
      simp only [MemoryEventBus.call, hframe]
      exact ⟨trivial, h⟩
    | some t =>
      rw [hframe, Option.map_some] at hbox
      cases hqueue : b.queues i with
      | nil =>
        rw [step_take_nil (by simp [hbox, hqueue])]
        simp only [MemoryEventBus.call, hframe, hqueue]
        exact ⟨trivial, h⟩
      | cons e queue =>
        rw [hqueue] at hbox
        rw [step_take_cons hbox]
        simp only [MemoryEventBus.call, hframe, hqueue]
        refine ⟨trivial, fun j => ?_, h.registered, h.nonempty⟩
        by_cases hj : j = i
        · subst hj
          simp [hframe]
        · simp [Function.update_of_ne hj, h.boxes]
  | close i =>
    have hbox := h.boxes i
    simp only [MemoryEventBus.call, Fanout.step]
    cases hframe : b.frames i with
    | none =>
      rw [hframe, Option.map_none] at hbox
      rw [← hbox, Function.update_eq_self]
      exact ⟨rfl, h⟩
    | some t => exact ⟨rfl, h.close hframe⟩

theorem tracks_empty : Tracks (empty : MemoryEventBus F) fun _ => none :=
  ⟨fun _ => rfl, fun i t => by simp [empty, MemoryEventBus.registered, Grouping.value], by
    simp [empty, Grouping.value]⟩

/-- **The in-process bus delivers**: a subscriber gets the events published under its task since it
subscribed, each once and in order.  After any run the registry holds the tasks of the subscriptions
that are running and no others. -/
theorem memoryEventBus_delivers :
    Delivers Event.taskId (fun _ => []) (fun _ => True) MemoryEventBus.call
      (empty : MemoryEventBus F) ∧
      ∀ acts taskId, taskId ∈ (Fanout.after MemoryEventBus.call (empty : MemoryEventBus F)
        acts).subscribers.map (·.1) ↔
        ∃ i, (Fanout.after MemoryEventBus.call (empty : MemoryEventBus F) acts).frames i
          = some taskId := by
  have hruns := trace_eq_of_simulates (R := Tracks) (tracks_empty (F := F))
    fun _ _ a h => h.call a
  refine ⟨delivers_of_trace_eq fun acts => (hruns acts).1, fun acts taskId => ?_⟩
  obtain ⟨-, htracks⟩ := hruns acts
  simp only [← htracks.registered]
  constructor
  · intro hkey
    obtain ⟨queues, hqueues⟩ := Option.ne_none_iff_exists'.mp
      (mt Grouping.value_eq_none_iff.mp (not_not.mpr hkey))
    obtain ⟨i, hi⟩ := Finset.nonempty_iff_ne_empty.mpr (htracks.nonempty taskId queues hqueues)
    exact ⟨i, by rwa [registered, hqueues, Option.getD_some]⟩
  · rintro ⟨i, hi⟩
    by_contra hkey
    rw [registered, Grouping.value_eq_none_iff.mpr hkey] at hi
    simp at hi

end MemoryEventBus

/-! ## Over Redis -/

/-- A message of `pubsub.listen()`. -/
structure PubSubMessage where
  type : String
  channel : Json.Key
  data : Text
  deriving DecidableEq

/-- What a new subscription hears first. -/
def confirmation (channel : Json.Key) : List PubSubMessage := [⟨"subscribe", channel, ['1']⟩]

/-- What a turn of the loop over `pubsub.listen()` makes of a message. -/
inductive Received (F : Type) where
  | skipped
  | yielded (e : Event F)
  | raised

/-- `RedisEventBus`: the calls of its client, the texts of floats, and the defaults of an event. -/
structure RedisEventBus {F : Type} (D : Decoder F) (S : Type) where
  redis : S → Act Json.Key PubSubMessage → Option PubSubMessage × S
  channelPrefix : Json.Key
  floats : FloatStr D
  newId : Json.Key
  now : Json.Key

namespace RedisEventBus

variable {F S : Type} {D : Decoder F} (b : RedisEventBus D S)

/-- `_channel`. -/
def channel (taskId : Json.Key) : Json.Key := b.channelPrefix ++ key ":" ++ taskId

/-- `json.dumps(event.to_dict())`, on the channel of the task. -/
def message (e : Event F) : PubSubMessage :=
  ⟨"message", b.channel e.taskId, dumps b.floats.floatstr (.object e.toDict)⟩

/-- The body of the loop. -/
def receive (m : PubSubMessage) : Received F :=
  if m.type ≠ "message" then .skipped
  else
    match loads D m.data with
    | none => .skipped
    | some (.object payload) => (Event.ofDict b.newId b.now payload).elim .raised .yielded
    | some _ => .raised

/-- `publish`, and the turns of the generator `subscribe`: up to its loop, one message of the loop,
and its end, which an exception brings about too. -/
def call (s : S) : Act Json.Key (Event F) → Option (Event F) × S
  | .publish e => (none, (b.redis s (.publish (b.message e))).2)
  | .subscribe i taskId => (none, (b.redis s (.subscribe i (b.channel taskId))).2)
  | .take i =>
    match b.redis s (.take i) with
    | (none, s) => (none, s)
    | (some m, s) =>
      match b.receive m with
      | .skipped => (none, s)
      | .yielded e => (some e, s)
      | .raised => (none, (b.redis s (.close i)).2)
  | .close i => (none, (b.redis s (.close i)).2)

/-- Redis fans a message out to the subscribers of its channel, in order. -/
def FansOut (s : S) : Prop :=
  ∀ acts, Fanout.trace b.redis s acts
    = Fanout.trace (Fanout.step PubSubMessage.channel confirmation) (fun _ => none) acts

variable {b} {s : S} {e : Event F}

/-- **What was published is what is yielded.** -/
theorem receive_message (h : e.Sound) : b.receive (b.message e) = .yielded e := by
  have hloads : loads D (b.message e).data = some (.object e.toDict) := loads_dumps b.floats h
  rw [receive, if_neg (by simp [message]), hloads]
  simp [Event.ofDict_toDict]

theorem channel_injective : Function.Injective b.channel := fun _ _ h => List.append_cancel_left h

/-- The event of a message, if it has one. -/
def eventOf (m : PubSubMessage) : Option (Event F) :=
  match b.receive m with
  | .yielded e => some e
  | _ => none

variable (b) in
/-- The bus carries events by messages. -/
def codec : Codec (Event.taskId (F := F)) PubSubMessage.channel confirmation Event.Sound where
  carrier := b.channel
  carrier_injective := channel_injective
  encode := b.message
  decode := eventOf (b := b)
  topic_encode _ := rfl
  decode_encode e h := by rw [eventOf, receive_message h]
  decode_greeting t m hm := by
    obtain rfl := List.mem_singleton.mp hm
    rfl
  length_greeting _ := le_rfl

/-- What is heard of published events is no reason to raise. -/
theorem receive_ne_raised {m : PubSubMessage}
    (h : (∃ t, m ∈ confirmation t) ∨ ∃ e, e.Sound ∧ b.message e = m) :
    b.receive m ≠ .raised := by
  rcases h with ⟨t, hm⟩ | ⟨e, he, rfl⟩
  · obtain rfl := List.mem_singleton.mp hm
    exact nofun
  · rw [receive_message he]
    exact nofun

/-- The code is the broker behind the codec, as long as no message raises. -/
theorem call_eq_through {a : Act Json.Key (Event F)}
    (hanswer : ∀ m, (b.redis s (b.codec.act a)).1 = some m → (∃ i, a = .take i) ∧
      b.receive m ≠ .raised) :
    b.call s a = b.codec.through b.redis s a := by
  have hquiet : (∀ i, a ≠ .take i) → (b.redis s (b.codec.act a)).1 = none := by
    intro ha
    by_contra hsome
    obtain ⟨m, hm⟩ := Option.ne_none_iff_exists'.mp hsome
    obtain ⟨⟨i, hi⟩, -⟩ := hanswer m hm
    exact ha i hi
  cases a with
  | take i =>
    have hraised := fun m hm => (hanswer m hm).2
    rw [call, Codec.through, Codec.act] at *
    rcases hredis : b.redis s (.take i) with ⟨_ | m, s'⟩
    · rfl
    · have hm := hraised m (by rw [hredis])
      simp only [Option.bind_some, codec, eventOf]
      cases hreceive : b.receive m with
      | skipped => rfl
      | yielded e => rfl
      | raised => exact absurd hreceive hm
  | publish e => rw [Codec.through, hquiet (by simp)]; rfl
  | subscribe i taskId => rw [Codec.through, hquiet (by simp)]; rfl
  | close i => rw [Codec.through, hquiet (by simp)]; rfl

/-- **The Redis bus delivers** what the in-process bus does: over a Redis that fans messages out, a
subscriber gets the events published under its task since it subscribed, each once and in order. -/
theorem redisEventBus_delivers (h : b.FansOut s) :
    Delivers Event.taskId (fun _ => []) Event.Sound b.call s := by
  refine (b.codec.delivers_through h).congr fun acts hacts => trace_congr ?_
  rintro done a rest rfl
  refine call_eq_through fun m hm => ?_
  rw [Codec.after_through, answer_eq h] at hm
  constructor
  · cases a with
    | take i => exact ⟨i, rfl⟩
    | _ => cases hm
  · refine receive_ne_raised ((mem_taken hm).imp_right fun hpublished => ?_)
    obtain ⟨a', ha', hact⟩ := List.mem_map.mp hpublished
    cases a' with
    | publish e =>
      cases hact
      exact ⟨e, hacts e (List.mem_append_left _ ha'), rfl⟩
    | _ => cases hact

/-! ### A Redis that does as the specification says -/

def loopback : RedisEventBus nanDecoder (Boxes Json.Key PubSubMessage) where
  redis := Fanout.step PubSubMessage.channel confirmation
  channelPrefix := key "agent:events"
  floats := nanFloats
  newId := []
  now := []

/-- An event with no payload. -/
def plainEvent (taskId type : String) (sequence : ℤ) : Event Unit :=
  ⟨key taskId, key type, [], sequence, key "evt-1", key "2026-01-01T00:00:00+00:00"⟩

theorem faithful_plainEvent {P : Unit → Prop} {Q : ℤ → Prop} (taskId type : String) {sequence : ℤ}
    (hsequence : Q sequence) :
    FaithfulOn P Q (.object (plainEvent taskId type sequence).toDict) := by
  have hfields : ∀ name ∈ Event.fields, IsStr name := by
    intro name hname
    obtain ⟨s, -, rfl⟩ := List.mem_map.mp hname
    exact isStr_key s
  refine .object (fun p hp => ?_) (by decide : Event.fields.Nodup) fun p hp => ?_
  · exact hfields p.1 (List.mem_map_of_mem (f := (·.1)) hp)
  · simp only [Event.toDict, List.mem_cons, List.not_mem_nil, or_false] at hp
    rcases hp with rfl | rfl | rfl | rfl | rfl | rfl
    · exact .string (isStr_key taskId)
    · exact .string (isStr_key type)
    · exact .object (by simp [plainEvent]) (by simp [plainEvent]) (by simp [plainEvent])
    · exact .int hsequence
    · exact .string (isStr_key _)
    · exact .string (isStr_key _)

/-- A subscriber of one task, an event before it came and one of another task. -/
def twoTasks : List (Act Json.Key (Event Unit)) :=
  [.publish (plainEvent "task-1" "TASK_CREATED" 1), .subscribe 0 (key "task-1"),
    .publish (plainEvent "task-2" "TASK_CREATED" 1),
    .publish (plainEvent "task-1" "PLAN_CREATED" 2)]

/-- It hears the confirmation, and then its event. -/
theorem redisEventBus_delivers_twoTasks :
    Fanout.ledger Event.taskId (fun _ => []) 0
        (Fanout.trace loopback.call (fun _ => none) (twoTasks ++ [.take 0, .take 0])) =
      some ⟨key "task-1", [plainEvent "task-1" "PLAN_CREATED" 2],
        [plainEvent "task-1" "PLAN_CREATED" 2]⟩ := by
  have hsound : ∀ e, .publish e ∈ twoTasks → e.Sound := by
    intro e he
    simp only [twoTasks, List.mem_cons, List.not_mem_nil, or_false, reduceCtorEq, false_or,
      Act.publish.injEq] at he
    rcases he with rfl | rfl | rfl <;> exact faithful_plainEvent _ _ trivial
  exact (redisEventBus_delivers (b := loopback) (fun _ => rfl) twoTasks hsound 0
    ⟨key "task-1", [plainEvent "task-1" "PLAN_CREATED" 2], []⟩ rfl).2 2 (by decide)

end RedisEventBus

end AgentPlatform
