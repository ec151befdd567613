import AgentPlatform.Agents.AgentLoop

/-!
# Agents/Transcript — the conversation the model is sent

`Agent.run` with every call of `llm.generate` written down: the messages it was sent and the
response it returned or raised (`runRecorded`; forgetting the record gives `Agent.run`).

The messages of a conversation are the user's and, for each response so far, the assistant's content
and one message with the results of its calls.  `runRecorded_wellFormed` says that they are so at
every call of `generate`, whatever the responses and however the tools end, and that there are at
most `max_tool_turns` of them.
-/

namespace AgentPlatform

open Prog

/-! ## The shape of a conversation -/

/-- The `role` of a message; tool results go back in the user's name. -/
inductive Role where
  | user
  | assistant
  deriving DecidableEq

/-- `message["role"]`. -/
def Message.role : Message → Role
  | user _ | toolResults _ => .user
  | assistant _ => .assistant

/-- A response that asked for tools, and the results it was answered with. -/
structure Exchange where
  response : LLMResponse
  results : List ToolResultBlock

namespace Exchange

/-- The two messages of an exchange. -/
def messages (exchange : Exchange) : List Message :=
  [.assistant exchange.response.assistantContent, .toolResults exchange.results]

/-- **Every call is answered once, in order**, under its own id. -/
def Answered (exchange : Exchange) : Prop :=
  exchange.response.toolCalls ≠ [] ∧
    exchange.results.map (·.toolUseId) = exchange.response.toolCalls.map (·.id)

end Exchange

/-- The conversation after some exchanges. -/
def conversationOf (userMessage : String) (exchanges : List Exchange) : List Message :=
  .user userMessage :: exchanges.flatMap Exchange.messages

/-- **A well-formed conversation**: the user's message, and for each response that asked for tools
the assistant's message and one user message with a result for each of its calls. -/
structure WellFormed (userMessage : String) (responses : List LLMResponse)
    (messages : List Message) : Prop where
  head : messages.head? = some (.user userMessage)
  alternates : (messages.map Message.role).IsChain (· ≠ ·)
  length : messages.length = 2 * responses.length + 1
  answered : ∀ k response, responses[k]? = some response →
    messages[2 * k + 1]? = some (.assistant response.assistantContent) ∧
      ∃ results, messages[2 * k + 2]? = some (.toolResults results) ∧
        results.map (·.toolUseId) = response.toolCalls.map (·.id)

/-- The conversations of answered exchanges are well formed. -/
theorem wellFormed_conversationOf (userMessage : String) {exchanges : List Exchange}
    (h : ∀ exchange ∈ exchanges, exchange.Answered) :
    WellFormed userMessage (exchanges.map Exchange.response)
      (conversationOf userMessage exchanges) where
  head := rfl
  alternates := by
    clear h
    -- every exchange starts after a message in the user's name and ends with one
    change (Role.user :: (exchanges.flatMap Exchange.messages).map Message.role).IsChain (· ≠ ·)
    induction exchanges with
    | nil => exact .singleton _
    | cons exchange exchanges ih =>
      exact .cons_cons Role.noConfusion (.cons_cons Role.noConfusion ih)
  length := by
    clear h
    induction exchanges with
    | nil => rfl
    | cons exchange exchanges ih =>
      simp only [conversationOf, List.flatMap_cons, List.length_cons, List.length_append,
        Exchange.messages, List.length_nil, List.map_cons] at ih ⊢
      omega
  answered := by
    intro k response hresponse
    rw [List.getElem?_map, Option.map_eq_some_iff] at hresponse
    obtain ⟨exchange, hexchange, rfl⟩ := hresponse
    have hpair : ∀ (exchanges : List Exchange) (k : ℕ), exchanges[k]? = some exchange →
        (exchanges.flatMap Exchange.messages)[2 * k]? =
            some (.assistant exchange.response.assistantContent) ∧
          (exchanges.flatMap Exchange.messages)[2 * k + 1]?
          = some (.toolResults exchange.results) := by
      intro exchanges
      induction exchanges with
      | nil => simp
      | cons exchange' exchanges ih =>
        intro k hk
        cases k with
        | zero =>
          obtain rfl : exchange' = exchange := by simpa using hk
          exact ⟨rfl, rfl⟩
        | succ k => exact ih k (by simpa using hk)
    obtain ⟨hassistant, hresults⟩ := hpair exchanges k hexchange
    exact ⟨hassistant, exchange.results, hresults, (h exchange (List.mem_of_getElem? hexchange)).2⟩

/-! ## The recorded loop -/

/-- A call of `llm.generate`: the messages sent, and how it ended. -/
structure Ask where
  messages : List Message
  response : Except PyError LLMResponse

/-- A program over a conversation and the calls of `generate` so far. -/
abbrev RecordedM := Prog (Conversation × List Ask) PyError

namespace Agent

variable (agent : Agent) (setup : AgentSetup)

/-- `Agent.loop`, with the calls of `generate` written down. -/
def loopRecorded : ℕ → ℕ → RecordedM Unit
  | 0, _ => beside (modify fun s => { s with outcome.stoppedReason := "max_tool_turns" })
  | left + 1, turn => do
    beside (modify fun s => { s with outcome.turns := turn })
    let messages ← Prog.read (·.1.messages)
    modify fun s => (s.1, s.2 ++ [⟨messages, setup.generate turn messages⟩])
    let response ← lift (setup.generate turn messages)
    beside (modify fun s => { s with outcome := note response s.outcome })
    if response.toolCalls = [] then
      beside (modify fun s => { s with outcome.stoppedReason := response.stopReason })
    else do
      beside (modify fun s => { s with
        messages := s.messages ++ [.assistant response.assistantContent] })
      let results ← beside (agent.invokeAll setup response.toolCalls)
      beside (modify fun s => { s with messages := s.messages ++ [.toolResults results] })
      loopRecorded left (turn + 1)

/-- `Agent.run`, with the calls of `generate` written down. -/
def runRecorded : RecordedM AgentOutcome := do
  agent.loopRecorded setup agent.maxToolTurns 1
  Prog.read (·.1.outcome)

variable {agent setup}

theorem loopRecorded_erases (left turn : ℕ) :
    Erases (agent.loopRecorded setup left turn) (agent.loop setup left turn) := by
  induction left generalizing turn with
  | zero => exact erases_beside _
  | succ left ih =>
    rw [loopRecorded, loop]
    refine (erases_beside _).bind fun _ => (erases_read _).bind fun messages => Erases.note ?_
    refine (erases_lift _).bind fun response => (erases_beside _).bind fun _ =>
      Erases.ite (erases_beside _) ?_
    refine (erases_beside _).bind fun _ => (erases_beside _).bind fun results => ?_
    exact (erases_beside _).bind fun _ => ih (turn + 1)

/-- **Forgetting the record gives the run.** -/
theorem runRecorded_erases : Erases (agent.runRecorded setup) (agent.run setup) :=
  (loopRecorded_erases _ _).bind fun _ => erases_read _

end Agent

/-! ## What is sent -/

section Sent

variable (agent : Agent) (setup : AgentSetup)

/-- One call returns one block, under its own id. -/
theorem invoke_answers (messages : List Message) (inv : Agent.ToolInvocation) :
    Triple (fun s => s.messages = messages)
      (fun block s => s.messages = messages ∧ block.toolUseId = inv.id) (fun _ _ => True)
      (agent.invoke setup inv) := by
  intro s hs
  rw [Agent.invoke]
  rcases agent.execute setup s.calls.length inv s.world with ⟨e | result, w⟩
  · trivial
  · exact ⟨hs, rfl⟩

/-- The calls of a response return one block each, in order. -/
theorem invokeAll_answers (messages : List Message) (invs : List Agent.ToolInvocation) :
    Triple (fun s => s.messages = messages)
      (fun blocks s => s.messages = messages ∧ blocks.map (·.toolUseId) = invs.map (·.id))
      (fun _ _ => True) (agent.invokeAll setup invs) := by
  induction invs with
  | nil => exact triple_pure fun s hs => ⟨hs, rfl⟩
  | cons inv invs ih =>
    refine Triple.bind (invoke_answers agent setup messages inv) fun block =>
      triple_of_fact fun hblock => ?_
    refine Triple.bind ih fun blocks => triple_pure fun s hs => ⟨hs.1, ?_⟩
    rw [List.map_cons, List.map_cons, hblock, hs.2]

/-- The messages are those of the responses so far, each answered. -/
def Conversed (userMessage : String) (asked : List Ask) (messages : List Message) : Prop :=
  ∃ exchanges : List Exchange, (∀ exchange ∈ exchanges, exchange.Answered) ∧
    messages = conversationOf userMessage exchanges ∧
    asked.map (·.response) = exchanges.map fun exchange => .ok exchange.response

/-- Every call of `generate` was sent such a conversation. -/
def Sent (userMessage : String) (asked : List Ask) : Prop :=
  ∀ before ask rest, asked = before ++ ask :: rest → Conversed userMessage before ask.messages

variable {userMessage : String} {asked : List Ask} {messages : List Message}

theorem Sent.concat (h : Sent userMessage asked) (hmessages : Conversed userMessage asked messages)
    (response : Except PyError LLMResponse) :
    Sent userMessage (asked ++ [⟨messages, response⟩]) := by
  intro before ask rest hsplit
  rcases List.eq_nil_or_concat rest with rfl | ⟨rest, last, rfl⟩
  · obtain ⟨rfl, hask⟩ := List.append_inj' hsplit rfl
    obtain rfl : _ = ask := List.cons.inj hask |>.1
    exact hmessages
  · rw [List.concat_eq_append, ← List.cons_append, ← List.append_assoc] at hsplit
    exact h before ask rest (List.append_inj' hsplit rfl).1

/-- An answered response goes into the conversation. -/
theorem Conversed.concat (h : Conversed userMessage asked messages) {response : LLMResponse}
    {results : List ToolResultBlock} (hanswered : (⟨response, results⟩ : Exchange).Answered) :
    Conversed userMessage (asked ++ [⟨messages, .ok response⟩])
      (messages ++ [.assistant response.assistantContent] ++ [.toolResults results]) := by
  obtain ⟨exchanges, hexchanges, hmessages, hresponses⟩ := h
  refine ⟨exchanges ++ [⟨response, results⟩], ?_, ?_, ?_⟩
  · intro exchange hexchange
    rcases List.mem_append.mp hexchange with hold | hnew
    · exact hexchanges exchange hold
    · rw [List.mem_singleton.mp hnew]
      exact hanswered
  · simp [hmessages, conversationOf, Exchange.messages]
  · simp [hresponses]

/-- The last call of `generate` was sent `messages`, and `left` more may follow. -/
structure Awaiting (userMessage : String) (bound left : ℕ) (messages : List Message)
    (response : Except PyError LLMResponse) (asked : List Ask) : Prop where
  last : ∃ before, asked = before ++ [⟨messages, response⟩] ∧ Conversed userMessage before messages
  sent : Sent userMessage asked
  room : asked.length + left ≤ bound

theorem Awaiting.done {bound left : ℕ} {response : Except PyError LLMResponse}
    (h : Awaiting userMessage bound left messages response asked) :
    Sent userMessage asked ∧ asked.length ≤ bound :=
  ⟨h.sent, le_trans (Nat.le_add_right _ _) h.room⟩

/-- The loop sends conversations of answered exchanges, at most one for each turn left. -/
theorem loopRecorded_sent (userMessage : String) (bound left turn : ℕ) :
    Triple
      (fun s => Conversed userMessage s.2 s.1.messages ∧ Sent userMessage s.2 ∧
        s.2.length + left ≤ bound)
      (fun _ s => Sent userMessage s.2 ∧ s.2.length ≤ bound)
      (fun _ s => Sent userMessage s.2 ∧ s.2.length ≤ bound)
      (agent.loopRecorded setup left turn) := by
  induction left generalizing turn with
  | zero => exact triple_beside_modify fun s hs => hs.2
  | succ left ih =>
    rw [Agent.loopRecorded]
    refine Triple.bind (triple_beside_modify (R := fun s => Conversed userMessage s.2 s.1.messages ∧
      Sent userMessage s.2 ∧ s.2.length + (left + 1) ≤ bound) fun s hs => hs) fun _ => ?_
    refine Triple.bind triple_read_eq fun messages => ?_
    -- the call of `generate`, sent the conversation as it is now
    refine Triple.bind (triple_modify (R := fun s => s.1.messages = messages ∧
      Awaiting userMessage bound left messages (setup.generate turn messages) s.2) ?_) fun _ => ?_
    · rintro s ⟨⟨hconversed, hsent, hroom⟩, rfl⟩
      refine ⟨rfl, ⟨s.2, rfl, hconversed⟩, hsent.concat hconversed _, ?_⟩
      rw [List.length_append, List.length_singleton]
      omega
    refine Triple.bind (triple_lift_eq fun e s hs => hs.2.done) fun response => ?_
    refine triple_of_fact fun hresponse => ?_
    rw [hresponse]
    refine Triple.bind (triple_beside_modify (R := fun s => s.1.messages = messages ∧
      Awaiting userMessage bound left messages (.ok response) s.2) fun s hs => hs) fun _ => ?_
    refine Triple.ite (fun _ => triple_beside_modify fun s hs => hs.2.done) fun htools => ?_
    refine Triple.bind (triple_beside_modify (R := fun s =>
      s.1.messages = messages ++ [.assistant response.assistantContent] ∧
        Awaiting userMessage bound left messages (.ok response) s.2)
      fun s hs => ⟨congrArg (· ++ _) hs.1, hs.2⟩) fun _ => ?_
    have hanswers :=
      (invokeAll_answers agent setup (messages ++ [.assistant response.assistantContent])
      response.toolCalls).beside (Awaiting userMessage bound left messages (.ok response))
    refine Triple.bind (hanswers.mono (fun s hs => hs) (fun _ _ hs => hs) fun e s hs => hs.2.done)
      fun results => ?_
    refine Triple.bind (triple_beside_modify ?_) fun _ => ih (turn + 1)
    rintro s ⟨⟨hmessages, hids⟩, hawaiting⟩
    obtain ⟨before, hbefore, hconversed⟩ := hawaiting.last
    refine ⟨?_, hawaiting.sent, hawaiting.room⟩
    have hanswered : (⟨response, results⟩ : Exchange).Answered := ⟨htools, hids⟩
    have hnext := hconversed.concat hanswered
    rwa [← hbefore, ← hmessages] at hnext

end Sent

/-- **The conversation sent to the model is well formed.**  Whatever the model answers and however
the tools end, every call of `generate` is sent the user's message followed by the responses so far,
each with one message that answers its calls under their ids and in their order; and `generate` is
called at most `max_tool_turns` times. -/
theorem runRecorded_wellFormed (agent : Agent) (setup : AgentSetup) (userMessage : String)
    (w : ToolWorld) :
    let recorded := agent.runRecorded setup (.opening userMessage w, [])
    (recorded.1, recorded.2.1) = agent.run setup (.opening userMessage w) ∧
      recorded.2.2.length ≤ agent.maxToolTurns ∧
      ∀ before ask rest, recorded.2.2 = before ++ ask :: rest →
        ∃ responses, before.map (·.response) = responses.map .ok ∧
          (∀ response ∈ responses, response.toolCalls ≠ []) ∧
          WellFormed userMessage responses ask.messages := by
  have hsent : Triple _ _ _ (agent.runRecorded setup) :=
    Triple.bind (loopRecorded_sent agent setup userMessage agent.maxToolTurns agent.maxToolTurns 1)
      fun _ => triple_read
  have hopening := hsent (.opening userMessage w,
    []) ⟨⟨[], by simp, rfl, rfl⟩, by simp [Sent], by simp⟩
  refine ⟨Agent.runRecorded_erases _, ?_⟩
  have hend : Sent userMessage (agent.runRecorded setup (.opening userMessage w, [])).2.2 ∧
      (agent.runRecorded setup (.opening userMessage w, [])).2.2.length ≤ agent.maxToolTurns := by
    rcases hrun : agent.runRecorded setup (.opening userMessage w, []) with ⟨e | outcome, s⟩
    · rw [hrun] at hopening
      exact hopening
    · rw [hrun] at hopening
      exact hopening
  refine ⟨hend.2, fun before ask rest hsplit => ?_⟩
  obtain ⟨exchanges, hanswered, hmessages, hresponses⟩ := hend.1 before ask rest hsplit
  refine ⟨exchanges.map Exchange.response, ?_, ?_, ?_⟩
  · rw [hresponses, List.map_map]
    rfl
  · rintro response hresponse
    obtain ⟨exchange, hexchange, rfl⟩ := List.mem_map.mp hresponse
    exact (hanswered exchange hexchange).1
  · rw [hmessages]
    exact wellFormed_conversationOf userMessage hanswered

end AgentPlatform
