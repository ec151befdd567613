import AgentPlatform.Graph.Nodes

/-!
# Agents/Supervisor — the wrapper around every node

`Supervisor.instrument` runs a node's body inside a `try`: a body that returns merges its update, a
body that raises merges what the handler for its exception records.  Closing the agent run is part
of the `try`, so an update can be lost after the body has had all its effects.
-/

namespace AgentPlatform

/-- What the handlers of `Supervisor.instrument` merge for an exception. -/
def errorUpdate (n : Node) (e : PyError) : AgentState :=
  let node := n.name
  let message := e.message
  let cls := e.cls
  match e with
  | .policyViolation _ | .workspaceViolation _ =>
    .of [⟨.haltReason, message⟩, ⟨.policyAction, "BLOCK"⟩, ⟨.error, message⟩]
  | .transient _ =>
    .of [⟨.haltReason, s!"infrastructure error in {node}: {message}"⟩, ⟨.error, message⟩]
  | _ => .of [⟨.haltReason, s!"{node} failed: {cls}: {message}"⟩, ⟨.error, message⟩]

/-- **One execution of a node**: the state and the world it finds, and what it is told. -/
structure Execution where
  node : Node
  state : AgentState
  world : World
  env : NodeEnv

namespace Execution

variable (ctx : WorkflowContext) (x : Execution)

/-- The body, run on the world with an empty log. -/
def result : Except PyError AgentState × World :=
  Nodes.body ctx x.env x.node x.state { x.world with log := [] }

/-- What the supervisor's `try` comes to: the update it merges, or the exception it handles. -/
def outcome : Except PyError AgentState :=
  match (x.result ctx).1, x.env.finish with
  | .ok update, none => .ok update
  | .ok _, some e => .error e
  | .error e, _ => .error e

/-- The world the execution leaves. -/
def worldAfter : World := (x.result ctx).2

/-- What the execution did, newest first. -/
def effects : List Effect := (x.worldAfter ctx).log

/-- The exception the supervisor handled, if there was one. -/
def raised : Option PyError :=
  match x.outcome ctx with
  | .ok _ => none
  | .error e => some e

/-- The update that is merged. -/
def update : AgentState :=
  match x.outcome ctx with
  | .ok u => u
  | .error e => errorUpdate x.node e

/-- The merged state. -/
def stateAfter : AgentState := x.state.merge (x.update ctx)

/-- The edge taken, on the merged state. -/
def next : Target := route x.node (x.stateAfter ctx)

/-- The execution completed: its update is merged. -/
def Completed : Prop := x.raised ctx = none

instance : Decidable (x.Completed ctx) := inferInstanceAs (Decidable (_ = none))

variable {ctx x}

theorem completed_iff : x.Completed ctx ↔ ∃ u, x.outcome ctx = .ok u := by
  rw [Completed, raised]
  split <;> simp_all

theorem raised_eq_some {e : PyError} : x.raised ctx = some e ↔ x.outcome ctx = .error e := by
  rw [raised]
  split <;> simp_all

theorem update_of_ok {u : AgentState} (h : x.outcome ctx = .ok u) : x.update ctx = u := by
  rw [update, h]

theorem update_of_raised {e : PyError} (h : x.raised ctx = some e) :
    x.update ctx = errorUpdate x.node e := by rw [update, raised_eq_some.mp h]

/-- A completed execution is a body that returned. -/
theorem result_of_ok {u : AgentState} (h : x.outcome ctx = .ok u) :
    Nodes.body ctx x.env x.node x.state { x.world with log := [] } = (.ok u, x.worldAfter ctx) := by
  change x.result ctx = (.ok u, (x.result ctx).2)
  rw [outcome] at h
  rcases hr : x.result ctx with ⟨e | v, w⟩
  · simp [hr] at h
  · rcases hf : x.env.finish with _ | e
    · simp_all
    · simp [hr, hf] at h

end Execution

/-! ## What a failed node leaves in the state -/

/-- **A hard boundary is recorded as a block.** -/
theorem get?_policyAction_errorUpdate {n : Node} {e : PyError} (h : e.isBoundary = true) :
    (errorUpdate n e).get? .policyAction = some "BLOCK" := by
  cases e <;> simp_all [PyError.isBoundary, errorUpdate]

/-- No other failure touches the policy action. -/
theorem get?_policyAction_errorUpdate_of_not {n : Node} {e : PyError} (h : e.isBoundary = false) :
    (errorUpdate n e).get? .policyAction = none := by
  cases e <;> simp_all [PyError.isBoundary, errorUpdate]

/-- **A failed node says nothing but why it failed.** -/
theorem get?_errorUpdate {n : Node} {e : PyError} {k : Key} (h₁ : k ≠ .haltReason)
    (h₂ : k ≠ .error) (h₃ : k ≠ .policyAction) : (errorUpdate n e).get? k = none := by
  cases e <;> simp [errorUpdate, h₁, h₂, h₃]

end AgentPlatform
