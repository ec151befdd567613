import AgentPlatform.Graph.State
import AgentPlatform.Machinery.Grouping
import AgentPlatform.Machinery.JsonDumps
import AgentPlatform.Worker.Cluster

/-!
# Persistence/Checkpoint — what a checkpoint is after the database had it

`_JsonType` keeps a value as the text `json.dumps` writes, and `None` as `NULL`, which reads as the
column's default.  `tasks.state` is such a column: the supervisor's checkpoint goes into it as a
dictionary, and `_run_workflow` overlays the initial state with what comes out.

* `JsonColumn.processResultValue_rewritten` — a value reads back, and what was read of any text but
  `null` is read again when it is written again.
* `checkpoint_survives` — a state reads back as it was saved, key for key, so that a resumed run
  begins where the saved state says.
-/

namespace AgentPlatform

open Json

/-! ## JSON columns -/

variable {F : Type} {D : Decoder F}

/-- `_JsonType.process_bind_param`. -/
def processBindParam (E : FloatStr D) : Json F → Option Text
  | .null => none
  | value => some (dumps E.floatstr value)

/-- The columns with a default of their own. -/
inductive JsonColumn where
  | jsonList
  | jsonDict

namespace JsonColumn

/-- `_default()`. -/
def default : JsonColumn → Json F
  | jsonList => .array []
  | jsonDict => .object []

/-- `_JsonType.process_result_value`; `none` is `JSONDecodeError`. -/
def processResultValue (column : JsonColumn) (D : Decoder F) : Option Text → Option (Json F)
  | none => some column.default
  | some value => loads D value

/-- What a column shows of a value. -/
def shown (column : JsonColumn) : Json F → Json F
  | .null => column.default
  | value => value

variable {column : JsonColumn} {E : FloatStr D} {v : Json F}

theorem processResultValue_bind (h : Faithful v) :
    column.processResultValue D (processBindParam E v) = some (column.shown v) := by
  cases v with
  | null => rfl
  | _ => exact loads_dumps E h

theorem shown_of_ne_null (h : v ≠ .null) : column.shown v = v := by
  cases v with
  | null => exact absurd rfl h
  | _ => rfl

/-- What is read can be written. -/
theorem faithful_of_processResultValue {stored : Option Text}
    (h : column.processResultValue D stored = some v) : Faithful v := by
  cases stored with
  | none =>
    obtain rfl := Option.some.inj h
    cases column with
    | jsonList => exact .array (by simp)
    | jsonDict => exact .object (by simp) (by simp) (by simp)
  | some text => exact faithful_of_loads h

/-- **A column reads back what is written**, `None` as its default; what it reads of any text, its
own or not, is read again when it is written again, unless it is the `None` of a stored `null`. -/
theorem processResultValue_rewritten (E : FloatStr D) (column : JsonColumn) :
    (∀ v, Faithful v → v ≠ .null →
        column.processResultValue D (processBindParam E v) = some v) ∧
      (∀ stored v, column.processResultValue D stored = some v → v ≠ .null →
        column.processResultValue D (processBindParam E v) = some v) ∧
      column.processResultValue D (processBindParam E .null) = some column.default := by
  refine ⟨fun v h hv => ?_, fun stored v h hv => ?_, rfl⟩
  · rw [processResultValue_bind h, shown_of_ne_null hv]
  · rw [processResultValue_bind (faithful_of_processResultValue h), shown_of_ne_null hv]

/-- A list stored with blanks of its own. -/
theorem processResultValue_rewritten_blanks :
    jsonList.processResultValue nanDecoder (some ['[', ' ', '1', ',', 'n', 'u', 'l', 'l', ']']) =
        some (.array [.int 1, .null]) ∧
      jsonList.processResultValue nanDecoder (processBindParam nanFloats (.array [.int 1, .null])) =
        some (.array [.int 1, .null]) :=
  ⟨rfl, (processResultValue_rewritten nanFloats jsonList).2.1
    (some ['[', ' ', '1', ',', 'n', 'u', 'l', 'l', ']']) _ rfl (by simp)⟩

end JsonColumn

/-! ## The state as a dictionary -/

/-- The key of the dictionary. -/
def Key.name : Key → String
  | .taskId => "task_id"
  | .workflowRunId => "workflow_run_id"
  | .repositoryUrl => "repository_url"
  | .repositoryPath => "repository_path"
  | .workspacePath => "workspace_path"
  | .issue => "issue"
  | .plan => "plan"
  | .planSummary => "plan_summary"
  | .acceptanceCriteria => "acceptance_criteria"
  | .relevantFiles => "relevant_files"
  | .repositoryContext => "repository_context"
  | .riskLevel => "risk_level"
  | .riskReasons => "risk_reasons"
  | .approvalRequired => "approval_required"
  | .modifiedFiles => "modified_files"
  | .gitDiff => "git_diff"
  | .linesAdded => "lines_added"
  | .linesRemoved => "lines_removed"
  | .implementationSummary => "implementation_summary"
  | .testNotes => "test_notes"
  | .testFiles => "test_files"
  | .testPlanSummary => "test_plan_summary"
  | .testCommands => "test_commands"
  | .testResults => "test_results"
  | .testFailures => "test_failures"
  | .testsPassed => "tests_passed"
  | .testsFailed => "tests_failed"
  | .testRunOk => "test_run_ok"
  | .debuggingAnalysis => "debugging_analysis"
  | .previousFailures => "previous_failures"
  | .failureSignatures => "failure_signatures"
  | .failureSignatureHistory => "failure_signature_history"
  | .fixApplied => "fix_applied"
  | .confidence => "confidence"
  | .maxFiles => "max_files"
  | .iteration => "iteration"
  | .maxIterations => "max_iterations"
  | .ciIteration => "ci_iteration"
  | .maxCiIterations => "max_ci_iterations"
  | .ciStatus => "ci_status"
  | .ciLogs => "ci_logs"
  | .ciRunId => "ci_run_id"
  | .ciAnalysis => "ci_analysis"
  | .ciRequiresHuman => "ci_requires_human"
  | .policyAction => "policy_action"
  | .policyFindings => "policy_findings"
  | .gitBranch => "git_branch"
  | .commitSha => "commit_sha"
  | .pullRequestUrl => "pull_request_url"
  | .outcome => "outcome"
  | .haltReason => "halt_reason"
  | .error => "error"
  | .finalSummary => "final_summary"

/-- The keys, in the order they are declared in. -/
def Key.declared : List Key :=
  [.taskId, .workflowRunId, .repositoryUrl, .repositoryPath, .workspacePath, .issue, .plan,
    .planSummary, .acceptanceCriteria, .relevantFiles, .repositoryContext, .riskLevel,
    .riskReasons, .approvalRequired, .modifiedFiles, .gitDiff, .linesAdded, .linesRemoved,
    .implementationSummary, .testNotes, .testFiles, .testPlanSummary, .testCommands,
    .testResults, .testFailures, .testsPassed, .testsFailed, .testRunOk, .debuggingAnalysis,
    .previousFailures, .failureSignatures, .failureSignatureHistory, .fixApplied, .confidence,
    .maxFiles, .iteration, .maxIterations, .ciIteration, .maxCiIterations, .ciStatus, .ciLogs,
    .ciRunId, .ciAnalysis, .ciRequiresHuman, .policyAction, .policyFindings, .gitBranch,
    .commitSha, .pullRequestUrl, .outcome, .haltReason, .error, .finalSummary]

/-- A type whose values JSON has a text for. -/
class JsonField (F : Type) (α : Type) where
  toJson : α → Json F
  ofJson? : Json F → Option α
  ofJson?_toJson : ∀ a, ofJson? (toJson a) = some a
  faithful : ∀ a, Faithful (toJson a)

namespace JsonField

instance string : JsonField F String where
  toJson s := .string (key s)
  ofJson?
    | .string s => some (String.ofList (textOf s))
    | _ => none
  ofJson?_toJson s := by simp [textOf_key]
  faithful s := .string (isStr_key s)

instance int : JsonField F ℤ where
  toJson := .int
  ofJson?
    | .int i => some i
    | _ => none
  ofJson?_toJson _ := rfl
  faithful _ := .int trivial

instance bool : JsonField F Bool where
  toJson := .bool
  ofJson?
    | .bool b => some b
    | _ => none
  ofJson?_toJson _ := rfl
  faithful := .bool

instance list {α : Type} [JsonField F α] : JsonField F (List α) where
  toJson as := .array (as.map toJson)
  ofJson?
    | .array items => items.mapM ofJson?
    | _ => none
  ofJson?_toJson as := by
    induction as with
    | nil => rfl
    | cons a as ih =>
      simp only [List.map_cons, List.mapM_cons, ofJson?_toJson]
      simp only at ih
      rw [ih]
      rfl
  faithful as := by
    refine .array fun v hv => ?_
    obtain ⟨a, -, rfl⟩ := List.mem_map.mp hv
    exact faithful a

end JsonField

instance Key.jsonField (k : Key) : JsonField F k.Ty := by
  cases k <;> infer_instance

theorem Key.mem_declared (k : Key) : k ∈ Key.declared := by cases k <;> decide

theorem Key.nodup_names : (Key.declared.map fun k => key k.name).Nodup := by decide +kernel

theorem Key.key_name_inj {j k : Key} : key j.name = key k.name ↔ j = k :=
  ⟨fun h => List.inj_on_of_nodup_map Key.nodup_names j.mem_declared k.mem_declared h,
    fun h => h ▸ rfl⟩

namespace AgentState

/-- `dict(state)`, whose keys are in the order they were first set in. -/
def toDict (order : List Key) (s : AgentState) : Dict F :=
  order.filterMap fun k => (s.get? k).map fun v => (key k.name, JsonField.toJson v)

/-- A dictionary read as a state. -/
def ofDict (d : Dict F) : AgentState :=
  fun k => (Grouping.value d (key k.name)).bind JsonField.ofJson?

variable {s : AgentState} {order : List Key}

theorem nodup_keys_toDict (horder : order.Nodup) : ((s.toDict order : Dict F).map (·.1)).Nodup := by
  have hsublist : ((s.toDict order : Dict F).map (·.1)).Sublist
      (order.map fun k => key k.name) := by
    induction order with
    | nil => exact List.Sublist.refl _
    | cons k order ih =>
      rw [toDict, List.filterMap_cons, List.map_cons]
      cases s.get? k with
      | none => exact (ih (List.nodup_cons.mp horder).2).cons _
      | some v => exact (ih (List.nodup_cons.mp horder).2).cons_cons _
  exact hsublist.nodup (horder.map fun _ _ h => Key.key_name_inj.mp h)

theorem mem_toDict {p : Json.Key × Json F} : p ∈ (s.toDict order : Dict F) ↔
    ∃ k ∈ order, ∃ v, s.get? k = some v ∧ p = (key k.name, JsonField.toJson v) := by
  simp [toDict, List.mem_filterMap, eq_comm]

theorem faithful_toDict (horder : order.Nodup) : Faithful (.object (s.toDict order : Dict F)) := by
  refine .object (fun p hp => ?_) (nodup_keys_toDict horder) fun p hp => ?_
  · obtain ⟨k, -, v, -, rfl⟩ := mem_toDict.mp hp
    exact isStr_key _
  · obtain ⟨k, -, v, -, rfl⟩ := mem_toDict.mp hp
    exact JsonField.faithful v

theorem value_toDict (horder : order.Nodup) (hs : s.Within order) (k : Key) :
    Grouping.value (s.toDict order : Dict F) (key k.name) = (s.get? k).map JsonField.toJson := by
  ext v
  rw [Grouping.value_eq_some_iff (nodup_keys_toDict horder), mem_toDict, Option.map_eq_some_iff]
  constructor
  · rintro ⟨j, -, x, hx, hp⟩
    obtain ⟨hname, rfl⟩ := Prod.mk.inj hp
    obtain rfl := Key.key_name_inj.mp hname
    exact ⟨x, hx, rfl⟩
  · rintro ⟨x, hx, rfl⟩
    refine ⟨k, ?_, x, hx, rfl⟩
    by_contra hk
    rw [hs k hk] at hx
    cases hx

/-- **A state is what its dictionary reads as.** -/
theorem ofDict_toDict (horder : order.Nodup)
    (hs : s.Within order) : ofDict (s.toDict order : Dict F) = s := by
  funext k
  rw [ofDict, value_toDict horder hs]
  change _ = s.get? k
  cases s.get? k with
  | none => rfl
  | some v => exact JsonField.ofJson?_toJson v

end AgentState

/-! ## Checkpoints -/

/-- `tasks.state`, as `save_checkpoint` writes it. -/
def savedText (E : FloatStr D) (order : List Key) (s : AgentState) : Option Text :=
  processBindParam E (.object (s.toDict order))

/-- `dict(task.state or {})`. -/
def previousState (D : Decoder F) (stored : Option Text) : Option AgentState :=
  match JsonColumn.jsonDict.processResultValue D stored with
  | some (.object d) => some (AgentState.ofDict d)
  | _ => none

/-- A state reads back as it was saved. -/
theorem previousState_savedText (E : FloatStr D) {s : AgentState} {order : List Key}
    (horder : order.Nodup) (hs : s.Within order) :
    previousState D (savedText E order s) = some s := by
  have hread : JsonColumn.jsonDict.processResultValue D
      (processBindParam E (.object (s.toDict order))) = some (.object (s.toDict order)) :=
    JsonColumn.processResultValue_bind (s.faithful_toDict horder)
  rw [previousState, savedText, hread]
  dsimp only
  rw [AgentState.ofDict_toDict horder hs]

/-- **A checkpoint survives the database**: the state is read key for key as it was saved, whatever
order its keys were set in, and a run resumed from the row begins in the state it would begin in had
the state never been text; a row without one begins a run afresh. -/
theorem checkpoint_survives (E : FloatStr D) (d : Deployment) (runId : String) :
    (∀ (s : AgentState) (order : List Key), order.Nodup → s.Within order →
      previousState D (savedText E order s) = some s ∧
        (previousState D (savedText E order s)).map (d.firstState runId) =
          some (d.firstState runId s)) ∧
      (previousState D none).map (d.firstState runId) = some (d.firstState runId .empty) := by
  refine ⟨fun s order horder hs => ?_, rfl⟩
  have hread := previousState_savedText E horder hs
  exact ⟨hread, by rw [hread, Option.map_some]⟩

/-- The state `initial_state` makes, in the order its keys are declared in. -/
theorem checkpoint_survives_initialState :
    previousState nanDecoder (savedText nanFloats Key.declared (initialState sampleArguments)) =
      some (initialState sampleArguments) :=
  ((checkpoint_survives nanFloats sampleDeployment "run-2").1 _ _
    (by decide) fun k hk => absurd k.mem_declared hk).1

end AgentPlatform
