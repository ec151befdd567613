import AgentPlatform.Core.Domain
import AgentPlatform.Graph.State

/-!
# Graph/Routing — the edges of the workflow graph

Every branch is decided by a function of the merged state.  `route` puts them on the nodes they
leave from, together with the unconditional edges of `build_workflow`.
-/

namespace AgentPlatform

/-- Where an edge leads: a node, or `END`. -/
inductive Target where
  | node (n : Node)
  | stop
  deriving DecidableEq, Repr

/-- The capitals of a letter, where they are ASCII. -/
def capitals : Char → List Char
  | 'ß' => ['S', 'S']
  | 'ı' => ['I']
  | 'ſ' => ['S']
  | 'ﬀ' => ['F', 'F']
  | 'ﬁ' => ['F', 'I']
  | 'ﬂ' => ['F', 'L']
  | 'ﬃ' => ['F', 'F', 'I']
  | 'ﬄ' => ['F', 'F', 'L']
  | 'ﬅ' | 'ﬆ' => ['S', 'T']
  | c => [c.toUpper]

/-- `str.upper()`, for comparison with an ASCII text: every other letter has a capital that is
none. -/
def upper (s : String) : String := String.ofList (s.toList.flatMap capitals)

/-- `is_stuck`: the two most recent iterations produced identical signatures. -/
def isStuck (history : List (List String)) : Bool :=
  match history.reverse with
  | last :: previous :: _ => last = previous ∧ last ≠ []
  | _ => false

/-- `after_risk`. -/
def afterRisk (s : AgentState) : Node :=
  if s.get? .policyAction = some "BLOCK" then .halt else .implementation

/-- **The verdict `after_tests` reads as a pass.** -/
def testsPass (s : AgentState) : Prop :=
  s.get .testsFailed 0 = 0 ∧ s.get .testsPassed 0 ≥ 0 ∧ s.get .testRunOk false = true

instance : DecidablePred testsPass := fun _ => inferInstanceAs (Decidable (_ ∧ _ ∧ _))

/-- `after_tests`. -/
def afterTests (s : AgentState) : Node :=
  if testsPass s then .securityPolicy
  else if s.get .iteration 0 ≥ s.get .maxIterations 3 then .halt
  else if isStuck (s.get .failureSignatureHistory []) then .halt
  else if ((s.get .modifiedFiles []).length : ℤ) > s.get .maxFiles 12 then .halt
  else .debugging

/-- `after_policy`. -/
def afterPolicy (s : AgentState) : Node :=
  if s.get? .policyAction = some "BLOCK" then .halt else .gitCommit

/-- `after_commit`. -/
def afterCommit (s : AgentState) : Node :=
  if s.get .commitSha "" = "" then .halt else .ciValidation

/-- **The CI status `after_ci` reads as a pass.** -/
def ciPass (s : AgentState) : Prop :=
  upper (s.get .ciStatus "") = "PASSED" ∨ upper (s.get .ciStatus "") = "SKIPPED" ∨
    upper (s.get .ciStatus "") = ""

instance : DecidablePred ciPass := fun _ => inferInstanceAs (Decidable (_ ∨ _ ∨ _))

/-- `after_ci`. -/
def afterCi (s : AgentState) : Node :=
  if ciPass s then .createPr
  else if s.get .ciRequiresHuman false then .halt
  else if s.get .ciIteration 0 ≥ s.get .maxCiIterations 2 then .halt
  else .ciDebugging

/-- The edge out of each node, on the merged state. -/
def route (n : Node) (s : AgentState) : Target :=
  match n with
  | .plan => .node .repositoryAnalysis
  | .repositoryAnalysis => .node .riskAssessment
  | .riskAssessment => .node (afterRisk s)
  | .implementation => .node .testGeneration
  | .testGeneration => .node .runTests
  | .runTests => .node (afterTests s)
  | .debugging => .node .runTests
  | .securityPolicy => .node (afterPolicy s)
  | .gitCommit => .node (afterCommit s)
  | .ciValidation => .node (afterCi s)
  | .ciDebugging => .node .runTests
  | .createPr => .node .humanReview
  | .humanReview => .stop
  | .halt => .stop

/-- `halt_reason`. -/
def haltReason (s : AgentState) : String :=
  let findings := String.intercalate "; " (s.get .policyFindings [])
  let debugged := s.get .iteration 0
  let attempts := s.get .ciIteration 0
  if s.get .haltReason "" ≠ "" then s.get .haltReason ""
  else if s.get? .policyAction = some "BLOCK" then s!"policy blocked the change: {findings}"
  else if s.get .testsFailed 0 ≠ 0 then
    s!"tests still failing after {debugged} debugging iteration(s) - handing over to a human"
  else if upper (s.get .ciStatus "") = "FAILED" then
    s!"CI still failing after {attempts} attempt(s)"
  else "workflow halted"

/-! ## The edges, listed -/

/-- **Every edge of the graph, with what the state says where it is taken.** -/
inductive Edge (s : AgentState) : Node → Target → Prop
  | plan : Edge s .plan (.node .repositoryAnalysis)
  | repositoryAnalysis : Edge s .repositoryAnalysis (.node .riskAssessment)
  | riskBlocked (h : s.get? .policyAction = some "BLOCK") : Edge s .riskAssessment (.node .halt)
  | riskTaken (h : s.get? .policyAction ≠ some "BLOCK") :
      Edge s .riskAssessment (.node .implementation)
  | implementation : Edge s .implementation (.node .testGeneration)
  | testGeneration : Edge s .testGeneration (.node .runTests)
  | testsPassed (h : testsPass s) : Edge s .runTests (.node .securityPolicy)
  | testsStopped (h : ¬ testsPass s) : Edge s .runTests (.node .halt)
  | testsFailed (h : ¬ testsPass s) (hbudget : s.get .iteration 0 < s.get .maxIterations 3) :
      Edge s .runTests (.node .debugging)
  | debugging : Edge s .debugging (.node .runTests)
  | policyBlocked (h : s.get? .policyAction = some "BLOCK") : Edge s .securityPolicy (.node .halt)
  | policyPassed (h : s.get? .policyAction ≠ some "BLOCK") :
      Edge s .securityPolicy (.node .gitCommit)
  | uncommitted (h : s.get .commitSha "" = "") : Edge s .gitCommit (.node .halt)
  | committed (h : s.get .commitSha "" ≠ "") : Edge s .gitCommit (.node .ciValidation)
  | ciPassed (h : ciPass s) : Edge s .ciValidation (.node .createPr)
  | ciStopped (h : ¬ ciPass s) : Edge s .ciValidation (.node .halt)
  | ciFailed (h : ¬ ciPass s) (hbudget : s.get .ciIteration 0 < s.get .maxCiIterations 2) :
      Edge s .ciValidation (.node .ciDebugging)
  | ciDebugging : Edge s .ciDebugging (.node .runTests)
  | createPr : Edge s .createPr (.node .humanReview)
  | humanReview : Edge s .humanReview .stop
  | halt : Edge s .halt .stop

theorem edge_afterTests (s : AgentState) : Edge s .runTests (.node (afterTests s)) := by
  rw [afterTests]
  split_ifs with hpass hbudget hstuck hscope
  · exact .testsPassed hpass
  · exact .testsStopped hpass
  · exact .testsStopped hpass
  · exact .testsStopped hpass
  · exact .testsFailed hpass (Int.not_le.mp hbudget)

theorem edge_afterCi (s : AgentState) : Edge s .ciValidation (.node (afterCi s)) := by
  rw [afterCi]
  split_ifs with hpass hhuman hbudget
  · exact .ciPassed hpass
  · exact .ciStopped hpass
  · exact .ciStopped hpass
  · exact .ciFailed hpass (Int.not_le.mp hbudget)

/-- **The graph takes no other edge.** -/
theorem edge_route (n : Node) (s : AgentState) : Edge s n (route n s) := by
  cases n with
  | plan => exact .plan
  | repositoryAnalysis => exact .repositoryAnalysis
  | riskAssessment =>
    rw [route, afterRisk]
    split_ifs with h
    · exact .riskBlocked h
    · exact .riskTaken h
  | implementation => exact .implementation
  | testGeneration => exact .testGeneration
  | runTests => exact edge_afterTests s
  | debugging => exact .debugging
  | securityPolicy =>
    rw [route, afterPolicy]
    split_ifs with h
    · exact .policyBlocked h
    · exact .policyPassed h
  | gitCommit =>
    rw [route, afterCommit]
    split_ifs with h
    · exact .uncommitted h
    · exact .committed h
  | ciValidation => exact edge_afterCi s
  | ciDebugging => exact .ciDebugging
  | createPr => exact .createPr
  | humanReview => exact .humanReview
  | halt => exact .halt

/-! ## Reading an edge backwards -/

section Inversion

variable {n : Node} {s : AgentState}

/-- `security_policy` is entered from a passing verdict of `run_tests`. -/
theorem Edge.of_securityPolicy (h : Edge s n (.node .securityPolicy)) :
    n = .runTests ∧ testsPass s := by
  cases h with
  | testsPassed h => exact ⟨rfl, h⟩

/-- `git_commit` is entered from `security_policy`, unless the state says `BLOCK`. -/
theorem Edge.of_gitCommit (h : Edge s n (.node .gitCommit)) :
    n = .securityPolicy ∧ s.get? .policyAction ≠ some "BLOCK" := by
  cases h with
  | policyPassed h => exact ⟨rfl, h⟩

/-- `ci_validation` is entered from `git_commit`, where the state names a commit. -/
theorem Edge.of_ciValidation (h : Edge s n (.node .ciValidation)) :
    n = .gitCommit ∧ s.get .commitSha "" ≠ "" := by
  cases h with
  | committed h => exact ⟨rfl, h⟩

/-- `create_pr` is entered from `ci_validation`, where the state reads as a pass. -/
theorem Edge.of_createPr (h : Edge s n (.node .createPr)) : n = .ciValidation ∧ ciPass s := by
  cases h with
  | ciPassed h => exact ⟨rfl, h⟩

/-- `human_review` is entered from `create_pr`. -/
theorem Edge.of_humanReview (h : Edge s n (.node .humanReview)) : n = .createPr := by
  cases h
  rfl

/-- `END` is reached from the two nodes that settle a run. -/
theorem Edge.of_stop (h : Edge s n .stop) : n = .humanReview ∨ n = .halt := by
  cases h
  · exact .inl rfl
  · exact .inr rfl

end Inversion

end AgentPlatform
