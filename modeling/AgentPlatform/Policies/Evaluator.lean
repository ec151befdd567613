import AgentPlatform.Core.Domain
import AgentPlatform.Machinery.Text

/-!
# Policies/Evaluator — the policy engine of `policies/evaluator.py`

Given the changed files and the diff, `evaluate` collects one finding per rule that matches, adds
the scope findings when the thresholds apply, and resolves them: the strongest action wins, the risk
is the highest any finding reports.

Two text primitives of the runtime are not embedded, and an engine carries them: `str.lower`, whose
tables are Unicode's, and `re.search`.
-/

namespace AgentPlatform

/-- The text primitives the rules rest on. -/
structure TextRuntime where
  /-- `str.lower`. -/
  lower : Text → Text
  /-- `re.search(expression, text)` finds a match. -/
  search : String → Text → Bool

/-- `Rule`. -/
structure Rule where
  name : String
  action : PolicyAction
  risk : RiskLevel
  description : String
  patterns : List String
  paths : List String
  content : List String
  deriving DecidableEq, Repr

namespace Rule

/-- `path.replace("\\", "/")`. -/
def normalized (path : String) : Text := path.toList.map fun c => if c = '\\' then '/' else c

/-- `normalized.rsplit("/", 1)[-1]`. -/
def basename (path : Text) : Text := (path.reverse.takeWhile (· ≠ '/')).reverse

/-- `Rule.matches_path`: a glob on the basename, or a fragment of the path in any case. -/
def matchesPath (rt : TextRuntime) (r : Rule) (path : String) : Bool :=
  r.patterns.any (fun pattern => Text.fnmatch (basename (normalized path)) pattern.toList) ||
    r.paths.any fun fragment =>
      Text.contains (rt.lower fragment.toList) (rt.lower (normalized path))

/-- `Rule.matches_content`. -/
def matchesContent (rt : TextRuntime) (r : Rule) (added : Text) : Bool :=
  r.content.any fun expression => rt.search expression added

end Rule

/-- `PolicyFinding`. -/
structure PolicyFinding where
  rule : String
  action : PolicyAction
  risk : RiskLevel
  reason : String
  deriving DecidableEq, Repr

/-- `PolicyDecision`. -/
structure PolicyDecision where
  action : PolicyAction
  risk : RiskLevel
  findings : List PolicyFinding
  deriving DecidableEq, Repr

namespace PolicyDecision

/-- `PolicyDecision.blocked`. -/
def blocked (d : PolicyDecision) : Bool := d.action = .block

/-- `PolicyDecision.reasons`. -/
def reasons (d : PolicyDecision) : List String := d.findings.map fun f => s!"{f.rule}: {f.reason}"

/-- `PolicyDecision.summary`. -/
def summary (d : PolicyDecision) : String :=
  if d.findings.isEmpty then "no policy findings" else String.intercalate "; " d.reasons

end PolicyDecision

/-- `_resolve`: the strongest action wins; the risk is the highest any finding reports. -/
def resolve (findings : List PolicyFinding) : PolicyDecision where
  action := findings.foldl
    (fun action f => if action.strength < f.action.strength then f.action else action) .allow
  risk := maxRisk (findings.map (·.risk))
  findings := findings

/-- `added_lines_of`. -/
def addedLinesOf (diff : String) : Text :=
  Text.join ['\n'] (((Text.splitlines diff.toList).filter fun line =>
    ['+'].isPrefixOf line && !(['+', '+', '+'].isPrefixOf line)).map List.tail)

/-- The `thresholds` of a rules file; a key left out has the default `evaluate` gives it. -/
structure Thresholds where
  maxFilesChanged : Option ℤ
  maxLinesChanged : Option ℤ
  mediumRiskFiles : Option ℤ
  deriving DecidableEq, Repr

/-- `PolicyEngine`, with the text primitives it runs on. -/
structure PolicyEngine where
  rules : List Rule
  thresholds : Thresholds
  runtime : TextRuntime

namespace PolicyEngine

variable (engine : PolicyEngine)

/-- The finding one rule contributes, if it matches a file or else the added lines. -/
def ruleFinding (files : List String) (added : Text) (r : Rule) : Option PolicyFinding :=
  let hitPaths := files.filter (r.matchesPath engine.runtime)
  if hitPaths ≠ [] then
    let subject := if r.description = "" then "matched" else r.description
    let hits := String.intercalate ", " (hitPaths.take 5)
    some ⟨r.name, r.action, r.risk, s!"{subject} ({hits})"⟩
  else if r.content ≠ [] ∧ added ≠ [] ∧ r.matchesContent engine.runtime added then
    some ⟨r.name, r.action, r.risk,
      if r.description = "" then "matched added content" else r.description⟩
  else none

/-- The findings of the scope thresholds. -/
def scopeFindings (files : List String) (linesChanged : Option ℤ) : List PolicyFinding :=
  let maxFiles := engine.thresholds.maxFilesChanged.getD 12
  let maxLines := engine.thresholds.maxLinesChanged.getD 800
  let mediumFiles := engine.thresholds.mediumRiskFiles.getD 4
  let sprawl := if (files.length : ℤ) > maxFiles then
    [⟨"scope-sprawl", .humanApproval, .high,
      s!"{files.length} files changed (limit {maxFiles})"⟩] else []
  let large := match linesChanged with
    | some lines => if lines > maxLines then
        [⟨"large-change", .humanApproval, .medium,
          s!"{lines} lines changed (limit {maxLines})"⟩] else []
    | none => []
  let multi := if (files.length : ℤ) ≥ mediumFiles then
    [⟨"multi-file-change", .allow, .medium, s!"{files.length} files changed"⟩] else []
  sprawl ++ large ++ multi

/-- `PolicyEngine.evaluate`. -/
def evaluate (files : List String) (diff : String) (linesChanged : Option ℤ)
    (applyScopeThresholds : Bool) : PolicyDecision :=
  let added := if diff = "" then [] else addedLinesOf diff
  let findings := engine.rules.filterMap (engine.ruleFinding files added)
  if applyScopeThresholds then resolve (findings ++ engine.scopeFindings files linesChanged)
  else resolve findings

/-- `PolicyEngine.check_path_writable`: the pre-write gate. -/
def checkPathWritable (path : String) : PolicyDecision := engine.evaluate [path] "" none false

/-- Some rule with action `BLOCK` matches the path. -/
def Blocks (path : String) : Prop :=
  ∃ r ∈ engine.rules, r.action = .block ∧ r.matchesPath engine.runtime path = true

instance (path : String) : Decidable (engine.Blocks path) :=
  inferInstanceAs (Decidable (∃ r ∈ engine.rules, _))

end PolicyEngine

/-! ## The strongest action -/

/-- The running maximum of `resolve` is `BLOCK` exactly when it started there or met it. -/
theorem foldl_strongest_eq_block (fs : List PolicyFinding) (a : PolicyAction) :
    fs.foldl (fun action f => if action.strength < f.action.strength then f.action else action) a
        = .block ↔ a = .block ∨ ∃ f ∈ fs, f.action = .block := by
  induction fs generalizing a with
  | nil => simp
  | cons f fs ih =>
    have hstep : (if a.strength < f.action.strength then f.action else a) = .block
        ↔ a = .block ∨ f.action = .block := by
      cases a <;> cases f.action <;> decide
    simp only [List.foldl_cons, ih, hstep, List.mem_cons, exists_eq_or_imp, or_assoc]

/-- **A decision blocks exactly when one of its findings does.** -/
theorem resolve_action_eq_block_iff (fs : List PolicyFinding) :
    (resolve fs).action = .block ↔ ∃ f ∈ fs, f.action = .block := by
  simp [resolve, foldl_strongest_eq_block]

namespace PolicyEngine

variable (engine : PolicyEngine)

theorem ruleFinding_single (r : Rule) (path : String) :
    (∃ f, engine.ruleFinding [path] [] r = some f ∧ f.action = .block)
      ↔ r.action = .block ∧ r.matchesPath engine.runtime path = true := by
  by_cases h : r.matchesPath engine.runtime path = true
  · simp [ruleFinding, h]
  · simp [ruleFinding, h]

/-- **The pre-write gate blocks exactly the paths some `BLOCK` rule matches.** -/
theorem blocked_checkPathWritable (path : String) :
    (engine.checkPathWritable path).blocked = true ↔ engine.Blocks path := by
  have hgate : (engine.checkPathWritable path).blocked = true ↔
      ∃ f ∈ engine.rules.filterMap (engine.ruleFinding [path] []), f.action = .block := by
    rw [PolicyDecision.blocked, decide_eq_true_iff]
    exact resolve_action_eq_block_iff _
  have hrule : (∃ f ∈ engine.rules.filterMap (engine.ruleFinding [path] []), f.action = .block) ↔
      ∃ r ∈ engine.rules, ∃ f, engine.ruleFinding [path] [] r = some f ∧ f.action = .block := by
    simp only [List.mem_filterMap]
    exact ⟨fun ⟨f, ⟨r, hr, hf⟩, ha⟩ => ⟨r, hr, f, hf, ha⟩,
      fun ⟨r, hr, f, hf, ha⟩ => ⟨f, ⟨r, hr, hf⟩, ha⟩⟩
  simp only [hgate, hrule, ruleFinding_single, Blocks]

end PolicyEngine

end AgentPlatform
