import AgentPlatform.Graph.Context
import AgentPlatform.Machinery.Regex
import AgentPlatform.Tools.Runner

/-!
# Tools/TestOutput — reading the output of `dotnet test`

`parse_dotnet_output` reads the counts from the first summary in the output, and the failed tests
from every line that begins with `Failed` and a name.  A run that fails with neither gets one
failure of its own.

* `failuresOf_eq_nil_iff` — there is no failure exactly where no text looks like a failed test;
* `parse_of_failures`, `parse_of_crash`, `parse_of_counted` — what is reported, from the counts and
  the failures read.
-/

namespace AgentPlatform

namespace TestOutput

open Regex Pattern

/-! ## The patterns -/

section Patterns

variable (U : Unicode)

def spaces : Pattern := many true (one Text.isSpace)

def digits : Pattern := plus (one U.isDecimal)

/-- `.`, without and with `re.DOTALL`. -/
def dot : Pattern := one (· ≠ '\n')

def anything : Pattern := one fun _ => true

/-- `_DOTNET_TOTALS`. -/
def dotnetTotals : Pattern :=
  seqs [alt (anyCase "passed!") (anyCase "failed!"), many false dot,
    anyCase "failed:", spaces, group 1 (digits U), anyCase ",", spaces,
    anyCase "passed:", spaces, group 2 (digits U), anyCase ",", spaces,
    anyCase "skipped:", spaces, group 3 (digits U)]

/-- `_VSTEST_TOTALS`. -/
def vstestTotals : Pattern :=
  seqs [anyCase "total tests:", spaces, group 1 (digits U), many false anything,
    anyCase "passed:", spaces, group 2 (digits U), many false anything,
    anyCase "failed:", spaces, group 3 (digits U)]

/-- A character of a test's name. -/
def isNameChar (c : Char) : Bool := U.isWord c || c = '.' || c = '+' || c = '\x60'

/-- `_FAILED_TEST`. -/
def failedTest : Pattern :=
  seqs [lineStart, spaces, alt (word "Failed") (word "X"), plus (one Text.isSpace),
    group 1 (seqs [plus (one (isNameChar U)),
      opt (seqs [word "(", many true (one (· ≠ ')')), word ")"])])]

def isNameStart (c : Char) : Bool := c.isAlpha || c = '_'

/-- `_EXCEPTION`. -/
def exception : Pattern :=
  seqs [group 1 (seqs [one isNameStart, many true (one fun c => U.isWord c || c = '.'),
      alt (word "Exception") (word "Error")]),
    spaces, word ":", spaces, group 2 (many true dot)]

end Patterns

/-! ## The outcome -/

/-- `TestFailure`. -/
structure TestFailure where
  testName : Text
  exceptionType : Text
  message : Text
  deriving DecidableEq

/-- `str.rstrip` of the characters of a class. -/
def rstrip (p : Char → Bool) (t : Text) : Text := (t.reverse.dropWhile p).reverse

/-- `TestFailure.render`. -/
def TestFailure.render (f : TestFailure) : String :=
  let head := rstrip (fun c => c = ':' || c = ' ') (f.testName ++ ": ".toList ++ f.exceptionType)
  String.ofList (rstrip Text.isSpace (head ++ "\n  ".toList ++ f.message))

/-- `TestOutcome`. -/
structure TestOutcome where
  passed : ℕ
  failed : ℕ
  skipped : ℕ
  failures : List TestFailure
  exitCode : ℤ
  output : Text
  timedOut : Bool
  deriving DecidableEq

/-- `TestOutcome.ok`. -/
def TestOutcome.ok (o : TestOutcome) : Bool := o.exitCode = 0 && o.failed = 0 && !o.timedOut

/-- What the graph keeps of an outcome. -/
def TestOutcome.rendered (o : TestOutcome) : AgentPlatform.TestOutcome where
  passed := o.passed
  failed := o.failed
  skipped := o.skipped
  failures := o.failures.map TestFailure.render
  exitCode := o.exitCode
  output := String.ofList o.output
  timedOut := o.timedOut

/-! ## Parsing -/

section Parsing

variable (U : Unicode)

/-- The longest row of digits `int` converts. -/
def maxDigits : ℕ := 4300

/-- The number a row of decimal digits stands for. -/
def value (ds : Text) : ℕ := ds.foldl (fun n c => 10 * n + (U.decimal? c).getD 0) 0

/-- `int(text)`, of a row of decimal digits. -/
def int (ds : Text) : Except PyError ℕ :=
  if ds.length ≤ maxDigits then .ok (value U ds)
  else .error <| .other "ValueError" <|
    s!"Exceeds the limit ({maxDigits} digits) for integer string conversion: " ++
      s!"value has {ds.length} digits; use sys.set_int_max_str_digits() to increase the limit"

/-- The counts of a run. -/
structure Totals where
  passed : ℕ
  failed : ℕ
  skipped : ℕ
  deriving DecidableEq

/-- The counts a match of `_DOTNET_TOTALS` holds. -/
def counts (m : Place) : Except PyError Totals := do
  let failed ← int U (m.group 1)
  let passed ← int U (m.group 2)
  let skipped ← int U (m.group 3)
  pure ⟨passed, failed, skipped⟩

/-- The counts read from the output. -/
def totals (text : Text) : Except PyError Totals :=
  match (dotnetTotals U).search text with
  | some m => counts U m
  | none =>
    match (vstestTotals U).search text with
    | some m => do
      let passed ← int U (m.group 2)
      let failed ← int U (m.group 3)
      pure ⟨passed, failed, 0⟩
    | none => pure ⟨0, 0, 0⟩

/-- The failure of a test, described by what stands behind its name. -/
def failureAt (m : Place) : TestFailure :=
  let tail := m.rest.take 800
  match (exception U).search tail with
  | some e => ⟨Text.strip (m.group 1), e.group 1, (Text.strip (e.group 2)).take 400⟩
  | none => ⟨Text.strip (m.group 1), [], (Text.strip tail).take 400⟩

/-- The failures of the matches whose names are new. -/
def collect : List Text → List Place → List TestFailure
  | _, [] => []
  | seen, m :: ms =>
    if seen.contains (Text.strip (m.group 1)) then collect seen ms
    else failureAt U m :: collect (Text.strip (m.group 1) :: seen) ms

/-- The failed tests of the output. -/
def failuresOf (text : Text) : List TestFailure := collect U [] ((failedTest U).finditer text)

/-- `parse_dotnet_output`. -/
def parseDotnetOutput (result : CommandResult) : Except PyError TestOutcome := do
  let text := result.combinedOutput
  let counted ← totals U text
  let failures := failuresOf U text
  let failed := if counted.failed = 0 ∧ failures ≠ [] then failures.length else counted.failed
  if result.exitCode ≠ 0 ∧ failed = 0 ∧ counted.passed = 0 then
    let run : TestFailure := ⟨"<test run>".toList, "RunFailure".toList,
      text.drop (text.length - 600)⟩
    pure ⟨counted.passed, 1, counted.skipped, failures ++ [run], result.exitCode, text,
      result.timedOut⟩
  else pure ⟨counted.passed, failed, counted.skipped, failures, result.exitCode, text,
    result.timedOut⟩

end Parsing

/-! ## What is reported -/

section Reporting

variable {U : Unicode} {result : CommandResult} {t : Totals} {o : TestOutcome} {text : Text}

theorem TestOutcome.ok_rendered : o.rendered.ok = o.ok := by
  have hfailed : decide ((o.failed : ℤ) = 0) = decide (o.failed = 0) :=
    decide_eq_decide.mpr Int.natCast_eq_zero
  rw [TestOutcome.ok, ← hfailed]
  rfl

theorem collect_eq_nil_iff {ms : List Place} : collect U [] ms = [] ↔ ms = [] := by
  cases ms with
  | nil => simp [collect]
  | cons m ms => simp [collect]

/-- **There is no failure exactly where no text looks like a failed test.** -/
theorem failuresOf_eq_nil_iff : failuresOf U text = [] ↔ (failedTest U).search text = none :=
  collect_eq_nil_iff.trans finditer_eq_nil_iff

/-- **The first summary decides the counts.** -/
theorem totals_of_search {m : Place} (h : (dotnetTotals U).search text = some m) :
    totals U text = counts U m := by
  rw [totals, h]

theorem exists_totals (h : parseDotnetOutput U result = .ok o) :
    ∃ t, totals U result.combinedOutput = .ok t := by
  rw [parseDotnetOutput] at h
  cases ht : totals U result.combinedOutput with
  | ok t => exact ⟨t, rfl⟩
  | error e =>
    rw [ht] at h
    cases h

section Counted

variable (ht : totals U result.combinedOutput = .ok t)
include ht

/-- Tests that failed are counted when the totals count none. -/
theorem parse_of_failures (hfailures : failuresOf U result.combinedOutput ≠ []) :
    parseDotnetOutput U result = .ok ⟨t.passed,
      if t.failed = 0 then (failuresOf U result.combinedOutput).length else t.failed, t.skipped,
      failuresOf U result.combinedOutput, result.exitCode, result.combinedOutput,
      result.timedOut⟩ := by
  have hlength := List.length_pos_of_ne_nil hfailures
  simp only [parseDotnetOutput, ht, bind, Except.bind, pure, Except.pure, hfailures, ne_eq,
    not_false_eq_true, and_true]
  rw [if_neg]
  split_ifs <;> omega

/-- A run that fails without a count gets a failure of its own. -/
theorem parse_of_crash (hfailures : failuresOf U result.combinedOutput = [])
    (hexit : result.exitCode ≠ 0) (hfailed : t.failed = 0) (hpassed : t.passed = 0) :
    parseDotnetOutput U result = .ok ⟨t.passed, 1, t.skipped,
      [⟨"<test run>".toList, "RunFailure".toList,
        result.combinedOutput.drop (result.combinedOutput.length - 600)⟩], result.exitCode,
      result.combinedOutput, result.timedOut⟩ := by
  simp [parseDotnetOutput, ht, bind, Except.bind, pure, Except.pure, hfailures, hexit,
    hfailed, hpassed]

/-- Every other run is reported as it is counted. -/
theorem parse_of_counted (hfailures : failuresOf U result.combinedOutput = [])
    (h : ¬ (result.exitCode ≠ 0 ∧ t.failed = 0 ∧ t.passed = 0)) :
    parseDotnetOutput U result = .ok ⟨t.passed, t.failed, t.skipped, [], result.exitCode,
      result.combinedOutput, result.timedOut⟩ := by
  simp only [parseDotnetOutput, ht, bind, Except.bind, pure, Except.pure, hfailures, ne_eq,
    not_true_eq_false, and_false, if_false]
  exact if_neg h

end Counted

end Reporting

end TestOutput

end AgentPlatform
