import AgentPlatform.Graph.NodeSpecs
import AgentPlatform.Tools.TestOutput

/-!
# Graph/Fingerprint — failure signatures, and what a failing run leaves for them

A failure is fingerprinted by its test, its exception and its message without the noise that varies
from run to run.  Two iterations with the same signatures stop the debugging loop, provided there
are any.

* `evidence_iff` — when a run that is not ok has a failure, and a signature, to go by;
* `repeated_halts` — the same run twice in a row then ends the loop.
-/

namespace AgentPlatform

namespace Fingerprint

open Regex Pattern

/-! ## Noise -/

section Noise

variable (U : Unicode)

/-- `[0-9a-f]`, with `re.IGNORECASE`. -/
def isHex (c : Char) : Bool :=
  c.isDigit || ('a' ≤ c && c ≤ 'f') || ('A' ≤ c && c ≤ 'F')

def hexRow (n : ℕ) : Pattern := times n (one isHex)

def decimals (n : ℕ) : Pattern := times n (one U.isDecimal)

def wordEdge : Pattern := boundary U.isWord

/-- A GUID. -/
def guid : Pattern :=
  seqs [wordEdge U, hexRow 8, word "-", hexRow 4, word "-", hexRow 4, word "-", hexRow 4, word "-",
    hexRow 12, wordEdge U]

/-- A date and a time of day. -/
def timestamp : Pattern :=
  seqs [wordEdge U, decimals U 4, word "-", decimals U 2, word "-", decimals U 2,
    one fun c => c = 'T' || c = ' ', decimals U 2, word ":", decimals U 2, word ":", decimals U 2,
    many true (one fun c => !Text.isSpace c)]

/-- A number of milliseconds or seconds. -/
def duration : Pattern :=
  seqs [wordEdge U, plus (one U.isDecimal), opt (group 1 (seqs [word ".", plus (one U.isDecimal)])),
    opt (one Text.isSpace), group 2 (alt (anyCase "ms") (alt (anyCase "s") (anyCase "seconds"))),
    wordEdge U]

/-- An address. -/
def address : Pattern := seqs [wordEdge U, anyCase "0x", plus (one isHex), wordEdge U]

def isPathChar (c : Char) : Bool := U.isWord c || c = '.' || c = '-'

/-- A path of either kind. -/
def filePath : Pattern :=
  alt (seqs [one Char.isAlpha, word ":", one fun c => c = '\\' || c = '/',
      many true (one fun c => !Text.isSpace c && c != ':')])
    (seqs [word "/", plus (seqs [plus (one (isPathChar U)), word "/"]), plus (one (isPathChar U))])

/-- A line number. -/
def lineNumber : Pattern :=
  seqs [alt (word ":") (seqs [wordEdge U, anyCase "line", plus (one Text.isSpace)]),
    plus (one U.isDecimal), wordEdge U]

/-- `_NOISE`. -/
def noise : List (Pattern × String) :=
  [(guid U, "<guid>"), (timestamp U, "<timestamp>"), (duration U, "<duration>"),
    (address U, "<addr>"), (filePath U, "<path>"), (lineNumber U, ":<line>"),
    (plus (one Text.isSpace), " ")]

end Noise

/-! ## Signatures -/

/-- What the fingerprints rest on: `str.lower`, and the hexadecimal digest of a text's UTF-8. -/
structure Digest where
  lower : Text → Text
  sha256 : Text → Text

variable (U : Unicode) (D : Digest)

/-- `normalize`. -/
def normalize (message : Text) : Text :=
  D.lower (Text.strip ((noise U).foldl (fun t (p, new) => p.sub new.toList t) (Text.strip message)))

/-- `failure_signature`. -/
def failureSignature (testName exceptionType message : Text) : String :=
  let payload := D.lower (Text.strip testName) ++ '|' :: Text.strip exceptionType ++
    '|' :: normalize U D message
  String.ofList ((D.sha256 payload).take 16)

/-- `text.partition(sep)`, without the separator. -/
def partition (sep : Text) : Text → Text × Text
  | [] => ([], [])
  | c :: t =>
    if sep.isPrefixOf (c :: t) then ([], (c :: t).drop sep.length)
    else (c :: (partition sep t).1, (partition sep t).2)

/-- The signature of a rendered failure. -/
def signatureOf (failure : String) : String :=
  let (head, body) := partition ['\n'] failure.toList
  let (name, exception) := partition ": ".toList head
  failureSignature U D name exception body

/-- `signatures_for`. -/
def signaturesFor (failures : List String) : List String :=
  (failures.map (signatureOf U D)).mergeSort (fun a b => decide (a ≤ b))

/-! ## Evidence -/

open TestOutput

/-- The signatures `run_tests` adds to the history. -/
def signatures (o : TestOutput.TestOutcome) : List String := signaturesFor U D o.rendered.failures

/-- **What a failing run leaves to go by**: a failure, a count, and signatures by which the same run
twice in a row is noticed. -/
structure HasEvidence (o : TestOutput.TestOutcome) : Prop where
  failures : o.failures ≠ []
  failed : 1 ≤ o.failed
  signatures : signatures U D o ≠ []
  stuck : ∀ history, isStuck (history ++ [Fingerprint.signatures U D o,
    Fingerprint.signatures U D o]) = true

/-- Some text looks like a failed test; or no test failed by the counts, and the run either came to
its end without an error or ended in one before any test passed. -/
def Telling (result : CommandResult) : Prop :=
  ∀ t, totals U result.combinedOutput = .ok t →
    (failedTest U).search result.combinedOutput ≠ none ∨
      (t.failed = 0 ∧ ((result.exitCode = 0 ∧ result.timedOut = false) ∨
        (result.exitCode ≠ 0 ∧ t.passed = 0)))

section Evidence

variable {U D} {o : TestOutput.TestOutcome} {result : CommandResult} {t : Totals}

theorem signaturesFor_eq_nil_iff {failures : List String} :
    signaturesFor U D failures = [] ↔ failures = [] := by
  rw [← List.length_eq_zero_iff, signaturesFor, List.length_mergeSort, List.length_map,
    List.length_eq_zero_iff]

theorem signatures_eq_nil_iff : signatures U D o = [] ↔ o.failures = [] := by
  rw [signatures, signaturesFor_eq_nil_iff, TestOutput.TestOutcome.rendered, List.map_eq_nil_iff]

theorem isStuck_twice {history : List (List String)} {σ : List String} (h : σ ≠ []) :
    isStuck (history ++ [σ, σ]) = true := by
  simp [isStuck, h]

/-- A failure that is counted is evidence. -/
theorem hasEvidence_of_failures (hfailures : o.failures ≠ []) (hfailed : 1 ≤ o.failed) :
    HasEvidence U D o := by
  have hsignatures : signatures U D o ≠ [] := fun h => hfailures (signatures_eq_nil_iff.mp h)
  exact ⟨hfailures, hfailed, hsignatures, fun _ => isStuck_twice hsignatures⟩

/-- A run that tells nothing is reported without a failure, and not as ok. -/
theorem telling_of_hasEvidence
    (h : ∀ o, parseDotnetOutput U result = .ok o → o.ok = false → HasEvidence U D o) :
    Telling U result := by
  intro t ht
  by_contra hnot
  push Not at hnot
  obtain ⟨hquiet, hrun⟩ := hnot
  -- without a failure the run is reported as counted: its own failure takes no count and no pass
  have hparse := parse_of_counted ht (failuresOf_eq_nil_iff.mpr hquiet)
      fun ⟨hexit, hfailed, hpassed⟩ =>
    (hrun hfailed).2 hexit hpassed
  refine (h _ hparse ?_).failures rfl
  by_contra hok
  rw [Bool.not_eq_false] at hok
  simp only [TestOutput.TestOutcome.ok, Bool.and_eq_true, decide_eq_true_eq,
    Bool.not_eq_true'] at hok
  exact absurd hok.2 ((hrun hok.1.2).1 hok.1.1)

theorem hasEvidence_of_telling (h : Telling U result) (ho : parseDotnetOutput U result = .ok o)
    (hnot : o.ok = false) : HasEvidence U D o := by
  obtain ⟨t, ht⟩ := exists_totals ho
  by_cases hfailures : failuresOf U result.combinedOutput = []
  · have hquiet := failuresOf_eq_nil_iff.mp hfailures
    obtain ⟨hfailed, ⟨hexit, htime⟩ | ⟨hexit, hpassed⟩⟩ :=
      (h t ht).resolve_left (not_not_intro hquiet)
    · have hparse := parse_of_counted ht hfailures fun hcrash => hcrash.1 hexit
      obtain rfl := Except.ok.inj (ho.symm.trans hparse)
      simp [TestOutput.TestOutcome.ok, hexit, hfailed, htime] at hnot
    · have hparse := parse_of_crash ht hfailures hexit hfailed hpassed
      obtain rfl := Except.ok.inj (ho.symm.trans hparse)
      exact hasEvidence_of_failures (List.cons_ne_nil _ _) (le_refl 1)
  · have hparse := parse_of_failures ht hfailures
    obtain rfl := Except.ok.inj (ho.symm.trans hparse)
    refine hasEvidence_of_failures hfailures ?_
    have hlength := List.length_pos_of_ne_nil hfailures
    dsimp only
    split_ifs <;> omega

/-- **A failing run has evidence** exactly where some text looks like a failed test, or no test
failed by the counts and the run came to its end or had none that passed. -/
theorem evidence_iff (U : Unicode) (D : Digest) (result : CommandResult) :
    (∀ o, parseDotnetOutput U result = .ok o → o.ok = false → HasEvidence U D o) ↔
    Telling U result :=
  ⟨telling_of_hasEvidence, fun h _ ho hnot => hasEvidence_of_telling h ho hnot⟩

/-! ## The loop -/

section Loop

variable {ctx : WorkflowContext} {env : NodeEnv} {s u : AgentState} {w w' : World}
  {history : List (List String)}

/-- `run_tests` on what the command printed: the verdict of the parsed outcome, and its
signatures. -/
theorem runTests_parsed (hsignatures : ctx.signaturesFor = signaturesFor U D)
    (hsuite : env.suite = (parseDotnetOutput U result).map TestOutput.TestOutcome.rendered)
    (hkind : Nodes.detectProjectKind w.tree = "dotnet")
    (h : Nodes.runTests ctx env s w = (.ok u, w')) :
    ∃ o, parseDotnetOutput U result = .ok o ∧ u.get? .testRunOk = some o.ok ∧
      u.get? .failureSignatureHistory
        = some (s.get .failureSignatureHistory [] ++ [signatures U D o]) := by
  obtain ⟨outcome, hrun, -, hok, hhistory⟩ := runTests_outcome h hkind
  rw [hsuite] at hrun
  cases ho : parseDotnetOutput U result with
  | error e =>
    rw [ho] at hrun
    cases hrun
  | ok o =>
    rw [ho] at hrun
    obtain rfl := Except.ok.inj hrun
    refine ⟨o, rfl, ?_, ?_⟩
    · rw [hok, TestOutput.TestOutcome.ok_rendered]
    · rw [hhistory, hsignatures]
      rfl

/-- **A telling run that fails twice in a row ends the loop.** -/
theorem repeated_halts (hsignatures : ctx.signaturesFor = signaturesFor U D)
    (hsuite : env.suite = (parseDotnetOutput U result).map TestOutput.TestOutcome.rendered)
    (hkind : Nodes.detectProjectKind w.tree = "dotnet")
    (h : Nodes.runTests ctx env s w = (.ok u, w'))
    (ho : parseDotnetOutput U result = .ok o) (hnot : o.ok = false) (htelling : Telling U result)
    (hbefore : s.get .failureSignatureHistory [] = history ++ [signatures U D o]) :
    afterTests (s.merge u) = .halt := by
  obtain ⟨o', ho', hok, hhistory⟩ := runTests_parsed hsignatures hsuite hkind h
  obtain rfl := Except.ok.inj (ho.symm.trans ho')
  have hstuck : isStuck ((s.merge u).get .failureSignatureHistory []) = true := by
    rw [TypedDict.get_merge_of_some hhistory, hbefore, List.append_assoc]
    exact (hasEvidence_of_telling htelling ho hnot).stuck history
  have hred : ¬ testsPass (s.merge u) := by
    rintro ⟨-, -, hpass⟩
    rw [TypedDict.get_merge_of_some hok, hnot] at hpass
    cases hpass
  rw [afterTests, if_neg hred, if_pos hstuck]
  split <;> rfl

end Loop

/-- Seven tests of one project pass, and the next one does not build. -/
def brokenProject : CommandResult where
  command := ["dotnet", "test"]
  cwd := "."
  exitCode := 1
  stdout := "Passed!  - Failed: 0, Passed: 7, Skipped: 0\nerror CS1002: ; expected"
  stderr := ""
  durationMs := 1000
  timedOut := false

/-- The run fails, and leaves nothing to go by. -/
theorem brokenProject_untold : ∃ o, parseDotnetOutput Unicode.ascii brokenProject = .ok o ∧
    o.ok = false ∧ o.failures = [] ∧ o.failed = 0 ∧ ∀ D, ¬ HasEvidence Unicode.ascii D o := by
  have hfailures : failuresOf Unicode.ascii brokenProject.combinedOutput = [] := by decide +kernel
  have ht : totals Unicode.ascii brokenProject.combinedOutput = .ok ⟨7, 0, 0⟩ := by decide +kernel
  have hparse := parse_of_counted ht hfailures (by decide)
  exact ⟨_, hparse, rfl, rfl, rfl, fun D h => h.failures rfl⟩

end Evidence

end Fingerprint

end AgentPlatform
