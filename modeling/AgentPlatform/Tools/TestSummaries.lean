import AgentPlatform.Tools.TestOutput
import Mathlib.Algebra.GroupWithZero.Nat

/-!
# Tools/TestSummaries — the summary lines of a solution, and the counts that are reported

A solution prints one summary for each of its test projects, between lines of any kind.  The counts
that are reported are those of the first summary that is met.

* `totals_cover_iff` — when they are the counts of the whole solution;
* `green_iff` — when a run without failures is reported as one.
-/

namespace AgentPlatform

namespace TestOutput

open Regex Pattern

/-! ## Summary lines -/

/-- **The summary of one project**: `Passed!  - Failed:     0, Passed:     7, Skipped:     0, …`. -/
structure Summary (U : Unicode) where
  green : Bool
  gap : ℕ
  failedPad : ℕ
  failed : ℕ
  passedPad : ℕ
  passed : ℕ
  skippedPad : ℕ
  skipped : ℕ
  tail : Text
  tail_ends : ∀ c ∈ tail.head?, U.isDecimal c = false
  tail_line : '\n' ∉ tail

variable {U : Unicode}

/-- A label, some spaces and a number. -/
def column (label : String) (pad n : ℕ) (rest : Text) : Text :=
  label.toList ++ (List.replicate pad ' ' ++ (Nat.toDigits 10 n ++ rest))

namespace Summary

variable (s : Summary U)

def verdict : Text := (if s.green then "Passed!" else "Failed!").toList

/-- What stands between the verdict and the counts. -/
def dash : Text := List.replicate s.gap ' ' ++ "- ".toList

def text : Text :=
  s.verdict ++ (s.dash ++ column "Failed:" s.failedPad s.failed (", ".toList ++
    column "Passed:" s.passedPad s.passed (", ".toList ++
      column "Skipped:" s.skippedPad s.skipped s.tail)))

/-- The counts are short enough to be converted. -/
def Fits : Prop :=
  (Nat.toDigits 10 s.failed).length ≤ maxDigits ∧ (Nat.toDigits 10 s.passed).length ≤ maxDigits ∧
    (Nat.toDigits 10 s.skipped).length ≤ maxDigits

/-- A match that holds the counts of the summary. -/
structure HeldBy (m : Place) : Prop where
  failed : m.group 1 = Nat.toDigits 10 s.failed
  passed : m.group 2 = Nat.toDigits 10 s.passed
  skipped : m.group 3 = Nat.toDigits 10 s.skipped

end Summary

/-! ## Reading a summary -/

section Reading

variable {s : Summary U} {k : Place → Option Place} {before rest : Text} {g : List (ℕ × Text)}
  {r : Place} {n : ℕ}

theorem foldl_eq_ofDigitChars {ds : Text} {m : ℕ} (h : ∀ c ∈ ds, c.isDigit = true) :
    ds.foldl (fun n c => 10 * n + (U.decimal? c).getD 0) m = Nat.ofDigitChars 10 ds m := by
  induction ds generalizing m with
  | nil => rfl
  | cons c ds ih =>
    rw [List.forall_mem_cons] at h
    rw [List.foldl_cons, ih h.2, Unicode.decimal?_of_isDigit h.1, Nat.ofDigitChars_cons]
    rfl

/-- **A number reads back.** -/
theorem value_toDigits : value U (Nat.toDigits 10 n) = n := by
  rw [value, foldl_eq_ofDigitChars (Text.isDigit_toDigits n), Nat.ofDigitChars_ten_toDigits]

theorem int_toDigits (h : (Nat.toDigits 10 n).length ≤ maxDigits) :
    int U (Nat.toDigits 10 n) = .ok n := by
  rw [int, if_pos h, value_toDigits]

/-- What follows a number stops it. -/
def Stops (U : Unicode) (rest : Text) : Prop := ∀ c ∈ rest.head?, U.isDecimal c = false

theorem stops_cons {c : Char} (hascii : c.toNat < 128)
    (h : c.isDigit = false) : Stops U (c :: rest) := by
  intro d hd
  obtain rfl := Option.some.inj hd
  rw [Unicode.isDecimal, U.decimal_ascii c hascii, h]
  rfl

/-- A label is read with its number. -/
theorem run_column {label shown : String} {pad i : ℕ} {ps : List Pattern}
    (hlabel : List.Forall₂ (fun l c => sameLetter l c = true) label.toList shown.toList)
    (hrest : Stops U rest) (hk : (seqs ps).run k ⟨(Nat.toDigits 10 n).reverse ++
      ((List.replicate pad ' ').reverse ++ (shown.toList.reverse ++ before)), rest,
      (i, Nat.toDigits 10 n) :: g⟩ = some r) :
    (seqs (anyCase label :: spaces :: group i (digits U) :: ps)).run k
      ⟨before, column shown pad n rest, g⟩ = some r := by
  have hdigit := Text.isDigit_toDigits n
  have hne : Nat.toDigits 10 n ≠ [] := Nat.toDigits_ne_nil
  rw [run_seqs_cons, anyCase, column, run_literal hlabel, run_seqs_cons]
  refine run_many_greedy ?_ ?_ ?_
  · intro c hc
    rw [List.eq_of_mem_replicate hc]
    rfl
  · intro c hc
    rw [List.head?_append_of_ne_nil _ hne] at hc
    exact Text.isSpace_of_isDigit (hdigit c (List.mem_of_mem_head? hc))
  · rw [run_seqs_cons]
    exact run_group_plus hne (fun c hc => Unicode.isDecimal_of_isDigit (hdigit c hc)) hrest hk

/-- A comma and a space are read. -/
theorem run_comma {ps : List Pattern} (hrest : ∀ c ∈ rest.head?, Text.isSpace c = false)
    (hk : (seqs ps).run k ⟨' ' :: ',' :: before, rest, g⟩ = some r) :
    (seqs (anyCase "," :: spaces :: ps)).run k ⟨before, ", ".toList ++ rest, g⟩ = some r := by
  have hcomma : (anyCase ",").run ((seqs (spaces :: ps)).run k) ⟨before, ", ".toList ++ rest, g⟩
      = (seqs (spaces :: ps)).run k ⟨',' :: before, [' '] ++ rest, g⟩ := rfl
  rw [run_seqs_cons, hcomma, run_seqs_cons]
  refine run_many_greedy (fun c hc => ?_) hrest hk
  rw [List.mem_singleton.mp hc]
  rfl

/-- A verdict is read, whichever it is. -/
theorem run_verdict {ps : List Pattern}
    (hk : (seqs ps).run k ⟨s.verdict.reverse ++ before, rest, g⟩ = some r) :
    (seqs (alt (anyCase "passed!") (anyCase "failed!") :: ps)).run k
      ⟨before, s.verdict ++ rest, g⟩ = some r := by
  rw [run_seqs_cons, run]
  rcases hgreen : s.green with _ | _
  · have hverdict : s.verdict = "Failed!".toList := by rw [Summary.verdict, hgreen]; rfl
    rw [hverdict] at hk ⊢
    have hother : (anyCase "passed!").run ((seqs ps).run k) ⟨before, "Failed!".toList ++ rest, g⟩
        = none := rfl
    rw [hother, Option.none_or]
    exact hk
  · have hverdict : s.verdict = "Passed!".toList := by rw [Summary.verdict, hgreen]; rfl
    rw [hverdict] at hk ⊢
    have hread : (anyCase "passed!").run ((seqs ps).run k) ⟨before, "Passed!".toList ++ rest, g⟩
        = some r := hk
    rw [hread, Option.some_or]

/-- The dash is passed over, up to the first label. -/
theorem run_dash {ps : List Pattern}
    (hk : (seqs (anyCase "failed:" :: ps)).run k ⟨s.dash.reverse ++ before, rest, g⟩ = some r) :
    (seqs (many false dot :: anyCase "failed:" :: ps)).run k ⟨before, s.dash ++ rest, g⟩
      = some r := by
  have hdash : ∀ c ∈ s.dash, c = ' ' ∨ c = '-' := by
    intro c hc
    rcases List.mem_append.mp hc with hc | hc
    · exact .inl (List.eq_of_mem_replicate hc)
    · have hmem : c ∈ ['-', ' '] := hc
      rw [List.mem_cons, List.mem_singleton] at hmem
      exact hmem.symm
  rw [run_seqs_cons]
  refine run_many_lazy (fun c hc => ?_) (fun u v huv hv => ?_) hk
  · rcases hdash c hc with rfl | rfl
    · rfl
    · rfl
  · obtain ⟨c, w, rfl⟩ := List.exists_cons_of_ne_nil hv
    rw [run_seqs_cons]
    refine run_literal_of_not fun d hd => ?_
    obtain rfl : c = d := Option.some.inj hd
    rcases hdash c (by rw [huv]; simp) with rfl | rfl
    · rfl
    · rfl

/-- **A summary is a match that holds its counts.** -/
theorem matchAt_summary (before : Text) (hrest : Stops U (s.tail ++ rest)) :
    ∃ m, (dotnetTotals U).matchAt before (s.text ++ rest) = some m ∧ s.HeldBy m := by
  have hcomma : ∀ t, Stops U (", ".toList ++ t) := fun t => stops_cons (by decide) (by decide)
  have hlabel : ∀ (c : Char) (t : Text), Text.isSpace c = false →
      ∀ d ∈ (c :: t).head?, Text.isSpace d = false := by
    rintro c t hc d hd
    obtain rfl := Option.some.inj hd
    exact hc
  have happend : s.text ++ rest = s.verdict ++ (s.dash ++ column "Failed:" s.failedPad s.failed
      (", ".toList ++ column "Passed:" s.passedPad s.passed (", ".toList ++
        column "Skipped:" s.skippedPad s.skipped (s.tail ++ rest)))) := by
    simp only [Summary.text, column, List.append_assoc]
  rw [happend]
  refine ⟨_, run_verdict (run_dash (run_column ?_ (hcomma _) (run_comma ?_ (run_column ?_ (hcomma _)
    (run_comma ?_ (run_column ?_ hrest rfl)))))), ⟨rfl, rfl, rfl⟩⟩
  · decide
  · exact hlabel 'P' _ rfl
  · decide
  · exact hlabel 'S' _ rfl
  · decide

/-- The counts of a summary are converted where they are short enough. -/
theorem Summary.HeldBy.counts_eq {m : Place} (hm : s.HeldBy m) (h : s.Fits) :
    counts U m = .ok ⟨s.passed, s.failed, s.skipped⟩ := by
  rw [counts, hm.failed, hm.passed, hm.skipped, int_toDigits h.1, int_toDigits h.2.1,
    int_toDigits h.2.2]
  rfl

theorem int_eq_ok {ds : Text} (h : int U ds = .ok n) : ds.length ≤ maxDigits := by
  rw [int] at h
  split at h
  · assumption
  · cases h

/-- Counts that are converted are short enough. -/
theorem Summary.HeldBy.fits {m : Place} {t : Totals} (hm : s.HeldBy m) (h : counts U m = .ok t) :
    s.Fits := by
  rw [counts, hm.failed, hm.passed, hm.skipped] at h
  obtain ⟨f, hf, h⟩ := Prog.outcome_bind_eq_ok.mp h
  obtain ⟨p, hp, h⟩ := Prog.outcome_bind_eq_ok.mp h
  obtain ⟨k, hk, -⟩ := Prog.outcome_bind_eq_ok.mp h
  exact ⟨int_eq_ok hf, int_eq_ok hp, int_eq_ok hk⟩

end Reading

/-! ## The output of a solution -/

/-- A line of the output. -/
inductive Line (U : Unicode) where
  | summary (s : Summary U)
  | other (t : Text)

def Line.text : Line U → Text
  | summary s => s.text
  | other t => t

/-- What separates a line from those after it. -/
def breakOf : List (Line U) → Text
  | [] => []
  | _ :: _ => ['\n']

/-- The output, line by line. -/
def render : List (Line U) → Text
  | [] => []
  | l :: ls => l.text ++ breakOf ls ++ render ls

/-- The summaries of the projects. -/
def summaries : List (Line U) → List (Summary U)
  | [] => []
  | .summary s :: ls => s :: summaries ls
  | .other _ :: ls => summaries ls

/-- **No other line looks like the pattern**: no match of it starts there. -/
def Silent (p : Pattern) : Text → List (Line U) → Prop
  | _, [] => True
  | before, .summary s :: ls => Silent p ((s.text ++ breakOf ls).reverse ++ before) ls
  | before, .other t :: ls =>
    p.Quiet before (t ++ breakOf ls) (render ls) ∧ Silent p ((t ++ breakOf ls).reverse ++ before) ls

/-- **The output of a solution**: beside the summaries of its projects no line looks like a summary
of either form or like a failed test. -/
structure IsSolution (lines : List (Line U)) : Prop where
  totals : Silent (dotnetTotals U) [] lines
  failedTests : Silent (failedTest U) [] lines
  vstest : summaries lines = [] → (vstestTotals U).search (render lines) = none

section Solutions

variable {lines ls : List (Line U)} {s : Summary U} {before rest : Text}

theorem stops_breakOf (s : Summary U) (ls : List (Line U)) :
    Stops U (s.tail ++ (breakOf ls ++ render ls)) := by
  intro c hc
  cases htail : s.tail with
  | cons d t =>
    rw [htail] at hc
    refine s.tail_ends c ?_
    rw [htail]
    exact hc
  | nil =>
    rw [htail] at hc
    cases ls with
    | nil => cases hc
    | cons l ls => exact stops_cons (U := U) (c := '\n') (by decide) (by decide) c hc

/-- Without a summary there is no match. -/
theorem searchFrom_totals_none (h : Silent (dotnetTotals U) before lines)
    (hnone : summaries lines = []) : (dotnetTotals U).searchFrom before (render lines) = none := by
  induction lines generalizing before with
  | nil => rfl
  | cons l ls ih =>
    cases l with
    | summary s => cases hnone
    | other t =>
      rw [render, Line.text, searchFrom_of_quiet h.1]
      exact ih h.2 hnone

/-- **The first summary is the first match.** -/
theorem searchFrom_totals_first {ss : List (Summary U)} (h : Silent (dotnetTotals U) before lines)
    (hfirst : summaries lines = s :: ss) :
    ∃ m, (dotnetTotals U).searchFrom before (render lines) = some m ∧ s.HeldBy m := by
  induction lines generalizing before with
  | nil => cases hfirst
  | cons l ls ih =>
    cases l with
    | summary s' =>
      obtain rfl : s' = s := (List.cons.inj hfirst).1
      obtain ⟨m, hm, hgroups⟩ := matchAt_summary before (stops_breakOf s' ls)
      refine ⟨m, ?_, hgroups⟩
      rw [render, List.append_assoc]
      exact searchFrom_of_matchAt hm
    | other t =>
      rw [render, Line.text, searchFrom_of_quiet h.1]
      exact ih h.2 hfirst

theorem newline_not_mem_column {label : String} {pad n : ℕ} (hlabel : '\n' ∉ label.toList)
    (hrest : '\n' ∉ rest) : '\n' ∉ column label pad n rest := by
  have hdigits : '\n' ∉ Nat.toDigits 10 n := fun h =>
    absurd (Text.isDigit_toDigits n _ h) (by decide)
  have hpad : '\n' ∉ List.replicate pad ' ' :=
    fun h => absurd (List.eq_of_mem_replicate h) (by decide)
  simp only [column, List.mem_append, not_or]
  exact ⟨hlabel, hpad, hdigits, hrest⟩

theorem newline_not_mem_summary : '\n' ∉ s.text := by
  have hverdict : '\n' ∉ s.verdict := by
    rw [Summary.verdict]
    split
    · decide
    · decide
  have hgap : '\n' ∉ List.replicate s.gap ' ' :=
    fun h => absurd (List.eq_of_mem_replicate h) (by decide)
  have hdash : '\n' ∉ s.dash := fun h => (List.mem_append.mp h).elim hgap (by decide)
  have hcomma : ∀ {t : Text}, '\n' ∉ t → '\n' ∉ ", ".toList ++ t :=
    fun ht h => (List.mem_append.mp h).elim (by decide) ht
  rw [Summary.text, List.mem_append, List.mem_append, not_or, not_or]
  exact ⟨hverdict, hdash, newline_not_mem_column (by decide)
    (hcomma (newline_not_mem_column (by decide)
    (hcomma (newline_not_mem_column (by decide) s.tail_line))))⟩

/-- Inside a line no failed test begins. -/
theorem quiet_inLine {c : Char} {t : Text} (hc : c ≠ '\n') (ht : '\n' ∉ t) :
    (failedTest U).Quiet (c :: before) (t ++ breakOf ls) rest := by
  have hinside : ∀ {d : Char} {u v : Text}, d ≠ '\n' →
      (failedTest U).matchAt (d :: u) v = none := by
    intro d u v hd
    refine if_neg ?_
    simpa [Place.atLineStart] using hd
  induction t generalizing c before with
  | nil =>
    cases ls with
    | nil => trivial
    | cons l ls => exact ⟨hinside hc, trivial⟩
  | cons d t ih =>
    rw [List.mem_cons, not_or] at ht
    exact ⟨hinside hc, ih (Ne.symm ht.1) ht.2⟩

/-- A failed test begins with its word, where no space precedes it. -/
theorem matchAt_failedTest (hspace : ∀ c ∈ rest.head?, Text.isSpace c = false)
    (hword : (seqs [alt (word "Failed") (word "X"), plus (one Text.isSpace),
      group 1 (seqs [plus (one (isNameChar U)),
        opt (seqs [word "(", many true (one (· ≠ ')')), word ")"])])]).run some ⟨before, rest, []⟩
          = none) :
    (failedTest U).matchAt before rest = none := by
  rw [matchAt, failedTest, run_seqs_cons, run]
  split
  · rw [run_seqs_cons, spaces, run_many_of_not true hspace]
    exact hword
  · rfl

/-- **A summary is no failed test**: its verdict has no name behind it. -/
theorem quiet_summary : (failedTest U).Quiet before (s.text ++ breakOf ls) rest := by
  obtain ⟨c, t, htext, hverdict⟩ : ∃ c t, s.verdict = c :: t ∧
      ∀ u, (failedTest U).matchAt before (c :: (t ++ u)) = none := by
    rcases hgreen : s.green with _ | _
    · refine ⟨'F', "ailed!".toList, by rw [Summary.verdict, hgreen]; rfl, fun u => ?_⟩
      exact matchAt_failedTest (fun d hd => by obtain rfl := Option.some.inj hd; rfl) rfl
    · refine ⟨'P', "assed!".toList, by rw [Summary.verdict, hgreen]; rfl, fun u => ?_⟩
      exact matchAt_failedTest (fun d hd => by obtain rfl := Option.some.inj hd; rfl) rfl
  have hline := newline_not_mem_summary (s := s)
  rw [Summary.text, htext, List.cons_append, List.mem_cons, not_or] at hline
  rw [Summary.text, htext, List.cons_append, List.cons_append]
  refine ⟨?_, quiet_inLine (Ne.symm hline.1) hline.2⟩
  rw [List.append_assoc, List.append_assoc]
  exact hverdict _

theorem searchFrom_failedTest (h : Silent (failedTest U) before lines) :
    (failedTest U).searchFrom before (render lines) = none := by
  induction lines generalizing before with
  | nil => exact matchAt_failedTest (fun d hd => (nomatch hd)) rfl
  | cons l ls ih =>
    cases l with
    | summary s =>
      rw [render, Line.text, searchFrom_of_quiet quiet_summary]
      exact ih h
    | other t =>
      rw [render, Line.text, searchFrom_of_quiet h.1]
      exact ih h.2

/-- **The counts that are read** are those of the first summary. -/
theorem totals_of_first {ss : List (Summary U)} (h : IsSolution lines)
    (hfirst : summaries lines = s :: ss) :
    ∃ m, totals U (render lines) = counts U m ∧ s.HeldBy m := by
  obtain ⟨m, hm, hheld⟩ := searchFrom_totals_first h.totals hfirst
  exact ⟨m, totals_of_search hm, hheld⟩

theorem totals_of_none (h : IsSolution lines) (hnone : summaries lines = []) :
    totals U (render lines) = .ok ⟨0, 0, 0⟩ := by
  have hdotnet : (dotnetTotals U).search (render lines) = none :=
    searchFrom_totals_none h.totals hnone
  rw [totals, hdotnet, h.vstest hnone]
  rfl

end Solutions

/-! ## The whole solution -/

/-- The first project stands for the solution: the others count no passed and no skipped test, and
no failed one either, unless the run itself is counted as one. -/
def FirstStandsForAll (exitCode : ℤ) : List (Summary U) → Prop
  | [] => exitCode = 0
  | first :: others =>
    first.Fits ∧ (others.map (·.passed)).sum = 0 ∧ (others.map (·.skipped)).sum = 0 ∧
      (others.map (·.failed)).sum = if exitCode ≠ 0 ∧ first.failed = 0 ∧
      first.passed = 0 then 1 else 0

/-- The counts that are reported are those of all projects. -/
def Covers (U : Unicode) (result : CommandResult) (projects : List (Summary U)) : Prop :=
  ∃ o, parseDotnetOutput U result = .ok o ∧ o.passed = (projects.map (·.passed)).sum ∧
    o.skipped = (projects.map (·.skipped)).sum ∧ o.failed = (projects.map (·.failed)).sum

section Cover

variable {result : CommandResult} {t : Totals}

/-- What is reported of a run without a failed test. -/
theorem covers_iff_of_totals {projects : List (Summary U)}
    (ht : totals U result.combinedOutput = .ok t)
    (hfailures : failuresOf U result.combinedOutput = []) :
    Covers U result projects ↔ t.passed = (projects.map (·.passed)).sum ∧
      t.skipped = (projects.map (·.skipped)).sum ∧
        (if result.exitCode ≠ 0 ∧ t.failed = 0 ∧ t.passed = 0 then 1 else t.failed)
          = (projects.map (·.failed)).sum := by
  by_cases hcrash : result.exitCode ≠ 0 ∧ t.failed = 0 ∧ t.passed = 0
  · rw [Covers, parse_of_crash ht hfailures hcrash.1 hcrash.2.1 hcrash.2.2, if_pos hcrash]
    exact ⟨fun ⟨o, ho, h⟩ => by obtain rfl := Except.ok.inj ho; exact h, fun h => ⟨_, rfl, h⟩⟩
  · rw [Covers, parse_of_counted ht hfailures hcrash, if_neg hcrash]
    exact ⟨fun ⟨o, ho, h⟩ => by obtain rfl := Except.ok.inj ho; exact h, fun h => ⟨_, rfl, h⟩⟩

end Cover

/-- **The reported counts cover the whole solution** exactly where the first project stands for
it. -/
theorem totals_cover_iff (U : Unicode) (lines : List (Line U)) (result : CommandResult)
    (h : IsSolution lines) (htext : result.combinedOutput = render lines) :
    Covers U result (summaries lines) ↔ FirstStandsForAll result.exitCode (summaries lines) := by
  have hfailures : failuresOf U result.combinedOutput = [] := by
    rw [htext]
    exact failuresOf_eq_nil_iff.mpr (searchFrom_failedTest h.failedTests)
  cases hprojects : summaries lines with
  | nil =>
    have ht : totals U result.combinedOutput = .ok ⟨0, 0, 0⟩ := by
      rw [htext]
      exact totals_of_none h hprojects
    rw [covers_iff_of_totals ht hfailures]
    simp [FirstStandsForAll]
  | cons first others =>
    obtain ⟨m, hm, hheld⟩ := totals_of_first h hprojects
    rw [← htext] at hm
    by_cases hfits : first.Fits
    · rw [covers_iff_of_totals (hm.trans (hheld.counts_eq hfits)) hfailures]
      simp only [FirstStandsForAll, hfits, true_and, List.map_cons, List.sum_cons]
      split_ifs <;> omega
    · refine ⟨fun ⟨o, ho, _⟩ => ?_, fun hfirst => absurd hfirst.1 hfits⟩
      obtain ⟨t, ht⟩ := exists_totals ho
      exact absurd (hheld.fits (hm.symm.trans ht)) hfits

/-- One project, in the layout of the runner. -/
def project (failed passed skipped : ℕ) : Summary Unicode.ascii where
  green := true
  gap := 2
  failedPad := 1
  failed := failed
  passedPad := 1
  passed := passed
  skippedPad := 1
  skipped := skipped
  tail := []
  tail_ends := fun _ h => nomatch h
  tail_line := List.not_mem_nil

/-- A run that prints the lines. -/
def printed (exitCode : ℤ) (lines : List (Line Unicode.ascii)) : CommandResult :=
  ⟨["dotnet", "test"], ".", exitCode, String.ofList (render lines), "", 1000, false⟩

theorem combinedOutput_printed {exitCode : ℤ} {lines : List (Line Unicode.ascii)}
    (h : Text.strip (render lines ++ ['\n']) = render lines) :
    (printed exitCode lines).combinedOutput = render lines := by
  rw [CommandResult.combinedOutput, printed, String.toList_ofList]
  exact h

/-- Two projects, one of which has seven tests. -/
def twoProjects (passed skipped : ℕ) : List (Line Unicode.ascii) :=
  [.other "Test run".toList, .summary (project 0 7 0), .summary (project 0 passed skipped)]

/-- Of twelve tests that pass, seven are reported. -/
theorem twoProjects_uncovered : IsSolution (twoProjects 5 1) ∧
    (printed 0 (twoProjects 5 1)).combinedOutput = render (twoProjects 5 1) ∧
    ¬ Covers Unicode.ascii (printed 0 (twoProjects 5 1)) (summaries (twoProjects 5 1)) := by
  have hsolution : IsSolution (twoProjects 5 1) :=
    ⟨⟨by decide +kernel, trivial⟩, ⟨by decide +kernel, trivial⟩, by decide⟩
  have htext : (printed 0 (twoProjects 5 1)).combinedOutput = render (twoProjects 5 1) :=
    combinedOutput_printed (by decide +kernel)
  obtain ⟨m, hm, hheld⟩ := totals_of_first hsolution rfl
  have ht : totals Unicode.ascii (printed 0 (twoProjects 5 1)).combinedOutput = .ok ⟨7, 0, 0⟩ := by
    rw [htext, hm]
    exact hheld.counts_eq ⟨by decide, by decide, by decide⟩
  have hfailures : failuresOf Unicode.ascii (printed 0 (twoProjects 5 1)).combinedOutput = [] := by
    rw [htext]
    exact failuresOf_eq_nil_iff.mpr (searchFrom_failedTest hsolution.failedTests)
  refine ⟨hsolution, htext, ?_⟩
  rw [covers_iff_of_totals ht hfailures]
  decide

/-- A second project without tests leaves the counts as they are. -/
theorem emptyProject_covered : IsSolution (twoProjects 0 0) ∧
    Covers Unicode.ascii (printed 0 (twoProjects 0 0)) (summaries (twoProjects 0 0)) := by
  have hsolution : IsSolution (twoProjects 0 0) :=
    ⟨⟨by decide +kernel, trivial⟩, ⟨by decide +kernel, trivial⟩, by decide⟩
  have htext : (printed 0 (twoProjects 0 0)).combinedOutput = render (twoProjects 0 0) :=
    combinedOutput_printed (by decide +kernel)
  refine ⟨hsolution, (totals_cover_iff _ _ _ hsolution htext).mpr ?_⟩
  exact ⟨⟨by decide, by decide, by decide⟩, rfl, rfl, rfl⟩

/-! ## A green run -/

section Green

variable {lines : List (Line U)} {s : Summary U} {before : Text} {result : CommandResult}

/-- An output with a summary has a match. -/
theorem searchFrom_ne_none_of_summary (h : Line.summary s ∈ lines) :
    (dotnetTotals U).searchFrom before (render lines) ≠ none := by
  induction lines generalizing before with
  | nil => cases h
  | cons l ls ih =>
    rcases List.mem_cons.mp h with rfl | hmem
    · obtain ⟨m, hm, -⟩ := matchAt_summary before (stops_breakOf s ls)
      rw [render, Line.text, List.append_assoc, searchFrom_of_matchAt hm]
      exact Option.some_ne_none m
    · rw [render]
      exact searchFrom_append_ne_none (ih hmem)

/-- An outcome without failures has none in its output. -/
theorem failuresOf_of_parse {o : TestOutcome} (ho : parseDotnetOutput U result = .ok o)
    (hnone : o.failures = []) : failuresOf U result.combinedOutput = [] := by
  obtain ⟨t, ht⟩ := exists_totals ho
  by_contra hne
  obtain rfl := Except.ok.inj (ho.symm.trans (parse_of_failures ht hne))
  exact hne hnone

end Green

/-- **A green run is reported as green** exactly where no text looks like a failed test and the
first text that looks like a summary counts no failure. -/
theorem green_iff (U : Unicode) (lines : List (Line U)) (result : CommandResult)
    (hexit : result.exitCode = 0) (htime : result.timedOut = false)
    (htext : result.combinedOutput = render lines)
    (hsummary : ∃ s, Line.summary s ∈ lines ∧ s.failed = 0) :
    (∃ o, parseDotnetOutput U result = .ok o ∧ o.ok = true ∧ o.failed = 0 ∧ o.failures = []) ↔
      (failedTest U).search result.combinedOutput = none ∧
        ∀ m, (dotnetTotals U).search result.combinedOutput = some m →
          ∃ passed skipped, counts U m = .ok ⟨passed, 0, skipped⟩ := by
  obtain ⟨s, hs, -⟩ := hsummary
  have hfound : (dotnetTotals U).search result.combinedOutput ≠ none := by
    rw [htext]
    exact searchFrom_ne_none_of_summary hs
  obtain ⟨m, hm⟩ := Option.ne_none_iff_exists'.mp hfound
  have ht := totals_of_search hm
  constructor
  · rintro ⟨o, ho, -, hfailed, hnone⟩
    obtain ⟨t, htotals⟩ := exists_totals ho
    have hfailures := failuresOf_of_parse ho hnone
    refine ⟨failuresOf_eq_nil_iff.mp hfailures, fun m' hm' => ⟨t.passed, t.skipped, ?_⟩⟩
    obtain rfl := Option.some.inj (hm.symm.trans hm')
    obtain rfl := Except.ok.inj (ho.symm.trans (parse_of_counted htotals hfailures fun h =>
      h.1 hexit))
    rw [← ht, htotals]
    obtain ⟨passed, failed, skipped⟩ := t
    obtain rfl : failed = 0 := hfailed
    rfl
  · rintro ⟨hquiet, hcounts⟩
    obtain ⟨passed, skipped, hc⟩ := hcounts m hm
    have hfailures := failuresOf_eq_nil_iff.mpr hquiet
    refine ⟨_, parse_of_counted (ht.trans hc) hfailures fun h => h.1 hexit, ?_, rfl, rfl⟩
    simp [TestOutcome.ok, hexit, htime]

/-- A log line above the summary of a run that passes. -/
def retried : List (Line Unicode.ascii) :=
  [.other "Failed to connect".toList, .summary (project 0 7 0)]

/-- The log line is taken for a failed test, and the run for a red one. -/
theorem retried_red : (printed 0 retried).exitCode = 0 ∧ (printed 0 retried).timedOut = false ∧
    (printed 0 retried).combinedOutput = render retried ∧
    (∃ s, Line.summary s ∈ retried ∧ s.failed = 0) ∧
    ∃ o, parseDotnetOutput Unicode.ascii (printed 0 retried) = .ok o ∧ o.ok = false ∧ o.failed = 1 ∧
      o.failures.map (·.testName) = ["to".toList] := by
  have htext : (printed 0 retried).combinedOutput = render retried :=
    combinedOutput_printed (by decide +kernel)
  have hfirst : ∃ m, (dotnetTotals Unicode.ascii).search (render retried) = some m ∧
      (project 0 7 0).HeldBy m := searchFrom_totals_first ⟨by decide +kernel, trivial⟩ rfl
  obtain ⟨m, hm, hheld⟩ := hfirst
  have ht : totals Unicode.ascii (printed 0 retried).combinedOutput = .ok ⟨7, 0, 0⟩ := by
    rw [htext, totals_of_search hm]
    exact hheld.counts_eq ⟨by decide, by decide, by decide⟩
  have hnames : (failuresOf Unicode.ascii (printed 0 retried).combinedOutput).map (·.testName)
      = ["to".toList] := by
    rw [htext]
    decide +kernel
  have hlength := congrArg List.length hnames
  rw [List.length_map] at hlength
  have hfailures : failuresOf Unicode.ascii (printed 0 retried).combinedOutput ≠ [] :=
    List.ne_nil_of_length_eq_add_one hlength
  refine ⟨rfl, rfl, htext, ⟨project 0 7 0, by simp [retried], rfl⟩, _,
    parse_of_failures ht hfailures, ?_, hlength, hnames⟩
  simp [TestOutcome.ok, hlength]

/-- Without the log line the run is green. -/
theorem plain_green : ∃ o, parseDotnetOutput Unicode.ascii (printed 0 [.summary (project 0 7 0)])
      = .ok o ∧
    o.ok = true ∧ o.failed = 0 ∧ o.failures = [] := by
  have htext : (printed 0 [.summary (project 0 7 0)]).combinedOutput
      = render [.summary (project 0 7 0)] :=
    combinedOutput_printed (by decide +kernel)
  have hfirst : ∃ m, (dotnetTotals Unicode.ascii).search (render [.summary (project 0 7 0)])
    = some m ∧ (project 0 7 0).HeldBy m := searchFrom_totals_first trivial rfl
  have hquiet : (failedTest Unicode.ascii).search (render [.summary (project 0 7 0)]) = none :=
    searchFrom_failedTest trivial
  obtain ⟨m, hm, hheld⟩ := hfirst
  refine (green_iff Unicode.ascii [.summary (project 0 7 0)] _ rfl rfl htext
    ⟨project 0 7 0, List.mem_singleton_self _, rfl⟩).mpr ⟨?_, fun m' hm' => ⟨7, 0, ?_⟩⟩
  · rw [htext]
    exact hquiet
  · rw [htext] at hm'
    obtain rfl := Option.some.inj (hm.symm.trans hm')
    exact hheld.counts_eq ⟨by decide, by decide, by decide⟩

end TestOutput

end AgentPlatform
