import AgentPlatform.Machinery.Difflib
import AgentPlatform.Tools.Patching

/-!
# Tools/LineCounts — how many lines a patch adds and removes

`_count_changes` prints a diff without context and counts its `+` and its `-` lines, passing over
the two headers by their first three characters.  A line of the file that begins with `++` or `--`
looks like a header once it is printed, and is passed over as well: the counts are exact if and only
if no line inserted begins with `++` and none deleted with `--` (`countsExactly_iff`).
-/

namespace AgentPlatform

open Difflib SequenceMatcher

/-- `line.startswith(c) and not line.startswith(ccc)`. -/
def counted (c : Char) (line : Text) : Bool := [c].isPrefixOf line && !([c, c, c].isPrefixOf line)

/-- `line.startswith("+") and not line.startswith("+++")`. -/
def isAdded : Text → Bool := counted '+'

/-- `line.startswith("-") and not line.startswith("---")`. -/
def isRemoved : Text → Bool := counted '-'

/-- One turn of the loop of `_count_changes`. -/
def countChange (counts : ℕ × ℕ) (line : Text) : ℕ × ℕ :=
  if isAdded line then (counts.1 + 1, counts.2)
  else if isRemoved line then (counts.1, counts.2 + 1)
  else counts

/-- `_count_changes(before, after)`. -/
def countChanges (before after : Text) : ℕ × ℕ :=
  (unifiedDiff (Text.splitlines before) (Text.splitlines after) 0).foldl countChange (0, 0)

/-- The lines of `after` that the matching of the two texts inserts. -/
def insertedLines (before after : Text) : List Text :=
  (opcodes (Text.splitlines before) (Text.splitlines after)).flatMap
    (Opcode.inserted (Text.splitlines after))

/-- The lines of `before` that it deletes. -/
def deletedLines (before after : Text) : List Text :=
  (opcodes (Text.splitlines before) (Text.splitlines after)).flatMap
    (Opcode.deleted (Text.splitlines before))

/-- **The counts are the numbers of lines inserted and deleted**, and differ as the texts do. -/
structure CountsExactly (before after : Text) : Prop where
  added : (countChanges before after).1 = (insertedLines before after).length
  removed : (countChanges before after).2 = (deletedLines before after).length
  balance : ((countChanges before after).1 : ℤ) - (countChanges before after).2 =
    (Text.splitlines after).length - (Text.splitlines before).length

/-! ## What is counted -/

theorem counted_cons (c d : Char) (line : Text) :
    counted c (d :: line) = (c == d && !([c, c].isPrefixOf line)) := by
  rw [counted, List.isPrefixOf_cons_cons, List.isPrefixOf_cons_cons,
    List.isPrefixOf_nil_left, Bool.and_true]
  cases c == d <;> rfl

/-- No line is counted twice. -/
theorem isRemoved_of_isAdded {line : Text} (h : isAdded line = true) : isRemoved line = false := by
  cases line with
  | nil => rfl
  | cons c line =>
    rw [isAdded, counted_cons, Bool.and_eq_true, beq_iff_eq] at h
    rw [← h.1]
    rfl

/-- No control line and no context is counted. -/
theorem counted_of_isControl {c : Char} (hc : c = '+' ∨ c = '-') {line : Text}
    (h : isControl line = true) : counted c line = false := by
  cases line with
  | nil => rfl
  | cons d line =>
    rw [counted_cons, Bool.and_eq_false_imp, beq_iff_eq]
    rintro rfl
    rcases hc with rfl | rfl <;> simpa [isControl] using h

theorem foldl_countChange (lines : List Text) (counts : ℕ × ℕ) :
    lines.foldl countChange counts =
      (counts.1 + lines.countP isAdded, counts.2 + lines.countP isRemoved) := by
  induction lines generalizing counts with
  | nil => rfl
  | cons line lines ih =>
    rw [List.foldl_cons, ih, countChange, List.countP_cons, List.countP_cons]
    by_cases hadded : isAdded line = true
    · simp only [hadded, isRemoved_of_isAdded hadded, if_true, Bool.false_eq_true,
        if_false, Nat.add_zero, Nat.add_right_comm counts.1 1, Nat.add_assoc]
    · by_cases hremoved : isRemoved line = true
      · simp only [hadded, hremoved, if_true, Bool.false_eq_true, if_false, Nat.add_zero,
          Nat.add_right_comm counts.2 1, Nat.add_assoc]
      · simp only [hadded, hremoved, Bool.false_eq_true, if_false, Nat.add_zero]

variable (before after : Text)

/-- The lines of the diff a mark counts: those it stands before, unless they begin with two more. -/
theorem countP_counted {c : Char} (hc : c = '+' ∨ c = '-') :
    (unifiedDiff (Text.splitlines before) (Text.splitlines after) 0).countP (counted c) =
      (deletedLines before after).countP (fun line => c == '-' && !([c, c].isPrefixOf line)) +
        (insertedLines before after).countP
          (fun line => c == '+' && !([c, c].isPrefixOf line)) := by
  have hcount := countP_unifiedDiff (a := Text.splitlines before) (b := Text.splitlines after)
    (p := counted c) (fun line => counted_of_isControl hc) 0
  simp only [counted_cons] at hcount
  rw [deletedLines, insertedLines]
  exact hcount

/-- A line inserted counts unless it begins with `++` … -/
theorem countChanges_added : (countChanges before after).1 =
    (insertedLines before after).countP fun line => !(['+', '+'].isPrefixOf line) := by
  rw [countChanges, foldl_countChange]
  dsimp only
  rw [Nat.zero_add, isAdded, countP_counted before after (.inl rfl)]
  simp only [show ('+' == '-') = false by decide, beq_self_eq_true, Bool.false_and, Bool.true_and,
    List.countP_false, Function.const_apply, Nat.zero_add]

/-- … and a line deleted unless it begins with `--`. -/
theorem countChanges_removed : (countChanges before after).2 =
    (deletedLines before after).countP fun line => !(['-', '-'].isPrefixOf line) := by
  rw [countChanges, foldl_countChange]
  dsimp only
  rw [Nat.zero_add, isRemoved, countP_counted before after (.inr rfl)]
  simp only [show ('-' == '+') = false by decide, beq_self_eq_true, Bool.false_and, Bool.true_and,
    List.countP_false, Function.const_apply, Nat.add_zero]

theorem countP_isPrefixOf_eq_length_iff {mark : Text} {lines : List Text} :
    lines.countP (fun line => !mark.isPrefixOf line) = lines.length ↔
    ∀ line ∈ lines, ¬ mark <+: line := by
  rw [List.countP_eq_length]
  refine forall₂_congr fun line _ => ?_
  rw [Bool.not_eq_true', ← List.isPrefixOf_iff_prefix, Bool.not_eq_true]

/-- **The counts of a patch are exact if and only if no line it inserts begins with `++` and no line
it deletes begins with `--`.** -/
theorem countsExactly_iff (before after : Text) : CountsExactly before after ↔
    (∀ line ∈ insertedLines before after, ¬ ['+', '+'] <+: line) ∧
      ∀ line ∈ deletedLines before after, ¬ ['-', '-'] <+: line := by
  constructor
  · intro h
    have hadded := h.added
    have hremoved := h.removed
    rw [countChanges_added, countP_isPrefixOf_eq_length_iff] at hadded
    rw [countChanges_removed, countP_isPrefixOf_eq_length_iff] at hremoved
    exact ⟨hadded, hremoved⟩
  · rintro ⟨hinserted, hdeleted⟩
    have hadded := (countChanges_added before after).trans
      (countP_isPrefixOf_eq_length_iff.mpr hinserted)
    have hremoved := (countChanges_removed before after).trans
      (countP_isPrefixOf_eq_length_iff.mpr hdeleted)
    refine ⟨hadded, hremoved, ?_⟩
    have hbalance := length_inserted_add (Text.splitlines before) (Text.splitlines after)
    rw [← insertedLines, ← deletedLines, ← hadded, ← hremoved] at hbalance
    omega

/-- A comment at the head of a script is taken out: its line is printed as `--- note`, and neither
count shows it. -/
theorem comment_not_counted :
    countChanges "-- note\nselect 1;\n".toList "select 1;\n".toList = (0, 0) ∧
      ¬ CountsExactly "-- note\nselect 1;\n".toList "select 1;\n".toList := by
  have hcounts : countChanges "-- note\nselect 1;\n".toList "select 1;\n".toList = (0, 0) := by
    decide +kernel
  have hdeleted : deletedLines "-- note\nselect 1;\n".toList "select 1;\n".toList
      = ["-- note".toList] := by decide +kernel
  refine ⟨hcounts, fun h => ?_⟩
  have hremoved := h.removed
  rw [hcounts, hdeleted] at hremoved
  exact absurd hremoved (by decide)

/-! ## What a patch reports -/

/-- **A patch that succeeds reports the counts of the text it read and of the text it wrote.** -/
theorem applyPatch_counts {rt : ToolRuntime} (hrt : rt.countChanges = countChanges)
    {c : ToolContext}
    {args : Arguments} {t t' : FileTree} {r : ToolResult} (h : applyPatch rt c args t = (.ok r, t'))
    (hok : r.ok = true) :
    ∃ target before after, t.fileAt target = some (.text before) ∧
      t' = t.put target (.file (.text after)) ∧
      (r.data.linesAdded, r.data.linesRemoved) = countChanges before.universalNewlines after := by
  obtain ⟨path, target, old, new, before, hcall, hne, hcount, htree⟩ := applyPatch_eq_ok rt h hok
  have hrun := hcall.run_once_eq rt hcount hne
  rw [h, hrt] at hrun
  dsimp only at hrun
  generalize hcounts : countChanges before.universalNewlines
    (Text.replaceOnce old.toList new.toList before.universalNewlines) = counts at hrun
  obtain rfl := Except.ok.inj (congrArg Prod.fst hrun)
  exact ⟨target, before, _, hcall.file, htree, hcounts.symm⟩

end AgentPlatform
