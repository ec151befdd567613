import AgentPlatform.Policies.Evaluator
import Mathlib.Data.List.TakeWhile

/-!
# Policies/UnifiedDiff — the added lines of a unified diff, and what `added_lines_of` takes for them

A diff is a list of files, each with its header lines and hunks; the text of a line is anything
without `'\n'`.  `added_lines_of` does not follow that structure.  It breaks the whole text at every
line boundary Unicode knows and keeps what begins with `+` and not with `+++`.  So an added line
that begins with `++` is lost, one with another line boundary in it is cut, and a piece of any other
line may be kept.

`addedLinesOf_render_iff` — the added lines come back exactly when none of that happens.
-/

namespace AgentPlatform

namespace UnifiedDiff

/-! ## The format -/

/-- The text of one line. -/
abbrev Line := { t : Text // '\n' ∉ t }

/-- What a header line other than `+++` begins with. -/
inductive Keyword where
  | diffGit | oldMode | newMode | deletedFileMode | newFileMode | copyFrom | copyTo | renameFrom
  | renameTo | similarityIndex | dissimilarityIndex | index | binaryFiles | oldFile
  deriving DecidableEq

def Keyword.text : Keyword → Text
  | diffGit => "diff --git ".toList
  | oldMode => "old mode ".toList
  | newMode => "new mode ".toList
  | deletedFileMode => "deleted file mode ".toList
  | newFileMode => "new file mode ".toList
  | copyFrom => "copy from ".toList
  | copyTo => "copy to ".toList
  | renameFrom => "rename from ".toList
  | renameTo => "rename to ".toList
  | similarityIndex => "similarity index ".toList
  | dissimilarityIndex => "dissimilarity index ".toList
  | index => "index ".toList
  | binaryFiles => "Binary files ".toList
  | oldFile => "--- ".toList

inductive HeaderLine where
  | keyed (keyword : Keyword) (text : Line)
  /-- `+++ b/…`. -/
  | newFile (text : Line)

inductive HunkLine where
  | context (text : Line)
  | removed (text : Line)
  | added (text : Line)
  /-- `\ No newline at end of file`. -/
  | noNewline

/-- A hunk: the ranges between the two `@@`, what follows them, and its lines. -/
structure Hunk where
  ranges : Line
  heading : Line
  lines : List HunkLine

structure FileDiff where
  header : List HeaderLine
  hunks : List Hunk

/-- A line of the text. -/
inductive DiffLine where
  | header (line : HeaderLine)
  | hunkHeader (ranges heading : Line)
  | body (line : HunkLine)

namespace DiffLine

def text : DiffLine → Text
  | header (.keyed keyword t) => keyword.text ++ t.val
  | header (.newFile t) => '+' :: '+' :: '+' :: ' ' :: t.val
  | hunkHeader ranges heading => '@' :: '@' :: ' ' :: (ranges.val ++ " @@".toList ++ heading.val)
  | body (.context t) => ' ' :: t.val
  | body (.removed t) => '-' :: t.val
  | body (.added t) => '+' :: t.val
  | body .noNewline => "\\ No newline at end of file".toList

/-- The text of an added line. -/
def added? : DiffLine → Option Text
  | body (.added t) => some t.val
  | _ => none

end DiffLine

/-- A diff of any number of files. -/
abbrev Diff := List FileDiff

namespace Diff

def lines (d : Diff) : List DiffLine :=
  d.flatMap fun file => file.header.map .header ++
    file.hunks.flatMap fun hunk => .hunkHeader hunk.ranges hunk.heading :: hunk.lines.map .body

/-- The text git prints. -/
def render (d : Diff) : Text := d.lines.flatMap fun line => line.text ++ ['\n']

/-- **The added lines, of every hunk.** -/
def added (d : Diff) : List Text := d.lines.filterMap DiffLine.added?

end Diff

/-! ## What goes wrong -/

/-- The test of `added_lines_of`. -/
def isAdded (line : Text) : Bool := ['+'].isPrefixOf line && !(['+', '+', '+'].isPrefixOf line)

/-- What stands behind a line boundary inside the text and a `+`, up to the next boundary. -/
def strays : Text → List Text
  | [] => []
  | c :: t =>
    if Text.isLineBreak c && isAdded t then t.tail.takeWhile (!Text.isLineBreak ·) :: strays t
    else strays t

/-- The strays of the lines that are not added. -/
def Diff.strays (d : Diff) : List Text :=
  (d.lines.filter (·.added?.isNone)).flatMap fun line => UnifiedDiff.strays line.text

/-- **The diff reads back**: no added line begins with `++` or has a line boundary in it, and no
other line has a stray — but for one that is empty, in a diff that adds nothing. -/
structure Diff.ReadsBack (d : Diff) : Prop where
  added : ∀ t ∈ d.added, (∀ c ∈ t, Text.isLineBreak c = false) ∧ ¬ ['+', '+'] <+: t
  strays : d.strays = [] ∨ (d.added = [] ∧ d.strays = [[]])

/-! ## What is kept -/

section Kept

variable {t u rest : Text} {c : Char}

/-- The lines `added_lines_of` joins, after the line read so far. -/
def keptFrom (read t : Text) : List Text :=
  ((Text.splitlinesFrom read t).filter isAdded).map List.tail

theorem addedLinesOf_eq (diff : String) :
    addedLinesOf diff = Text.join ['\n'] (keptFrom [] diff.toList) :=
  rfl

/-- What is kept of one line. -/
def keptOf (line : Text) : List Text := if isAdded line then [line.tail] else []

theorem keptFrom_cons (h : Text.isLineBreak c = false) (read : Text) :
    keptFrom read (c :: t) = keptFrom (c :: read) t := by
  rw [keptFrom, Text.splitlinesFrom_cons h, keptFrom]

theorem keptFrom_nil (read : Text) : keptFrom read [] = keptOf read.reverse := by
  rcases read with _ | ⟨c, read⟩
  · rfl
  · rw [keptFrom, Text.splitlinesFrom, keptOf]
    simp only [List.isEmpty_cons, Bool.false_eq_true, if_false, List.filter_cons, List.filter_nil]
    split <;> rfl

/-- The line read so far ends, and what is kept of it comes first. -/
theorem kept_cons (line : Text) (lines : List Text) :
    ((line :: lines).filter isAdded).map List.tail
      = keptOf line ++ (lines.filter isAdded).map List.tail := by
  rw [List.filter_cons, keptOf]
  split <;> rfl

theorem keptFrom_break (h : Text.isLineBreak c = true) (hpair : ∀ u, c = '\r' → t ≠ '\n' :: u)
    (read : Text) : keptFrom read (c :: t) = keptOf read.reverse ++ keptFrom [] t := by
  rw [keptFrom, Text.splitlinesFrom, if_pos h, kept_cons, keptFrom]
  exact hpair

/-- `\r\n` is one boundary. -/
theorem keptFrom_returnNewline (read : Text) :
    keptFrom read ('\r' :: '\n' :: t) = keptOf read.reverse ++ keptFrom [] t := by
  rw [keptFrom, Text.splitlinesFrom, kept_cons, keptFrom]

theorem keptFrom_newline (read : Text) :
    keptFrom read ('\n' :: t) = keptOf read.reverse ++ keptFrom [] t :=
  keptFrom_break (by decide) (fun _ h => absurd h (by decide)) read

/-- **A newline separates what is kept.** -/
theorem keptFrom_append (h : '\n' ∉ t) (read rest : Text) :
    keptFrom read (t ++ '\n' :: rest) = keptFrom read t ++ keptFrom [] rest := by
  induction t generalizing read with
  | nil => rw [List.nil_append, keptFrom_newline, keptFrom_nil]
  | cons c t ih =>
    have ht : '\n' ∉ t := fun hmem => h (List.mem_cons_of_mem _ hmem)
    have hpair : ∀ u, c = '\r' → t ≠ '\n' :: u := by
      rintro u - rfl
      exact ht List.mem_cons_self
    rw [List.cons_append]
    rcases hbreak : Text.isLineBreak c with _ | _
    · rw [keptFrom_cons hbreak, keptFrom_cons hbreak, ih ht]
    · rw [keptFrom_break hbreak hpair, List.append_assoc, ← ih ht]
      by_cases hreturn : c = '\r' ∧ t = []
      · obtain ⟨rfl, rfl⟩ := hreturn
        rw [List.nil_append, keptFrom_returnNewline, keptFrom_newline]
        rfl
      · refine keptFrom_break hbreak (fun u hc happend => ?_) read
        rcases t with _ | ⟨d, t⟩
        · exact hreturn ⟨hc, rfl⟩
        · obtain ⟨rfl, -⟩ := List.cons.inj happend
          exact ht List.mem_cons_self

/-! ## Pieces -/

/-- A text up to its first line boundary. -/
def piece (t : Text) : Text := t.takeWhile (!Text.isLineBreak ·)

theorem piece_cons (h : Text.isLineBreak c = false) : piece (c :: t) = c :: piece t := by
  rw [piece, List.takeWhile_cons_of_pos (by simp [h]), piece]

theorem piece_break (h : Text.isLineBreak c = true) : piece (c :: t) = [] := by
  rw [piece, List.takeWhile_cons_of_neg (by simp [h])]

theorem piece_plus : piece ('+' :: t) = '+' :: piece t := piece_cons (by decide)

theorem isPrefixOf_piece {p : Text} (h : ∀ x ∈ p, Text.isLineBreak x = false) :
    p.isPrefixOf (piece t) = p.isPrefixOf t := by
  induction p generalizing t with
  | nil => rfl
  | cons x p ih =>
    rw [List.forall_mem_cons] at h
    rcases t with _ | ⟨c, t⟩
    · rfl
    · rcases hbreak : Text.isLineBreak c with _ | _
      · rw [piece_cons hbreak, List.isPrefixOf_cons_cons, List.isPrefixOf_cons_cons, ih h.2]
      · have hne : x ≠ c := by
          rintro rfl
          exact Bool.false_ne_true (h.1.symm.trans hbreak)
        simp [piece_break hbreak, List.isPrefixOf_cons_cons, hne]

/-- The test looks no further than the first boundary. -/
theorem isAdded_piece : isAdded (piece t) = isAdded t := by
  have hplus : Text.isLineBreak '+' = false := by decide
  rw [isAdded, isAdded, isPrefixOf_piece (by simp [hplus]), isPrefixOf_piece (by simp [hplus])]

theorem tail_piece (h : isAdded t = true) : (piece t).tail = piece t.tail := by
  rcases t with _ | ⟨c, t⟩
  · rfl
  · have hc : c = '+' := by
      simp only [isAdded, Bool.and_eq_true, List.isPrefixOf_cons_cons, beq_iff_eq] at h
      exact h.1.1.symm
    rw [hc, piece_plus, List.tail_cons, List.tail_cons]

/-- **What is kept of a text without newlines: its first piece, if it passes the test, and its
strays.** -/
theorem keptFrom_eq (h : '\n' ∉ t) (read : Text) :
    keptFrom read t = keptOf (read.reverse ++ piece t) ++ strays t := by
  induction t generalizing read with
  | nil => rw [keptFrom_nil, strays, piece, List.takeWhile_nil, List.append_nil, List.append_nil]
  | cons c t ih =>
    have ht : '\n' ∉ t := fun hmem => h (List.mem_cons_of_mem _ hmem)
    rcases hbreak : Text.isLineBreak c with _ | _
    · rw [keptFrom_cons hbreak, ih ht, piece_cons hbreak, strays, List.reverse_cons]
      simp [hbreak]
    · have hpair : ∀ u, c = '\r' → t ≠ '\n' :: u := by
        rintro u - rfl
        exact ht List.mem_cons_self
      have hstrays : strays (c :: t) = keptOf (piece t) ++ strays t := by
        rw [strays, hbreak, Bool.true_and, keptOf, isAdded_piece]
        split
        · rename_i hadded
          rw [tail_piece hadded]
          rfl
        · rfl
      rw [keptFrom_break hbreak hpair, ih ht, piece_break hbreak, List.append_nil, hstrays]
      rfl

/-- A kept line has no boundary in it and does not begin with `++`. -/
theorem of_mem_keptFrom {line : Text} (h : line ∈ keptFrom [] t) :
    (∀ c ∈ line, Text.isLineBreak c = false) ∧ ¬ ['+', '+'] <+: line := by
  obtain ⟨l, hl, rfl⟩ := List.mem_map.mp h
  obtain ⟨hl, hadded⟩ := List.mem_filter.mp hl
  refine ⟨fun c hc => Text.not_isLineBreak_of_mem_splitlines hl c (List.mem_of_mem_tail hc), ?_⟩
  rintro ⟨u, hu⟩
  rcases l with _ | ⟨c, l⟩
  · exact absurd hu (by simp)
  · obtain rfl : ['+', '+'] ++ u = l := hu
    simp only [isAdded, Bool.and_eq_true, List.isPrefixOf_cons_cons, beq_iff_eq] at hadded
    simp [← hadded.1.1] at hadded

end Kept

/-! ## Line by line -/

section Lines

variable {t : Text} {line : DiffLine} {d : Diff}

theorem newline_not_mem_keyword (keyword : Keyword) : '\n' ∉ keyword.text := by
  cases keyword <;> decide

theorem newline_not_mem_append {t u : Text} (ht : '\n' ∉ t) (hu : '\n' ∉ u) : '\n' ∉ t ++ u := by
  rw [List.mem_append]
  exact not_or.mpr ⟨ht, hu⟩

theorem newline_not_mem_text (line : DiffLine) : '\n' ∉ line.text := by
  rcases line with (⟨keyword, t⟩ | t) | ⟨ranges, heading⟩ | (t | t | t | _)
  · exact newline_not_mem_append (newline_not_mem_keyword keyword) t.2
  · exact newline_not_mem_append (t := ['+', '+', '+', ' ']) (by decide) t.2
  · refine newline_not_mem_append (t := ['@', '@', ' ']) (by decide) ?_
    exact newline_not_mem_append (newline_not_mem_append ranges.2 (by decide)) heading.2
  · exact newline_not_mem_append (t := [' ']) (by decide) t.2
  · exact newline_not_mem_append (t := ['-']) (by decide) t.2
  · exact newline_not_mem_append (t := ['+']) (by decide) t.2
  · decide

theorem added?_eq_some {t : Text} (h : line.added? = some t) : line.text = '+' :: t ∧ '\n' ∉ t := by
  rcases line with _ | _ | (_ | _ | u | _)
  · cases h
  · cases h
  · cases h
  · cases h
  · obtain rfl := Option.some.inj h
    exact ⟨rfl, u.2⟩
  · cases h

/-- Only added lines pass the test. -/
theorem isAdded_text (h : line.added? = none) : isAdded line.text = false := by
  rcases line with (⟨keyword, t⟩ | t) | ⟨ranges, heading⟩ | (t | t | t | _)
  · cases keyword <;> rfl
  · rfl
  · rfl
  · rfl
  · rfl
  · cases h
  · rfl

/-- **Of a line that is not added the strays are kept.** -/
theorem kept_text (h : line.added? = none) : keptFrom [] line.text = strays line.text := by
  rw [keptFrom_eq (newline_not_mem_text line), keptOf, List.reverse_nil,
    List.nil_append, isAdded_piece, isAdded_text h]
  rfl

theorem strays_of_forall (h : ∀ c ∈ t, Text.isLineBreak c = false) : strays t = [] := by
  induction t with
  | nil => rfl
  | cons c t ih =>
    rw [List.forall_mem_cons] at h
    rw [strays, h.1, Bool.false_and, if_neg Bool.false_ne_true, ih h.2]

/-- **An added line that is clean is kept.** -/
theorem kept_added (h : ∀ c ∈ t, Text.isLineBreak c = false) (hplus : ¬ ['+', '+'] <+: t) :
    keptFrom [] ('+' :: t) = [t] := by
  have hall : ∀ c ∈ '+' :: t, Text.isLineBreak c = false := List.forall_mem_cons.mpr ⟨by decide, h⟩
  have hnewline : '\n' ∉ '+' :: t := fun hmem => absurd (hall _ hmem) (by decide)
  have hpiece : piece ('+' :: t) = '+' :: t :=
    List.takeWhile_eq_self_iff.2 fun c hc => by simp [hall c hc]
  have hadded : isAdded ('+' :: t) = true := by
    rw [← List.isPrefixOf_iff_prefix] at hplus
    simp [isAdded, hplus]
  rw [keptFrom_eq hnewline, strays_of_forall hall, List.append_nil, List.reverse_nil,
    List.nil_append, hpiece, keptOf, if_pos hadded, List.tail_cons]

theorem kept_lines (lines : List DiffLine) :
    keptFrom [] (lines.flatMap fun line => line.text ++ ['\n'])
      = lines.flatMap fun line => keptFrom [] line.text := by
  induction lines with
  | nil => rfl
  | cons line lines ih =>
    rw [List.flatMap_cons, List.flatMap_cons, List.append_assoc, List.singleton_append,
      keptFrom_append (newline_not_mem_text line), ih]

theorem kept_render : keptFrom [] d.render = d.lines.flatMap fun line => keptFrom [] line.text :=
  kept_lines d.lines

/-- What is kept when every added line is clean: the added lines, with the strays between them. -/
theorem kept_of_clean (lines : List DiffLine)
    (h : ∀ t ∈ lines.filterMap DiffLine.added?,
      (∀ c ∈ t, Text.isLineBreak c = false) ∧ ¬ ['+', '+'] <+: t) :
    let kept := lines.flatMap fun line => keptFrom [] line.text
    let stray := (lines.filter (·.added?.isNone)).flatMap fun line => strays line.text
    kept.length = (lines.filterMap DiffLine.added?).length + stray.length ∧
      (stray = [] → kept = lines.filterMap DiffLine.added?) ∧
      (lines.filterMap DiffLine.added? = [] → kept = stray) := by
  induction lines with
  | nil => simp
  | cons line lines ih =>
    rcases hadded : line.added? with _ | t
    · rw [List.filterMap_cons_none hadded] at h ⊢
      obtain ⟨hlength, hclean, hnone⟩ := ih h
      simp only [List.flatMap_cons, List.filter_cons, hadded, Option.isNone_none, if_true,
        kept_text hadded, List.length_append, List.append_eq_nil_iff]
      refine ⟨by omega, fun ⟨hstray, hstrays⟩ => ?_, fun hnil => ?_⟩
      · rw [hstray, List.nil_append, hclean hstrays]
      · rw [hnone hnil]
    · rw [List.filterMap_cons_some hadded] at h ⊢
      rw [List.forall_mem_cons] at h
      obtain ⟨hlength, hclean, -⟩ := ih h.2
      simp only [List.flatMap_cons, List.filter_cons, hadded, Option.isNone_some,
        Bool.false_eq_true, if_false, (added?_eq_some hadded).1, kept_added h.1.1 h.1.2,
        List.length_cons, List.singleton_append, reduceCtorEq, false_implies, and_true,
        List.cons.injEq, true_and]
      exact ⟨by omega, hclean⟩

end Lines

/-! ## The joined text -/

/-- **A text joined by newlines has one reading**, but for the empty one. -/
theorem join_newline_eq_iff {ps qs : List Text} (hps : ∀ p ∈ ps, '\n' ∉ p)
    (hqs : ∀ q ∈ qs, '\n' ∉ q) :
    Text.join ['\n'] ps = Text.join ['\n'] qs ↔
      ps = qs ∨ (ps = [] ∧ qs = [[]]) ∨ (ps = [[]] ∧ qs = []) := by
  have hsplit : ∀ ls : List Text, (∀ l ∈ ls, '\n' ∉ l) → ls ≠ [] →
      (Text.join ['\n'] ls).splitOn '\n' = ls :=
      fun ls hls hne => List.splitOn_intercalate '\n' hls hne
  constructor
  · intro h
    rcases eq_or_ne ps [] with rfl | hps'
    · rcases eq_or_ne qs [] with rfl | hqs'
      · exact .inl rfl
      · refine .inr (.inl ⟨rfl, ?_⟩)
        rw [← hsplit qs hqs hqs', ← h]
        rfl
    · rcases eq_or_ne qs [] with rfl | hqs'
      · refine .inr (.inr ⟨?_, rfl⟩)
        rw [← hsplit ps hps hps', h]
        rfl
      · exact .inl (by rw [← hsplit ps hps hps', h, hsplit qs hqs hqs'])
  · rintro (rfl | ⟨rfl, rfl⟩ | ⟨rfl, rfl⟩) <;> rfl

theorem newline_not_mem_of_added {d : Diff} {t : Text} (h : t ∈ d.added) : '\n' ∉ t := by
  obtain ⟨line, -, hline⟩ := List.mem_filterMap.mp h
  exact (added?_eq_some hline).2

/-- The text reads back where the lines do, but for an empty one. -/
theorem addedLinesOf_eq_join_iff (d : Diff) :
    addedLinesOf (String.ofList d.render) = Text.join ['\n'] d.added ↔
      keptFrom [] d.render = d.added ∨ (keptFrom [] d.render = [] ∧ d.added = [[]]) ∨
        (keptFrom [] d.render = [[]] ∧ d.added = []) := by
  have hkept : ∀ p ∈ keptFrom [] d.render, '\n' ∉ p := fun p hp hmem =>
    absurd ((of_mem_keptFrom hp).1 _ hmem) (by decide)
  rw [addedLinesOf_eq, String.toList_ofList,
    join_newline_eq_iff hkept fun t ht => newline_not_mem_of_added ht]

/-- **The added lines come back exactly of the diffs that read back.** -/
theorem addedLinesOf_render_iff (d : Diff) :
    addedLinesOf (String.ofList d.render) = Text.join ['\n'] d.added ↔ d.ReadsBack := by
  have hclean := kept_of_clean d.lines
  rw [← kept_render] at hclean
  rw [addedLinesOf_eq_join_iff]
  constructor
  · rintro (heq | ⟨hkept, hone⟩ | ⟨hkept, hnone⟩)
    · have hall := fun t (ht : t ∈ d.added) => of_mem_keptFrom (heq ▸ ht)
      obtain ⟨hlength, -, -⟩ := hclean hall
      refine ⟨hall, .inl (List.eq_nil_of_length_eq_zero ?_)⟩
      have hsame := congrArg List.length heq
      rw [Diff.added] at hsame
      rw [Diff.strays]
      omega
    · -- an empty line that is added is kept
      have hall : ∀ t ∈ d.added, (∀ c ∈ t, Text.isLineBreak c = false) ∧ ¬ ['+', '+'] <+: t := by
        rw [hone]
        simp
      obtain ⟨hlength, -, -⟩ := hclean hall
      rw [hkept, ← Diff.added, hone, List.length_nil, List.length_singleton] at hlength
      omega
    · have hall : ∀ t ∈ d.added, (∀ c ∈ t, Text.isLineBreak c = false) ∧ ¬ ['+', '+'] <+: t := by
        rw [hnone]
        simp
      refine ⟨hall, .inr ⟨hnone, ?_⟩⟩
      rw [Diff.strays, ← (hclean hall).2.2 hnone, hkept]
  · intro h
    obtain ⟨-, hnostray, hnone⟩ := hclean h.added
    rcases h.strays with hstrays | ⟨hnil, hstrays⟩
    · exact .inl (hnostray hstrays)
    · exact .inr (.inr ⟨(hnone hnil).trans hstrays, hnil⟩)

/-- A file in which a statement is replaced by `++i;`. -/
def increment : Diff :=
  [⟨[.keyed .diffGit ⟨"a/Loop.cs b/Loop.cs".toList, by decide⟩,
    .keyed .oldFile ⟨"a/Loop.cs".toList, by decide⟩, .newFile ⟨"b/Loop.cs".toList, by decide⟩],
    [⟨⟨"-3 +3".toList, by decide⟩, ⟨[], by decide⟩,
      [.removed ⟨"i = i + 1;".toList, by decide⟩, .added ⟨"++i;".toList, by decide⟩]⟩]⟩]

theorem increment_lost : increment.added = ["++i;".toList] ∧
    addedLinesOf (String.ofList increment.render) = [] ∧
    addedLinesOf (String.ofList increment.render) ≠ Text.join ['\n'] increment.added := by
  decide +kernel

end UnifiedDiff

end AgentPlatform
