import AgentPlatform.Graph.Context
import AgentPlatform.Machinery.Text
import AgentPlatform.Tools.Runner

/-!
# Tools/GitDiff — `collect_diff`, and what it is handed

`collect_diff` marks new files, runs `git diff HEAD` three times and reads the names and the counts
back from what was printed.  Between git and the reader stands `run_command`: it cuts the middle out
of a long output, hands over what a failed or killed command had printed by then, and leaves it to
its caller to look at the exit status, which this caller does not.

* `filesOf_nameStatusText` — every change reads back as one name: the displayed path, stripped.
* `countsOf_numstatText` — the counts read back as they are.
-/

namespace AgentPlatform

/-! ## What git prints -/

/-- The characters git quotes in a path: the control characters, the quote and the backslash, and
everything outside ASCII. -/
def mustQuote (c : Char) : Bool := !Text.isPrintable c || c = '"' || c = '\\'

/-- A byte, in three octal digits. -/
def octal (byte : ℕ) : Text :=
  [(byte / 64 % 8).digitChar, (byte / 8 % 8).digitChar, (byte % 8).digitChar]

/-- The characters with an escape of their own. -/
def quoteLetters : List (ℕ × Char) :=
  [(0x07, 'a'), (0x08, 'b'), (0x09, 't'), (0x0a, 'n'), (0x0b, 'v'), (0x0c, 'f'), (0x0d, 'r'),
    (0x22, '"'), (0x5c, '\\')]

/-- A quoted character: by its letter if it has one, else byte by byte. -/
def quoteChar (c : Char) : Text :=
  match quoteLetters.lookup c.toNat with
  | some letter => ['\\', letter]
  | none => (String.utf8EncodeChar c).flatMap fun byte => '\\' :: octal byte.toNat

/-- A path as git displays it. -/
def displayed (path : String) : Text :=
  if path.toList.any mustQuote then
    '"' :: (path.toList.flatMap fun c => if mustQuote c then quoteChar c else [c]) ++ ['"']
  else path.toList

/-- What happened to a path. -/
inductive ChangeKind where
  | added
  | deleted
  | modified
  | typeChanged
  deriving DecidableEq, Repr

/-- The letter of `--name-status`. -/
def ChangeKind.letter : ChangeKind → Char
  | added => 'A'
  | deleted => 'D'
  | modified => 'M'
  | typeChanged => 'T'

/-- The changed paths of one entry. -/
inductive FileChange where
  | one (kind : ChangeKind) (path : String)
  /-- A rename, of so many percent; `--numstat` abbreviates its paths to the label. -/
  | renamed (score : ℕ) (old new : String)
    (label : { t : Text // ∀ c ∈ t, Text.isPrintable c = true })
  deriving DecidableEq

namespace FileChange

/-- Every path the change touches. -/
def paths : FileChange → List String
  | one _ path => [path]
  | renamed _ old new _ => [old, new]

/-- The path an entry names last. -/
def lastPath : FileChange → String
  | one _ path => path
  | renamed _ _ new _ => new

/-- The first field of a line of `--name-status`. -/
def status : FileChange → Text
  | one kind _ => [kind.letter]
  | renamed score _ _ _ =>
    'R' :: (List.replicate (3 - (Nat.toDigits 10 score).length) '0' ++ Nat.toDigits 10 score)

/-- A line of `--name-status`. -/
def nameStatus (change : FileChange) : Text :=
  match change with
  | one _ path => change.status ++ '\t' :: displayed path
  | renamed _ old new _ => change.status ++ '\t' :: (displayed old ++ '\t' :: displayed new)

/-- The third field of a line of `--numstat`. -/
def label : FileChange → Text
  | one _ path => displayed path
  | renamed _ _ _ label => label.1

end FileChange

/-- One entry of `git diff HEAD`. -/
structure FileDelta where
  change : FileChange
  /-- Lines added and removed, unless the file is binary. -/
  lines : Option (ℕ × ℕ)
  /-- The entry's part of the unified diff. -/
  patch : Text
  deriving DecidableEq

namespace FileDelta

/-- The lines the entry adds. -/
def insertions (d : FileDelta) : ℕ := d.lines.elim 0 (·.1)

/-- The lines it removes. -/
def deletions (d : FileDelta) : ℕ := d.lines.elim 0 (·.2)

/-- A line of `--numstat`. -/
def numstat (d : FileDelta) : Text :=
  match d.lines with
  | some (added, removed) =>
    Nat.toDigits 10 added ++ '\t' :: (Nat.toDigits 10 removed ++ '\t' :: d.change.label)
  | none => ['-'] ++ '\t' :: (['-'] ++ '\t' :: d.change.label)

end FileDelta

/-- A count, over every entry. -/
def total (count : FileDelta → ℕ) (ds : List FileDelta) : ℤ :=
  ds.foldl (fun n d => n + (count d : ℤ)) 0

/-- `git diff HEAD`. -/
def diffText (ds : List FileDelta) : Text := ds.flatMap (·.patch)

/-- `git diff --name-status HEAD`. -/
def nameStatusText (ds : List FileDelta) : Text :=
  (ds.map (·.change.nameStatus)).flatMap (· ++ ['\n'])

/-- `git diff --numstat HEAD`. -/
def numstatText (ds : List FileDelta) : Text := (ds.map (·.numstat)).flatMap (· ++ ['\n'])

/-! ## `run_command` -/

open Runner (maxOutputChars truncate)

/-- How a command went. -/
structure CommandRun where
  /-- The characters it had printed when it failed or was killed; nothing if it completed. -/
  stopped : Option ℕ
  /-- It stopped in the middle of a character. -/
  torn : Bool
  deriving DecidableEq, Repr

namespace CommandRun

/-- What it printed, decoded with `errors="replace"`.  That the part kept of a killed command's
output is a beginning of what it would have printed is an assumption. -/
def decoded (r : CommandRun) (text : Text) : Text :=
  match r.stopped with
  | none => text
  | some n => text.take n ++
      if r.torn && (text.drop n).head?.any (fun c => 0x7f < c.toNat)
      then [Char.ofNat 0xfffd] else []

/-- `CommandResult.stdout`. -/
def stdout (r : CommandRun) (text : Text) : Text := truncate (r.decoded text)

end CommandRun

/-! ## `collect_diff` -/

/-- What `run_command` returns for the three commands. -/
structure GitOutput where
  diff : Text
  nameStatus : Text
  numstat : Text

/-- The names `collect_diff` reads. -/
def filesOf (nameStatus : Text) : List String :=
  (Text.splitlines nameStatus).filterMap fun line =>
    let parts := line.splitOn '\t'
    if 2 ≤ parts.length then some (String.ofList (Text.strip (parts.getLastD []))) else none

/-- A line of `--numstat`, added to the counts: an addend that does not read stops the line. -/
def countLine (counts : ℤ × ℤ) (line : Text) : ℤ × ℤ :=
  match line.splitOn '\t' with
  | first :: second :: _ =>
    match Text.int? first, Text.int? second with
    | some added, some removed => (counts.1 + added, counts.2 + removed)
    | some added, none => (counts.1 + added, counts.2)
    | none, _ => counts
  | _ => counts

/-- The counts `collect_diff` reads. -/
def countsOf (numstat : Text) : ℤ × ℤ := (Text.splitlines numstat).foldl countLine (0, 0)

/-- `collect_diff`, from what the commands return. -/
def collectDiff (out : GitOutput) : DiffSummary where
  diff := String.ofList out.diff
  files := filesOf out.nameStatus
  insertions := (countsOf out.numstat).1
  deletions := (countsOf out.numstat).2

/-- The changes of a worktree against `HEAD`, and those among them that git reports while the new
files are not in the index. -/
structure ChangeSet where
  changes : List FileDelta
  indexed : List FileDelta

/-- How the commands of `collect_diff` went. -/
structure DiffRuns where
  /-- `git add --intent-to-add --all` took effect. -/
  added : Bool
  diff : CommandRun
  nameStatus : CommandRun
  numstat : CommandRun

namespace ChangeSet

variable (cs : ChangeSet) (runs : DiffRuns)

/-- What the diffs show. -/
def shown : List FileDelta := if runs.added then cs.changes else cs.indexed

/-- What `collect_diff` is handed. -/
def output : GitOutput where
  diff := runs.diff.stdout (diffText (cs.shown runs))
  nameStatus := runs.nameStatus.stdout (nameStatusText (cs.shown runs))
  numstat := runs.numstat.stdout (numstatText (cs.shown runs))

/-- The change itself: every path, the full diff, the lines of every file. -/
def truth : DiffSummary where
  diff := String.ofList (diffText cs.changes)
  files := cs.changes.flatMap (·.change.paths)
  insertions := total (·.insertions) cs.changes
  deletions := total (·.deletions) cs.changes

end ChangeSet

/-! ## What is printed reads back -/

section ReadBack

open Text

theorem isPrintable_digitChar (n : ℕ) : isPrintable (n % 8).digitChar = true := by
  have h : ∀ k < 8, isPrintable (Nat.digitChar k) = true := by decide
  exact h _ (Nat.mod_lt _ (by decide))

theorem isPrintable_octal {byte : ℕ} {c : Char} (h : c ∈ octal byte) : isPrintable c = true := by
  simp only [octal, List.mem_cons, List.not_mem_nil, or_false] at h
  rcases h with rfl | rfl | rfl <;> exact isPrintable_digitChar _

theorem isPrintable_quoteChar {c d : Char} (h : d ∈ quoteChar c) : isPrintable d = true := by
  rw [quoteChar] at h
  split at h
  case h_1 letter hletter =>
    have hletters : ∀ entry ∈ quoteLetters, isPrintable entry.2 = true := by decide
    obtain ⟨before, after, hentries, -⟩ := List.lookup_eq_some_iff.mp hletter
    simp only [List.mem_cons, List.not_mem_nil, or_false] at h
    rcases h with rfl | rfl
    · decide
    · exact hletters (c.toNat, d) (by rw [hentries]; simp)
  case h_2 =>
    obtain ⟨byte, -, hd⟩ := List.mem_flatMap.mp h
    rcases List.mem_cons.mp hd with rfl | hd
    · decide
    · exact isPrintable_octal hd

/-- **A path is displayed in printable characters**, whatever its own are. -/
theorem isPrintable_displayed (path : String) : ∀ c ∈ displayed path, isPrintable c = true := by
  have hplain : ∀ c, mustQuote c = false → isPrintable c = true := by
    intro c hc
    simp only [mustQuote, Bool.or_eq_false_iff, Bool.not_eq_false'] at hc
    exact hc.1.1
  intro c hc
  rw [displayed] at hc
  split_ifs at hc with hquoted
  · rw [List.mem_append, List.mem_cons, List.mem_singleton] at hc
    rcases hc with (rfl | hc) | rfl
    · decide
    · obtain ⟨b, -, hb⟩ := List.mem_flatMap.mp hc
      split_ifs at hb with hmust
      · exact isPrintable_quoteChar hb
      · obtain rfl := List.mem_singleton.mp hb
        exact hplain c (by simpa using hmust)
    · decide
  · rw [Bool.not_eq_true, List.any_eq_false] at hquoted
    exact hplain c (by simpa using hquoted c hc)

theorem tab_not_mem {t : Text} (h : ∀ c ∈ t, isPrintable c = true) : '\t' ∉ t := fun hc =>
  absurd (h _ hc) (by decide)

theorem isPrintable_dash : ∀ c ∈ ['-'], isPrintable c = true := List.forall_mem_singleton.mpr rfl

theorem splitOn_tab {first rest : Text} (h : ∀ c ∈ first, isPrintable c = true) :
    (first ++ '\t' :: rest).splitOn '\t' = first :: rest.splitOn '\t' :=
  List.splitOn_append_cons_self_of_not_mem (tab_not_mem h) rest

theorem splitOn_last {t : Text} (h : ∀ c ∈ t, isPrintable c = true) : t.splitOn '\t' = [t] :=
  List.splitOn_eq_singleton (tab_not_mem h)

namespace FileChange

theorem isPrintable_label (change : FileChange) : ∀ c ∈ change.label, isPrintable c = true := by
  cases change with
  | one kind path => exact isPrintable_displayed path
  | renamed score old new label => exact label.2

theorem isPrintable_status (change : FileChange) : ∀ c ∈ change.status, isPrintable c = true := by
  cases change with
  | one kind path =>
    refine List.forall_mem_singleton.mpr ?_
    cases kind <;> rfl
  | renamed score old new label =>
    intro c hc
    rw [status, List.mem_cons, List.mem_append] at hc
    rcases hc with rfl | hc | hc
    · decide
    · obtain rfl := List.eq_of_mem_replicate hc
      decide
    · exact isPrintable_toDigits score c hc

/-- The fields of a line of `--name-status`: a status, and at the end the path named last. -/
theorem splitOn_nameStatus (change : FileChange) :
    ∃ rest, change.nameStatus.splitOn '\t' = change.status
      :: (rest ++ [displayed change.lastPath]) := by
  cases change with
  | one kind path =>
    refine ⟨[], ?_⟩
    rw [nameStatus, splitOn_tab (isPrintable_status _), splitOn_last (isPrintable_displayed path)]
    rfl
  | renamed score old new label =>
    refine ⟨[displayed old], ?_⟩
    rw [nameStatus, splitOn_tab (isPrintable_status _), splitOn_tab (isPrintable_displayed old),
      splitOn_last (isPrintable_displayed new)]
    rfl

end FileChange

/-- A line of printable characters and tabs is one line. -/
theorem isLineBreak_field {t rest : Text} (h : ∀ c ∈ t, isPrintable c = true)
    (hrest : ∀ c ∈ rest, isLineBreak c = false) :
    ∀ c ∈ t ++ '\t' :: rest, isLineBreak c = false := by
  intro c hc
  rw [List.mem_append, List.mem_cons] at hc
  rcases hc with hc | rfl | hc
  · exact isLineBreak_of_isPrintable (h c hc)
  · decide
  · exact hrest c hc

theorem isLineBreak_last {t : Text} (h : ∀ c ∈ t, isPrintable c = true) :
    ∀ c ∈ t, isLineBreak c = false := fun c hc => isLineBreak_of_isPrintable (h c hc)

theorem FileChange.isLineBreak_nameStatus (change : FileChange) :
    ∀ c ∈ change.nameStatus, isLineBreak c = false := by
  cases change with
  | one kind path =>
    exact isLineBreak_field (isPrintable_status _) (isLineBreak_last (isPrintable_displayed path))
  | renamed score old new label =>
    exact isLineBreak_field (isPrintable_status _) (isLineBreak_field (isPrintable_displayed old)
      (isLineBreak_last (isPrintable_displayed new)))

/-- **Every entry reads back as one name**: the path it names last, as displayed, stripped. -/
theorem filesOf_nameStatusText (ds : List FileDelta) :
    filesOf (nameStatusText ds)
      = ds.map fun d => String.ofList (strip (displayed d.change.lastPath)) := by
  rw [filesOf, nameStatusText, splitlines_lines, List.filterMap_map]
  · rw [← List.filterMap_eq_map]
    refine List.filterMap_congr fun d _ => ?_
    obtain ⟨rest, hparts⟩ := d.change.splitOn_nameStatus
    have hlast : (d.change.status :: (rest ++ [displayed d.change.lastPath])).getLast?
        = some (displayed d.change.lastPath) := by
      rw [← List.cons_append, List.getLast?_concat]
    simp [hparts, hlast]
  · intro l hl
    obtain ⟨d, -, rfl⟩ := List.mem_map.mp hl
    exact d.change.isLineBreak_nameStatus

/-- The fields of a line of `--numstat`. -/
theorem splitOn_fields {first second label : Text} (h₁ : ∀ c ∈ first, isPrintable c = true)
    (h₂ : ∀ c ∈ second, isPrintable c = true) (h₃ : ∀ c ∈ label, isPrintable c = true) :
    (first ++ '\t' :: (second ++ '\t' :: label)).splitOn '\t' = [first, second, label] := by
  rw [splitOn_tab h₁, splitOn_tab h₂, splitOn_last h₃]

namespace FileDelta

/-- One entry's line of `--numstat`. -/
theorem countLine_numstat (counts : ℤ × ℤ) (d : FileDelta) :
    countLine counts d.numstat = (counts.1 + d.insertions, counts.2 + d.deletions) := by
  rcases hlines : d.lines with _ | ⟨added, removed⟩
  · have hnumeral : int? ['-'] = none := by decide
    simp only [countLine, numstat, hlines,
      splitOn_fields isPrintable_dash isPrintable_dash d.change.isPrintable_label, hnumeral,
      insertions, deletions, Option.elim_none, Int.natCast_zero, Int.add_zero]
  · simp only [countLine, numstat, hlines, splitOn_fields (isPrintable_toDigits added)
      (isPrintable_toDigits removed) d.change.isPrintable_label, int?_toDigits,
        insertions, deletions,
      Option.elim_some]

theorem isLineBreak_numstat (d : FileDelta) : ∀ c ∈ d.numstat, isLineBreak c = false := by
  have hlabel := isLineBreak_last d.change.isPrintable_label
  rw [numstat]
  split
  case h_1 added removed _ =>
    exact isLineBreak_field (isPrintable_toDigits added)
      (isLineBreak_field (isPrintable_toDigits removed) hlabel)
  case h_2 => exact isLineBreak_field isPrintable_dash (isLineBreak_field isPrintable_dash hlabel)

/-- The counts of all entries, from given ones on. -/
theorem foldl_countLine (ds : List FileDelta) (counts : ℤ × ℤ) :
    ds.foldl (fun acc d => countLine acc d.numstat) counts
      = (ds.foldl (fun n d => n + (d.insertions : ℤ)) counts.1,
        ds.foldl (fun n d => n + (d.deletions : ℤ)) counts.2) := by
  induction ds generalizing counts with
  | nil => rfl
  | cons d ds ih => rw [List.foldl_cons, ih, countLine_numstat, List.foldl_cons, List.foldl_cons]

end FileDelta

/-- **The counts read back as they are.** -/
theorem countsOf_numstatText (ds : List FileDelta) :
    countsOf (numstatText ds) = (total (·.insertions) ds, total (·.deletions) ds) := by
  have hlines : splitlines (numstatText ds) = ds.map (·.numstat) := by
    refine splitlines_lines fun l hl => ?_
    obtain ⟨d, -, rfl⟩ := List.mem_map.mp hl
    exact d.isLineBreak_numstat
  rw [countsOf, hlines, List.foldl_map, FileDelta.foldl_countLine]
  rfl

end ReadBack

/-! ## A diff nothing is lost of -/

/-- The path reads as it is displayed: nothing in it is quoted, and it has no space at either
end. -/
def PlainPath (path : String) : Prop :=
  path.toList.any mustQuote = false ∧ Text.strip path.toList = path.toList

/-- **Nothing stands between the change and `collect_diff`**: every new file is in the index, the
commands completed, no output is too long, no path is quoted and none was renamed. -/
structure ChangeSet.Intact (cs : ChangeSet) (runs : DiffRuns) : Prop where
  indexed : runs.added = true ∨ cs.indexed = cs.changes
  completed : runs.diff.stopped = none ∧ runs.nameStatus.stopped = none ∧
    runs.numstat.stopped = none
  short : (diffText cs.changes).length ≤ maxOutputChars ∧
    (nameStatusText cs.changes).length ≤ maxOutputChars ∧
    (numstatText cs.changes).length ≤ maxOutputChars
  plain : ∀ d ∈ cs.changes, ∃ kind path, d.change = .one kind path ∧ PlainPath path

theorem CommandRun.stdout_of_completed {r : CommandRun} (h : r.stopped = none) {text : Text}
    (hshort : text.length ≤ maxOutputChars) : r.stdout text = text := by
  rw [stdout, decoded, h, truncate, if_pos hshort]

/-- **An intact diff is the change.** -/
theorem ChangeSet.Intact.collectDiff_eq {cs : ChangeSet} {runs : DiffRuns} (h : cs.Intact runs) :
    collectDiff (cs.output runs) = cs.truth := by
  have hshown : cs.shown runs = cs.changes := by
    rw [shown]
    rcases h.indexed with hadded | hindexed
    · rw [if_pos hadded]
    · rw [hindexed, ite_self]
  have hfiles : filesOf (nameStatusText cs.changes) = cs.changes.flatMap (·.change.paths) := by
    rw [filesOf_nameStatusText, List.map_eq_flatMap]
    refine List.flatMap_congr fun d hd => ?_
    obtain ⟨kind, path, hchange, hquote, hstrip⟩ := h.plain d hd
    have hdisplayed : displayed path = path.toList := by rw [displayed, if_neg (by simp [hquote])]
    rw [hchange, FileChange.lastPath, hdisplayed, hstrip, String.ofList_toList, FileChange.paths]
  simp only [collectDiff, output, hshown, CommandRun.stdout_of_completed h.completed.1 h.short.1,
    CommandRun.stdout_of_completed h.completed.2.1 h.short.2.1,
    CommandRun.stdout_of_completed h.completed.2.2 h.short.2.2, hfiles, countsOf_numstatText, truth]

end AgentPlatform
