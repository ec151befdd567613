import AgentPlatform.Tools.ReadTools

/-!
# Tools/Ripgrep — the fast search and the plain one

`search_ripgrep` runs `rg` in the root and reads its matches back from what it prints, one
`./path:line:text` a line; `search_python` walks the tree itself.  `rg` is told to stop after ten
matching lines of a file, which the walk is not.

* `searchRipgrep_agrees` — on a tree of plain source files the fast search finds, of every file, the
  first ten of the lines the plain one finds, and so the same lines where no file has more.
-/

namespace AgentPlatform

open PosixPath Symlinks ReadTools

namespace Ripgrep

/-! ## Reading the matches back -/

/-- `raw.split(":", 2)`, if it has three parts. -/
def fields (raw : Text) : Option (Text × Text × Text) :=
  match raw.dropWhile (· ≠ ':') with
  | [] => none
  | _ :: rest =>
    match rest.dropWhile (· ≠ ':') with
    | [] => none
    | _ :: line => some (raw.takeWhile (· ≠ ':'), rest.takeWhile (· ≠ ':'), line)

/-- `path.replace("\\", "/").lstrip("./")`. -/
def cleaned (path : Text) : Text :=
  (path.map fun c => if c = '\\' then '/' else c).dropWhile fun c => c = '.' || c = '/'

/-- The match a line of the output holds; `rg` prints no negative number. -/
def readMatch (raw : Text) : Option Match :=
  match fields raw with
  | none => none
  | some (path, number, line) =>
    match Text.int? number with
    | none => none
    | some n => some ⟨cleaned path, n.toNat, line⟩

/-- The loop over the lines of the output, with the matches so far. -/
def collect (limit : ℕ) : List Match → List Text → List Match
  | found, [] => found
  | found, raw :: rest =>
    match readMatch raw with
    | none => collect limit found rest
    | some m =>
      if (found ++ [m]).length ≥ limit then found ++ [m] else collect limit (found ++ [m]) rest

/-- The argument of `--max-count` in the command. -/
def maxCount : ℕ := 10

/-- `search_ripgrep`, by what `rg` returned and printed; `none` is a `rg` that is not installed. -/
def searchRipgrep (process : Option (ℤ × List UInt8)) (limit : ℕ) : Option (List Match) :=
  match process with
  | none => none
  | some (returncode, stdout) =>
    if returncode ≠ 0 ∧ returncode ≠ 1 then none
    else some (collect limit [] (Text.splitlines (Text.decode stdout)))

theorem searchRipgrep_some {returncode : ℤ} (h : returncode = 0 ∨ returncode = 1)
    (stdout : List UInt8) (limit : ℕ) : searchRipgrep (some (returncode, stdout)) limit =
      some (collect limit [] (Text.splitlines (Text.decode stdout))) := by
  rw [searchRipgrep, if_neg (by omega)]

/-! ## What `rg` prints -/

/-- The lines of a text, which `\n` ends. -/
def linesFrom (line : Text) : Text → List Text
  | [] => if line.isEmpty then [] else [line.reverse]
  | c :: t => if c = '\n' then line.reverse :: linesFrom [] t else linesFrom (c :: line) t

/-- `./path:line:text`. -/
def printed (m : Match) : Text :=
  "./".toList ++ m.path ++ ':' :: (Nat.toDigits 10 m.lineNumber ++ ':' :: m.line)

variable (py : PyRuntime) (disk : Disk) (contents : Contents) (root : Location)

/-- The files below the root, with their text. -/
def files : List (Location × Text) :=
  (disk.rglob root).filterMap fun path => (disk.fileAt path).map fun p =>
    (path, Text.decode (contents p))

/-- The matching lines of a file. -/
def hits (found : Text → Bool) (file : Location × Text) : List Match :=
  ((linesFrom [] file.2).zipIdx 1).filterMap fun (line, number) =>
    if found line then some ⟨shownPath root file.1, number, line⟩ else none

/-- **What `rg` prints**: the first lines of each file that match, in some order. -/
def Prints (found : Text → Bool) (stdout : Text) : Prop :=
  ∃ records : List Match,
    records.Perm ((files disk contents root).flatMap fun file =>
      (hits root found file).take maxCount) ∧ stdout = records.flatMap fun m => printed m ++ ['\n']

/-- **A tree of plain source files**, none of them hidden or ignored, their lines ended by `\n`. -/
structure Plain : Prop where
  accepted : ∀ path ∈ disk.rglob root, disk.isFile path = true →
    path ∈ iterSourceFiles py disk contents root
  visible : ∀ path ∈ disk.rglob root, ∀ name ∈ path.drop root.length, name.head? ≠ some '.'
  names : ∀ path ∈ disk.rglob root, ∀ name ∈ path.drop root.length, name ≠ [] ∧
    ∀ c ∈ name, c ≠ '/' ∧ c ≠ ':'
  lines : ∀ path ∈ disk.rglob root, ∀ p, disk.fileAt path = some p →
    ∀ c ∈ Text.decode (contents p), Text.isLineBreak c = true → c = '\n'

/-- **No name is changed on the way back**: none has a backslash, which is read as a separator, or a
character that ends a line. -/
def Unmangled : Prop :=
  ∀ path ∈ disk.rglob root, ∀ name ∈ path.drop root.length, ∀ c ∈ name,
    c ≠ '\\' ∧ Text.isLineBreak c = false

/-! ## The same files and the same lines -/

section Same

variable {py disk contents root}

theorem linesFrom_eq {t : Text} (h : ∀ c ∈ t, Text.isLineBreak c = true → c = '\n') (line : Text) :
    linesFrom line t = Text.splitlinesFrom line t := by
  induction t generalizing line with
  | nil => rfl
  | cons c t ih =>
    rw [List.forall_mem_cons] at h
    rw [linesFrom]
    by_cases hbreak : Text.isLineBreak c = true
    · obtain rfl := h.1 hbreak
      rw [if_pos rfl, ih h.2]
      rfl
    · have hne : c ≠ '\n' := by
        rintro rfl
        exact hbreak (by decide)
      rw [if_neg hne, ih h.2, Text.splitlinesFrom_cons (Bool.eq_false_iff.mpr hbreak)]

theorem universalNewlines_eq {t : Text} (h : ∀ c ∈ t, Text.isLineBreak c = true → c = '\n') :
    t.universalNewlines = t := by
  induction t with
  | nil => rfl
  | cons c t ih =>
    rw [List.forall_mem_cons] at h
    have hne : c ≠ '\r' := by
      rintro rfl
      exact absurd (h.1 (by decide)) (by decide)
    rw [Text.universalNewlines, if_neg hne, ih h.2]
    exact fun _ hc => absurd hc hne

/-- `rg` searches the files of the walk, and reads the same text in them. -/
theorem files_eq (h : Plain py disk contents root) :
    files disk contents root = sourceTexts py disk contents root := by
  rw [files, sourceTexts, iterSourceFiles, List.filterMap_filter]
  refine List.filterMap_congr fun path hpath => ?_
  cases hfile : disk.fileAt path with
  | none => simp [readText, hfile]
  | some p =>
    have haccepted := h.accepted path hpath (by simp [Disk.isFile, hfile])
    rw [iterSourceFiles, List.mem_filter] at haccepted
    rw [if_pos haccepted.2, readText, hfile, Option.map_some, Option.map_some, Option.map_some,
      universalNewlines_eq (h.lines path hpath p hfile)]

/-- …and finds the same lines. -/
theorem hits_eq (h : Plain py disk contents root) {found : Text → Bool} {pattern : Text}
    (halike : ∀ line, found line = py.search pattern line) {file : Location × Text}
    (hfile : file ∈ files disk contents root) :
    hits root found file = fileMatches py root pattern file := by
  obtain ⟨path, hpath, hsome⟩ := List.mem_filterMap.mp hfile
  obtain ⟨p, hp, rfl⟩ := Option.map_eq_some_iff.mp hsome
  rw [hits, fileMatches, linesFrom_eq (h.lines path hpath p hp), Text.splitlines]
  simp only [halike]

end Same

/-! ## What is printed reads back -/

section ReadBack

theorem fields_eq {path number line : Text} (hpath : ':' ∉ path) (hnumber : ':' ∉ number) :
    fields (path ++ ':' :: (number ++ ':' :: line)) = some (path, number, line) := by
  have hspan : ∀ (before rest : Text), ':' ∉ before →
      (before ++ ':' :: rest).takeWhile (· ≠ ':') = before ∧
        (before ++ ':' :: rest).dropWhile (· ≠ ':') = ':' :: rest := by
    intro before rest hbefore
    have hall : ∀ c ∈ before, decide (c ≠ ':') = true := fun c hc => by
      rw [decide_eq_true_iff]
      rintro rfl
      exact hbefore hc
    rw [List.takeWhile_append_of_pos hall, List.dropWhile_append_of_pos hall]
    simp
  rw [fields, (hspan path _ hpath).2]
  simp only [(hspan number _ hnumber).2, (hspan path _ hpath).1, (hspan number _ hnumber).1]

/-- The `./` in front of a path is what `lstrip` takes away. -/
theorem cleaned_eq {path : Text} (hslash : '\\' ∉ path)
    (hhead : ∀ c ∈ path.head?, c ≠ '.' ∧ c ≠ '/') : cleaned ("./".toList ++ path) = path := by
  have hmap : path.map (fun c => if c = '\\' then '/' else c) = path := by
    refine (List.map_congr_left fun c hc => if_neg ?_).trans (List.map_id path)
    rintro rfl
    exact hslash hc
  rw [cleaned, List.map_append, hmap]
  cases path with
  | nil => rfl
  | cons c path => simp [hhead c rfl]

/-- A match that can be printed on one line and found again. -/
structure Printable (m : Match) : Prop where
  path : ∀ c ∈ m.path, c ≠ ':' ∧ c ≠ '\\' ∧ Text.isLineBreak c = false
  head : ∀ c ∈ m.path.head?, c ≠ '.' ∧ c ≠ '/'
  line : ∀ c ∈ m.line, Text.isLineBreak c = false

/-- **A printed match reads back.** -/
theorem readMatch_printed {m : Match} (h : Printable m) : readMatch (printed m) = some m := by
  have hdigits : ':' ∉ Nat.toDigits 10 m.lineNumber := fun hc =>
    absurd (Text.isDigit_toDigits _ _ hc) (by decide)
  have hpath : ':' ∉ "./".toList ++ m.path := by
    rw [List.mem_append, not_or]
    exact ⟨by decide, fun hc => (h.path ':' hc).1 rfl⟩
  rw [readMatch, printed, fields_eq hpath hdigits]
  simp only [Text.int?_toDigits, Int.toNat_natCast,
    cleaned_eq (fun hc => (h.path _ hc).2.1 rfl) h.head]

theorem isLineBreak_printed {m : Match} (h : Printable m) :
    ∀ c ∈ printed m, Text.isLineBreak c = false := by
  intro c hc
  rw [printed, List.mem_append, List.mem_append, List.mem_cons, List.mem_append,
    List.mem_cons] at hc
  rcases hc with (hc | hc) | rfl | hc | rfl | hc
  · have hdot : "./".toList.all Text.isPrintable = true := by decide
    exact Text.isLineBreak_of_isPrintable (List.all_eq_true.mp hdot c hc)
  · exact (h.path c hc).2.2
  · decide
  · exact Text.isLineBreak_of_isPrintable (Text.isPrintable_toDigits _ c hc)
  · decide
  · exact h.line c hc

/-- Below the limit the loop keeps every match it reads. -/
theorem collect_eq {limit : ℕ} {found : List Match} {raws : List Text}
    (h : (found ++ raws.filterMap readMatch).length < limit) :
    collect limit found raws = found ++ raws.filterMap readMatch := by
  induction raws generalizing found with
  | nil => simp [collect]
  | cons raw raws ih =>
    rw [collect]
    cases hread : readMatch raw with
    | none =>
      rw [List.filterMap_cons_none hread] at h ⊢
      exact ih h
    | some m =>
      rw [List.filterMap_cons_some hread, ← List.singleton_append, ← List.append_assoc] at h ⊢
      have hshort : ¬(found ++ [m]).length ≥ limit := by
        rw [List.length_append] at h
        omega
      exact (if_neg hshort).trans (ih h)

/-- **The output of printable matches reads back as they were printed.** -/
theorem collect_printed {limit : ℕ} {records : List Match} (h : ∀ m ∈ records, Printable m)
    (hlimit : records.length < limit) :
    collect limit [] (Text.splitlines (records.flatMap fun m => printed m ++ ['\n']))
      = records := by
  have hlines : records.flatMap (fun m => printed m ++ ['\n']) =
      (records.map printed).flatMap (· ++ ['\n']) := by
    rw [List.flatMap_map]
  have hread : (records.map printed).filterMap readMatch = records := by
    rw [List.filterMap_map]
    refine (List.filterMap_congr fun m hm => readMatch_printed (h m hm)).trans ?_
    exact List.filterMap_some
  rw [hlines, Text.splitlines_lines, collect_eq, hread]
  · rfl
  · rwa [hread]
  · intro line hline
    obtain ⟨m, hm, rfl⟩ := List.mem_map.mp hline
    exact isLineBreak_printed (h m hm)

end ReadBack

/-! ## The tree -/

section Tree

variable {py disk contents root} {path : Location}

/-- The characters of joined names. -/
theorem mem_join {c : Char} {names : List Text} (h : c ∈ Text.join ['/'] names) :
    c = '/' ∨ ∃ name ∈ names, c ∈ name := by
  induction names with
  | nil => simp [Text.join] at h
  | cons name names ih =>
    cases names with
    | nil => exact .inr ⟨name, by simp, by simpa [Text.join] using h⟩
    | cons name' names =>
      rw [Text.join, List.intersperse_cons_cons, List.flatten_cons, List.flatten_cons,
        List.mem_append, List.mem_append, List.mem_singleton] at h
      rcases h with h | h | h
      · exact .inr ⟨name, by simp, h⟩
      · exact .inl h
      · rcases ih h with hsep | ⟨other, hother, hc⟩
        · exact .inl hsep
        · exact .inr ⟨other, List.mem_cons_of_mem _ hother, hc⟩

/-- Joined names begin as the first of them. -/
theorem head?_join {name : Text} (h : name ≠ []) (names : List Text) :
    (Text.join ['/'] (name :: names)).head? = name.head? := by
  obtain ⟨c, name, rfl⟩ := List.exists_cons_of_ne_nil h
  cases names with
  | nil => simp [Text.join]
  | cons name' names => simp [Text.join]

/-- What lies below the root has a name there. -/
theorem exists_names (h : path ∈ disk.rglob root) :
    ∃ name names, path.drop root.length = name :: names := by
  rw [Disk.rglob] at h
  split at h
  · rename_i p hdir
    obtain ⟨entry, hentry, rfl⟩ := List.mem_map.mp h
    obtain ⟨-, hbelow⟩ := List.mem_filter.mp hentry
    rw [Bool.and_eq_true, isInside_iff] at hbelow
    obtain ⟨⟨below, hbelow⟩, hne⟩ := hbelow
    cases below with
    | nil => exact absurd (by simpa using hbelow.symm) (of_decide_eq_true hne)
    | cons name names => exact ⟨name, names, by rw [List.drop_left, ← hbelow, List.drop_left]⟩
  · simp at h

/-- **A match in a plain file can be printed.** -/
theorem printable_of_mem_hits (h : Plain py disk contents root) (hnames : Unmangled disk root)
    {found : Text → Bool}
    {file : Location × Text} (hfile : file ∈ files disk contents root) {m : Match}
    (hm : m ∈ hits root found file) : Printable m := by
  obtain ⟨path, hpath, hsome⟩ := List.mem_filterMap.mp hfile
  obtain ⟨p, hp, rfl⟩ := Option.map_eq_some_iff.mp hsome
  obtain ⟨⟨line, number⟩, hline, hfound⟩ := List.mem_filterMap.mp hm
  obtain ⟨-, rfl⟩ : found line = true ∧ ⟨shownPath root path, number, line⟩ = m := by
    simpa using hfound
  obtain ⟨name, names, hbelow⟩ := exists_names hpath
  have hshown : shownPath root path = Text.join ['/'] (name :: names) := by
    rw [shownPath, relativeTo, hbelow]
  have hname : ∀ other ∈ name :: names, other ∈ path.drop root.length := fun other hother => by
    rwa [hbelow]
  refine ⟨fun c hc => ?_, fun c hc => ?_, fun c hc => ?_⟩
  · change c ∈ shownPath root path at hc
    rw [hshown] at hc
    rcases mem_join hc with rfl | ⟨other, hother, hcother⟩
    · decide
    · exact ⟨((h.names path hpath other (hname other hother)).2 c hcother).2,
        hnames path hpath other (hname other hother) c hcother⟩
  · change c ∈ (shownPath root path).head? at hc
    have hfirst := h.names path hpath name (hname name (by simp))
    rw [hshown, head?_join hfirst.1] at hc
    refine ⟨?_, (hfirst.2 c (List.mem_of_mem_head? hc)).1⟩
    rintro rfl
    exact h.visible path hpath name (hname name (by simp)) hc
  · have hlines : line ∈ linesFrom [] (Text.decode (contents p)) :=
      (List.mem_zipIdx hline).2.2 ▸ by simp
    rw [linesFrom_eq (h.lines path hpath p hp)] at hlines
    exact Text.not_isLineBreak_of_mem_splitlines hlines c hc

end Tree

/-- Without a glob and below the limit, the plain search finds the matching lines of every file. -/
theorem searchPython_eq {pattern : Text} {limit : ℕ} (hpattern : py.compileError pattern = none)
    (hlimit : ((sourceTexts py disk contents root).flatMap (fileMatches py root pattern)).length
      < limit) :
    searchPython py disk contents root pattern none limit =
      .ok ((sourceTexts py disk contents root).flatMap (fileMatches py root pattern)) := by
  simp [searchPython, hpattern, List.take_of_length_le hlimit.le]

theorem length_flatMap_take_le {α β : Type*} (f : α → List β) (n : ℕ) (l : List α) :
    (l.flatMap fun a => (f a).take n).length ≤ (l.flatMap f).length := by
  induction l with
  | nil => exact le_rfl
  | cons a l ih =>
    rw [List.flatMap_cons, List.flatMap_cons, List.length_append, List.length_append]
    exact Nat.add_le_add (List.length_take_le' _ _) ih

/-- **The fast search finds the first ten matching lines of each file**, and all of them where no
file has more: the matches of the plain search, on every tree of plain source files and for every
expression that both engines read alike, as long as they are fewer than the limit. -/
theorem searchRipgrep_agrees {pattern : Text} {found : Text → Bool} {returncode : ℤ}
    {stdout : List UInt8} {limit : ℕ} (hplain : Plain py disk contents root)
    (hnames : Unmangled disk root) (hpattern : py.compileError pattern = none)
    (halike : ∀ line, found line = py.search pattern line) (hcode : returncode = 0 ∨ returncode = 1)
    (hprints : Prints disk contents root found (Text.decode stdout))
    (hlimit : ((sourceTexts py disk contents root).flatMap (fileMatches py root pattern)).length
      < limit) :
    ∃ fast plain, searchRipgrep (some (returncode, stdout)) limit = some fast ∧
      searchPython py disk contents root pattern none limit = .ok plain ∧
      (∀ m, m ∈ plain ↔ ∃ source ∈ sourceTexts py disk contents root,
        m ∈ fileMatches py root pattern source) ∧
      (∀ m, m ∈ fast ↔ ∃ source ∈ sourceTexts py disk contents root,
        m ∈ (fileMatches py root pattern source).take 10) ∧
      ((∀ source ∈ sourceTexts py disk contents root,
          (fileMatches py root pattern source).length ≤ 10) → ∀ m, m ∈ fast ↔ m ∈ plain) := by
  obtain ⟨records, hrecords, hstdout⟩ := hprints
  have hsame : (files disk contents root).flatMap (fun file =>
    (hits root found file).take maxCount) =
      (sourceTexts py disk contents root).flatMap
        (fun source => (fileMatches py root pattern source).take 10) := by
    rw [← files_eq hplain]
    exact List.flatMap_congr fun file hfile => by rw [hits_eq hplain halike hfile, maxCount]
  have hprintable : ∀ m ∈ records, Printable m := by
    intro m hm
    obtain ⟨file, hfile, hhit⟩ := List.mem_flatMap.mp (hrecords.mem_iff.mp hm)
    exact printable_of_mem_hits hplain hnames hfile (List.mem_of_mem_take hhit)
  rw [hsame] at hrecords
  have hshort : records.length < limit :=
    (hrecords.length_eq.trans_le (length_flatMap_take_le _ _ _)).trans_lt hlimit
  have hfast : searchRipgrep (some (returncode, stdout)) limit = some records := by
    rw [searchRipgrep_some hcode, hstdout, collect_printed hprintable hshort]
  refine ⟨records, _, hfast, searchPython_eq py disk contents root hpattern hlimit, fun m =>
    List.mem_flatMap, fun m => hrecords.mem_iff.trans List.mem_flatMap, fun hfew m => ?_⟩
  rw [hrecords.mem_iff, List.mem_flatMap, List.mem_flatMap]
  refine exists_congr fun source => and_congr_right fun hsource => ?_
  rw [List.take_of_length_le (hfew source hsource)]

/-! ## Two trees -/

/-- A workspace `/w` with one file. -/
def oneFile : Disk where
  entries := [(["w".toList], .dir), (["w".toList, "a.txt".toList], .file)]
  below := by decide
  unique := by decide
  parents := by decide

/-- Whether a text is divided into lines by `\n` only. -/
def plainLines (t : Text) : Bool := t.all fun c => !Text.isLineBreak c || c = '\n'

theorem eq_newline_of_plainLines {t : Text} (h : plainLines t = true) :
    ∀ c ∈ t, Text.isLineBreak c = true → c = '\n' := by
  intro c hc hbreak
  simpa [hbreak] using List.all_eq_true.mp h c hc

/-- What `a.txt` holds. -/
def oneFileContents : Contents := fun _ => asciiBytes "x\ny\nX: y\n"

theorem oneFile_plain : Plain literalPy oneFile oneFileContents ["w".toList] := by
  have hglob : oneFile.rglob ["w".toList] = [["w".toList, "a.txt".toList]] := by decide +kernel
  have hsource : iterSourceFiles literalPy oneFile oneFileContents ["w".toList] =
      [["w".toList, "a.txt".toList]] := by decide +kernel
  refine ⟨?_, ?_, ?_, fun _ _ p _ => eq_newline_of_plainLines ?_⟩
  · rw [hglob, hsource]
    exact fun path hpath _ => hpath
  · rw [hglob]
    simp
  · rw [hglob]
    simp
  · change plainLines (Text.decode (asciiBytes "x\ny\nX: y\n")) = true
    decide +kernel

/-- Its two lines are found by both searches. -/
theorem searchRipgrep_agrees_oneFile :
    ∃ fast plain,
      searchRipgrep (some (0, asciiBytes "./a.txt:1:x\n./a.txt:3:X: y\n")) 60 = some fast ∧
        searchPython literalPy oneFile oneFileContents ["w".toList] "x".toList none 60 = .ok plain ∧
        ∀ m, m ∈ fast ↔ m ∈ plain := by
  have hglob : oneFile.rglob ["w".toList] = [["w".toList, "a.txt".toList]] := by decide +kernel
  have hnames : Unmangled oneFile ["w".toList] := by
    rw [Unmangled, hglob]
    simp [Text.isLineBreak]
  have hprints : Prints oneFile oneFileContents ["w".toList] (literalPy.search "x".toList)
      (Text.decode (asciiBytes "./a.txt:1:x\n./a.txt:3:X: y\n")) :=
    ⟨[⟨"a.txt".toList, 1, "x".toList⟩, ⟨"a.txt".toList, 3, "X: y".toList⟩],
      .of_eq (by decide +kernel), by decide +kernel⟩
  obtain ⟨fast, plain, hfast, hplain, -, -, hsame⟩ :=
    searchRipgrep_agrees literalPy oneFile oneFileContents
    ["w".toList] oneFile_plain hnames rfl (fun _ => rfl) (.inl rfl) hprints
    (by decide +kernel : _ < 60)
  exact ⟨fast, plain, hfast, hplain, hsame (by decide +kernel)⟩

/-- A workspace with two files, one with a backslash in its name. -/
def twoFiles : Disk where
  entries := [(["w".toList], .dir), (["w".toList, "a.txt".toList], .file),
    (["w".toList, "b\\c.txt".toList], .file)]
  below := by decide
  unique := by decide
  parents := by decide

/-- Both hold eleven lines. -/
def twoFilesContents : Contents := fun _ => asciiBytes "x\nx\nx\nx\nx\nx\nx\nx\nx\nx\nx\n"

/-- What `rg` finds in them. -/
def twoFilesRecords : List Match :=
  (["a.txt", "b\\c.txt"].map String.toList).flatMap fun path =>
    (List.range' 1 10).map fun number => ⟨path, number, "x".toList⟩

/-- What it prints. -/
def twoFilesStdout : List UInt8 :=
  (twoFilesRecords.flatMap fun m => printed m ++ ['\n']).map fun c => UInt8.ofNat c.toNat

/-- **The fast search is not the plain one**: on a tree of plain source files it leaves the eleventh
line of a file out, and finds matches in a file that is not there. -/
theorem searchRipgrep_differs :
    Plain literalPy twoFiles twoFilesContents ["w".toList] ∧
      Prints twoFiles twoFilesContents ["w".toList] (literalPy.search "x".toList)
        (Text.decode twoFilesStdout) ∧
      ((sourceTexts literalPy twoFiles twoFilesContents ["w".toList]).flatMap
        (fileMatches literalPy ["w".toList] "x".toList)).length < 60 ∧
      ∃ fast plain, searchRipgrep (some (0, twoFilesStdout)) 60 = some fast ∧
        searchPython literalPy twoFiles twoFilesContents ["w".toList] "x".toList none 60
          = .ok plain ∧
        (⟨"a.txt".toList, 11, "x".toList⟩ : Match) ∈ plain ∧
        (⟨"a.txt".toList, 11, "x".toList⟩ : Match) ∉ fast ∧
        (⟨"b/c.txt".toList, 1, "x".toList⟩ : Match) ∈ fast ∧
        (⟨"b/c.txt".toList, 1, "x".toList⟩ : Match) ∉ plain := by
  have hglob : twoFiles.rglob ["w".toList] =
      [["w".toList, "a.txt".toList], ["w".toList, "b\\c.txt".toList]] := by decide +kernel
  have hsource : iterSourceFiles literalPy twoFiles twoFilesContents ["w".toList] =
      [["w".toList, "a.txt".toList], ["w".toList, "b\\c.txt".toList]] := by decide +kernel
  refine ⟨⟨?_, ?_, ?_, fun _ _ p _ => eq_newline_of_plainLines ?_⟩, ?_, ?_, _, _,
    searchRipgrep_some (.inl rfl) _ _, searchPython_eq _ _ _ _ rfl (by decide +kernel), ?_,
    ?_, ?_, ?_⟩
  · rw [hglob, hsource]
    exact fun path hpath _ => hpath
  · rw [hglob]
    simp
  · rw [hglob]
    simp
  · change plainLines (Text.decode (asciiBytes "x\nx\nx\nx\nx\nx\nx\nx\nx\nx\nx\n")) = true
    decide +kernel
  · exact ⟨twoFilesRecords, .of_eq (by decide +kernel), by decide +kernel⟩
  · decide +kernel
  · decide +kernel
  · decide +kernel
  · decide +kernel
  · decide +kernel

end Ripgrep

end AgentPlatform
