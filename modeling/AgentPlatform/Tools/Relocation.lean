import AgentPlatform.Machinery.Subtrees
import AgentPlatform.Retrieval.Scanner
import AgentPlatform.Retrieval.SymbolPatterns

/-!
# Tools/Relocation — whether the place of a checkout shows in the results

`iter_source_files` and `list_directory` look for the names they skip in the whole path of an entry,
and so also above the root; `scan_repository` looks below it.

* `iterSourceFiles_eq_ite`, `listEntries_of_ignored` — a skipped name above the root hides
  everything.
* `locationIndependent_iff` — the same tree gives the same results at two places exactly if such a
  name stands above both roots or above neither, or there is nothing to hide.
-/

namespace AgentPlatform

open PosixPath Symlinks

namespace ReadTools

/-- `any(part in SKIP_DIRECTORIES for part in path.parts)`. -/
def inSkipped (path : Location) : Bool := path.any fun part => String.ofList part ∈ skipDirectories

/-- `any(part in IGNORED for part in entry.parts)`. -/
def inIgnored (path : Location) : Bool := path.any fun part => String.ofList part ∈ ignored

/-! ## The walk below a root -/

section Walk

variable (py : PyRuntime) (disk : Disk) (contents : Contents) (root r : Location)

/-- The source files of a tree, by their paths in it: what the walk lists but for the names
above. -/
def treeSources : List Location :=
  ((disk.under r).map Prod.fst).filter fun p =>
    disk.isFile (root ++ p) && !inSkipped p && String.ofList (py.lower (suffix p)) ∈ textSuffixes &&
      size disk contents (root ++ p) ≤ maxFileBytes

/-- …with their text. -/
def treeTexts : List (Location × Text) :=
  (treeSources py disk contents root r).filterMap fun p =>
    (readText disk contents (root ++ p)).map fun text => (p, text)

variable {py disk contents root r}

theorem suffix_append {p : Location} (hp : p ≠ []) : suffix (root ++ p) = suffix p := by
  rw [suffix, suffix, List.getLast?_append_of_ne_nil root hp]

theorem inSkipped_append (p : Location) : inSkipped (root ++ p) = (inSkipped root || inSkipped p) :=
  List.any_append

theorem inIgnored_append (p : Location) : inIgnored (root ++ p) = (inIgnored root || inIgnored p) :=
  List.any_append

/-- **A skipped name above the root hides every source file.** -/
theorem iterSourceFiles_eq_ite (h : disk.dirAt root = some r) :
    iterSourceFiles py disk contents root
      = if inSkipped root = true then []
        else (treeSources py disk contents root r).map (root ++ ·) := by
  rw [iterSourceFiles, Disk.rglob_eq h, List.filter_map, treeSources, List.filter_map, List.map_map]
  split_ifs with hskip
  · rw [List.map_eq_nil_iff, List.filter_eq_nil_iff]
    intro x _
    rw [Function.comp_apply, isSource, ← inSkipped, inSkipped_append, hskip]
    simp
  · rw [Bool.not_eq_true] at hskip
    rw [List.filter_congr fun x hx => ?_]
    · rfl
    rw [Function.comp_apply, Function.comp_apply, isSource, ← inSkipped, inSkipped_append, hskip,
      Bool.false_or, suffix_append (Disk.mem_under.mp hx).1]

/-- …and so its text. -/
theorem sourceTexts_eq_ite (h : disk.dirAt root = some r) :
    sourceTexts py disk contents root
      = if inSkipped root = true then []
        else (treeTexts py disk contents root r).map fun source =>
          (root ++ source.1, source.2) := by
  rw [sourceTexts, iterSourceFiles_eq_ite h]
  split_ifs
  · rfl
  · rw [List.filterMap_map, treeTexts, List.map_filterMap]
    refine List.filterMap_congr fun p _ => ?_
    rw [Function.comp_apply, Option.map_map]
    rfl

theorem shownPath_append (p : Location) : shownPath root (root ++ p) = shownPath [] p := by
  rw [shownPath, shownPath, relativeTo, relativeTo, List.drop_left]
  rfl

end Walk

/-! ## What the tools show of the walk -/

section Shown

variable (py : PyRuntime) (disk : Disk) (contents : Contents) (root : Location)

/-- The sources, by the paths the tools show. -/
def shownTexts : List (Text × Text) :=
  (sourceTexts py disk contents root).map fun source => (shownPath root source.1, source.2)

/-- The relative paths of `iter_source_files`. -/
def relativeSources : List Location :=
  (iterSourceFiles py disk contents root).map (·.drop root.length)

variable {py disk contents root} {disk' : Disk} {contents' : Contents} {root' : Location}

/-- The matching lines of a source as it is shown. -/
def matchesIn (py : PyRuntime) (pattern : Text) (source : Text × Text) : List Match :=
  ((Text.splitlines source.2).zipIdx 1).filterMap fun (line, number) =>
    if py.search pattern line then some ⟨source.1, number, line⟩ else none

theorem flatMap_fileMatches (pattern glob : Text) :
    ((sourceTexts py disk contents root).filter fun source =>
        glob = [] || pathMatch (shownPath root source.1) glob).flatMap (fileMatches py root pattern)
      = ((shownTexts py disk contents root).filter fun source =>
        glob = [] || pathMatch source.1 glob).flatMap (matchesIn py pattern) := by
  rw [shownTexts, List.filter_map, List.flatMap_map]
  rfl

variable (hiter : relativeSources py disk contents root = relativeSources py disk' contents' root')
  (hshown : shownTexts py disk contents root = shownTexts py disk' contents' root')

include hiter hshown in
/-- **A search depends on what is shown.** -/
theorem searchPython_congr (pattern : Text) (glob : Option Text) (limit : ℕ) :
    searchPython py disk contents root pattern glob limit
      = searchPython py disk' contents' root' pattern glob limit := by
  have hempty : iterSourceFiles py disk contents root = [] ↔
      iterSourceFiles py disk' contents' root' = [] := by
    rw [← List.map_eq_nil_iff (f := (·.drop root.length)),
      ← List.map_eq_nil_iff (l := iterSourceFiles py disk' contents' root')
      (f := (·.drop root'.length))]
    exact Eq.congr_left hiter
  rw [searchPython, searchPython]
  simp only [ne_eq, hempty, flatMap_fileMatches, hshown]

include hshown in
theorem indexSymbols_congr :
    indexSymbols py disk contents root = indexSymbols py disk' contents' root' := by
  have hindex (disk : Disk) (contents : Contents) (root : Location) :
    indexSymbols py disk contents root
      = (shownTexts py disk contents root).flatMap fun source =>
        Parser.parseSymbols py source.1 source.2 := by
    rw [shownTexts, List.flatMap_map]
    rfl
  rw [hindex, hindex, hshown]

include hshown in
theorem findSymbol_congr (symbol : String) :
    findSymbol py disk contents root symbol = findSymbol py disk' contents' root' symbol := by
  rw [findSymbol, findSymbol, indexSymbols_congr hshown]

include hiter hshown in
theorem findReferences_congr (symbol : String) :
    findReferences py disk contents root symbol
      = findReferences py disk' contents' root' symbol := by
  rw [findReferences, findReferences, indexSymbols_congr hshown, searchPython_congr hiter hshown]

include hshown in
theorem dependents_congr (declared : List Text) (target : Text) :
    dependents py disk contents root declared target
      = dependents py disk' contents' root' declared target := by
  have hdependents (disk : Disk) (contents : Contents) (root : Location) :
      ((sourceTexts py disk contents root).filterMap fun source =>
        if shownPath root source.1 = target then none
        else if mentions py declared source.2 then some (shownPath root source.1) else none)
      = (shownTexts py disk contents root).filterMap fun source =>
        if source.1 = target then none
        else if mentions py declared source.2 then some source.1 else none := by
    rw [shownTexts, List.filterMap_map]
    rfl
  rw [dependents, dependents, hdependents, hdependents, hshown]

end Shown

/-! ## The same tree -/

section Same

variable {py : PyRuntime} {d d' : Disk} {c c' : Contents} {root root' r r' path path' q : Location}

theorem readText_congr (h : (d.fileAt path).map c = (d'.fileAt path').map c') :
    readText d c path = readText d' c' path' := by
  have hread (d : Disk) (c : Contents) (path : Location) : readText d c path
      = ((d.fileAt path).map c).map fun bytes => (Text.decode bytes).universalNewlines := by
    rw [readText, Option.map_map]
    rfl
  rw [hread, hread, h]

theorem size_congr (h : (d.fileAt path).map c = (d'.fileAt path').map c') :
    size d c path = size d' c' path' := by
  have hsize (d : Disk) (c : Contents) (path : Location) :
      size d c path = (((d.fileAt path).map c).map List.length).getD 0 := by
    rw [size]
    cases d.fileAt path <;> rfl
  rw [hsize, hsize, h]

theorem isFile_congr (h : (d.fileAt path).map c = (d'.fileAt path').map c') :
    d.isFile path = d'.isFile path' := by
  rw [Disk.isFile, Disk.isFile, ← Option.isSome_map (f := c), h, Option.isSome_map]

theorem treeSources_eq (h : SameTree d d' c c' root root' r r') :
    treeSources py d c root r = treeSources py d' c' root' r' := by
  rw [treeSources, treeSources, List.filter_map, List.filter_map, ← h.under,
    List.filter_congr fun x hx => ?_]
  have hbytes := h.bytes (h.spelled x hx)
  rw [Function.comp_apply, Function.comp_apply, isFile_congr hbytes, size_congr hbytes]

theorem treeTexts_eq (h : SameTree d d' c c' root root' r r') :
    treeTexts py d c root r = treeTexts py d' c' root' r' := by
  rw [treeTexts, treeTexts, ← treeSources_eq h]
  refine List.filterMap_congr fun p hp => ?_
  obtain ⟨x, hx, rfl⟩ := List.mem_map.mp (List.mem_of_mem_filter hp)
  rw [readText_congr (h.bytes (h.spelled x hx))]

theorem relativeSources_eq_ite (h : d.dirAt root = some r) : relativeSources py d c root
    = if inSkipped root = true then [] else treeSources py d c root r := by
  rw [relativeSources, iterSourceFiles_eq_ite h]
  split_ifs
  · rfl
  · have hdrop : (fun path : Location => path.drop root.length) ∘ (root ++ ·) = id :=
      funext fun p => List.drop_left
    rw [List.map_map, hdrop, List.map_id]

theorem shownTexts_eq_ite (h : d.dirAt root = some r) : shownTexts py d c root
    = if inSkipped root = true then []
      else (treeTexts py d c root r).map fun source => (shownPath [] source.1, source.2) := by
  rw [shownTexts, sourceTexts_eq_ite h]
  split_ifs
  · rfl
  · rw [List.map_map]
    refine List.map_congr_left fun source _ => ?_
    rw [Function.comp_apply, shownPath_append]

/-- Skipped names stand above both roots or above neither, or there is no source file to skip. -/
def SourcesAgree (py : PyRuntime) (d : Disk) (c : Contents) (root root' r : Location) : Prop :=
  inSkipped root = inSkipped root' ∨ treeSources py d c root r = []

theorem relativeSources_eq_iff (h : SameTree d d' c c' root root' r r') :
    relativeSources py d c root = relativeSources py d' c' root' ↔
    SourcesAgree py d c root root' r := by
  rw [relativeSources_eq_ite h.dir, relativeSources_eq_ite h.dir', ← treeSources_eq h, SourcesAgree]
  cases inSkipped root <;> cases inSkipped root'
  · exact iff_of_true rfl (.inl rfl)
  · exact ⟨.inr, fun hagree => hagree.resolve_left Bool.false_ne_true⟩
  · exact ⟨fun heq => .inr heq.symm, fun hagree =>
      (hagree.resolve_left Bool.false_ne_true.symm).symm⟩
  · exact iff_of_true rfl (.inl rfl)

theorem shownTexts_eq (h : SameTree d d' c c' root root' r r')
    (hagree : SourcesAgree py d c root root' r) :
    shownTexts py d c root = shownTexts py d' c' root' := by
  rw [shownTexts_eq_ite h.dir, shownTexts_eq_ite h.dir', ← treeTexts_eq h]
  rcases hagree with hskip | hnone
  · rw [hskip]
  · rw [treeTexts, hnone, List.filterMap_nil, List.map_nil]
    split_ifs <;> rfl

end Same

/-! ## Listings -/

section Listings

variable {d d' : Disk} {c c' : Contents} {root root' r r' p q : Location}

/-- Skipped names stand above both roots or above neither, or everything of the tree is skipped. -/
def EntriesAgree (d : Disk) (r r' : Location) : Prop :=
  inIgnored r = inIgnored r' ∨ ∀ x ∈ d.under r, inIgnored x.1 = true

theorem append_le_append_iff : r ++ p ≤ r ++ q ↔ p ≤ q := by
  have hmono : StrictMono (r ++ · : Location → Location) := fun _ _ h => List.Lex.append_left _ h r
  exact hmono.le_iff_le

/-- A listing in order, by the paths in the tree. -/
theorem insertionSort_append (ps : List Location) :
    (ps.map (r ++ ·)).insertionSort (· ≤ ·) = (ps.insertionSort (· ≤ ·)).map (r ++ ·) :=
  (List.map_insertionSort (· ≤ ·) (· ≤ ·) (r ++ ·) ps fun _ _ _ _ => append_le_append_iff.symm).symm

theorem isBelow_append (hr : d.IsReal r) (hq : d.IsReal (r ++ q)) : isBelow r (r ++ q) = true := by
  have hsingle {p : Location} (hp : d.IsReal p) : doubled p = false := by
    rw [doubled, decide_eq_false_iff_not]
    intro hhead
    exact (hp.names [] (List.mem_of_head? hhead)).1 rfl
  rw [isBelow, hsingle hr, hsingle hq, isInside_iff.mpr (List.prefix_append r q)]
  rfl

/-- The place of an entry of the tree. -/
theorem relative_append (hroot : d.realpath root = .ok r)
    (hp : d.realpath (r ++ p) = .ok (r ++ q)) :
    relative d root (r ++ p) = .ok (relativeTo [] q) := by
  rw [relative, resolvePath_of_realpath hp, resolvePath_of_realpath hroot]
  refine (if_pos (isBelow_append (Disk.isReal_realpath hroot) (Disk.isReal_realpath hp))).trans ?_
  rw [relativeTo, relativeTo, List.drop_left]
  rfl

/-- **Ignored entries are not listed.** -/
theorem listEntries_of_ignored (shown : List String) {entries : List Location}
    (h : ∀ entry ∈ entries, inIgnored entry = true) :
    listEntries d root shown entries = .ok shown := by
  induction entries with
  | nil => rfl
  | cons entry entries ih =>
    rw [List.forall_mem_cons] at h
    rw [listEntries, ← inIgnored, if_pos h.1, ih h.2]

/-- The same entries are listed the same where no name above them is ignored. -/
theorem listEntries_congr (h : SameTree d d' c c' root root' r r') (hclear : inIgnored r = false)
    (hclear' : inIgnored r' = false) (shown : List String) {ps : List Location}
    (hps : ∀ p ∈ ps, ∃ k, (p, k) ∈ d.under r) :
    listEntries d root shown (ps.map (r ++ ·)) = listEntries d' root' shown (ps.map (r' ++ ·)) := by
  induction ps generalizing shown with
  | nil => rfl
  | cons p ps ih =>
    rw [List.forall_mem_cons] at hps
    obtain ⟨⟨k, hp⟩, hps⟩ := hps
    obtain ⟨q, hq, hq'⟩ := h.real _ hp
    rw [List.map_cons, List.map_cons, listEntries, listEntries, ← inIgnored, ← inIgnored,
      inIgnored_append, inIgnored_append, hclear, hclear', relative_append h.resolved hq,
      relative_append h.resolved' hq', h.isDir (h.leads _ hp)]
    dsimp only
    split_ifs
    · exact ih _ hps
    · rfl
    · exact ih _ hps
    · rfl
    · exact ih _ hps

/-- What a directory of the tree lists, by the paths in the tree. -/
def childPaths (d : Disk) (r q : Location) (recursive : Bool) : List Location :=
  (if recursive then d.under (r ++ q) else (d.under (r ++ q)).filter fun x => x.1.length = 1).map
    fun x => q ++ x.1

theorem iterator_eq (h : d.dirAt (r ++ q) = some (r ++ q)) (recursive : Bool) :
    (if recursive then d.rglob (r ++ q) else d.iterdir (r ++ q))
      = (childPaths d r q recursive).map (r ++ ·) := by
  rw [Disk.rglob_eq h, Disk.iterdir_eq h, childPaths, List.map_map]
  cases recursive <;> exact List.map_congr_left fun x _ => List.append_assoc r q x.1

theorem mem_under_of_childPaths {recursive : Bool}
    (h : p ∈ childPaths d r q recursive) : ∃ k, (p, k) ∈ d.under r := by
  obtain ⟨⟨rest, k⟩, hrest, rfl⟩ := List.mem_map.mp h
  have hmem : (rest, k) ∈ d.under (r ++ q) := by
    cases recursive with
    | true => exact hrest
    | false => exact List.mem_of_mem_filter hrest
  rw [Disk.mem_under, List.append_assoc] at hmem
  exact ⟨k, Disk.mem_under.mpr ⟨List.append_ne_nil_of_right_ne_nil q hmem.1, hmem.2⟩⟩

theorem childPaths_eq (h : SameTree d d' c c' root root' r r') (recursive : Bool) :
    childPaths d r q recursive = childPaths d' r' q recursive := by
  rw [childPaths, childPaths, Disk.under_append, Disk.under_append, h.under]

/-- **A directory of the tree is listed the same.** -/
theorem listEntries_eq (h : SameTree d d' c c' root root' r r') (hagree : EntriesAgree d r r')
    (q : Location) (recursive : Bool) :
    listEntries d root [] (((childPaths d r q recursive).map (r ++ ·)).insertionSort (· ≤ ·))
      = listEntries d' root' [] (((childPaths d' r' q recursive).map (r' ++ ·)).insertionSort
        (· ≤ ·)) := by
  rw [insertionSort_append, insertionSort_append, ← childPaths_eq h]
  have hmem : ∀ p ∈ (childPaths d r q recursive).insertionSort (· ≤ ·), ∃ k, (p, k)
      ∈ d.under r := fun p hp =>
    mem_under_of_childPaths ((List.mem_insertionSort _).mp hp)
  rcases hagree with hroots | hall
  · cases hclear : inIgnored r with
    | false => exact listEntries_congr h hclear (hroots ▸ hclear) [] hmem
    | true =>
      rw [listEntries_of_ignored [] fun entry hentry => ?_,
        listEntries_of_ignored [] fun entry hentry => ?_]
      · obtain ⟨p, -, rfl⟩ := List.mem_map.mp hentry
        rw [inIgnored_append, ← hroots, hclear, Bool.true_or]
      · obtain ⟨p, -, rfl⟩ := List.mem_map.mp hentry
        rw [inIgnored_append, hclear, Bool.true_or]
  · have hignored (s : Location) :
      ∀ entry ∈ ((childPaths d r q recursive).insertionSort (· ≤ ·)).map (s ++ ·), inIgnored entry
      = true := by
      intro entry hentry
      obtain ⟨p, hp, rfl⟩ := List.mem_map.mp hentry
      obtain ⟨k, hk⟩ := hmem p hp
      rw [inIgnored_append, hall _ hk, Bool.or_true]
    rw [listEntries_of_ignored [] (hignored r), listEntries_of_ignored [] (hignored r')]

/-- The result of a listing. -/
def reportEntries : Except PyError (List String) → Except PyError ReadResult
  | .ok entries => .ok (.success (joinOr "\n" entries "(empty)")
    [("count", .number entries.length)])
  | .error e => .error e

/-- **`list_directory` on a path of the tree.** -/
theorem listDirectory_eq {path : ArgValue} (recursive : Bool)
    (hresolve : resolveInside d root (orDot path) = .ok (r ++ q)) (hreal : d.IsReal (r ++ q)) :
    listDirectory d root path recursive
      = if d.kindAt (r ++ q) = some .dir then
          reportEntries (listEntries d root []
            (((childPaths d r q recursive).map (r ++ ·)).insertionSort (· ≤ ·)))
        else .ok (.failure s!"not a directory: {path.toStr}") := by
  rw [listDirectory, withTarget, hresolve]
  dsimp only
  rw [Disk.isDir_of_isReal hreal]
  by_cases hdir : d.kindAt (r ++ q) = some .dir
  · rw [if_pos (decide_eq_true hdir), if_pos hdir, ← iterator_eq (Disk.dirAt_of_kindAt hreal hdir)]
    generalize listEntries d root [] _ = entries
    cases entries <;> rfl
  · rw [if_neg (by simpa using hdir), if_neg hdir]
    rfl

/-- **A relative path without links** is resolved to itself. -/
theorem resolveInside_of_isReal {path : ArgValue} {raw : Text} (h : d.realpath root = .ok r)
    (hraw : path.spelled = some raw) (hrelative : isAbsolute raw = false)
    (hreal : d.IsReal (r ++ parts raw)) : resolveInside d root path = .ok (r ++ parts raw) := by
  have hbelow := isBelow_append (Disk.isReal_realpath h) hreal
  rw [resolveInside, resolvePath_of_realpath h, hraw]
  simp only [bind, Except.bind, hrelative, Bool.false_eq_true, if_false,
    resolvePath_of_realpath (Disk.realpath_of_isReal hreal), hbelow, if_true]
  rfl

/-- The argument names the root. -/
theorem resolveInside_dot (h : d.realpath root = .ok r) :
    resolveInside d root (orDot (.str ".")) = .ok (r ++ []) := by
  have hspelled : (ArgValue.str ".").spelled = some ".".toList := by decide
  refine resolveInside_of_isReal h hspelled (by decide) ?_
  exact (List.append_nil r).symm ▸ Disk.isReal_realpath h

/-- A listing with an entry that is not ignored is not empty. -/
theorem listEntries_ne_nil (hroot : d.realpath root = .ok r)
    (hreal : ∀ x ∈ d.under r, ∃ q, d.realpath (r ++ x.1) = .ok (r ++ q))
    (hclear : inIgnored r = false)
    (shown : List String) {ps : List Location} (hps : ∀ p ∈ ps, ∃ k, (p, k) ∈ d.under r)
    (hvisible : shown ≠ [] ∨ ∃ p ∈ ps, inIgnored p = false) :
    ∃ entries, listEntries d root shown (ps.map (r ++ ·)) = .ok entries ∧ entries ≠ [] := by
  induction ps generalizing shown with
  | nil => exact ⟨shown, rfl, hvisible.resolve_right (by simp)⟩
  | cons p ps ih =>
    rw [List.forall_mem_cons] at hps
    obtain ⟨⟨k, hp⟩, hps⟩ := hps
    obtain ⟨q, hq⟩ := hreal _ hp
    rw [List.map_cons, listEntries, ← inIgnored, inIgnored_append, hclear, Bool.false_or,
      relative_append hroot hq]
    dsimp only
    split_ifs with hignored
    · refine ih shown hps (hvisible.imp_right ?_)
      rintro ⟨p', hp', hclear'⟩
      rcases List.mem_cons.mp hp' with rfl | hp'
      · rw [hignored] at hclear'
        cases hclear'
      · exact ⟨p', hp', hclear'⟩
    · exact ⟨_, rfl, by simp⟩
    · exact ih _ hps (.inl (by simp))
    · exact ⟨_, rfl, by simp⟩
    · exact ih _ hps (.inl (by simp))

end Listings

/-! ## The results at two places -/

section Places

variable (py : PyRuntime) (d d' : Disk) (c c' : Contents) (root root' r r' : Location)

/-- The argument is resolved to the same place of the tree under both roots, or is refused the
same. -/
def SameArgument (path : ArgValue) : Prop :=
  (∃ q, (resolveInside d root path = .ok (r ++ q) ∧ d.IsReal (r ++ q)) ∧
    resolveInside d' root' path = .ok (r' ++ q) ∧ d'.IsReal (r' ++ q)) ∨
    ∃ e, resolveInside d root path = .error e ∧ resolveInside d' root' path = .error e

/-- What `scan_repository` returns but for the absolute paths. -/
def scanned (py : PyRuntime) (d : Disk) (c : Contents) (root : Location) :
    Except PyError (List (Text × String × Text)) :=
  match Scanner.scanRepository py d c root with
  | .ok files => .ok (files.map fun file => (file.relativePath, file.language, file.content))
  | .error e => .error e

/-- **The place of the checkout does not show in the results.** -/
structure LocationIndependent : Prop where
  sources : relativeSources py d c root = relativeSources py d' c' root'
  search : ∀ pattern glob limit, searchPython py d c root pattern glob limit
    = searchPython py d' c' root' pattern glob limit
  symbols : ∀ symbol, findSymbol py d c root symbol = findSymbol py d' c' root' symbol
  references : ∀ symbol, findReferences py d c root symbol = findReferences py d' c' root' symbol
  dependencies : ∀ path, SameArgument d d' root root' r r' path →
    getDependencies py d c root path = getDependencies py d' c' root' path
  listing : ∀ path recursive, SameArgument d d' root root' r r' (orDot path) →
    listDirectory d root path recursive = listDirectory d' root' path recursive
  scan : scanned py d c root = scanned py d' c' root'

variable {py d d' c c' root root' r r'}

/-- **A relative path without links is an argument for the same place.** -/
theorem sameArgument_of_linkless (h : SameTree d d' c c' root root' r r')
    {path : ArgValue} {raw : Text}
    (hraw : path.spelled = some raw) (hrelative : isAbsolute raw = false)
    (hreal : d.IsReal (r ++ parts raw)) : SameArgument d d' root root' r r' path := by
  have hreal' : d'.IsReal (r' ++ parts raw) := by
    refine (Disk.isReal_realpath h.resolved').append (fun name hname => ?_) fun q hq target => ?_
    · exact hreal.names name (List.mem_append_right r hname)
    · rw [← h.kindAt_eq]
      exact hreal.linkless _ ((List.prefix_append_right_inj r).mpr hq) target
  exact .inl ⟨parts raw, ⟨resolveInside_of_isReal h.resolved hraw hrelative hreal, hreal⟩,
    resolveInside_of_isReal h.resolved' hraw hrelative hreal', hreal'⟩

theorem listDirectory_congr (h : SameTree d d' c c' root root' r r') (hagree : EntriesAgree d r r')
    {path : ArgValue} (recursive : Bool) (hpath : SameArgument d d' root root' r r' (orDot path)) :
    listDirectory d root path recursive = listDirectory d' root' path recursive := by
  rcases hpath with ⟨q, ⟨hq, hreal⟩, hq', hreal'⟩ | ⟨e, he, he'⟩
  · rw [listDirectory_eq recursive hq hreal, listDirectory_eq recursive hq' hreal', h.kindAt_eq,
      listEntries_eq h hagree]
  · rw [listDirectory, listDirectory, withTarget, withTarget, he, he']
    cases e <;> rfl

theorem getDependencies_congr (h : SameTree d d' c c' root root' r r')
    (hshown : shownTexts py d c root = shownTexts py d' c' root') {path : ArgValue}
    (hpath : SameArgument d d' root root' r r' path) :
    getDependencies py d c root path = getDependencies py d' c' root' path := by
  rw [getDependencies, getDependencies, withTarget, withTarget]
  rcases hpath with ⟨q, ⟨hq, hreal⟩, hq', hreal'⟩ | ⟨e, he, he'⟩
  · have hbytes : (d.fileAt (r ++ q)).map c = (d'.fileAt (r' ++ q)).map c' := by
      rw [Disk.fileAt_eq_of_isReal hreal, Disk.fileAt_eq_of_isReal hreal', h.kindAt_eq]
      split_ifs
      · exact congrArg some (h.contents q)
      · rfl
    rw [hq, hq']
    dsimp only
    rw [getDependenciesAt, getDependenciesAt, readText_congr hbytes,
      relative_append h.resolved (Disk.realpath_of_isReal hreal),
      relative_append h.resolved' (Disk.realpath_of_isReal hreal')]
    simp only [dependents_congr hshown]
  · rw [he, he']
    cases e <;> rfl

/-- A file of the tree as it is scanned, from its path there. -/
theorem scanFile_congr (h : SameTree d d' c c' root root' r r') {x : Location × Kind}
    (hx : x ∈ d.under r) :
    (Scanner.scanFile py d c r (r ++ x.1)).map (fun file =>
      (file.relativePath, file.language, file.content))
      = (Scanner.scanFile py d' c' r' (r' ++ x.1)).map fun file =>
          (file.relativePath, file.language, file.content) := by
  have hbytes := h.bytes (h.leads x hx)
  have hne := (Disk.mem_under.mp hx).1
  have hrelative (s : Location) : relativeTo s (s ++ x.1) = relativeTo [] x.1 :=
    shownPath_append x.1
  rw [Scanner.scanFile, Scanner.scanFile, isFile_congr hbytes, size_congr hbytes,
    readText_congr hbytes, suffix_append hne, suffix_append hne, List.drop_left, List.drop_left,
    hrelative, hrelative]
  split_ifs
  · rfl
  · rfl
  · rw [Option.map_map, Option.map_map]
    rfl
  · rfl
  · rfl

/-- **`scan_repository` looks only below the root.** -/
theorem scanned_eq (h : SameTree d d' c c' root root' r r') :
    scanned py d c root = scanned py d' c' root' := by
  have hscan {d : Disk} {c : Contents} {root r : Location} (hresolved : d.realpath root = .ok r)
      (hdir : d.kindAt r = some .dir) : scanned py d c root
        = .ok ((((d.under r).map Prod.fst).insertionSort (· ≤ ·)).filterMap fun p =>
          (Scanner.scanFile py d c r (r ++ p)).map fun file =>
            (file.relativePath, file.language, file.content)) := by
    have hwalk := Disk.rglob_eq (Disk.dirAt_of_kindAt (Disk.isReal_realpath hresolved) hdir)
    have hsort : (d.rglob r).insertionSort (· ≤ ·)
        = (((d.under r).map Prod.fst).insertionSort (· ≤ ·)).map (r ++ ·) := by
      rw [hwalk, ← insertionSort_append, List.map_map]
      rfl
    rw [scanned, Scanner.scanRepository, resolvePath_of_realpath hresolved]
    dsimp only [bind, Except.bind, pure, Except.pure]
    rw [hsort, List.filterMap_map, List.map_filterMap]
    rfl
  rw [hscan h.resolved (kindAt_of_dirAt h.dir),
    hscan h.resolved' (kindAt_of_dirAt h.dir'), ← h.under]
  refine congrArg Except.ok (List.filterMap_congr fun p hp => ?_)
  obtain ⟨x, hx, rfl⟩ := List.mem_map.mp ((List.mem_insertionSort _).mp hp)
  exact scanFile_congr h hx

/-- Under an ignored name the root lists nothing. -/
theorem listDirectory_of_ignored (hroot : d.realpath root = .ok r) (hdir : d.kindAt r = some .dir)
    (hignored : inIgnored r = true) :
    listDirectory d root (.str ".") true = .ok (.success "(empty)" [("count", .number 0)]) := by
  have hreal : d.IsReal (r ++ []) := (List.append_nil r).symm ▸ Disk.isReal_realpath hroot
  rw [listDirectory_eq true (resolveInside_dot hroot) hreal,
    if_pos (by rw [List.append_nil]; exact hdir),
    listEntries_of_ignored [] fun entry hentry => ?_]
  · rfl
  obtain ⟨p, -, rfl⟩ := List.mem_map.mp ((List.mem_insertionSort _).mp hentry)
  rw [inIgnored_append, hignored, Bool.true_or]

/-- Elsewhere it lists what is not ignored. -/
theorem listDirectory_ne_of_visible (hroot : d.realpath root = .ok r)
    (hdir : d.kindAt r = some .dir)
    (hreal : ∀ x ∈ d.under r, ∃ q, d.realpath (r ++ x.1) = .ok (r ++ q))
    (hclear : inIgnored r = false) (hvisible : ∃ x ∈ d.under r, inIgnored x.1 = false) :
    listDirectory d root (.str ".") true ≠ .ok (.success "(empty)" [("count", .number 0)]) := by
  have hself : d.IsReal (r ++ []) := (List.append_nil r).symm ▸ Disk.isReal_realpath hroot
  obtain ⟨x, hx, hclear'⟩ := hvisible
  have hmem : x.1 ∈ (childPaths d r [] true).insertionSort (· ≤ ·) := by
    refine (List.mem_insertionSort _).mpr (List.mem_map.mpr ⟨x, ?_, List.nil_append _⟩)
    rw [List.append_nil]
    exact hx
  obtain ⟨entries, hentries, hne⟩ := listEntries_ne_nil hroot hreal hclear []
    (fun p hp => mem_under_of_childPaths ((List.mem_insertionSort _).mp hp))
      (.inr ⟨x.1, hmem, hclear'⟩)
  rw [listDirectory_eq true (resolveInside_dot hroot) hself,
    if_pos (by rw [List.append_nil]; exact hdir), insertionSort_append,
    hentries]
  intro heq
  have hcount := congrArg ReadResult.data (Except.ok.inj heq)
  exact hne (List.length_eq_zero_iff.mp (by simpa [ReadResult.success] using hcount))

/-- A listing that agrees hides nothing at one place only. -/
theorem entriesAgree_of_listing (h : SameTree d d' c c' root root' r r')
    (heq : listDirectory d root (.str ".") true = listDirectory d' root' (.str ".") true) :
    EntriesAgree d r r' := by
  have hdir := kindAt_of_dirAt h.dir
  have hdir' := kindAt_of_dirAt h.dir'
  refine or_iff_not_imp_left.mpr fun hne => by_contra fun hnot => ?_
  have hvisible : ∃ x ∈ d.under r, inIgnored x.1 = false := by
    by_contra hnone
    exact hnot fun x hx => Bool.eq_true_of_not_eq_false fun hclear => hnone ⟨x, hx, hclear⟩
  cases hroot : inIgnored r with
  | true =>
    have hroot' : inIgnored r' = false := Bool.eq_false_of_not_eq_true fun h' =>
      hne (hroot.trans h'.symm)
    have hreal' : ∀ x ∈ d'.under r', ∃ q, d'.realpath (r' ++ x.1) = .ok (r' ++ q) := fun x hx =>
      (h.real x (h.under ▸ hx)).imp fun _ => And.right
    rw [listDirectory_of_ignored h.resolved hdir hroot] at heq
    exact listDirectory_ne_of_visible h.resolved' hdir' hreal' hroot' (h.under ▸ hvisible) heq.symm
  | false =>
    have hroot' : inIgnored r' = true := Bool.eq_true_of_not_eq_false fun h' =>
      hne (hroot.trans h'.symm)
    have hreal : ∀ x ∈ d.under r, ∃ q, d.realpath (r ++ x.1) = .ok (r ++ q) := fun x hx =>
      (h.real x hx).imp fun _ => And.left
    rw [listDirectory_of_ignored h.resolved' hdir' hroot'] at heq
    exact listDirectory_ne_of_visible h.resolved hdir hreal hroot hvisible heq

end Places

/-- **When the place of the checkout does not show**: exactly if a skipped name stands above both
roots or above neither, or there is no source file, and an ignored name likewise, or every entry is
ignored. -/
theorem locationIndependent_iff (py : PyRuntime) (d d' : Disk) (c c' : Contents)
    (root root' r r' : Location) (h : SameTree d d' c c' root root' r r') :
    LocationIndependent py d d' c c' root root' r r' ↔
      SourcesAgree py d c root root' r ∧ EntriesAgree d r r' := by
  constructor
  · intro hall
    refine ⟨(relativeSources_eq_iff h).mp hall.sources, entriesAgree_of_listing h ?_⟩
    refine hall.listing (.str ".") true (.inl ⟨[], ⟨resolveInside_dot h.resolved, ?_⟩,
      resolveInside_dot h.resolved', ?_⟩)
    · exact (List.append_nil r).symm ▸ Disk.isReal_realpath h.resolved
    · exact (List.append_nil r').symm ▸ Disk.isReal_realpath h.resolved'
  · rintro ⟨hsources, hentries⟩
    have hiter := (relativeSources_eq_iff h).mpr hsources
    have hshown := shownTexts_eq h hsources
    exact {
      sources := hiter
      search := searchPython_congr hiter hshown
      symbols := findSymbol_congr hshown
      references := findReferences_congr hiter hshown
      dependencies := fun _ hpath => getDependencies_congr h hshown hpath
      listing := fun _ recursive hpath => listDirectory_congr h hentries recursive hpath
      scan := scanned_eq h }

/-- A checkout at `/w`, of one Python file. -/
def plainDisk : Disk where
  entries := [(["w".toList], .dir), (["w".toList, "a.py".toList], .file)]
  below := by decide
  unique := by decide
  parents := by decide

/-- The same checkout at `/bin/w`. -/
def binDisk : Disk where
  entries := [(["bin".toList], .dir), (["bin".toList, "w".toList], .dir),
    (["bin".toList, "w".toList, "a.py".toList], .file)]
  below := by decide
  unique := by decide
  parents := by decide

theorem sameTree_plain_bin : SameTree plainDisk binDisk (fun _ => []) (fun _ => []) ["w".toList]
    ["bin".toList, "w".toList] ["w".toList] ["bin".toList, "w".toList] := by
  have hreal : plainDisk.realpath ["w".toList] = .ok ["w".toList] := by decide +kernel
  have hreal' : binDisk.realpath ["bin".toList, "w".toList] = .ok ["bin".toList, "w".toList] := by
    decide +kernel
  have hunder : plainDisk.under ["w".toList] = [(["a.py".toList], .file)] := by decide +kernel
  refine sameTree_of_linkless (Disk.isReal_realpath hreal) (Disk.isReal_realpath hreal') (by decide)
    (by decide) (by decide +kernel) (fun _ => rfl) (fun x hx => ?_) fun x hx => ?_
  · rw [hunder, List.mem_singleton] at hx
    rw [hx]
    decide
  · rw [hunder, List.mem_singleton] at hx
    rw [hx]
    exact fun _ => Kind.noConfusion

theorem locationIndependent_plain_bin :
    LocationIndependent Parser.symbolPy plainDisk binDisk (fun _ => []) (fun _ => []) ["w".toList]
        ["bin".toList, "w".toList] ["w".toList] ["bin".toList, "w".toList] ↔
      SourcesAgree Parser.symbolPy plainDisk (fun _ => []) ["w".toList] ["bin".toList, "w".toList]
        ["w".toList] ∧ EntriesAgree plainDisk ["w".toList] ["bin".toList, "w".toList] :=
  locationIndependent_iff Parser.symbolPy plainDisk binDisk (fun _ => []) (fun _ => []) ["w".toList]
    ["bin".toList, "w".toList] ["w".toList] ["bin".toList, "w".toList] sameTree_plain_bin

/-- **Below `/bin` the checkout looks empty.** -/
theorem bin_hides_checkout :
    ¬ LocationIndependent Parser.symbolPy plainDisk binDisk (fun _ => []) (fun _ => []) ["w".toList]
      ["bin".toList, "w".toList] ["w".toList] ["bin".toList, "w".toList] :=
  fun h => absurd h.sources (by decide +kernel)

end ReadTools

end AgentPlatform
