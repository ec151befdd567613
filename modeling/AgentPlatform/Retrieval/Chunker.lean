import AgentPlatform.Retrieval.Scanner
import AgentPlatform.Retrieval.SymbolRanges
import Mathlib.Order.Interval.Finset.Nat

/-!
# Retrieval/Chunker — files in pieces

`chunk_file` cuts a file at its symbols, and a file without a usable one into windows of lines that
overlap.

* `exists_windowed` — the loop over the windows stops; they cover the file, each overlaps the next
  in exactly the lines it should, and no line that is not blank is lost.
* `exactSlices_iff` — chunks are the slices they say they are, and within the bound exactly if no
  symbol is one line longer than it.
-/

namespace AgentPlatform

namespace Chunker

open Scanner

/-- `MAX_CHUNK_LINES`. -/
def maxChunkLines : ℕ := 160

/-- `WINDOW_LINES`. -/
def windowLines : ℕ := 80

/-- `WINDOW_OVERLAP`. -/
def windowOverlap : ℕ := 15

/-- `Chunk`. -/
structure Chunk where
  filePath : Text
  language : String
  content : Text
  startLine : ℕ
  endLine : ℕ
  symbolName : Option Text
  symbolKind : Option Text
  deriving DecidableEq, Repr

/-- `_slice`, from a line of at least 1. -/
def slice (lines : List Text) (start finish : ℕ) : Text :=
  Text.join ['\n'] ((lines.take finish).drop (start - 1))

section Windows

variable (file : ScannedFile) (lines : List Text)

/-- The chunk of a window, unless it is blank. -/
def windowChunk (start finish : ℕ) : List Chunk :=
  if Text.strip (slice lines start finish) = [] then []
  else [⟨file.relativePath, file.language, slice lines start finish, start, finish, none, none⟩]

/-- The loop of `_window_chunks`, from a start, with the chunks so far; `none` if the passes do not
suffice. -/
def windowLoop : ℕ → ℕ → List Chunk → Option (List Chunk)
  | 0, _, _ => none
  | passes + 1, start, chunks =>
    if start ≤ lines.length then
      let finish := min lines.length (start + windowLines - 1)
      let chunks := chunks ++ windowChunk file lines start finish
      if finish = lines.length then some chunks
      else windowLoop passes (finish - windowOverlap + 1) chunks
    else some chunks

/-- `_window_chunks`. -/
def windowChunks : List Chunk := (windowLoop file lines (lines.length + 1) 1 []).getD []

/-! ## The windows -/

/-- The windows of the loop from a start, as first and last line. -/
def windowsFrom (total : ℕ) : ℕ → ℕ → Option (List (ℕ × ℕ))
  | 0, _ => none
  | passes + 1, start =>
    if start ≤ total then
      let finish := min total (start + windowLines - 1)
      if finish = total then some [(start, finish)]
      else (windowsFrom total passes (finish - windowOverlap + 1)).map ((start, finish) :: ·)
    else some []

/-- The chunks of a list of windows. -/
def chunksOf (windows : List (ℕ × ℕ)) : List Chunk :=
  windows.flatMap fun window => windowChunk file lines window.1 window.2

/-- **The loop emits the chunks of its windows.** -/
theorem windowLoop_eq (passes start : ℕ) (chunks : List Chunk) :
    windowLoop file lines passes start chunks
      = (windowsFrom lines.length passes start).map fun windows =>
        chunks ++ chunksOf file lines windows := by
  induction passes generalizing start chunks with
  | zero => rfl
  | succ passes ih =>
    rw [windowLoop, windowsFrom]
    by_cases hstart : start ≤ lines.length
    · rw [if_pos hstart, if_pos hstart]
      dsimp only
      split_ifs with hlast
      · simp [chunksOf]
      · rw [ih, Option.map_map]
        congr 1
        funext windows
        simp [chunksOf]
    · rw [if_neg hstart, if_neg hstart]
      simp [chunksOf]

/-- **Windows of a file from a start**: each as long as it may be, the next one so far back, the
last one up to the end. -/
inductive Cut (total : ℕ) : ℕ → List (ℕ × ℕ) → Prop where
  | last {start : ℕ} : start ≤ total → total < start + windowLines →
    Cut total start [(start, total)]
  | more {start : ℕ} {windows : List (ℕ × ℕ)} : start + windowLines ≤ total →
      Cut total (start + windowLines - windowOverlap) windows →
      Cut total start ((start, start + windowLines - 1) :: windows)

/-- **The loop stops**, in as many passes as there are lines left, with the windows of the file. -/
theorem exists_cut {total start : ℕ} (hpos : 1 ≤ start) (hstart : start ≤ total) :
    ∃ windows, Cut total start windows ∧
      ∀ passes, total < passes + start → windowsFrom total passes start = some windows := by
  have hlines : windowLines = 80 := rfl
  have hoverlap : windowOverlap = 15 := rfl
  induction hn : total - start using Nat.strong_induction_on generalizing start with
  | _ n ih =>
    by_cases hlast : total < start + windowLines
    · refine ⟨[(start, total)], .last hstart hlast, fun passes hpasses => ?_⟩
      obtain ⟨passes, rfl⟩ := Nat.exists_eq_succ_of_ne_zero (show passes ≠ 0 by omega)
      have hfinish : min total (start + windowLines - 1) = total := by omega
      rw [windowsFrom, if_pos hstart, hfinish]
      exact if_pos rfl
    · have hnext : start + windowLines - windowOverlap ≤ total := by omega
      obtain ⟨windows, hcut, hwindows⟩ :=
        ih (total - (start + windowLines - windowOverlap)) (by omega)
        (by omega) hnext rfl
      refine ⟨_, .more (Nat.not_lt.mp hlast) hcut, fun passes hpasses => ?_⟩
      obtain ⟨passes, rfl⟩ := Nat.exists_eq_succ_of_ne_zero (show passes ≠ 0 by omega)
      have hfinish : min total (start + windowLines - 1) = start + windowLines - 1 := by omega
      have hback : start + windowLines - 1 - windowOverlap + 1 = start
          + windowLines - windowOverlap := by
        omega
      rw [windowsFrom, if_pos hstart, hfinish]
      dsimp only
      rw [if_neg (by omega), hback, hwindows passes (by omega)]
      rfl

namespace Cut

variable {total start : ℕ} {windows : List (ℕ × ℕ)}

/-- The first window begins at the start. -/
theorem head (h : Cut total start windows) :
    ∃ finish rest, windows = (start, finish) :: rest ∧ start ≤ finish ∧ finish ≤ total ∧
      (rest ≠ [] → finish = start + windowLines - 1) ∧ (rest = [] → finish = total) := by
  cases h with
  | last hstart _ => exact ⟨total, [], rfl, hstart, le_refl _, by simp, fun _ => rfl⟩
  | more hlong hcut =>
    have hlines : windowLines = 80 := rfl
    refine ⟨_, _, rfl, by omega, by omega, fun _ => rfl, fun hnil => ?_⟩
    subst hnil
    cases hcut

/-- The last window ends at the last line. -/
theorem getLast? (h : Cut total start windows) : windows.getLast?.map Prod.snd = some total := by
  induction h with
  | last => rfl
  | more _ hcut ih =>
    obtain ⟨_, _, rfl, -⟩ := hcut.head
    rwa [List.getLast?_cons_cons]

theorem bounds (h : Cut total start windows) :
    ∀ w ∈ windows, start ≤ w.1 ∧ w.1 ≤ w.2 ∧ w.2 ≤ total ∧ w.2 < w.1 + windowLines := by
  have hlines : windowLines = 80 := rfl
  have hoverlap : windowOverlap = 15 := rfl
  induction h with
  | last hstart hlast => simpa using ⟨hstart, hlast⟩
  | more hlong _ ih =>
    refine List.forall_mem_cons.mpr ⟨⟨le_refl _, ?_⟩, fun w hw => ?_⟩
    · dsimp only
      omega
    · have hw := ih w hw
      omega

/-- **Consecutive windows share exactly the lines they should.** -/
theorem overlap (h : Cut total start windows) :
    windows.IsChain fun v w => (Finset.Icc v.1 v.2 ∩ Finset.Icc w.1 w.2).card = windowOverlap := by
  induction h with
  | last => exact .singleton _
  | @more start windows hlong hcut ih =>
    have hlines : windowLines = 80 := rfl
    have hoverlap : windowOverlap = 15 := rfl
    obtain ⟨finish, rest, rfl, hle, -, hmore, hlast⟩ := hcut.head
    refine List.isChain_cons_cons.mpr ⟨?_, ih⟩
    have hfinish : start + windowLines - 1 ≤ finish := by
      by_cases hnil : rest = []
      · rw [hlast hnil]
        omega
      · rw [hmore hnil]
        omega
    have hshared : Finset.Icc start (start + windowLines - 1)
        ∩ Finset.Icc (start + windowLines - windowOverlap) finish
        = Finset.Icc (start + windowLines - windowOverlap) (start + windowLines - 1) := by
      ext k
      simp only [Finset.mem_inter, Finset.mem_Icc]
      omega
    rw [hshared, Nat.card_Icc]
    omega

/-- **Every line from the start on is in a window.** -/
theorem covers (h : Cut total start windows) {k : ℕ} (hk : start ≤ k) (hk' : k ≤ total) :
    ∃ w ∈ windows, w.1 ≤ k ∧ k ≤ w.2 := by
  have hlines : windowLines = 80 := rfl
  have hoverlap : windowOverlap = 15 := rfl
  induction h with
  | last => exact ⟨_, List.mem_singleton_self _, hk, hk'⟩
  | @more start _ hlong _ ih =>
    by_cases hnow : k ≤ start + windowLines - 1
    · exact ⟨_, List.mem_cons_self, hk, hnow⟩
    · obtain ⟨w, hw, hmem⟩ := ih (by omega)
      exact ⟨w, List.mem_cons_of_mem _ hw, hmem⟩

end Cut

/-! ## The chunks of a file without symbols -/

variable {file lines}

/-- A chunk of windows is one of them, and not blank. -/
theorem mem_chunksOf {windows : List (ℕ × ℕ)} {chunk : Chunk} :
    chunk ∈ chunksOf file lines windows ↔ ∃ w ∈ windows, Text.strip (slice lines w.1 w.2) ≠ [] ∧
      chunk = ⟨file.relativePath, file.language, slice lines w.1 w.2, w.1, w.2, none, none⟩ := by
  rw [chunksOf, List.mem_flatMap]
  refine exists_congr fun w => and_congr_right fun _ => ?_
  rw [windowChunk]
  split_ifs with hblank
  · simp [hblank]
  · simp [hblank]

/-- A line of a slice. -/
theorem mem_slice_lines {start finish i : ℕ} {line : Text} (hline : lines[i]? = some line)
    (hstart : start ≤ i + 1) (hfinish : i + 1 ≤ finish) :
    line ∈ (lines.take finish).drop (start - 1) := by
  refine List.mem_of_getElem? (i := i - (start - 1)) ?_
  rw [List.getElem?_drop, List.getElem?_take_of_lt (by omega), ← hline]
  congr 1
  omega

/-- **What the loop over the windows does**, with these windows. -/
structure Windowed (file : ScannedFile) (lines : List Text) (windows : List (ℕ × ℕ)) : Prop where
  /-- The loop stops, and emits a chunk for each window that is not blank. -/
  stops : ∀ passes, lines.length < passes →
    windowsFrom lines.length passes 1 = some windows ∧
      windowLoop file lines passes 1 [] = some (chunksOf file lines windows)
  first : lines ≠ [] → windows.head?.map Prod.fst = some 1
  last : lines ≠ [] → windows.getLast?.map Prod.snd = some lines.length
  bounded : ∀ w ∈ windows, 1 ≤ w.1 ∧ w.1 ≤ w.2 ∧ w.2 ≤ lines.length ∧ w.2 + 1 - w.1 ≤ windowLines
  overlap : windows.IsChain fun v w =>
    (Finset.Icc v.1 v.2 ∩ Finset.Icc w.1 w.2).card = windowOverlap
  /-- No line that is not blank is lost. -/
  covers : ∀ i line, lines[i]? = some line → Text.strip line ≠ [] →
    ∃ chunk ∈ windowChunks file lines, chunk.startLine ≤ i + 1 ∧ i + 1 ≤ chunk.endLine

/-- **The windows stop and cover the file.** -/
theorem exists_windowed (file : ScannedFile)
    (lines : List Text) : ∃ windows, Windowed file lines windows := by
  have hloop (windows : List (ℕ × ℕ)) (hstops : ∀ passes, lines.length < passes →
      windowsFrom lines.length passes 1 = some windows) : ∀ passes, lines.length < passes →
      windowsFrom lines.length passes 1 = some windows ∧
        windowLoop file lines passes 1 [] = some (chunksOf file lines windows) := by
    intro passes hpasses
    refine ⟨hstops passes hpasses, ?_⟩
    rw [windowLoop_eq, hstops passes hpasses]
    rfl
  rcases Nat.eq_zero_or_pos lines.length with hempty | hpos
  · obtain rfl := List.length_eq_zero_iff.mp hempty
    refine ⟨[], hloop [] fun passes hpasses => ?_, by simp, by simp, by simp, .nil, by simp⟩
    obtain ⟨passes, rfl⟩ := Nat.exists_eq_succ_of_ne_zero (Nat.ne_of_gt hpasses)
    rfl
  · obtain ⟨windows, hcut, hwindows⟩ := exists_cut (le_refl 1) hpos
    have hstops := hloop windows fun passes hpasses => hwindows passes (Nat.lt_succ_of_lt hpasses)
    refine ⟨windows, hstops, fun _ => ?_, fun _ => hcut.getLast?, fun w hw => ?_, hcut.overlap,
      fun i line hline hne => ?_⟩
    · obtain ⟨_, _, rfl, -⟩ := hcut.head
      rfl
    · have hbounds := hcut.bounds w hw
      omega
    · have hi : i < lines.length := (List.getElem?_eq_some_iff.mp hline).1
      obtain ⟨w, hw, hlow, hhigh⟩ := hcut.covers (Nat.le_add_left 1 i) hi
      rw [windowChunks, (hstops _ (Nat.lt_succ_self _)).2, Option.getD_some]
      exact ⟨_, mem_chunksOf.mpr ⟨w, hw,
        Text.strip_join_ne_nil (mem_slice_lines hline hlow hhigh) hne, rfl⟩, hlow, hhigh⟩

end Windows

/-! ## The chunks of a file -/

section Symbols

variable (py : PyRuntime) (file : ScannedFile)

/-- The symbols of a file. -/
def symbolsOf : List Parser.Symbol := Parser.parseSymbols py file.relativePath file.content

/-- The chunk of a symbol. -/
def symbolChunk (lines : List Text) (symbol : Parser.Symbol) : Chunk :=
  ⟨file.relativePath, file.language, slice lines symbol.startLine symbol.endLine, symbol.startLine,
    symbol.endLine, some symbol.name, some symbol.kind⟩

/-- `chunk_file`. -/
def chunkFile : List Chunk :=
  let lines := Text.splitlines file.content
  if lines = [] then []
  else
    let usable := (symbolsOf py file).filter fun symbol =>
      symbol.endLine ≥ symbol.startLine ∧ symbol.endLine - symbol.startLine ≤ maxChunkLines
    if usable = [] then windowChunks file lines
    else (usable.map (symbolChunk file lines)).filter fun chunk => Text.strip chunk.content ≠ []

/-- **A chunk is a bounded slice of the lines.** -/
structure ExactSlice (lines : List Text) (chunk : Chunk) : Prop where
  start : 1 ≤ chunk.startLine
  ordered : chunk.startLine ≤ chunk.endLine
  finish : chunk.endLine ≤ lines.length
  content : chunk.content = Text.join ['\n'] ((lines.take chunk.endLine).drop (chunk.startLine - 1))
  not_blank : Text.strip chunk.content ≠ []
  bounded : chunk.endLine + 1 - chunk.startLine ≤ maxChunkLines

/-- **Chunks are exact, bounded slices**, and there are some where there is something to cut. -/
structure ExactSlices : Prop where
  slices : ∀ chunk ∈ chunkFile py file, ExactSlice (Text.splitlines file.content) chunk
  some_chunk : (∃ line ∈ Text.splitlines file.content, Text.strip line ≠ []) →
    (symbolsOf py file = [] ∨
      ∃ symbol ∈ symbolsOf py file, symbol.endLine + 1 - symbol.startLine ≤ maxChunkLines) →
    chunkFile py file ≠ []

end Symbols

section Slices

open AgentPlatform.Parser

variable {U : Regex.Unicode} {py : PyRuntime} {file : ScannedFile} {lines : List Text}
  {symbol : Symbol} {chunk : Chunk}

theorem ExactSlice.of_windowChunks
    (h : chunk ∈ windowChunks file lines) : ExactSlice lines chunk := by
  obtain ⟨windows, hwindowed⟩ := exists_windowed file lines
  rw [windowChunks, (hwindowed.stops _ (Nat.lt_succ_self _)).2, Option.getD_some] at h
  obtain ⟨w, hw, hblank, rfl⟩ := mem_chunksOf.mp h
  obtain ⟨hstart, hordered, hfinish, hlength⟩ := hwindowed.bounded w hw
  exact ⟨hstart, hordered, hfinish, rfl, hblank, hlength.trans (by decide)⟩

/-- The chunk of a symbol is not blank: its first line is not. -/
theorem strip_symbolChunk (h : Ranged lines symbol) :
    Text.strip (symbolChunk file lines symbol).content ≠ [] := by
  obtain ⟨line, hline, hblank⟩ := h.first
  have hstart := h.start
  have hordered := h.ordered
  exact Text.strip_join_ne_nil (mem_slice_lines hline (by omega) (by omega)) hblank

theorem mem_chunkFile_of_usable (hpy : ReadsSymbols U py) (hsymbol : symbol ∈ symbolsOf py file)
    (hlength : symbol.endLine - symbol.startLine ≤ maxChunkLines) :
    symbolChunk file (Text.splitlines file.content) symbol ∈ chunkFile py file := by
  have hranged := ranged_of_mem hpy hsymbol
  have husable : symbol ∈ (symbolsOf py file).filter fun symbol =>
      symbol.endLine ≥ symbol.startLine ∧ symbol.endLine - symbol.startLine ≤ maxChunkLines :=
    List.mem_filter.mpr ⟨hsymbol, decide_eq_true ⟨hranged.ordered, hlength⟩⟩
  have hlines : Text.splitlines file.content ≠ [] := by
    have hstart := hranged.start
    have hordered := hranged.ordered
    have hfinish := hranged.finish
    exact List.ne_nil_of_length_pos (by omega)
  rw [chunkFile]
  dsimp only
  rw [if_neg hlines, if_neg (List.ne_nil_of_mem husable)]
  exact List.mem_filter.mpr ⟨List.mem_map_of_mem husable,
    decide_eq_true (strip_symbolChunk hranged)⟩

/-- A chunk is a window, or the chunk of a symbol that is short enough for the filter. -/
theorem chunkFile_cases (h : chunk ∈ chunkFile py file) :
    chunk ∈ windowChunks file (Text.splitlines file.content) ∨
      ∃ symbol ∈ symbolsOf py file, symbol.endLine - symbol.startLine ≤ maxChunkLines ∧
        chunk = symbolChunk file (Text.splitlines file.content) symbol := by
  rw [chunkFile] at h
  dsimp only at h
  split_ifs at h
  · cases h
  · exact .inl h
  · obtain ⟨hchunk, -⟩ := List.mem_filter.mp h
    obtain ⟨symbol, husable, rfl⟩ := List.mem_map.mp hchunk
    obtain ⟨hsymbol, hlength⟩ := List.mem_filter.mp husable
    exact .inr ⟨symbol, hsymbol, (of_decide_eq_true hlength).2, rfl⟩

/-- A file with something in it has a chunk, if a symbol is usable or none is. -/
theorem chunkFile_ne_nil (hpy : ReadsSymbols U py)
    (hline : ∃ line ∈ Text.splitlines file.content, Text.strip line ≠ []) :
    chunkFile py file ≠ [] := by
  obtain ⟨line, hmem, hblank⟩ := hline
  by_cases husable : ∃ symbol ∈ symbolsOf py file, symbol.endLine - symbol.startLine ≤ maxChunkLines
  · obtain ⟨symbol, hsymbol, hlength⟩ := husable
    exact List.ne_nil_of_mem (mem_chunkFile_of_usable hpy hsymbol hlength)
  · have hnone : ((symbolsOf py file).filter fun symbol =>
        symbol.endLine ≥ symbol.startLine ∧
          symbol.endLine - symbol.startLine ≤ maxChunkLines) = [] :=
      List.filter_eq_nil_iff.mpr fun symbol hsymbol h =>
        husable ⟨symbol, hsymbol, (of_decide_eq_true h).2⟩
    rw [chunkFile]
    dsimp only
    rw [if_neg (List.ne_nil_of_mem hmem), if_pos hnone]
    obtain ⟨windows, hwindowed⟩ := exists_windowed file (Text.splitlines file.content)
    obtain ⟨i, hi⟩ := List.mem_iff_getElem?.mp hmem
    obtain ⟨chunk, hchunk, -⟩ := hwindowed.covers i line hi hblank
    exact List.ne_nil_of_mem hchunk

end Slices

/-- **When chunks are exact, bounded slices**: exactly if no symbol spans one line more than the
bound. -/
theorem exactSlices_iff (U : Regex.Unicode) (py : PyRuntime) (hpy : Parser.ReadsSymbols U py)
    (file : ScannedFile) : ExactSlices py file ↔
      ∀ symbol ∈ symbolsOf py file, symbol.endLine - symbol.startLine ≠ maxChunkLines := by
  constructor
  · intro h symbol hsymbol heq
    have hbounded := (h.slices _ (mem_chunkFile_of_usable hpy hsymbol heq.le)).bounded
    have hordered := (Parser.ranged_of_mem hpy hsymbol).ordered
    rw [symbolChunk] at hbounded
    dsimp only at hbounded
    omega
  · intro h
    refine ⟨fun chunk hchunk => ?_, fun hline _ => chunkFile_ne_nil hpy hline⟩
    rcases chunkFile_cases hchunk with hwindow | ⟨symbol, hsymbol, hlength, rfl⟩
    · exact ExactSlice.of_windowChunks hwindow
    · have hranged := Parser.ranged_of_mem hpy hsymbol
      have hother := h symbol hsymbol
      have hordered := hranged.ordered
      refine ⟨hranged.start, hordered, hranged.finish, rfl, strip_symbolChunk hranged, ?_⟩
      rw [symbolChunk]
      dsimp only
      omega

/-- A function of 161 lines. -/
def longFile : ScannedFile :=
  ⟨["w".toList, "a.py".toList], "a.py".toList, "python",
    "def f():\n".toList ++ (List.replicate 160 "  x\n".toList).flatten⟩

theorem exactSlices_longFile : ExactSlices Parser.symbolPy longFile ↔
    ∀ symbol ∈ symbolsOf Parser.symbolPy longFile, symbol.endLine - symbol.startLine
      ≠ maxChunkLines :=
  exactSlices_iff .ascii Parser.symbolPy Parser.readsSymbols_symbolPy longFile

/-- **A chunk of one line too many.** -/
theorem longFile_overflows : ¬ ExactSlices Parser.symbolPy longFile := by
  intro h
  have hsymbol : ⟨"f".toList, "function".toList, "a.py".toList, 1, 161, "python"⟩ ∈
      symbolsOf Parser.symbolPy longFile := by decide +kernel
  have hbounded := (h.slices _ (mem_chunkFile_of_usable Parser.readsSymbols_symbolPy hsymbol
    (by decide))).bounded
  exact absurd hbounded (by decide)

end Chunker

end AgentPlatform
