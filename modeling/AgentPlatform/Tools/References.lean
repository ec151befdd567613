import AgentPlatform.Retrieval.SymbolPatterns
import AgentPlatform.Tools.ReadTools

/-!
# Tools/References — what `find_references` leaves out

The tool searches the tree for the identifier as a word and drops the matches of every file that
defines a symbol of that name, unless none would be left.

* `dropsOnlyDefinitions_iff` — only declarations are dropped exactly if the files that define the
  symbol hold nothing else that matches, or no other file matches.
-/

namespace AgentPlatform

open PosixPath Symlinks

namespace ReadTools

/-! ## Matches and definitions -/

section References

variable (py : PyRuntime) (disk : Disk) (contents : Contents) (root : Location) (needle : Text)

/-- `rf"\b{needle}\b"`. -/
def wordPattern : Text := "\\b".toList ++ needle ++ "\\b".toList

/-- Every matching line of the tree. -/
def wordMatches : List Match :=
  (sourceTexts py disk contents root).flatMap (fileMatches py root (wordPattern needle))

/-- The symbols of that name, in either case. -/
def namesakes : List Parser.Symbol :=
  (indexSymbols py disk contents root).filter fun symbol => py.lower symbol.name = py.lower needle

/-- The match is the first line of a symbol of that name. -/
def IsDeclaration (m : Match) : Prop :=
  ∃ symbol ∈ namesakes py disk contents root needle, symbol.filePath = m.path ∧
    symbol.startLine = m.lineNumber

/-- The match lies in a file that defines a symbol of that name. -/
def InDefiningFile (m : Match) : Prop :=
  m.path ∈ (namesakes py disk contents root needle).map (·.filePath)

instance (m : Match) : Decidable (InDefiningFile py disk contents root needle m) :=
  inferInstanceAs (Decidable (_ ∈ _))

/-- `references` of `FindReferencesTool.run`. -/
def references : List Match :=
  let others := (wordMatches py disk contents root needle).filter fun m =>
    ¬ InDefiningFile py disk contents root needle m
  if others = [] then wordMatches py disk contents root needle else others

/-- What the tool returns of a list of references. -/
def reportReferences (symbol : String) (references : List Match) : ReadResult :=
  if references = [] then .success s!"no references to '{symbol}'" []
  else .success (String.intercalate "\n" (references.map Match.render))
    [("files", .texts (sortedSet (references.map (·.path)))), ("count", .number references.length)]

/-- **Only definitions are dropped**: the tool reports its references, and among them every match
that is not a declaration. -/
structure DropsOnlyDefinitions (symbol : String) : Prop where
  reported : findReferences py disk contents root symbol = .ok (reportReferences symbol
    (references py disk contents root (Text.strip symbol.toList)))
  kept : ∀ m ∈ wordMatches py disk contents root (Text.strip symbol.toList),
    ¬ IsDeclaration py disk contents root (Text.strip symbol.toList) m →
      m ∈ references py disk contents root (Text.strip symbol.toList)

end References

/-- An identifier between word boundaries is an expression. -/
def CompilesWords (py : PyRuntime) : Prop :=
  ∀ needle, py.isIdentifier needle = true → py.compileError (wordPattern needle) = none

section Kept

variable {py : PyRuntime} {disk : Disk} {contents : Contents} {root : Location} {needle : Text}

/-- **The tool reports its references**, while there are fewer matches than it takes. -/
theorem findReferences_eq (hpy : CompilesWords py) (symbol : String)
    (hident : py.isIdentifier (Text.strip symbol.toList) = true)
    (hfew : (wordMatches py disk contents root (Text.strip symbol.toList)).length < maxResults) :
    findReferences py disk contents root symbol = .ok (reportReferences symbol
      (references py disk contents root (Text.strip symbol.toList))) := by
  have hsearch : searchPython py disk contents root
    (wordPattern (Text.strip symbol.toList)) none maxResults
      = .ok (wordMatches py disk contents root (Text.strip symbol.toList)) := by
    rw [searchPython, hpy _ hident]
    simp only [Option.getD_none, ne_eq, not_true_eq_false, false_and, if_false,
      decide_true, Bool.true_or, List.filter_true]
    rw [← wordMatches, List.take_of_length_le hfew.le]
  rw [findReferences]
  dsimp only
  rw [if_pos hident, ← wordPattern, hsearch]
  exact (apply_ite Except.ok _ _ _).symm

/-- What is kept is kept whole: the other files, or everything. -/
theorem mem_references_iff {m : Match} (hm : m ∈ wordMatches py disk contents root needle) :
    m ∈ references py disk contents root needle ↔ ¬ InDefiningFile py disk contents root needle m ∨
      ∀ m' ∈ wordMatches py disk contents root needle,
      InDefiningFile py disk contents root needle m' := by
  rw [references]
  split_ifs with hnone
  · refine iff_of_true hm (.inr fun m' hm' => ?_)
    simpa using List.filter_eq_nil_iff.mp hnone m' hm'
  · rw [List.mem_filter, and_iff_right hm, decide_eq_true_eq, or_iff_left]
    exact fun hall => hnone (List.filter_eq_nil_iff.mpr fun m' hm' => by simpa using hall m' hm')

end Kept

/-- **When only definitions are dropped**: exactly if each match in a file that defines the symbol
is a declaration, or every match is in such a file. -/
theorem dropsOnlyDefinitions_iff (py : PyRuntime) (hpy : CompilesWords py) (disk : Disk)
    (contents : Contents) (root : Location) (symbol : String)
    (hident : py.isIdentifier (Text.strip symbol.toList) = true)
    (hfew : (wordMatches py disk contents root (Text.strip symbol.toList)).length < maxResults) :
    DropsOnlyDefinitions py disk contents root symbol ↔
      (∀ m ∈ wordMatches py disk contents root (Text.strip symbol.toList),
        InDefiningFile py disk contents root (Text.strip symbol.toList) m →
          IsDeclaration py disk contents root (Text.strip symbol.toList) m) ∨
      ∀ m ∈ wordMatches py disk contents root (Text.strip symbol.toList),
        InDefiningFile py disk contents root (Text.strip symbol.toList) m := by
  constructor
  · intro h
    by_cases hall : ∀ m ∈ wordMatches py disk contents root (Text.strip symbol.toList),
        InDefiningFile py disk contents root (Text.strip symbol.toList) m
    · exact .inr hall
    · refine .inl fun m hm hdefining => by_contra fun hdeclared => ?_
      rcases (mem_references_iff hm).mp (h.kept m hm hdeclared) with hother | hevery
      · exact hother hdefining
      · exact hall hevery
  · intro h
    refine ⟨findReferences_eq hpy symbol hident hfew, fun m hm hdeclared =>
      (mem_references_iff hm).mpr ?_⟩
    exact h.imp (fun honly hdefining => hdeclared (honly m hm hdefining)) id

/-! ## A call in the file of the definition -/

/-- The identifier between word boundaries, in either case. -/
def wordRe (needle : Text) : Regex.Pattern :=
  Regex.Pattern.seqs [.boundary Regex.Unicode.ascii.isWord,
    Regex.Pattern.seqs (needle.map fun c => .one fun d => d.toLower = c.toLower),
    .boundary Regex.Unicode.ascii.isWord]

/-- A runtime that searches for identifiers. -/
def wordPy : PyRuntime :=
  { Parser.symbolPy with
    search := fun pattern line =>
      ((wordRe ((pattern.drop 2).take (pattern.length - 4))).search line).isSome }

/-- A workspace `/w` with two Python files. -/
def callsDisk : Disk where
  entries := [(["w".toList], .dir), (["w".toList, "a.py".toList], .file),
    (["w".toList, "b.py".toList], .file)]
  below := by decide
  unique := by decide
  parents := by decide

/-- The first file defines and calls `f`, the second one calls it. -/
def calls : Contents := fun path =>
  if path = ["w".toList, "a.py".toList] then asciiBytes "def f(): 0\nf()\n" else asciiBytes "f()\n"

theorem compilesWords_wordPy : CompilesWords wordPy := fun _ _ => rfl

theorem dropsOnlyDefinitions_calls :
    DropsOnlyDefinitions wordPy callsDisk calls ["w".toList] "f" ↔
      (∀ m ∈ wordMatches wordPy callsDisk calls ["w".toList] (Text.strip "f".toList),
        InDefiningFile wordPy callsDisk calls ["w".toList] (Text.strip "f".toList) m →
          IsDeclaration wordPy callsDisk calls ["w".toList] (Text.strip "f".toList) m) ∨
      ∀ m ∈ wordMatches wordPy callsDisk calls ["w".toList] (Text.strip "f".toList),
        InDefiningFile wordPy callsDisk calls ["w".toList] (Text.strip "f".toList) m :=
  dropsOnlyDefinitions_iff wordPy compilesWords_wordPy callsDisk calls ["w".toList] "f"
    (by decide +kernel)
    (by decide +kernel)

/-- **The call next to the definition is left out.** -/
theorem calls_drops_call : ¬ DropsOnlyDefinitions wordPy callsDisk calls ["w".toList] "f" := by
  intro h
  have hmatch : ⟨"a.py".toList, 2, "f()".toList⟩ ∈
      wordMatches wordPy callsDisk calls ["w".toList] (Text.strip "f".toList) := by decide +kernel
  have hsymbols : namesakes wordPy callsDisk calls ["w".toList] (Text.strip "f".toList)
      = [⟨"f".toList, "function".toList, "a.py".toList, 1, 1, "python"⟩] := by decide +kernel
  have hkept := h.kept _ hmatch fun ⟨symbol, hsymbol, _, hline⟩ => by
    rw [hsymbols, List.mem_singleton] at hsymbol
    rw [hsymbol] at hline
    exact absurd hline (by decide)
  exact absurd hkept (by decide +kernel)

end ReadTools

end AgentPlatform
