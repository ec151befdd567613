import AgentPlatform.Machinery.Regex
import AgentPlatform.Retrieval.Parser

/-!
# Retrieval/SymbolPatterns — the expressions a symbol is found by

The four expressions of the parser, as `re` matches them at the start of a line, and what it means
that a runtime matches them so.

* `strip_ne_nil_of_groups` — a line that one of them matches is not blank.
-/

namespace AgentPlatform

namespace Parser

open Regex Pattern

/-! ## The expressions -/

/-- `\s*`. -/
def blanks : Pattern := many true (one Text.isSpace)

/-- `\s+`. -/
def someBlanks : Pattern := plus (one Text.isSpace)

/-- Alternatives, the first one first. -/
def alts : List String → Pattern → Pattern
  | [], last => last
  | w :: ws, last => alt (word w) (alts ws last)

/-- `[A-Za-z_]`. -/
def isNameStart (c : Char) : Bool := c.isAlpha || c = '_'

variable (U : Unicode)

/-- `[A-Za-z_]\w*`. -/
def nameRe : Pattern := seq (one isNameStart) (many true (one U.isWord))

/-- `_CSHARP_TYPE`. -/
def csharpTypeRe : Pattern :=
  seqs [blanks, many true (alts ["public", "internal", "private", "protected", "sealed",
    "static", "abstract", "partial"] (one Text.isSpace)), boundary U.isWord,
    .group 1 (alts ["class", "interface", "record", "struct"] (word "enum")), someBlanks,
    .group 2 (nameRe U)]

/-- `_CSHARP_MEMBER`. -/
def csharpMemberRe : Pattern :=
  seqs [blanks, plus (alts ["public", "internal", "private", "protected", "static",
    "async", "virtual", "override", "sealed"] (one Text.isSpace)),
    plus (seqs [one isNameStart, many true (one fun c =>
      U.isWord c || c ∈ ['<', '>', ',', '[', ']', '.', '?']), someBlanks]), .group 1 (nameRe U),
        blanks, word "("]

/-- `_PYTHON_DEF`. -/
def pythonDefRe : Pattern :=
  seqs [blanks, .group 1 (alts ["class"] (word "def")), someBlanks, .group 2 (nameRe U)]

/-- `_TS_DEF`. -/
def tsDefRe : Pattern :=
  seqs [blanks, opt (seq (word "export") someBlanks), opt (seq (word "default") someBlanks),
    .group 1 (alts ["class", "interface", "type", "function"] (word "const")), someBlanks,
    .group 2 (seq (one fun c => isNameStart c || c = '$')
      (many true (one fun c => U.isWord c || c = '$')))]

/-- `pattern.match(line)`, with the groups by their names. -/
def matchGroups (p : Pattern) (names : List (String × ℕ))
    (line : Text) : Option (List (String × Text)) :=
  (p.matchAt [] line).map fun m => names.map fun (name, n) => (name, m.group n)

/-- **The runtime matches the parser's expressions as `re` does.** -/
structure ReadsSymbols (py : PyRuntime) : Prop where
  csharpType : ∀ line, py.groups csharpType line
    = matchGroups (csharpTypeRe U) [("kind", 1), ("name", 2)] line
  csharpMember : ∀ line, py.groups csharpMember line
    = matchGroups (csharpMemberRe U) [("name", 1)] line
  pythonDef : ∀ line, py.groups pythonDef line
    = matchGroups (pythonDefRe U) [("kind", 1), ("name", 2)] line
  tsDef : ∀ line, py.groups tsDef line = matchGroups (tsDefRe U) [("kind", 1), ("name", 2)] line

/-! ## A matched line -/

variable {U}

theorem strip_ne_nil_of_matchGroups {p : Pattern} {names : List (String × ℕ)} {line : Text}
    {groups : List (String × Text)} (hp : p.Needs fun c => !Text.isSpace c)
    (h : matchGroups p names line = some groups) : Text.strip line ≠ [] := by
  obtain ⟨m, hm, -⟩ := Option.map_eq_some_iff.mp h
  obtain ⟨s', hs', -⟩ := run_ends hm
  obtain ⟨c, hc, hspace⟩ := exists_mem_of_needs hp hs'
  intro hnil
  rw [Text.strip_eq_nil_iff.mp hnil c hc] at hspace
  cases hspace

/-- **A line that defines something is not blank.** -/
theorem strip_ne_nil_of_groups {py : PyRuntime} (hpy : ReadsSymbols U py) {line : Text}
    {groups : List (String × Text)} {pattern : String}
    (hpattern : pattern = pythonDef ∨ pattern = tsDef)
    (h : py.groups pattern line = some groups) : Text.strip line ≠ [] := by
  rcases hpattern with rfl | rfl
  · rw [hpy.pythonDef] at h
    refine strip_ne_nil_of_matchGroups (p := pythonDefRe U) (Or.inr (Or.inl ⟨?_, ?_⟩)) h
    · exact needs_word (by decide)
    · exact needs_word (by decide)
  · rw [hpy.tsDef] at h
    refine strip_ne_nil_of_matchGroups (p := tsDefRe U)
      (Or.inr (Or.inr (Or.inr (Or.inl ⟨?_, ?_, ?_, ?_, ?_⟩)))) h <;>
      exact needs_word (by decide)

/-- A runtime that matches the four expressions, on text without letters beyond ASCII. -/
def symbolPy : PyRuntime where
  lower := fun t => t.map Char.toLower
  isIdentifier := fun t => t.head?.any isNameStart && t.all Unicode.ascii.isWord
  compileError := fun _ => none
  search := fun _ _ => false
  groups := fun pattern line =>
    if pattern = csharpType then matchGroups (csharpTypeRe .ascii) [("kind", 1), ("name", 2)] line
    else if pattern = csharpMember then matchGroups (csharpMemberRe .ascii) [("name", 1)] line
    else if pattern = pythonDef then
      matchGroups (pythonDefRe .ascii) [("kind", 1), ("name", 2)] line
    else if pattern = tsDef then matchGroups (tsDefRe .ascii) [("kind", 1), ("name", 2)] line
    else none
  findall := fun _ _ => []

theorem readsSymbols_symbolPy : ReadsSymbols .ascii symbolPy := by
  have htype : csharpMember ≠ csharpType ∧ pythonDef ≠ csharpType ∧
    tsDef ≠ csharpType := by decide +kernel
  have hmember : pythonDef ≠ csharpMember ∧ tsDef ≠ csharpMember ∧
    tsDef ≠ pythonDef := by decide +kernel
  constructor <;> intro line <;> rw [symbolPy] <;> dsimp only
  · rw [if_pos rfl]
  · rw [if_neg htype.1, if_pos rfl]
  · rw [if_neg htype.2.1, if_neg hmember.1, if_pos rfl]
  · rw [if_neg htype.2.2, if_neg hmember.2.1, if_neg hmember.2.2, if_pos rfl]

end Parser

end AgentPlatform
