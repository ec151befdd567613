import AgentPlatform.Retrieval.SymbolRanges

/-!
# Retrieval/PythonBodies — whether a Python symbol includes its body

A header may go on over several lines, and its suite follows the last of them.  `_parse_python` ends
a symbol by the indentation of the lines behind its first one, and a header that closes its brackets
in its own column is such a line.

* `laminar_parsePython` — two symbols of a file are nested or disjoint.
* `includesBody_iff` — a symbol includes its suite exactly if its header goes on indented.
-/

namespace AgentPlatform

namespace Parser

open Regex

instance (line next : Text) : Decidable (Belongs line next) := inferInstanceAs (Decidable (_ ∨ _))

/-- **A definition of a source**, by the indices of its lines: the header from `first` to `last`,
and the suite up to `stop`, of lines that are blank or indented further than the header's first
one. -/
structure Definition (py : PyRuntime) (lines : List Text) where
  first : ℕ
  last : ℕ
  stop : ℕ
  line : Text
  line_eq : lines[first]? = some line
  header : (py.groups pythonDef line).isSome = true
  ordered : first ≤ last ∧ last < stop ∧ stop ≤ lines.length
  suite : ∀ j next, lines[j]? = some next → last < j → j < stop → Belongs line next

section Bodies

variable {py : PyRuntime} {lines : List Text}

/-- Some symbol begins with the definition and ends no earlier than its suite. -/
def IncludesBody (symbols : List Symbol) (d : Definition py lines) : Prop :=
  ∃ symbol ∈ symbols, symbol.startLine = d.first + 1 ∧
    ∀ j next, lines[j]? = some next → d.last < j → j < d.stop → Text.strip next ≠ [] →
      j + 1 ≤ symbol.endLine

/-- Two symbols are nested or disjoint. -/
def NestedOrDisjoint (s t : Symbol) : Prop :=
  (s.startLine ≤ t.startLine ∧ t.endLine ≤ s.endLine) ∨
    (t.startLine ≤ s.startLine ∧ s.endLine ≤ t.endLine) ∨
    s.endLine < t.startLine ∨ t.endLine < s.startLine

/-! ## Nested or disjoint -/

/-- What begins inside a definition, ends inside it. -/
theorem pythonEnd_le {i k : ℕ} {line inner : Text} (hi : lines[i]? = some line)
    (hk : lines[k]? = some inner) (hinner : Text.strip inner ≠ []) (hik : i < k)
    (hkend : k < pythonEnd lines i line) : pythonEnd lines k inner ≤ pythonEnd lines i line := by
  obtain ⟨-, hlength, hbefore, hstop⟩ := pythonEnd_spec line (List.getElem?_eq_some_iff.mp hi).1
  obtain ⟨-, hlength', hbefore', -⟩ := pythonEnd_spec inner (List.getElem?_eq_some_iff.mp hk).1
  have hdeeper : indent line < indent inner := (hbefore k inner hk hik hkend).resolve_left hinner
  refine Nat.not_lt.mp fun hlt => ?_
  -- The line that stops the outer definition would belong to the inner one.
  obtain ⟨next, hnext⟩ : ∃ next, lines[pythonEnd lines i line]? = some next :=
    ⟨_, List.getElem?_eq_getElem (Nat.lt_of_lt_of_le hlt hlength')⟩
  obtain ⟨hblank, hindent⟩ := not_belongs_iff.mp (hstop next hnext)
  rcases hbefore' _ next hnext hkend hlt with hnil | hmore
  · exact hblank hnil
  · omega

variable {U : Unicode} {filePath : Text} {s t : Symbol}

/-- A symbol of a Python file, by its line. -/
theorem mem_parsePython (hpy : ReadsSymbols U py) (h : s ∈ parsePython py filePath lines) :
    ∃ i line, lines[i]? = some line ∧ Text.strip line ≠ [] ∧ s.startLine = i + 1 ∧
      s.endLine = pythonEnd lines i line := by
  obtain ⟨⟨line, i⟩, hline, hsymbol⟩ := List.mem_filterMap.mp h
  rw [List.mem_zipIdx_iff_getElem?] at hline
  obtain ⟨groups, hgroups, rfl⟩ := Option.map_eq_some_iff.mp hsymbol
  exact ⟨i, line, hline, strip_ne_nil_of_groups hpy (.inl rfl) hgroups, rfl, rfl⟩

/-- **Two symbols of a file are nested or disjoint.** -/
theorem laminar_parsePython (hpy : ReadsSymbols U py) (hs : s ∈ parsePython py filePath lines)
    (ht : t ∈ parsePython py filePath lines) : NestedOrDisjoint s t := by
  obtain ⟨i, line, hi, hline, hstart, hend⟩ := mem_parsePython hpy hs
  obtain ⟨k, inner, hk, hinner, hstart', hend'⟩ := mem_parsePython hpy ht
  rw [NestedOrDisjoint, hstart, hend, hstart', hend']
  rcases Nat.lt_trichotomy i k with hlt | rfl | hgt
  · by_cases hkend : k < pythonEnd lines i line
    · exact .inl ⟨by omega, pythonEnd_le hi hk hinner hlt hkend⟩
    · exact .inr (.inr (.inl (by omega)))
  · obtain rfl : line = inner := Option.some.inj (hi.symm.trans hk)
    exact .inl ⟨le_refl _, le_refl _⟩
  · by_cases hiend : i < pythonEnd lines k inner
    · exact .inr (.inl ⟨by omega, pythonEnd_le hk hi hline hgt hiend⟩)
    · exact .inr (.inr (.inr (by omega)))

/-! ## The suite -/

/-- The symbol of a definition. -/
theorem includesBody_iff_pythonEnd (d : Definition py lines) :
    IncludesBody (parsePython py filePath lines) d ↔
      ∀ j next, lines[j]? = some next → d.last < j → j < d.stop → Text.strip next ≠ [] →
        j + 1 ≤ pythonEnd lines d.first d.line := by
  obtain ⟨groups, hgroups⟩ := Option.isSome_iff_exists.mp d.header
  constructor
  · rintro ⟨symbol, hsymbol, hstart, hbody⟩
    obtain ⟨⟨line, i⟩, hline, hsymbol⟩ := List.mem_filterMap.mp hsymbol
    rw [List.mem_zipIdx_iff_getElem?] at hline
    obtain ⟨groups', -, rfl⟩ := Option.map_eq_some_iff.mp hsymbol
    obtain rfl : i = d.first := Nat.succ.inj hstart
    obtain rfl : line = d.line := Option.some.inj (hline.symm.trans d.line_eq)
    exact hbody
  · intro hbody
    have hmem : (d.line, d.first) ∈ lines.zipIdx := List.mem_zipIdx_iff_getElem?.mpr d.line_eq
    exact ⟨_, List.mem_filterMap.mpr ⟨_, hmem, Option.map_eq_some_iff.mpr ⟨groups, hgroups, rfl⟩⟩,
      rfl, hbody⟩

/-- The suite is blank, or the header goes on in lines that are blank or indented further. -/
def HeaderIndented (d : Definition py lines) : Prop :=
  (∀ j next, lines[j]? = some next → d.last < j → j < d.stop → Text.strip next = []) ∨
    ∀ j next, lines[j]? = some next → d.first < j → j ≤ d.last → Belongs d.line next

theorem le_pythonEnd_of_belongs (d : Definition py lines)
    (h : ∀ j next, lines[j]? = some next → d.first < j → j ≤ d.last → Belongs d.line next) :
    d.stop ≤ pythonEnd lines d.first d.line := by
  obtain ⟨hfirst, -, -, hstop⟩ := pythonEnd_spec d.line (List.getElem?_eq_some_iff.mp d.line_eq).1
  refine Nat.not_lt.mp fun hlt => ?_
  obtain ⟨next, hnext⟩ : ∃ next, lines[pythonEnd lines d.first d.line]? = some next :=
    ⟨_, List.getElem?_eq_getElem (Nat.lt_of_lt_of_le hlt d.ordered.2.2)⟩
  refine hstop next hnext ?_
  by_cases hlast : pythonEnd lines d.first d.line ≤ d.last
  · exact h _ next hnext hfirst hlast
  · exact d.suite _ next hnext (Nat.not_le.mp hlast) hlt

end Bodies

/-- **When a Python symbol includes its body**, nested or disjoint with any other: exactly if its
suite is blank, or its header goes on in lines that are blank or indented further than the first. -/
theorem includesBody_iff (U : Unicode) (py : PyRuntime) (hpy : ReadsSymbols U py) (filePath : Text)
    (lines : List Text) (d : Definition py lines) :
    (IncludesBody (parsePython py filePath lines) d ∧ ∀ s ∈ parsePython py filePath lines,
        ∀ t ∈ parsePython py filePath lines, NestedOrDisjoint s t) ↔ HeaderIndented d := by
  rw [and_iff_left fun s hs t ht => laminar_parsePython hpy hs ht, includesBody_iff_pythonEnd]
  obtain ⟨-, -, hbefore, -⟩ := pythonEnd_spec d.line (List.getElem?_eq_some_iff.mp d.line_eq).1
  constructor
  · intro hbody
    by_cases hheader : ∀ k next, lines[k]? = some next → d.first < k → k ≤ d.last →
      Belongs d.line next
    · exact .inr hheader
    · refine .inl fun j next hnext hlast hstop => by_contra fun hblank => ?_
      have hend := hbody j next hnext hlast hstop hblank
      exact hheader fun k closing hclosing hfirst hk => hbefore k closing hclosing hfirst (by omega)
  · rintro (hblank | hheader) j next hnext hlast hstop hne
    · exact absurd (hblank j next hnext hlast hstop) hne
    · exact Nat.le_trans hstop (le_pythonEnd_of_belongs d hheader)

/-- A header that closes its brackets in its own column. -/
def spread : List Text := ["def f(".toList, "    a,".toList, "):".toList, "    return a".toList]

/-- Its definition: the header to the third line, and one line of suite. -/
def spreadDefinition : Definition symbolPy spread where
  first := 0
  last := 2
  stop := 4
  line := "def f(".toList
  line_eq := rfl
  header := by decide +kernel
  ordered := by decide
  suite j next hnext hlast hstop := by
    obtain rfl : j = 3 := by omega
    obtain rfl := Option.some.inj hnext
    decide

theorem includesBody_spread :
    (IncludesBody (parsePython symbolPy "a.py".toList spread) spreadDefinition ∧
      ∀ s ∈ parsePython symbolPy "a.py".toList spread,
      ∀ t ∈ parsePython symbolPy "a.py".toList spread, NestedOrDisjoint s t) ↔
      HeaderIndented spreadDefinition :=
  includesBody_iff .ascii symbolPy readsSymbols_symbolPy "a.py".toList spread spreadDefinition

/-- **Its symbol ends with the header**, before the suite. -/
theorem spread_loses_body :
    ¬ (IncludesBody (parsePython symbolPy "a.py".toList spread) spreadDefinition ∧
      ∀ s ∈ parsePython symbolPy "a.py".toList spread,
      ∀ t ∈ parsePython symbolPy "a.py".toList spread, NestedOrDisjoint s t) := by
  rintro ⟨⟨symbol, hsymbol, -, hbody⟩, -⟩
  have hsymbols : parsePython symbolPy "a.py".toList spread
      = [⟨"f".toList, "function".toList, "a.py".toList, 1, 2, "python"⟩] := by decide +kernel
  rw [hsymbols, List.mem_singleton] at hsymbol
  have hend := hbody 3 "    return a".toList rfl (by decide) (by decide) (by decide)
  rw [hsymbol] at hend
  exact absurd hend (by decide)

end Parser

end AgentPlatform
