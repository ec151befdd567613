import AgentPlatform.Retrieval.SymbolPatterns

/-!
# Retrieval/SymbolRanges — the lines of a symbol

Whichever way its end is found, a symbol begins at a line that is not blank and ends there or later,
within the file (`ranged_of_mem`).
-/

namespace AgentPlatform

namespace Parser

open Regex

variable {lines : List Text} {i : ℕ}

/-! ## Ends -/

theorem blockEndFrom_bounds {total offset : ℕ} (depth : ℤ) (opened : Bool) (lines : List Text)
    (htotal : offset + lines.length = total) (h : offset < total) :
    offset + 1 ≤ blockEndFrom total depth opened offset lines ∧
      blockEndFrom total depth opened offset lines ≤ total := by
  induction lines generalizing depth opened offset with
  | nil => exact ⟨h, le_refl _⟩
  | cons line lines ih =>
    rw [List.length_cons] at htotal
    rw [blockEndFrom]
    split
    · omega
    · next depth opened _ =>
      by_cases hnil : lines = []
      · rw [hnil, blockEndFrom]
        omega
      · have hpos := List.length_pos_of_ne_nil hnil
        have hnext : offset + 1 + lines.length = total := by omega
        have hrest := ih depth opened hnext (by omega)
        omega

theorem blockEnd_bounds (h : i < lines.length) : i + 1 ≤ blockEnd lines i ∧
    blockEnd lines i ≤ lines.length :=
  blockEndFrom_bounds 0 false (lines.drop i) (by rw [List.length_drop]; omega) h

/-- The line belongs to what the other one opens: it is blank, or indented further. -/
def Belongs (line next : Text) : Prop := Text.strip next = [] ∨ indent line < indent next

theorem not_belongs_iff {line next : Text} :
    ¬ Belongs line next ↔ Text.strip next ≠ [] ∧ indent next ≤ indent line := by
  rw [Belongs, not_or, Nat.not_lt]

/-- **The end of a Python definition**: what lies before it belongs to the definition, what stands
there does not. -/
theorem pythonEnd_spec (line : Text) (h : i < lines.length) :
    i < pythonEnd lines i line ∧ pythonEnd lines i line ≤ lines.length ∧
      (∀ j next, lines[j]? = some next → i < j → j < pythonEnd lines i line → Belongs line next) ∧
      ∀ next, lines[pythonEnd lines i line]? = some next → ¬ Belongs line next := by
  rw [pythonEnd]
  split
  next stop offset hfind =>
    obtain ⟨hstop, m, hm, hat, hbefore⟩ := List.find?_eq_some_iff_getElem.mp hfind
    rw [List.length_drop, List.length_zipIdx] at hm
    simp only [List.getElem_drop, List.getElem_zipIdx, Prod.mk.injEq, Nat.zero_add] at hat
    obtain ⟨rfl, rfl⟩ := hat
    refine ⟨by omega, by omega, fun j next hj hij hjm => ?_, fun next hnext => ?_⟩
    · have hskip := hbefore (j - (i + 1)) (by omega)
      obtain ⟨hbound, hat⟩ := List.getElem?_eq_some_iff.mp hj
      simp only [List.getElem_drop, List.getElem_zipIdx,
        Nat.add_sub_cancel' (Nat.succ_le_of_lt hij), hat, Bool.not_eq_true',
        decide_eq_false_iff_not] at hskip
      exact not_not.mp fun hnot => hskip (not_belongs_iff.mp hnot)
    · rw [List.getElem?_eq_getElem (by omega)] at hnext
      obtain rfl := Option.some.inj hnext
      exact not_belongs_iff.mpr (of_decide_eq_true hstop)
  next hnone =>
    refine ⟨h, le_refl _, fun j next hj hij _ => ?_, fun next hnext => ?_⟩
    · have hmem : (next, j) ∈ lines.zipIdx.drop (i + 1) := by
        refine List.mem_of_getElem? (i := j - (i + 1)) ?_
        rw [List.getElem?_drop, Nat.add_sub_cancel' (Nat.succ_le_of_lt hij),
          List.getElem?_zipIdx, hj, Option.map_some, Nat.zero_add]
      have hskip := List.find?_eq_none.mp hnone _ hmem
      exact not_not.mp fun hnot => hskip (decide_eq_true (not_belongs_iff.mp hnot))
    · simp at hnext

/-! ## Symbols -/

/-- **A symbol of a file**: it begins at a line that is not blank, and ends there or later. -/
structure Ranged (lines : List Text) (symbol : Symbol) : Prop where
  first : ∃ line, lines[symbol.startLine - 1]? = some line ∧ Text.strip line ≠ []
  start : 1 ≤ symbol.startLine
  ordered : symbol.startLine ≤ symbol.endLine
  finish : symbol.endLine ≤ lines.length

theorem ranged_of_getElem? {symbol : Symbol} {line : Text} (hline : lines[i]? = some line)
    (hblank : Text.strip line ≠ []) (hstart : symbol.startLine = i + 1)
    (hfinish : i + 1 ≤ symbol.endLine ∧ symbol.endLine ≤ lines.length) : Ranged lines symbol where
  first := ⟨line, by rw [hstart]; exact hline, hblank⟩
  start := by omega
  ordered := by omega
  finish := hfinish.2

variable {U : Unicode} {py : PyRuntime} {filePath content : Text} {symbol : Symbol}

theorem ranged_parseCsharp (h : symbol ∈ parseCsharp py filePath lines) : Ranged lines symbol := by
  obtain ⟨⟨line, i⟩, hline, hsymbol⟩ := List.mem_filterMap.mp h
  rw [List.mem_zipIdx_iff_getElem?] at hline
  have hend := blockEnd_bounds (List.getElem?_eq_some_iff.mp hline).1
  dsimp only at hsymbol
  split at hsymbol
  next => cases hsymbol
  next hnot =>
    have hblank : Text.strip line ≠ [] := fun hnil => hnot (.inl hnil)
    split at hsymbol
    next =>
      cases hsymbol
      exact ranged_of_getElem? hline hblank rfl hend
    next =>
      split at hsymbol
      next =>
        split at hsymbol
        next => cases hsymbol
        next =>
          cases hsymbol
          exact ranged_of_getElem? hline hblank rfl hend
      next => cases hsymbol

theorem ranged_parsePython (hpy : ReadsSymbols U py) (h : symbol ∈ parsePython py filePath lines) :
    Ranged lines symbol := by
  obtain ⟨⟨line, i⟩, hline, hsymbol⟩ := List.mem_filterMap.mp h
  rw [List.mem_zipIdx_iff_getElem?] at hline
  obtain ⟨groups, hgroups, rfl⟩ := Option.map_eq_some_iff.mp hsymbol
  obtain ⟨hlow, hhigh, -⟩ := pythonEnd_spec line (List.getElem?_eq_some_iff.mp hline).1
  exact ranged_of_getElem? hline (strip_ne_nil_of_groups hpy (.inl rfl) hgroups) rfl ⟨hlow, hhigh⟩

theorem ranged_parseBraced {language : String} (hpy : ReadsSymbols U py)
    (h : symbol ∈ parseBraced py filePath lines tsDef language) : Ranged lines symbol := by
  obtain ⟨⟨line, i⟩, hline, hsymbol⟩ := List.mem_filterMap.mp h
  rw [List.mem_zipIdx_iff_getElem?] at hline
  obtain ⟨groups, hgroups, rfl⟩ := Option.map_eq_some_iff.mp hsymbol
  exact ranged_of_getElem? hline (strip_ne_nil_of_groups hpy (.inr rfl) hgroups) rfl
    (blockEnd_bounds (List.getElem?_eq_some_iff.mp hline).1)

/-- **Every symbol of a file is one of its ranges**, in any language. -/
theorem ranged_of_mem (hpy : ReadsSymbols U py) (h : symbol ∈ parseSymbols py filePath content) :
    Ranged (Text.splitlines content) symbol := by
  rw [parseSymbols] at h
  split_ifs at h
  · exact ranged_parseCsharp h
  · exact ranged_parsePython hpy h
  · exact ranged_parseBraced hpy h
  · cases h

end Parser

end AgentPlatform
