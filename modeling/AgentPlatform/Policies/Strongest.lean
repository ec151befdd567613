import AgentPlatform.Policies.Coverage
import Mathlib.Data.List.Perm.Subperm

/-!
# Policies/Strongest — the decision as the top of what is asked for

`evaluate` collects findings rule by rule and threshold by threshold, and folds them.  What it
decides depends on none of that order: the action is the strongest of those asked for by the rules
that react and by the thresholds that are exceeded, the risk the highest of theirs
(`strongestWins`).
-/

namespace AgentPlatform

theorem strength_injective : Function.Injective PolicyAction.strength := by
  intro a b h
  cases a <;> cases b <;> simp_all [PolicyAction.strength]

theorem order_injective : Function.Injective RiskLevel.order := by
  intro a b h
  cases a <;> cases b <;> simp_all [RiskLevel.order]

namespace PolicyEngine

/-! ## What is asked for -/

section Asked

variable (engine : PolicyEngine) (files : List String) (diff : String) (linesChanged : Option ℤ)
  (applyScopeThresholds : Bool)

/-- The rule matches a file, or its content the added lines. -/
def Reacts (r : Rule) : Prop :=
  (∃ p ∈ files, r.matchesPath engine.runtime p = true) ∨
    (addedLinesOf diff ≠ [] ∧ r.matchesContent engine.runtime (addedLinesOf diff) = true)

/-- More files than `max_files_changed`. -/
def Sprawls : Prop := engine.thresholds.maxFilesChanged.getD 12 < (files.length : ℤ)

/-- More lines than `max_lines_changed`. -/
def IsLarge : Prop := ∃ lines, linesChanged = some lines ∧
    engine.thresholds.maxLinesChanged.getD 800 < lines

/-- At least `medium_risk_files` files. -/
def IsMultiFile : Prop := engine.thresholds.mediumRiskFiles.getD 4 ≤ (files.length : ℤ)

/-- **The actions asked for.** -/
inductive Asked : PolicyAction → Prop
  | allow : Asked .allow
  | rule {r : Rule} (hr : r ∈ engine.rules) (h : engine.Reacts files diff r) : Asked r.action
  | scope (hscope : applyScopeThresholds = true)
      (h : engine.Sprawls files ∨ engine.IsLarge linesChanged) : Asked .humanApproval

/-- **The risks reported.** -/
inductive Reported : RiskLevel → Prop
  | low : Reported .low
  | rule {r : Rule} (hr : r ∈ engine.rules) (h : engine.Reacts files diff r) : Reported r.risk
  | sprawl (hscope : applyScopeThresholds = true) (h : engine.Sprawls files) : Reported .high
  | large (hscope : applyScopeThresholds = true)
    (h : engine.IsLarge linesChanged) : Reported .medium
  | multi (hscope : applyScopeThresholds = true) (h : engine.IsMultiFile files) : Reported .medium

/-- `lines_changed` grows: a count does, and no count may become one. -/
def LinesGrow (lines lines' : Option ℤ) : Prop := ∀ n, lines = some n → ∃ m, lines' = some m ∧ n ≤ m

/-- **The strongest rule wins.** -/
structure StrongestWins : Prop where
  action : Ranking.IsTop PolicyAction.strength
    {a | engine.Asked files diff linesChanged applyScopeThresholds a}
    (engine.evaluate files diff linesChanged applyScopeThresholds).action
  risk : Ranking.IsTop RiskLevel.order
    {l | engine.Reported files diff linesChanged applyScopeThresholds l}
    (engine.evaluate files diff linesChanged applyScopeThresholds).risk
  /-- The order of rules and files does not matter. -/
  order : ∀ (rules : List Rule) (files' : List String), rules.Perm engine.rules →
    files'.Perm files →
    let decision :=
      { engine with rules := rules }.evaluate files' diff linesChanged applyScopeThresholds
    decision.action = (engine.evaluate files diff linesChanged applyScopeThresholds).action ∧
      decision.risk = (engine.evaluate files diff linesChanged applyScopeThresholds).risk
  /-- More files, or more lines of the same diff, weaken nothing. -/
  grows : ∀ (files' : List String) (linesChanged' : Option ℤ), files.Subperm files' →
    LinesGrow linesChanged linesChanged' →
    let decision := engine.evaluate files' diff linesChanged' applyScopeThresholds
    (engine.evaluate files diff linesChanged applyScopeThresholds).action.strength
        ≤ decision.action.strength ∧
      (engine.evaluate files diff linesChanged applyScopeThresholds).risk.order
      ≤ decision.risk.order

end Asked

/-! ## The findings are what is asked for -/

section Findings

variable {engine : PolicyEngine} {files : List String} {diff : String} {linesChanged : Option ℤ}
  {applyScopeThresholds : Bool}

/-- The findings `evaluate` resolves. -/
def foundBy (engine : PolicyEngine) (files : List String) (diff : String) (linesChanged : Option ℤ)
    (applyScopeThresholds : Bool) : List PolicyFinding :=
  engine.rules.filterMap (engine.ruleFinding files (addedLinesOf diff)) ++
    if applyScopeThresholds then engine.scopeFindings files linesChanged else []

theorem evaluate_eq_resolve : engine.evaluate files diff linesChanged applyScopeThresholds
    = resolve (engine.foundBy files diff linesChanged applyScopeThresholds) := by
  have hadded : (if diff = "" then [] else addedLinesOf diff) = addedLinesOf diff := by
    split_ifs with h
    · rw [h]
      rfl
    · rfl
  cases applyScopeThresholds with
  | false => simp [evaluate, hadded, foundBy]
  | true => simp [evaluate, hadded, foundBy]

/-- The findings of the rules. -/
theorem mem_ruleFindings {f : PolicyFinding} :
    f ∈ engine.rules.filterMap (engine.ruleFinding files (addedLinesOf diff)) ↔
      ∃ r ∈ engine.rules, engine.Reacts files diff r ∧
        engine.ruleFinding files (addedLinesOf diff) r = some f := by
  rw [List.mem_filterMap]
  refine exists_congr fun r => and_congr_right fun _ => ?_
  refine ⟨fun h => ⟨?_, h⟩, fun h => h.2⟩
  exact (engine.isSome_ruleFinding_iff r ⟨files, addedLinesOf diff, 0⟩).mp
    (Option.isSome_of_eq_some h)

theorem exists_of_reacts {r : Rule} (h : engine.Reacts files diff r) :
    ∃ f, engine.ruleFinding files (addedLinesOf diff) r = some f :=
  Option.isSome_iff_exists.mp
    ((engine.isSome_ruleFinding_iff r ⟨files, addedLinesOf diff, 0⟩).mpr h)

/-- The findings of the thresholds. -/
theorem mem_scopeFindings {f : PolicyFinding} (h : f ∈ engine.scopeFindings files linesChanged) :
    (f.action = .humanApproval ∧ f.risk = .high ∧ engine.Sprawls files) ∨
      (f.action = .humanApproval ∧ f.risk = .medium ∧ engine.IsLarge linesChanged) ∨
      (f.action = .allow ∧ f.risk = .medium ∧ engine.IsMultiFile files) := by
  simp only [scopeFindings, List.mem_append, List.mem_ite_nil_right,
    List.mem_singleton, or_assoc] at h
  rcases h with ⟨hsprawls, rfl⟩ | hlarge | ⟨hmulti, rfl⟩
  · exact .inl ⟨rfl, rfl, hsprawls⟩
  · refine .inr (.inl ?_)
    split at hlarge
    · rename_i lines
      obtain ⟨hlines, hf⟩ := List.mem_ite_nil_right.mp hlarge
      obtain rfl := List.mem_singleton.mp hf
      exact ⟨rfl, rfl, lines, rfl, hlines⟩
    · cases hlarge
  · exact .inr (.inr ⟨rfl, rfl, hmulti⟩)

theorem exists_sprawl (h : engine.Sprawls files) :
    ∃ f ∈ engine.scopeFindings files linesChanged, f.action = .humanApproval ∧ f.risk = .high := by
  simp only [scopeFindings, List.mem_append, List.mem_ite_nil_right, List.mem_singleton, or_assoc]
  exact ⟨_, .inl ⟨h, rfl⟩, rfl, rfl⟩

theorem exists_large (h : engine.IsLarge linesChanged) :
    ∃ f ∈ engine.scopeFindings files linesChanged, f.action = .humanApproval ∧
    f.risk = .medium := by
  obtain ⟨lines, rfl, hlines⟩ := h
  simp only [scopeFindings, List.mem_append, List.mem_ite_nil_right, List.mem_singleton, or_assoc]
  exact ⟨_, .inr (.inl ⟨hlines, rfl⟩), rfl, rfl⟩

theorem exists_multi (h : engine.IsMultiFile files) :
    ∃ f ∈ engine.scopeFindings files linesChanged, f.action = .allow ∧ f.risk = .medium := by
  simp only [scopeFindings, List.mem_append, List.mem_ite_nil_right, List.mem_singleton, or_assoc]
  exact ⟨_, .inr (.inr ⟨h, rfl⟩), rfl, rfl⟩

theorem mem_foundBy_of_scope {f : PolicyFinding} (hscope : applyScopeThresholds = true)
    (hf : f ∈ engine.scopeFindings files linesChanged) :
    f ∈ engine.foundBy files diff linesChanged applyScopeThresholds := by
  rw [foundBy, if_pos hscope]
  exact List.mem_append_right _ hf

/-- **The actions of the findings, with `ALLOW`, are those asked for.** -/
theorem asked_iff {a : PolicyAction} :
    engine.Asked files diff linesChanged applyScopeThresholds a ↔
      a = .allow ∨ a ∈ (engine.foundBy files diff linesChanged applyScopeThresholds).map
        (·.action) := by
  constructor
  · rintro (_ | ⟨hr, h⟩ | ⟨hscope, h | h⟩)
    · exact .inl rfl
    · obtain ⟨f, hf⟩ := exists_of_reacts h
      refine .inr (List.mem_map.mpr ⟨f, List.mem_append_left _ ?_,
        (engine.ruleFinding_fields hf).1⟩)
      exact List.mem_filterMap.mpr ⟨_, hr, hf⟩
    · obtain ⟨f, hf, haction, -⟩ := exists_sprawl h
      exact .inr (List.mem_map.mpr ⟨f, mem_foundBy_of_scope hscope hf, haction⟩)
    · obtain ⟨f, hf, haction, -⟩ := exists_large h
      exact .inr (List.mem_map.mpr ⟨f, mem_foundBy_of_scope hscope hf, haction⟩)
  · rintro (rfl | ha)
    · exact .allow
    · obtain ⟨f, hf, rfl⟩ := List.mem_map.mp ha
      rw [foundBy, List.mem_append, mem_ruleFindings, List.mem_ite_nil_right] at hf
      rcases hf with ⟨r, hr, hreacts, hf⟩ | ⟨hscope, hf⟩
      · rw [(engine.ruleFinding_fields hf).1]
        exact .rule hr hreacts
      · rcases mem_scopeFindings hf with ⟨haction, -, h⟩ | ⟨haction, -, h⟩ | ⟨haction, -, -⟩
        · exact haction ▸ .scope hscope (.inl h)
        · exact haction ▸ .scope hscope (.inr h)
        · exact haction ▸ .allow

/-- **The risks of the findings, with `LOW`, are those reported.** -/
theorem reported_iff {l : RiskLevel} :
    engine.Reported files diff linesChanged applyScopeThresholds l ↔
      l = .low ∨ l ∈ (engine.foundBy files diff linesChanged applyScopeThresholds).map
        (·.risk) := by
  constructor
  · rintro (_ | ⟨hr, h⟩ | ⟨hscope, h⟩ | ⟨hscope, h⟩ | ⟨hscope, h⟩)
    · exact .inl rfl
    · obtain ⟨f, hf⟩ := exists_of_reacts h
      refine .inr (List.mem_map.mpr ⟨f, List.mem_append_left _ ?_,
        (engine.ruleFinding_fields hf).2⟩)
      exact List.mem_filterMap.mpr ⟨_, hr, hf⟩
    · obtain ⟨f, hf, -, hrisk⟩ := exists_sprawl h
      exact .inr (List.mem_map.mpr ⟨f, mem_foundBy_of_scope hscope hf, hrisk⟩)
    · obtain ⟨f, hf, -, hrisk⟩ := exists_large h
      exact .inr (List.mem_map.mpr ⟨f, mem_foundBy_of_scope hscope hf, hrisk⟩)
    · obtain ⟨f, hf, -, hrisk⟩ := exists_multi h
      exact .inr (List.mem_map.mpr ⟨f, mem_foundBy_of_scope hscope hf, hrisk⟩)
  · rintro (rfl | hl)
    · exact .low
    · obtain ⟨f, hf, rfl⟩ := List.mem_map.mp hl
      rw [foundBy, List.mem_append, mem_ruleFindings, List.mem_ite_nil_right] at hf
      rcases hf with ⟨r, hr, hreacts, hf⟩ | ⟨hscope, hf⟩
      · rw [(engine.ruleFinding_fields hf).2]
        exact .rule hr hreacts
      · rcases mem_scopeFindings hf with ⟨-, hrisk, h⟩ | ⟨-, hrisk, h⟩ | ⟨-, hrisk, h⟩
        · exact hrisk ▸ .sprawl hscope h
        · exact hrisk ▸ .large hscope h
        · exact hrisk ▸ .multi hscope h

/-- **The action is the strongest of those asked for.** -/
theorem isTop_action : Ranking.IsTop PolicyAction.strength
    {a | engine.Asked files diff linesChanged applyScopeThresholds a}
    (engine.evaluate files diff linesChanged applyScopeThresholds).action := by
  rw [evaluate_eq_resolve, action_resolve]
  exact (Ranking.isTop_best PolicyAction.strength .allow _).congr fun _ => asked_iff.symm

/-- **The risk is the highest of those reported.** -/
theorem isTop_risk : Ranking.IsTop RiskLevel.order
    {l | engine.Reported files diff linesChanged applyScopeThresholds l}
    (engine.evaluate files diff linesChanged applyScopeThresholds).risk := by
  rw [evaluate_eq_resolve, resolve]
  exact (Ranking.isTop_best RiskLevel.order .low _).congr fun _ => reported_iff.symm

end Findings

/-! ## Wider changes -/

section Wider

variable {engine engine' : PolicyEngine} {files files' : List String} {diff : String}
  {linesChanged linesChanged' : Option ℤ} {applyScopeThresholds : Bool}

/-- **More rules, more files, more lines**, all else equal. -/
structure Wider (engine engine' : PolicyEngine) (files files' : List String)
    (linesChanged linesChanged' : Option ℤ) : Prop where
  rules : engine.rules ⊆ engine'.rules
  thresholds : engine'.thresholds = engine.thresholds
  runtime : engine'.runtime = engine.runtime
  subset : files ⊆ files'
  length : files.length ≤ files'.length
  lines : LinesGrow linesChanged linesChanged'

theorem linesGrow_refl (lines : Option ℤ) : LinesGrow lines lines := fun n h => ⟨n, h, le_rfl⟩

namespace Wider

variable (h : Wider engine engine' files files' linesChanged linesChanged')
include h

theorem reacts {r : Rule} (hr : engine.Reacts files diff r) : engine'.Reacts files' diff r := by
  rw [Reacts, h.runtime]
  exact hr.imp_left fun ⟨p, hp, hmatch⟩ => ⟨p, h.subset hp, hmatch⟩

theorem sprawls (hs : engine.Sprawls files) : engine'.Sprawls files' := by
  rw [Sprawls, h.thresholds]
  rw [Sprawls] at hs
  have hlength := h.length
  omega

theorem isLarge (hs : engine.IsLarge linesChanged) : engine'.IsLarge linesChanged' := by
  obtain ⟨n, hn, hlt⟩ := hs
  obtain ⟨m, hm, hle⟩ := h.lines n hn
  exact ⟨m, hm, by rw [h.thresholds]; omega⟩

theorem isMultiFile (hs : engine.IsMultiFile files) : engine'.IsMultiFile files' := by
  rw [IsMultiFile, h.thresholds]
  rw [IsMultiFile] at hs
  have hlength := h.length
  omega

theorem asked {a : PolicyAction}
    (ha : engine.Asked files diff linesChanged applyScopeThresholds a) :
    engine'.Asked files' diff linesChanged' applyScopeThresholds a := by
  cases ha with
  | allow => exact .allow
  | rule hr hreacts => exact .rule (h.rules hr) (h.reacts hreacts)
  | scope hscope hexceeds => exact .scope hscope (hexceeds.imp h.sprawls h.isLarge)

theorem reported {l : RiskLevel}
    (hl : engine.Reported files diff linesChanged applyScopeThresholds l) :
    engine'.Reported files' diff linesChanged' applyScopeThresholds l := by
  cases hl with
  | low => exact .low
  | rule hr hreacts => exact .rule (h.rules hr) (h.reacts hreacts)
  | sprawl hscope hs => exact .sprawl hscope (h.sprawls hs)
  | large hscope hs => exact .large hscope (h.isLarge hs)
  | multi hscope hs => exact .multi hscope (h.isMultiFile hs)

/-- **A wider change is decided no more weakly.** -/
theorem evaluate_le (diff : String) (applyScopeThresholds : Bool) :
    (engine.evaluate files diff linesChanged applyScopeThresholds).action.strength
        ≤ (engine'.evaluate files' diff linesChanged' applyScopeThresholds).action.strength ∧
      (engine.evaluate files diff linesChanged applyScopeThresholds).risk.order
        ≤ (engine'.evaluate files' diff linesChanged' applyScopeThresholds).risk.order :=
  ⟨isTop_action.rank_le isTop_action fun _ => h.asked,
    isTop_risk.rank_le isTop_risk fun _ => h.reported⟩

end Wider

theorem wider_of_perm {rules : List Rule} (hrules : rules.Perm engine.rules)
    (hfiles : files'.Perm files) :
    Wider engine { engine with rules := rules } files files' linesChanged linesChanged :=
  ⟨hrules.symm.subset, rfl, rfl, hfiles.symm.subset, hfiles.symm.length_eq.le, linesGrow_refl _⟩

theorem wider_of_perm_symm {rules : List Rule} (hrules : rules.Perm engine.rules)
    (hfiles : files'.Perm files) :
    Wider { engine with rules := rules } engine files' files linesChanged linesChanged :=
  ⟨hrules.subset, rfl, rfl, hfiles.subset, hfiles.length_eq.le, linesGrow_refl _⟩

end Wider

/-- **The decision is the strongest action and the highest risk of what reacts**, in whatever order
rules and files are listed, and more files or lines never weaken it. -/
theorem strongestWins (engine : PolicyEngine) (files : List String) (diff : String)
    (linesChanged : Option ℤ) (applyScopeThresholds : Bool) :
    engine.StrongestWins files diff linesChanged applyScopeThresholds where
  action := isTop_action
  risk := isTop_risk
  order rules files' hrules hfiles := by
    obtain ⟨haction, hrisk⟩ := (wider_of_perm_symm hrules hfiles).evaluate_le diff
      applyScopeThresholds
    obtain ⟨haction', hrisk'⟩ := (wider_of_perm hrules hfiles).evaluate_le diff applyScopeThresholds
    exact ⟨strength_injective (Nat.le_antisymm haction haction'),
      order_injective (Nat.le_antisymm hrisk hrisk')⟩
  grows files' linesChanged' hfiles hlines := by
    have hwider : Wider engine engine files files' linesChanged linesChanged' :=
      ⟨List.Subset.refl _, rfl, rfl, List.Subperm.subset hfiles,
        List.Subperm.length_le hfiles, hlines⟩
    exact hwider.evaluate_le diff applyScopeThresholds

end PolicyEngine

end AgentPlatform
