import AgentPlatform.Machinery.Ranking
import AgentPlatform.Policies.Evaluator

/-!
# Policies/Coverage — what a policy can tell of a change

`evaluate` sees a change through the basenames of its files, the fragments of their lowered paths,
the added lines, and two numbers.  One change **covers** another when every rule and every threshold
that reacts to the other reacts to it; `strength_le_iff_covers` says that this is exactly what makes
every policy at least as strict on it.
-/

namespace AgentPlatform

/-- A change, as `evaluate` looks at it. -/
structure PolicyInput where
  files : List String
  added : Text
  lines : ℤ

/-- **Everything a policy can react to in `a` is in `b`.** -/
structure Covers (lower : Text → Text) (a b : PolicyInput) : Prop where
  /-- Every basename. -/
  basename : ∀ p ∈ a.files, ∃ q ∈ b.files,
    Rule.basename (Rule.normalized q) = Rule.basename (Rule.normalized p)
  /-- Every fragment of a path. -/
  fragment : ∀ p ∈ a.files, ∃ q ∈ b.files,
    Text.contains (lower (Rule.normalized p)) (lower (Rule.normalized q)) = true
  files : a.files.length ≤ b.files.length
  lines : a.lines ≤ b.lines
  added : a.added ≠ [] → b.added = a.added

/-- `re.search` finds `\A…\Z`, around an escaped text, in that text alone. -/
def TextRuntime.Anchors (rt : TextRuntime) : Prop :=
  ∀ t u : Text, rt.search (Text.anchored t) u = true ↔ u = t

/-! ## The strongest finding -/

theorem action_resolve (fs : List PolicyFinding) :
    (resolve fs).action = Ranking.best PolicyAction.strength .allow (fs.map (·.action)) := by
  rw [resolve, Ranking.best, List.foldl_map]

/-- **The action is as strong as the strongest finding.** -/
theorem strength_resolve_le {fs : List PolicyFinding} {n : ℕ} :
    (resolve fs).action.strength ≤ n ↔ ∀ f ∈ fs, f.action.strength ≤ n := by
  rw [action_resolve, Ranking.rank_best_le, List.forall_mem_map, PolicyAction.strength]
  exact and_iff_right (Nat.zero_le n)

theorem strength_pos {action : PolicyAction} (h : action ≠ .allow) : 0 < action.strength := by
  cases action <;> simp_all [PolicyAction.strength]

theorem le_strength_resolve {fs : List PolicyFinding} {action : PolicyAction}
    (h : action ≠ .allow) :
    action.strength ≤ (resolve fs).action.strength ↔
    ∃ f ∈ fs, action.strength ≤ f.action.strength := by
  have hpos := strength_pos h
  have hbelow : (resolve fs).action.strength ≤ action.strength - 1 ↔ _ := strength_resolve_le
  rw [← not_iff_not]
  simp only [not_exists, not_and, not_le]
  rw [← Nat.le_sub_one_iff_lt hpos, hbelow]
  exact forall₂_congr fun f _ => Nat.le_sub_one_iff_lt hpos

namespace PolicyEngine

variable (engine : PolicyEngine) {a b : PolicyInput}

/-- The findings on a change. -/
def findings (a : PolicyInput) : List PolicyFinding :=
  engine.rules.filterMap (engine.ruleFinding a.files a.added)
    ++ engine.scopeFindings a.files (some a.lines)

/-- How strict the engine is on a change. -/
def strength (a : PolicyInput) : ℕ := (resolve (engine.findings a)).action.strength

theorem strength_evaluate (files : List String) (diff : String) (lines : ℤ) :
    (engine.evaluate files diff (some lines) true).action.strength
      = engine.strength ⟨files, addedLinesOf diff, lines⟩ := by
  have hadded : (if diff = "" then [] else addedLinesOf diff) = addedLinesOf diff := by
    split_ifs with h
    · rw [h]
      rfl
    · rfl
  simp only [evaluate, hadded, strength, findings, if_true]

/-- The rule reacts to the change. -/
def Hits (r : Rule) (a : PolicyInput) : Prop :=
  (∃ p ∈ a.files, r.matchesPath engine.runtime p = true) ∨
    (a.added ≠ [] ∧ r.matchesContent engine.runtime a.added = true)

/-- **A rule has a finding exactly when it reacts.** -/
theorem isSome_ruleFinding_iff (r : Rule) (a : PolicyInput) :
    (engine.ruleFinding a.files a.added r).isSome = true ↔ engine.Hits r a := by
  have hpaths : a.files.filter (r.matchesPath engine.runtime) ≠ [] ↔
      ∃ p ∈ a.files, r.matchesPath engine.runtime p = true := by
    simp [List.filter_eq_nil_iff]
  have hcontent : r.content ≠ [] ∧ a.added ≠ [] ∧ r.matchesContent engine.runtime a.added = true ↔
      a.added ≠ [] ∧ r.matchesContent engine.runtime a.added = true := by
    refine and_iff_right_of_imp fun h hnone => ?_
    simp [Rule.matchesContent, hnone] at h
  rw [Hits, ← hpaths, ← hcontent]
  by_cases hhit : a.files.filter (r.matchesPath engine.runtime) ≠ []
  · simp only [ruleFinding, if_pos hhit]
    exact iff_of_true rfl (.inl hhit)
  · by_cases hadded : r.content ≠ [] ∧ a.added ≠ [] ∧ r.matchesContent engine.runtime a.added = true
    · simp only [ruleFinding, if_neg hhit, if_pos hadded]
      exact iff_of_true rfl (.inr hadded)
    · simp only [ruleFinding, if_neg hhit, if_neg hadded]
      exact iff_of_false Bool.false_ne_true (not_or.mpr ⟨hhit, hadded⟩)

/-- …and the finding carries the rule's action and risk. -/
theorem ruleFinding_fields {r : Rule} {files : List String} {added : Text} {f : PolicyFinding}
    (h : engine.ruleFinding files added r = some f) : f.action = r.action ∧ f.risk = r.risk := by
  rw [ruleFinding] at h
  dsimp only at h
  split at h
  · obtain rfl := Option.some.inj h
    exact ⟨rfl, rfl⟩
  · split at h
    · obtain rfl := Option.some.inj h
      exact ⟨rfl, rfl⟩
    · exact absurd h (by simp)

/-- A rule that reacts contributes its action, and no other rule does. -/
theorem exists_ruleFinding_iff (r : Rule) (a : PolicyInput) {action : PolicyAction} :
    (∃ f, engine.ruleFinding a.files a.added r = some f ∧ f.action = action) ↔
      r.action = action ∧ engine.Hits r a := by
  rw [← isSome_ruleFinding_iff]
  constructor
  · rintro ⟨f, hf, rfl⟩
    exact ⟨(engine.ruleFinding_fields hf).1.symm, by rw [hf]; rfl⟩
  · rintro ⟨rfl, hsome⟩
    obtain ⟨f, hf⟩ := Option.isSome_iff_exists.mp hsome
    exact ⟨f, hf, (engine.ruleFinding_fields hf).1⟩

/-- The change exceeds a threshold that asks for approval. -/
def Exceeds (a : PolicyInput) : Prop :=
  engine.thresholds.maxFilesChanged.getD 12 < (a.files.length : ℤ) ∨
    engine.thresholds.maxLinesChanged.getD 800 < a.lines

/-- **The thresholds ask for approval exactly of a change that exceeds one.** -/
theorem exists_scopeFinding_iff (a : PolicyInput) {action : PolicyAction} (h : action ≠ .allow) :
    (∃ f ∈ engine.scopeFindings a.files (some a.lines), f.action = action) ↔
      action = .humanApproval ∧ engine.Exceeds a := by
  have hactions : (engine.scopeFindings a.files (some a.lines)).map (·.action)
      = (if (a.files.length : ℤ) > engine.thresholds.maxFilesChanged.getD 12
        then [.humanApproval] else [])
        ++ (if a.lines > engine.thresholds.maxLinesChanged.getD 800 then [.humanApproval] else [])
        ++ (if (a.files.length : ℤ) ≥ engine.thresholds.mediumRiskFiles.getD 4
          then [.allow] else []) := by
    simp only [scopeFindings, List.map_append,
      apply_ite (List.map PolicyFinding.action), List.map_cons, List.map_nil]
  rw [← List.mem_map, hactions, Exceeds]
  simp only [List.mem_append, List.mem_ite_nil_right, List.mem_singleton, h, and_false,
    or_false, gt_iff_lt]
  rw [← or_and_right, and_comm]

/-- **An engine is as strict as what reacts**: the action of a rule that does, or approval of a
change that exceeds a threshold. -/
theorem le_strength_iff (a : PolicyInput) {action : PolicyAction} (h : action ≠ .allow) :
    action.strength ≤ engine.strength a ↔
      ∃ strong : PolicyAction, action.strength ≤ strong.strength ∧
        ((∃ r ∈ engine.rules, r.action = strong ∧ engine.Hits r a) ∨
          (strong = .humanApproval ∧ engine.Exceeds a)) := by
  rw [strength, le_strength_resolve h]
  constructor
  · rintro ⟨f, hf, hle⟩
    have hne : f.action ≠ .allow := by
      intro hallow
      have hpos := strength_pos h
      rw [hallow, PolicyAction.strength] at hle
      omega
    refine ⟨f.action, hle, ?_⟩
    rw [findings, List.mem_append, List.mem_filterMap] at hf
    rcases hf with ⟨r, hr, hfound⟩ | hfound
    · exact .inl ⟨r, hr, (engine.exists_ruleFinding_iff r a).mp ⟨f, hfound, rfl⟩⟩
    · exact .inr ((engine.exists_scopeFinding_iff a hne).mp ⟨f, hfound, rfl⟩)
  · rintro ⟨strong, hle, ⟨r, hr, hreacts⟩ | hexceeds⟩
    · obtain ⟨f, hfound, rfl⟩ := (engine.exists_ruleFinding_iff r a).mpr hreacts
      exact ⟨f, List.mem_append_left _ (List.mem_filterMap.mpr ⟨r, hr, hfound⟩), hle⟩
    · have hne : strong ≠ .allow := by simp [hexceeds.1]
      obtain ⟨f, hfound, rfl⟩ := (engine.exists_scopeFinding_iff a hne).mpr hexceeds
      exact ⟨f, List.mem_append_right _ hfound, hle⟩

/-- A rule that reacts to a change reacts to one that covers it. -/
theorem Hits.of_covers {r : Rule} (h : engine.Hits r a)
    (hcovers : Covers engine.runtime.lower a b) :
    engine.Hits r b := by
  rcases h with ⟨p, hp, hmatch⟩ | ⟨hadded, hmatch⟩
  · rw [Rule.matchesPath, Bool.or_eq_true, List.any_eq_true, List.any_eq_true] at hmatch
    rcases hmatch with ⟨pattern, hpattern, hglob⟩ | ⟨fragment, hfragment, hfound⟩
    · obtain ⟨q, hq, hname⟩ := hcovers.basename p hp
      refine .inl ⟨q, hq, ?_⟩
      rw [Rule.matchesPath, Bool.or_eq_true, List.any_eq_true]
      exact .inl ⟨pattern, hpattern, by rw [hname, hglob]⟩
    · obtain ⟨q, hq, hwithin⟩ := hcovers.fragment p hp
      refine .inl ⟨q, hq, ?_⟩
      rw [Rule.matchesPath, Bool.or_eq_true, List.any_eq_true, List.any_eq_true]
      rw [Text.contains_iff_infix] at hfound hwithin
      exact .inr ⟨fragment, hfragment, Text.contains_iff_infix.mpr (hfound.trans hwithin)⟩
  · refine .inr ?_
    rw [hcovers.added hadded]
    exact ⟨hadded, hmatch⟩

theorem Exceeds.of_covers {lower : Text → Text} (h : engine.Exceeds a)
    (hcovers : Covers lower a b) :
    engine.Exceeds b := by
  rcases h with h | h
  · have hfiles := hcovers.files
    exact .inl (by omega)
  · have hlines := hcovers.lines
    exact .inr (by omega)

/-- **An engine is at least as strict on a change that covers another.** -/
theorem strength_mono (hcovers : Covers engine.runtime.lower a b) :
    engine.strength a ≤ engine.strength b := by
  by_cases hallow : (resolve (engine.findings a)).action = .allow
  · rw [strength, hallow]
    exact Nat.zero_le _
  · obtain ⟨strong, hle, hreacts⟩ := (engine.le_strength_iff a hallow).mp le_rfl
    refine (engine.le_strength_iff b hallow).mpr ⟨strong, hle, ?_⟩
    rcases hreacts with ⟨r, hr, haction, hhits⟩ | ⟨haction, hexceeds⟩
    · exact .inl ⟨r, hr, haction, hhits.of_covers engine hcovers⟩
    · exact .inr ⟨haction, hexceeds.of_covers engine hcovers⟩

end PolicyEngine

/-! ## Policies that tell two changes apart -/

section Probes

variable {rt : TextRuntime} {a b : PolicyInput}

/-- A rule that blocks. -/
def probe (patterns paths content : List String) : Rule :=
  ⟨"probe", .block, .high, "", patterns, paths, content⟩

/-- Every policy on this runtime is at least as strict on `b` as on `a`. -/
def AtLeastAsStrict (rt : TextRuntime) (a b : PolicyInput) : Prop :=
  ∀ rules thresholds, PolicyEngine.strength ⟨rules, thresholds, rt⟩ a
    ≤ PolicyEngine.strength ⟨rules, thresholds, rt⟩ b

/-- A blocking rule that reacts to `a` reacts to `b`. -/
theorem AtLeastAsStrict.hits (h : AtLeastAsStrict rt a b) {patterns paths content : List String}
    (hhits : PolicyEngine.Hits ⟨[probe patterns paths content], ⟨none, none, none⟩, rt⟩
      (probe patterns paths content) a) :
    PolicyEngine.Hits ⟨[probe patterns paths content], ⟨none, none, none⟩, rt⟩
      (probe patterns paths content) b := by
  have hne : PolicyAction.block ≠ .allow := by decide
  have hblocked := (PolicyEngine.le_strength_iff _ a hne).mpr
    ⟨.block, le_rfl, .inl ⟨_, List.mem_singleton_self _, rfl, hhits⟩⟩
  obtain ⟨strong, hle, ⟨r, hr, -, hreacts⟩ | ⟨rfl, -⟩⟩ :=
    (PolicyEngine.le_strength_iff _ b hne).mp (hblocked.trans (h _ _))
  · rwa [List.mem_singleton.mp hr] at hreacts
  · exact absurd hle (by decide)

/-- …and a threshold that `a` exceeds, `b` exceeds. -/
theorem AtLeastAsStrict.exceeds (h : AtLeastAsStrict rt a b) (thresholds : Thresholds)
    (hexceeds : PolicyEngine.Exceeds ⟨[], thresholds, rt⟩ a) :
    PolicyEngine.Exceeds ⟨[], thresholds, rt⟩ b := by
  have hne : PolicyAction.humanApproval ≠ .allow := by decide
  have happroval := (PolicyEngine.le_strength_iff _ a hne).mpr ⟨.humanApproval, le_rfl,
    .inr ⟨rfl, hexceeds⟩⟩
  obtain ⟨strong, -, ⟨r, hr, -⟩ | ⟨-, hexceeds⟩⟩ :=
    (PolicyEngine.le_strength_iff _ b hne).mp (happroval.trans (h _ _))
  · exact absurd hr List.not_mem_nil
  · exact hexceeds

/-- A pattern that stands for one basename. -/
theorem hits_basename {engine : PolicyEngine} {name : Text} :
    engine.Hits (probe [String.ofList (Text.globEscape name)] [] []) a ↔
      ∃ p ∈ a.files, Rule.basename (Rule.normalized p) = name := by
  simp [PolicyEngine.Hits, probe, Rule.matchesPath, Rule.matchesContent, Text.fnmatch_globEscape]

/-- A fragment. -/
theorem hits_fragment {engine : PolicyEngine} {fragment : Text} :
    engine.Hits (probe [] [String.ofList fragment] []) a ↔
      ∃ p ∈ a.files, Text.contains (engine.runtime.lower fragment)
        (engine.runtime.lower (Rule.normalized p)) = true := by
  simp [PolicyEngine.Hits, probe, Rule.matchesPath, Rule.matchesContent]

/-- An expression. -/
theorem hits_content {engine : PolicyEngine} {expression : String} :
    engine.Hits (probe [] [] [expression]) a ↔
      a.added ≠ [] ∧ engine.runtime.search expression a.added = true := by
  simp [PolicyEngine.Hits, probe, Rule.matchesPath, Rule.matchesContent]

/-- **Every policy is at least as strict exactly on what covers the change.** -/
theorem atLeastAsStrict_iff_covers
    (hrt : rt.Anchors) : AtLeastAsStrict rt a b ↔ Covers rt.lower a b := by
  constructor
  · intro h
    refine ⟨fun p hp => ?_, fun p hp => ?_, ?_, ?_, fun hadded => ?_⟩
    · exact hits_basename.mp (h.hits (hits_basename.mpr ⟨p, hp, rfl⟩))
    · have hself : Text.contains (rt.lower (Rule.normalized p)) (rt.lower (Rule.normalized p))
          = true :=
        Text.contains_iff_infix.mpr (List.infix_refl _)
      exact hits_fragment.mp (h.hits (hits_fragment.mpr ⟨p, hp, hself⟩))
    · -- the number of files of `a` is one too many, and no number of lines is
      have hfiles := h.exceeds ⟨some (a.files.length - 1), some b.lines, none⟩
        (.inl (by rw [Option.getD_some]; omega))
      simp only [PolicyEngine.Exceeds, Option.getD_some] at hfiles
      omega
    · have hlines := h.exceeds ⟨some b.files.length, some (a.lines - 1), none⟩
        (.inr (by rw [Option.getD_some]; omega))
      simp only [PolicyEngine.Exceeds, Option.getD_some] at hlines
      omega
    · have hcontent := h.hits (hits_content.mpr ⟨hadded, (hrt a.added a.added).mpr rfl⟩)
      exact (hrt a.added b.added).mp (hits_content.mp hcontent).2
  · intro h rules thresholds
    exact PolicyEngine.strength_mono _ h

end Probes

end AgentPlatform
