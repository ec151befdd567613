import AgentPlatform.Agents.AgentLoop
import AgentPlatform.Tools.Patching

/-!
# Agents/FailedWrites — what an editing tool that fails leaves behind

`_execute_tool` reports whatever a tool raises as an ordinary error, and the model goes on from
there.  A file is truncated when it is opened and the text is encoded afterwards, directories are
created before the file, as far as their names fit, and nothing is undone.  `failedCall_keeps_iff` —
the tree is what it was after every call reported as an error, exactly if the call is none of four
kinds (`Spoils`).
-/

namespace AgentPlatform

open PosixPath FileM

/-! ## `create_file` -/

/-- **A call of `create_file` with all its arguments, whose target is absent and can be
reached.** -/
structure CreateCall (c : ToolContext) (args : Arguments) (t : FileTree) (path : ArgValue)
    (target : Location) (content : ArgValue) : Prop where
  positional : args.lookup "context" = none ∧ args.lookup "self" = none
  writeAllowed : c.writeAllowed = true
  pathArg : args.lookup "path" = some path
  resolves : c.resolve path = .ok target
  contentArg : args.lookup "content" = some content
  probed : t.tooLong target = false
  absent : t target = none
  /-- No file on the way. -/
  reachable : ∀ q ∈ target.dropLast.inits, t.isFile q = false

section Creating

variable {c : ToolContext} {args : Arguments} {t : FileTree} {path : ArgValue} {target : Location}
  {content : ArgValue}

theorem mkdirs_of_reachable {p : Location} (h : ∀ q ∈ p.inits, t.isFile q = false) :
    mkdirs p t = match p.inits.find? (unfit t) with
      | some q => (.error (.other "OSError" "File name too long"), t.made q.dropLast)
      | none => (.ok (), t.made p) := by
  have hself : t.isFile p = false := h p ((List.mem_inits _ _).mpr List.prefix_rfl)
  have hfree : p.inits.any t.isFile = false := List.any_eq_false.mpr fun q hq => by simp [h q hq]
  refine (if_neg ?_).trans (if_neg ?_)
  · rw [hself]
    exact Bool.false_ne_true
  · rw [hfree]
    exact Bool.false_ne_true

theorem mkdirs_of_not_reachable {p : Location} (h : ¬ ∀ q ∈ p.inits, t.isFile q = false) :
    ∃ e, mkdirs p t = (.error e, t) := by
  have hfile : p.inits.any t.isFile = true := by
    rw [List.any_eq_true]
    by_contra hnone
    exact h fun q hq => Bool.eq_false_iff.mpr fun hq' => hnone ⟨q, hq, hq'⟩
  rw [mkdirs, hfile, if_pos rfl]
  split
  · exact ⟨_, rfl⟩
  · exact ⟨_, rfl⟩

theorem not_mem_inits_dropLast (h : target ≠ []) : target ∉ target.dropLast.inits := by
  rw [List.mem_inits]
  intro hinit
  have hle := hinit.length_le
  have hpos := List.length_pos_of_ne_nil h
  rw [List.length_dropLast] at hle
  omega

/-- Once the directories are there, the file can be opened. -/
theorem canOpen_made (hne : target ≠ []) (habsent : t target = none)
    (hreach : ∀ q ∈ target.dropLast.inits, t.isFile q = false) :
    canOpen (t.made target.dropLast) target = FileNames.fits (target.getLast?.getD []) := by
  have htarget : t.made target.dropLast target = none := by
    rw [FileTree.made, if_neg fun h => not_mem_inits_dropLast hne (List.contains_iff_mem.mp h.1),
      habsent]
  have hself : target.dropLast ∈ target.dropLast.inits := (List.mem_inits _ _).mpr List.prefix_rfl
  have hparent : t.made target.dropLast target.dropLast = some .dir := by
    have hfile := hreach _ hself
    rw [FileTree.isFile, FileTree.fileAt] at hfile
    rw [FileTree.made]
    rcases hdir : t target.dropLast with _ | (_ | _)
    · rw [if_pos ⟨List.contains_iff_mem.mpr hself, rfl⟩]
    · simp [hdir] at hfile
    · simp
  rw [canOpen, htarget]
  simp [hparent]

/-- Creating directories changes the tree exactly if one was missing. -/
theorem made_eq_iff {p : Location} : t.made p = t ↔ ∀ q ∈ p.inits, t q ≠ none := by
  constructor
  · intro h q hq hnone
    have hmade := congrFun h q
    rw [FileTree.made, if_pos ⟨List.contains_iff_mem.mpr hq, hnone⟩, hnone] at hmade
    cases hmade
  · intro h
    funext q
    exact if_neg fun hq => h q (List.contains_iff_mem.mp hq.1) hq.2

/-- Above a missing name that is too long, the directory is missing as well. -/
theorem CreateCall.missing_of_unfit (h : CreateCall c args t path target content) {q : Location}
    (hq : q <+: target) (hunfit : unfit t q = true) : t q.dropLast = none := by
  have hlong := (Bool.or_eq_false_iff.mp h.probed).2
  have hnot := List.any_eq_false.mp hlong q ((List.mem_inits _ _).mpr hq)
  rw [unfit, Bool.and_eq_true, decide_eq_true_eq] at hunfit
  have hfile := h.reachable q.dropLast ((List.mem_inits _ _).mpr (dropLast_prefix_dropLast hq))
  rw [FileTree.isFile, FileTree.fileAt] at hfile
  rcases hparent : t q.dropLast with _ | (content | _)
  · rfl
  · rw [hparent] at hfile
    cases hfile
  · refine absurd ?_ hnot
    simp [hunfit.1, hparent, hunfit.2]

namespace CreateCall

variable (h : CreateCall c args t path target content)
include h

theorem run_eq : createFile c args t
    = (do
        mkdirs target.dropLast
        writeText target content
        let lines := (Text.splitlines content.toStr.toList).length
        pure (.changed s!"created {c.relative target} ({lines} lines)" (c.relative target) "ADDED"
          lines 0) : FileM ToolResult) t := by
  have hpositional : bindPositional args t = (.ok (), t) := by
    rw [bindPositional, Prog.whenever, if_neg (by simp [h.positional])]
    rfl
  have hpresent : FileM.present target t = (.ok false, t) := by
    rw [FileM.present, FileM.probe, h.probed, FileTree.present, h.absent]
    rfl
  rw [createFile, Prog.bind_of_ok hpositional]
  simp only [keyword, h.pathArg, h.contentArg, Prog.bind_apply, Prog.pure_apply]
  rw [if_neg (by simp [h.writeAllowed]), withTarget, h.resolves]
  dsimp only
  rw [createFileAt, Prog.bind_of_ok hpresent, if_neg Bool.false_ne_true]
  rfl

/-- **A missing name that is too long is noticed once the directories above it are made.** -/
theorem run_unfit (hunfit : ∃ q ∈ target.inits, unfit t q = true) :
    ∃ e t', createFile c args t = (.error e, t') ∧ t' ≠ t := by
  have hchanged : ∀ {q : Location}, q <+: target → unfit t q = true → t.made q.dropLast ≠ t :=
    fun hq hunfit hsame => made_eq_iff.mp hsame _ ((List.mem_inits _ _).mpr List.prefix_rfl)
      (h.missing_of_unfit hq hunfit)
  rw [h.run_eq, Prog.bind_apply, mkdirs_of_reachable h.reachable]
  rcases hfind : target.dropLast.inits.find? (unfit t) with _ | q₀
  · -- The file's own name is the one that is too long.
    have hself : unfit t target = true := by
      obtain ⟨q, hq, hq'⟩ := hunfit
      by_cases heq : q = target
      · exact heq ▸ hq'
      · have habove := prefix_dropLast ((List.mem_inits _ _).mp hq) heq
        exact absurd hq' (List.find?_eq_none.mp hfind q ((List.mem_inits _ _).mpr habove))
    have hne : target ≠ [] := by
      rintro rfl
      rw [unfit, Bool.and_eq_true] at hself
      exact absurd hself.2 (by decide)
    have hclosed : canOpen (t.made target.dropLast) target = false := by
      rw [canOpen_made hne h.absent h.reachable]
      rw [unfit, Bool.and_eq_true, Bool.not_eq_true'] at hself
      exact hself.2
    have hwrite : ∃ e, writeText target content (t.made target.dropLast)
        = (.error e, t.made target.dropLast) := by
      rcases content with s | w | repr
      · rw [writeText, hclosed]
        exact ⟨_, rfl⟩
      · rw [writeText, hclosed]
        exact ⟨_, rfl⟩
      · exact ⟨_, rfl⟩
    obtain ⟨e, hwrite⟩ := hwrite
    exact ⟨e, _, by simp only [Prog.bind_apply, hwrite], hchanged List.prefix_rfl hself⟩
  · obtain ⟨hunfit₀, hq₀, -⟩ := unfit_of_find hfind
    exact ⟨_, _, rfl, hchanged (hq₀.trans target.dropLast_prefix) hunfit₀⟩

/-- **Where every name fits**, the directories are made. -/
theorem run_fits (hfits : ∀ q ∈ target.inits, unfit t q = false) : createFile c args t
    = (do
        writeText target content
        let lines := (Text.splitlines content.toStr.toList).length
        pure (.changed s!"created {c.relative target} ({lines} lines)" (c.relative target) "ADDED"
          lines 0) : FileM ToolResult) (t.made target.dropLast) := by
  have hfind : target.dropLast.inits.find? (unfit t) = none := by
    refine List.find?_eq_none.mpr fun q hq => ?_
    have habove := ((List.mem_inits _ _).mp hq).trans target.dropLast_prefix
    simp [hfits q ((List.mem_inits _ _).mpr habove)]
  have hmkdirs : mkdirs target.dropLast t = (.ok (), t.made target.dropLast) := by
    rw [mkdirs_of_reachable h.reachable, hfind]
  rw [h.run_eq, Prog.bind_of_ok hmkdirs]

theorem canOpen_of_fits (hne : target ≠ []) (hfits : ∀ q ∈ target.inits, unfit t q = false) :
    canOpen (t.made target.dropLast) target = true := by
  have hself := hfits target ((List.mem_inits _ _).mpr List.prefix_rfl)
  rw [canOpen_made hne h.absent h.reachable]
  simpa [unfit, h.absent] using hself

end CreateCall

section Fits

variable (hfits : ∀ q ∈ target.inits, unfit t q = false)
include hfits

theorem CreateCall.run_str {s : String} (h : CreateCall c args t path target (.str s))
    (hne : target ≠ []) : ∃ r t', r.ok = true ∧ createFile c args t = (.ok r, t') := by
  rw [h.run_fits hfits]
  simp only [Prog.bind_apply, writeText, h.canOpen_of_fits hne hfits, if_true]
  exact ⟨_, _, rfl, rfl⟩

theorem CreateCall.run_surrogates {w : WideText}
    (h : CreateCall c args t path target (.surrogates w)) (hne : target ≠ []) :
    ∃ e, createFile c args t
      = (.error e, (t.made target.dropLast).put target (.file (.text []))) := by
  rw [h.run_fits hfits]
  simp only [Prog.bind_apply, writeText, h.canOpen_of_fits hne hfits, if_true]
  exact ⟨_, rfl⟩

theorem CreateCall.run_json {s : String} (h : CreateCall c args t path target (.json s)) :
    ∃ e, createFile c args t = (.error e, t.made target.dropLast) := by
  rw [h.run_fits hfits]
  exact ⟨_, rfl⟩

end Fits

/-- **A call does nothing, unless its target is absent and can be reached.** -/
theorem refused_createFile (h : ¬ ∃ path target content, CreateCall c args t path target content) :
    Refused t (createFile c args t) := by
  refine refused_positional fun hpositional => refused_keyword fun path hpath =>
    refused_keyword fun content hcontent => ?_
  split_ifs with hwrite
  · exact refused_failure _
  refine refused_withTarget fun target hresolve => ?_
  rw [createFileAt]
  refine refused_probe fun hprobed => ?_
  split_ifs with hpresent
  · exact refused_failure _
  have habsent : t target = none := by simpa [FileTree.present] using hpresent
  have hblocked : ¬ ∀ q ∈ target.dropLast.inits, t.isFile q = false := fun hreach =>
    h ⟨path, target, content, hpositional, by
      simpa using hwrite, hpath, hresolve, hcontent, hprobed, habsent, hreach⟩
  obtain ⟨e, hmkdirs⟩ := mkdirs_of_not_reachable hblocked
  rw [Prog.bind_apply, hmkdirs]
  exact refused_error e

end Creating

/-! ## Through the gates -/

/-- What `_execute_tool` reports of what a tool returned or raised. -/
def reported (name : String) : Except PyError ToolResult → ToolResult
  | .ok result => result
  | .error e => ToolM.errorResult name e

theorem errorResult_ok (name : String) (e : PyError) : (ToolM.errorResult name e).ok = false := by
  unfold ToolM.errorResult
  split <;> rfl

theorem guarded_eq_reported (name : String) (tool : FileM ToolResult) (w : ToolWorld) :
    ToolM.guarded name tool w = (.ok (reported name (tool w.tree).1),
      { w with tree := (tool w.tree).2 }) := by
  rw [ToolM.guarded]
  rcases tool w.tree with ⟨_ | _, _⟩ <;> rfl

section Gates

variable {rt : ToolRuntime} {engine : PolicyEngine} {env : GateEnv} {role : AgentRole}
  {name : String} {args : Arguments} {c : ToolContext} {tool : Tool} {w w' : ToolWorld}
  {result : ToolResult}

/-- **A call that returns reports what the tool did and leaves its tree.** -/
theorem callTool_eq_ok
    (h : callWith env name args c tool (runTool rt c args tool) w = (.ok result, w')) :
    result = reported name (runTool rt c args tool w.tree).1 ∧
      w'.tree = (runTool rt c args tool w.tree).2 := by
  obtain ⟨_, w₁, hemit, h⟩ := Prog.bind_eq_ok.mp h
  obtain ⟨returned, w₂, hguarded, h⟩ := Prog.bind_eq_ok.mp h
  obtain ⟨_, w₃, haudit, h⟩ := Prog.bind_eq_ok.mp h
  obtain ⟨_, w₄, hedit, h⟩ := Prog.bind_eq_ok.mp h
  obtain ⟨rfl, rfl⟩ := Prog.pure_eq_ok.mp h
  have hbefore : w.tree = w₁.tree := (emit_keeps (R := (· = ·)) env _).of_eq hemit
  rw [guarded_eq_reported, ← hbefore] at hguarded
  obtain ⟨hresult, htree⟩ := Prod.mk.inj hguarded
  refine ⟨(Except.ok.inj hresult).symm, ?_⟩
  have haudited : w₂.tree = w₃.tree := (audit_keeps (R := (· = ·)) env name args _).of_eq haudit
  have hedited : w₃.tree = w₄.tree := (recordEdit_keeps (R := (· = ·)) env c tool _).of_eq hedit
  rw [← hedited, ← haudited, ← htree]

/-- **A call that returns was refused by a gate, or is the tool's.** -/
theorem executeTool_eq_ok (hget : Tool.get? name = some tool)
    (h : executeTool rt engine env role name args c w = (.ok result, w')) :
    (¬ Admits engine role name args ∧ w'.tree = w.tree) ∨ (Admits engine role name args ∧
      result = reported name (runTool rt c args tool w.tree).1 ∧
      w'.tree = (runTool rt c args tool w.tree).2) := by
  rw [executeTool, executeWith] at h
  by_cases hallowed : name ∉ role.allowlist
  · rw [if_pos hallowed] at h
    obtain ⟨_, w₁, haudit, h⟩ := Prog.bind_eq_ok.mp h
    obtain ⟨rfl, rfl⟩ := Prog.pure_eq_ok.mp h
    have hsame : w.tree = w₁.tree := (audit_keeps (R := (· = ·)) env name args _).of_eq haudit
    exact .inl ⟨fun hadmits => hallowed hadmits.1, hsame.symm⟩
  · rw [if_neg hallowed, hget] at h
    dsimp only at h
    split_ifs at h with hblocked
    · obtain ⟨_, w₁, -, h⟩ := Prog.bind_eq_ok.mp h
      obtain ⟨_, w₂, -, h⟩ := Prog.bind_eq_ok.mp h
      exact (Prog.raise_eq_ok.mp h).elim
    · refine .inr ⟨⟨not_not.mp hallowed, fun tool' htool' hmut => ?_⟩, callTool_eq_ok h⟩
      obtain rfl := Option.some.inj (hget.symm.trans htool')
      exact Bool.eq_false_iff.mpr fun hbad => hblocked ⟨hmut, hbad⟩

/-- **Where nothing around it fails, a call the gates admit returns.** -/
theorem executeTool_quiet (rt : ToolRuntime) (w : ToolWorld) (hget : Tool.get? name = some tool)
    (h : Admits engine role name args) :
    ∃ w', executeTool rt engine .quiet role name args c w
        = (.ok (reported name (runTool rt c args tool w.tree).1), w') ∧
      w'.tree = (runTool rt c args tool w.tree).2 := by
  have hraises := (executeTool_leaves rt engine role ⟨"", name, args⟩ c w).raises
  rcases hrun : executeTool rt engine .quiet role name args c w with ⟨e | result, w'⟩
  · obtain ⟨-, ⟨tool', htool', hmut⟩, hblocked, -⟩ := hraises e (congrArg Prod.fst hrun)
    exact absurd hblocked (by rw [h.2 tool' htool' hmut]; exact Bool.false_ne_true)
  · rcases executeTool_eq_ok hget hrun with ⟨hnot, -⟩ | ⟨-, rfl, htree⟩
    · exact absurd h hnot
    · exact ⟨w', rfl, htree⟩

end Gates

/-! ## The four kinds -/

/-- **Calls that fail after they have changed the tree.** -/
inductive Spoils (c : ToolContext) (args : Arguments) (t : FileTree) : Tool → Prop
  /-- The file is truncated and the new text has no encoding. -/
  | truncates {path target old w before}
      (hcall : PatchCall c args t path target old (.surrogates w) before)
      (honce : Text.count old.toList before.universalNewlines = 1) (hne : before ≠ []) :
      Spoils c args t .applyPatch
  /-- The file is created and the content has no encoding. -/
  | createsFile {path target w} (hcall : CreateCall c args t path target (.surrogates w)) :
      Spoils c args t .createFile
  /-- Directories are created and the content is not a string. -/
  | createsDirectories {path target repr} (hcall : CreateCall c args t path target (.json repr))
      (hmissing : ∃ q ∈ target.dropLast.inits, t q = none) : Spoils c args t .createFile
  /-- Directories are created down to a missing name that is too long. -/
  | tooLong {path target content} (hcall : CreateCall c args t path target content)
      (hunfit : ∃ q ∈ target.inits, unfit t q = true) : Spoils c args t .createFile

section Main

variable {rt : ToolRuntime} {c : ToolContext} {args : Arguments} {t : FileTree} {name : String}

/-- A tool that leaves the tree alone whenever what it did is reported as an error. -/
def KeepsOnError (name : String) (t : FileTree)
    (outcome : Except PyError ToolResult × FileTree) : Prop :=
  (reported name outcome.1).ok = false → outcome.2 = t

theorem keepsOnError_of_refused {outcome : Except PyError ToolResult × FileTree}
    (h : Refused t outcome) :
    KeepsOnError name t outcome := fun _ => h.1

theorem keepsOnError_ok {r : ToolResult} {t' : FileTree} (h : r.ok = true) :
    KeepsOnError name t (.ok r, t') := fun hfailed => absurd (h.symm.trans hfailed) (by decide)

theorem keepsOnError_error {e : PyError} {t' : FileTree} :
    KeepsOnError name t (.error e, t') ↔ t' = t :=
  ⟨fun h => h (errorResult_ok name e), fun h _ => h⟩

/-- Writing what is there. -/
theorem put_self {target : Location} {content : Content} (h : t.fileAt target = some content) :
    t.put target (.file content) = t := by
  funext q
  rw [FileTree.put]
  split_ifs with hq
  · subst hq
    rw [FileTree.fileAt] at h
    split at h
    · rename_i hfile
      rw [hfile, Option.some.inj h]
    · cases h
  · rfl

/-- The arguments of a call are what the dictionary holds. -/
theorem PatchCall.unique {path path' new new' : ArgValue} {old old' : String}
    {target target' : Location} {before before' : Text}
    (h : PatchCall c args t path target old new before)
    (h' : PatchCall c args t path' target' old' new' before') :
    target = target' ∧ old = old' ∧ new = new' ∧ before = before' := by
  obtain rfl := Option.some.inj (h.pathArg.symm.trans h'.pathArg)
  obtain rfl := Except.ok.inj (h.resolves.symm.trans h'.resolves)
  exact ⟨rfl, ArgValue.str.inj (Option.some.inj (h.oldText.symm.trans h'.oldText)),
    Option.some.inj (h.newText.symm.trans h'.newText),
    Content.text.inj (Option.some.inj (h.file.symm.trans h'.file))⟩

theorem CreateCall.unique {path path' content content' : ArgValue} {target target' : Location}
    (h : CreateCall c args t path target content)
    (h' : CreateCall c args t path' target' content') : target = target' ∧ content = content' := by
  obtain rfl := Option.some.inj (h.pathArg.symm.trans h'.pathArg)
  exact ⟨Except.ok.inj (h.resolves.symm.trans h'.resolves),
    Option.some.inj (h.contentArg.symm.trans h'.contentArg)⟩

theorem keepsOnError_applyPatch_iff :
    KeepsOnError name t (applyPatch rt c args t) ↔ ¬ Spoils c args t .applyPatch := by
  by_cases hcall : ∃ path target old new before, PatchCall c args t path target old new before ∧
      .str old ≠ new ∧ Text.count old.toList before.universalNewlines = 1
  · obtain ⟨path, target, old, new, before, hcall, hne, hcount⟩ := hcall
    rcases new with n | lossy | repr
    · obtain ⟨r, hok, hrun⟩ := hcall.run_once rt hcount fun heq => hne (congrArg _ heq)
      rw [hrun]
      refine iff_of_true (keepsOnError_ok hok) ?_
      rintro ⟨hspoils⟩
      cases (hcall.unique hspoils).2.2.1
    · obtain ⟨e, hrun⟩ := hcall.run_once_surrogates rt hcount
      rw [hrun, keepsOnError_error]
      constructor
      · rintro hput ⟨hspoils, -, hne⟩
        obtain ⟨rfl, -, -, rfl⟩ := hcall.unique hspoils
        exact put_empty_ne hcall.file hne hput
      · intro hspoils
        have hempty : before = [] := by
          by_contra hne
          exact hspoils (.truncates hcall hcount hne)
        exact put_self (hempty ▸ hcall.file)
    · obtain ⟨e, hrun⟩ := hcall.run_once_json rt hcount
      rw [hrun, keepsOnError_error]
      refine iff_of_true rfl ?_
      rintro ⟨hspoils⟩
      cases (hcall.unique hspoils).2.2.1
  · refine iff_of_true (keepsOnError_of_refused (refused_applyPatch rt hcall)) ?_
    rintro ⟨hpatch, honce, -⟩
    exact hcall ⟨_, _, _, _, _, hpatch, by simp, honce⟩

theorem keepsOnError_createFile_iff (hroot : t [] = some .dir) :
    KeepsOnError name t (createFile c args t) ↔ ¬ Spoils c args t .createFile := by
  by_cases hcall : ∃ path target content, CreateCall c args t path target content
  · obtain ⟨path, target, content, hcall⟩ := hcall
    have hne : target ≠ [] := by
      rintro rfl
      cases hroot.symm.trans hcall.absent
    by_cases hunfit : ∃ q ∈ target.inits, unfit t q = true
    · obtain ⟨e, t', hrun, hchanged⟩ := hcall.run_unfit hunfit
      rw [hrun, keepsOnError_error]
      exact iff_of_false hchanged fun hspoils => hspoils (.tooLong hcall hunfit)
    have hfits : ∀ q ∈ target.inits, unfit t q = false := fun q hq =>
      Bool.eq_false_iff.mpr fun hq' => hunfit ⟨q, hq, hq'⟩
    rcases content with s | w | repr
    · obtain ⟨r, t', hok, hrun⟩ := hcall.run_str hfits hne
      rw [hrun]
      refine iff_of_true (keepsOnError_ok hok) ?_
      rintro (_ | hspoils | ⟨hspoils, -⟩ | ⟨hspoils, hlong⟩)
      · cases (hcall.unique hspoils).2
      · cases (hcall.unique hspoils).2
      · exact hunfit ((hcall.unique hspoils).1 ▸ hlong)
    · obtain ⟨e, hrun⟩ := hcall.run_surrogates hfits hne
      rw [hrun, keepsOnError_error]
      refine iff_of_false (fun hput => ?_) fun hspoils => hspoils (.createsFile hcall)
      have hfile := congrFun hput target
      rw [FileTree.put, if_pos rfl, hcall.absent] at hfile
      cases hfile
    · obtain ⟨e, hrun⟩ := hcall.run_json hfits
      rw [hrun, keepsOnError_error, made_eq_iff]
      constructor
      · rintro hall (_ | hspoils | ⟨hspoils, q, hq, hnone⟩ | ⟨hspoils, hlong⟩)
        · cases (hcall.unique hspoils).2
        · obtain ⟨rfl, -⟩ := hcall.unique hspoils
          exact hall q hq hnone
        · exact hunfit ((hcall.unique hspoils).1 ▸ hlong)
      · intro hspoils q hq hnone
        exact hspoils (.createsDirectories hcall ⟨q, hq, hnone⟩)
  · refine iff_of_true (keepsOnError_of_refused (refused_createFile hcall)) ?_
    rintro (_ | hcreate | ⟨hcreate, -⟩ | ⟨hcreate, -⟩)
    · exact hcall ⟨_, _, _, hcreate⟩
    · exact hcall ⟨_, _, _, hcreate⟩
    · exact hcall ⟨_, _, _, hcreate⟩

/-- **A call that is reported as an error leaves the tree as it was, whatever fails around it,
exactly unless the gates admit it and it is of one of the four kinds.** -/
theorem failedCall_keeps_iff (rt : ToolRuntime) (engine : PolicyEngine)
    (role : AgentRole) (name : String)
    (tool : Tool) (args : Arguments) (c : ToolContext) (w : ToolWorld)
    (hget : Tool.get? name = some tool)
    (hmut : tool.mutating = true) (hroot : w.tree [] = some .dir) :
    (∀ env result w', executeTool rt engine env role name args c w = (.ok result, w') →
        result.ok = false → w'.tree = w.tree) ↔
      ¬ (Admits engine role name args ∧ Spoils c args w.tree tool) := by
  have htool : KeepsOnError name w.tree (runTool rt c args tool w.tree) ↔
      ¬ Spoils c args w.tree tool := by
    cases tool with
    | applyPatch => exact keepsOnError_applyPatch_iff
    | createFile => exact keepsOnError_createFile_iff hroot
    | reader => exact absurd hmut Bool.false_ne_true
  rw [not_and, ← htool]
  constructor
  · intro h hadmits hfailed
    obtain ⟨w', hrun, htree⟩ := executeTool_quiet (c := c) rt w hget hadmits
    rw [← htree]
    exact h _ _ _ hrun hfailed
  · intro h env result w' hrun hfailed
    rcases executeTool_eq_ok hget hrun with ⟨-, htree⟩ | ⟨hadmits, rfl, htree⟩
    · exact htree
    · rw [htree]
      exact h hadmits hfailed

end Main

/-- A policy without rules. -/
def permissive : PolicyEngine := ⟨[], ⟨none, none, none⟩, asciiRuntime⟩

/-- One file, and nothing called yet. -/
def patchWorld : ToolWorld := ⟨patchTree "int i;", [], [], []⟩

/-- A new text with an unpaired surrogate: the call is reported as an error, and the file is
empty. -/
theorem surrogate_truncates : ∃ result w',
    executeTool patchRuntime permissive .quiet .implementation "apply_patch"
        [("path", .str "F.cs"), ("old_text", .str "i;"),
          ("new_text", .surrogates ⟨[0x6a, 0xd800], by decide, by decide⟩)]
        patchContext patchWorld = (.ok result, w') ∧ result.ok = false ∧
      patchWorld.tree.fileAt ["work".toList, "F.cs".toList] = some (.text "int i;".toList) ∧
      w'.tree.fileAt ["work".toList, "F.cs".toList] = some (.text []) ∧
      w'.tree ≠ patchWorld.tree := by
  have hfile : patchWorld.tree.fileAt ["work".toList, "F.cs".toList]
    = some (.text "int i;".toList) := rfl
  refine ⟨_, _, rfl, by decide +kernel, hfile, by decide +kernel, fun htree => ?_⟩
  have hsame := congrArg (FileTree.fileAt · ["work".toList, "F.cs".toList]) htree
  exact absurd hsame (by decide +kernel)

/-- A file that exists is not created again. -/
theorem existing_keeps : patchWorld.tree [] = some .dir ∧ ∀ env result w',
    executeTool patchRuntime permissive env .implementation "create_file"
        [("path", .str "F.cs"), ("content", .str "int j;")] patchContext patchWorld
          = (.ok result, w') →
      result.ok = false → w'.tree = patchWorld.tree := by
  refine ⟨rfl, (failedCall_keeps_iff patchRuntime permissive .implementation
    "create_file" .createFile _
    patchContext patchWorld Tool.get?_createFile rfl rfl).mpr ?_⟩
  have hexists : ∀ {path target content}, ¬ CreateCall patchContext
      [("path", .str "F.cs"), ("content", .str "int j;")] patchWorld.tree path target content := by
    intro path target content hcall
    obtain rfl := Option.some.inj hcall.pathArg
    obtain rfl := Except.ok.inj hcall.resolves
    cases hcall.absent
  rintro ⟨-, _ | hcall | ⟨hcall, -⟩ | ⟨hcall, -⟩⟩
  · exact hexists hcall
  · exact hexists hcall
  · exact hexists hcall

end AgentPlatform
