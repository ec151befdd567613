import AgentPlatform.Machinery.Occurrences
import AgentPlatform.Tools.ApplyPatch

/-!
# Tools/Patching — what a patch does to the file, byte by byte, and when it is applied

`apply_patch` reads the file as text, with every line ending turned into `\n`, counts the anchor,
replaces it and writes the result as it stands.  Two things follow from how it reads and counts:

* `applyPatch_onlyAnchor_iff` — the bytes outside the anchor are unchanged exactly in a file without
  carriage returns;
* `applyPatch_unambiguous_iff` — an anchor that occurs twice is refused exactly if two occurrences
  do not overlap.
-/

namespace AgentPlatform

/-! ## Encoding -/

/-- `t.encode("utf-8")`. -/
def encode (t : Text) : List UInt8 := t.flatMap String.utf8EncodeChar

theorem encode_append (t u : Text) : encode (t ++ u) = encode t ++ encode u := by
  rw [encode, List.flatMap_append, ← encode, ← encode]

/-- No character but the carriage return has its byte. -/
theorem count_utf8EncodeChar (c : Char) :
    (String.utf8EncodeChar c).count 13 = if c = '\r' then 1 else 0 := by
  have hbyte : ∀ n : ℕ, UInt8.ofNat n = 13 ↔ n % 256 = 13 := fun n => by
    rw [← UInt8.toNat_inj, UInt8.toNat_ofNat]
    rfl
  have hreturn : c = '\r' ↔ c.val.toNat = 13 := by
    rw [Char.ext_iff, ← UInt32.toNat_inj]
    rfl
  generalize hv : c.val.toNat = v at hreturn
  simp only [hreturn, String.utf8EncodeChar, hv]
  split_ifs <;> simp only [List.count_cons, List.count_nil, beq_iff_eq, hbyte]
    <;> split_ifs <;> omega

theorem count_return_encode (t : Text) : (encode t).count 13 = List.count '\r' t := by
  induction t with
  | nil => rfl
  | cons c t ih =>
    rw [encode, List.flatMap_cons, ← encode, List.count_append, ih, count_utf8EncodeChar,
      List.count_cons, Nat.add_comm]
    simp only [beq_iff_eq]

theorem return_not_mem_universalNewlines (t : Text) : '\r' ∉ t.universalNewlines := by
  fun_induction Text.universalNewlines t with
  | case1 => simp
  | case2 t ih => simp [ih]
  | case3 c t _ ih =>
    rw [List.mem_cons, not_or]
    refine ⟨?_, ih⟩
    split
    · decide
    · rename_i hc
      exact fun h => hc h.symm

theorem universalNewlines_of_not_mem {t : Text} (h : '\r' ∉ t) : t.universalNewlines = t := by
  fun_induction Text.universalNewlines t with
  | case1 => rfl
  | case2 t ih => exact absurd List.mem_cons_self h
  | case3 c t _ ih =>
    rw [List.mem_cons, not_or] at h
    rw [if_neg (Ne.symm h.1), ih h.2]

/-- A carriage return is read as a newline. -/
theorem newline_mem_universalNewlines {t : Text} (h : '\r' ∈ t) : '\n' ∈ t.universalNewlines := by
  fun_induction Text.universalNewlines t with
  | case1 => cases h
  | case2 t ih => exact List.mem_cons_self
  | case3 c t _ ih =>
    rcases List.mem_cons.mp h with rfl | h
    · exact List.mem_cons_self
    · exact List.mem_cons_of_mem _ (ih h)

/-! ## A call that reaches its file -/

open FileM PosixPath

/-- **A call of `apply_patch` with all its arguments, whose path leads to a text file.** -/
structure PatchCall (c : ToolContext) (args : Arguments) (t : FileTree) (path : ArgValue)
    (target : Location) (old : String) (new : ArgValue) (before : Text) : Prop where
  positional : args.lookup "context" = none ∧ args.lookup "self" = none
  writeAllowed : c.writeAllowed = true
  pathArg : args.lookup "path" = some path
  resolves : c.resolve path = .ok target
  oldText : args.lookup "old_text" = some (.str old)
  newText : args.lookup "new_text" = some new
  probed : t.tooLong target = false
  file : t.fileAt target = some (.text before)

section Calls

variable (rt : ToolRuntime) {c : ToolContext} {args : Arguments} {t t' : FileTree} {path : ArgValue}
  {target : Location} {old : String} {new : ArgValue} {before : Text} {r : ToolResult}

theorem canOpen_of_file {content : Content} (h : t.fileAt target = some content) :
    canOpen t target = true := by
  rw [FileTree.fileAt] at h
  split at h
  · rename_i hfile
    rw [canOpen, hfile]
  · cases h

namespace PatchCall

variable (h : PatchCall c args t path target old new before)
include h

theorem run_eq : applyPatch rt c args t = applyPatchAt rt c path.toStr target (.str old) new t := by
  have hpositional : bindPositional args t = (.ok (), t) := by
    rw [bindPositional, Prog.whenever, if_neg (by simp [h.positional])]
    rfl
  rw [applyPatch, Prog.bind_of_ok hpositional]
  simp only [keyword, h.pathArg, h.oldText, h.newText, Prog.bind_apply, Prog.pure_apply]
  rw [if_neg (by simp [h.writeAllowed]), withTarget, h.resolves]

theorem run_isFile : FileM.isFile target t = (.ok true, t) := by
  have hisFile : t.isFile target = true := by
    rw [FileTree.isFile, h.file]
    rfl
  rw [FileM.isFile, FileM.probe, h.probed, hisFile]
  rfl

theorem run_identical (hsame : .str old = new) :
    ∃ m, applyPatch rt c args t = (.ok (.failure m), t) := by
  rw [h.run_eq rt, applyPatchAt, Prog.bind_of_ok h.run_isFile]
  simp only [Bool.true_eq_false, if_false, if_pos hsame]
  exact ⟨_, rfl⟩

/-- What is left of the run once the file is read. -/
theorem run_read (hne : .str old ≠ new) : ∃ none many, applyPatch rt c args t
    = (if Text.count old.toList before.universalNewlines = 0 then pure (.failure none)
      else if Text.count old.toList before.universalNewlines > 1 then pure (.failure many)
      else do
        let updated ← FileM.replaceOnce old.toList new before.universalNewlines
        writeText target updated
        let counts := rt.countChanges before.universalNewlines updated.toStr.toList
        pure (.changed s!"patched {c.relative target} (+{counts.1}/-{counts.2})"
          (c.relative target) "MODIFIED" counts.1 counts.2) : FileM ToolResult) t := by
  have hread : readText target t = (.ok before.universalNewlines, t) := by
    rw [readText, h.file]
  rw [h.run_eq rt, applyPatchAt, Prog.bind_of_ok h.run_isFile]
  simp only [Prog.bind_apply, Bool.true_eq_false, if_false, if_neg hne, hread]
  exact ⟨_, _, rfl⟩

/-- An anchor that does not count once is refused. -/
theorem run_refused (hcount : Text.count old.toList before.universalNewlines ≠ 1) :
    ∃ m, applyPatch rt c args t = (.ok (.failure m), t) := by
  by_cases hne : .str old = new
  · exact h.run_identical rt hne
  · obtain ⟨none, many, hrun⟩ := h.run_read rt hne
    rw [hrun]
    split_ifs
    · exact ⟨_, rfl⟩
    · exact ⟨_, rfl⟩
    · omega

end PatchCall

section Once

variable (hcount : Text.count old.toList before.universalNewlines = 1)
include hcount

/-- **An anchor that counts once is replaced**, and the lines are counted. -/
theorem PatchCall.run_once_eq {n : String} (h : PatchCall c args t path target old (.str n) before)
    (hne : old ≠ n) :
    let after := Text.replaceOnce old.toList n.toList before.universalNewlines
    let counts := rt.countChanges before.universalNewlines after
    applyPatch rt c args t
      = (.ok (.changed s!"patched {c.relative target} (+{counts.1}/-{counts.2})"
      (c.relative target) "MODIFIED" counts.1 counts.2), t.put target (.file (.text after))) := by
  obtain ⟨none, many, hrun⟩ := h.run_read rt (by simpa using hne)
  rw [hrun, hcount]
  simp only [Nat.one_ne_zero, if_false, Nat.lt_irrefl, gt_iff_lt, FileM.replaceOnce, ArgValue.toStr,
    Prog.bind_apply, Prog.pure_apply, writeText, canOpen_of_file h.file, if_true,
    String.toList_ofList]

theorem PatchCall.run_once {n : String} (h : PatchCall c args t path target old (.str n) before)
    (hne : old ≠ n) : ∃ r : ToolResult, r.ok = true ∧ applyPatch rt c args t
      = (.ok r, t.put target (.file (.text
          (Text.replaceOnce old.toList n.toList before.universalNewlines)))) :=
  ⟨_, rfl, h.run_once_eq rt hcount hne⟩

/-- …and a new text that has no encoding leaves an empty file. -/
theorem PatchCall.run_once_surrogates {n : WideText}
    (h : PatchCall c args t path target old (.surrogates n) before) :
    ∃ e, applyPatch rt c args t = (.error e, t.put target (.file (.text []))) := by
  obtain ⟨none, many, hrun⟩ := h.run_read rt (by simp)
  rw [hrun, hcount]
  simp only [Nat.one_ne_zero, if_false, Nat.lt_irrefl, gt_iff_lt, FileM.replaceOnce, ArgValue.toStr,
    Prog.bind_apply, Prog.pure_apply, writeText, canOpen_of_file h.file, if_true]
  exact ⟨_, rfl⟩

theorem PatchCall.run_once_json {n : String}
    (h : PatchCall c args t path target old (.json n) before) :
    ∃ e, applyPatch rt c args t = (.error e, t) := by
  obtain ⟨none, many, hrun⟩ := h.run_read rt (by simp)
  rw [hrun, hcount]
  exact ⟨_, rfl⟩

end Once

/-- The outcome of a call that did nothing and did not succeed. -/
def Refused {σ : Type} (t : σ) (outcome : Except PyError ToolResult × σ) : Prop :=
  outcome.2 = t ∧ ∀ r, outcome.1 = .ok r → r.ok = false

theorem refused_failure {σ : Type} {t : σ} (m : String) : Refused t (.ok (.failure m), t) :=
  ⟨rfl, by rintro _ ⟨⟩; rfl⟩

theorem refused_error {σ : Type} {t : σ} (e : PyError) : Refused t (.error e, t) :=
  ⟨rfl, by rintro _ ⟨⟩⟩

theorem refused_positional {σ : Type} {t : σ} {body : Prog σ PyError ToolResult}
    (h : args.lookup "context" = none ∧ args.lookup "self" = none → Refused t (body t)) :
    Refused t ((bindPositional args >>= fun _ => body) t) := by
  rw [bindPositional, Prog.whenever, Prog.bind_apply]
  split_ifs with hpositional
  · exact refused_error _
  · exact h (by simpa only [not_or, not_not] using hpositional)

theorem refused_keyword {σ : Type} {t : σ} {name : String}
    {body : ArgValue → Prog σ PyError ToolResult}
    (h : ∀ v, args.lookup name = some v → Refused t (body v t)) :
    Refused t ((keyword args name >>= body) t) := by
  rw [Prog.bind_apply, keyword]
  rcases hlookup : args.lookup name with _ | v
  · exact refused_error _
  · exact h v hlookup

theorem refused_withTarget {body : Location → FileM ToolResult}
    (h : ∀ target, c.resolve path = .ok target → Refused t (body target t)) :
    Refused t (withTarget c path body t) := by
  rw [withTarget]
  rcases hresolve : c.resolve path with e | target
  · cases e
    case workspaceViolation => exact refused_failure _
    all_goals exact refused_error _
  · exact h target hresolve

/-- A name that is too long is an error. -/
theorem refused_probe {ask : FileTree → Location → Bool} {body : Bool → FileM ToolResult}
    (h : t.tooLong target = false → Refused t (body (ask t target) t)) :
    Refused t ((FileM.probe ask target >>= body) t) := by
  rw [Prog.bind_apply, FileM.probe]
  split_ifs with hlong
  · exact refused_error _
  · exact h (Bool.eq_false_iff.mpr hlong)

/-- **A call does nothing, unless it reaches its file with an anchor that counts once.** -/
theorem refused_applyPatch (h : ¬ ∃ path target old new before,
      PatchCall c args t path target old new before ∧ .str old ≠ new ∧
        Text.count old.toList before.universalNewlines = 1) :
    Refused t (applyPatch rt c args t) := by
  refine refused_positional fun hpositional => refused_keyword fun path hpath =>
    refused_keyword fun oldText hold => refused_keyword fun newText hnew => ?_
  split_ifs with hwrite
  · exact refused_failure _
  refine refused_withTarget fun target hresolve => ?_
  rw [applyPatchAt]
  refine refused_probe fun hprobed => ?_
  split_ifs with hfile hsame
  · exact refused_failure _
  · exact refused_failure _
  rw [Prog.bind_apply, readText]
  rcases hcontent : t.fileAt target with _ | (before | bytes)
  · exact refused_error _
  · rcases oldText with old | lossy | repr
    · have hcall : PatchCall c args t path target old newText before :=
        ⟨hpositional, by simpa using hwrite, hpath, hresolve, hold, hnew, hprobed, hcontent⟩
      have hcount : Text.count old.toList before.universalNewlines ≠ 1 :=
        fun hone => h ⟨path, target, old, newText, before, hcall, hsame, hone⟩
      dsimp only
      split_ifs
      · exact refused_failure _
      · exact refused_failure _
      · omega
    · exact refused_failure _
    · exact refused_error _
  · exact refused_error _

/-- **A patch that succeeds replaced an anchor that counts once.** -/
theorem applyPatch_eq_ok (h : applyPatch rt c args t = (.ok r, t')) (hok : r.ok = true) :
    ∃ path target old n before, PatchCall c args t path target old (.str n) before ∧ old ≠ n ∧
      Text.count old.toList before.universalNewlines = 1 ∧
      t' = t.put target (.file (.text
        (Text.replaceOnce old.toList n.toList before.universalNewlines))) := by
  by_cases hcall : ∃ path target old new before, PatchCall c args t path target old new before ∧
      .str old ≠ new ∧ Text.count old.toList before.universalNewlines = 1
  · obtain ⟨path, target, old, new, before, hcall, hne, hcount⟩ := hcall
    rcases new with n | lossy | repr
    · have hne : old ≠ n := fun heq => hne (congrArg _ heq)
      obtain ⟨r', -, hrun⟩ := hcall.run_once rt hcount hne
      exact ⟨path, target, old, n, before, hcall, hne, hcount,
        congrArg Prod.snd (h.symm.trans hrun)⟩
    · obtain ⟨e, hrun⟩ := hcall.run_once_surrogates rt hcount
      cases congrArg Prod.fst (h.symm.trans hrun)
    · obtain ⟨e, hrun⟩ := hcall.run_once_json rt hcount
      cases congrArg Prod.fst (h.symm.trans hrun)
  · have hrefused := (refused_applyPatch rt hcall).2 r (congrArg Prod.fst h)
    exact absurd (hok.symm.trans hrefused) (by decide)

end Calls

/-! ## Every byte outside the anchor -/

/-- **The bytes before and behind one occurrence of the anchor are unchanged.** -/
def OnlyAnchor (anchor new before after : Text) : Prop :=
  ∃ head tail : List UInt8, encode before = head ++ encode anchor ++ tail ∧
    encode after = head ++ encode new ++ tail

/-- Whatever block of the file counts as the anchor: if the rest is unchanged, every carriage return
of the file was in the block.  What is written around the new text has none. -/
theorem OnlyAnchor.count_return {anchor new before after p s : Text}
    (h : OnlyAnchor anchor new before after) (hafter : after = p ++ new ++ s) (hp : '\r' ∉ p)
    (hs : '\r' ∉ s) : List.count '\r' before = List.count '\r' anchor := by
  obtain ⟨head, tail, hbefore, hencoded⟩ := h
  have hcount := congrArg (List.count 13) hbefore
  have hcount' := congrArg (List.count 13) hencoded
  rw [count_return_encode, List.count_append, List.count_append, count_return_encode]
    at hcount hcount'
  rw [hafter, List.count_append, List.count_append, List.count_eq_zero_of_not_mem hp,
    List.count_eq_zero_of_not_mem hs] at hcount'
  omega

/-- **A patch that succeeds leaves every byte outside the anchor alone exactly if the file has no
carriage return.** -/
theorem applyPatch_onlyAnchor_iff (rt : ToolRuntime) (c : ToolContext) (args : Arguments)
    (t t' : FileTree)
    (r : ToolResult) (h : applyPatch rt c args t = (.ok r, t')) (hok : r.ok = true) :
    ∃ path target old new before after, PatchCall c args t path target old (.str new) before ∧
      t' = t.put target (.file (.text after)) ∧
      (OnlyAnchor old.toList new.toList before after ↔ '\r' ∉ before) := by
  obtain ⟨path, target, old, new, before, hcall, -, hcount, htree⟩ := applyPatch_eq_ok rt h hok
  refine ⟨path, target, old, new, before, _, hcall, htree, ?_⟩
  obtain ⟨p, s, hread, hafter⟩ := Text.exists_replaceOnce_eq new.toList
    (Text.exists_occursAt_of_count (Nat.lt_of_lt_of_eq Nat.one_pos hcount.symm))
  have hfree := return_not_mem_universalNewlines before
  rw [hread, List.mem_append, List.mem_append, not_or, not_or] at hfree
  obtain ⟨⟨hp, hold⟩, hs⟩ := hfree
  constructor
  · intro honly
    have hcount := honly.count_return hafter hp hs
    rw [List.count_eq_zero_of_not_mem hold] at hcount
    exact List.count_eq_zero.mp hcount
  · intro hreturn
    rw [universalNewlines_of_not_mem hreturn] at hread hafter ⊢
    refine ⟨encode p, encode s, ?_, ?_⟩
    · rw [hread, encode_append, encode_append]
    · rw [hafter, encode_append, encode_append]

/-! ## One occurrence -/

/-- The text has an encoding: no unpaired surrogates. -/
def ArgValue.encodes : ArgValue → Bool
  | str _ => true
  | _ => false

def ArgValue.isString : ArgValue → Bool
  | json _ => false
  | _ => true

/-- **The patch is applied**: the call succeeds, and an occurrence of the anchor in the text that
was read is replaced. -/
def Applied (t : FileTree) (target : Location) (old new read : Text)
    (outcome : Except PyError ToolResult × FileTree) : Prop :=
  ∃ r p s, outcome = (.ok r, t.put target (.file (.text (p ++ new ++ s)))) ∧ r.ok = true ∧
    read = p ++ old ++ s

/-- **The anchor is unambiguous**: the patch is applied if and only if the anchor occurs at exactly
one index, and otherwise nothing changes. -/
def Unambiguous (t : FileTree) (target : Location) (old new read : Text)
    (outcome : Except PyError ToolResult × FileTree) : Prop :=
  (Applied t target old new read outcome ↔ ∃! i, Text.OccursAt old read i) ∧
    (¬ Applied t target old new read outcome → outcome.2 = t)

theorem not_applied_of_refused {t : FileTree} {target : Location} {old new read : Text}
    {outcome : Except PyError ToolResult × FileTree} (h : Refused t outcome) :
    ¬ Applied t target old new read outcome := by
  rintro ⟨r, p, s, rfl, hok, -⟩
  exact absurd (hok.symm.trans (h.2 r rfl)) (by decide)

/-- Two occurrences that do not overlap are two. -/
theorem not_existsUnique_of_apart {old read : Text} (hold : old ≠ [])
    (h : ∃ i j, Text.OccursAt old read i ∧ Text.OccursAt old read j ∧ i + old.length ≤ j) :
    ¬ ∃! i, Text.OccursAt old read i := by
  obtain ⟨i, j, hi, hj, hle⟩ := h
  intro hunique
  have hpos := List.length_pos_of_ne_nil hold
  have heq := hunique.unique hi hj
  omega

/-- Emptying a file that has text in it changes the tree. -/
theorem put_empty_ne {t : FileTree} {target : Location} {before : Text}
    (h : t.fileAt target = some (.text before)) (hne : before ≠ []) :
    t.put target (.file (.text [])) ≠ t := by
  intro heq
  have hfile := FileTree.fileAt_put_file t target (.text [])
  rw [heq, h] at hfile
  exact hne (Content.text.inj (Option.some.inj hfile))

theorem ne_nil_of_occursAt {old before : Text} (hold : old ≠ [])
    (h : ∃ i, Text.OccursAt old before.universalNewlines i) : before ≠ [] := by
  rintro rfl
  obtain ⟨i, hi⟩ := h
  exact Text.occursAt_nil hold hi

section Anchors

variable {c : ToolContext} {args : Arguments} {t : FileTree} {path : ArgValue} {old : String}
  {target : Location} {new : ArgValue} {before : Text}

/-- An anchor that counts once is handled without ambiguity where the new text has an encoding. -/
theorem PatchCall.unambiguous_once_iff (rt : ToolRuntime)
    (h : PatchCall c args t path target old new before)
    (hold : old.toList ≠ []) (hne : .str old ≠ new) (hnew : new.isString = true)
    (hcount : Text.count old.toList before.universalNewlines = 1) :
    Unambiguous t target old.toList new.toStr.toList before.universalNewlines
      (applyPatch rt c args t) ↔
      (∃! i, Text.OccursAt old.toList before.universalNewlines i) ∧ new.encodes = true := by
  have hoccurs := (Text.count_pos_iff hold).mp (Nat.lt_of_lt_of_eq Nat.one_pos hcount.symm)
  rcases new with n | lossy | repr
  · obtain ⟨r, hok, hrun⟩ := h.run_once rt hcount (fun heq => hne (congrArg _ heq))
    obtain ⟨p, s, hread, hafter⟩ := Text.exists_replaceOnce_eq n.toList hoccurs
    have happlied : Applied t target old.toList n.toList before.universalNewlines
        (applyPatch rt c args t) := ⟨r, p, s, by rw [hrun, hafter], hok, hread⟩
    exact ⟨fun hun => ⟨hun.1.mp happlied, rfl⟩,
      fun hun => ⟨iff_of_true happlied hun.1, absurd happlied⟩⟩
  · obtain ⟨e, hrun⟩ := h.run_once_surrogates rt hcount
    refine iff_of_false (fun hun => ?_) fun hencodes => Bool.false_ne_true hencodes.2
    refine put_empty_ne h.file (ne_nil_of_occursAt hold hoccurs) ?_
    rw [hrun] at hun
    refine hun.2 ?_
    rintro ⟨r, p, s, houtcome, -⟩
    cases congrArg Prod.fst houtcome
  · exact absurd hnew Bool.false_ne_true

/-- An anchor that does not count once is refused, which is right unless it occurs once. -/
theorem PatchCall.unambiguous_refused_iff (rt : ToolRuntime)
    (h : PatchCall c args t path target old new before)
    (hcount : Text.count old.toList before.universalNewlines ≠ 1) :
    Unambiguous t target old.toList new.toStr.toList before.universalNewlines
      (applyPatch rt c args t) ↔
      ¬ ∃! i, Text.OccursAt old.toList before.universalNewlines i := by
  obtain ⟨m, hrun⟩ := h.run_refused rt hcount
  have hrefused : Refused t (applyPatch rt c args t) := by
    rw [hrun]
    exact refused_failure m
  rw [Unambiguous, iff_false_left (not_applied_of_refused hrefused)]
  exact and_iff_left fun _ => hrefused.1

end Anchors

/-- **An anchor is handled without ambiguity exactly if it does not occur, or occurs once and the
new text has an encoding, or occurs twice without overlap.** -/
theorem applyPatch_unambiguous_iff (rt : ToolRuntime) (c : ToolContext) (args : Arguments)
    (t : FileTree) (path : ArgValue) (target : Location) (old : String)
    (new : ArgValue) (before : Text)
    (h : PatchCall c args t path target old new before) (hold : old ≠ "") (hne : .str old ≠ new)
    (hnew : new.isString = true) :
    Unambiguous t target old.toList new.toStr.toList before.universalNewlines
      (applyPatch rt c args t) ↔
      (∀ i, ¬ Text.OccursAt old.toList before.universalNewlines i) ∨
      ((∃! i, Text.OccursAt old.toList before.universalNewlines i) ∧ new.encodes = true) ∨
      ∃ i j, Text.OccursAt old.toList before.universalNewlines i ∧
        Text.OccursAt old.toList before.universalNewlines j ∧ i + old.toList.length ≤ j := by
  have hold' : old.toList ≠ [] := fun hnil => hold (String.toList_eq_nil_iff.mp hnil)
  by_cases hcount : Text.count old.toList before.universalNewlines = 1
  · obtain ⟨i, hi⟩ := (Text.count_pos_iff hold').mp (Nat.lt_of_lt_of_eq Nat.one_pos hcount.symm)
    have hapart := mt (Text.two_le_count_iff (t := before.universalNewlines) hold').mpr (by omega)
    rw [h.unambiguous_once_iff rt hold' hne hnew hcount, or_iff_right (fun hnone => hnone i hi),
      or_iff_left hapart]
  · rw [h.unambiguous_refused_iff rt hcount]
    rcases Nat.eq_zero_or_pos (Text.count old.toList before.universalNewlines) with hzero | hpos
    · have hnone : ∀ i, ¬ Text.OccursAt old.toList before.universalNewlines i := fun i hi =>
        absurd ((Text.count_pos_iff hold').mpr ⟨i, hi⟩) (by omega)
      exact iff_of_true (fun hunique => hnone _ hunique.choose_spec.1) (.inl hnone)
    · have hapart := (Text.two_le_count_iff (t := before.universalNewlines) hold').mp (by omega)
      exact iff_of_true (not_existsUnique_of_apart hold' hapart) (.inr (.inr hapart))

/-! ## Files that show it -/

/-- A worktree with one file. -/
def patchTree (text : String) : FileTree := fun q =>
  if q = ["work".toList, "F.cs".toList] then some (.file (.text text.toList))
  else if q = [] ∨ q = ["work".toList] then some .dir else none

def patchContext : ToolContext := ⟨["repo".toList], some ["work".toList], 0, true⟩

def patchArguments (old new : String) : Arguments :=
  [("path", .str "F.cs"), ("old_text", .str old), ("new_text", .str new)]

def patchRuntime : ToolRuntime := ⟨fun _ _ => (1, 1), fun _ _ _ _ => .error (.other "OSError" "")⟩

theorem patchCall (text old new : String) :
    PatchCall patchContext (patchArguments old new) (patchTree text) (.str "F.cs")
      ["work".toList, "F.cs".toList] old (.str new) text.toList where
  positional := ⟨rfl, rfl⟩
  writeAllowed := rfl
  pathArg := rfl
  resolves := by decide +kernel
  oldText := rfl
  newText := rfl
  probed := rfl
  file := rfl

/-- A file with `\r\n` at its line ends, in which one statement is replaced. -/
def returnText : String := "using System;\r\nint i;\r\n"

/-- The patch succeeds, and the file has lost its carriage returns, whatever block of it is taken
for the anchor. -/
theorem returnText_changed : ∃ r, r.ok = true ∧
    applyPatch patchRuntime patchContext (patchArguments "int i;" "int j;") (patchTree returnText)
      = (.ok r, (patchTree returnText).put ["work".toList, "F.cs".toList]
          (.file (.text "using System;\nint j;\n".toList))) ∧
    ∀ anchor : Text, anchor.universalNewlines = "int i;".toList →
      ¬ OnlyAnchor anchor "int j;".toList returnText.toList "using System;\nint j;\n".toList := by
  obtain ⟨r, hok, hrun⟩ := (patchCall returnText "int i;" "int j;").run_once patchRuntime
    (by decide +kernel) (by decide)
  have hafter : Text.replaceOnce "int i;".toList "int j;".toList
    (Text.universalNewlines returnText.toList)
      = "using System;\nint j;\n".toList := by decide +kernel
  refine ⟨r, hok, by rw [hrun, hafter], fun anchor hanchor honly => ?_⟩
  have hcount := honly.count_return (p := "using System;\n".toList) (s := ['\n'])
    (by decide +kernel)
    (by decide) (by decide)
  have hreturns : 0 < List.count '\r' anchor := by
    rw [← hcount]
    decide +kernel
  have hnewline := newline_mem_universalNewlines (List.count_pos_iff.mp hreturns)
  rw [hanchor] at hnewline
  exact absurd hnewline (by decide)

/-- The same patch of a file with `\n` at its line ends. -/
theorem plainText_onlyAnchor : ∃ r t', applyPatch patchRuntime patchContext
      (patchArguments "int i;" "int j;") (patchTree "using System;\nint i;\n") = (.ok r, t') ∧
    r.ok = true ∧ ∃ path target old new before after,
      PatchCall patchContext (patchArguments "int i;" "int j;")
        (patchTree "using System;\nint i;\n") path
        target old (.str new) before ∧
      t' = (patchTree "using System;\nint i;\n").put target (.file (.text after)) ∧
      (OnlyAnchor old.toList new.toList before after ↔ '\r' ∉ before) := by
  obtain ⟨r, hok, hrun⟩ := (patchCall "using System;\nint i;\n" "int i;" "int j;").run_once
    patchRuntime
    (by decide +kernel) (by decide)
  exact ⟨r, _, hrun, hok, applyPatch_onlyAnchor_iff _ _ _ _ _ r hrun hok⟩

/-- Two braces occur in three at two places, and one of them is replaced. -/
theorem overlapping_applied :
    ¬ Unambiguous (patchTree "\x7d\x7d\x7d") ["work".toList, "F.cs".toList] "\x7d\x7d".toList
        ";".toList "\x7d\x7d\x7d".toList (applyPatch patchRuntime patchContext
          (patchArguments "\x7d\x7d" ";") (patchTree "\x7d\x7d\x7d")) ∧
      Text.OccursAt "\x7d\x7d".toList "\x7d\x7d\x7d".toList 0 ∧
      Text.OccursAt "\x7d\x7d".toList "\x7d\x7d\x7d".toList 1 := by
  have hzero : Text.OccursAt "\x7d\x7d".toList "\x7d\x7d\x7d".toList 0 := ⟨by decide, by decide⟩
  have hone : Text.OccursAt "\x7d\x7d".toList "\x7d\x7d\x7d".toList 1 := ⟨by decide, by decide⟩
  refine ⟨fun hun => ?_, hzero, hone⟩
  obtain ⟨r, hok, hrun⟩ := (patchCall "\x7d\x7d\x7d" "\x7d\x7d" ";").run_once patchRuntime
    (by decide +kernel) (by decide)
  rw [hrun] at hun
  have hunique := hun.1.mp ⟨r, [], "\x7d".toList, by congr 2, hok, by decide⟩
  exact absurd (hunique.unique hzero hone) (by decide)

/-- An anchor that occurs twice, without overlap, is refused. -/
theorem repeated_unambiguous :
    Unambiguous (patchTree "i = i;") ["work".toList, "F.cs".toList] "i".toList "j".toList
      (Text.universalNewlines "i = i;".toList)
      (applyPatch patchRuntime patchContext (patchArguments "i" "j") (patchTree "i = i;")) := by
  refine (applyPatch_unambiguous_iff _ _ _ _ _ _ _ _ _ (patchCall "i = i;" "i" "j") (by decide)
    (by decide) rfl).mpr (.inr (.inr ⟨0, 4, ⟨?_, ?_⟩, ⟨?_, ?_⟩, ?_⟩))
  all_goals decide +kernel

end AgentPlatform
