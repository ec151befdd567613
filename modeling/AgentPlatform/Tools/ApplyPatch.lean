import AgentPlatform.Tools.Workspace

/-!
# Tools/ApplyPatch — the two tools that change source files

`apply_patch` replaces an anchor that occurs exactly once; `create_file` writes a file that was not
there.  Both resolve their path against the context's root first and report a refusal to the model;
an exception raised by the file system is left to the caller.

The lemma the gates rest on is the frame condition `applyPatch_keeps` / `createFile_keeps`: whatever
a call returns or raises, no file but the one its path resolves to is created or changed.
-/

namespace AgentPlatform

open PosixPath

/-- The `data` of a tool result. -/
structure ToolData where
  path : Option String
  changeType : Option String
  linesAdded : ℕ
  linesRemoved : ℕ
  deriving DecidableEq, Repr

/-- `ToolResult`. -/
structure ToolResult where
  ok : Bool
  content : String
  data : ToolData
  exitCode : Option ℤ
  deriving DecidableEq, Repr

namespace ToolResult

/-- `ToolResult.failure`. -/
def failure (content : String) : ToolResult := ⟨false, content, ⟨none, none, 0, 0⟩, none⟩

/-- `ToolResult.success`, for a tool that changed a file. -/
def changed (content path changeType : String) (added removed : ℕ) : ToolResult :=
  ⟨true, content, ⟨some path, some changeType, added, removed⟩, none⟩

end ToolResult

/-- A program over the file tree. -/
abbrev FileM := Prog FileTree PyError

namespace FileM

/-- A keyword argument without default. -/
def keyword {σ : Type} (args : Arguments) (name : String) : Prog σ PyError ArgValue :=
  match args.lookup name with
  | some v => pure v
  | none => Prog.raise (.other "TypeError" s!"missing required keyword argument: {name}")

/-- `run(tool_context, **arguments)`: a key that names a positional parameter is a `TypeError`. -/
def bindPositional {σ : Type} (args : Arguments) : Prog σ PyError Unit :=
  Prog.whenever (args.lookup "context" ≠ none ∨ args.lookup "self" ≠ none)
    (Prog.raise (.other "TypeError" "got multiple values for an argument"))

/-- A question about a path, answered by its `stat`: that a name is too long is raised. -/
def probe (ask : FileTree → Location → Bool) (target : Location) : FileM Bool := fun t =>
  if t.tooLong target then (.error (.other "OSError" "File name too long"), t)
  else (.ok (ask t target), t)

/-- `Path.is_file`. -/
def isFile : Location → FileM Bool := probe FileTree.isFile

/-- `Path.exists`. -/
def present : Location → FileM Bool := probe FileTree.present

/-- `Path.read_text(encoding="utf-8")`, with universal newlines. -/
def readText (target : Location) : FileM Text := fun t =>
  match t.fileAt target with
  | some (.text s) => (.ok s.universalNewlines, t)
  | some (.binary _) => (.error (.other "UnicodeDecodeError" "invalid utf-8"), t)
  | none => (.error (.other "FileNotFoundError" "no such file"), t)

/-- The location can be opened for writing: it is a file, or absent from an existing directory, by a
name that fits. -/
def canOpen (t : FileTree) (target : Location) : Bool :=
  match t target with
  | some (.file _) => true
  | some .dir => false
  | none => t target.dropLast = some .dir && FileNames.fits (target.getLast?.getD [])

/-- `Path.write_text(data, encoding="utf-8", newline="")`: the file is truncated when it is opened,
so text that cannot be encoded leaves it empty. -/
def writeText (target : Location) (data : ArgValue) : FileM Unit := fun t =>
  match data with
  | .json _ => (.error (.other "TypeError" "data must be str"), t)
  | .str s => if canOpen t target then (.ok (), t.put target (.file (.text s.toList)))
      else (.error (.other "OSError" "cannot open"), t)
  | .surrogates _ => if canOpen t target then
        (.error (.other "UnicodeEncodeError" "surrogates not allowed"),
          t.put target (.file (.text [])))
      else (.error (.other "OSError" "cannot open"), t)

/-- `original.replace(old_text, new_text, 1)`; a surrogate in the new text stays in the result. -/
def replaceOnce {σ : Type} (old : Text) (new : ArgValue) (original : Text) :
    Prog σ PyError ArgValue :=
  let updated := String.ofList (Text.replaceOnce old new.toStr.toList original)
  match new with
  | .str _ => pure (.str updated)
  | .surrogates w => pure (.surrogates (w.replaceOnce old original))
  | .json _ => Prog.raise (.other "TypeError" "replace() argument 2 must be str")

/-- A missing name that is too long to be created. -/
def unfit (t : FileTree) (q : Location) : Bool :=
  decide (t q = none) && !FileNames.fits (q.getLast?.getD [])

/-- `Path.mkdir(parents=True, exist_ok=True)`: a file in its place or on the way is an error,
missing directories are created, from the top and as far as their names fit. -/
def mkdirs (p : Location) : FileM Unit := fun t =>
  if t.isFile p then (.error (.other "FileExistsError" "file exists"), t)
  else if p.inits.any t.isFile then (.error (.other "NotADirectoryError" "not a directory"), t)
  else match p.inits.find? (unfit t) with
    | some q => (.error (.other "OSError" "File name too long"), t.made q.dropLast)
    | none => (.ok (), t.made p)

end FileM

/-- What a registry of tools is made from beside its two editors: `_count_changes`, which counts the
lines of a `difflib` diff, and the tools that only read. -/
structure ToolRuntime where
  countChanges : Text → Text → ℕ × ℕ
  readOnly : String → ToolContext → Arguments → FileTree → Except PyError ToolResult

open FileM ToolResult

/-- `try: target = context.resolve(path)`: an escape from the root is reported, not raised. -/
def withTarget (c : ToolContext) (path : ArgValue) (body : Location → FileM ToolResult) :
    FileM ToolResult :=
  match c.resolve path with
  | .ok target => body target
  | .error (.workspaceViolation m) => pure (failure m)
  | .error e => Prog.raise e

/-- The body of `ApplyPatchTool.run` once the path is resolved. -/
def applyPatchAt (rt : ToolRuntime) (c : ToolContext) (path : String) (target : Location)
    (oldText newText : ArgValue) : FileM ToolResult := do
  let isFile ← FileM.isFile target
  if isFile = false then pure (failure s!"file not found: {path}")
  else if oldText = newText then
    pure (failure "old_text and new_text are identical - nothing to do")
  else do
    let original ← readText target
    match oldText, newText with
    | .str old, new =>
      if Text.count old.toList original = 0 then
        pure (failure
          s!"old_text not found in {path}. Read the file again and copy the exact text.")
      else if Text.count old.toList original > 1 then
        pure (failure <| s!"old_text appears {Text.count old.toList original} times in {path}; " ++
          "include more surrounding context so the anchor is unique.")
      else do
        let updated ← replaceOnce old.toList new original
        writeText target updated
        let counts := rt.countChanges original updated.toStr.toList
        pure (changed s!"patched {c.relative target} (+{counts.1}/-{counts.2})"
          (c.relative target) "MODIFIED" counts.1 counts.2)
    | .surrogates _, _ =>
      pure (failure
        s!"old_text not found in {path}. Read the file again and copy the exact text.")
    | .json _, _ => Prog.raise (.other "TypeError" "must be str")

/-- `ApplyPatchTool.run`. -/
def applyPatch (rt : ToolRuntime) (c : ToolContext) (args : Arguments) : FileM ToolResult := do
  bindPositional args
  let path ← keyword args "path"
  let oldText ← keyword args "old_text"
  let newText ← keyword args "new_text"
  if c.writeAllowed = false then
    pure (failure "writes are not permitted for this task (policy)")
  else withTarget c path fun target => applyPatchAt rt c path.toStr target oldText newText

/-- The body of `CreateFileTool.run` once the path is resolved. -/
def createFileAt (c : ToolContext) (path : String) (target : Location) (content : ArgValue) :
    FileM ToolResult := do
  let present ← FileM.present target
  if present then pure (failure s!"{path} already exists - use apply_patch")
  else do
    mkdirs target.dropLast
    writeText target content
    let lines := (Text.splitlines content.toStr.toList).length
    pure (changed s!"created {c.relative target} ({lines} lines)" (c.relative target) "ADDED"
      lines 0)

/-- `CreateFileTool.run`. -/
def createFile (c : ToolContext) (args : Arguments) : FileM ToolResult := do
  bindPositional args
  let path ← keyword args "path"
  let content ← keyword args "content"
  if c.writeAllowed = false then
    pure (failure "writes are not permitted for this task (policy)")
  else withTarget c path fun target => createFileAt c path.toStr target content

/-! ## The frame condition -/

/-- The location a call may write: what its `path` argument resolves to, where writes are
allowed. -/
def Arguments.target? (c : ToolContext) (args : Arguments) : Option Location :=
  if c.writeAllowed then (args.lookup "path").bind fun path => (c.resolve path).toOption
  else none

theorem Arguments.target?_eq_some {c : ToolContext} {args : Arguments} {q : Location}
    (h : args.target? c = some q) : c.writeAllowed = true ∧
      ∃ path, args.lookup "path" = some path ∧ c.resolve path = .ok q := by
  rw [Arguments.target?] at h
  split_ifs at h with hw
  obtain ⟨path, hpath, hq⟩ := Option.bind_eq_some_iff.mp h
  refine ⟨hw, path, hpath, ?_⟩
  rcases hresolve : c.resolve path with e | target
  · rw [hresolve] at hq
    cases hq
  · rw [hresolve] at hq
    exact congrArg Except.ok (Option.some.inj hq)

/-- No file outside `target` is created or changed, and no directory is replaced. -/
structure OnlyAt (target : Option Location) (t t' : FileTree) : Prop where
  files : ∀ q, target ≠ some q → t'.fileAt q = t.fileAt q
  dirs : ∀ q, t q = some .dir → t' q = some .dir

instance (target : Option Location) : IsPreorder FileTree (OnlyAt target) where
  refl _ := ⟨fun _ _ => rfl, fun _ h => h⟩
  trans _ _ _ h₁ h₂ := ⟨fun q hq => (h₂.files q hq).trans (h₁.files q hq),
    fun q hq => h₂.dirs q (h₁.dirs q hq)⟩

namespace FileM

theorem keyword_keeps {σ : Type} {R : σ → σ → Prop} [IsPreorder σ R] (args : Arguments)
    (name : String) : Prog.Keeps R (keyword args name) := by
  rw [keyword]
  split
  · exact Prog.keeps_pure _
  · exact Prog.keeps_raise _

theorem bindPositional_keeps {σ : Type} {R : σ → σ → Prop} [IsPreorder σ R] (args : Arguments) :
    Prog.Keeps R (bindPositional args) :=
  (Prog.keeps_raise _).whenever

theorem probe_keeps {R : FileTree → FileTree → Prop} [IsPreorder FileTree R]
    (ask : FileTree → Location → Bool) (target : Location) : Prog.Keeps R (probe ask target) := by
  intro t
  rw [probe]
  split <;> exact refl t

theorem readText_keeps {R : FileTree → FileTree → Prop} [IsPreorder FileTree R]
    (target : Location) : Prog.Keeps R (readText target) := by
  intro t
  rw [readText]
  split <;> exact refl t

theorem replaceOnce_keeps {σ : Type} {R : σ → σ → Prop} [IsPreorder σ R] (old : Text)
    (new : ArgValue) (original : Text) : Prog.Keeps R (replaceOnce old new original) := by
  cases new
  · exact Prog.keeps_pure _
  · exact Prog.keeps_pure _
  · exact Prog.keeps_raise _

theorem writeText_keeps (target : Location) (data : ArgValue) :
    Prog.Keeps (OnlyAt (some target)) (writeText target data) := by
  intro t
  have hput : ∀ e, canOpen t target = true → OnlyAt (some target) t (t.put target e) := by
    intro e hopen
    refine ⟨fun q hq => FileTree.fileAt_put_of_ne (fun h => hq (congrArg some h.symm)) e,
      fun q hq => ?_⟩
    have hne : q ≠ target := by
      rintro rfl
      simp [canOpen, hq] at hopen
    rw [FileTree.put, if_neg hne, hq]
  have hopen : ∀ (r : Except PyError Unit) (e : FileEntry), OnlyAt (some target) t
      (if canOpen t target then (r, t.put target e)
        else (.error (.other "OSError" "cannot open"), t)).2 := by
    intro r e
    split
    · exact hput e ‹_›
    · exact refl t
  cases data with
  | str s => exact hopen _ _
  | surrogates s => exact hopen _ _
  | json s => exact refl t

/-- Directories where nothing was change no file. -/
theorem onlyAt_made (target : Option Location) (t : FileTree) (p : Location) :
    OnlyAt target t (t.made p) := by
  have hsame : ∀ q e, t q = some e → t.made p q = some e := fun q e hq => by
    rw [FileTree.made, if_neg (by simp [hq]), hq]
  refine ⟨fun q _ => ?_, fun q hq => hsame q _ hq⟩
  rw [FileTree.fileAt, FileTree.fileAt]
  rcases hq : t q with _ | e
  · rw [FileTree.made, hq]
    split_ifs <;> rfl
  · rw [hsame q e hq]

/-- Creating directories creates no file. -/
theorem mkdirs_keeps (target : Option Location) (p : Location) :
    Prog.Keeps (OnlyAt target) (mkdirs p) := by
  intro t
  rw [mkdirs]
  split_ifs
  · exact refl t
  · exact refl t
  · split
    · exact onlyAt_made _ _ _
    · exact onlyAt_made _ _ _

end FileM

/-- **A patch touches no file but its target.** -/
theorem applyPatchAt_keeps (rt : ToolRuntime) (c : ToolContext) (path : String)
    (target : Location) (oldText newText : ArgValue) :
    Prog.Keeps (OnlyAt (some target)) (applyPatchAt rt c path target oldText newText) := by
  refine Prog.Keeps.bind (FileM.probe_keeps _ _) fun isFile => ?_
  refine Prog.Keeps.ite (fun _ => Prog.keeps_pure _) fun _ => ?_
  refine Prog.Keeps.ite (fun _ => Prog.keeps_pure _) fun _ => ?_
  refine Prog.Keeps.bind (FileM.readText_keeps target) fun original => ?_
  rcases oldText with old | old | old
  · refine Prog.Keeps.ite (fun _ => Prog.keeps_pure _) fun _ => ?_
    refine Prog.Keeps.ite (fun _ => Prog.keeps_pure _) fun _ => ?_
    refine Prog.Keeps.bind (FileM.replaceOnce_keeps _ _ _) fun updated => ?_
    exact Prog.Keeps.bind (FileM.writeText_keeps _ _) fun _ => Prog.keeps_pure _
  · exact Prog.keeps_pure _
  · exact Prog.keeps_raise _

/-- **A new file touches no file but its target.** -/
theorem createFileAt_keeps (c : ToolContext) (path : String) (target : Location)
    (content : ArgValue) :
    Prog.Keeps (OnlyAt (some target)) (createFileAt c path target content) := by
  refine Prog.Keeps.bind (FileM.probe_keeps _ _) fun present => ?_
  refine Prog.Keeps.ite (fun _ => Prog.keeps_pure _) fun _ => ?_
  refine Prog.Keeps.bind (FileM.mkdirs_keeps _ _) fun _ => ?_
  exact Prog.Keeps.bind (FileM.writeText_keeps _ _) fun _ => Prog.keeps_pure _

/-- A body that keeps to its target, run on whatever the path argument resolves to. -/
theorem withTarget_keeps {c : ToolContext} {args : Arguments} {path : ArgValue}
    (hw : c.writeAllowed = true) (hpath : args.lookup "path" = some path)
    {body : Location → FileM ToolResult}
    (hbody : ∀ target, Prog.Keeps (OnlyAt (some target)) (body target)) :
    Prog.Keeps (OnlyAt (args.target? c)) (withTarget c path body) := by
  have htarget : args.target? c = (c.resolve path).toOption := by
    rw [Arguments.target?, if_pos hw, hpath]
    rfl
  rw [htarget, withTarget]
  rcases c.resolve path with e | target
  · cases e
    case workspaceViolation => exact Prog.keeps_pure _
    all_goals exact Prog.keeps_raise _
  · exact hbody target

/-- A keyword argument the call goes on with is the one the dictionary holds. -/
theorem keyword_bind_keeps {σ : Type} {R : σ → σ → Prop} [IsPreorder σ R] {args : Arguments}
    {name : String} {α : Type} {body : ArgValue → Prog σ PyError α}
    (hbody : ∀ v, args.lookup name = some v → Prog.Keeps R (body v)) :
    Prog.Keeps R (keyword args name >>= body) := by
  intro t
  rcases h : args.lookup name with _ | v
  · rw [Prog.bind_apply, keyword, h]
    exact refl t
  · rw [Prog.bind_apply, keyword, h]
    exact hbody v h t

/-- **`apply_patch` changes no file but the one its path resolves to**, whatever it returns or
raises. -/
theorem applyPatch_keeps (rt : ToolRuntime) (c : ToolContext) (args : Arguments) :
    Prog.Keeps (OnlyAt (args.target? c)) (applyPatch rt c args) := by
  refine Prog.Keeps.bind (FileM.bindPositional_keeps args) fun _ => ?_
  refine keyword_bind_keeps fun path hpath => ?_
  refine Prog.Keeps.bind (FileM.keyword_keeps _ _) fun oldText => ?_
  refine Prog.Keeps.bind (FileM.keyword_keeps _ _) fun newText => ?_
  refine Prog.Keeps.ite (fun _ => Prog.keeps_pure _) fun hw => ?_
  exact withTarget_keeps (Bool.not_eq_false _ ▸ hw) hpath fun target =>
    applyPatchAt_keeps rt c _ target oldText newText

/-- **`create_file` creates no file but the one its path resolves to.** -/
theorem createFile_keeps (c : ToolContext) (args : Arguments) :
    Prog.Keeps (OnlyAt (args.target? c)) (createFile c args) := by
  refine Prog.Keeps.bind (FileM.bindPositional_keeps args) fun _ => ?_
  refine keyword_bind_keeps fun path hpath => ?_
  refine Prog.Keeps.bind (FileM.keyword_keeps _ _) fun content => ?_
  refine Prog.Keeps.ite (fun _ => Prog.keeps_pure _) fun hw => ?_
  exact withTarget_keeps (Bool.not_eq_false _ ▸ hw) hpath fun target =>
    createFileAt_keeps c _ target content

/-! ## Limits -/

/-- What is new has a name that fits, and nothing changes at a path that is too long. -/
structure InLimits (t t' : FileTree) : Prop where
  names : t.NamesFit → t'.NamesFit
  paths : ∀ q, maxPath < byteLength q → t'.fileAt q = t.fileAt q

instance : IsPreorder FileTree InLimits where
  refl _ := ⟨id, fun _ _ => rfl⟩
  trans _ _ _ h₁ h₂ := ⟨h₂.names ∘ h₁.names, fun q hq => (h₂.paths q hq).trans (h₁.paths q hq)⟩

/-- **A file that is created or changed has a path that fits.** -/
theorem InLimits.fits {t t' : FileTree} (h : InLimits t t') (ht : t.NamesFit) {q : Location}
    (hq : t'.fileAt q ≠ t.fileAt q) : Fits q := by
  refine ⟨Nat.not_lt.mp fun hlong => hq (h.paths q hlong), ?_⟩
  by_cases hold : t q = none
  · refine h.names ht q fun hnew => hq ?_
    rw [FileTree.fileAt, FileTree.fileAt, hold, hnew]
  · exact ht q hold

namespace FileM

variable {t : FileTree} {p target : Location}

theorem writeText_inLimits (h : byteLength target ≤ maxPath) (data : ArgValue) :
    Prog.Keeps InLimits (writeText target data) := by
  intro t
  have hput : ∀ e, canOpen t target = true → InLimits t (t.put target e) := by
    intro e hopen
    refine ⟨fun ht q hq name hname => ?_, fun q hq => FileTree.fileAt_put_of_ne ?_ e⟩
    · by_cases hqt : q = target
      · subst hqt
        by_cases hold : t q = none
        · rw [canOpen, hold, Bool.and_eq_true, decide_eq_true_eq] at hopen
          have hne : q ≠ [] := List.ne_nil_of_mem hname
          rw [← List.dropLast_append_getLast hne, List.mem_append, List.mem_singleton] at hname
          rcases hname with hname | rfl
          · exact ht q.dropLast (by simp [hopen.1]) name hname
          · rw [List.getLast?_eq_getLast_of_ne_nil hne] at hopen
            exact hopen.2
        · exact ht q hold name hname
      · rw [FileTree.put, if_neg hqt] at hq
        exact ht q hq name hname
    · rintro rfl
      omega
  have hopen : ∀ (r : Except PyError Unit) (e : FileEntry), InLimits t
      (if canOpen t target then (r, t.put target e)
        else (.error (.other "OSError" "cannot open"), t)).2 := by
    intro r e
    split
    · exact hput e ‹_›
    · exact refl t
  cases data with
  | str s => exact hopen _ _
  | surrogates w => exact hopen _ _
  | json s => exact refl t

theorem made_inLimits (h : ∀ q ∈ p.inits, unfit t q = false) : InLimits t (t.made p) := by
  refine ⟨fun ht q hq => ?_, fun q _ => (onlyAt_made none t p).files q (by simp)⟩
  by_cases hold : t q = none
  · rw [FileTree.made] at hq
    split_ifs at hq with hmade
    · have hinit := (List.mem_inits _ _).mp (List.contains_iff_mem.mp hmade.1)
      clear hq hold hmade
      -- Name by name: what is missing has a name that fits, and what is there has names that do.
      induction q using List.reverseRecOn with
      | nil => simp
      | append_singleton q name ih =>
        have hbefore := ih ((List.prefix_append q [name]).trans hinit)
        by_cases hold : t (q ++ [name]) = none
        · have hfit := h _ ((List.mem_inits _ _).mpr hinit)
          rw [unfit, hold, List.getLast?_concat] at hfit
          intro name' hname'
          rcases List.mem_append.mp hname' with hname' | hname'
          · exact hbefore name' hname'
          · rw [List.mem_singleton.mp hname']
            simpa using hfit
        · exact ht _ hold
    · exact absurd hold hq
  · exact ht q hold

/-- What comes before the first name that is too long. -/
theorem unfit_of_find {q₀ : Location} (h : p.inits.find? (unfit t) = some q₀) :
    unfit t q₀ = true ∧ q₀ <+: p ∧ ∀ q ∈ q₀.dropLast.inits, unfit t q = false := by
  obtain ⟨hunfit, i, hi, hq₀, hbefore⟩ := List.find?_eq_some_iff_getElem.mp h
  rw [List.getElem_inits] at hq₀
  subst hq₀
  refine ⟨hunfit, List.take_prefix i p, fun q hq => ?_⟩
  have hinit := (List.mem_inits _ _).mp hq
  have hlt : q.length < i := by
    have hle := hinit.length_le
    have hpos : 0 < (p.take i).length := by
      refine List.length_pos_of_ne_nil fun hnil => ?_
      rw [unfit, hnil] at hunfit
      exact absurd hunfit (by simp; exact fun _ => rfl)
    rw [List.length_dropLast] at hle
    rw [List.length_take] at hle hpos
    omega
  have hq : q = p.take q.length := by
    refine (List.prefix_iff_eq_take.mp ?_)
    exact hinit.trans ((List.dropLast_prefix _).trans (List.take_prefix i p))
  have hnot := hbefore q.length hlt
  rw [List.getElem_inits, ← hq] at hnot
  simpa using hnot

theorem mkdirs_inLimits (p : Location) : Prog.Keeps InLimits (mkdirs p) := by
  intro t
  rw [mkdirs]
  split_ifs
  · exact refl t
  · exact refl t
  · split
    · rename_i q₀ hfind
      exact made_inLimits (unfit_of_find hfind).2.2
    · rename_i hfind
      exact made_inLimits fun q hq => Bool.eq_false_iff.mpr (List.find?_eq_none.mp hfind q hq)

/-- After a question about a path, its length is in order. -/
theorem probe_bind_keeps {R : FileTree → FileTree → Prop} [IsPreorder FileTree R] {α : Type}
    {ask : FileTree → Location → Bool} {body : Bool → FileM α}
    (h : byteLength target ≤ maxPath → ∀ answer, Prog.Keeps R (body answer)) :
    Prog.Keeps R (probe ask target >>= body) := by
  intro t
  rw [Prog.bind_apply, probe]
  split_ifs with hlong
  · exact refl t
  · refine h ?_ _ t
    rw [FileTree.tooLong, Bool.or_eq_true, not_or, decide_eq_true_eq] at hlong
    exact Nat.not_lt.mp hlong.1

end FileM

/-- …for a body that keeps them, run on whatever the path argument resolves to. -/
theorem withTarget_inLimits {c : ToolContext} {path : ArgValue}
    {body : Location → FileM ToolResult} (hbody : ∀ target, Prog.Keeps InLimits (body target)) :
    Prog.Keeps InLimits (withTarget c path body) := by
  rw [withTarget]
  rcases c.resolve path with e | target
  · cases e
    case workspaceViolation => exact Prog.keeps_pure _
    all_goals exact Prog.keeps_raise _
  · exact hbody target

theorem applyPatch_inLimits (rt : ToolRuntime) (c : ToolContext) (args : Arguments) :
    Prog.Keeps InLimits (applyPatch rt c args) := by
  refine Prog.Keeps.bind (FileM.bindPositional_keeps args) fun _ => ?_
  refine Prog.Keeps.bind (FileM.keyword_keeps _ _) fun path => ?_
  refine Prog.Keeps.bind (FileM.keyword_keeps _ _) fun oldText => ?_
  refine Prog.Keeps.bind (FileM.keyword_keeps _ _) fun newText => ?_
  refine Prog.Keeps.ite (fun _ => Prog.keeps_pure _) fun _ => withTarget_inLimits fun target => ?_
  refine FileM.probe_bind_keeps fun hlength isFile => ?_
  refine Prog.Keeps.ite (fun _ => Prog.keeps_pure _) fun _ => ?_
  refine Prog.Keeps.ite (fun _ => Prog.keeps_pure _) fun _ => ?_
  refine Prog.Keeps.bind (FileM.readText_keeps target) fun original => ?_
  rcases oldText with old | old | old
  · refine Prog.Keeps.ite (fun _ => Prog.keeps_pure _) fun _ => ?_
    refine Prog.Keeps.ite (fun _ => Prog.keeps_pure _) fun _ => ?_
    refine Prog.Keeps.bind (FileM.replaceOnce_keeps _ _ _) fun updated => ?_
    exact Prog.Keeps.bind (FileM.writeText_inLimits hlength _) fun _ => Prog.keeps_pure _
  · exact Prog.keeps_pure _
  · exact Prog.keeps_raise _

theorem createFile_inLimits (c : ToolContext) (args : Arguments) :
    Prog.Keeps InLimits (createFile c args) := by
  refine Prog.Keeps.bind (FileM.bindPositional_keeps args) fun _ => ?_
  refine Prog.Keeps.bind (FileM.keyword_keeps _ _) fun path => ?_
  refine Prog.Keeps.bind (FileM.keyword_keeps _ _) fun content => ?_
  refine Prog.Keeps.ite (fun _ => Prog.keeps_pure _) fun _ => withTarget_inLimits fun target => ?_
  refine FileM.probe_bind_keeps fun hlength present => ?_
  refine Prog.Keeps.ite (fun _ => Prog.keeps_pure _) fun _ => ?_
  refine Prog.Keeps.bind (FileM.mkdirs_inLimits _) fun _ => ?_
  exact Prog.Keeps.bind (FileM.writeText_inLimits hlength _) fun _ => Prog.keeps_pure _

end AgentPlatform
