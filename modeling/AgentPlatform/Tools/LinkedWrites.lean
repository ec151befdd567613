import AgentPlatform.Machinery.Landings
import AgentPlatform.Machinery.RealPaths
import AgentPlatform.Tools.Patching
import AgentPlatform.Tools.ReadTools

/-!
# Tools/LinkedWrites — the editing tools on a disk with links, and the worktrees around them

`apply_patch` and `create_file` again, where a path may lead through links anywhere: the root and
the path are resolved, the target is checked against the root name by name, and what is opened
afterwards is opened by the kernel, which follows links as well.  A target that was cut short at a
link that leads back to itself still has links in it: the file that is written is the one it leads
to, and where that is outside the root the call raises at its end, when it is to show the path.

* `write_stays` — a call that succeeds writes the one file its path leads to, strictly below its
  root, and nothing under the worktree of another task; a path that resolves outside the root is
  refused.
* `editTool_writesInside` — whatever a call returns or raises, no file is written but inside the
  root and where a path that was cut short leads.
-/

namespace AgentPlatform

open PosixPath Symlinks

namespace LinkedWrites

/-- A program over a disk. -/
abbrev DiskM := Prog Storage PyError

/-- What a registry of tools is made from beside its two editors, on a disk. -/
structure DiskRuntime where
  countChanges : Text → Text → ℕ × ℕ
  readOnly : String → ToolContext → Arguments → Storage → Except PyError ToolResult

/-! ## Files -/

/-- The text bytes are the encoding of. -/
def decodeStrict (bytes : List UInt8) : Option Text :=
  if encode (Text.decode bytes) = bytes then some (Text.decode bytes) else none

/-- A question about a path, answered by its `stat`: that a name is too long is raised. -/
def probe (ask : Disk → Location → Bool) (target : Location) : DiskM Bool := fun s =>
  if byteLength target > maxPath ∨ s.disk.lookup target = .failed .nameTooLong then
    (.error (.other "OSError" "File name too long"), s)
  else (.ok (ask s.disk target), s)

/-- `Path.is_file`. -/
def isFile : Location → DiskM Bool := probe Disk.isFile

/-- `Path.exists`. -/
def present : Location → DiskM Bool := probe fun d p => (d.stat p).isSome

/-- `Path.read_text(encoding="utf-8")`. -/
def readText (path : Location) : DiskM Text := fun s =>
  match s.disk.fileAt path with
  | none => (.error (.other "FileNotFoundError" "no such file"), s)
  | some p =>
    match decodeStrict (s.contents p) with
    | none => (.error (.other "UnicodeDecodeError" "invalid utf-8"), s)
    | some t => (.ok t.universalNewlines, s)

/-- `Path.write_text(data, encoding="utf-8", newline="")`. -/
def writeText (path : Location) (data : ArgValue) : DiskM Unit := fun s =>
  match data, s.disk.opened path with
  | .json _, _ => (.error (.other "TypeError" "data must be str"), s)
  | _, none => (.error (.other "OSError" "cannot open"), s)
  | .str text, some p => (.ok (), s.put p (encode text.toList))
  | .surrogates _, some p => (.error (.other "UnicodeEncodeError" "surrogates not allowed"),
    s.put p [])

/-- What `mkdir` raises for a path that is no directory and cannot be made one: the last, or one on
the way. -/
def mkdirError (d : Disk) (path : Location) (last : Bool) : PyError :=
  match d.lookup path with
  | .failed .nameTooLong => .other "OSError" "File name too long"
  | .failed .loop =>
    if last then .other "FileExistsError" "file exists"
    else .other "OSError" "Too many levels of symbolic links"
  | .failed .notDir | .found _ =>
    if last then .other "FileExistsError" "file exists"
    else .other "NotADirectoryError" "not a directory"
  -- a link that leads nowhere
  | .failed .noEntry | .free _ => .other "FileExistsError" "file exists"

/-- `Path.mkdir(parents=True, exist_ok=True)`.  What was made before something was in the way
stays. -/
def mkdirs (path : Location) : DiskM Unit := fun s =>
  match s.makeDirs path with
  | (s', none) => (.ok (), s')
  | (s', some q) => (.error (mkdirError s'.disk q (q = path)), s')

/-- `context.relative`. -/
def relative (c : ToolContext) (path : Location) : DiskM String := fun s =>
  ((ReadTools.relative s.disk c.root path).map String.ofList, s)

/-! ## The tools -/

/-- `try: target = context.resolve(path)`. -/
def withTarget (c : ToolContext) (path : ArgValue) (body : Location → DiskM ToolResult) :
    DiskM ToolResult := fun s =>
  match ReadTools.resolveInside s.disk c.root path with
  | .ok target => body target s
  | .error (.workspaceViolation m) => (.ok (.failure m), s)
  | .error e => (.error e, s)

/-- The body of `ApplyPatchTool.run` once the path is resolved. -/
def applyPatchAt (rt : DiskRuntime) (c : ToolContext) (path : String) (target : Location)
    (oldText newText : ArgValue) : DiskM ToolResult := do
  let isFile ← isFile target
  if isFile = false then pure (.failure s!"file not found: {path}")
  else if oldText = newText then
    pure (.failure "old_text and new_text are identical - nothing to do")
  else do
    let original ← readText target
    match oldText with
    | .json _ => Prog.raise (.other "TypeError" "must be str")
    | .surrogates _ =>
      pure (.failure s!"old_text not found in {path}. Read the file again and copy the exact text.")
    | .str old =>
      if Text.count old.toList original = 0 then
        pure
          (.failure s!"old_text not found in {path}. Read the file again and copy the exact text.")
      else if Text.count old.toList original > 1 then
        pure (.failure <| s!"old_text appears {Text.count old.toList original} times in {path}; " ++
          "include more surrounding context so the anchor is unique.")
      else do
        let updated ← FileM.replaceOnce old.toList newText original
        writeText target updated
        let counts := rt.countChanges original updated.toStr.toList
        let shown ← relative c target
        pure (.changed s!"patched {shown} (+{counts.1}/-{counts.2})" shown "MODIFIED"
          counts.1 counts.2)

/-- `ApplyPatchTool.run`. -/
def applyPatch (rt : DiskRuntime) (c : ToolContext) (args : Arguments) : DiskM ToolResult := do
  FileM.bindPositional args
  let path ← FileM.keyword args "path"
  let oldText ← FileM.keyword args "old_text"
  let newText ← FileM.keyword args "new_text"
  if c.writeAllowed = false then
    pure (.failure "writes are not permitted for this task (policy)")
  else withTarget c path fun target => applyPatchAt rt c path.toStr target oldText newText

/-- The body of `CreateFileTool.run` once the path is resolved. -/
def createFileAt (c : ToolContext) (path : String) (target : Location) (content : ArgValue) :
    DiskM ToolResult := do
  let present ← present target
  if present then pure (.failure s!"{path} already exists - use apply_patch")
  else do
    mkdirs target.dropLast
    writeText target content
    let lines := (Text.splitlines content.toStr.toList).length
    let shown ← relative c target
    pure (.changed s!"created {shown} ({lines} lines)" shown "ADDED" lines 0)

/-- `CreateFileTool.run`. -/
def createFile (c : ToolContext) (args : Arguments) : DiskM ToolResult := do
  FileM.bindPositional args
  let path ← FileM.keyword args "path"
  let content ← FileM.keyword args "content"
  if c.writeAllowed = false then
    pure (.failure "writes are not permitted for this task (policy)")
  else withTarget c path fun target => createFileAt c path.toStr target content

/-- The two tools that edit. -/
inductive EditTool where
  | applyPatch
  | createFile
  deriving DecidableEq

/-- `tool.run(tool_context, **arguments)`. -/
def EditTool.run (rt : DiskRuntime) (c : ToolContext)
    (args : Arguments) : EditTool → DiskM ToolResult
  | .applyPatch => LinkedWrites.applyPatch rt c args
  | .createFile => LinkedWrites.createFile c args

/-! ## The property -/

/-- **One file is written**, the one at `p`, strictly below the root: it is new, or what is written
is not what was read.  Everything else is unchanged, but for new directories between the two. -/
structure WritesOne (root p : Location) (s s' : Storage) : Prop where
  inside : root <+: p
  strict : p ≠ root
  written : s'.disk.kindAt p = some .file
  changed : s.disk.kindAt p = none ∨ (s.disk.kindAt p = some .file ∧ ∃ before after,
    decodeStrict (s.contents p) = some before ∧ s'.contents p = encode after ∧
      after ≠ before.universalNewlines)
  others : ∀ q, q ≠ p → s'.contents q = s.contents q ∧
    (s'.disk.kindAt q = s.disk.kindAt q ∨
      (s.disk.kindAt q = none ∧ s'.disk.kindAt q = some .dir ∧ root <+: q ∧ q <+: p))

/-- Nothing under the directory is created, changed or removed. -/
def SameUnder (dir : Location) (s s' : Storage) : Prop :=
  ∀ q, dir <+: q → s'.disk.kindAt q = s.disk.kindAt q ∧ s'.contents q = s.contents q

/-- Where `Path.resolve` takes a path from the root. -/
def resolved (disk : Disk) (root : Location) (path : ArgValue) : Except PyError Location :=
  match path.spelled with
  | none => .error (.other "TypeError" "expected str, bytes or os.PathLike object")
  | some raw => ReadTools.resolvePath disk
      (if isAbsolute raw then ReadTools.parts raw else root ++ ReadTools.parts raw)

/-! ## What a success did -/

section Success

variable {rt : DiskRuntime} {c : ToolContext} {s s' : Storage} {r : ToolResult}
  {target p : Location} {path : String}

/-- A tool that reports a failure has not succeeded. -/
theorem not_ok_of_failure {m : String} (h : (pure (.failure m) : DiskM ToolResult) s = (.ok r, s'))
    (hok : r.ok = true) : False := by
  obtain ⟨rfl, -⟩ := Prog.pure_eq_ok.mp h
  exact Bool.false_ne_true hok

theorem withTarget_eq_ok {arg : ArgValue} {body : Location → DiskM ToolResult}
    (h : withTarget c arg body s = (.ok r, s')) (hok : r.ok = true) :
    ∃ target, ReadTools.resolveInside s.disk c.root arg = .ok target ∧
    body target s = (.ok r, s') := by
  rw [withTarget] at h
  split at h
  · rename_i target htarget
    exact ⟨target, htarget, h⟩
  · cases h
    cases hok
  · cases h

theorem probe_eq_ok {ask : Disk → Location → Bool} {answer : Bool}
    (h : probe ask target s = (.ok answer, s')) : s = s' ∧ ask s.disk target = answer := by
  rw [probe] at h
  split_ifs at h
  · cases (Prod.mk.inj h).1
  · obtain ⟨hanswer, hsame⟩ := Prod.mk.inj h
    exact ⟨hsame, Except.ok.inj hanswer⟩

theorem readText_eq_ok {text : Text} (h : readText target s = (.ok text, s')) : s = s' ∧
    ∃ p before, s.disk.fileAt target = some p ∧ decodeStrict (s.contents p) = some before ∧
      text = before.universalNewlines := by
  rw [readText] at h
  split at h
  · cases h
  · rename_i p hfile
    split at h
    · cases h
    · rename_i before hbefore
      cases h
      exact ⟨rfl, p, before, hfile, hbefore, rfl⟩

theorem writeText_eq_ok {data : ArgValue} {u : Unit} (h : writeText target data s = (.ok u, s')) :
    ∃ text p, data = .str text ∧ s.disk.opened target = some p ∧
    s' = s.put p (encode text.toList) := by
  unfold writeText at h
  split at h
  · cases h
  · cases h
  · rename_i text p hopened
    cases h
    exact ⟨text, p, rfl, hopened, rfl⟩
  · cases h

theorem relative_eq_ok {shown : String} (h : relative c target s = (.ok shown, s')) :
    s = s' ∧ ∃ text, ReadTools.relative s.disk c.root target = .ok text := by
  rw [relative] at h
  obtain ⟨hshown, hsame⟩ := Prod.mk.inj h
  cases hrel : ReadTools.relative s.disk c.root target with
  | error e =>
    rw [hrel] at hshown
    cases hshown
  | ok text => exact ⟨hsame, text, rfl⟩

theorem mkdirs_eq_ok {q : Location} {u : Unit} (h : mkdirs q s = (.ok u, s')) :
    s.makeDirs q = (s', none) := by
  rw [mkdirs] at h
  rcases hmade : s.makeDirs q with ⟨s₁, _ | stop⟩
  · rw [hmade] at h
    rw [(Prod.mk.inj h).2]
  · rw [hmade] at h
    cases (Prod.mk.inj h).1

/-- **What a call that succeeds has written**: the file its target leads to, which has a place below
the root. -/
structure Written (c : ToolContext) (target p : Location) (s s' : Storage) : Prop where
  grows : Storage.Grows p s s'
  found : s'.disk.lookup target = .found p
  file : s'.disk.kindAt p = some .file
  changed : s.disk.kindAt p = none ∨ (s.disk.kindAt p = some .file ∧ ∃ before after,
    decodeStrict (s.contents p) = some before ∧ s'.contents p = encode after ∧
      after ≠ before.universalNewlines)
  shown : ∃ text, ReadTools.relative s'.disk c.root target = .ok text

/-- **A patch that succeeds replaces the text of the file.** -/
theorem applyPatchAt_eq_ok {oldText newText : ArgValue}
    (h : applyPatchAt rt c path target oldText newText s = (.ok r, s')) (hok : r.ok = true) :
    ∃ p, Written c target p s s' := by
  obtain ⟨isFile, s₁, hprobe, h⟩ := Prog.bind_eq_ok.mp h
  obtain ⟨rfl, -⟩ := probe_eq_ok hprobe
  split_ifs at h with hfile hsame
  · exact (not_ok_of_failure h hok).elim
  · exact (not_ok_of_failure h hok).elim
  obtain ⟨original, s₂, htext, h⟩ := Prog.bind_eq_ok.mp h
  obtain ⟨rfl, p, before, hat, hbefore, rfl⟩ := readText_eq_ok htext
  obtain ⟨hfound, hkind⟩ := Disk.fileAt_eq_some.mp hat
  split at h
  · exact (Prog.raise_eq_ok.mp h).elim
  · exact (not_ok_of_failure h hok).elim
  rename_i old
  split_ifs at h with hnone hmany
  · exact (not_ok_of_failure h hok).elim
  · exact (not_ok_of_failure h hok).elim
  obtain ⟨updated, s₃, hreplace, h⟩ := Prog.bind_eq_ok.mp h
  obtain ⟨_, s₄, hwrite, h⟩ := Prog.bind_eq_ok.mp h
  obtain ⟨shown, s₅, hshown, h⟩ := Prog.bind_eq_ok.mp h
  obtain ⟨-, rfl⟩ := Prog.pure_eq_ok.mp h
  obtain ⟨rfl, hrelative⟩ := relative_eq_ok hshown
  obtain ⟨text, p', rfl, hopened, rfl⟩ := writeText_eq_ok hwrite
  rcases newText with new | w | repr
  · obtain ⟨hupdated, rfl⟩ := Prog.pure_eq_ok.mp hreplace
    obtain rfl : p = p' := by
      rw [Disk.opened, hfound] at hopened
      dsimp only at hopened
      rw [if_pos hkind] at hopened
      exact Option.some.inj hopened
    have hput : Storage.Grows p s (s.put p (encode text.toList)) := Storage.grows_put (.inl hkind)
    refine ⟨p, hput, Disk.lookup_within hput.kinds hfound, hput.kinds _ _ hkind,
      .inr ⟨hkind, before, text.toList, hbefore, if_pos rfl, ?_⟩, hrelative⟩
    rw [← ArgValue.str.inj hupdated, String.toList_ofList]
    have hoccurs := Text.exists_occursAt_of_count (Nat.pos_of_ne_zero hnone)
    refine Text.replaceOnce_ne hoccurs fun heq => ?_
    exact hsame (congrArg ArgValue.str (String.toList_injective heq))
  · exact absurd (Prog.pure_eq_ok.mp hreplace).1 ArgValue.noConfusion
  · exact (Prog.raise_eq_ok.mp hreplace).elim

/-- **A new file that is created was absent.** -/
theorem createFileAt_eq_ok {content : ArgValue}
    (hnames : ∀ name ∈ target.drop (slashes target), IsName name)
    (h : createFileAt c path target content s = (.ok r, s')) (hok : r.ok = true) :
    ∃ p, Written c target p s s' := by
  obtain ⟨present, s₁, hprobe, h⟩ := Prog.bind_eq_ok.mp h
  obtain ⟨rfl, hpresent⟩ := probe_eq_ok hprobe
  split_ifs at h with hthere
  · exact (not_ok_of_failure h hok).elim
  obtain ⟨_, s₂, hmkdirs, h⟩ := Prog.bind_eq_ok.mp h
  obtain ⟨_, s₃, hwrite, h⟩ := Prog.bind_eq_ok.mp h
  obtain ⟨shown, s₄, hshown, h⟩ := Prog.bind_eq_ok.mp h
  obtain ⟨-, rfl⟩ := Prog.pure_eq_ok.mp h
  obtain ⟨rfl, hrelative⟩ := relative_eq_ok hshown
  obtain ⟨text, p, -, hopened, rfl⟩ := writeText_eq_ok hwrite
  obtain ⟨hlanding, hgrows⟩ := Storage.opened_of_makeDirs hnames (mkdirs_eq_ok hmkdirs) hopened
  have hplace := Disk.kindAt_opened hopened
  have hput : Storage.Grows p s₂ (s₂.put p (encode text.toList)) := Storage.grows_put hplace
  have hself := Storage.kindAt_put (encode text.toList) hplace
  have hstat : s.disk.stat target = none := by
    rw [← Option.not_isSome_iff_eq_none, hpresent]
    exact hthere
  exact ⟨p, hgrows.trans hput, Storage.lookup_put _ hopened, hself,
    .inl (Disk.absent_of_landing hstat hlanding), hrelative⟩

end Success

/-! ## Worktrees -/

section Worktrees

variable {rt : DiskRuntime} {c : ToolContext} {args : Arguments} {s s' : Storage} {r : ToolResult}
  {target root p : Location} {path : ArgValue}

/-- The directories of two tasks have nothing in common. -/
theorem eq_of_way {base : Location} {id id' : Text} (h : base ++ [id] <+: target)
    (h' : base ++ [id'] <+: target) : id = id' := by
  have hsame := List.prefix_of_prefix_length_le h h' (by simp)
  have heq := hsame.eq_of_length (by simp)
  simpa using heq

/-- What is new on the way to a file inside the root is below the root. -/
theorem way_of_absent {q : Location} (hroot : s.disk.kindAt root = some .dir) (hinside : root <+: p)
    (hway : q <+: p) (habsent : s.disk.kindAt q = none) : root <+: q := by
  rcases List.prefix_or_prefix_of_prefix hinside hway with h | h
  · exact h
  · by_cases heq : q = root
    · rw [heq]
    · cases habsent.symm.trans (Disk.kindAt_of_strict hroot h heq)

/-- A file inside the root is written alone. -/
theorem Written.writesOne (h : Written c target p s s') (hroot : s.disk.kindAt c.root = some .dir)
    (hinside : c.root <+: p) : WritesOne c.root p s s' := by
  refine ⟨hinside, ?_, h.file, h.changed, fun q hq => ⟨h.grows.contents q hq, ?_⟩⟩
  · rintro rfl
    cases h.file.symm.trans (h.grows.kinds _ _ hroot)
  · rcases hkind : s.disk.kindAt q with _ | k
    · rcases h.grows.added q hkind with hnone | ⟨rfl, -⟩ | ⟨hway, -, hdir⟩
      · exact .inl hnone
      · exact absurd rfl hq
      · exact .inr ⟨rfl, hdir, way_of_absent hroot hinside hway hkind, hway⟩
    · exact .inl (h.grows.kinds q k hkind)

/-- **A file written inside one directory changes nothing under its neighbour.** -/
theorem WritesOne.sameUnder {base : Location} {id other : Text}
    (h : WritesOne (base ++ [id]) p s s')
    (hne : other ≠ id) : SameUnder (base ++ [other]) s s' := by
  intro q hq
  have hapart : ∀ {p : Location}, base ++ [other] <+: p → ¬ base ++ [id] <+: p :=
    fun hother hid => hne (eq_of_way hother hid)
  have hqp : q ≠ p := by
    rintro rfl
    exact hapart hq h.inside
  obtain ⟨hcontents, hkind | ⟨-, -, hroot, -⟩⟩ := h.others q hqp
  · exact ⟨hkind, hcontents⟩
  · exact absurd hroot (hapart hq)

/-- The root of a worktree resolves to itself. -/
theorem prefix_of_within (hroot : s.disk.IsReal root) (h : ReadTools.Within s.disk root p) :
    root <+: p := by
  obtain ⟨r, hr, hprefix⟩ := h
  rw [ReadTools.resolvePath_of_realpath (Disk.realpath_of_isReal hroot)] at hr
  rwa [Except.ok.inj hr]

/-- **What is shown below the root is below the root**: the path is resolved to the file that is
found. -/
theorem prefix_of_relative (hroot : s.disk.IsReal c.root) (hfound : s.disk.lookup target = .found p)
    {shown : Text} (h : ReadTools.relative s.disk c.root target = .ok shown) : c.root <+: p := by
  rw [ReadTools.relative] at h
  obtain ⟨q, hq, h⟩ := Prog.outcome_bind_eq_ok.mp h
  obtain ⟨root, hr, h⟩ := Prog.outcome_bind_eq_ok.mp h
  split at h
  next hbelow =>
    rw [ReadTools.isBelow, Bool.and_eq_true, isInside_iff] at hbelow
    rw [ReadTools.resolvePath_of_realpath (Disk.realpath_of_isReal hroot)] at hr
    rw [ReadTools.resolvePath] at hq
    rcases Disk.realpath_of_lookup hfound with hreal | ⟨e, hname⟩
    · rw [hreal] at hq
      rw [(ReadTools.checkLoop_eq_ok hq).1, Except.ok.inj hr]
      exact hbelow.1
    · rw [hname] at hq
      cases hq
  next => cases h

theorem keyword_eq_ok {name : String} {v : ArgValue} (h : FileM.keyword args name s = (.ok v, s')) :
    args.lookup name = some v ∧ s = s' := by
  rw [FileM.keyword] at h
  cases hlookup : args.lookup name with
  | none =>
    rw [hlookup] at h
    exact (Prog.raise_eq_ok.mp h).elim
  | some value =>
    rw [hlookup] at h
    obtain ⟨rfl, hsame⟩ := Prog.pure_eq_ok.mp h
    exact ⟨rfl, hsame⟩

theorem bindPositional_eq_ok {u : Unit}
    (h : FileM.bindPositional args s = (.ok u, s')) : s = s' := by
  rw [FileM.bindPositional, Prog.whenever] at h
  split_ifs at h
  · exact (Prog.raise_eq_ok.mp h).elim
  · exact (Prog.pure_eq_ok.mp h).2

/-- **A call that succeeds has written** to where its path argument leads. -/
theorem editTool_eq_ok (tool : EditTool) (h : tool.run rt c args s = (.ok r, s'))
    (hok : r.ok = true) :
    ∃ path target p, args.lookup "path" = some path ∧
      ReadTools.resolveInside s.disk c.root path = .ok target ∧ Written c target p s s' := by
  cases tool with
  | applyPatch =>
    obtain ⟨_, s₁, hpositional, h⟩ := Prog.bind_eq_ok.mp h
    obtain rfl := bindPositional_eq_ok hpositional
    obtain ⟨path, s₂, hkeyword, h⟩ := Prog.bind_eq_ok.mp h
    obtain ⟨hpath, rfl⟩ := keyword_eq_ok hkeyword
    obtain ⟨oldText, s₃, hold, h⟩ := Prog.bind_eq_ok.mp h
    obtain ⟨-, rfl⟩ := keyword_eq_ok hold
    obtain ⟨newText, s₄, hnew, h⟩ := Prog.bind_eq_ok.mp h
    obtain ⟨-, rfl⟩ := keyword_eq_ok hnew
    split_ifs at h
    · exact (not_ok_of_failure h hok).elim
    · obtain ⟨target, htarget, h⟩ := withTarget_eq_ok h hok
      obtain ⟨p, hwritten⟩ := applyPatchAt_eq_ok h hok
      exact ⟨path, target, p, hpath, htarget, hwritten⟩
  | createFile =>
    obtain ⟨_, s₁, hpositional, h⟩ := Prog.bind_eq_ok.mp h
    obtain rfl := bindPositional_eq_ok hpositional
    obtain ⟨path, s₂, hkeyword, h⟩ := Prog.bind_eq_ok.mp h
    obtain ⟨hpath, rfl⟩ := keyword_eq_ok hkeyword
    obtain ⟨content, s₃, hcontent, h⟩ := Prog.bind_eq_ok.mp h
    obtain ⟨-, rfl⟩ := keyword_eq_ok hcontent
    split_ifs at h
    · exact (not_ok_of_failure h hok).elim
    · obtain ⟨target, htarget, h⟩ := withTarget_eq_ok h hok
      obtain ⟨p, hwritten⟩ := createFileAt_eq_ok (ReadTools.isName_of_resolveInside htarget) h hok
      exact ⟨path, target, p, hpath, htarget, hwritten⟩

/-- A path that resolves outside the root is not resolved inside it. -/
theorem resolveInside_of_outside (hroot : s.disk.IsReal c.root)
    (h : resolved s.disk c.root path = .ok target) (houtside : ¬ c.root <+: target) :
    ∃ e, ReadTools.resolveInside s.disk c.root path = .error e := by
  have hnot : ReadTools.isBelow c.root target = false := by
    rw [ReadTools.isBelow, Bool.eq_false_iff.mpr fun hinside => houtside (isInside_iff.mp hinside),
      Bool.false_and]
  rw [resolved] at h
  rw [ReadTools.resolveInside, ReadTools.resolvePath_of_realpath (Disk.realpath_of_isReal hroot)]
  rcases hraw : path.spelled with _ | raw
  · rw [hraw] at h
    cases h
  · rw [hraw] at h
    dsimp only at h
    simp only [h, hnot, bind, Except.bind, Bool.false_eq_true, if_false]
    exact ⟨_, rfl⟩

/-- **Without a target nothing is written.** -/
theorem refused_withTarget {body : Location → DiskM ToolResult} {e : PyError}
    (h : ReadTools.resolveInside s.disk c.root path = .error e) :
    Refused s (withTarget c path body s) := by
  rw [withTarget, h]
  cases e with
  | workspaceViolation m => exact refused_failure m
  | _ => exact refused_error _

theorem refused_of_outside (tool : EditTool) (hroot : s.disk.IsReal c.root)
    (hpath : args.lookup "path" = some path) (h : resolved s.disk c.root path = .ok target)
    (houtside : ¬ c.root <+: target) : Refused s (tool.run rt c args s) := by
  obtain ⟨e, he⟩ := resolveInside_of_outside hroot h houtside
  cases tool with
  | applyPatch =>
    refine refused_positional fun _ => refused_keyword fun path' hpath' =>
      refused_keyword fun _ _ =>
      refused_keyword fun _ _ => ?_
    obtain rfl := Option.some.inj (hpath.symm.trans hpath')
    split_ifs
    · exact refused_failure _
    · exact refused_withTarget he
  | createFile =>
    refine refused_positional fun _ => refused_keyword fun path' hpath' =>
      refused_keyword fun _ _ => ?_
    obtain rfl := Option.some.inj (hpath.symm.trans hpath')
    split_ifs
    · exact refused_failure _
    · exact refused_withTarget he

/-- Two worktrees, one of which begins with the name of the other, and a link between them. -/
def siblings : Storage where
  disk :=
    { entries := [(["ws".toList], .dir),
        (["ws".toList, "TASK-1".toList], .dir),
        (["ws".toList, "TASK-10".toList], .dir),
        (["ws".toList, "TASK-10".toList, "F.cs".toList], .file),
        (["ws".toList, "TASK-1".toList, "next".toList], .link "../TASK-10".toList)]
      below := by decide +kernel
      unique := by decide +kernel
      parents := by decide +kernel }
  contents := fun _ => []

def taskOne : ToolContext := ⟨["repo".toList], some ["ws".toList, "TASK-1".toList], 0, true⟩

/-- No lines are counted, and nothing is read. -/
def quietRuntime : DiskRuntime := ⟨fun _ _ => (0, 0), fun _ _ _ _ => .ok (.failure "")⟩

theorem siblings_dirs : ∀ i ∈ ["TASK-1".toList, "TASK-10".toList],
    siblings.disk.IsReal (["ws".toList] ++ [i]) ∧
      siblings.disk.kindAt (["ws".toList] ++ [i]) = some .dir := by
  have hresolve : ∀ i ∈ ["TASK-1".toList, "TASK-10".toList],
      siblings.disk.realpath (["ws".toList] ++ [i])
      = .ok (["ws".toList] ++ [i]) := by decide +kernel
  have hkind : ∀ i ∈ ["TASK-1".toList, "TASK-10".toList],
      siblings.disk.kindAt (["ws".toList] ++ [i]) = some .dir := by decide +kernel
  exact fun i hi => ⟨Disk.isReal_realpath (hresolve i hi), hkind i hi⟩

end Worktrees

/-! ## Calls that fail -/

/-- No file outside the locations `P` is created or changed, nothing is replaced, and no link is
made. -/
structure WritesInside (P : Location → Prop) (s s' : Storage) : Prop where
  kinds : ∀ q k, s.disk.kindAt q = some k → s'.disk.kindAt q = some k
  links : ∀ q target, s'.disk.kindAt q = some (.link target) → s.disk.kindAt q = some (.link target)
  files : ∀ q, ¬ P q → s'.contents q = s.contents q ∧
    (s'.disk.kindAt q = some .file → s.disk.kindAt q = some .file)

instance (P : Location → Prop) : IsPreorder Storage (WritesInside P) where
  refl _ := ⟨fun _ _ h => h, fun _ _ h => h, fun _ _ => ⟨rfl, id⟩⟩
  trans _ _ _ h₁ h₂ := ⟨fun q k hk => h₂.kinds q k (h₁.kinds q k hk),
    fun q target hk => h₁.links q target (h₂.links q target hk),
    fun q hq => ⟨(h₂.files q hq).1.trans (h₁.files q hq).1,
      fun hk => (h₁.files q hq).2 ((h₂.files q hq).2 hk)⟩⟩

/-- **The path leads to one of the locations `P`**, if its target still has links in it. -/
def Lands (P : Location → Prop) (disk : Disk) (root : Location) (path : ArgValue) : Prop :=
  ∀ target, ReadTools.resolveInside disk root path = .ok target → ¬ disk.IsReal target →
    ∀ p, disk.landing target = some p → P p

section Inside

variable {rt : DiskRuntime} {c : ToolContext} {args : Arguments} {s s' : Storage}
  {target p : Location} {P : Location → Prop}

theorem writesInside_of_addsDirs (h : Storage.AddsDirs s s') : WritesInside P s s' := by
  have hnew : ∀ q k, s'.disk.kindAt q = some k → k ≠ .dir → s.disk.kindAt q = some k := by
    intro q k hk hne
    rcases hkind : s.disk.kindAt q with _ | k'
    · rcases h.added q hkind with hnone | hdir
      · cases hk.symm.trans hnone
      · exact absurd (Option.some.inj (hk.symm.trans hdir)) hne
    · rw [← h.kinds q k' hkind, hk]
  exact ⟨h.kinds, fun q target hk => hnew q _ hk Kind.noConfusion,
    fun q _ => ⟨congrFun h.contents q, fun hk => hnew q _ hk Kind.noConfusion⟩⟩

theorem writesInside_of_grows (h : Storage.Grows p s s') (hp : P p) : WritesInside P s s' := by
  have hnew : ∀ q k, s'.disk.kindAt q = some k → k ≠ .dir → q ≠ p ∨ k ≠ .file →
      s.disk.kindAt q = some k := by
    intro q k hk hdir hfile
    rcases hkind : s.disk.kindAt q with _ | k'
    · rcases h.added q hkind with hnone | ⟨rfl, hself⟩ | ⟨-, -, hmade⟩
      · cases hk.symm.trans hnone
      · have hk' := Option.some.inj (hk.symm.trans hself)
        exact absurd hk' (hfile.resolve_left (not_not.mpr rfl))
      · exact absurd (Option.some.inj (hk.symm.trans hmade)) hdir
    · rw [← h.kinds q k' hkind, hk]
  refine ⟨h.kinds, fun q target hk => hnew q _ hk Kind.noConfusion (.inr Kind.noConfusion),
    fun q hq => ?_⟩
  have hne : q ≠ p := by
    rintro rfl
    exact hq hp
  exact ⟨h.contents q hne, fun hk => hnew q _ hk Kind.noConfusion (.inl hne)⟩

/-- Writing a text, whatever comes of it. -/
theorem writeText_writesInside (data : ArgValue) (h : ∀ p, s.disk.opened target = some p → P p) :
    WritesInside P s (writeText target data s).2 := by
  have hput : ∀ p bytes, s.disk.opened target = some p → WritesInside P s (s.put p bytes) :=
    fun p bytes hp => writesInside_of_grows (Storage.grows_put (Disk.kindAt_opened hp)) (h p hp)
  unfold writeText
  split
  · exact refl s
  · exact refl s
  · exact hput _ _ ‹_›
  · exact hput _ _ ‹_›

theorem probe_keeps (ask : Disk → Location → Bool) : Prog.Keeps (· = ·) (probe ask target) := by
  intro s
  rw [probe]
  split <;> rfl

theorem readText_keeps : Prog.Keeps (· = ·) (readText target) := by
  intro s
  rw [readText]
  split
  · rfl
  · split <;> rfl

/-! From the storage `s` on, whatever is returned or raised. -/

theorem triple_at {α : Type} {m : DiskM α} (h : WritesInside P s (m s).2) :
    Prog.Triple (· = s) (fun _ => WritesInside P s) (fun _ => WritesInside P s) m := by
  intro s' hs
  rw [hs]
  rcases hm : m s with ⟨_ | _, t⟩ <;> rwa [hm] at h

/-- A program that leaves the storage alone. -/
theorem triple_of_same {α : Type} {m : DiskM α} (h : Prog.Keeps (· = ·) m) :
    Prog.Triple (· = s) (fun _ s' => s' = s) (fun _ => WritesInside P s) m :=
  h.triple (fun _ _ hs heq => heq ▸ hs) fun _ s' hs => hs ▸ refl s'

theorem triple_done {α : Type} {m : DiskM α} (h : Prog.Keeps (· = ·) m) :
    Prog.Triple (· = s) (fun _ => WritesInside P s) (fun _ => WritesInside P s) m :=
  triple_at (h s ▸ refl s)

/-- …after something has been written. -/
theorem triple_shown {α : Type} {f : String → α} :
    Prog.Triple (WritesInside P s) (fun _ => WritesInside P s) (fun _ => WritesInside P s)
      (do let shown ← relative c target; pure (f shown)) := by
  have hkeeps : Prog.Keeps (· = ·) (do let shown ← relative c target; pure (f shown) : DiskM α) :=
    Prog.Keeps.bind (fun _ => rfl) fun _ => Prog.keeps_pure _
  exact hkeeps.triple (fun _ _ hs heq => heq ▸ hs) fun _ _ hs => hs

theorem applyPatchAt_triple (path : String) (oldText newText : ArgValue)
    (h : ∀ p, s.disk.landing target = some p → P p) :
    Prog.Triple (· = s) (fun _ => WritesInside P s) (fun _ => WritesInside P s)
      (applyPatchAt rt c path target oldText newText) := by
  refine Prog.Triple.bind (triple_of_same (probe_keeps _)) fun isFile => ?_
  refine Prog.Triple.ite (fun _ => triple_done (Prog.keeps_pure _)) fun _ => ?_
  refine Prog.Triple.ite (fun _ => triple_done (Prog.keeps_pure _)) fun _ => ?_
  refine Prog.Triple.bind (triple_of_same readText_keeps) fun original => ?_
  cases oldText with
  | json repr => exact triple_done (Prog.keeps_raise _)
  | surrogates w => exact triple_done (Prog.keeps_pure _)
  | str old =>
    refine Prog.Triple.ite (fun _ => triple_done (Prog.keeps_pure _)) fun _ => ?_
    refine Prog.Triple.ite (fun _ => triple_done (Prog.keeps_pure _)) fun _ => ?_
    refine Prog.Triple.bind (triple_of_same (FileM.replaceOnce_keeps _ _ _)) fun updated => ?_
    refine Prog.Triple.bind (triple_at (writeText_writesInside updated fun p hp => ?_)) fun _ =>
      triple_shown
    exact h p (Disk.landing_of_opened hp)

theorem createFileAt_triple (path : String) (content : ArgValue)
    (hnames : ∀ name ∈ target.drop (slashes target), IsName name)
    (h : ∀ p, s.disk.landing target = some p → P p) :
    Prog.Triple (· = s) (fun _ => WritesInside P s) (fun _ => WritesInside P s)
      (createFileAt c path target content) := by
  refine Prog.Triple.bind (triple_of_same (probe_keeps _)) fun present => ?_
  refine Prog.Triple.ite (fun _ => triple_done (Prog.keeps_pure _)) fun _ => ?_
  -- The directories are new, and the file is opened below the last of them.
  have hdirs := Storage.addsDirs_makeDirs s target.dropLast
  refine Prog.Triple.bind (R := fun _ s' => s.makeDirs target.dropLast = (s', none)) ?_ fun _ =>
    Prog.Triple.bind (R := fun _ => WritesInside P s) ?_ fun _ => triple_shown
  · intro s₀ hs
    rw [hs, mkdirs]
    rcases hmade : s.makeDirs target.dropLast with ⟨s', _ | stop⟩
    · rfl
    · rw [hmade] at hdirs
      exact writesInside_of_addsDirs hdirs
  · intro s' hmade
    rw [hmade] at hdirs
    have hwrite := writeText_writesInside content fun p hp =>
      h p (Storage.opened_of_makeDirs hnames hmade hp).1
    have hboth := trans_of (WritesInside P) (writesInside_of_addsDirs hdirs) hwrite
    rcases hm : writeText target content s' with ⟨_ | _, t⟩ <;> rwa [hm] at hboth

/-- A checked path lands inside the root, or where a path that is cut short leads. -/
theorem at_landing (hroot : s.disk.IsReal c.root) (hinside : ∀ q, c.root <+: q → P q)
    {path : ArgValue} (hlands : Lands P s.disk c.root path)
    (hresolve : ReadTools.resolveInside s.disk c.root path = .ok target)
    (h : s.disk.landing target = some p) : P p := by
  by_cases hreal : s.disk.IsReal target
  · rw [Disk.landing_of_isReal hreal h]
    exact hinside _ (prefix_of_within hroot (ReadTools.within_of_resolveInside hresolve))
  · exact hlands target hresolve hreal p h

theorem withTarget_triple {path : ArgValue} {body : Location → DiskM ToolResult}
    (hbody : ∀ target, ReadTools.resolveInside s.disk c.root path = .ok target →
      Prog.Triple (· = s) (fun _ => WritesInside P s) (fun _ => WritesInside P s) (body target)) :
    Prog.Triple (· = s) (fun _ => WritesInside P s) (fun _ => WritesInside P s)
      (withTarget c path body) := by
  intro s' hs
  rw [hs, withTarget]
  rcases hresolve : ReadTools.resolveInside s.disk c.root path with e | target
  · cases e <;> exact refl s
  · exact hbody target hresolve s rfl

theorem keyword_triple (name : String) :
    Prog.Triple (· = s) (fun v s' => s' = s ∧ args.lookup name = some v) (fun _ => WritesInside P s)
      (FileM.keyword args name) := by
  intro s' hs
  rw [hs, FileM.keyword]
  cases args.lookup name with
  | none => exact refl s
  | some v => exact ⟨rfl, rfl⟩

/-- **Whatever a call returns or raises, it writes inside the root**, or where a path that is cut
short leads. -/
theorem editTool_writesInside (rt : DiskRuntime) (tool : EditTool) (hroot : s.disk.IsReal c.root)
    (hinside : ∀ q, c.root <+: q → P q)
    (hlands : ∀ path, args.lookup "path" = some path → Lands P s.disk c.root path) :
    WritesInside P s (tool.run rt c args s).2 := by
  have htriple : Prog.Triple (· = s) (fun _ => WritesInside P s) (fun _ => WritesInside P s)
      (tool.run rt c args) := by
    cases tool with
    | applyPatch =>
      refine Prog.Triple.bind (triple_of_same (FileM.bindPositional_keeps args)) fun _ => ?_
      refine Prog.Triple.bind (keyword_triple _) fun path => Prog.triple_of_fact fun hpath => ?_
      refine Prog.Triple.bind (keyword_triple _) fun oldText => Prog.triple_of_fact fun _ => ?_
      refine Prog.Triple.bind (keyword_triple _) fun newText => Prog.triple_of_fact fun _ => ?_
      refine Prog.Triple.ite (fun _ => triple_done (Prog.keeps_pure _)) fun _ => ?_
      exact withTarget_triple fun target hresolve => applyPatchAt_triple _ _ _ fun p hp =>
        at_landing hroot hinside (hlands path hpath) hresolve hp
    | createFile =>
      refine Prog.Triple.bind (triple_of_same (FileM.bindPositional_keeps args)) fun _ => ?_
      refine Prog.Triple.bind (keyword_triple _) fun path => Prog.triple_of_fact fun hpath => ?_
      refine Prog.Triple.bind (keyword_triple _) fun content => Prog.triple_of_fact fun _ => ?_
      refine Prog.Triple.ite (fun _ => triple_done (Prog.keeps_pure _)) fun _ => ?_
      exact withTarget_triple fun target hresolve => createFileAt_triple _ _
        (ReadTools.isName_of_resolveInside hresolve) fun p hp =>
          at_landing hroot hinside (hlands path hpath) hresolve hp
  have hpost := htriple s rfl
  rcases hm : tool.run rt c args s with ⟨_ | _, t⟩ <;> rwa [hm] at hpost

/-- Without leave to write nothing is written. -/
theorem editTool_keeps_of_denied (rt : DiskRuntime) (tool : EditTool) (h : c.writeAllowed = false) :
    Prog.Keeps (· = ·) (tool.run rt c args) := by
  cases tool with
  | applyPatch =>
    refine (FileM.bindPositional_keeps args).bind fun _ =>
      (FileM.keyword_keeps _ _).bind fun _ => ?_
    refine (FileM.keyword_keeps _ _).bind fun _ => (FileM.keyword_keeps _ _).bind fun _ => ?_
    exact Prog.Keeps.ite (fun _ => Prog.keeps_pure _) fun hwrite => absurd h hwrite
  | createFile =>
    refine (FileM.bindPositional_keeps args).bind fun _ =>
      (FileM.keyword_keeps _ _).bind fun _ => ?_
    refine (FileM.keyword_keeps _ _).bind fun _ => ?_
    exact Prog.Keeps.ite (fun _ => Prog.keeps_pure _) fun hwrite => absurd h hwrite

/-- A path that met no link meets none after it. -/
theorem WritesInside.isReal (h : WritesInside P s s')
    (hreal : s.disk.IsReal p) : s'.disk.IsReal p :=
  ⟨hreal.names, fun q hq target hlink => hreal.linkless q hq target (h.links q target hlink)⟩

end Inside

/-- The worktrees again, with a link that leads back to itself. -/
def loopSiblings : Storage where
  disk :=
    { entries := [(["ws".toList], .dir),
        (["ws".toList, "TASK-1".toList], .dir),
        (["ws".toList, "TASK-10".toList], .dir),
        (["ws".toList, "TASK-1".toList, "loop".toList], .link "loop".toList),
        (["ws".toList, "TASK-1".toList, "next".toList], .link "../TASK-10".toList)]
      below := by decide +kernel
      unique := by decide +kernel
      parents := by decide +kernel }
  contents := fun _ => []

-- Cut short at the loop, the path leads out: the file is written, and showing its path raises.
example :
    let outcome := EditTool.createFile.run quietRuntime taskOne
      [("path", .str "loop/../next/G.cs"), ("content", .str "class G;")] loopSiblings
    outcome.1.toOption = none ∧
      outcome.2.disk.kindAt ["ws".toList, "TASK-10".toList, "G.cs".toList] = some .file := by
  decide +kernel

end LinkedWrites

end AgentPlatform
