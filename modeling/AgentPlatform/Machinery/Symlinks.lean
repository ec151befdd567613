import AgentPlatform.Machinery.PosixPath

/-!
# Machinery/Symlinks — resolving paths through symbolic links

A disk says what each location is; what its files hold is a matter of its own.  A path is resolved
in two ways: `realpath` follows links and goes on past names that do not exist, as Python's
`Path.resolve` does, and the kernel needs every name and follows forty links.  At a link that leads
back to itself `realpath` gives up and keeps the rest as it is spelled, so that what it returns may
still meet links.

* `isReal_realpath` — a path that is resolved to its end meets no link, so
* `stat_of_isReal` — the kernel takes it to itself.
* `walk_append` — where a path leads is where its rest leads from where its beginning does.
-/

namespace Symlinks

open PosixPath

/-- What a location is. -/
inductive Kind where
  | file
  | dir
  | link (target : Text)
  /-- Neither: a device, a socket. -/
  | special
  deriving DecidableEq, Repr

/-- **A disk**: what is at each location below `/`, in the order directories are read. -/
structure Disk where
  entries : List (Location × Kind)
  below : ∀ x ∈ entries, x.1 ≠ []
  unique : (entries.map Prod.fst).Nodup
  parents : ∀ x ∈ entries, x.1.dropLast = [] ∨ (x.1.dropLast, Kind.dir) ∈ entries

/-- What the files hold, by the location of the file itself. -/
abbrev Contents := Location → List UInt8

/-! ## Paths as they are spelled -/

/-- `os.path.join`, of an absolute path and a rest, which is absolute if it begins with a slash. -/
def joinRest (path : List Text) : List Text → List Text
  | [] :: seg :: segs => seg :: segs
  | rest => path ++ rest

/-- `os.path.normpath`, of an absolute path.  Two slashes at its beginning stay two. -/
def normpath (segs : List Text) : Location :=
  let names := segs.foldl enter []
  match segs with
  | [] :: [] :: _ :: _ => names
  | [] :: _ :: _ => [] :: names
  | _ => names

/-- The path begins with two slashes. -/
def doubled (p : Location) : Bool := p.head? = some []

/-- The empty name at its beginning stands for a second slash. -/
def slashes (p : Location) : ℕ := if doubled p then 1 else 0

theorem slashes_le_length (p : Location) : slashes p ≤ p.length := by
  rw [slashes]
  split_ifs with hdoubled
  · rw [doubled, decide_eq_true_eq] at hdoubled
    exact List.length_pos_of_mem (List.mem_of_head? hdoubled)
  · exact Nat.zero_le _

theorem slashes_dropLast {p : Location}
    (h : p.drop (slashes p) ≠ []) : slashes p.dropLast = slashes p := by
  rcases p with _ | ⟨x, _ | ⟨y, ys⟩⟩
  · rfl
  · rw [slashes] at h
    split_ifs at h with hdoubled
    · exact absurd rfl h
    · rw [slashes, slashes, if_neg hdoubled]
      rfl
  · rfl

/-- No other name stands for a way. -/
theorem ne_of_mem_normpath {segs : List Text} {name : Text}
    (hname : name ∈ (normpath segs).drop (slashes (normpath segs))) :
    name ≠ [] ∧ name ≠ ['.'] ∧ name ≠ ['.', '.'] := by
  obtain ⟨k, names, heq, hnames⟩ := foldl_enter_eq [] segs
  rw [List.take_nil, List.nil_append] at heq
  have hpath : normpath segs = names ∨ normpath segs = [] :: names := by
    unfold normpath
    rw [heq]
    split
    · exact .inl rfl
    · exact .inr rfl
    · exact .inl rfl
  rcases hpath with hpath | hpath <;> rw [hpath] at hname
  · exact hnames name (List.mem_of_mem_drop hname)
  · exact hnames name hname

/-! ## Results -/

/-- Why `realpath` stops. -/
inductive Stop where
  /-- At a link that is being resolved: the path so far, with the rest as it is spelled. -/
  | loop (path : List Text)
  /-- At a name that cannot be looked up. -/
  | name (e : FileNames.Invalid)
  deriving DecidableEq, Repr

/-- Why the kernel finds nothing. -/
inductive Errno where
  | noEntry
  | notDir
  | loop
  | nameTooLong
  deriving DecidableEq, Repr

/-- What the kernel finds. -/
inductive Lookup where
  | found (p : Location)
  /-- Nothing, but the last name is free in a directory that is there. -/
  | free (p : Location)
  | failed (e : Errno)
  deriving DecidableEq, Repr

/-- A name that is not in its directory, with the rest of the path. -/
def Lookup.absent (here : Location) (seg : Text) (segs : List Text) : Lookup :=
  if FileNames.fits seg = false then .failed .nameTooLong
  else if segs = [] then .free (here ++ [seg])
  else .failed .noEntry

/-- The rest of a path, from what its beginning leads to. -/
def Lookup.extend (next : Location → List Text → Lookup) (rest : List Text) : Lookup → Lookup
  | found p => next p rest
  | free p => if rest = [] then .free p else .failed .noEntry
  | failed e => .failed e

namespace Disk

variable (d : Disk)

/-- What is at a location. -/
def kindAt (p : Location) : Option Kind := if p = [] then some .dir else d.entries.lookup p

/-! ## `realpath` -/

/-- Segment by segment from a location; `follow` resolves a link. -/
def realFrom (follow : Location → Text → Except Stop Location) :
    Location → List Text → Except Stop Location
  | here, [] => .ok here
  | here, seg :: segs =>
    if seg = [] ∨ seg = ['.'] then realFrom follow here segs
    else if seg = ['.', '.'] then realFrom follow here.dropLast segs
    else match FileNames.invalid? seg, d.kindAt (here ++ [seg]) with
      | some e, _ => .error (.name e)
      | none, some (.link target) =>
        match follow (here ++ [seg]) target with
        | .ok p => realFrom follow p segs
        | .error (.loop path) => .error (.loop (joinRest path segs))
        | .error (.name e) => .error (.name e)
      | none, _ => realFrom follow (here ++ [seg]) segs

/-- A link, inside the links being resolved.  No link is resolved inside itself, so `depth` is not
used up before a loop is found. -/
def realLink : ℕ → List Location → Location → Text → Except Stop Location
  | 0, _, link, _ => .error (.loop link)
  | depth + 1, active, link, target =>
    if active.contains link then .error (.loop link)
    else d.realFrom (realLink depth (link :: active))
      (if isAbsolute target then [] else link.dropLast) (segments target)

/-- `os.path.realpath`, of the segments of an absolute path. -/
def realpath (segs : List Text) : Except Stop Location :=
  d.realFrom (d.realLink (d.entries.length + 1) []) [] segs

/-! ## The kernel -/

/-- Segment by segment from a location; `next` goes on when a link is met. -/
def statFrom (next : Location → List Text → Lookup) : Location → List Text → Lookup
  | here, [] => .found here
  | here, seg :: segs =>
    if d.kindAt here ≠ some .dir then .failed .notDir
    else if seg = [] ∨ seg = ['.'] then statFrom next here segs
    else if seg = ['.', '.'] then statFrom next here.dropLast segs
    else match d.kindAt (here ++ [seg]) with
      | none => .absent here seg segs
      | some (.link target) => next (if isAbsolute target then []
        else here) (segments target ++ segs)
      | some _ => statFrom next (here ++ [seg]) segs

/-- …with a number of links to follow. -/
def walk : ℕ → Location → List Text → Lookup
  | 0 => d.statFrom fun _ _ => .failed .loop
  | links + 1 => d.statFrom (walk links)

/-- `MAXSYMLINKS`. -/
def maxLinks : ℕ := 40

/-- Where an absolute path leads. -/
def lookup (path : Location) : Lookup := d.walk maxLinks [] path

/-- The location an absolute path leads to. -/
def stat (path : Location) : Option Location :=
  match d.lookup path with
  | .found p => some p
  | _ => none

/-- The regular file a path leads to. -/
def fileAt (path : Location) : Option Location :=
  match d.stat path with
  | some p => if d.kindAt p = some .file then some p else none
  | none => none

/-- `Path.is_file`. -/
def isFile (path : Location) : Bool := (d.fileAt path).isSome

/-- The directory a path leads to. -/
def dirAt (path : Location) : Option Location :=
  match d.stat path with
  | some p => if d.kindAt p = some .dir then some p else none
  | none => none

/-- `Path.is_dir`. -/
def isDir (path : Location) : Bool := (d.dirAt path).isSome

/-- `Path.rglob("*")`: everything below a directory, spelled from the path; links are listed and not
entered. -/
def rglob (path : Location) : List Location :=
  match d.dirAt path with
  | some p => (d.entries.filter fun x => isInside p x.1 && x.1 ≠ p).map fun x =>
      path ++ x.1.drop p.length
  | none => []

/-- `Path.iterdir`. -/
def iterdir (path : Location) : List Location :=
  match d.dirAt path with
  | some p => (d.entries.filter fun x => x.1.dropLast = p).map fun x => path ++ x.1.drop p.length
  | none => []

/-! ## A path that is resolved to its end -/

/-- **No name of the path is a link**, and none stands for a way. -/
structure IsReal (p : Location) : Prop where
  names : ∀ name ∈ p, IsName name
  linkless : ∀ q, q <+: p → ∀ target, d.kindAt q ≠ some (.link target)

variable {d} {p q here : Location}

theorem isReal_nil : d.IsReal [] := by
  refine ⟨by simp, fun q hq target => ?_⟩
  rw [List.prefix_nil.mp hq]
  simp [kindAt]

theorem IsReal.dropLast (h : d.IsReal p) : d.IsReal p.dropLast :=
  ⟨fun name hname => h.names name (List.mem_of_mem_dropLast hname),
    fun q hq => h.linkless q (hq.trans (List.dropLast_prefix p))⟩

theorem IsReal.snoc (h : d.IsReal p) {seg : Text} (hseg : IsName seg)
    (hlink : ∀ target, d.kindAt (p ++ [seg]) ≠ some (.link target)) : d.IsReal (p ++ [seg]) := by
  refine ⟨fun name hname => ?_, fun q hq => ?_⟩
  · rcases List.mem_append.mp hname with hname | hname
    · exact h.names name hname
    · rw [List.mem_singleton.mp hname]
      exact hseg
  · rcases List.prefix_concat_iff.mp hq with rfl | hq
    · exact hlink
    · exact h.linkless q hq

theorem IsReal.append (h : d.IsReal p) (hnames : ∀ name ∈ q, IsName name)
    (hlinkless : ∀ o, o <+: q → ∀ target, d.kindAt (p ++ o) ≠ some (.link target)) :
    d.IsReal (p ++ q) := by
  refine ⟨fun name hname => (List.mem_append.mp hname).elim (h.names name) (hnames name),
    fun o ho => ?_⟩
  rcases List.prefix_or_prefix_of_prefix ho (List.prefix_append p q) with hbefore | ⟨o, rfl⟩
  · exact h.linkless _ hbefore
  · exact hlinkless o ((List.prefix_append_right_inj p).mp ho)

theorem isReal_realFrom {follow : Location → Text → Except Stop Location} {segs : List Text}
    (hfollow : ∀ link target p, d.IsReal link.dropLast → follow link target = .ok p → d.IsReal p)
    (hhere : d.IsReal here) (h : d.realFrom follow here segs = .ok p) : d.IsReal p := by
  induction segs generalizing here with
  | nil =>
    cases h
    exact hhere
  | cons seg segs ih =>
    rw [realFrom] at h
    split_ifs at h with hstay hup
    · exact ih hhere h
    · exact ih hhere.dropLast h
    · split at h
      next => cases h
      next target hvalid hkind =>
        split at h
        next p' hp' => exact ih (hfollow _ _ _ (by simpa using hhere) hp') h
        next => cases h
        next => cases h
      next hvalid hkind =>
        rw [not_or] at hstay
        exact ih (hhere.snoc ⟨hstay.1, hstay.2, hup, hvalid⟩ hkind) h

theorem isReal_realLink {depth : ℕ} {active : List Location} {link : Location} {target : Text}
    (hlink : d.IsReal link.dropLast) (h : d.realLink depth active link target = .ok p) :
    d.IsReal p := by
  induction depth generalizing active link target p with
  | zero => cases h
  | succ depth ih =>
    rw [realLink] at h
    split at h
    next => cases h
    next =>
      refine isReal_realFrom (fun _ _ _ hlink' h' => ih hlink' h') ?_ h
      split
      · exact isReal_nil
      · exact hlink

/-- **A path that is resolved to its end meets no link.** -/
theorem isReal_realpath {segs : List Text} (h : d.realpath segs = .ok p) : d.IsReal p :=
  isReal_realFrom (fun _ _ _ hlink h' => isReal_realLink hlink h') isReal_nil h

theorem absent_eq_free {here : Location} {seg : Text} {segs : List Text} :
    Lookup.absent here seg segs = .free p ↔
      FileNames.fits seg = true ∧ segs = [] ∧ here ++ [seg] = p := by
  rw [Lookup.absent]
  split_ifs with hlong hlast <;> simp_all

theorem absent_ne_found {here : Location} {seg : Text} {segs : List Text} :
    Lookup.absent here seg segs ≠ .found p := by
  rw [Lookup.absent]
  split_ifs <;> exact Lookup.noConfusion

/-- Along such a path the kernel meets no link. -/
theorem statFrom_of_isReal (next : Location → List Text → Lookup) {segs : List Text}
    (hreal : d.IsReal (here ++ segs)) : d.statFrom next here segs = .found (here ++ segs) ∨
      d.statFrom next here segs = .free (here ++ segs) ∨
        ∃ e, e ≠ .loop ∧ d.statFrom next here segs = .failed e := by
  induction segs generalizing here with
  | nil => exact .inl (by rw [statFrom, List.append_nil])
  | cons seg segs ih =>
    obtain ⟨hempty, hdot, hup, -⟩ := hreal.names seg (by simp)
    have hassoc : here ++ seg :: segs = here ++ [seg] ++ segs := by simp
    rw [statFrom, if_neg (not_or.mpr ⟨hempty, hdot⟩), if_neg hup]
    split_ifs with hdir
    · exact .inr (.inr ⟨.notDir, Errno.noConfusion, rfl⟩)
    rw [hassoc] at hreal ⊢
    split
    next =>
      rw [Lookup.absent]
      split_ifs with hlong hlast
      · exact .inr (.inr ⟨.nameTooLong, Errno.noConfusion, rfl⟩)
      · rw [hlast, List.append_nil]
        exact .inr (.inl rfl)
      · exact .inr (.inr ⟨.noEntry, Errno.noConfusion, rfl⟩)
    next target hkind => exact absurd hkind (hreal.linkless _ ⟨segs, rfl⟩ target)
    next => exact ih hreal

theorem lookup_of_isReal (hreal : d.IsReal p) : d.lookup p = .found p ∨ d.lookup p = .free p ∨
    ∃ e, e ≠ .loop ∧ d.lookup p = .failed e :=
  statFrom_of_isReal _ hreal

theorem stat_eq_some : d.stat p = some q ↔ d.lookup p = .found q := by
  rw [stat]
  split <;> simp_all

/-- **The kernel takes a resolved path to itself.** -/
theorem stat_of_isReal (hreal : d.IsReal p) (h : d.stat p = some q) : q = p := by
  rw [stat_eq_some] at h
  rcases lookup_of_isReal hreal with hfound | hfree | ⟨e, -, hfailed⟩
  · exact Lookup.found.inj (h.symm.trans hfound)
  · cases h.symm.trans hfree
  · cases h.symm.trans hfailed

theorem fileAt_eq_some :
    d.fileAt p = some q ↔ d.lookup p = .found q ∧ d.kindAt q = some .file := by
  rw [fileAt, ← stat_eq_some]
  split
  next q' hstat =>
    rw [hstat]
    split_ifs with hfile
    · exact ⟨by rintro ⟨⟩; exact ⟨rfl, hfile⟩, fun h => h.1⟩
    · exact ⟨by rintro ⟨⟩, by rintro ⟨⟨⟩, h⟩; exact absurd h hfile⟩
  next hstat => simp [hstat]

theorem fileAt_of_isReal (hreal : d.IsReal p) (h : d.fileAt p = some q) : q = p :=
  stat_of_isReal hreal (stat_eq_some.mpr (fileAt_eq_some.mp h).1)

/-! ## Paths in two parts -/

theorem extend_absent (next : Location → List Text → Lookup) (here : Location) (seg : Text)
    (segs rest : List Text) :
    Lookup.absent here seg (segs ++ rest) = (Lookup.absent here seg segs).extend next rest := by
  rw [Lookup.absent, Lookup.absent]
  by_cases hlong : FileNames.fits seg = false
  · rw [if_pos hlong, if_pos hlong, Lookup.extend]
  · rw [if_neg hlong, if_neg hlong]
    by_cases hsegs : segs = []
    · rw [if_pos hsegs, hsegs, List.nil_append, Lookup.extend]
    · rw [if_neg hsegs, if_neg fun h => hsegs (List.append_eq_nil_iff.mp h).1, Lookup.extend]

theorem extend_eq_found {next : Location → List Text → Lookup} {rest : List Text} {l : Lookup}
    (h : l.extend next rest = .found p) : ∃ q, l = .found q ∧ next q rest = .found p := by
  cases l with
  | found q => exact ⟨q, rfl, h⟩
  | free q =>
    rw [Lookup.extend] at h
    split at h <;> cases h
  | failed e => cases h

theorem statFrom_append {links : ℕ} {next : Location → List Text → Lookup}
    (hwalk : d.walk links = d.statFrom next)
    (hnext : ∀ here segs rest, ∃ r ≤ links,
      next here (segs ++ rest) = (next here segs).extend (d.walk r) rest)
    (here : Location) (segs rest : List Text) :
    ∃ r ≤ links,
      d.statFrom next here (segs ++ rest) = (d.statFrom next here segs).extend (d.walk r) rest := by
  induction segs generalizing here with
  | nil => exact ⟨links, le_rfl, by rw [List.nil_append, statFrom, Lookup.extend, hwalk]⟩
  | cons seg segs ih =>
    rw [List.cons_append, statFrom, statFrom]
    split_ifs
    · exact ⟨0, Nat.zero_le _, rfl⟩
    · exact ih here
    · exact ih here.dropLast
    · split
      next => exact ⟨0, Nat.zero_le _, extend_absent _ _ _ _ _⟩
      next target _ =>
        rw [← List.append_assoc]
        exact hnext _ _ _
      next => exact ih _

/-- **Where a path leads is where its rest leads from where its beginning does**, with no more links
left than there were. -/
theorem walk_append (links : ℕ) (here : Location) (segs rest : List Text) :
    ∃ r ≤ links, d.walk links here (segs ++ rest)
      = (d.walk links here segs).extend (d.walk r) rest := by
  induction links generalizing here segs rest with
  | zero => exact statFrom_append rfl (fun _ _ _ => ⟨0, le_rfl, rfl⟩) here segs rest
  | succ links ih =>
    refine statFrom_append rfl (fun here segs rest => ?_) here segs rest
    obtain ⟨r, hr, h⟩ := ih here segs rest
    exact ⟨r, hr.trans (Nat.le_succ links), h⟩

theorem lookup_append (path rest : Location) :
    ∃ r, d.lookup (path ++ rest) = (d.lookup path).extend (d.walk r) rest := by
  obtain ⟨r, -, h⟩ := walk_append (d := d) maxLinks [] path rest
  exact ⟨r, h⟩

/-- One step from a directory. -/
theorem walk_cons (links : ℕ) (here : Location) (seg : Text) (segs : List Text) :
    ∃ next, d.walk links here (seg :: segs) = d.statFrom next here (seg :: segs) := by
  cases links with
  | zero => exact ⟨_, rfl⟩
  | succ links => exact ⟨_, rfl⟩

/-- **What is entered is a directory**, unless the path fails. -/
theorem lookup_of_cons {path : Location} {seg : Text} {segs : List Text}
    (h : ∀ e, d.lookup (path ++ seg :: segs) ≠ .failed e) :
    ∃ p, d.lookup path = .found p ∧ d.kindAt p = some .dir := by
  obtain ⟨r, hr⟩ := lookup_append (d := d) path (seg :: segs)
  rw [hr] at h
  cases hpath : d.lookup path with
  | found p =>
    refine ⟨p, rfl, ?_⟩
    by_contra hdir
    rw [hpath, Lookup.extend] at h
    obtain ⟨next, hnext⟩ := walk_cons (d := d) r p seg segs
    rw [hnext, statFrom, if_pos hdir] at h
    exact h _ rfl
  | free p =>
    rw [hpath, Lookup.extend, if_neg (List.cons_ne_nil _ _)] at h
    exact absurd rfl (h _)
  | failed e =>
    rw [hpath] at h
    exact absurd rfl (h e)

/-- **A name in a directory**, if it is no link. -/
theorem lookup_concat {path : Location} {seg : Text} (hseg : IsName seg)
    (hpath : d.lookup path = .found p) (hdir : d.kindAt p = some .dir)
    (hlink : ∀ target, d.kindAt (p ++ [seg]) ≠ some (.link target)) :
    d.lookup (path ++ [seg]) = if d.kindAt (p ++ [seg]) = none then
      if FileNames.fits seg = false then .failed .nameTooLong else .free (p ++ [seg])
    else .found (p ++ [seg]) := by
  obtain ⟨r, hr⟩ := lookup_append (d := d) path [seg]
  obtain ⟨next, hnext⟩ := walk_cons (d := d) r p seg []
  rw [hr, hpath, Lookup.extend, hnext, statFrom, if_neg (not_not.mpr hdir),
    if_neg (not_or.mpr ⟨hseg.1, hseg.2.1⟩), if_neg hseg.2.2.1]
  split
  next hnone => rw [if_pos hnone, Lookup.absent, if_pos rfl]
  next target hkind => exact absurd hkind (hlink target)
  next k _ hkind => rw [if_neg (by simp [hkind]), statFrom]

end Disk

end Symlinks
