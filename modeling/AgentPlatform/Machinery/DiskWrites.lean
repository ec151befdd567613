import AgentPlatform.Machinery.Symlinks
import Mathlib.Data.List.Nodup

/-!
# Machinery/DiskWrites — creating directories and writing files on a disk with links

The kernel follows links on the way to what it creates or opens, and a link in the place of the file
it opens.  A path that meets no link is created and opened where it says (`opened_of_isReal`,
`creatable_of_isReal`).  Whatever a path meets, a write adds directories on the way to one file and
changes no other: `Grows`.
-/

namespace Symlinks

open PosixPath

/-- A disk and what its files hold. -/
structure Storage where
  disk : Disk
  contents : Contents

namespace Disk

variable {d : Disk} {p q : Location} {k : Kind}

@[simp] theorem kindAt_nil : d.kindAt [] = some .dir := if_pos rfl

theorem kindAt_of_ne_nil (h : p ≠ []) : d.kindAt p = d.entries.lookup p := if_neg h

theorem ne_nil_of_kindAt_eq_none (h : d.kindAt p = none) : p ≠ [] := by
  rintro rfl
  cases kindAt_nil.symm.trans h

theorem mem_entries_of_kindAt (hne : p ≠ []) (h : d.kindAt p = some k) : (p, k) ∈ d.entries := by
  rw [kindAt_of_ne_nil hne] at h
  obtain ⟨l₁, l₂, hentries, -⟩ := List.lookup_eq_some_iff.mp h
  rw [hentries]
  exact List.mem_append_right _ List.mem_cons_self

theorem not_mem_of_kindAt_eq_none (h : d.kindAt p = none) : p ∉ d.entries.map Prod.fst := by
  rw [kindAt_of_ne_nil (ne_nil_of_kindAt_eq_none h), List.lookup_eq_none_iff] at h
  intro hmem
  obtain ⟨x, hx, rfl⟩ := List.mem_map.mp hmem
  simpa using h x hx

/-- The disk with a new entry in an existing directory. -/
def add (d : Disk) (p : Location) (k : Kind) (habsent : d.kindAt p = none)
    (hparent : d.kindAt p.dropLast = some .dir) : Disk where
  entries := d.entries ++ [(p, k)]
  below := by
    intro x hx
    rcases List.mem_append.mp hx with hx | hx
    · exact d.below x hx
    · rw [List.mem_singleton.mp hx]
      exact ne_nil_of_kindAt_eq_none habsent
  unique := by
    rw [List.map_append, List.nodup_append]
    refine ⟨d.unique, List.nodup_singleton _, fun a ha b hb hab => ?_⟩
    rw [hab, List.mem_singleton.mp hb] at ha
    exact not_mem_of_kindAt_eq_none habsent ha
  parents := by
    intro x hx
    rcases List.mem_append.mp hx with hx | hx
    · exact (d.parents x hx).imp_right (List.mem_append_left _)
    · rw [List.mem_singleton.mp hx]
      by_cases hroot : p.dropLast = []
      · exact .inl hroot
      · exact .inr (List.mem_append_left _ (mem_entries_of_kindAt hroot hparent))

theorem kindAt_add (habsent : d.kindAt p = none) (hparent : d.kindAt p.dropLast = some .dir) :
    (d.add p k habsent hparent).kindAt q = if q = p then some k else d.kindAt q := by
  have hne := ne_nil_of_kindAt_eq_none habsent
  by_cases hq : q = []
  · subst hq
    rw [kindAt_nil, kindAt_nil, if_neg (Ne.symm hne)]
  · rw [kindAt_of_ne_nil hq, add, List.lookup_append]
    split_ifs with hqp
    · subst hqp
      rw [kindAt_of_ne_nil hq] at habsent
      simp [habsent]
    · have hmiss : ([(p, k)] : List (Location × Kind)).lookup q = none := by
        rw [List.lookup_cons, beq_eq_false_iff_ne.mpr hqp]
        rfl
      rw [hmiss, Option.or_none, kindAt_of_ne_nil hq]

/-- A new entry, if its place is free and its directory there. -/
def insert (d : Disk) (p : Location) (k : Kind) : Disk :=
  if h : d.kindAt p = none ∧ d.kindAt p.dropLast = some .dir then d.add p k h.1 h.2 else d

theorem kindAt_insert_of_ne (h : q ≠ p) : (d.insert p k).kindAt q = d.kindAt q := by
  rw [insert]
  split
  · rw [kindAt_add, if_neg h]
  · rfl

theorem kindAt_insert_self (habsent : d.kindAt p = none)
    (hparent : d.kindAt p.dropLast = some .dir) : (d.insert p k).kindAt p = some k := by
  rw [insert, dif_pos ⟨habsent, hparent⟩, kindAt_add, if_pos rfl]

theorem insert_of_present {k' : Kind} (h : d.kindAt p = some k') : d.insert p k = d :=
  dif_neg fun habsent => by cases h.symm.trans habsent.1

theorem lookup_of_mem {l : List (Location × Kind)} (hunique : (l.map Prod.fst).Nodup)
    (h : (p, k) ∈ l) : l.lookup p = some k := by
  induction l with
  | nil => cases h
  | cons x l ih =>
    rw [List.map_cons, List.nodup_cons] at hunique
    rcases List.mem_cons.mp h with rfl | h
    · exact List.lookup_cons_self
    · have hne : (p == x.1) = false := by
        rw [beq_eq_false_iff_ne]
        rintro rfl
        exact hunique.1 (List.mem_map.mpr ⟨_, h, rfl⟩)
      rw [List.lookup_cons, hne]
      exact ih hunique.2 h

/-- What has something in it is a directory. -/
theorem kindAt_dropLast (h : d.kindAt p = some k) : d.kindAt p.dropLast = some .dir := by
  by_cases hne : p = []
  · rw [hne]
    exact kindAt_nil
  · rcases d.parents _ (mem_entries_of_kindAt hne h) with hroot | hparent
    · rw [hroot]
      exact kindAt_nil
    · have hbelow := d.below _ hparent
      rw [kindAt_of_ne_nil hbelow]
      exact lookup_of_mem d.unique hparent

/-- …and so is everything on the way to it. -/
theorem kindAt_of_strict (h : d.kindAt p = some k) (hq : q <+: p) (hne : q ≠ p) :
    d.kindAt q = some .dir := by
  induction hn : p.length - q.length generalizing p k with
  | zero =>
    have hle := hq.length_le
    exact absurd (hq.eq_of_length (by omega)) hne
  | succ n ih =>
    have hparent := kindAt_dropLast h
    have hwithin : q <+: p.dropLast := prefix_dropLast hq hne
    by_cases hlast : q = p.dropLast
    · rw [hlast]
      exact hparent
    · refine ih hparent hwithin hlast ?_
      rw [List.length_dropLast]
      omega

/-! ## What the kernel creates and opens -/

variable (d)

/-- Where `mkdir` would create the path: in the directory its parent leads to. -/
def creatable (path : Location) : Option Location :=
  match d.dirAt path.dropLast, path.getLast? with
  | some dir, some name =>
    if d.kindAt (dir ++ [name]) = none ∧ FileNames.fits name = true then some (dir ++ [name])
    else none
  | _, _ => none

/-- The file `open(path, "w")` opens, created if need be. -/
def opened (path : Location) : Option Location :=
  match d.lookup path with
  | .found p => if d.kindAt p = some .file then some p else none
  | .free p => some p
  | .failed _ => none

variable {d}

theorem dirAt_eq_some : d.dirAt p = some q ↔ d.lookup p = .found q ∧ d.kindAt q = some .dir := by
  rw [dirAt, ← stat_eq_some]
  split
  next p' hstat =>
    rw [hstat]
    split_ifs with hdir
    · exact ⟨by rintro ⟨⟩; exact ⟨rfl, hdir⟩, fun h => h.1⟩
    · exact ⟨by rintro ⟨⟩, by rintro ⟨⟨⟩, h⟩; exact absurd h hdir⟩
  next hstat => simp [hstat]

theorem creatable_eq_some : d.creatable p = some q ↔
    ∃ dir name, d.dirAt p.dropLast = some dir ∧ p.getLast? = some name ∧ q = dir ++ [name] ∧
      d.kindAt q = none ∧ FileNames.fits name = true := by
  rw [creatable]
  split
  next dir name hdir hname =>
    split_ifs with habsent
    · constructor
      · rintro ⟨⟩
        exact ⟨dir, name, hdir, hname, rfl, habsent⟩
      · rintro ⟨dir', name', hdir', hname', rfl, -⟩
        rw [Option.some.inj (hdir.symm.trans hdir'), Option.some.inj (hname.symm.trans hname')]
    · refine ⟨by rintro ⟨⟩, ?_⟩
      rintro ⟨dir', name', hdir', hname', rfl, habsent'⟩
      rw [← Option.some.inj (hdir.symm.trans hdir'), ← Option.some.inj (hname.symm.trans hname')]
        at habsent'
      exact absurd habsent' habsent
  next hnone =>
    refine ⟨by rintro ⟨⟩, ?_⟩
    rintro ⟨dir, name, hdir, hname, -⟩
    exact absurd hname (hnone dir name hdir)

/-- What is free is a place in a directory. -/
theorem statFrom_free {next : Location → List Text → Lookup} {here : Location} {segs : List Text}
    (hnext : ∀ here segs, next here segs = .free p → d.kindAt p = none ∧
      d.kindAt p.dropLast = some .dir)
    (h : d.statFrom next here segs = .free p) :
    d.kindAt p = none ∧ d.kindAt p.dropLast = some .dir := by
  induction segs generalizing here with
  | nil => cases h
  | cons seg segs ih =>
    rw [statFrom] at h
    split_ifs at h with hdir
    · exact ih h
    · exact ih h
    · split at h
      next hnone =>
        obtain ⟨-, -, rfl⟩ := absent_eq_free.mp h
        rw [List.dropLast_concat]
        exact ⟨hnone, not_not.mp hdir⟩
      next => exact hnext _ _ h
      next => exact ih h

theorem walk_free {links : ℕ} {here : Location} {segs : List Text}
    (h : d.walk links here segs = .free p) : d.kindAt p = none ∧
    d.kindAt p.dropLast = some .dir := by
  induction links generalizing here segs with
  | zero =>
    rw [walk] at h
    exact statFrom_free (fun _ _ hloop => by cases hloop) h
  | succ links ih => exact statFrom_free (fun _ _ h => ih h) h

theorem lookup_free (h : d.lookup p = .free q) :
    d.kindAt q = none ∧ d.kindAt q.dropLast = some .dir := walk_free h

/-- **What is opened is a file, or a free place in a directory.** -/
theorem kindAt_opened (h : d.opened p = some q) : d.kindAt q = some .file ∨
    (d.kindAt q = none ∧ d.kindAt q.dropLast = some .dir) := by
  rw [opened] at h
  split at h
  next p' _ =>
    split_ifs at h with hfile
    cases h
    exact .inl hfile
  next hfree =>
    cases h
    exact .inr (lookup_free hfree)
  next => cases h

theorem kindAt_creatable (h : d.creatable p = some q) :
    d.kindAt q = none ∧ d.kindAt q.dropLast = some .dir := by
  obtain ⟨dir, name, hdir, -, rfl, habsent, -⟩ := creatable_eq_some.mp h
  rw [List.dropLast_concat]
  exact ⟨habsent, (dirAt_eq_some.mp hdir).2⟩

theorem dirAt_of_isReal (hreal : d.IsReal p) (h : d.dirAt p = some q) : q = p := by
  rw [dirAt_eq_some, ← stat_eq_some] at h
  exact stat_of_isReal hreal h.1

/-- **A path that meets no link is created where it says.** -/
theorem creatable_of_isReal (hreal : d.IsReal p) (h : d.creatable p = some q) : q = p := by
  obtain ⟨dir, name, hdir, hname, rfl, -⟩ := creatable_eq_some.mp h
  rw [dirAt_of_isReal hreal.dropLast hdir]
  exact List.dropLast_append_getLast? name hname

/-- **A path that meets no link is opened where it says.** -/
theorem opened_of_isReal (hreal : d.IsReal p) (h : d.opened p = some q) : q = p := by
  rw [opened] at h
  rcases lookup_of_isReal hreal with hfound | hfree | ⟨e, -, hfailed⟩
  · rw [hfound] at h
    dsimp only at h
    split_ifs at h
    exact (Option.some.inj h).symm
  · rw [hfree] at h
    exact (Option.some.inj h).symm
  · rw [hfailed] at h
    cases h

theorem IsReal.of_way (hreal : d.IsReal p) (h : q <+: p) : d.IsReal q :=
  ⟨fun name hname => hreal.names name (h.subset hname), fun o ho => hreal.linkless o (ho.trans h)⟩

theorem statFrom_of_kindAt {next : Location → List Text → Lookup} {here segs : Location}
    (hreal : d.IsReal (here ++ segs)) (h : d.kindAt (here ++ segs) = some k) :
    d.statFrom next here segs = .found (here ++ segs) := by
  induction segs generalizing here with
  | nil => rw [statFrom, List.append_nil]
  | cons seg segs ih =>
    obtain ⟨hempty, hdot, hup, -⟩ := hreal.names seg (by simp)
    have hassoc : here ++ seg :: segs = here ++ [seg] ++ segs := by simp
    have hhere : d.kindAt here = some .dir := kindAt_of_strict h (List.prefix_append _ _) (by simp)
    rw [statFrom, if_neg (not_not.mpr hhere), if_neg (not_or.mpr ⟨hempty, hdot⟩), if_neg hup]
    rw [hassoc] at hreal h ⊢
    have hpresent : d.kindAt (here ++ [seg]) ≠ none := by
      by_cases hlast : segs = []
      · rw [hlast, List.append_nil] at h
        simp [h]
      · rw [kindAt_of_strict h (List.prefix_append _ _) (by simpa using hlast)]
        simp
    split
    next hnone => exact absurd hnone hpresent
    next target hkind => exact absurd hkind (hreal.linkless _ ⟨segs, rfl⟩ target)
    next => exact ih hreal h

/-- **The kernel finds what is there.** -/
theorem stat_of_kindAt (hreal : d.IsReal p) (h : d.kindAt p = some k) : d.stat p = some p :=
  stat_eq_some.mpr (statFrom_of_kindAt hreal h)

/-- **`realpath` takes a path that meets no link to itself.** -/
theorem realFrom_of_isReal {follow : Location → Text → Except Stop Location} {here segs : Location}
    (hreal : d.IsReal (here ++ segs)) : d.realFrom follow here segs = .ok (here ++ segs) := by
  induction segs generalizing here with
  | nil => rw [realFrom, List.append_nil]
  | cons seg segs ih =>
    obtain ⟨hempty, hdot, hup, hvalid⟩ := hreal.names seg (by simp)
    have hassoc : here ++ seg :: segs = here ++ [seg] ++ segs := by simp
    rw [realFrom, if_neg (not_or.mpr ⟨hempty, hdot⟩), if_neg hup, hvalid]
    rw [hassoc] at hreal ⊢
    split
    next hsome => exact absurd hsome (by simp)
    next target _ hkind => exact absurd hkind (hreal.linkless _ ⟨segs, rfl⟩ target)
    next => exact ih hreal

theorem realpath_of_isReal (hreal : d.IsReal p) : d.realpath p = .ok p := by
  have hroot : d.IsReal ([] ++ p) := hreal
  exact realFrom_of_isReal hroot

/-! ## More on the disk -/

/-- **What is there is still there**: the second disk has all the first has. -/
def Within (d d' : Disk) : Prop := ∀ q k, d.kindAt q = some k → d'.kindAt q = some k

variable {d' : Disk}

/-- Where a path leads on more of a disk: to the same place, or to what is new there. -/
theorem statFrom_within {next next' : Location → List Text → Lookup} {here : Location}
    {segs : List Text}
    (hwithin : Within d d') (hnext : ∀ here segs, next here segs = .found p →
      next' here segs = .found p)
    (h : d.statFrom next here segs = .found p) : d'.statFrom next' here segs = .found p := by
  induction segs generalizing here with
  | nil => exact h
  | cons seg segs ih =>
    rw [statFrom] at h ⊢
    by_cases hdir : d.kindAt here = some .dir
    · rw [if_neg (not_not.mpr hdir)] at h
      rw [if_neg (not_not.mpr (hwithin _ _ hdir))]
      split_ifs at h ⊢
      · exact ih h
      · exact ih h
      · split at h
        next => exact absurd h absent_ne_found
        next target hkind =>
          rw [hwithin _ _ hkind]
          exact hnext _ _ h
        next k hlink hkind =>
          rw [hwithin _ _ hkind]
          cases k with
          | link target => exact absurd rfl (hlink target)
          | _ => exact ih h
    · rw [if_pos hdir] at h
      cases h

theorem walk_within {links links' : ℕ} {here : Location} {segs : List Text} (hwithin : Within d d')
    (hle : links ≤ links') (h : d.walk links here segs = .found p) :
    d'.walk links' here segs = .found p := by
  induction links generalizing here segs links' with
  | zero =>
    rw [walk] at h
    cases links' with
    | zero => exact statFrom_within hwithin (fun _ _ hloop => by cases hloop) h
    | succ links' => exact statFrom_within hwithin (fun _ _ hloop => by cases hloop) h
  | succ links ih =>
    obtain ⟨links', rfl⟩ := Nat.exists_eq_add_of_le' ((Nat.succ_pos links).trans_le hle)
    exact statFrom_within hwithin (fun _ _ h => ih (Nat.le_of_succ_le_succ hle) h) h

theorem lookup_within (hwithin : Within d d')
    (h : d.lookup p = .found q) : d'.lookup p = .found q :=
  walk_within hwithin le_rfl h

/-- A place that was free, once something is there. -/
theorem statFrom_filled {next next' : Location → List Text → Lookup} {here : Location}
    {segs : List Text}
    (hwithin : Within d d') (hk : d'.kindAt p = some k) (hlink : ∀ target, k ≠ .link target)
    (hnext : ∀ here segs, next here segs = .free p → next' here segs = .found p)
    (h : d.statFrom next here segs = .free p) : d'.statFrom next' here segs = .found p := by
  induction segs generalizing here with
  | nil => cases h
  | cons seg segs ih =>
    rw [statFrom] at h ⊢
    by_cases hdir : d.kindAt here = some .dir
    · rw [if_neg (not_not.mpr hdir)] at h
      rw [if_neg (not_not.mpr (hwithin _ _ hdir))]
      split_ifs at h ⊢
      · exact ih h
      · exact ih h
      · split at h
        next =>
          obtain ⟨-, rfl, rfl⟩ := absent_eq_free.mp h
          rw [hk]
          cases k with
          | link target => exact absurd rfl (hlink target)
          | _ => rw [statFrom]
        next target hkind =>
          rw [hwithin _ _ hkind]
          exact hnext _ _ h
        next k' hlink' hkind =>
          rw [hwithin _ _ hkind]
          cases k' with
          | link target => exact absurd rfl (hlink' target)
          | _ => exact ih h
    · rw [if_pos hdir] at h
      cases h

theorem walk_filled {links : ℕ} {here : Location} {segs : List Text} (hwithin : Within d d')
    (hk : d'.kindAt p = some k) (hlink : ∀ target, k ≠ .link target)
    (h : d.walk links here segs = .free p) : d'.walk links here segs = .found p := by
  induction links generalizing here segs with
  | zero =>
    rw [walk] at h ⊢
    exact statFrom_filled hwithin hk hlink (fun _ _ hloop => by cases hloop) h
  | succ links ih => exact statFrom_filled hwithin hk hlink (fun _ _ h => ih h) h

/-- **A place that was free is found once something is there.** -/
theorem lookup_filled (hwithin : Within d d') (hk : d'.kindAt q = some k)
    (hlink : ∀ target, k ≠ .link target) (h : d.lookup p = .free q) : d'.lookup p = .found q :=
  walk_filled hwithin hk hlink h

/-- Nothing is in what is not there. -/
theorem kindAt_below_none (h : d.kindAt p = none)
    (name : Text) : d.kindAt (p ++ [name]) = none := by
  by_contra hsome
  obtain ⟨k, hk⟩ := Option.ne_none_iff_exists'.mp hsome
  have hparent := kindAt_dropLast hk
  rw [List.dropLast_concat, h] at hparent
  cases hparent

end Disk

/-! ## Storing -/

namespace Storage

/-- A file with its bytes, new or over the file that is there. -/
def put (s : Storage) (p : Location) (bytes : List UInt8) : Storage where
  disk := s.disk.insert p .file
  contents := fun q => if q = p then bytes else s.contents q

def mkdir (s : Storage) (p : Location) : Storage where
  disk := s.disk.insert p .dir
  contents := s.contents

/-- **What writing a file at `target` may do**: nothing on the disk is replaced, no other file
changes, and what is new is the file itself or a directory on the way to it. -/
structure Grows (target : Location) (s s' : Storage) : Prop where
  kinds : ∀ q k, s.disk.kindAt q = some k → s'.disk.kindAt q = some k
  added : ∀ q, s.disk.kindAt q = none → s'.disk.kindAt q = none ∨
    (q = target ∧ s'.disk.kindAt q = some .file) ∨
    (q <+: target ∧ q ≠ target ∧ s'.disk.kindAt q = some .dir)
  contents : ∀ q, q ≠ target → s'.contents q = s.contents q

variable {target p : Location} {s s' : Storage} {bytes : List UInt8}

theorem grows_refl : Grows target s s := ⟨fun _ _ h => h, fun _ h => .inl h, fun _ _ => rfl⟩

theorem Grows.trans {s'' : Storage} (h : Grows target s s') (h' : Grows target s' s'') :
    Grows target s s'' := by
  refine ⟨fun q k hk => h'.kinds q k (h.kinds q k hk), fun q hq => ?_,
    fun q hq => (h'.contents q hq).trans (h.contents q hq)⟩
  rcases h.added q hq with hnone | ⟨rfl, hfile⟩ | ⟨hway, hne, hdir⟩
  · exact h'.added q hnone
  · exact .inr (.inl ⟨rfl, h'.kinds _ _ hfile⟩)
  · exact .inr (.inr ⟨hway, hne, h'.kinds _ _ hdir⟩)

theorem kindAt_put (bytes : List UInt8) (h : s.disk.kindAt p = some .file ∨
    (s.disk.kindAt p = none ∧ s.disk.kindAt p.dropLast = some .dir)) :
    (s.put p bytes).disk.kindAt p = some .file := by
  rcases h with hfile | ⟨habsent, hparent⟩
  · rw [put, Disk.insert_of_present hfile, hfile]
  · rw [put, Disk.kindAt_insert_self habsent hparent]

theorem grows_put (h : s.disk.kindAt target = some .file ∨
    (s.disk.kindAt target = none ∧ s.disk.kindAt target.dropLast = some .dir)) :
    Grows target s (s.put target bytes) := by
  have hself := kindAt_put bytes h
  have hother : ∀ q, q ≠ target → (s.put target bytes).disk.kindAt q = s.disk.kindAt q :=
    fun q hq => Disk.kindAt_insert_of_ne hq
  refine ⟨fun q k hk => ?_, fun q hq => ?_, fun q hq => if_neg hq⟩
  · by_cases hqt : q = target
    · subst hqt
      rcases h with hfile | ⟨habsent, -⟩
      · rw [hself, ← hfile, hk]
      · cases hk.symm.trans habsent
    · rw [hother q hqt, hk]
  · by_cases hqt : q = target
    · subst hqt
      exact .inr (.inl ⟨rfl, hself⟩)
    · rw [hother q hqt]
      exact .inl hq

theorem grows_mkdir (hway : p <+: target) (hne : p ≠ target) (habsent : s.disk.kindAt p = none)
    (hparent : s.disk.kindAt p.dropLast = some .dir) : Grows target s (s.mkdir p) := by
  have hself : (s.mkdir p).disk.kindAt p = some .dir := Disk.kindAt_insert_self habsent hparent
  have hother : ∀ q, q ≠ p → (s.mkdir p).disk.kindAt q = s.disk.kindAt q :=
    fun q hq => Disk.kindAt_insert_of_ne hq
  refine ⟨fun q k hk => ?_, fun q hq => ?_, fun q _ => rfl⟩
  · have hqp : q ≠ p := by
      rintro rfl
      cases hk.symm.trans habsent
    rw [hother q hqp, hk]
  · by_cases hqp : q = p
    · subst hqp
      exact .inr (.inr ⟨hway, hne, hself⟩)
    · rw [hother q hqp]
      exact .inl hq

/-- A path that met no link meets none after it. -/
theorem Grows.isReal (h : Grows target s s') (hreal : s.disk.IsReal p) : s'.disk.IsReal p := by
  refine ⟨hreal.names, fun q hq link hlink => ?_⟩
  rcases hkind : s.disk.kindAt q with _ | k
  · rcases h.added q hkind with hnone | ⟨-, hfile⟩ | ⟨-, -, hdir⟩
    · cases hlink.symm.trans hnone
    · cases hlink.symm.trans hfile
    · cases hlink.symm.trans hdir
  · have hsame := hlink.symm.trans (h.kinds q k hkind)
    rw [← Option.some.inj hsame] at hkind
    exact hreal.linkless q hq link hkind

end Storage

end Symlinks
