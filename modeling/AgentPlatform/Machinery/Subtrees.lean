import AgentPlatform.Machinery.DiskWrites

/-!
# Machinery/Subtrees — a directory tree and where it lies

What lies below a directory is listed by paths from there (`under`), and the walks of a disk are
read off that list.  `SameTree` says that two disks hold the same tree, each at a place of its own.

* `kindAt_eq`, `SamePlace.bytes` — whatever is asked of the tree has the same answer at both places.
* `sameTree_of_linkless` — two trees without links are the same if they list the same and hold the
  same.
-/

namespace Symlinks

open PosixPath

namespace Disk

variable {d : Disk} {root r p q : Location} {k : Kind}

/-- What lies below a directory, by its path from there, in the disk's order. -/
def under (d : Disk) (r : Location) : List (Location × Kind) :=
  (d.entries.filter fun x => isInside r x.1 && x.1 ≠ r).map fun x => (x.1.drop r.length, x.2)

theorem mem_under : (p, k) ∈ d.under r ↔ p ≠ [] ∧ (r ++ p, k) ∈ d.entries := by
  rw [under, List.mem_map]
  constructor
  · rintro ⟨⟨path, kind⟩, hpath, heq⟩
    obtain ⟨hmem, hinside⟩ := List.mem_filter.mp hpath
    rw [Bool.and_eq_true, isInside_iff, decide_eq_true_eq] at hinside
    obtain ⟨⟨rest, rfl⟩, hne⟩ := hinside
    rw [List.drop_left] at heq
    obtain ⟨rfl, rfl⟩ := Prod.mk.inj heq
    exact ⟨fun hnil => hne (by rw [hnil, List.append_nil]), hmem⟩
  · rintro ⟨hne, hmem⟩
    refine ⟨(r ++ p, k), List.mem_filter.mpr ⟨hmem, ?_⟩, by rw [List.drop_left]⟩
    rw [Bool.and_eq_true, isInside_iff, decide_eq_true_eq]
    exact ⟨List.prefix_append r p, by simpa using hne⟩

theorem kindAt_append_iff (hp : p ≠ []) : d.kindAt (r ++ p) = some k ↔ (p, k) ∈ d.under r := by
  have hne : r ++ p ≠ [] := List.append_ne_nil_of_right_ne_nil r hp
  rw [mem_under, and_iff_right hp, kindAt_of_ne_nil hne]
  refine ⟨fun h => mem_entries_of_kindAt hne ?_, fun h => lookup_of_mem d.unique h⟩
  rwa [kindAt_of_ne_nil hne]

/-- A directory that meets no link. -/
theorem dirAt_of_kindAt (hreal : d.IsReal p) (h : d.kindAt p = some .dir) : d.dirAt p = some p := by
  rw [dirAt, stat_of_kindAt hreal h]
  exact if_pos h

theorem isDir_of_isReal (hreal : d.IsReal p) : d.isDir p = decide (d.kindAt p = some .dir) := by
  by_cases h : d.kindAt p = some .dir
  · rw [isDir, dirAt_of_kindAt hreal h, decide_eq_true h]
    rfl
  · rw [decide_eq_false h, isDir, Option.isSome_eq_false_iff, Option.isNone_iff_eq_none,
      Option.eq_none_iff_forall_ne_some]
    exact fun q hq => h (dirAt_of_isReal hreal hq ▸ (dirAt_eq_some.mp hq).2)

/-- The file at a path that meets no link. -/
theorem fileAt_eq_of_isReal (hreal : d.IsReal p) :
    d.fileAt p = if d.kindAt p = some .file then some p else none := by
  rw [fileAt]
  cases hstat : d.stat p with
  | none =>
    refine (if_neg fun hfile => ?_).symm
    cases hstat.symm.trans (stat_of_kindAt hreal hfile)
  | some q =>
    obtain rfl := stat_of_isReal hreal hstat
    rfl

/-- A path below the directory. -/
theorem inside_iff {path : Location} : (isInside r path && decide (path ≠ r)) = true ↔
    ∃ p, p ≠ [] ∧ path = r ++ p := by
  rw [Bool.and_eq_true, isInside_iff, decide_eq_true_eq]
  constructor
  · rintro ⟨⟨p, rfl⟩, hne⟩
    exact ⟨p, fun hnil => hne (by rw [hnil, List.append_nil]), rfl⟩
  · rintro ⟨p, hp, rfl⟩
    exact ⟨List.prefix_append r p, by simpa using hp⟩

/-- **What `rglob` lists.** -/
theorem rglob_eq (h : d.dirAt root = some r) : d.rglob root = (d.under r).map fun x =>
      root ++ x.1 := by
  rw [rglob, h, under, List.map_map]
  rfl

/-- **What `iterdir` lists.** -/
theorem iterdir_eq (h : d.dirAt root = some r) :
    d.iterdir root = ((d.under r).filter fun x => x.1.length = 1).map fun x => root ++ x.1 := by
  rw [iterdir, h, under, List.filter_map, List.filter_filter, List.map_map]
  dsimp only
  rw [List.filter_congr (q := fun x => decide ((x.1.drop r.length).length = 1) &&
    (isInside r x.1 && decide (x.1 ≠ r))) fun x hx => ?_]
  · rfl
  rw [Bool.eq_iff_iff, decide_eq_true_eq, Bool.and_eq_true, decide_eq_true_eq, inside_iff]
  constructor
  · rintro rfl
    have hlast := List.dropLast_append_getLast (d.below x hx)
    refine ⟨?_, _, List.cons_ne_nil _ _, hlast.symm⟩
    rw [List.length_drop, List.length_dropLast]
    have hpos := List.length_pos_of_ne_nil (d.below x hx)
    omega
  · rintro ⟨hone, p, -, hp⟩
    rw [hp, List.drop_left] at hone
    obtain ⟨name, rfl⟩ := List.length_eq_one_iff.mp hone
    rw [hp, List.dropLast_concat]

/-- What lies below a directory of the tree. -/
theorem under_append : d.under (r ++ q)
    = ((d.under r).filter fun x => isInside q x.1 && x.1 ≠ q).map fun x =>
      (x.1.drop q.length, x.2) := by
  rw [under, under, List.filter_map, List.filter_filter, List.map_map,
    List.filter_congr (q := fun x =>
      (isInside q (x.1.drop r.length) && decide (x.1.drop r.length ≠ q)) &&
      (isInside r x.1 && decide (x.1 ≠ r))) fun x _ => ?_]
  · refine List.map_congr_left fun x _ => ?_
    rw [Function.comp_apply, List.drop_drop, List.length_append]
  rw [Bool.eq_iff_iff, inside_iff, Bool.and_eq_true, inside_iff, inside_iff]
  constructor
  · rintro ⟨p, hp, heq⟩
    rw [heq, List.append_assoc, List.drop_left]
    exact ⟨⟨p, hp, rfl⟩, q ++ p, List.append_ne_nil_of_right_ne_nil q hp, rfl⟩
  · rintro ⟨⟨p, hp, heq⟩, p', -, heq'⟩
    rw [heq', List.drop_left] at heq
    exact ⟨p, hp, by rw [heq', heq, List.append_assoc]⟩

end Disk

/-! ## The same tree at two places -/

/-- Two paths lead nowhere, or to the same place of a tree. -/
inductive SamePlace (r r' : Location) : Option Location → Option Location → Prop where
  | nowhere : SamePlace r r' none none
  | place (q : Location) : SamePlace r r' (some (r ++ q)) (some (r' ++ q))

/-- **Two disks hold the same tree**, under roots that resolve to `r` and `r'`: the same entries in
the same order with the same bytes, and links that lead to the same places of the tree. -/
structure SameTree (d d' : Disk) (c c' : Contents) (root root' r r' : Location) : Prop where
  resolved : d.realpath root = .ok r
  resolved' : d'.realpath root' = .ok r'
  dir : d.dirAt root = some r
  dir' : d'.dirAt root' = some r'
  under : d.under r = d'.under r'
  contents : ∀ q, c (r ++ q) = c' (r' ++ q)
  spelled : ∀ x ∈ d.under r, SamePlace r r' (d.stat (root ++ x.1)) (d'.stat (root' ++ x.1))
  leads : ∀ x ∈ d.under r, SamePlace r r' (d.stat (r ++ x.1)) (d'.stat (r' ++ x.1))
  real : ∀ x ∈ d.under r, ∃ q, d.realpath (r ++ x.1) = .ok (r ++ q) ∧
    d'.realpath (r' ++ x.1) = .ok (r' ++ q)

section Same

variable {d d' : Disk} {c c' : Contents} {root root' r r' q : Location}

/-- What a directory is. -/
theorem kindAt_of_dirAt (h : d.dirAt root = some r) : d.kindAt r = some .dir :=
  (Disk.dirAt_eq_some.mp h).2

/-- **The same at both places.** -/
theorem SameTree.kindAt_eq (h : SameTree d d' c c' root root' r r') (q : Location) :
    d.kindAt (r ++ q) = d'.kindAt (r' ++ q) := by
  by_cases hq : q = []
  · rw [hq, List.append_nil, List.append_nil, kindAt_of_dirAt h.dir, kindAt_of_dirAt h.dir']
  · refine Option.ext fun k => ?_
    rw [Disk.kindAt_append_iff hq, Disk.kindAt_append_iff hq, h.under]

/-- **The bytes of a file** at places that are the same. -/
theorem SameTree.bytes {path path' : Location} (h : SameTree d d' c c' root root' r r')
    (hplace : SamePlace r r' (d.stat path) (d'.stat path')) :
    (d.fileAt path).map c = (d'.fileAt path').map c' := by
  rw [Disk.fileAt, Disk.fileAt]
  revert hplace
  generalize d.stat path = o
  generalize d'.stat path' = o'
  rintro (_ | q)
  · rfl
  · dsimp only
    rw [h.kindAt_eq]
    split_ifs
    · exact congrArg some (h.contents q)
    · rfl

theorem SameTree.isDir {path path' : Location} (h : SameTree d d' c c' root root' r r')
    (hplace : SamePlace r r' (d.stat path) (d'.stat path')) : d.isDir path = d'.isDir path' := by
  rw [Disk.isDir, Disk.isDir, Disk.dirAt, Disk.dirAt]
  revert hplace
  generalize d.stat path = o
  generalize d'.stat path' = o'
  rintro (_ | q)
  · rfl
  · dsimp only
    rw [h.kindAt_eq]
    split_ifs <;> rfl

end Same

/-! ## Trees without links -/

section Linkless

variable {d d' : Disk} {c c' : Contents} {r r' p : Location} {k : Kind}

/-- A path below a directory that meets no link, in a tree without links. -/
theorem isReal_append (hr : d.IsReal r) (hp : (p, k) ∈ d.under r)
    (hnames : ∀ name ∈ p, IsName name) (hk : ∀ target, k ≠ .link target) :
    d.IsReal (r ++ p) := by
  have hkind : d.kindAt (r ++ p) = some k :=
    (Disk.kindAt_append_iff (Disk.mem_under.mp hp).1).mpr hp
  refine ⟨fun name hname => (List.mem_append.mp hname).elim (hr.names name) (hnames name),
    fun q hq target => ?_⟩
  by_cases hlast : q = r ++ p
  · rw [hlast, hkind]
    exact fun heq => hk target (Option.some.inj heq)
  · rw [Disk.kindAt_of_strict hkind hq hlast]
    simp

/-- **Trees without links are the same if they list the same and hold the same.** -/
theorem sameTree_of_linkless (hr : d.IsReal r) (hr' : d'.IsReal r') (hdir : d.kindAt r = some .dir)
    (hdir' : d'.kindAt r' = some .dir) (hunder : d.under r = d'.under r')
    (hcontents : ∀ q, c (r ++ q) = c' (r' ++ q))
    (hnames : ∀ x ∈ d.under r, ∀ name ∈ x.1, IsName name)
    (hlinkless : ∀ x ∈ d.under r, ∀ target, x.2 ≠ .link target) : SameTree d d' c c' r r' r r' := by
  have hreal : ∀ x ∈ d.under r, d.IsReal (r ++ x.1) ∧ d'.IsReal (r' ++ x.1) := fun x hx =>
    ⟨isReal_append hr hx (hnames x hx) (hlinkless x hx),
      isReal_append hr' (hunder ▸ hx) (hnames x hx) (hlinkless x hx)⟩
  have hstat : ∀ x ∈ d.under r, SamePlace r r' (d.stat (r ++ x.1)) (d'.stat (r' ++ x.1)) := by
    intro x hx
    have hne := (Disk.mem_under.mp hx).1
    rw [Disk.stat_of_kindAt (hreal x hx).1 ((Disk.kindAt_append_iff hne).mpr hx),
      Disk.stat_of_kindAt (hreal x hx).2 ((Disk.kindAt_append_iff hne).mpr (hunder ▸ hx))]
    exact .place x.1
  refine ⟨Disk.realpath_of_isReal hr, Disk.realpath_of_isReal hr', ?_, ?_, hunder,
    hcontents, hstat, hstat, fun x hx =>
    ⟨x.1, Disk.realpath_of_isReal (hreal x hx).1, Disk.realpath_of_isReal (hreal x hx).2⟩⟩
  · exact Disk.dirAt_of_kindAt hr hdir
  · exact Disk.dirAt_of_kindAt hr' hdir'

end Linkless

end Symlinks
