import AgentPlatform.Machinery.DiskWrites

/-!
# Machinery/Landings — making the directories for a file, and where the file lands

The directories on the way to a file are made from the top, each where the kernel takes the path to
it. From the first that was missing on there is nothing to follow: what lies below is new.

* `opened_of_makeDirs` — the file is opened where the path lands on the disk as it was (`landing`),
  and every directory that was made is on the way to it.
-/

namespace Symlinks

open PosixPath

namespace Disk

section Landing

variable (d : Disk)

/-- Where a file is once the missing directories on the way to it are made. -/
def landingFrom : Location → List Text → Option Location
  | here, [] => d.opened here
  | here, name :: names =>
    if names = [] then d.opened (here ++ [name])
    else if d.isDir (here ++ [name]) then landingFrom (here ++ [name]) names
    else (d.creatable (here ++ [name])).map (· ++ names)

def landing (path : Location) : Option Location :=
  d.landingFrom (path.take (slashes path)) (path.drop (slashes path))

end Landing

variable {d : Disk} {here p q : Location} {names : List Text}

theorem isDir_iff : d.isDir p = true ↔ ∃ q, d.lookup p = .found q ∧ d.kindAt q = some .dir := by
  rw [isDir, Option.isSome_iff_exists]
  exact exists_congr fun _ => dirAt_eq_some

/-- **A path without links lands where it says.** -/
theorem landing_of_isReal {path : Location} (hreal : d.IsReal path) (h : d.landing path = some p) :
    p = path := by
  have hfrom : ∀ {here names}, d.IsReal (here ++ names) → d.landingFrom here names = some p →
      p = here ++ names := by
    intro here names hreal h
    induction names generalizing here with
    | nil =>
      rw [List.append_nil] at hreal ⊢
      exact opened_of_isReal hreal h
    | cons name names ih =>
      rw [landingFrom] at h
      split_ifs at h with hlast hdir
      · rw [hlast] at hreal ⊢
        exact opened_of_isReal hreal h
      · rw [List.append_cons] at hreal ⊢
        exact ih hreal h
      · obtain ⟨q, hq, rfl⟩ := Option.map_eq_some_iff.mp h
        rw [List.append_cons] at hreal ⊢
        rw [creatable_of_isReal (hreal.of_way (List.prefix_append _ _)) hq]
  have hsplit := List.take_append_drop (slashes path) path
  rw [← hsplit]
  exact hfrom (hsplit.symm ▸ hreal) h

/-- **A path that can be opened as it is lands there.** -/
theorem landing_of_opened {path : Location}
    (h : d.opened path = some p) : d.landing path = some p := by
  have hfrom : ∀ {here names}, d.opened (here ++ names) = some p →
      d.landingFrom here names = some p := by
    intro here names h
    induction names generalizing here with
    | nil => rwa [List.append_nil] at h
    | cons name names ih =>
      rw [landingFrom]
      cases names with
      | nil => rwa [if_pos rfl]
      | cons name' names =>
        rw [List.append_cons] at h
        have hopen : ∀ e, d.lookup (here ++ [name] ++ name' :: names) ≠ .failed e := by
          intro e hfailed
          rw [opened, hfailed] at h
          cases h
        rw [if_neg (List.cons_ne_nil _ _), if_pos (isDir_iff.mpr (lookup_of_cons hopen))]
        exact ih h
  refine hfrom ?_
  rwa [List.take_append_drop]

/-- **Where nothing is found, nothing is where the path lands.** -/
theorem absent_of_landing {path : Location} (hstat : d.stat path = none)
    (h : d.landing path = some p) :
    d.kindAt p = none := by
  have hopened : ∀ {path}, d.stat path = none → d.opened path = some p → d.kindAt p = none := by
    intro path hstat h
    rw [opened] at h
    split at h
    next q hfound => cases hstat.symm.trans (stat_eq_some.mpr hfound)
    next hfree => exact Option.some.inj h ▸ (lookup_free hfree).1
    next => cases h
  have hfrom : ∀ {here names}, d.stat (here ++ names) = none → d.landingFrom here names = some p →
      d.kindAt p = none := by
    intro here names hstat h
    induction names generalizing here with
    | nil =>
      rw [List.append_nil] at hstat
      exact hopened hstat h
    | cons name names ih =>
      rw [landingFrom] at h
      rw [List.append_cons] at hstat
      split_ifs at h with hlast hdir
      · rw [hlast, List.append_nil] at hstat
        exact hopened hstat h
      · exact ih hstat h
      · obtain ⟨q, hq, rfl⟩ := Option.map_eq_some_iff.mp h
        by_contra hsome
        obtain ⟨k, hk⟩ := Option.ne_none_iff_exists'.mp hsome
        have hnone := (kindAt_creatable hq).1
        cases hnone.symm.trans
          (kindAt_of_strict hk (List.prefix_append q names) (by simpa using hlast))
  refine hfrom ?_ h
  rwa [List.take_append_drop]

/-- The root is a directory. -/
theorem lookup_of_slashes {path : Location} (h : path.drop (slashes path) = []) :
    d.lookup path = .found [] := by
  rcases path with _ | ⟨x, xs⟩
  · rfl
  · rw [slashes] at h
    split_ifs at h with hdoubled
    · obtain rfl : x = [] := by simpa [doubled] using hdoubled
      obtain rfl : xs = [] := h
      rfl
    · cases h

/-- A name that is free is free there. -/
theorem lookup_of_creatable {name : Text} (hname : IsName name)
    (h : d.creatable (here ++ [name]) = some p) : d.lookup (here ++ [name]) = .free p := by
  obtain ⟨dir, name', hdir, hlast, rfl, habsent, hfits⟩ := creatable_eq_some.mp h
  rw [List.dropLast_concat, dirAt_eq_some] at hdir
  rw [List.getLast?_concat] at hlast
  obtain rfl := Option.some.inj hlast
  rw [lookup_concat hname hdir.1 hdir.2 (by simp [habsent]), if_pos habsent,
    if_neg (by simp [hfits])]

end Disk

namespace Storage

/-- The directories on the way, from the top; and the first that cannot be made. -/
def makeFrom : Storage → Location → List Text → Storage × Option Location
  | s, _, [] => (s, none)
  | s, here, name :: names =>
    if s.disk.isDir (here ++ [name]) then makeFrom s (here ++ [name]) names
    else match s.disk.creatable (here ++ [name]) with
      | some p => makeFrom (s.mkdir p) (here ++ [name]) names
      | none => (s, some (here ++ [name]))

def makeDirs (s : Storage) (path : Location) : Storage × Option Location :=
  s.makeFrom (path.take (slashes path)) (path.drop (slashes path))

/-- **Nothing but new directories.** -/
structure AddsDirs (s s' : Storage) : Prop where
  kinds : ∀ q k, s.disk.kindAt q = some k → s'.disk.kindAt q = some k
  added : ∀ q, s.disk.kindAt q = none → s'.disk.kindAt q = none ∨ s'.disk.kindAt q = some .dir
  contents : s'.contents = s.contents

variable {s s' : Storage} {here p q : Location} {names : List Text}

theorem addsDirs_mkdir (habsent : s.disk.kindAt p = none) : AddsDirs s (s.mkdir p) := by
  have hother : ∀ q, q ≠ p → (s.mkdir p).disk.kindAt q = s.disk.kindAt q :=
    fun q hq => Disk.kindAt_insert_of_ne hq
  refine ⟨fun q k hk => ?_, fun q hq => ?_, rfl⟩
  · rw [hother q (by rintro rfl; cases hk.symm.trans habsent), hk]
  · by_cases hqp : q = p
    · subst hqp
      rw [mkdir, Disk.insert]
      split
      next h => exact .inr (by rw [Disk.kindAt_add, if_pos rfl])
      next => exact .inl hq
    · rw [hother q hqp]
      exact .inl hq

theorem AddsDirs.trans {s'' : Storage} (h : AddsDirs s s')
    (h' : AddsDirs s' s'') : AddsDirs s s'' := by
  refine ⟨fun q k hk => h'.kinds q k (h.kinds q k hk), fun q hq => ?_, h'.contents.trans h.contents⟩
  rcases h.added q hq with hnone | hdir
  · exact h'.added q hnone
  · exact .inr (h'.kinds q _ hdir)

theorem addsDirs_makeFrom (s : Storage) (here : Location) (names : List Text) :
    AddsDirs s (s.makeFrom here names).1 := by
  induction names generalizing s here with
  | nil => exact ⟨fun _ _ h => h, fun _ h => .inl h, rfl⟩
  | cons name names ih =>
    rw [makeFrom]
    split
    · exact ih s _
    · split
      next q hq => exact (addsDirs_mkdir (Disk.kindAt_creatable hq).1).trans (ih _ _)
      next => exact ⟨fun _ _ h => h, fun _ h => .inl h, rfl⟩

theorem addsDirs_makeDirs (s : Storage) (path : Location) : AddsDirs s (s.makeDirs path).1 :=
  addsDirs_makeFrom s _ _

/-- **A new directory is found, and nothing is in it.** -/
theorem mkdir_of_creatable {name : Text} (hname : IsName name)
    (hq : s.disk.creatable (here ++ [name]) = some q) :
    (s.mkdir q).disk.lookup (here ++ [name]) = .found q ∧ (s.mkdir q).disk.kindAt q = some .dir ∧
      (∀ name', (s.mkdir q).disk.kindAt (q ++ [name']) = none) ∧
      ∀ rest last, Grows (q ++ rest ++ [last]) s (s.mkdir q) := by
  obtain ⟨hfree, hparent⟩ := Disk.kindAt_creatable hq
  have hself : (s.mkdir q).disk.kindAt q = some .dir := Disk.kindAt_insert_self hfree hparent
  refine ⟨?_, hself, fun name' => ?_, fun rest last => grows_mkdir ?_ ?_ hfree hparent⟩
  · exact Disk.lookup_filled (addsDirs_mkdir hfree).kinds hself (by simp)
      (Disk.lookup_of_creatable hname hq)
  · exact (Disk.kindAt_insert_of_ne (by simp)).trans (Disk.kindAt_below_none hfree name')
  · rw [List.append_assoc]
    exact List.prefix_append _ _
  · intro heq
    have hlength := congrArg List.length heq
    simp only [List.length_append, List.length_singleton] at hlength
    omega

/-- **Below a new directory nothing is in the way.** -/
theorem makeFrom_of_empty (hnames : ∀ name ∈ names, IsName name)
    (hhere : s.disk.lookup here = .found p) (hdir : s.disk.kindAt p = some .dir)
    (hempty : ∀ name, s.disk.kindAt (p ++ [name]) = none) (h : s.makeFrom here names = (s', none)) :
    s'.disk.lookup (here ++ names) = .found (p ++ names) ∧
      s'.disk.kindAt (p ++ names) = some .dir ∧
      (∀ name, s'.disk.kindAt (p ++ names ++ [name]) = none) ∧
      ∀ last, Grows (p ++ names ++ [last]) s s' := by
  induction names generalizing s here p with
  | nil =>
    obtain rfl := (Prod.mk.inj h).1
    rw [List.append_nil, List.append_nil]
    exact ⟨hhere, hdir, hempty, fun _ => grows_refl⟩
  | cons name names ih =>
    rw [List.forall_mem_cons] at hnames
    have hfree := hempty name
    have hlookup := Disk.lookup_concat hnames.1 hhere hdir (by simp [hfree])
    rw [if_pos hfree] at hlookup
    have hnodir : ¬ s.disk.isDir (here ++ [name]) = true := by
      rw [Disk.isDir_iff, hlookup]
      split_ifs <;> simp
    rw [makeFrom, if_neg hnodir] at h
    split at h
    next q hq =>
      obtain rfl : q = p ++ [name] := by
        have hq' := Disk.lookup_of_creatable hnames.1 hq
        rw [hlookup] at hq'
        split_ifs at hq'
        exact (Lookup.free.inj hq').symm
      obtain ⟨hfound, hself, hbelow, hmade⟩ := mkdir_of_creatable hnames.1 hq
      obtain ⟨hlast, hdir', hempty', hgrows⟩ := ih hnames.2 hfound hself hbelow h
      rw [List.append_cons here, List.append_cons p]
      exact ⟨hlast, hdir', hempty', fun last => (hmade names last).trans (hgrows last)⟩
    next => cases h

/-- From the first directory that is missing on. -/
theorem opened_of_makeFrom {last : Text} (hnames : ∀ name ∈ names ++ [last], IsName name)
    (h : s.makeFrom here names = (s', none))
    (hopen : s'.disk.opened (here ++ (names ++ [last])) = some p) :
    s.disk.landingFrom here (names ++ [last]) = some p ∧ Grows p s s' := by
  induction names generalizing s here with
  | nil =>
    obtain rfl := (Prod.mk.inj h).1
    rw [List.nil_append] at hopen ⊢
    rw [Disk.landingFrom, if_pos rfl]
    exact ⟨hopen, grows_refl⟩
  | cons name names ih =>
    rw [List.cons_append] at hnames hopen ⊢
    rw [List.forall_mem_cons] at hnames
    rw [Disk.landingFrom, if_neg (by simp)]
    rw [List.append_cons] at hopen
    rw [makeFrom] at h
    split at h
    next hdir =>
      rw [if_pos hdir]
      exact ih hnames.2 h hopen
    next hdir =>
      rw [if_neg hdir]
      split at h
      next q hq =>
        rw [hq, Option.map_some]
        obtain ⟨hfound, hself, hbelow, hmade⟩ := mkdir_of_creatable hnames.1 hq
        have hinit : ∀ name ∈ names, IsName name :=
          fun n hn => hnames.2 n (List.mem_append_left _ hn)
        obtain ⟨hlast, hdir', hempty, hgrows⟩ := makeFrom_of_empty hinit hfound hself hbelow h
        have hlookup := Disk.lookup_concat (hnames.2 last (by simp)) hlast hdir'
          fun target => by rw [hempty]; exact (Option.some_ne_none _).symm
        rw [if_pos (hempty last)] at hlookup
        obtain rfl : q ++ names ++ [last] = p := by
          rw [← List.append_assoc, Disk.opened, hlookup] at hopen
          split_ifs at hopen
          exact Option.some.inj hopen
        exact ⟨by rw [List.append_assoc], (hmade names last).trans (hgrows last)⟩
      next => cases h

/-- **What is written is found.** -/
theorem lookup_put {path : Location} (bytes : List UInt8) (h : s.disk.opened path = some p) :
    (s.put p bytes).disk.lookup path = .found p := by
  have hplace := Disk.kindAt_opened h
  have hput : Grows p s (s.put p bytes) := grows_put hplace
  rw [Disk.opened] at h
  split at h
  next q hfound =>
    split_ifs at h
    obtain rfl := Option.some.inj h
    exact Disk.lookup_within hput.kinds hfound
  next hfree =>
    obtain rfl := Option.some.inj h
    exact Disk.lookup_filled hput.kinds (kindAt_put bytes hplace) (by simp) hfree
  next => cases h

/-- **The file is opened where the path lands.** -/
theorem opened_of_makeDirs {path : Location}
    (hnames : ∀ name ∈ path.drop (slashes path), IsName name)
    (h : s.makeDirs path.dropLast = (s', none)) (hopen : s'.disk.opened path = some p) :
    s.disk.landing path = some p ∧ Grows p s s' := by
  rcases List.eq_nil_or_concat' (path.drop (slashes path)) with hnil | ⟨names, last, hlast⟩
  · rw [Disk.opened, Disk.lookup_of_slashes hnil] at hopen
    simp at hopen
  · have hsplit := List.take_append_drop (slashes path) path
    have hlength : (path.take (slashes path)).length = slashes path :=
      List.length_take_of_le (slashes_le_length path)
    have hdropLast : path.dropLast = path.take (slashes path) ++ names := by
      conv_lhs => rw [← hsplit, hlast, ← List.append_assoc, List.dropLast_concat]
    rw [makeDirs, slashes_dropLast (by simp [hlast]), hdropLast, List.take_left' hlength,
      List.drop_left' hlength] at h
    rw [← hsplit, hlast] at hopen
    rw [hlast] at hnames
    rw [Disk.landing, hlast]
    exact opened_of_makeFrom hnames h hopen

end Storage

end Symlinks
