import AgentPlatform.Machinery.FileNames

/-!
# Machinery/PosixPath — lexical resolution of POSIX paths

A location is its list of names below `/`, each as it is in `FileNames`.  A spelling of a path is
read segment by segment: empty segments and `.` stay where they are, `..` leaves the last name, and
any other segment enters it.  Where no name is a symbolic link this is `pathlib`'s `resolve`.
-/

namespace PosixPath

/-- A resolved absolute path: the names below `/`. -/
abbrev Location := List Text

/-- `PurePath.is_absolute`. -/
def isAbsolute (t : Text) : Bool := t.head? = some '/'

/-- The segments of a spelling. -/
def segments (t : Text) : List Text := t.splitOn '/'

/-- One segment, from a location. -/
def enter (here : Location) (seg : Text) : Location :=
  if seg = [] ∨ seg = ['.'] then here
  else if seg = ['.', '.'] then here.dropLast
  else here ++ [seg]

/-- `(base / t).resolve()`. -/
def resolve (base : Location) (t : Text) : Location :=
  (segments t).foldl enter (if isAbsolute t then [] else base)

/-- What a name below `/` can be: it stands for no way, and it can be looked up. -/
def IsName (name : Text) : Prop :=
  name ≠ [] ∧ name ≠ ['.'] ∧ name ≠ ['.', '.'] ∧ FileNames.invalid? name = none

instance (name : Text) : Decidable (IsName name) := inferInstanceAs (Decidable (_ ∧ _))

/-- The number of bytes of an absolute path. -/
def byteLength (p : Location) : ℕ := (p.map fun name => FileNames.byteLength name + 1).sum

/-- `PATH_MAX`, without the NUL at its end. -/
def maxPath : ℕ := 4095

/-- **A path that can be created**, as far as its length and those of its names go. -/
structure Fits (p : Location) : Prop where
  path : byteLength p ≤ maxPath
  names : ∀ name ∈ p, FileNames.fits name = true

theorem fits_getLast {p : Location} (h : Fits p) :
    FileNames.fits (p.getLast?.getD []) = true := by
  rcases List.eq_nil_or_concat p with rfl | ⟨init, last, rfl⟩
  · rfl
  · rw [List.concat_eq_append, List.getLast?_concat]
    exact h.names last (by simp)

/-- What is strictly above a path is above its parent. -/
theorem prefix_dropLast {p q : Location} (h : q <+: p) (hne : q ≠ p) : q <+: p.dropLast := by
  refine List.prefix_of_prefix_length_le h p.dropLast_prefix ?_
  have hlt : q.length < p.length :=
    Nat.lt_of_le_of_ne h.length_le fun hlen => hne (h.eq_of_length hlen)
  rw [List.length_dropLast]
  omega

theorem dropLast_prefix_dropLast {p q : Location} (h : q <+: p) : q.dropLast <+: p.dropLast := by
  refine List.prefix_of_prefix_length_le (q.dropLast_prefix.trans h) p.dropLast_prefix ?_
  rw [List.length_dropLast, List.length_dropLast]
  have hle := h.length_le
  omega

/-- `target == root or root in target.parents`. -/
def isInside (root target : Location) : Bool := root.isPrefixOf target

/-- `target.relative_to(root).as_posix()`, for a target inside the root. -/
def relativeTo (root target : Location) : Text :=
  match target.drop root.length with
  | [] => ['.']
  | names => Text.join ['/'] names

theorem isInside_iff {root target : Location} : isInside root target = true ↔ root <+: target :=
  List.isPrefixOf_iff_prefix

example : resolve ["w".toList] "a/./b/../../c//".toList = ["w".toList, "c".toList] := by decide

/-- A walk keeps some of the names it started from and enters names that stand for no way. -/
theorem foldl_enter_eq (here : Location) (segs : List Text) :
    ∃ k names, segs.foldl enter here = here.take k ++ names ∧
      ∀ name ∈ names, name ≠ [] ∧ name ≠ ['.'] ∧ name ≠ ['.', '.'] := by
  induction segs using List.reverseRecOn with
  | nil => exact ⟨here.length, [], by simp⟩
  | append_singleton segs seg ih =>
    obtain ⟨k, names, heq, hnames⟩ := ih
    rw [List.foldl_append, List.foldl_cons, List.foldl_nil, heq, enter]
    split_ifs with hstay hup
    · exact ⟨k, names, rfl, hnames⟩
    · rcases List.eq_nil_or_concat names with rfl | ⟨init, last, rfl⟩
      · refine ⟨min k here.length - 1, [], ?_, by simp⟩
        rw [List.append_nil, List.append_nil, List.dropLast_eq_take, List.take_take,
          List.length_take]
        congr 1
        omega
      · refine ⟨k, init, ?_, fun name hname => hnames name (by simp [hname])⟩
        rw [List.concat_eq_append, ← List.append_assoc, List.dropLast_concat]
    · refine ⟨k, names ++ [seg], (List.append_assoc _ _ _), fun name hname => ?_⟩
      rcases List.mem_append.mp hname with hname | hname
      · exact hnames name hname
      · rw [List.mem_singleton.mp hname]
        exact ⟨fun hnil => hstay (.inl hnil), fun hdot => hstay (.inr hdot), hup⟩

/-- What lies below the base was entered. -/
theorem ne_nil_of_mem_drop_resolve {base : Location} {t name : Text}
    (hname : name ∈ (resolve base t).drop base.length) : name ≠ [] := by
  obtain ⟨k, names, heq, hnames⟩ := foldl_enter_eq (if isAbsolute t then [] else base) (segments t)
  have hshort : ((if isAbsolute t then [] else base).take k).length ≤ base.length := by
    split_ifs
    · simp
    · exact List.length_take_le' _ _
  rw [resolve, heq, List.drop_append, List.drop_eq_nil_of_le hshort, List.nil_append] at hname
  exact (hnames name (List.mem_of_mem_drop hname)).1

/-- The text of a relative path is not empty, where no name is. -/
theorem relativeTo_ne_nil {root target : Location}
    (h : ∀ name ∈ target.drop root.length, name ≠ []) : relativeTo root target ≠ [] := by
  rw [relativeTo]
  rcases hnames : target.drop root.length with _ | ⟨name, names⟩
  · simp
  · have hname : name ≠ [] := h name (hnames ▸ List.mem_cons_self)
    cases names with
    | nil => simpa [Text.join] using hname
    | cons name' names => simp [Text.join, hname]

theorem relativeTo_resolve_ne_nil (base : Location) (t : Text) :
    relativeTo base (resolve base t) ≠ [] :=
  relativeTo_ne_nil fun _ hname => ne_nil_of_mem_drop_resolve hname

end PosixPath
