import AgentPlatform.Machinery.DiskWrites
import AgentPlatform.Tools.ReadTools

/-!
# Tools/ReadRange — the lines `read_file` returns

A call names the first line, the last one, or both.  The tool takes an absent bound and a bound of
zero for the same, slices with the last one as it is, and looks at the size of the whole file
before.

* `returnsRange_iff` — the lines returned are the ones asked for exactly if the file has a place
  below the root and is within the size limit, and a last line that is not positive falls where
  nothing would be returned anyway.
-/

namespace AgentPlatform

open PosixPath Symlinks

namespace ReadTools

/-! ## The range asked for -/

/-- The line number lies between the bounds, as far as they are given. -/
def InRange (startLine endLine : Option ℤ) (k : ℕ) : Prop :=
  (∀ s ∈ startLine, s ≤ k) ∧ ∀ e ∈ endLine, (k : ℤ) ≤ e

instance (startLine endLine : Option ℤ) (k : ℕ) : Decidable (InRange startLine endLine k) :=
  inferInstanceAs (Decidable (_ ∧ _))

/-- `f"{number:>5}  {line}"`. -/
def label (line : Text × ℕ) : String := pad5 line.2 ++ "  " ++ String.ofList line.1

/-- The lines of a range, each with its own number. -/
def rangeText (lines : List Text) (startLine endLine : Option ℤ) : String :=
  joinOr "\n" (((lines.zipIdx 1).filter fun line => InRange startLine endLine line.2).map label)
    "(empty selection)"

/-- The lines of a file. -/
def fileLines (bytes : List UInt8) : List Text :=
  Text.splitlines (Text.decode bytes).universalNewlines

/-- **The result is the range asked for.** -/
def ReturnsRange (lines : List Text) (startLine endLine : Option ℤ)
    (result : Except PyError ReadResult) :
    Prop :=
  ∃ data, result = .ok (.success (rangeText lines startLine endLine) data)

/-! ## Joined lines -/

section Joined

variable {texts others : List String} {empty : String}

/-- Lines of which none is empty are joined to something. -/
theorem joinOr_eq_intercalate (h : ∀ t ∈ texts, t ≠ "") :
    joinOr "\n" texts empty = "\n".intercalate (if texts = [] then [empty] else texts) := by
  rw [joinOr]
  cases texts with
  | nil => simp
  | cons t ts =>
    have hne : t ≠ "" := h t List.mem_cons_self
    have hjoined : "\n".intercalate (t :: ts) ≠ "" := by
      cases ts with
      | nil => simpa using hne
      | cons t' ts =>
        intro heq
        simp [String.intercalate_cons_cons, hne] at heq
    rw [if_neg hjoined, if_neg (List.cons_ne_nil t ts)]

/-- The joined text can be split again. -/
theorem intercalate_newline_injective (h : "\n".intercalate texts = "\n".intercalate others)
    (htexts : ∀ t ∈ texts, '\n' ∉ t.toList) (hothers : ∀ t ∈ others, '\n' ∉ t.toList)
    (hne : texts ≠ []) (hne' : others ≠ []) : texts = others := by
  have hsplit (ts : List String) (hts : ∀ t ∈ ts, '\n' ∉ t.toList) (hne : ts ≠ []) :
      ("\n".intercalate ts).toList.splitOn '\n' = ts.map String.toList := by
    rw [String.toList_intercalate]
    refine List.splitOn_intercalate '\n' (fun l hl => ?_) (by simpa using hne)
    obtain ⟨t, ht, rfl⟩ := List.mem_map.mp hl
    exact hts t ht
  refine List.map_injective_iff.mpr (fun _ _ => String.toList_injective) ?_
  rw [← hsplit texts htexts hne, ← hsplit others hothers hne', h]

/-- **Joined lines are told apart**, also from the text for none. -/
theorem joinOr_injective (h : joinOr "\n" texts empty = joinOr "\n" others empty)
    (htexts : ∀ t ∈ texts, t ≠ "" ∧ t ≠ empty ∧ '\n' ∉ t.toList)
    (hothers : ∀ t ∈ others, t ≠ "" ∧ t ≠ empty ∧ '\n' ∉ t.toList) (hempty : '\n' ∉ empty.toList) :
    texts = others := by
  have hfree (ts : List String) (hts : ∀ t ∈ ts, t ≠ "" ∧ t ≠ empty ∧ '\n' ∉ t.toList) :
      ∀ t ∈ (if ts = [] then [empty] else ts), '\n' ∉ t.toList := by
    split
    · simpa using hempty
    · exact fun t ht => (hts t ht).2.2
  have hsome (ts : List String) : (if ts = [] then [empty] else ts) ≠ [] := by
    split
    · exact List.cons_ne_nil _ _
    · assumption
  rw [joinOr_eq_intercalate fun t ht => (htexts t ht).1,
    joinOr_eq_intercalate fun t ht => (hothers t ht).1] at h
  have heq := intercalate_newline_injective h (hfree texts htexts) (hfree others hothers)
    (hsome texts) (hsome others)
  by_cases hnil : texts = [] <;> by_cases hnil' : others = []
  · rw [hnil, hnil']
  · rw [if_pos hnil, if_neg hnil'] at heq
    exact absurd rfl (hothers empty (heq ▸ List.mem_singleton_self empty)).2.1
  · rw [if_neg hnil, if_pos hnil'] at heq
    exact absurd rfl (htexts empty (heq ▸ List.mem_singleton_self empty)).2.1
  · rwa [if_neg hnil, if_neg hnil'] at heq

end Joined

/-! ## Labels -/

/-- A line's number is printed in digits. -/
theorem mem_pad5 {n : ℕ} {c : Char} (h : c ∈ (pad5 n).toList) : c = ' ' ∨ c.isDigit = true := by
  have hdigits : (toString (n : ℤ)).toList = Nat.toDigits 10 n := by
    change (Nat.repr n).toList = _
    rw [Nat.repr, String.toList_ofList]
  rw [pad5, String.toList_append, String.toList_ofList, hdigits, List.mem_append] at h
  exact h.imp List.eq_of_mem_replicate fun hc => Text.isDigit_toDigits n c hc

/-- **A labelled line is a line**, and not the text for none. -/
theorem label_ok {line : Text} (n : ℕ) (h : '\n' ∉ line) :
    label (line, n) ≠ "" ∧ label (line, n) ≠ "(empty selection)" ∧
    '\n' ∉ (label (line, n)).toList := by
  have hlist : (label (line, n)).toList = (pad5 n).toList ++ ' ' :: ' ' :: line := by
    simp [label]
  refine ⟨fun heq => ?_, fun heq => ?_, ?_⟩
  · simp [heq] at hlist
  · have hhead : '(' ∈ (pad5 n).toList ++ [' '] := by
      rw [heq] at hlist
      cases hpad : (pad5 n).toList with
      | nil => simp [hpad] at hlist
      | cons c cs =>
        rw [hpad] at hlist
        have hc : '(' = c := List.head_eq_of_cons_eq hlist
        rw [hc]
        exact List.mem_append_left _ List.mem_cons_self
    rcases List.mem_append.mp hhead with hpad | hpad
    · exact (mem_pad5 hpad).elim (by decide) (by decide)
    · exact absurd hpad (by decide)
  · rw [hlist]
    simp only [List.mem_append, List.mem_cons, not_or]
    refine ⟨fun hpad => ?_, by decide, by decide, h⟩
    exact (mem_pad5 hpad).elim (by decide) (by decide)

/-! ## The slice -/

section Slice

variable (lines : List Text) (startLine endLine : Option ℤ)

/-- `max(1, start_line or 1)`. -/
theorem max_orInt : max 1 (orInt startLine 1) = max 1 (startLine.getD 1) := by
  rw [orInt]
  cases startLine with
  | none => rfl
  | some s =>
    rw [Option.getD_some, Option.getD_some]
    split_ifs with h <;> omega

theorem filter_le_zipIdx (n k : ℕ) :
    ((lines.zipIdx k).filter fun line => line.2 ≤ n) = (lines.take (n + 1 - k)).zipIdx k := by
  induction lines generalizing k with
  | nil => simp
  | cons line lines ih =>
    rw [List.zipIdx_cons, List.filter_cons, ih]
    by_cases h : k ≤ n
    · rw [show n + 1 - k = (n + 1 - (k + 1)) + 1 by omega, List.take_succ_cons, List.zipIdx_cons]
      simp [h]
    · rw [show n + 1 - k = 0 by omega, show n + 1 - (k + 1) = 0 by omega]
      simp [h]

theorem filter_ge_zipIdx {f k : ℕ} (h : k ≤ f) :
    ((lines.zipIdx k).filter fun line => f ≤ line.2) = (lines.drop (f - k)).zipIdx f := by
  induction lines generalizing k with
  | nil => simp
  | cons line lines ih =>
    rcases h.eq_or_lt with rfl | hlt
    · rw [Nat.sub_self, List.drop_zero]
      refine List.filter_eq_self.mpr fun x hx => decide_eq_true ?_
      exact List.le_snd_of_mem_zipIdx hx
    · rw [List.zipIdx_cons, List.filter_cons, if_neg (by simpa using hlt), ih hlt,
        show f - k = (f - (k + 1)) + 1 by omega, List.drop_succ_cons]

/-- The lines from `first` to `last`, labelled. -/
def labelled (first last : ℕ) : List String :=
  (((lines.take last).drop (first - 1)).zipIdx first).map label

/-- **The range asked for is a slice.** -/
theorem rangeText_eq : rangeText lines startLine endLine
    = joinOr "\n" (labelled lines (max 1 (startLine.getD 1)).toNat
        ((endLine.map Int.toNat).getD lines.length)) "(empty selection)" := by
  have hrange : ∀ line ∈ lines.zipIdx 1, InRange startLine endLine line.2 ↔
      (max 1 (startLine.getD 1)).toNat ≤ line.2 ∧
      line.2 ≤ (endLine.map Int.toNat).getD lines.length := by
    intro line hline
    have hlow := List.le_snd_of_mem_zipIdx hline
    have hhigh := List.snd_lt_of_mem_zipIdx hline
    rw [InRange]
    refine and_congr ?_ ?_
    · cases startLine with
      | none => simpa using hlow
      | some s => simp only [Option.mem_some_iff, forall_eq', Option.getD_some]; omega
    · cases endLine with
      | none => simp only [Option.not_mem_none, false_imp_iff, implies_true, Option.map_none,
          Option.getD_none, true_iff]; omega
      | some e => simp only [Option.mem_some_iff, forall_eq', Option.map_some,
        Option.getD_some]; omega
  have hfirst : 1 ≤ (max 1 (startLine.getD 1)).toNat := by omega
  have hfilter : ((lines.zipIdx 1).filter fun line => InRange startLine endLine line.2)
      = ((lines.zipIdx 1).filter fun line =>
        line.2 ≤ (endLine.map Int.toNat).getD lines.length).filter
          fun line => (max 1 (startLine.getD 1)).toNat ≤ line.2 := by
    rw [List.filter_filter]
    refine List.filter_congr fun line hline => ?_
    rw [← Bool.decide_and]
    exact decide_eq_decide.mpr (hrange line hline)
  rw [rangeText, hfilter, filter_le_zipIdx, Nat.add_sub_cancel, filter_ge_zipIdx _ hfirst, labelled]

/-- Where the tool's slice ends. -/
def stopOf (total : ℕ) : ℕ :=
  let last := min (total : ℤ) (orInt endLine total)
  (if last < 0 then total + last else last).toNat

/-- **The tool's slice.** -/
theorem numbered_eq : ((slice lines (max 1 (orInt startLine 1))
      (min (lines.length : ℤ) (orInt endLine lines.length))).zipIdx.map fun line =>
        pad5 (max 1 (orInt startLine 1) + line.2) ++ "  " ++ String.ofList line.1)
    = labelled lines (max 1 (startLine.getD 1)).toNat (stopOf endLine lines.length) := by
  obtain ⟨n, hn⟩ := Int.eq_ofNat_of_zero_le (show 0 ≤ max 1 (startLine.getD 1) by omega)
  have hpos : 1 ≤ n := by omega
  rw [max_orInt, hn, slice, labelled, Int.toNat_natCast,
    List.zipIdx_eq_map_add (i := n), List.map_map, show ((n : ℤ) - 1).toNat = n - 1 by omega]
  refine List.map_congr_left fun line _ => ?_
  rw [Function.comp_apply, label, Int.natCast_add]

/-- **A last line the slice takes for what it is**: positive, or before the first one also when
counted from the end. -/
theorem stopOf_iff (total : ℕ) :
    min total (stopOf endLine total) + 1 - (max 1 (startLine.getD 1)).toNat
      = min total ((endLine.map Int.toNat).getD total) + 1 - (max 1 (startLine.getD 1)).toNat
    ↔ ∀ e ∈ endLine, e ≤ 0 → total + e < max 1 (startLine.getD 1) := by
  generalize hfirst : max 1 (startLine.getD 1) = first
  rw [stopOf, orInt]
  cases endLine with
  | none => simp [show ¬ (total : ℤ) < 0 by omega]
  | some e =>
    simp only [Option.getD_some, Option.map_some, Option.mem_some_iff, forall_eq']
    split_ifs <;> omega

/-- **Two slices from one line show the same exactly if they end alike.** -/
theorem labelled_eq_iff (hlines : ∀ line ∈ lines, '\n' ∉ line) {first last last' : ℕ}
    (h : 1 ≤ first) :
    joinOr "\n" (labelled lines first last) "(empty selection)"
      = joinOr "\n" (labelled lines first last') "(empty selection)"
    ↔ min lines.length last + 1 - first = min lines.length last' + 1 - first := by
  have hok (last : ℕ) : ∀ t ∈ labelled lines first last, t ≠ "" ∧ t ≠ "(empty selection)" ∧
      '\n' ∉ t.toList := by
    intro t ht
    obtain ⟨line, hline, rfl⟩ := List.mem_map.mp ht
    exact label_ok _ (hlines _ (List.mem_of_mem_take (List.mem_of_mem_drop
      (List.fst_mem_of_mem_zipIdx hline))))
  constructor
  · intro heq
    have hlen := congrArg List.length (joinOr_injective heq (hok last) (hok last') (by decide))
    simp only [labelled, List.length_map, List.length_zipIdx, List.length_take,
      List.length_drop] at hlen
    omega
  · intro heq
    rw [labelled, labelled, List.drop_take, List.drop_take, List.take_eq_take_iff.mpr]
    rw [List.length_drop]
    omega

end Slice

/-! ## The tool -/

section Run

variable {disk : Disk} {contents : Contents} {root target p : Location}

/-- The path leads to a place below the root. -/
def HasPlace (disk : Disk) (root target : Location) : Prop :=
  ∃ shown, relative disk root target = .ok shown

/-- A checked path that meets no link does. -/
theorem hasPlace_of_isReal (hreal : disk.IsReal target) {candidate : ArgValue}
    (h : resolveInside disk root candidate = .ok target) : HasPlace disk root target := by
  obtain ⟨r, -, hroot, -, -, hbelow⟩ := resolveInside_eq_ok h
  refine ⟨relativeTo r target, ?_⟩
  rw [relative, resolvePath_of_realpath (Disk.realpath_of_isReal hreal), hroot]
  exact if_pos hbelow

variable {path : ArgValue} (startLine endLine : Option ℤ)
  (hresolve : resolveInside disk root path = .ok target) (hfile : disk.fileAt target = some p)
include hresolve hfile

/-- **A large file** is refused, whatever the range. -/
theorem readFile_of_large (hlarge : (contents p).length > maxBytes) :
    ∃ message, readFile disk contents root path startLine endLine = .ok (.failure message) := by
  rw [readFile, withTarget, hresolve]
  dsimp only
  rw [readFileAt, readText, hfile, Option.map_some, size, hfile]
  dsimp only
  rw [if_pos hlarge]
  exact ⟨_, rfl⟩

/-- **Any other** is sliced, and shown with its place. -/
theorem readFile_of_small (hsmall : ¬ (contents p).length > maxBytes) :
    readFile disk contents root path startLine endLine
      = (relative disk root target).map fun shown =>
          .success (joinOr "\n" (labelled (fileLines (contents p)) (max 1 (startLine.getD 1)).toNat
            (stopOf endLine (fileLines (contents p)).length)) "(empty selection)")
            [("path", .text shown), ("total_lines", .number (fileLines (contents p)).length)] := by
  rw [readFile, withTarget, hresolve]
  dsimp only
  rw [readFileAt, readText, hfile, Option.map_some, size, hfile]
  dsimp only
  rw [if_neg hsmall, ← numbered_eq]
  cases relative disk root target <;> rfl

end Run

/-- **When `read_file` returns the range asked for**: exactly if the file has a place below the root
and is within the size limit, and a last line that is not positive, counted from the end of the
file, is before the first line asked for. -/
theorem returnsRange_iff (disk : Disk) (contents : Contents) (root target p : Location)
    (path : ArgValue)
    (startLine endLine : Option ℤ) (hresolve : resolveInside disk root path = .ok target)
    (hfile : disk.fileAt target = some p) :
    ReturnsRange (fileLines (contents p)) startLine endLine
        (readFile disk contents root path startLine endLine)
      ↔ HasPlace disk root target ∧ (contents p).length ≤ maxBytes ∧ ∀ e ∈ endLine, e ≤ 0 →
          (fileLines (contents p)).length + e < max 1 (startLine.getD 1) := by
  have hlines : ∀ line ∈ fileLines (contents p), '\n' ∉ line := fun line hline hmem =>
    absurd (Text.not_isLineBreak_of_mem_splitlines hline _ hmem) (by decide)
  rw [ReturnsRange]
  by_cases hlarge : (contents p).length > maxBytes
  · obtain ⟨message, heq⟩ := readFile_of_large startLine endLine hresolve hfile hlarge
    rw [heq]
    refine ⟨?_, fun h => absurd h.2.1 (Nat.not_le.mpr hlarge)⟩
    rintro ⟨data, hdata⟩
    cases hdata
  have heq := readFile_of_small startLine endLine hresolve hfile hlarge
  rcases hshown : relative disk root target with e | shown
  · rw [heq, hshown]
    constructor
    · rintro ⟨data, hdata⟩
      cases hdata
    · rintro ⟨⟨shown, hplace⟩, -⟩
      cases hshown.symm.trans hplace
  · have hshows : (∃ data', readFile disk contents root path startLine endLine
        = .ok (.success (rangeText (fileLines (contents p)) startLine endLine) data')) ↔
        joinOr "\n" (labelled (fileLines (contents p)) (max 1 (startLine.getD 1)).toNat
          (stopOf endLine (fileLines (contents p)).length)) "(empty selection)"
        = rangeText (fileLines (contents p)) startLine endLine := by
      rw [heq, hshown]
      refine ⟨fun ⟨_, h⟩ => congrArg ReadResult.content (Except.ok.inj h), fun h =>
        ⟨[("path", .text shown), ("total_lines", .number (fileLines (contents p)).length)], ?_⟩⟩
      rw [← h]
      rfl
    have hplace : HasPlace disk root target := ⟨shown, hshown⟩
    rw [hshows, rangeText_eq, labelled_eq_iff _ hlines (by omega), and_iff_right hplace,
      and_iff_right (Nat.not_lt.mp hlarge)]
    exact stopOf_iff startLine endLine _

/-- A workspace `/w` with one file. -/
def notesDisk : Disk where
  entries := [(["w".toList], .dir), (["w".toList, "notes.txt".toList], .file)]
  below := by decide
  unique := by decide
  parents := by decide

/-- Two lines, `a` and `b`. -/
def notes : Contents := fun _ => [0x61, 0x0a, 0x62, 0x0a]

theorem returnsRange_notes :
    ReturnsRange (fileLines (notes ["w".toList, "notes.txt".toList])) (some 2) (some 2)
        (readFile notesDisk notes ["w".toList] (.str "notes.txt") (some 2) (some 2))
      ↔ HasPlace notesDisk ["w".toList] ["w".toList, "notes.txt".toList] ∧
        (notes ["w".toList, "notes.txt".toList]).length ≤ maxBytes ∧ ∀ e ∈ some (2 : ℤ), e ≤ 0 →
          (fileLines (notes ["w".toList, "notes.txt".toList])).length + e
            < max 1 ((some (2 : ℤ)).getD 1) :=
  returnsRange_iff notesDisk notes ["w".toList] ["w".toList, "notes.txt".toList]
    ["w".toList, "notes.txt".toList] (.str "notes.txt") (some 2) (some 2) (by decide +kernel)
    (by decide +kernel)

/-- **Up to line 0 is the whole file.** -/
theorem zero_returns_all : ¬ ReturnsRange
      (fileLines (notes ["w".toList, "notes.txt".toList])) (some 1)
    (some 0) (readFile notesDisk notes ["w".toList] (.str "notes.txt") (some 1) (some 0)) := by
  rintro ⟨data, h⟩
  have hcontent : (readFile notesDisk notes ["w".toList] (.str "notes.txt") (some 1)
      (some 0)).toOption.map ReadResult.content
      = some (rangeText (fileLines (notes ["w".toList, "notes.txt".toList])) (some 1) (some 0)) :=
    congrArg (fun result => result.toOption.map ReadResult.content) h
  exact absurd hcontent (by decide +kernel)

end ReadTools

end AgentPlatform
