import AgentPlatform.Retrieval.Parser

/-!
# Retrieval/Braces — the brace `_block_end` stops at

The text from the start line on is read as marks: its characters, and the end of each line.  The
nesting is counted from the first opening brace; `_block_end` counts from the start line, so each
closing brace before the first opening one shifts its depth by one.

* `blockEnd_eq` — it stops where the nesting first is the number of those closing braces.
* `blockEnd_matches_iff` — when that is on the line of the matching brace.
-/

namespace AgentPlatform

namespace Parser

/-- A mark of a text: a character with its line, or the end of a line. -/
abbrev Mark := Option Char × ℕ

/-- The marks of the lines from `offset` on. -/
def marks : ℕ → List Text → List Mark
  | _, [] => []
  | offset, line :: lines =>
    line.map (fun c => (some c, offset + 1)) ++ (none, offset + 1) :: marks (offset + 1) lines

/-- The marks at or after a start line. -/
def marksFrom (lines : List Text) (startIndex : ℕ) : List Mark :=
  marks startIndex (lines.drop startIndex)

/-- The mark is not an opening brace. -/
def notOpening (m : Mark) : Bool := m.1 ≠ some '\x7b'

/-- What follows the first opening brace. -/
def inside (lines : List Text) (startIndex : ℕ) : List Mark :=
  ((marksFrom lines startIndex).dropWhile notOpening).tail

/-- The closing braces before the first opening one. -/
def unmatched (lines : List Text) (startIndex : ℕ) : ℕ :=
  ((marksFrom lines startIndex).takeWhile notOpening).countP fun m => m.1 = some '\x7d'

/-- The line of the brace that closes a nesting. -/
def closing : ℕ → List Mark → Option ℕ
  | _, [] => none
  | nesting, (some c, line) :: rest =>
    if c = '\x7b' then closing (nesting + 1) rest
    else if c = '\x7d' then if nesting = 1 then some line else closing (nesting - 1) rest
    else closing nesting rest
  | nesting, (none, _) :: rest => closing nesting rest

/-- **The line of the brace that matches the first opening one.** -/
def matchingLine (lines : List Text) (startIndex : ℕ) : Option ℕ :=
  closing 1 (inside lines startIndex)

/-- The places where a block can end, a closing brace or the end of a line: the nesting there, and
the line. -/
def stops : ℤ → List Mark → List (ℤ × ℕ)
  | _, [] => []
  | nesting, (some c, line) :: rest =>
    if c = '\x7b' then stops (nesting + 1) rest
    else if c = '\x7d' then (nesting - 1, line) :: stops (nesting - 1) rest
    else stops nesting rest
  | nesting, (none, line) :: rest => (nesting, line) :: stops nesting rest

/-- …behind the first opening brace. -/
def stopsInside (lines : List Text) (startIndex : ℕ) : List (ℤ × ℕ) :=
  stops 1 (inside lines startIndex)

/-! ## The loop over the marks -/

/-- `_block_end` over the marks. -/
def scan : ℤ → Bool → List Mark → Option ℕ
  | _, _, [] => none
  | depth, opened, (some c, line) :: rest =>
    if c = '\x7b' then scan (depth + 1) true rest
    else if c = '\x7d' then if opened ∧ depth - 1 = 0 then some line
      else scan (depth - 1) opened rest
    else scan depth opened rest
  | depth, opened, (none, line) :: rest => if opened ∧
    depth = 0 then some line else scan depth opened rest

theorem scan_line (depth : ℤ) (opened : Bool) (line : Text) (n : ℕ) (rest : List Mark) :
    scan depth opened (line.map (fun c => (some c, n)) ++ (none, n) :: rest)
      = match blockLine depth opened line with
        | none => some n
        | some (depth, opened) => scan depth opened rest := by
  induction line generalizing depth opened with
  | nil =>
    rw [List.map_nil, List.nil_append, scan, blockLine]
    split_ifs <;> rfl
  | cons c line ih =>
    rw [List.map_cons, List.cons_append, scan, blockLine]
    split_ifs
    · exact ih _ _
    · rfl
    · exact ih _ _
    · exact ih _ _

/-- **The loop over the lines is the loop over the marks.** -/
theorem blockEndFrom_eq (total : ℕ) (depth : ℤ) (opened : Bool) (offset : ℕ) (lines : List Text) :
    blockEndFrom total depth opened offset lines
      = (scan depth opened (marks offset lines)).getD total := by
  induction lines generalizing depth opened offset with
  | nil => rfl
  | cons line lines ih =>
    rw [blockEndFrom, marks, scan_line]
    cases blockLine depth opened line with
    | none => rfl
    | some next => exact ih _ _ _

/-- Before a brace is opened the loop only counts. -/
theorem scan_notOpening {before : List Mark} (h : ∀ m ∈ before, notOpening m = true) (depth : ℤ)
    (rest : List Mark) : scan depth false (before ++ rest)
      = scan (depth - before.countP fun m => m.1 = some '\x7d') false rest := by
  induction before generalizing depth with
  | nil => simp
  | cons m before ih =>
    rw [List.forall_mem_cons] at h
    obtain ⟨mark, line⟩ := m
    rw [List.cons_append]
    cases mark with
    | none => rw [scan, if_neg (by simp), ih h.2, List.countP_cons_of_neg (by simp)]
    | some c =>
      have hc : c ≠ '\x7b' := by simpa [notOpening] using h.1
      by_cases hclose : c = '\x7d'
      · rw [scan, if_neg hc, if_pos hclose, if_neg (by simp), ih h.2,
          List.countP_cons_of_pos (by simp [hclose])]
        congr 1
        omega
      · rw [scan, if_neg hc, if_neg hclose, ih h.2, List.countP_cons_of_neg (by simp [hclose])]

/-- Behind it, the loop returns where the nesting makes up for the depth it began with. -/
theorem scan_opened (u depth : ℤ) (rest : List Mark) :
    scan depth true rest
      = ((stops (depth + u) rest).find? fun stop => stop.1 = u).map Prod.snd := by
  induction rest generalizing depth with
  | nil => rfl
  | cons m rest ih =>
    obtain ⟨mark, line⟩ := m
    cases mark with
    | none =>
      rw [scan, stops]
      by_cases hdepth : depth = 0
      · rw [if_pos ⟨rfl, hdepth⟩, List.find?_cons_of_pos (by simp [hdepth])]
        rfl
      · rw [if_neg (by simp [hdepth]),
          List.find?_cons_of_neg (by simp only [decide_eq_true_eq]; omega), ih]
    | some c =>
      rw [scan, stops]
      by_cases hopen : c = '\x7b'
      · rw [if_pos hopen, if_pos hopen, ih, Int.add_right_comm]
      by_cases hclose : c = '\x7d'
      · have hshift : depth + u - 1 = depth - 1 + u := by omega
        rw [if_neg hopen, if_neg hopen, if_pos hclose, if_pos hclose, hshift]
        by_cases hstop : depth - 1 = 0
        · rw [if_pos ⟨rfl, hstop⟩, List.find?_cons_of_pos (by simp [hstop])]
          rfl
        · rw [if_neg (by simp [hstop]),
            List.find?_cons_of_neg (by simp only [decide_eq_true_eq]; omega), ih]
      · rw [if_neg hopen, if_neg hopen, if_neg hclose, if_neg hclose, ih]

/-- The matching brace is where the nesting is first back at none. -/
theorem closing_eq {nesting : ℕ} (h : 1 ≤ nesting) (rest : List Mark) :
    closing nesting rest = ((stops nesting rest).find? fun stop => stop.1 = 0).map Prod.snd := by
  induction rest generalizing nesting with
  | nil => rfl
  | cons m rest ih =>
    obtain ⟨mark, line⟩ := m
    cases mark with
    | none =>
      rw [closing, stops, List.find?_cons_of_neg (by simp; omega), ih h]
    | some c =>
      rw [closing, stops]
      split_ifs with hopen hclose hone
      · exact ih (by omega)
      · rw [hone, List.find?_cons_of_pos (by simp)]
        rfl
      · rw [List.find?_cons_of_neg (by simp; omega), ih (by omega)]
        congr 3
        omega
      · exact ih h

/-- **Where `_block_end` stops**: at the first place behind the first opening brace where the
nesting is the number of closing braces before it, and at the last line if there is none. -/
theorem blockEnd_eq (lines : List Text) (startIndex : ℕ) : blockEnd lines startIndex
    = (((stopsInside lines startIndex).find? fun stop =>
      stop.1 = (unmatched lines startIndex : ℤ)).map
        Prod.snd).getD lines.length := by
  have hsplit : scan 0 false (marksFrom lines startIndex)
      = scan (0 - unmatched lines startIndex) false
        ((marksFrom lines startIndex).dropWhile notOpening) := by
    have hbefore : ∀ m ∈ (marksFrom lines startIndex).takeWhile notOpening, notOpening m = true :=
      fun m hm => List.mem_takeWhile_imp hm
    have hscan := scan_notOpening hbefore 0 ((marksFrom lines startIndex).dropWhile notOpening)
    rwa [List.takeWhile_append_dropWhile] at hscan
  rw [blockEnd, blockEndFrom_eq, ← marksFrom, hsplit, stopsInside, inside]
  cases hdrop : (marksFrom lines startIndex).dropWhile notOpening with
  | nil => rfl
  | cons m rest =>
    have hopening := List.head?_dropWhile_not notOpening (marksFrom lines startIndex)
    rw [hdrop] at hopening
    obtain ⟨mark, line⟩ := m
    obtain rfl : mark = some '\x7b' := by simpa [notOpening] using hopening
    have hdepth : 0 - (unmatched lines startIndex : ℤ) + 1
      + unmatched lines startIndex = 1 := by omega
    rw [scan, if_pos rfl, scan_opened (unmatched lines startIndex), hdepth]
    rfl

theorem matchingLine_eq (lines : List Text) (startIndex : ℕ) : matchingLine lines startIndex
    = ((stopsInside lines startIndex).find? fun stop => stop.1 = 0).map Prod.snd :=
  closing_eq (le_refl 1) _

/-! ## The stops in order -/

theorem marks_bounds {offset : ℕ} {lines : List Text} :
    ∀ m ∈ marks offset lines, offset + 1 ≤ m.2 ∧ m.2 ≤ offset + lines.length := by
  induction lines generalizing offset with
  | nil => simp [marks]
  | cons line lines ih =>
    intro m hm
    rw [marks, List.mem_append, List.mem_map, List.mem_cons] at hm
    rw [List.length_cons]
    rcases hm with ⟨c, -, rfl⟩ | rfl | hm
    · dsimp only
      omega
    · dsimp only
      omega
    · have hbounds := ih m hm
      omega

theorem pairwise_marks (offset : ℕ) (lines : List Text) :
    (marks offset lines).Pairwise fun m m' => m.2 ≤ m'.2 := by
  induction lines generalizing offset with
  | nil => exact .nil
  | cons line lines ih =>
    rw [marks, List.pairwise_append, List.pairwise_map, List.pairwise_cons]
    refine ⟨List.pairwise_of_forall fun _ _ => le_refl _, ⟨fun m hm => ?_, ih _⟩,
      fun m hm m' hm' => ?_⟩
    · have hbounds := marks_bounds m hm
      dsimp only
      omega
    · obtain ⟨c, -, rfl⟩ := List.mem_map.mp hm
      rcases List.mem_cons.mp hm' with rfl | hm'
      · exact le_refl _
      · have hbounds := marks_bounds m' hm'
        dsimp only
        omega

theorem stops_sublist (nesting : ℤ) (ms : List Mark) :
    ((stops nesting ms).map Prod.snd).Sublist (ms.map Prod.snd) := by
  induction ms generalizing nesting with
  | nil => exact .slnil
  | cons m ms ih =>
    obtain ⟨mark, line⟩ := m
    cases mark with
    | none => exact (ih nesting).cons_cons line
    | some c =>
      rw [stops]
      split_ifs
      · exact (ih _).cons line
      · exact (ih _).cons_cons line
      · exact (ih _).cons line

/-- What is found first in a row of lines in order is the least. -/
theorem find?_least {row : List (ℤ × ℕ)} (hrow : row.Pairwise fun s s' => s.2 ≤ s'.2)
    {u : ℤ} {first : ℤ × ℕ} (hfind : row.find? (fun stop => stop.1 = u) = some first) :
    first ∈ row ∧ first.1 = u ∧ ∀ stop ∈ row, stop.1 = u → first.2 ≤ stop.2 := by
  obtain ⟨hfirst, before, behind, rfl, hbefore⟩ := List.find?_eq_some_iff_append.mp hfind
  refine ⟨by simp, of_decide_eq_true hfirst, fun stop hstop heq => ?_⟩
  rcases List.mem_append.mp hstop with hstop | hstop
  · simpa [heq] using hbefore stop hstop
  · rcases List.mem_cons.mp hstop with rfl | hstop
    · exact le_refl _
    · exact (List.pairwise_cons.mp (List.pairwise_append.mp hrow).2.1).1 stop hstop

/-- A line found first, in a row of lines in order. -/
theorem getD_find?_eq_iff {row : List (ℤ × ℕ)}
    (hrow : row.Pairwise fun s s' => s.2 ≤ s'.2) {total n : ℕ}
    (htotal : ∀ stop ∈ row, stop.2 ≤ total) (u : ℤ) :
    ((row.find? fun stop => stop.1 = u).map Prod.snd).getD total = n ↔
      (∀ stop ∈ row, stop.2 < n → stop.1 ≠ u) ∧
        ((∃ stop ∈ row, stop.2 = n ∧ stop.1 = u) ∨ n = total) := by
  cases hfind : row.find? fun stop => stop.1 = u with
  | none =>
    have hnone : ∀ stop ∈ row, stop.1 ≠ u := fun stop hstop => by
      simpa using List.find?_eq_none.mp hfind stop hstop
    refine ⟨fun h => ⟨fun stop hstop _ => hnone stop hstop, .inr h.symm⟩, ?_⟩
    rintro ⟨-, ⟨stop, hstop, -, heq⟩ | rfl⟩
    · exact absurd heq (hnone stop hstop)
    · rfl
  | some first =>
    obtain ⟨hmem, hfirst, hleast⟩ := find?_least hrow hfind
    rw [Option.map_some, Option.getD_some]
    constructor
    · rintro rfl
      exact ⟨fun stop hstop hlt heq => absurd (hleast stop hstop heq) (Nat.not_le.mpr hlt),
        .inl ⟨first, hmem, rfl, hfirst⟩⟩
    · rintro ⟨hearlier, hlast⟩
      have hge : n ≤ first.2 := Nat.not_lt.mp fun hlt => hearlier first hmem hlt hfirst
      rcases hlast with ⟨stop, hstop, rfl, heq⟩ | rfl
      · exact Nat.le_antisymm (hleast stop hstop heq) hge
      · exact Nat.le_antisymm (htotal first hmem) hge

theorem stopsInside_sublist (lines : List Text) (startIndex : ℕ) :
    ((stopsInside lines startIndex).map Prod.snd).Sublist
      ((marksFrom lines startIndex).map Prod.snd) := by
  refine (stops_sublist 1 _).trans (List.Sublist.map _ ?_)
  exact (List.tail_sublist _).trans (List.dropWhile_sublist _)

theorem blockEnd_eq_iff (lines : List Text) (startIndex n : ℕ) : blockEnd lines startIndex = n ↔
    (∀ stop ∈ stopsInside lines startIndex, stop.2 < n → stop.1 ≠ unmatched lines startIndex) ∧
      ((∃ stop ∈ stopsInside lines startIndex, stop.2 = n ∧ stop.1 = unmatched lines startIndex) ∨
        n = lines.length) := by
  have hsublist := stopsInside_sublist lines startIndex
  rw [blockEnd_eq]
  refine getD_find?_eq_iff ?_ (fun stop hstop => ?_) _
  · have hmarks := List.pairwise_map.mpr (pairwise_marks startIndex (lines.drop startIndex))
    exact List.pairwise_map.mp (hmarks.sublist hsublist)
  · obtain ⟨m, hm, heq⟩ := List.mem_map.mp (hsublist.subset (List.mem_map_of_mem hstop))
    have hbounds := marks_bounds m hm
    rw [List.length_drop] at hbounds
    rw [← heq]
    omega

/-- **When `_block_end` finds the matching brace**: if no closing brace stands before the first
opening one; and otherwise exactly if the nesting is their number at no stop on an earlier line, and
at one on the line of the match unless that is the last line. -/
theorem blockEnd_matches_iff (lines : List Text) (startIndex : ℕ) :
    (∀ n, matchingLine lines startIndex = some n → blockEnd lines startIndex = n) ↔
      ∀ n, matchingLine lines startIndex = some n → unmatched lines startIndex = 0 ∨
        (∀ stop ∈ stopsInside lines startIndex, stop.2 < n → stop.1 ≠ unmatched lines startIndex) ∧
          ((∃ stop ∈ stopsInside lines startIndex, stop.2 = n ∧
            stop.1 = unmatched lines startIndex) ∨ n = lines.length) := by
  refine forall_congr' fun n => imp_congr_right fun hmatch => ?_
  rw [← blockEnd_eq_iff]
  refine ⟨.inr, fun h => h.elim (fun hzero => ?_) id⟩
  rw [blockEnd_eq, hzero, Int.natCast_zero, ← matchingLine_eq, hmatch, Option.getD_some]

/-- A declaration without a body, the end of its class, and the next class. -/
def bodiless : List Text :=
  ["  public void F();".toList, "\x7d".toList, "class B \x7b".toList, "\x7d".toList]

/-- **The block of the next class is cut off** at its first line. -/
theorem bodiless_ends_early :
    ¬ ∀ n, matchingLine bodiless 0 = some n → blockEnd bodiless 0 = n :=
  fun h => absurd (h 4 (by decide)) (by decide)

end Parser

end AgentPlatform
