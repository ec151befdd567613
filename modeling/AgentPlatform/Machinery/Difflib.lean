import AgentPlatform.Machinery.SequenceMatcher
import AgentPlatform.Machinery.Text

/-!
# Machinery/Difflib — opcodes, and the unified diff printed from them

The opcodes read off the matching blocks turn the one sequence into the other (`apply_opcodes`), so
the lines they insert and delete account for the difference of the lengths (`length_inserted_add`).

A unified diff groups the opcodes with `n` lines of context.  Grouping cuts ranges of equal lines
and nothing else: the lines of a diff that are neither context nor control lines are those of the
opcodes, in their order (`filter_unifiedDiff`).
-/

namespace SequenceMatcher

variable {α : Type*}

/-! ## Opcodes -/

/-- The tags of opcodes. -/
inductive Tag where
  | replace | delete | insert | equal
  deriving DecidableEq, Repr

/-- `(tag, i1, i2, j1, j2)`. -/
structure Opcode where
  tag : Tag
  i1 : ℕ
  i2 : ℕ
  j1 : ℕ
  j2 : ℕ
  deriving DecidableEq, Repr

/-- What changes `a[i:ai]` into `b[j:bj]`. -/
def change (i ai j bj : ℕ) : List Opcode :=
  if i < ai ∧ j < bj then [⟨.replace, i, ai, j, bj⟩]
  else if i < ai then [⟨.delete, i, ai, j, bj⟩]
  else if j < bj then [⟨.insert, i, ai, j, bj⟩]
  else []

/-- What keeps the lines of a block. -/
def keep (m : Match) : List Opcode :=
  if m.size ≠ 0 then [⟨.equal, m.a, m.a + m.size, m.b, m.b + m.size⟩] else []

/-- The loop of `get_opcodes`. -/
def opcodesFrom : ℕ → ℕ → List Match → List Opcode
  | _, _, [] => []
  | i, j, m :: ms =>
    change i m.a j m.b ++ keep m ++ opcodesFrom (m.a + m.size) (m.b + m.size) ms

/-- `get_opcodes()`. -/
def opcodes [DecidableEq α] (a b : List α) : List Opcode := opcodesFrom 0 0 (matchingBlocks a b)

namespace Opcode

variable (a b : List α) (c : Opcode)

/-- The lines an opcode deletes. -/
def deleted : List α :=
  match c.tag with
  | .replace | .delete => slice a c.i1 c.i2
  | .insert | .equal => []

/-- The lines it inserts. -/
def inserted : List α :=
  match c.tag with
  | .replace | .insert => slice b c.j1 c.j2
  | .delete | .equal => []

/-- The lines it keeps. -/
def kept : List α :=
  match c.tag with
  | .equal => slice a c.i1 c.i2
  | .replace | .delete | .insert => []

/-- The lines of the one sequence it stands for. -/
def before : List α := c.deleted a ++ c.kept a

/-- The lines it makes of them. -/
def after : List α := c.inserted b ++ c.kept a

end Opcode

/-! ## Groups -/

/-- The last `n` lines of a range of equal lines … -/
def Opcode.lastLines (n : ℕ) (c : Opcode) : Opcode :=
  { c with i1 := max c.i1 (c.i2 - n), j1 := max c.j1 (c.j2 - n) }

/-- … and its first. -/
def Opcode.firstLines (n : ℕ) (c : Opcode) : Opcode :=
  { c with i2 := min c.i2 (c.i1 + n), j2 := min c.j2 (c.j1 + n) }

/-- The context before the first change … -/
def trimFirst (n : ℕ) : List Opcode → List Opcode
  | [] => []
  | c :: codes => (if c.tag = .equal then c.lastLines n else c) :: codes

/-- … and after the last. -/
def trimLast (n : ℕ) : List Opcode → List Opcode
  | [] => []
  | [c] => [if c.tag = .equal then c.firstLines n else c]
  | c :: c' :: codes => c :: trimLast n (c' :: codes)

/-- A group that shows a change. -/
def shows (group : List Opcode) : Bool :=
  match group with
  | [] => false
  | [c] => c.tag ≠ .equal
  | _ :: _ :: _ => true

/-- The loop of `get_grouped_opcodes`, with the group begun. -/
def groupsFrom (n : ℕ) : List Opcode → List Opcode → List (List Opcode)
  | group, [] => if shows group then [group] else []
  | group, c :: codes =>
    if c.tag = .equal ∧ n + n < c.i2 - c.i1 then
      (group ++ [c.firstLines n]) :: groupsFrom n [c.lastLines n] codes
    else groupsFrom n (group ++ [c]) codes

/-- `get_grouped_opcodes(n)`. -/
def groupedOpcodes (n : ℕ) (codes : List Opcode) : List (List Opcode) :=
  groupsFrom n [] (trimLast n (trimFirst n (if codes = [] then [⟨.equal, 0, 1, 0, 1⟩] else codes)))

/-! ## What the opcodes say -/

section Opcodes

variable {a b : List α} {i j : ℕ} {m : Match} {ms : List Match}

/-- A change reads the lines up to the next block and puts those of the other sequence in their
place. -/
theorem change_lines {ai bj : ℕ} (hi : i ≤ ai) (hj : j ≤ bj) :
    (change i ai j bj).flatMap (Opcode.before a) = slice a i ai ∧
      (change i ai j bj).flatMap (Opcode.after a b) = slice b j bj := by
  have hnone : ∀ (l : List α) {i ai : ℕ}, i ≤ ai → ¬ i < ai → slice l i ai = [] :=
      fun l i ai h hne => by
    rw [Nat.le_antisymm h (Nat.not_lt.mp hne), slice_self]
  rw [change]
  split_ifs with hreplace hdelete hinsert
  · simp [Opcode.before, Opcode.after, Opcode.deleted, Opcode.inserted, Opcode.kept]
  · have hb : slice b j bj = [] := hnone b hj fun h => hreplace ⟨hdelete, h⟩
    simp [Opcode.before, Opcode.after, Opcode.deleted, Opcode.inserted, Opcode.kept, hb]
  · have ha : slice a i ai = [] := hnone a hi hdelete
    simp [Opcode.before, Opcode.after, Opcode.deleted, Opcode.inserted, Opcode.kept, ha]
  · exact ⟨(hnone a hi hdelete).symm, (hnone b hj hinsert).symm⟩

/-- A block keeps its lines: they are lines of either sequence. -/
theorem keep_lines (h : m.Same a b) :
    (keep m).flatMap (Opcode.before a) = slice a m.a (m.a + m.size) ∧
      (keep m).flatMap (Opcode.after a b) = slice b m.b (m.b + m.size) := by
  rw [keep]
  split_ifs with hsize
  · have hlines := h.slice_eq
    simp [Opcode.before, Opcode.after, Opcode.deleted, Opcode.inserted, Opcode.kept, hlines]
  · rw [not_not.mp hsize, Nat.add_zero, Nat.add_zero, slice_self, slice_self]
    exact ⟨rfl, rfl⟩

/-- The opcodes of an alignment go through both sequences to their ends. -/
theorem opcodesFrom_lines (h : Aligned a b i j ms) :
    let codes := opcodesFrom i j (ms ++ [⟨a.length, b.length, 0⟩])
    codes.flatMap (Opcode.before a) = a.drop i ∧ codes.flatMap (Opcode.after a b) = b.drop j := by
  induction ms generalizing i j with
  | nil =>
    obtain ⟨hbefore, hafter⟩ := change_lines h.1 h.2 (a := a) (b := b)
    simp [opcodesFrom, keep, hbefore, hafter, slice]
  | cons m ms ih =>
    obtain ⟨hi, hj, hsame, hrest⟩ := h
    obtain ⟨hbefore, hafter⟩ := change_lines hi hj (a := a) (b := b)
    obtain ⟨hkeep, hkeep'⟩ := keep_lines hsame
    obtain ⟨ih, ih'⟩ := ih hrest
    dsimp only at ih ih' ⊢
    rw [List.cons_append, opcodesFrom]
    simp only [List.flatMap_append]
    rw [hbefore, hkeep, ih, hafter, hkeep', ih', List.append_assoc, List.append_assoc,
      slice_append_drop a (Nat.le_add_right _ _), slice_append_drop b (Nat.le_add_right _ _),
      slice_append_drop a hi, slice_append_drop b hj]
    exact ⟨rfl, rfl⟩

/-- The lines deleted and those kept are the lines of the one sequence … -/
theorem length_flatMap_before (codes : List Opcode) : (codes.flatMap (Opcode.before a)).length =
    (codes.flatMap (Opcode.deleted a)).length + (codes.flatMap (Opcode.kept a)).length := by
  induction codes with
  | nil => rfl
  | cons c codes ih =>
    simp only [List.flatMap_cons, List.length_append, ih, Opcode.before]
    omega

/-- … and those inserted and those kept are the lines of the other. -/
theorem length_flatMap_after (codes : List Opcode) : (codes.flatMap (Opcode.after a b)).length =
    (codes.flatMap (Opcode.inserted b)).length + (codes.flatMap (Opcode.kept a)).length := by
  induction codes with
  | nil => rfl
  | cons c codes ih =>
    simp only [List.flatMap_cons, List.length_append, ih, Opcode.after]
    omega

variable [DecidableEq α]

/-- **The opcodes turn `a` into `b`**: what they stand for is the one, what they make of it the
other. -/
theorem apply_opcodes (a b : List α) : (opcodes a b).flatMap (Opcode.before a) = a ∧
    (opcodes a b).flatMap (Opcode.after a b) = b := by
  obtain ⟨ms, hms, haligned⟩ := aligned_matchingBlocks a b
  rw [opcodes, hms]
  exact opcodesFrom_lines haligned

/-- **The balance of a matching**: lines inserted and lines of `a`, lines deleted and lines of
`b`. -/
theorem length_inserted_add (a b : List α) :
    ((opcodes a b).flatMap (Opcode.inserted b)).length + a.length =
      ((opcodes a b).flatMap (Opcode.deleted a)).length + b.length := by
  obtain ⟨hbefore, hafter⟩ := apply_opcodes a b
  have ha := length_flatMap_before (a := a) (opcodes a b)
  have hb := length_flatMap_after (a := a) (b := b) (opcodes a b)
  rw [hbefore] at ha
  rw [hafter] at hb
  omega

end Opcodes

/-! ## What grouping leaves alone -/

section Groups

variable {β : Type*} {f : Opcode → List β} (hf : ∀ c, c.tag = .equal → f c = []) (n : ℕ)
include hf

theorem flatMap_trimFirst (codes : List Opcode) :
    (trimFirst n codes).flatMap f = codes.flatMap f := by
  cases codes with
  | nil => rfl
  | cons c codes =>
    rw [trimFirst, List.flatMap_cons, List.flatMap_cons]
    split_ifs with hequal
    · rw [hf c hequal, hf (c.lastLines n) hequal]
    · rfl

theorem flatMap_trimLast (codes : List Opcode) :
    (trimLast n codes).flatMap f = codes.flatMap f := by
  fun_induction trimLast n codes with
  | case1 => rfl
  | case2 c =>
    rw [List.flatMap_cons, List.flatMap_cons]
    split_ifs with hequal
    · rw [hf c hequal, hf (c.firstLines n) hequal]
    · rfl
  | case3 c c' codes ih => rw [List.flatMap_cons, ih, ← List.flatMap_cons]

/-- A group that shows no change is nothing but equal lines. -/
theorem flatMap_of_not_shows {group : List Opcode}
    (h : shows group = false) : group.flatMap f = [] := by
  match group, h with
  | [], _ => rfl
  | [c], h =>
    rw [List.flatMap_singleton]
    exact hf c (by simpa [shows] using h)
  | _ :: _ :: _, h => cases h

theorem flatMap_groupsFrom (group codes : List Opcode) :
    (groupsFrom n group codes).flatMap (List.flatMap f) = group.flatMap f ++ codes.flatMap f := by
  induction codes generalizing group with
  | nil =>
    rw [groupsFrom, List.flatMap_nil, List.append_nil]
    split_ifs with hshows
    · rw [List.flatMap_singleton]
    · rw [flatMap_of_not_shows hf (Bool.eq_false_iff.mpr hshows), List.flatMap_nil]
  | cons c codes ih =>
    rw [groupsFrom, List.flatMap_cons]
    split_ifs with hequal
    · rw [List.flatMap_cons, ih, List.flatMap_append, List.flatMap_singleton,
        List.flatMap_singleton, hf c hequal.1, hf (c.firstLines n) hequal.1,
        hf (c.lastLines n) hequal.1, List.append_nil]
    · rw [ih, List.flatMap_append, List.flatMap_singleton, List.append_assoc]

/-- **Grouping keeps every change, in its place.** -/
theorem flatMap_groupedOpcodes (codes : List Opcode) :
    (groupedOpcodes n codes).flatMap (List.flatMap f) = codes.flatMap f := by
  rw [groupedOpcodes, flatMap_groupsFrom hf, List.flatMap_nil, List.nil_append, flatMap_trimLast hf,
    flatMap_trimFirst hf]
  split_ifs with hnil
  · rw [hnil, List.flatMap_singleton, List.flatMap_nil]
    exact hf _ rfl
  · rfl

end Groups

end SequenceMatcher

namespace Difflib

open SequenceMatcher

/-! ## The unified diff -/

/-- `_format_range_unified(start, stop)`. -/
def formatRangeUnified (start stop : ℕ) : Text :=
  if stop - start = 1 then Nat.toDigits 10 (start + 1)
  else if stop - start = 0 then Nat.toDigits 10 start ++ ",0".toList
  else Nat.toDigits 10 (start + 1) ++ ',' :: Nat.toDigits 10 (stop - start)

variable (a b : List Text)

/-- The lines an opcode prints. -/
def printed (c : Opcode) : List Text :=
  if c.tag = .equal then (slice a c.i1 c.i2).map (' ' :: ·)
  else (c.deleted a).map ('-' :: ·) ++ (c.inserted b).map ('+' :: ·)

/-- `@@ -range +range @@`. -/
def hunkHeader (first last : Opcode) : Text :=
  "@@ -".toList ++ formatRangeUnified first.i1 last.i2 ++ " +".toList
    ++ formatRangeUnified first.j1 last.j2 ++ " @@".toList

/-- A group, printed. -/
def hunk : List Opcode → List Text
  | [] => []
  | first :: rest => hunkHeader first (rest.getLastD first) :: (first :: rest).flatMap (printed a b)

/-- `unified_diff(a, b, lineterm="", n=n)`: the headers come before the first group, with empty
names. -/
def unifiedDiff (n : ℕ) : List Text :=
  let groups := groupedOpcodes n (opcodes a b)
  (if groups = [] then [] else ["--- ".toList, "+++ ".toList]) ++ groups.flatMap (hunk a b)

/-- The line is one of the diff's own: a header, or context. -/
def isControl (line : Text) : Bool :=
  ['-', '-', '-'].isPrefixOf line || ['+', '+', '+'].isPrefixOf line || ['@', '@'].isPrefixOf line
    || [' '].isPrefixOf line

variable {a b} {p : Text → Bool}

/-- **The changes a unified diff prints are those of the opcodes**, for every context. -/
theorem filter_unifiedDiff (hp : ∀ line, isControl line = true → p line = false) (n : ℕ) :
    (unifiedDiff a b n).filter p = (opcodes a b).flatMap fun c =>
      ((c.deleted a).map ('-' :: ·) ++ (c.inserted b).map ('+' :: ·)).filter p := by
  have hequal : ∀ c : Opcode, c.tag = .equal → (printed a b c).filter p = [] := fun c hc => by
    rw [printed, if_pos hc, List.filter_eq_nil_iff]
    intro line hline
    obtain ⟨l, _, rfl⟩ := List.mem_map.mp hline
    rw [hp (' ' :: l) rfl]
    exact Bool.false_ne_true
  have hhunk : ∀ group : List Opcode, (hunk a b group).filter p
      = group.flatMap fun c => (printed a b c).filter p := fun group => by
    cases group with
    | nil => rfl
    | cons first rest =>
      have hheader : p (hunkHeader first (rest.getLastD first)) = false := hp _ rfl
      rw [hunk, List.filter_cons_of_neg (by rw [hheader]; exact Bool.false_ne_true),
        List.filter_flatMap]
  have hheaders : ∀ groups : List (List Opcode),
      (if groups = [] then [] else ["--- ".toList, "+++ ".toList]).filter p = [] := fun groups => by
    split_ifs
    · rfl
    · rw [List.filter_cons_of_neg (by rw [hp _ (by decide)]; exact Bool.false_ne_true),
        List.filter_cons_of_neg (by rw [hp _ (by decide)]; exact Bool.false_ne_true),
        List.filter_nil]
  rw [unifiedDiff, List.filter_append, hheaders, List.nil_append, List.filter_flatMap]
  refine (List.flatMap_congr fun group _ => hhunk group).trans ?_
  refine (flatMap_groupedOpcodes hequal n (opcodes a b)).trans (List.flatMap_congr fun c _ => ?_)
  obtain ⟨tag, i1, i2, j1, j2⟩ := c
  cases tag with
  | equal => exact hequal _ rfl
  | replace | delete | insert => rfl

/-- …so a count over the diff is a count over the lines deleted and one over the lines inserted. -/
theorem countP_unifiedDiff (hp : ∀ line, isControl line = true → p line = false) (n : ℕ) :
    (unifiedDiff a b n).countP p =
      ((opcodes a b).flatMap (Opcode.deleted a)).countP (fun l => p ('-' :: l)) +
        ((opcodes a b).flatMap (Opcode.inserted b)).countP (fun l => p ('+' :: l)) := by
  rw [List.countP_eq_length_filter, filter_unifiedDiff hp]
  induction opcodes a b with
  | nil => rfl
  | cons c codes ih =>
    rw [List.flatMap_cons, List.flatMap_cons, List.flatMap_cons, List.length_append, ih,
      ← List.countP_eq_length_filter, List.countP_append, List.countP_append, List.countP_append,
      List.countP_map, List.countP_map, Nat.add_add_add_comm]
    rfl

end Difflib
