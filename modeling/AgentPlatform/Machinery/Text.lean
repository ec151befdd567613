import Mathlib.Data.List.Infix
import Mathlib.Data.List.TakeWhile
import Mathlib.Tactic.Common

/-!
# Machinery/Text — Python's text operations, on lists of characters

The operations follow the language reference: `splitlines` breaks at every Unicode line boundary and
reads `\r\n` as one, `strip` removes Unicode white space, `count` counts occurrences that do not
overlap, and `fnmatch` is the shell-style glob with `*`, `?` and `[…]`.
-/

/-- A text, as its characters. -/
abbrev Text := List Char

namespace Text

/-! ## Lines and white space -/

/-- The line boundaries of `str.splitlines`. -/
def isLineBreak (c : Char) : Bool :=
  [0x0a, 0x0b, 0x0c, 0x0d, 0x1c, 0x1d, 0x1e, 0x85, 0x2028, 0x2029].contains c.toNat

/-- The characters `str.strip` removes. -/
def isSpace (c : Char) : Bool :=
  (0x09 ≤ c.toNat && c.toNat ≤ 0x0d) || (0x1c ≤ c.toNat && c.toNat ≤ 0x20) ||
    (0x2000 ≤ c.toNat && c.toNat ≤ 0x200a) ||
    [0x85, 0xa0, 0x1680, 0x2028, 0x2029, 0x202f, 0x205f, 0x3000].contains c.toNat

/-- `splitlines`, with the line read so far in reverse. -/
def splitlinesFrom (line : Text) : Text → List Text
  | [] => if line.isEmpty then [] else [line.reverse]
  | '\r' :: '\n' :: t => line.reverse :: splitlinesFrom [] t
  | c :: t => if isLineBreak c then line.reverse :: splitlinesFrom [] t
      else splitlinesFrom (c :: line) t

/-- `str.splitlines()`. -/
def splitlines (t : Text) : List Text := splitlinesFrom [] t

/-- `str.strip()`. -/
def strip (t : Text) : Text := ((t.dropWhile isSpace).reverse.dropWhile isSpace).reverse

/-- The printable characters of ASCII. -/
def isPrintable (c : Char) : Bool := 0x20 ≤ c.toNat && c.toNat ≤ 0x7e

/-- Universal newlines: what a text file opened without `newline=` reads as. -/
def universalNewlines : Text → Text
  | [] => []
  | '\r' :: '\n' :: t => '\n' :: universalNewlines t
  | c :: t => (if c = '\r' then '\n' else c) :: universalNewlines t

/-! ## Decoding -/

/-- What stands for bytes that are not UTF-8. -/
def replacement : Char := Char.ofNat 0xfffd

/-- A sequence begun: its bits so far, how many bytes are missing, and between which bounds the next
one is. -/
structure Utf8Partial where
  code : ℕ
  missing : ℕ
  low : ℕ
  high : ℕ
  deriving DecidableEq, Repr

/-- The first byte of a sequence: a character, or a sequence begun. -/
def utf8Begin (b : ℕ) : Text × Option Utf8Partial :=
  if b < 0x80 then ([Char.ofNat b], none)
  else if 0xc2 ≤ b ∧ b ≤ 0xdf then ([], some ⟨b - 0xc0, 1, 0x80, 0xbf⟩)
  else if b = 0xe0 then ([], some ⟨0, 2, 0xa0, 0xbf⟩)
  else if b = 0xed then ([], some ⟨0x0d, 2, 0x80, 0x9f⟩)
  else if 0xe1 ≤ b ∧ b ≤ 0xef then ([], some ⟨b - 0xe0, 2, 0x80, 0xbf⟩)
  else if b = 0xf0 then ([], some ⟨0, 3, 0x90, 0xbf⟩)
  else if 0xf1 ≤ b ∧ b ≤ 0xf3 then ([], some ⟨b - 0xf0, 3, 0x80, 0xbf⟩)
  else if b = 0xf4 then ([], some ⟨4, 3, 0x80, 0x8f⟩)
  else ([replacement], none)

/-- Decoding from a sequence begun; what cannot be continued is replaced as a whole. -/
def decodeFrom : Option Utf8Partial → List UInt8 → Text
  | none, [] => []
  | some _, [] => [replacement]
  | none, b :: bytes => (utf8Begin b.toNat).1 ++ decodeFrom (utf8Begin b.toNat).2 bytes
  | some p, b :: bytes =>
    if p.low ≤ b.toNat ∧ b.toNat ≤ p.high then
      if p.missing = 1 then Char.ofNat (p.code * 64 + (b.toNat - 0x80)) :: decodeFrom none bytes
      else decodeFrom (some ⟨p.code * 64 + (b.toNat - 0x80), p.missing - 1, 0x80, 0xbf⟩) bytes
    else replacement :: (utf8Begin b.toNat).1 ++ decodeFrom (utf8Begin b.toNat).2 bytes

/-- `bytes.decode("utf-8", errors="replace")`. -/
def decode (bytes : List UInt8) : Text := decodeFrom none bytes

example : decode [0x61, 0xc3, 0xa9, 0xe2, 0x82, 0xff, 0xf0, 0x9f, 0x98, 0x80]
    = ['a', 'é', replacement, replacement, '😀'] := by decide

/-! ## Searching and replacing -/

/-- `sub in t`. -/
def contains (sub t : Text) : Bool := t.tails.any sub.isPrefixOf

/-- A text contains its factors. -/
theorem contains_iff_infix {sub t : Text} : contains sub t = true ↔ sub <:+: t := by
  simp only [contains, List.any_eq_true, List.mem_tails, List.isPrefixOf_iff_prefix]
  exact ⟨fun ⟨u, hsuffix, hprefix⟩ => hprefix.isInfix.trans hsuffix.isInfix,
    fun ⟨u, v, h⟩ => ⟨sub ++ v, ⟨u, by rw [← h, List.append_assoc]⟩, List.prefix_append sub v⟩⟩

/-- `str.count`, skipping the `skip` characters an occurrence already covers. -/
def countFrom (sub : Text) : ℕ → Text → ℕ
  | _, [] => 0
  | 0, c :: t => if sub.isPrefixOf (c :: t) then countFrom sub (sub.length - 1) t + 1
      else countFrom sub 0 t
  | skip + 1, _ :: t => countFrom sub skip t

/-- `t.count(sub)`: occurrences that do not overlap; the empty text occurs around every
character. -/
def count (sub t : Text) : ℕ := if sub.isEmpty then t.length + 1 else countFrom sub 0 t

/-- Occurrences that overlap are not counted. -/
example : count "aa".toList "aaaaa".toList = 2 := by simp [count, countFrom]

/-- `t.replace(old, new, 1)`. -/
def replaceOnce (old new : Text) : Text → Text
  | [] => if old.isEmpty then new else []
  | c :: t => if old.isPrefixOf (c :: t) then new ++ (c :: t).drop old.length
      else c :: replaceOnce old new t

/-- `sep.join(parts)`. -/
def join (sep : Text) (parts : List Text) : Text := (parts.intersperse sep).flatten

/-! ## Numerals -/

/-- A row of digits; a single underscore may stand between two of them. -/
def numeral? (t : Text) : Option ℕ :=
  if (t.splitOn '_').all fun group => !group.isEmpty && group.all Char.isDigit then
    some (Nat.ofDigitChars 10 (t.filter (· ≠ '_')) 0)
  else none

/-- What `int` strips: as `strip`, but for the separators U+001C to U+001F. -/
def stripNumeral (t : Text) : Text :=
  let blank := fun c : Char => isSpace c && !(0x1c ≤ c.toNat && c.toNat ≤ 0x1f)
  ((t.dropWhile blank).reverse.dropWhile blank).reverse

/-- `int(t)`, on the digits of ASCII. -/
def int? (t : Text) : Option ℤ :=
  match stripNumeral t with
  | '-' :: digits => (numeral? digits).map fun n => -(n : ℤ)
  | '+' :: digits => (numeral? digits).map fun n => (n : ℤ)
  | digits => (numeral? digits).map fun n => (n : ℤ)

/-! ## Globs -/

/-- One token of a glob. -/
inductive Glob where
  | star
  | any
  | lit (c : Char)
  /-- A bracket class: the ranges it lists, and whether it is negated. -/
  | cls (neg : Bool) (ranges : List (Char × Char))
  deriving DecidableEq, Repr

/-- The ranges a bracket class lists; a hyphen at either end stands for itself. -/
def globRanges : Text → List (Char × Char)
  | [] => []
  | a :: '-' :: b :: t => (a, b) :: globRanges t
  | a :: t => (a, a) :: globRanges t

/-- The body of a bracket class and what follows it; a `]` right after the opening is part of the
body, and a bracket that is never closed is no class at all. -/
def globClass (t : Text) : Option (Bool × List (Char × Char) × Text) :=
  let neg := t.head? = some '!'
  let body := if neg then t.tail else t
  let first := if body.head? = some ']' then [']'] else []
  let rest := body.drop first.length
  if rest.contains ']' then
    some (neg, globRanges (first ++ rest.takeWhile (· ≠ ']')), (rest.dropWhile (· ≠ ']')).tail)
  else none

/-- `fnmatch.translate`, to tokens; `fuel` bounds the characters read. -/
def globTokens : ℕ → Text → List Glob
  | 0, _ => []
  | _, [] => []
  | fuel + 1, '*' :: t => .star :: globTokens fuel t
  | fuel + 1, '?' :: t => .any :: globTokens fuel t
  | fuel + 1, '[' :: t =>
    match globClass t with
    | some (neg, ranges, rest) => .cls neg ranges :: globTokens fuel rest
    | none => .lit '[' :: globTokens fuel t
  | fuel + 1, c :: t => .lit c :: globTokens fuel t

/-- Whether tokens match the whole of a text. -/
def globMatch : List Glob → Text → Bool
  | [], t => t.isEmpty
  | .star :: ps, t => t.tails.any (globMatch ps)
  | .any :: ps, _ :: t => globMatch ps t
  | .lit c :: ps, d :: t => c = d && globMatch ps t
  | .cls neg ranges :: ps, d :: t =>
    (ranges.any fun r => r.1 ≤ d && d ≤ r.2) != neg && globMatch ps t
  | _ :: _, [] => false

/-- `fnmatch.fnmatch(name, pattern)` on a case-sensitive system. -/
def fnmatch (name pattern : Text) : Bool := globMatch (globTokens pattern.length pattern) name

example : fnmatch "server.pem".toList "*.pem".toList ∧ ¬ fnmatch "pem".toList "*.pem".toList
    ∧ fnmatch "a-b".toList "[!x-z]-[b]".toList := by decide

/-- `glob.escape`: the name, as a pattern for itself. -/
def globEscape : Text → Text
  | [] => []
  | c :: t => if c = '*' ∨ c = '?' ∨ c = '[' then '[' :: c :: ']' :: globEscape t
      else c :: globEscape t

/-! ## Expressions for one text -/

/-- The characters `re.escape` puts a backslash before. -/
def reSpecial : List Char :=
  "()[]\x7b\x7d?*+-|^$\\.&~# \t\n\r".toList ++ [Char.ofNat 0x0b, Char.ofNat 0x0c]

/-- `re.escape`. -/
def reEscape (t : Text) : Text := t.flatMap fun c => if c ∈ reSpecial then ['\\', c] else [c]

/-- The expression for a text from its beginning to its end, `\A…\Z`. -/
def anchored (t : Text) : String := String.ofList ("\\A".toList ++ reEscape t ++ "\\Z".toList)

theorem reEscape_cons_of_mem {c : Char} (h : c ∈ reSpecial) (t : Text) :
    reEscape (c :: t) = '\\' :: c :: reEscape t := by simp [reEscape, h]

theorem reEscape_cons_of_not_mem {c : Char} (h : c ∉ reSpecial) (t : Text) :
    reEscape (c :: t) = c :: reEscape t := by simp [reEscape, h]

theorem reEscape_cons_ne_nil (c : Char) (t : Text) : reEscape (c :: t) ≠ [] := by
  by_cases h : c ∈ reSpecial
  · simp [reEscape_cons_of_mem h]
  · simp [reEscape_cons_of_not_mem h]

/-- Escaping loses nothing. -/
theorem reEscape_injective : Function.Injective reEscape := by
  have hbackslash : '\\' ∈ reSpecial := by decide
  intro t u h
  induction t generalizing u with
  | nil =>
    cases u with
    | nil => rfl
    | cons d u => exact absurd h.symm (reEscape_cons_ne_nil d u)
  | cons c t ih =>
    cases u with
    | nil => exact absurd h (reEscape_cons_ne_nil c t)
    | cons d u =>
      by_cases hc : c ∈ reSpecial <;> by_cases hd : d ∈ reSpecial
      · rw [reEscape_cons_of_mem hc, reEscape_cons_of_mem hd, List.cons.injEq, List.cons.injEq] at h
        rw [h.2.1, ih h.2.2]
      · rw [reEscape_cons_of_mem hc, reEscape_cons_of_not_mem hd, List.cons.injEq] at h
        exact absurd (h.1 ▸ hbackslash) hd
      · rw [reEscape_cons_of_not_mem hc, reEscape_cons_of_mem hd, List.cons.injEq] at h
        exact absurd (h.1.symm ▸ hbackslash) hc
      · rw [reEscape_cons_of_not_mem hc, reEscape_cons_of_not_mem hd, List.cons.injEq] at h
        rw [h.1, ih h.2]

theorem anchored_injective : Function.Injective anchored := by
  intro t u h
  have hlists := congrArg String.toList h
  simp only [anchored, String.toList_ofList, List.append_assoc, List.append_cancel_left_eq,
    List.append_cancel_right_eq] at hlists
  exact reEscape_injective hlists

/-! ## Reading back what was printed -/

section ReadBack

variable {t line : Text}

theorem isLineBreak_of_isPrintable {c : Char}
    (h : isPrintable c = true) : isLineBreak c = false := by
  simp only [isPrintable, Bool.and_eq_true, decide_eq_true_eq] at h
  simp only [isLineBreak, List.contains_eq_mem, List.mem_cons, List.not_mem_nil, or_false,
    decide_eq_false_iff_not]
  omega

theorem splitlinesFrom_cons {c : Char} (h : isLineBreak c = false) (read : Text) :
    splitlinesFrom read (c :: t) = splitlinesFrom (c :: read) t := by
  have hreturn : c ≠ '\r' := by
    rintro rfl
    exact absurd h (by decide)
  rw [splitlinesFrom, if_neg (by simp [h])]
  intro _ hc
  exact absurd hc hreturn

theorem splitlinesFrom_append (h : ∀ c ∈ line, isLineBreak c = false) (read rest : Text) :
    splitlinesFrom read (line ++ '\n' :: rest) = (read.reverse ++ line)
      :: splitlinesFrom [] rest := by
  induction line generalizing read with
  | nil => simp [splitlinesFrom, isLineBreak]
  | cons c line ih =>
    rw [List.forall_mem_cons] at h
    rw [List.cons_append, splitlinesFrom_cons h.1, ih h.2, List.reverse_cons, List.append_assoc,
      List.singleton_append]

/-- **Lines without a line break of their own split back.** -/
theorem splitlines_lines {lines : List Text} (h : ∀ l ∈ lines, ∀ c ∈ l, isLineBreak c = false) :
    splitlines (lines.flatMap (· ++ ['\n'])) = lines := by
  induction lines with
  | nil => rfl
  | cons l lines ih =>
    rw [List.forall_mem_cons] at h
    rw [splitlines, List.flatMap_cons, List.append_assoc, List.singleton_append,
      splitlinesFrom_append h.1, ← splitlines, ih h.2]
    rfl

theorem not_isLineBreak_of_mem_splitlinesFrom {read l : Text}
    (hread : ∀ c ∈ read, isLineBreak c = false)
    (h : l ∈ splitlinesFrom read t) : ∀ c ∈ l, isLineBreak c = false := by
  fun_induction splitlinesFrom read t with
  | case1 read hempty => cases h
  | case2 read hempty =>
    obtain rfl := List.mem_singleton.mp h
    exact fun c hc => hread c (List.mem_reverse.mp hc)
  | case3 read t ih =>
    rcases List.mem_cons.mp h with rfl | h
    · exact fun c hc => hread c (List.mem_reverse.mp hc)
    · exact ih (by simp) h
  | case4 read c t _ hbreak ih =>
    rcases List.mem_cons.mp h with rfl | h
    · exact fun c hc => hread c (List.mem_reverse.mp hc)
    · exact ih (by simp) h
  | case5 read c t _ hbreak ih =>
    exact ih (List.forall_mem_cons.mpr ⟨by simpa using hbreak, hread⟩) h

/-- **No line has a line boundary in it.** -/
theorem not_isLineBreak_of_mem_splitlines {l : Text} (h : l ∈ splitlines t) :
    ∀ c ∈ l, isLineBreak c = false :=
  not_isLineBreak_of_mem_splitlinesFrom (by simp) h

/-- Nothing is dropped at either end. -/
theorem dropWhile_ends {p : Char → Bool} (h : ∀ c ∈ t, p c = false) :
    ((t.dropWhile p).reverse.dropWhile p).reverse = t := by
  have hkeep : ∀ u : Text, (∀ c ∈ u, p c = false) → u.dropWhile p = u := by
    intro u hu
    cases u with
    | nil => rfl
    | cons c u => exact List.dropWhile_cons_of_neg (by simp [hu c List.mem_cons_self])
  rw [hkeep t h, hkeep t.reverse fun c hc => h c (List.mem_reverse.mp hc), List.reverse_reverse]

/-- A text that is not blank does not strip to nothing. -/
theorem strip_ne_nil (h : ¬ ∀ c ∈ t, isSpace c = true) : strip t ≠ [] := by
  rw [strip, Ne, List.reverse_eq_nil_iff, List.dropWhile_eq_nil_iff]
  intro hall
  refine h (List.dropWhile_eq_nil_iff.mp ?_)
  rcases hd : t.dropWhile isSpace with _ | ⟨c, d⟩
  · rfl
  · have hhead := List.head?_dropWhile_not isSpace t
    rw [hd] at hhead hall
    simp [hall c (by simp)] at hhead

theorem strip_eq_nil_iff : strip t = [] ↔ ∀ c ∈ t, isSpace c = true := by
  refine ⟨fun h => by_contra fun hnot => strip_ne_nil hnot h, fun h => ?_⟩
  rw [strip, List.dropWhile_eq_nil_iff.mpr h]
  rfl

/-- What is joined is there. -/
theorem mem_join {sep part : Text} {parts : List Text} (hpart : part ∈ parts) :
    ∀ c ∈ part, c ∈ join sep parts := by
  induction parts with
  | nil => cases hpart
  | cons first parts ih =>
    intro c hc
    rcases List.mem_cons.mp hpart with rfl | hpart
    · cases parts <;> simp [join, hc]
    · have hrest := ih hpart c hc
      cases parts with
      | nil => cases hpart
      | cons second parts =>
        have hjoin : join sep (first :: second :: parts) = first ++ sep
            ++ join sep (second :: parts) := by
          simp [join]
        rw [hjoin]
        exact List.mem_append_right _ hrest

/-- A part that is not blank keeps the joined text from being blank. -/
theorem strip_join_ne_nil {sep part : Text} {parts : List Text} (hpart : part ∈ parts)
    (h : strip part ≠ []) : strip (join sep parts) ≠ [] := fun hnil =>
  h (strip_eq_nil_iff.mpr fun c hc => strip_eq_nil_iff.mp hnil c (mem_join hpart c hc))

/-- Blanks at the end of a text are stripped. -/
theorem strip_append_of_blank {v : Text}
    (hv : ∀ c ∈ v, isSpace c = true) : strip (t ++ v) = strip t := by
  have hreverse : ∀ c ∈ v.reverse, isSpace c = true := fun c hc => hv c (List.mem_reverse.mp hc)
  rw [strip, strip, List.dropWhile_append]
  split
  · rename_i hempty
    rw [List.isEmpty_iff] at hempty
    rw [hempty, List.dropWhile_eq_nil_iff.mpr hv]
  · rw [List.reverse_append, List.dropWhile_append_of_pos hreverse]

/-- What a text gains when something other than blanks is appended, its stripped form gains too. -/
theorem exists_strip_append {v : Text} (hv : ¬ ∀ c ∈ v, isSpace c = true) :
    ∃ x, x ≠ [] ∧ strip (t ++ v) = strip t ++ x := by
  have hreverse : v.reverse.dropWhile isSpace ≠ [] := fun hnil =>
    hv fun c hc => List.dropWhile_eq_nil_iff.mp hnil c (List.mem_reverse.mpr hc)
  rcases hd : t.dropWhile isSpace with _ | ⟨c, d⟩
  · refine ⟨strip v, strip_ne_nil hv, ?_⟩
    rw [strip, strip, strip, List.dropWhile_append, hd]
    rfl
  · refine ⟨((c :: d).reverse.takeWhile isSpace).reverse ++ (v.reverse.dropWhile isSpace).reverse,
      by simp [hreverse], ?_⟩
    have hsplit : (c :: d) = ((c :: d).reverse.dropWhile isSpace).reverse ++
        ((c :: d).reverse.takeWhile isSpace).reverse := by
      rw [← List.reverse_append, List.takeWhile_append_dropWhile, List.reverse_reverse]
    rw [strip, strip, List.dropWhile_append, hd, if_neg (by simp), List.reverse_append,
      List.dropWhile_append, if_neg (by simpa using hreverse), List.reverse_append,
      List.reverse_reverse, ← List.append_assoc, ← hsplit]

theorem toNat_of_isDigit {c : Char} (h : c.isDigit = true) : 48 ≤ c.toNat ∧ c.toNat ≤ 57 := by
  simp only [Char.isDigit, Bool.and_eq_true, decide_eq_true_eq] at h
  exact h

theorem toNat_of_isAlpha {c : Char} (h : c.isAlpha = true) :
    (65 ≤ c.toNat ∧ c.toNat ≤ 90) ∨ (97 ≤ c.toNat ∧ c.toNat ≤ 122) := by
  rcases Bool.or_eq_true_iff.mp h with h | h
  · exact .inl (of_decide_eq_true h)
  · have hrange := Bool.and_eq_true_iff.mp h
    exact .inr ⟨of_decide_eq_true hrange.1, of_decide_eq_true hrange.2⟩

theorem isPrintable_of_isDigit {c : Char} (h : c.isDigit = true) : isPrintable c = true := by
  have hdigit := toNat_of_isDigit h
  simp only [isPrintable, Bool.and_eq_true, decide_eq_true_eq]
  omega

theorem isDigit_toDigits (n : ℕ) : ∀ c ∈ Nat.toDigits 10 n, c.isDigit = true := fun _ hc =>
  Nat.isDigit_of_mem_toDigits (by decide) (by decide) hc

theorem isPrintable_toDigits (n : ℕ) : ∀ c ∈ Nat.toDigits 10 n, isPrintable c = true := fun c hc =>
  isPrintable_of_isDigit (isDigit_toDigits n c hc)

theorem isSpace_of_isDigit {c : Char} (h : c.isDigit = true) : isSpace c = false := by
  have hdigit := toNat_of_isDigit h
  simp only [isSpace, List.contains_eq_mem, List.mem_cons, List.not_mem_nil, or_false,
    Bool.or_eq_false_iff, Bool.and_eq_false_iff, decide_eq_false_iff_not]
  omega

theorem numeral?_toDigits (n : ℕ) : numeral? (Nat.toDigits 10 n) = some n := by
  have hdigit : ∀ c ∈ Nat.toDigits 10 n, c.isDigit = true := fun c hc =>
    Nat.isDigit_of_mem_toDigits (by decide) (by decide) hc
  have hfilter : (Nat.toDigits 10 n).filter (· ≠ '_') = Nat.toDigits 10 n := by
    refine List.filter_eq_self.mpr fun c hc => ?_
    rw [decide_eq_true_iff]
    rintro rfl
    exact Nat.underscore_not_in_toDigits hc
  have hgroups : ((Nat.toDigits 10 n).splitOn '_').all
      (fun group => !group.isEmpty && group.all Char.isDigit) = true := by
    rw [List.splitOn_eq_singleton Nat.underscore_not_in_toDigits]
    simpa [List.isEmpty_iff] using hdigit
  rw [numeral?, if_pos hgroups, hfilter, Nat.ofDigitChars_ten_toDigits]

/-- **A number reads back.** -/
theorem int?_toDigits (n : ℕ) : int? (Nat.toDigits 10 n) = some (n : ℤ) := by
  have hdigit := isDigit_toDigits n
  have hstrip : stripNumeral (Nat.toDigits 10 n) = Nat.toDigits 10 n :=
    dropWhile_ends fun c hc => by rw [isSpace_of_isDigit (hdigit c hc), Bool.false_and]
  rw [int?, hstrip]
  split
  case h_1 digits h => exact absurd (hdigit '-' (by rw [h]; simp)) (by decide)
  case h_2 digits h => exact absurd (hdigit '+' (by rw [h]; simp)) (by decide)
  case h_3 => rw [numeral?_toDigits]; rfl

/-! ## Names as patterns -/

theorem globClass_singleton {c : Char} (h : c = '*' ∨ c = '?' ∨ c = '[') (rest : Text) :
    globClass (c :: ']' :: rest) = some (false, [(c, c)], rest) := by
  rcases h with rfl | rfl | rfl <;> simp [globClass, globRanges]

theorem globTokens_lit {c : Char} (h : ¬ (c = '*' ∨ c = '?' ∨ c = '[')) (fuel : ℕ) (rest : Text) :
    globTokens (fuel + 1) (c :: rest) = .lit c :: globTokens fuel rest := by
  rw [not_or, not_or] at h
  exact globTokens.eq_6 fuel c rest h.1 h.2.1 h.2.2

theorem globMatch_globEscape (name : Text) {fuel : ℕ} (h : (globEscape name).length ≤ fuel) :
    globMatch (globTokens fuel (globEscape name)) t = true ↔ t = name := by
  induction name generalizing fuel t with
  | nil =>
    rw [globEscape]
    cases fuel <;> simp [globTokens, globMatch]
  | cons c name ih =>
    rw [globEscape] at h ⊢
    split_ifs at h ⊢ with hc
    · obtain ⟨fuel, rfl⟩ : ∃ k, fuel = k + 3 := ⟨fuel - 3, by simp at h; omega⟩
      have hrest : globMatch (globTokens (fuel + 2) (globEscape name)) t.tail = true ↔
          t.tail = name :=
        ih (by simp at h; omega)
      rw [globTokens, globClass_singleton hc]
      cases t with
      | nil => simp [globMatch]
      | cons d t =>
        rw [List.tail_cons] at hrest
        have hrange : c ≤ d ∧ d ≤ c ↔ d = c :=
          ⟨fun ⟨hle, hge⟩ => Char.le_antisymm hge hle, fun hd => by simp [hd]⟩
        simp [globMatch, hrest, hrange]
    · obtain ⟨fuel, rfl⟩ : ∃ k, fuel = k + 1 := ⟨fuel - 1, by simp at h; omega⟩
      have hrest : globMatch (globTokens fuel (globEscape name)) t.tail = true ↔ t.tail = name :=
        ih (by simp at h; omega)
      rw [globTokens_lit hc]
      cases t with
      | nil => simp [globMatch]
      | cons d t =>
        rw [List.tail_cons] at hrest
        simp [globMatch, hrest, eq_comm (a := c)]

/-- **An escaped name matches itself and nothing else.** -/
theorem fnmatch_globEscape (name : Text) : fnmatch t (globEscape name) = true ↔ t = name :=
  globMatch_globEscape name le_rfl

end ReadBack

end Text
