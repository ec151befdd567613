import Mathlib.Data.List.Forall2
import AgentPlatform.Graph.Fingerprint
import AgentPlatform.Machinery.Substitution

/-!
# Graph/Noise — what the seven rules make of a message

The rules of `_NOISE` are applied one after the other, so what one of them sees is what the earlier
ones left.  A message is taken as fixed texts with **tokens** between blanks: each rule either
replaces a token or leaves it (`Standing`), and the last rule that reads tokens takes the line
numbers.

* `Noisy` — GUIDs, timestamps, durations, elapsed times and line numbers;
* `Known` — what the rules take for one of them, `known_of_noisy`;
* `normalize_eq` — two messages that differ in known tokens have one normal form.
-/

namespace AgentPlatform

namespace Fingerprint

open Regex Pattern

/-! ## Characters -/

/-- What the classes of `re` satisfy on all of Unicode: no word character is blank, decimal digits
are word characters, and no letter is one of them. -/
structure Regular (U : Unicode) : Prop where
  blank : ∀ c, Text.isSpace c = true → U.isWord c = false
  decimal : ∀ c, U.isDecimal c = true → U.isWord c = true
  letter : ∀ l c, l.isAlpha = true → sameLetter l c = true → U.isDecimal c = false

section Characters

variable {U : Unicode} {c : Char}

theorem Regular.not_isDecimal (hU : Regular U)
    (h : Text.isSpace c = true) : U.isDecimal c = false := by
  rw [← Bool.not_eq_true]
  intro hdecimal
  have hword := hU.decimal c hdecimal
  rw [hU.blank c h] at hword
  cases hword

theorem Regular.not_isSpace (hU : Regular U)
    (h : U.isDecimal c = true) : Text.isSpace c = false := by
  rw [← Bool.not_eq_true]
  intro hspace
  rw [hU.not_isDecimal hspace] at h
  cases h

/-- Where a blank stands. -/
theorem toNat_of_isSpace (h : Text.isSpace c = true) :
    (9 ≤ c.toNat ∧ c.toNat ≤ 13) ∨ (28 ≤ c.toNat ∧ c.toNat ≤ 32) ∨ 128 ≤ c.toNat ∧ c.toNat ≠ 0x130 ∧
      c.toNat ≠ 0x131 ∧ c.toNat ≠ 0x17f ∧ c.toNat ≠ 0x212a := by
  simp only [Text.isSpace, List.contains_eq_mem, List.mem_cons, List.not_mem_nil, or_false,
    Bool.or_eq_true, Bool.and_eq_true, decide_eq_true_eq] at h
  omega

/-- A hexadecimal digit is a digit or a letter. -/
theorem toNat_of_isHex (h : isHex c = true) :
    (48 ≤ c.toNat ∧ c.toNat ≤ 57) ∨ (97 ≤ c.toNat ∧ c.toNat ≤ 102) ∨
    (65 ≤ c.toNat ∧ c.toNat ≤ 70) := by
  rcases Bool.or_eq_true_iff.mp h with h | h
  · rcases Bool.or_eq_true_iff.mp h with h | h
    · exact .inl (Text.toNat_of_isDigit h)
    · have hrange := Bool.and_eq_true_iff.mp h
      exact .inr (.inl ⟨of_decide_eq_true hrange.1, of_decide_eq_true hrange.2⟩)
  · have hrange := Bool.and_eq_true_iff.mp h
    exact .inr (.inr ⟨of_decide_eq_true hrange.1, of_decide_eq_true hrange.2⟩)

theorem isHex_of_isSpace (h : Text.isSpace c = true) : isHex c = false := by
  rw [← Bool.not_eq_true]
  intro hhex
  have hspace := toNat_of_isSpace h
  have hrange := toNat_of_isHex hhex
  omega

theorem isWord_of_isHex (h : isHex c = true) : U.isWord c = true := by
  have hrange := toNat_of_isHex h
  have halnum : c.isAlphanum = true := by
    rcases hrange with hdigit | hlower | hupper
    · exact Bool.or_eq_true_iff.mpr (.inr (Bool.and_eq_true_iff.mpr
        ⟨decide_eq_true hdigit.1, decide_eq_true hdigit.2⟩))
    · exact Bool.or_eq_true_iff.mpr (.inl (Bool.or_eq_true_iff.mpr (.inr (Bool.and_eq_true_iff.mpr
        ⟨decide_eq_true hlower.1, decide_eq_true (hlower.2.trans (by decide))⟩))))
    · exact Bool.or_eq_true_iff.mpr (.inl (Bool.or_eq_true_iff.mpr (.inl
        (decide_eq_true ⟨hupper.1, hupper.2.trans (by decide)⟩))))
  rw [U.isWord_ascii c (by omega), halnum]
  rfl

/-- No letter is blank, in either case. -/
theorem not_isSpace_of_sameLetter {l : Char} (hlower : Text.isSpace l = false)
    (hupper : Text.isSpace l.toUpper = false)
    (h : sameLetter l c = true) : Text.isSpace c = false := by
  rw [← Bool.not_eq_true]
  intro hspace
  have hrange := toNat_of_isSpace hspace
  simp only [sameLetter, Bool.or_eq_true, Bool.and_eq_true, decide_eq_true_eq] at h
  rcases h with (((rfl | rfl) | ⟨-, h | h⟩) | ⟨-, h⟩) | ⟨-, h⟩
  · rw [hspace] at hlower
    cases hlower
  · rw [hspace] at hupper
    cases hupper
  all_goals omega

theorem not_isSpace_of_isAlpha (h : c.isAlpha = true) : Text.isSpace c = false := by
  rw [← Bool.not_eq_true]
  intro hspace
  have hrange := Text.toNat_of_isAlpha h
  have hblank := toNat_of_isSpace hspace
  omega

/-- A blank is none of the letters of a pattern. -/
theorem sameLetter_of_isSpace {l : Char} (hlower : Text.isSpace l = false)
    (hupper : Text.isSpace l.toUpper = false)
    (h : Text.isSpace c = true) : sameLetter l c = false := by
  rw [← Bool.not_eq_true]
  intro hsame
  rw [not_isSpace_of_sameLetter hlower hupper hsame] at h
  cases h

/-- A blank is no letter of a word of a pattern. -/
theorem sameLetter_of_all {w : Text}
    (hw : w.all (fun l => !Text.isSpace l && !Text.isSpace l.toUpper) = true)
    {l : Char} (h : Text.isSpace c = true) (hl : l ∈ w) : sameLetter l c = false := by
  have hlower := List.all_eq_true.mp hw l hl
  simp only [Bool.and_eq_true, Bool.not_eq_true'] at hlower
  exact sameLetter_of_isSpace hlower.1 hlower.2 h

/-- Every character of a word that is read for another is read for a letter of that one. -/
theorem exists_letter {t w : Text}
    (h : List.Forall₂ (fun a c => sameLetter a c = true) t w) (hc : c ∈ w) :
    ∃ l ∈ t, sameLetter l c = true := by
  induction h with
  | nil => cases hc
  | cons hsame _ ih =>
    rcases List.mem_cons.mp hc with rfl | hc
    · exact ⟨_, List.mem_cons_self, hsame⟩
    · obtain ⟨l, hl, hlc⟩ := ih hc
      exact ⟨l, List.mem_cons_of_mem _ hl, hlc⟩

end Characters

/-! ## Tokens -/

/-- `n` characters of a class. -/
def IsRow (p : Char → Bool) (n : ℕ) (w : Text) : Prop := w.length = n ∧ ∀ c ∈ w, p c = true

/-- A row of digits of any length. -/
def IsNumber (U : Unicode) (τ : Text) : Prop := τ ≠ [] ∧ ∀ c ∈ τ, U.isDecimal c = true

def IsGuid (τ : Text) : Prop :=
  ∃ a b c d e, IsRow isHex 8 a ∧ IsRow isHex 4 b ∧ IsRow isHex 4 c ∧ IsRow isHex 4 d ∧
    IsRow isHex 12 e ∧ τ = a ++ '-' :: (b ++ '-' :: (c ++ '-' :: (d ++ '-' :: e)))

/-- A fraction of a second. -/
def IsFraction (U : Unicode) (τ : Text) : Prop := τ = [] ∨ ∃ ds, IsNumber U ds ∧ τ = '.' :: ds

/-- A time zone. -/
def IsZone (U : Unicode) (τ : Text) : Prop :=
  τ = [] ∨ τ = ['Z'] ∨ ∃ sign h m, (sign = '+' ∨ sign = '-') ∧ IsRow U.isDecimal 2 h ∧
    IsRow U.isDecimal 2 m ∧ τ = sign :: (h ++ ':' :: m)

/-- A date and a time of day, with or without a fraction and a zone. -/
def IsTimestamp (U : Unicode) (τ : Text) : Prop :=
  ∃ y mo d sep h m s f z, IsRow U.isDecimal 4 y ∧ IsRow U.isDecimal 2 mo ∧ IsRow U.isDecimal 2 d ∧
    (sep = 'T' ∨ sep = ' ') ∧ IsRow U.isDecimal 2 h ∧ IsRow U.isDecimal 2 m ∧
    IsRow U.isDecimal 2 s ∧ IsFraction U f ∧ IsZone U z ∧
    τ = y ++ '-' :: (mo ++ '-' :: (d ++ sep :: (h ++ ':' :: (m ++ ':' :: (s ++ (f ++ z))))))

/-- What the rules take for a timestamp: whatever follows the time of day up to a blank.  (With more
dashes in it, another rule might find a GUID there.) -/
def IsDated (U : Unicode) (τ : Text) : Prop :=
  ∃ y mo d sep h m s tail, IsRow U.isDecimal 4 y ∧ IsRow U.isDecimal 2 mo ∧ IsRow U.isDecimal 2 d ∧
    (sep = 'T' ∨ sep = ' ') ∧ IsRow U.isDecimal 2 h ∧ IsRow U.isDecimal 2 m ∧
    IsRow U.isDecimal 2 s ∧ (∀ c ∈ tail, Text.isSpace c = false) ∧ tail.countP (· = '-') ≤ 1 ∧
    τ = y ++ '-' :: (mo ++ '-' :: (d ++ sep :: (h ++ ':' :: (m ++ ':' :: (s ++ tail)))))

/-- A number of milliseconds or seconds. -/
def IsDuration (U : Unicode) (τ : Text) : Prop :=
  ∃ ds unit, IsNumber U ds ∧ (unit = "ms".toList ∨ unit = "s".toList) ∧ τ = ds ++ ' ' :: unit

/-- A unit of time, as the rules read it: in any case. -/
def IsUnit (U : Unicode) (w : Text) : Prop :=
  (∃ unit ∈ ["ms", "s", "seconds"],
      List.Forall₂ (fun a c => sameLetter a c = true) unit.toList w) ∧
    ∀ c ∈ w, U.isWord c = true

/-- What the rules take for a duration: a number, with or without a fraction, and a unit, with or
without one blank between them. -/
def IsTimed (U : Unicode) (τ : Text) : Prop :=
  ∃ ds f gap w, IsNumber U ds ∧ IsFraction U f ∧
    (gap = [] ∨ ∃ c, Text.isSpace c = true ∧ gap = [c]) ∧ IsUnit U w ∧ τ = ds ++ (f ++ (gap ++ w))

/-- No word goes on in the text. -/
def Parted (U : Unicode) (Y : Text) : Prop := ∀ c ∈ Y.head?, U.isWord c = false

/-- An elapsed time. -/
def IsElapsed (U : Unicode) (τ : Text) : Prop :=
  ∃ h m s f, IsRow U.isDecimal 2 h ∧ IsRow U.isDecimal 2 m ∧ IsRow U.isDecimal 2 s ∧ IsNumber U f ∧
    τ = h ++ ':' :: (m ++ ':' :: (s ++ '.' :: f))

/-- The text ends in the word `line` and a gap. -/
def EndsInLine (U : Unicode) (F : Text) : Prop :=
  ∃ G l gap, F = G ++ (l ++ gap) ∧ (∀ c ∈ G.getLast?, U.isWord c = false) ∧
    List.Forall₂ (fun a c => sameLetter a c = true) "line".toList l ∧ gap ≠ [] ∧
    ∀ c ∈ gap, Text.isSpace c = true

/-- The text begins with a unit of time, behind a blank. -/
def BeginsWithUnit (U : Unicode) (Y : Text) : Prop :=
  ∃ c w v, Y = c :: (w ++ v) ∧ Text.isSpace c = true ∧
    (∃ unit ∈ ["ms", "s", "seconds"],
      List.Forall₂ (fun a c => sameLetter a c = true) unit.toList w) ∧
    (⟨w.reverse, v, []⟩ : Place).atBoundary U.isWord = true

/-- The kinds of noise. -/
inductive Kind where
  | guid
  | timestamp
  | duration
  | elapsed
  | lineNumber
  deriving DecidableEq

/-- **Noise**: a token of the kind, behind `F` and before a blank or the end. -/
def Noisy (U : Unicode) : Kind → Text → Text → Text → Prop
  | .guid, _, τ, Y => IsGuid τ ∧ Delimited Y
  | .timestamp, _, τ, Y => IsTimestamp U τ ∧ Delimited Y
  | .duration, _, τ, Y => IsDuration U τ ∧ Delimited Y
  | .elapsed, _, τ, Y => IsElapsed U τ ∧ Delimited Y
  | .lineNumber, F, τ, Y => IsNumber U τ ∧ EndsInLine U F ∧ Delimited Y

/-- What the rules from the `i`-th up to the `j`-th make of a text. -/
def rewritten (U : Unicode) (i j : ℕ) (t : Text) : Text :=
  (((noise U).take j).drop i).foldl (fun t (p, new) => p.sub new.toList t) t

/-- **A token after the first `n` rules**, of the kinds the rules know.  A line number is read by
the sixth rule: until then the word `line` has to last, and the third must not find a unit behind
the number, which is part of a duration then. -/
def Standing (U : Unicode) (n : ℕ) : Kind → Text → Text → Text → Prop
  | .guid, _, τ, Y => if n < 1 then IsGuid τ ∧ Delimited Y else τ = "<guid>".toList
  | .timestamp, _, τ, Y =>
    if n < 2 then IsDated U τ ∧ Delimited Y else τ = "<timestamp>".toList
  | .duration, _, τ, Y => if n < 3 then IsTimed U τ ∧ Parted U Y else τ = "<duration>".toList
  | .elapsed, _, _, _ => False
  | .lineNumber, F, τ, Y =>
    IsNumber U τ ∧ EndsInLine U (rewritten U n 5 F) ∧ Delimited Y ∧
      (n < 3 → ¬ BeginsWithUnit U (rewritten U n 2 Y))

/-- **What the rules know**: any kind of noise but an elapsed time, timestamps with every zone,
durations with every unit and every blank, and line numbers whose `line` no earlier rule takes and
behind which no unit stands. -/
def Known (U : Unicode) : Kind → Text → Text → Text → Prop := Standing U 0

/-! ## The rules -/

section Rules

variable {U : Unicode} {c : Char}

theorem opens_guid : (guid U).opens false c = isHex c := by
  simp [guid, wordEdge, hexRow, times, seqs, opens, nullable]

theorem opens_timestamp : (timestamp U).opens false c = U.isDecimal c := by
  simp [timestamp, wordEdge, decimals, times, seqs, opens, nullable]

theorem opens_duration : (duration U).opens false c = U.isDecimal c := by
  simp [duration, wordEdge, plus, seqs, opens, nullable]

theorem opens_address : (address U).opens false c = sameLetter '0' c := by
  simp [address, wordEdge, anyCase, seqs, opens, nullable]

theorem opens_filePath : (filePath U).opens false c = (c.isAlpha || c = '/') := by
  simp [filePath, word, seqs, opens, nullable]

theorem opens_lineNumber : (lineNumber U).opens false c
      = (decide (c = ':') || sameLetter 'l' c) := by
  simp [lineNumber, wordEdge, word, anyCase, seqs, opens, nullable]

theorem steady_guid : (guid U).Steady where
  nullable := rfl
  opens c hc := opens_guid.trans (isHex_of_isSpace hc)
  closes c hc := by
    simp [guid, wordEdge, hexRow, times, seqs, closes, nullable, isHex_of_isSpace hc]

theorem steady_address : (address U).Steady where
  nullable := rfl
  opens c hc := opens_address.trans (sameLetter_of_isSpace (by decide) (by decide) hc)
  closes c hc := by
    simp [address, wordEdge, plus, seqs, closes, nullable, isHex_of_isSpace hc]

variable (hU : Regular U)
include hU

theorem steady_timestamp : (timestamp U).Steady where
  nullable := rfl
  opens c hc := opens_timestamp.trans (hU.not_isDecimal hc)
  closes c hc := by
    simp [timestamp, wordEdge, decimals, times, seqs, closes, nullable, hc, hU.not_isDecimal hc]

theorem steady_duration : (duration U).Steady where
  nullable := rfl
  opens c hc := opens_duration.trans (hU.not_isDecimal hc)
  closes c hc := by
    have hs : sameLetter 's' c = false := sameLetter_of_isSpace (by decide) (by decide) hc
    simp [duration, wordEdge, anyCase, seqs, closes, nullable, hs]

theorem steady_filePath : (filePath U).Steady where
  nullable := rfl
  opens c hc := by
    have halpha : c.isAlpha = false := by
      rw [← Bool.not_eq_true]
      intro h
      rw [not_isSpace_of_isAlpha h] at hc
      cases hc
    have hslash : c ≠ '/' := by
      rintro rfl
      exact absurd hc (by decide)
    simp [opens_filePath, halpha, hslash]
  closes c hc := by
    have hmarks : c ≠ '/' ∧ c ≠ '\\' ∧ c ≠ '.' ∧ c ≠ '-' := by
      refine ⟨?_, ?_, ?_, ?_⟩ <;> rintro rfl <;> exact absurd hc (by decide)
    simp [filePath, word, plus, seqs, closes, nullable, isPathChar, hU.blank c hc, hc, hmarks]

theorem steady_lineNumber : (lineNumber U).Steady where
  nullable := rfl
  opens c hc := by
    have hcolon : c ≠ ':' := by
      rintro rfl
      exact absurd hc (by decide)
    have hl : sameLetter 'l' c = false := sameLetter_of_isSpace (by decide) (by decide) hc
    simp [opens_lineNumber, hcolon, hl]
  closes c hc := by
    simp [lineNumber, wordEdge, plus, seqs, closes, nullable, hU.not_isDecimal hc]

/-! ### What a match begins with -/

omit hU in
theorem demands_guid : (guid U).Demands 4 (· = '-') (fun c => isHex c || c = '-') := by
  rintro ⟨before, rest, g⟩ s' ⟨_, ⟨-, rfl⟩, _, hrow, _, hdash, _, hrow₂, _, hdash₂, _,
    hrow₃, _, hdash₃, _, hrow₄, _, hdash₄, -⟩
  obtain ⟨a, t, rfl, -, ha, rfl⟩ := ends_times.mp hrow
  obtain ⟨t, rfl, rfl⟩ := ends_word.mp hdash
  obtain ⟨b, t, rfl, -, hb, rfl⟩ := ends_times.mp hrow₂
  obtain ⟨t, rfl, rfl⟩ := ends_word.mp hdash₂
  obtain ⟨c, t, rfl, -, hc, rfl⟩ := ends_times.mp hrow₃
  obtain ⟨t, rfl, rfl⟩ := ends_word.mp hdash₃
  obtain ⟨d, t, rfl, -, hd, rfl⟩ := ends_times.mp hrow₄
  obtain ⟨t, rfl, rfl⟩ := ends_word.mp hdash₄
  have hread : ∀ x, isHex x = true → (isHex x || decide (x = '-')) = true := fun x hx => by
    rw [hx, Bool.true_or]
  refine ⟨a ++ '-' :: (b ++ '-' :: (c ++ '-' :: (d ++ ['-']))), t, by simp, ?_, ?_⟩
  · simp only [List.countP_append, List.countP_cons, List.countP_nil, decide_true, if_true]
    omega
  · simp only [List.forall_mem_append, List.forall_mem_cons]
    exact ⟨fun x hx => hread x (ha x hx), by decide, fun x hx => hread x (hb x hx), by decide,
      fun x hx => hread x (hc x hx), by decide, fun x hx => hread x (hd x hx), by decide, by simp⟩

omit hU in
theorem demands_timestamp :
    (timestamp U).Demands 1 (· = '-') (fun c => U.isDecimal c || c = '-') := by
  rintro ⟨before, rest, g⟩ s' ⟨_, ⟨-, rfl⟩, _, hrow, _, hdash, -⟩
  obtain ⟨y, t, rfl, -, hy, rfl⟩ := ends_times.mp hrow
  obtain ⟨t, rfl, rfl⟩ := ends_word.mp hdash
  refine ⟨y ++ ['-'], t, by simp, by simp, ?_⟩
  rw [List.forall_mem_append, List.forall_mem_singleton]
  exact ⟨fun c hc => by simp [hy c hc], by simp⟩

omit hU in
theorem demands_duration : (duration U).Demands 1 U.isDecimal U.isDecimal := by
  have hopens : (duration U).opens false = U.isDecimal := funext fun _ => opens_duration
  rw [← hopens]
  exact demands_opens rfl

omit hU in
theorem demands_address :
    (address U).Demands 1 (sameLetter 'x') (fun c => sameLetter '0' c || sameLetter 'x' c) := by
  rintro ⟨before, rest, g⟩ s' ⟨_, ⟨-, rfl⟩, _, hmark, -⟩
  obtain ⟨w, t, rfl, hsame, -⟩ := ends_row.mp hmark
  obtain ⟨a, b, rfl, ha, hb⟩ : ∃ a b, w = [a, b] ∧ sameLetter '0' a = true ∧
      sameLetter 'x' b = true := by
    cases hsame with
    | cons ha hsame =>
      cases hsame with
      | cons hb hsame =>
        cases hsame
        exact ⟨_, _, rfl, ha, hb⟩
  refine ⟨[a, b], t, rfl, by simp [hb], ?_⟩
  simp [ha, hb]

omit hU in
theorem demands_filePath :
    (filePath U).Demands 1 (fun c => c = ':' || c = '/')
      (fun c => c.isAlpha || (c = ':' || c = '/')) := by
  rintro ⟨before, rest, g⟩ s' (⟨_, ⟨c, t, hrest, hc, rfl⟩, _, hcolon, -⟩ | ⟨_, hslash, -⟩)
  · obtain ⟨t, rfl, rfl⟩ := ends_word.mp hcolon
    exact ⟨[c, ':'], t, hrest, by simp, by simp [hc]⟩
  · obtain ⟨t, rfl, -⟩ := ends_word.mp hslash
    exact ⟨['/'], t, rfl, by simp, by simp⟩

omit hU in
theorem demands_lineNumber :
    (lineNumber U).Demands 1 (fun c => c = ':' || sameLetter 'l' c)
      (fun c => c = ':' || sameLetter 'l' c) := by
  have hopens : (lineNumber U).opens false = fun c => c = ':' || sameLetter 'l' c :=
    funext fun _ => opens_lineNumber
  rw [← hopens]
  exact demands_opens rfl

/-! ### Where no match goes on

Only a timestamp, a duration and a line number read a blank; behind it they need a time of day, a
unit or a digit. -/

section Sealing

variable {d : Char} {X : Text}

omit hU in
theorem sealed_guid (hd : Text.isSpace d = true) : (guid U).Sealed d X := by
  have hdash : d ≠ '-' := by
    rintro rfl
    exact absurd hd (by decide)
  refine sealed_of_not_reads ?_
  simp [guid, wordEdge, hexRow, word, times, seqs, reads, isHex_of_isSpace hd, hdash]

omit hU in
theorem sealed_address (hd : Text.isSpace d = true) : (address U).Sealed d X := by
  have hzero : sameLetter '0' d = false := sameLetter_of_isSpace (by decide) (by decide) hd
  have hx : sameLetter 'x' d = false := sameLetter_of_isSpace (by decide) (by decide) hd
  refine sealed_of_not_reads ?_
  simp [address, wordEdge, anyCase, plus, seqs, reads, isHex_of_isSpace hd, hzero, hx]

theorem sealed_filePath (hd : Text.isSpace d = true) : (filePath U).Sealed d X := by
  have hmarks : d ≠ ':' ∧ d ≠ '/' ∧ d ≠ '\\' ∧ d ≠ '.' ∧ d ≠ '-' := by
    refine ⟨?_, ?_, ?_, ?_, ?_⟩ <;> rintro rfl <;> exact absurd hd (by decide)
  have halpha : d.isAlpha = false := by
    rw [← Bool.not_eq_true]
    intro h
    rw [not_isSpace_of_isAlpha h] at hd
    cases hd
  refine sealed_of_not_reads ?_
  simp [filePath, word, plus, seqs, reads, isPathChar, hU.blank d hd, hd, hmarks, halpha]

/-- A time of day, with what follows it. -/
def clock (U : Unicode) : Pattern :=
  seqs [decimals U 2, word ":", decimals U 2, word ":", decimals U 2,
    many true (one fun c => !Text.isSpace c)]

omit hU in
/-- A time of day begins with its hours and a colon. -/
theorem clock_stuck (hX : ∀ c ∈ (X.dropWhile U.isDecimal).head?, c ≠ ':') (before : Text)
    (g : List (ℕ × Text)) (s' : Place) : ¬ (clock U).Ends ⟨before, X, g⟩ s' := by
  rintro ⟨_, hrow, _, hcolon, -⟩
  obtain ⟨w, t, rfl, -, hw, rfl⟩ := ends_times.mp hrow
  obtain ⟨t, rfl, -⟩ := ends_word.mp hcolon
  have hmark : U.isDecimal ':' = false := by
    rw [Unicode.isDecimal_ascii (by decide)]
    decide
  refine hX ':' ?_ rfl
  rw [List.dropWhile_append_of_pos hw]
  change (List.dropWhile U.isDecimal (':' :: t)).head? = some ':'
  rw [List.dropWhile_cons_of_neg (by simp [hmark])]
  rfl

theorem sealed_timestamp (hd : Text.isSpace d = true)
    (hX : ∀ c ∈ (X.dropWhile U.isDecimal).head?, c ≠ ':') : (timestamp U).Sealed d X := by
  have hmarks : d ≠ '-' ∧ d ≠ ':' := by
    refine ⟨?_, ?_⟩ <;> rintro rfl <;> exact absurd hd (by decide)
  have hrow : ∀ n, (decimals U n).reads d = false := fun n => reads_times (hU.not_isDecimal hd)
  have hclock : (clock U).Sealed d X := sealed_of_not_reads (by
    simp [clock, decimals, word, times, seqs, reads, hU.not_isDecimal hd, hmarks, hd])
  refine sealed_seqs_cons rfl (sealed_seqs_cons (hrow 4)
    (sealed_seqs_cons ?_ (sealed_seqs_cons (hrow 2)
    (sealed_seqs_cons ?_ (sealed_seqs_cons (hrow 2)
      ⟨trivial, hclock, fun _ => .inr ⟨rfl, clock_stuck hX⟩⟩)))))
  · simp [word, seqs, reads, hmarks.1]
  · simp [word, seqs, reads, hmarks.1]

theorem sealed_duration (hd : Text.isSpace d = true)
    (hX : ∀ c ∈ X.head?, sameLetter 'm' c = false ∧ sameLetter 's' c = false) :
    (duration U).Sealed d X := by
  have hdecimal := hU.not_isDecimal hd
  have hdot : d ≠ '.' := by
    rintro rfl
    exact absurd hd (by decide)
  have hletter : ∀ l ∈ ['m', 's', 'e', 'c', 'o', 'n', 'd'], sameLetter l d = false :=
    fun _ => sameLetter_of_all (by decide) hd
  refine sealed_seqs_cons rfl (sealed_seqs_cons ?_ (sealed_seqs_cons ?_ (sealed_seqs_cons_of_opens
    ⟨trivial, trivial⟩ (sealed_of_not_reads ?_) fun c hc => ?_)))
  · simp [plus, reads, hdecimal]
  · simp [opt, word, plus, seqs, reads, hdecimal, hdot]
  · simp [wordEdge, anyCase, seqs, reads, hletter]
  · simp [wordEdge, anyCase, seqs, opens, nullable, hX c hc]

/-- Behind a blank, a line number needs a digit. -/
theorem sealed_lineNumber (hd : Text.isSpace d = true)
    (hX : ∀ c ∈ X.head?, U.isDecimal c = false ∧ Text.isSpace c = false) :
    (lineNumber U).Sealed d X := by
  have hcolon : d ≠ ':' := by
    rintro rfl
    exact absurd hd (by decide)
  have hletter : ∀ l ∈ ['l', 'i', 'n', 'e'], sameLetter l d = false :=
    fun _ => sameLetter_of_all (by decide) hd
  have hgap : (seqs [plus (one Text.isSpace)]).Sealed d X :=
    sealed_seqs_cons_of_opens (sealed_plus_one fun c hc => (hX c hc).2) trivial fun _ _ => rfl
  refine sealed_seqs_cons_of_opens ⟨sealed_of_not_reads ?_,
    sealed_seqs_cons rfl (sealed_seqs_cons ?_ hgap)⟩
    (sealed_of_not_reads ?_) fun c hc => ?_
  · simp [word, seqs, reads, hcolon]
  · simp [anyCase, seqs, reads, hletter]
  · simp [wordEdge, plus, seqs, reads, hU.not_isDecimal hd]
  · simp [wordEdge, plus, seqs, opens, nullable, (hX c hc).1]

/-- No line number goes on where the word `line` begins. -/
theorem sealed_lineNumber_word (hd : U.isWord d = false)
    (hX : ∀ c ∈ X.head?, sameLetter 'l' c = true) : (lineNumber U).Sealed d X := by
  have hdecimal : U.isDecimal d = false := by
    rw [← Bool.not_eq_true]
    intro h
    rw [hU.decimal d h] at hd
    cases hd
  have hl : ∀ c ∈ X.head?, c = 'l' ∨ c = 'L' := fun c hc => by
    have h := hX c hc
    simp only [sameLetter, Bool.or_eq_true, Bool.and_eq_true, decide_eq_true_eq] at h
    rcases h with (((h | h) | ⟨h, -⟩) | ⟨h, -⟩) | ⟨h, -⟩
    · exact .inl h
    · exact .inr h
    all_goals exact absurd h (by decide)
  have hnot : ∀ q : Char → Bool, q 'l' = false → q 'L' = false → ∀ c ∈ X.head?, q c = false :=
      fun q h h' c hc => by
    rcases hl c hc with rfl | rfl
    · exact h
    · exact h'
  have hdigit : ∀ c ∈ X.head?, U.isDecimal c = false :=
    hnot _ (by rw [Unicode.isDecimal_ascii (by decide)]; decide)
    (by rw [Unicode.isDecimal_ascii (by decide)]; decide)
  have hline : (anyCase "line").Sealed d X :=
    sealed_seqs_cons_of_opens trivial
      (sealed_seqs_cons_of_opens trivial (sealed_seqs_cons_of_opens trivial
      (sealed_seqs_cons_of_opens trivial trivial fun _ _ => rfl)
      (hnot _ (by decide) (by decide))) (hnot _ (by decide) (by decide)))
        (hnot _ (by decide) (by decide))
  have hgap : (seqs [plus (one Text.isSpace)]).Sealed d X :=
    sealed_seqs_cons_of_opens (sealed_plus_one (hnot _ (by decide) (by decide))) trivial fun _ _ =>
      rfl
  refine sealed_seqs_cons_of_opens ⟨sealed_seqs_cons_of_opens trivial trivial fun _ _ => rfl,
    sealed_seqs_cons rfl (sealed_seqs_cons_of_opens hline hgap (hnot _ (by decide) (by decide)))⟩
    (sealed_of_not_reads ?_) fun c hc => ?_
  · simp [wordEdge, plus, seqs, reads, hdecimal]
  · simp [wordEdge, plus, seqs, opens, nullable, hdigit c hc]

end Sealing

/-! ### What a token is read as -/

section Matching

variable {F Y τ : Text}

omit hU in
/-- The edge of a word, behind what is no word character. -/
theorem atBoundary_start {before w t : Text} {g : List (ℕ × Text)} (hne : w ≠ [])
    (hw : ∀ c ∈ w, U.isWord c = true) (hbefore : ∀ d ∈ before.head?, U.isWord d = false) :
    (⟨before, w ++ t, g⟩ : Place).atBoundary U.isWord = true := by
  obtain ⟨c, w, rfl⟩ := List.exists_cons_of_ne_nil hne
  have hc := hw c List.mem_cons_self
  cases before with
  | nil => simp [Place.atBoundary, hc]
  | cons d b => simp [Place.atBoundary, hc, hbefore d rfl]

omit hU in
/-- …and before it. -/
theorem atBoundary_end {before w t : Text} {g : List (ℕ × Text)} (hne : w ≠ [])
    (hw : ∀ c ∈ w, U.isWord c = true) (ht : ∀ d ∈ t.head?, U.isWord d = false) :
    (⟨w.reverse ++ before, t, g⟩ : Place).atBoundary U.isWord = true := by
  obtain ⟨c, v, hv⟩ := List.exists_cons_of_ne_nil (List.reverse_ne_nil_iff.mpr hne)
  have hc := hw c (List.mem_reverse.mp (hv ▸ List.mem_cons_self))
  rw [hv]
  cases t with
  | nil => simp [Place.atBoundary, hc]
  | cons d t => simp [Place.atBoundary, hc, ht d rfl]

theorem not_isWord_of_spaced (hF : Spaced F) :
    ∀ d ∈ F.reverse.head?, U.isWord d = false := fun d hd =>
  hU.blank d (hF d (by rwa [List.head?_reverse] at hd))

theorem parted_of_delimited (hY : Delimited Y) : Parted U Y := fun d hd => hU.blank d (hY d hd)

theorem matchAt_guid (hF : Spaced F) (hY : Delimited Y) (hτ : IsGuid τ) :
    ∃ m, (guid U).matchAt F.reverse (τ ++ Y) = some m ∧ m.rest = Y := by
  obtain ⟨a, b, c, d, e, ha, hb, hc, hd, he, rfl⟩ := hτ
  have hne : ∀ {n w}, IsRow isHex (n + 1) w → w ≠ [] :=
    fun hw => List.length_pos_iff.mp (hw.1 ▸ Nat.succ_pos _)
  have hstart : (⟨F.reverse, a ++ '-' :: (b ++ '-' :: (c ++ '-' :: (d ++ '-' :: (e ++ Y)))), []⟩ :
    Place).atBoundary
      U.isWord = true :=
    atBoundary_start (hne ha) (fun x hx => isWord_of_isHex (ha.2 x hx)) (not_isWord_of_spaced hU hF)
  have hstop : ∀ before, (⟨e.reverse ++ before, Y, []⟩ : Place).atBoundary U.isWord
      = true := fun before =>
    atBoundary_end (hne he) (fun x hx => isWord_of_isHex (he.2 x hx)) (parted_of_delimited hU hY)
  simp only [List.append_assoc, List.cons_append]
  rw [matchAt, guid]
  simp only [run_seqs_cons, run_seqs_nil, wordEdge, hexRow, run_boundary hstart,
    run_times ha.1 ha.2, run_times hb.1 hb.2, run_times hc.1 hc.2, run_times hd.1 hd.2,
    run_times he.1 he.2, run_boundary (hstop _), run_mark (t := "-") (c := '-') rfl]
  exact ⟨_, rfl, rfl⟩

theorem matchAt_timestamp (hF : Spaced F) (hY : Delimited Y) (hτ : IsDated U τ) :
    ∃ m, (timestamp U).matchAt F.reverse (τ ++ Y) = some m ∧ m.rest = Y := by
  obtain ⟨y, mo, d, sep, h, m, s, tail, hy, hmo, hd, hsep, hh, hm, hs, htail, -, rfl⟩ := hτ
  have hne : y ≠ [] := List.length_pos_iff.mp (hy.1 ▸ Nat.succ_pos _)
  have hstart : ∀ t, (⟨F.reverse, y ++ t, []⟩ : Place).atBoundary U.isWord = true := fun t =>
    atBoundary_start hne (fun c hc => hU.decimal c (hy.2 c hc)) (not_isWord_of_spaced hU hF)
  have hmiddle : (decide (sep = 'T') || decide (sep = ' ')) = true := by
    rcases hsep with rfl | rfl <;> rfl
  have hread : ∀ c ∈ tail, (!Text.isSpace c) = true := fun c hc => by rw [htail c hc]; rfl
  have hbehind : ∀ c ∈ Y.head?, (!Text.isSpace c) = false := fun c hc => by rw [hY c hc]; rfl
  have hsep' : ∀ {k : Place → Option Place} {b t : Text} {g : List (ℕ × Text)},
      (one fun c => decide (c = 'T') || decide (c = ' ')).run k ⟨b, sep :: t, g⟩
      = k ⟨sep :: b, t, g⟩ :=
    run_one_cons hmiddle
  simp only [List.append_assoc, List.cons_append]
  rw [matchAt, timestamp]
  simp only [run_seqs_cons, wordEdge, decimals, run_boundary (hstart _), run_times hy.1 hy.2,
    run_times hmo.1 hmo.2, run_times hd.1 hd.2, run_times hh.1 hh.2, run_times hm.1 hm.2,
    run_times hs.1 hs.2, run_mark (t := "-") (c := '-') rfl,
    run_mark (t := ":") (c := ':') rfl, hsep']
  exact ⟨_, run_many_greedy hread hbehind rfl, rfl⟩

omit hU in
theorem sameLetter_ms {c : Char} (h : sameLetter 's' c = true) : sameLetter 'm' c = false := by
  simp only [sameLetter, Bool.or_eq_true, Bool.and_eq_true, decide_eq_true_eq] at h
  rcases h with (((rfl | rfl) | ⟨h, -⟩) | ⟨-, h⟩) | ⟨h, -⟩
  · decide
  · decide
  · exact absurd h (by decide)
  · rw [← Bool.not_eq_true]
    intro hm
    simp only [sameLetter, Bool.or_eq_true, Bool.and_eq_true, decide_eq_true_eq] at hm
    rcases hm with (((rfl | rfl) | ⟨hm, -⟩) | ⟨hm, -⟩) | ⟨hm, -⟩
    · exact absurd h (by decide)
    · exact absurd h (by decide)
    all_goals exact absurd hm (by decide)
  · exact absurd h (by decide)

omit hU in
/-- Of the three units the one that ends with the word is read. -/
theorem run_unit {b w : Text} {g : List (ℕ × Text)} (hw : IsUnit U w) (hY : Parted U Y) :
    ∃ m, (seqs [group 2 (alt (anyCase "ms") (alt (anyCase "s") (anyCase "seconds"))),
      wordEdge U]).run some ⟨b, w ++ Y, g⟩ = some m ∧ m.rest = Y := by
  obtain ⟨⟨unit, hunit, hsame⟩, hword⟩ := hw
  have hne : w ≠ [] := by
    rintro rfl
    have hnil : unit.toList = [] := List.forall₂_nil_right_iff.mp hsame
    simp only [List.mem_cons, List.not_mem_nil, or_false] at hunit
    rcases hunit with rfl | rfl | rfl <;> cases hnil
  have hedge : ∀ s : Place, (wordEdge U).run some (Place.close 2 s ⟨w.reverse ++ b, Y, g⟩)
      = some (Place.close 2 s ⟨w.reverse ++ b, Y, g⟩) := fun s =>
    run_boundary (atBoundary_end hne hword hY)
  have hread : ∀ k : Place → Option Place, (anyCase unit).run k ⟨b, w ++ Y, g⟩
      = k ⟨w.reverse ++ b, Y, g⟩ := fun k => run_literal hsame
  rw [run_seqs_cons, run, run]
  refine ⟨Place.close 2 ⟨b, w ++ Y, g⟩ ⟨w.reverse ++ b, Y, g⟩, ?_, rfl⟩
  simp only [List.mem_cons, List.not_mem_nil, or_false] at hunit
  rcases hunit with rfl | rfl | rfl
  · rw [hread, run_seqs_cons, show (seqs []).run some = some from rfl, hedge]
    rfl
  · have hnot : ∀ k : Place → Option Place, (anyCase "ms").run k ⟨b, w ++ Y, g⟩
        = none := fun k => by
      obtain ⟨c, -, hc, hnil, rfl⟩ := List.forall₂_cons_left_iff.mp hsame
      exact run_literal_of_not fun x hx => by
        obtain rfl := Option.some.inj hx
        exact sameLetter_ms hc
    rw [hnot, Option.none_or, run, hread, run_seqs_cons,
      show (seqs []).run some = some from rfl, hedge]
    rfl
  · obtain ⟨c, u, hc, hsame', rfl⟩ := List.forall₂_cons_left_iff.mp hsame
    obtain ⟨d, v, -, -, rfl⟩ := List.forall₂_cons_left_iff.mp hsame'
    have hnot : ∀ k : Place → Option Place, (anyCase "ms").run k ⟨b, c :: d :: v ++ Y, g⟩
        = none := fun k =>
      run_literal_of_not fun x hx => by
        obtain rfl := Option.some.inj hx
        exact sameLetter_ms hc
    -- behind the first letter the word goes on
    have hinside : ∀ s : Place, (wordEdge U).run some (Place.close 2 s ⟨c :: b, d :: (v ++ Y), g⟩)
        = none :=
      fun s => if_neg (by
        have hin : U.isWord c = true ∧ U.isWord d = true := ⟨hword c (by simp), hword d (by simp)⟩
        simp [Place.atBoundary, Place.close, hin])
    have hs : ∀ k : Place → Option Place, (anyCase "s").run k ⟨b, c :: d :: v ++ Y, g⟩
        = k ⟨c :: b, d :: (v ++ Y), g⟩ := fun k => run_literal (w := [c]) (.cons hc .nil)
    rw [hnot, Option.none_or, run, hs, run_seqs_cons,
      show (seqs []).run some = some from rfl, hinside, Option.none_or, hread, run_seqs_cons,
      show (seqs []).run some = some from rfl, hedge]

/-- What a unit begins with. -/
theorem head_of_unit {w : Text} (hw : IsUnit U w) :
    ∀ c ∈ (w ++ Y).head?, U.isDecimal c = false ∧ Text.isSpace c = false ∧ c ≠ '.' ∧ c ≠ ':' := by
  obtain ⟨⟨unit, hunit, hsame⟩, -⟩ := hw
  obtain ⟨a, as, ha, hletter⟩ : ∃ a as, unit.toList = a :: as ∧ (a = 'm' ∨ a = 's') := by
    simp only [List.mem_cons, List.not_mem_nil, or_false] at hunit
    rcases hunit with rfl | rfl | rfl
    · exact ⟨'m', ['s'], rfl, .inl rfl⟩
    · exact ⟨'s', [], rfl, .inr rfl⟩
    · exact ⟨'s', "econds".toList, rfl, .inr rfl⟩
  rw [ha] at hsame
  obtain ⟨c, u, hc, -, rfl⟩ := List.forall₂_cons_left_iff.mp hsame
  intro x hx
  obtain rfl := Option.some.inj hx
  have halpha : a.isAlpha = true ∧ Text.isSpace a = false ∧ Text.isSpace a.toUpper = false ∧
      sameLetter a '.' = false ∧ sameLetter a ':' = false := by
    rcases hletter with rfl | rfl <;> decide
  obtain ⟨halpha, hlower, hupper, hdot, hcolon⟩ := halpha
  refine ⟨hU.letter a c halpha hc, not_isSpace_of_sameLetter hlower hupper hc, ?_, ?_⟩
    <;> rintro rfl
  · rw [hc] at hdot
    cases hdot
  · rw [hc] at hcolon
    cases hcolon

theorem matchAt_duration (hF : Spaced F) (hY : Parted U Y) (hτ : IsTimed U τ) :
    ∃ m, (duration U).matchAt F.reverse (τ ++ Y) = some m ∧ m.rest = Y := by
  obtain ⟨ds, f, gap, w, hds, hf, hgap, hw, rfl⟩ := hτ
  have hstart : ∀ t, (⟨F.reverse, ds ++ t, []⟩ : Place).atBoundary U.isWord = true := fun t =>
    atBoundary_start hds.1 (fun c hc => hU.decimal c (hds.2 c hc)) (not_isWord_of_spaced hU hF)
  have hletter := head_of_unit (Y := Y) hU hw
  have hblank : ∀ c ∈ (gap ++ (w ++ Y)).head?, U.isDecimal c = false ∧ c ≠ '.' := fun c hc => by
    rcases hgap with rfl | ⟨b, hb, rfl⟩
    · exact ⟨(hletter c hc).1, (hletter c hc).2.2.1⟩
    · obtain rfl := Option.some.inj hc
      refine ⟨hU.not_isDecimal hb, ?_⟩
      rintro rfl
      exact absurd hb (by decide)
  -- behind the number comes the unit, with or without a blank before it
  have hrest : ∀ b g, ∃ m, (seqs [opt (one Text.isSpace),
    group 2 (alt (anyCase "ms") (alt (anyCase "s")
      (anyCase "seconds"))), wordEdge U]).run some ⟨b, gap ++ (w ++ Y), g⟩ = some m ∧
        m.rest = Y := fun b g => by
    rcases hgap with rfl | ⟨c, hc, rfl⟩
    · obtain ⟨m, hm, hend⟩ := run_unit (b := b) (g := g) hw hY
      refine ⟨m, ?_, hend⟩
      have hgap : (opt (one Text.isSpace)).run
        ((seqs [group 2 (alt (anyCase "ms") (alt (anyCase "s")
          (anyCase "seconds"))), wordEdge U]).run some) ⟨b, w ++ Y, g⟩ = some m :=
        (run_opt_of_none (run_one_of_not fun c hc => (hletter c hc).2.1)).trans hm
      exact hgap
    · obtain ⟨m, hm, hend⟩ := run_unit (b := c :: b) (g := g) hw hY
      refine ⟨m, ?_, hend⟩
      rw [run_seqs_cons]
      exact run_opt_of_some ((run_one_cons hc).trans hm)
  have hread : ∃ m, (seqs [opt (group 1 (seqs [word ".", plus (one U.isDecimal)])),
    opt (one Text.isSpace), group 2 (alt (anyCase "ms") (alt (anyCase "s") (anyCase "seconds"))),
    wordEdge U]).run some
      ⟨ds.reverse ++ F.reverse, f ++ (gap ++ (w ++ Y)), []⟩ = some m ∧ m.rest = Y := by
    rcases hf with rfl | ⟨fs, hfs, rfl⟩
    · obtain ⟨m, hm, hend⟩ := hrest (ds.reverse ++ F.reverse) []
      refine ⟨m, ?_, hend⟩
      rw [run_seqs_cons, run_opt_of_none]
      · exact hm
      · refine run_eq_none fun _ => not_ends_of_opens rfl fun c hc => ?_
        have hdot := (hblank c hc).2
        simp [word, seqs, opens, nullable, hdot]
    · obtain ⟨m, hm, hend⟩ := hrest (fs.reverse ++ '.' :: (ds.reverse ++ F.reverse))
        [(1, ('.' :: fs ++ (gap ++ (w ++ Y))).take (('.' :: fs ++ (gap ++ (w ++ Y))).length
          - (gap ++ (w ++ Y)).length))]
      refine ⟨m, ?_, hend⟩
      rw [run_seqs_cons]
      refine run_opt_of_some ?_
      rw [run, run_seqs_cons, List.cons_append, run_mark (t := ".") (c := '.') rfl, run_seqs_cons]
      exact run_plus hfs.1 hfs.2 (fun c hc => (hblank c hc).1) hm
  obtain ⟨m, hm, hend⟩ := hread
  refine ⟨m, ?_, hend⟩
  rw [List.append_assoc, List.append_assoc, List.append_assoc, matchAt, duration,
    run_seqs_cons, wordEdge, run_boundary (hstart _), run_seqs_cons]
  refine run_plus hds.1 hds.2 (fun c hc => ?_) hm
  rcases hf with rfl | ⟨fs, -, rfl⟩
  · exact (hblank c hc).1
  · obtain rfl := Option.some.inj hc
    exact (Unicode.isDecimal_ascii (by decide)).trans (by decide)

/-- The word `line`, a gap and a number are read as a line number. -/
theorem matchAt_lineNumber {G l gap : Text} (hG : ∀ c ∈ G.getLast?, U.isWord c = false)
    (hl : List.Forall₂ (fun a c => sameLetter a c = true) "line".toList l) (hne : gap ≠ [])
    (hgap : ∀ c ∈ gap, Text.isSpace c = true) (hτ : IsNumber U τ) (hY : Delimited Y) :
    ∃ m, (lineNumber U).matchAt G.reverse (l ++ (gap ++ (τ ++ Y))) = some m ∧ m.rest = Y := by
  obtain ⟨c, w, rfl, hc⟩ : ∃ c w, l = c :: w ∧ sameLetter 'l' c = true := by
    cases hl with
    | cons hc _ => exact ⟨_, _, rfl, hc⟩
  have hl' : c = 'l' ∨ c = 'L' := by
    simp only [sameLetter, Bool.or_eq_true, Bool.and_eq_true, decide_eq_true_eq] at hc
    rcases hc with (((h | h) | ⟨h, -⟩) | ⟨h, -⟩) | ⟨h, -⟩
    · exact .inl h
    · exact .inr h
    all_goals exact absurd h (by decide)
  have hword : U.isWord c = true := by
    rcases hl' with rfl | rfl <;> rw [U.isWord_ascii _ (by decide)] <;> rfl
  have hcolon : ∀ k : Place → Option Place,
      (word ":").run k ⟨G.reverse, c :: w ++ (gap ++ (τ ++ Y)), []⟩ = none :=
    fun _ => run_eq_none fun _ => not_ends_of_opens rfl (by
      rcases hl' with rfl | rfl <;> simp [word, seqs, opens, nullable])
  have hstart : (⟨G.reverse, c :: w ++ (gap ++ (τ ++ Y)), []⟩ : Place).atBoundary U.isWord = true :=
    atBoundary_start (w := [c]) (List.cons_ne_nil c []) (by simpa using hword)
      fun d hd => hG d (by rwa [List.head?_reverse] at hd)
  have hstop : ∀ b, (⟨τ.reverse ++ b, Y, []⟩ : Place).atBoundary U.isWord = true := fun b =>
    atBoundary_end hτ.1 (fun x hx => hU.decimal x (hτ.2 x hx)) (parted_of_delimited hU hY)
  refine ⟨⟨τ.reverse ++ (gap.reverse ++ ((c :: w).reverse ++ G.reverse)), Y, []⟩, ?_, rfl⟩
  rw [matchAt, lineNumber, run_seqs_cons, run, hcolon, Option.none_or, run_seqs_cons, wordEdge,
    run_boundary hstart, run_seqs_cons, anyCase, run_literal hl, run_seqs_cons]
  refine run_plus hne hgap (fun x hx => ?_) ?_
  · obtain ⟨y, ys, rfl⟩ := List.exists_cons_of_ne_nil hτ.1
    obtain rfl : y = x := by simpa using hx
    exact hU.not_isSpace (hτ.2 y List.mem_cons_self)
  rw [run_seqs_nil, run_seqs_cons]
  refine run_plus hτ.1 hτ.2 (fun x hx => hU.not_isDecimal (hY x hx)) ?_
  rw [run_seqs_cons, run_boundary (hstop _)]
  rfl

/-- A unit is read letter by letter, and begins neither with a digit nor with a blank. -/
theorem ends_unit {s v : Place}
    (h : (alt (anyCase "ms") (alt (anyCase "s") (anyCase "seconds"))).Ends s v) :
    (∃ unit ∈ ["ms", "s", "seconds"], ∃ w t, s.rest = w ++ t ∧ w ≠ [] ∧
        List.Forall₂ (fun a c => sameLetter a c = true) unit.toList w ∧
        v = ⟨w.reverse ++ s.before, t, s.groups⟩) ∧
      ∃ c ∈ s.rest.head?, U.isDecimal c = false ∧ Text.isSpace c = false := by
  obtain ⟨unit, hunit, hends⟩ : ∃ unit ∈ ["ms", "s", "seconds"], (anyCase unit).Ends s v := by
    rcases h with h | h | h
    · exact ⟨"ms", by simp, h⟩
    · exact ⟨"s", by simp, h⟩
    · exact ⟨"seconds", by simp, h⟩
  obtain ⟨w, t, hrest, hsame, hv⟩ := ends_row.mp hends
  obtain ⟨a, as, ha, hlower, hupper, halpha⟩ : ∃ a as, unit.toList = a :: as ∧
    Text.isSpace a = false ∧ Text.isSpace a.toUpper = false ∧ a.isAlpha = true := by
    simp only [List.mem_cons, List.not_mem_nil, or_false] at hunit
    rcases hunit with rfl | rfl | rfl
    · exact ⟨'m', ['s'], rfl, by decide, by decide, by decide⟩
    · exact ⟨'s', [], rfl, by decide, by decide, by decide⟩
    · exact ⟨'s', "econds".toList, rfl, by decide, by decide, by decide⟩
  obtain ⟨c, w, rfl, hc⟩ : ∃ c u, w = c :: u ∧ sameLetter a c = true := by
    rw [ha] at hsame
    cases hsame with
    | cons hc _ => exact ⟨_, _, rfl, hc⟩
  exact ⟨⟨unit, hunit, c :: w, t, hrest, List.cons_ne_nil c w, hsame, hv⟩, c, by rw [hrest]; rfl,
    hU.letter a c halpha hc, not_isSpace_of_sameLetter hlower hupper hc⟩

omit hU in
/-- The edge of a word depends on the characters next to it. -/
theorem atBoundary_append {w b t : Text} {g : List (ℕ × Text)} (hw : w ≠ []) :
    (⟨w ++ b, t, g⟩ : Place).atBoundary U.isWord = (⟨w, t, []⟩ : Place).atBoundary U.isWord := by
  obtain ⟨c, w, rfl⟩ := List.exists_cons_of_ne_nil hw
  rfl

/-- A number that no unit follows is no duration. -/
theorem quiet_duration {before : Text} (hτ : ∀ c ∈ τ, U.isDecimal c = true) (hY : Delimited Y)
    (hnot : ¬ BeginsWithUnit U Y) : (duration U).Quiet before τ Y := by
  induction τ generalizing before with
  | nil => trivial
  | cons c τ ih =>
    refine ⟨run_eq_none ?_, ih fun x hx => hτ x (List.mem_cons_of_mem c hx)⟩
    rintro s' ⟨_, ⟨-, rfl⟩, _, hdigits, u, hfraction, u', hspace, _, ⟨v, hletters, rfl⟩,
      _, ⟨hedge, -⟩, -⟩
    obtain ⟨w, t, hrest, -, hw, rfl⟩ := ends_plus_one.mp hdigits
    obtain ⟨τ', hτ'⟩ : w <+: c :: τ :=
      prefix_of_append_eq hrest hw (.inl fun x hx => hU.not_isDecimal (hY x hx))
    obtain rfl : t = τ' ++ Y := by
      have hsplit : w ++ t = w ++ (τ' ++ Y) := by
        rw [← List.append_assoc, hτ']
        exact hrest.symm
      exact List.append_cancel_left hsplit
    -- behind the digits read comes another digit, or the text behind the number
    have hhead : ∀ x ∈ (τ' ++ Y).head?, U.isDecimal x = true ∨ Text.isSpace x = true ∧
        τ' = [] := fun x hx => by
      cases τ' with
      | nil => exact .inr ⟨hY x hx, rfl⟩
      | cons y τ' =>
        obtain rfl : y = x := by simpa using hx
        exact .inl (hτ y (hτ' ▸ by simp))
    rcases hfraction with ⟨_, ⟨_, hdot, -⟩, -⟩ | rfl
    · obtain ⟨t, ht, -⟩ := ends_word.mp hdot
      rcases hhead '.' (by rw [show τ' ++ Y = '.' :: t from ht]; rfl) with h | ⟨h, -⟩
      · rw [Unicode.isDecimal_ascii (by decide)] at h
        exact absurd h (by decide)
      · exact absurd h (by decide)
    obtain ⟨⟨unit, hunit, x, y, hx, hne, hsame, rfl⟩, z, hz, hdecimal, hblank⟩ :=
      ends_unit hU hletters
    rcases hspace with ⟨b, t, ht, hb, rfl⟩ | rfl
    · rcases hhead b (by rw [show τ' ++ Y = b :: t from ht]; rfl) with h | ⟨-, rfl⟩
      · rw [hU.not_isSpace h] at hb
        cases hb
      · obtain rfl : t = x ++ y := hx
        refine hnot ⟨b, x, y, ht, hb, ⟨unit, hunit, hsame⟩, ?_⟩
        rw [← hedge]
        exact (atBoundary_append (List.reverse_ne_nil_iff.mpr hne)).symm
    · rcases hhead z hz with h | ⟨h, -⟩
      · rw [hdecimal] at h
        cases h
      · rw [hblank] at h
        cases h

/-! ### Tokens that stay -/

omit hU in
theorem stays {p : Pattern} {n : ℕ} {q r : Char → Bool} (new : Text) (hdemands : p.Demands n q r)
    (hF : ∀ d, F.getLast? = some d → p.Sealed d (τ ++ Y)) (hstop : Stops r τ Y)
    (hfresh : p.Fresh (τ.reverse ++ F.reverse) Y) (hτ : τ.countP q < n) :
    p.sub new (F ++ (τ ++ Y)) = p.sub new F ++ (τ ++ p.sub new Y) :=
  sub_stays hF (quiet_of_demands hdemands hstop hτ) hfresh

omit hU in
theorem countP_number {q : Char → Bool} (hq : ∀ c, U.isDecimal c = true → q c = false)
    (hτ : ∀ c ∈ τ, U.isDecimal c = true) : τ.countP q = 0 :=
  List.countP_eq_zero.mpr fun c hc => Bool.not_eq_true _ ▸ hq c (hτ c hc)

omit hU in
theorem not_mark_of_isDecimal {a : Char} (ha : a.toNat < 128) (hnot : a.isDigit = false) (c : Char)
    (hc : U.isDecimal c = true) : decide (c = a) = false := by
  rw [decide_eq_false_iff_not]
  rintro rfl
  rw [Unicode.isDecimal_ascii ha, hnot] at hc
  cases hc

omit hU in
theorem countP_fraction (hτ : IsFraction U τ) : τ.countP (· = '-') = 0 := by
  rcases hτ with rfl | ⟨ds, hds, rfl⟩
  · rfl
  · rw [List.countP_cons_of_neg (by decide)]
    exact countP_number (not_mark_of_isDecimal (by decide) (by decide)) hds.2

omit hU in
theorem countP_dated (hτ : IsDated U τ) : τ.countP (· = '-') < 4 := by
  obtain ⟨y, mo, d, sep, h, m, s, tail, hy, hmo, hd, hsep, hh, hm, hs, -, htail, rfl⟩ := hτ
  have hrow : ∀ {n w}, IsRow U.isDecimal n w → w.countP (· = '-') = 0 := fun hw =>
    countP_number (not_mark_of_isDecimal (by decide) (by decide)) hw.2
  have hmiddle : decide (sep = '-') = false := by
    rcases hsep with rfl | rfl <;> rfl
  simp only [List.countP_append, List.countP_cons, hrow hy, hrow hmo, hrow hd, hrow hh,
    hrow hm, hrow hs, hmiddle, decide_true, if_true]
  rw [show decide (':' = '-') = false from rfl]
  simp only [Bool.false_eq_true, if_false]
  omega

omit hU in
/-- A unit ends in `s`. -/
theorem exists_last_of_timed (hτ : IsTimed U τ) : ∃ d ∈ τ.getLast?, sameLetter 's' d = true := by
  obtain ⟨ds, f, gap, w, -, -, -, ⟨⟨unit, hunit, hsame⟩, -⟩, rfl⟩ := hτ
  obtain ⟨as, has⟩ : ∃ as, unit.toList.reverse = 's' :: as := by
    simp only [List.mem_cons, List.not_mem_nil, or_false] at hunit
    rcases hunit with rfl | rfl | rfl <;> exact ⟨_, rfl⟩
  rw [← List.forall₂_reverse_iff, has] at hsame
  obtain ⟨d, v, hd, -, hw⟩ := List.forall₂_cons_left_iff.mp hsame
  have hlast : w.getLast? = some d := by rw [← List.head?_reverse, hw]; rfl
  refine ⟨d, ?_, hd⟩
  simp only [List.getLast?_append, hlast, Option.some_or, Option.mem_some]

omit hU in
theorem countP_timed (hτ : IsTimed U τ) : τ.countP (· = '-') = 0 := by
  obtain ⟨ds, f, gap, w, hds, hf, hgap, ⟨⟨unit, hunit, hsame⟩, -⟩, rfl⟩ := hτ
  have hblank : gap.countP (· = '-') = 0 := by
    rcases hgap with rfl | ⟨c, hc, rfl⟩
    · rfl
    · rw [List.countP_eq_zero]
      rintro x hx hdash
      obtain rfl := List.mem_singleton.mp hx
      obtain rfl := of_decide_eq_true hdash
      exact absurd hc (by decide)
  have hletters : (unit.toList.all fun l => !sameLetter l '-') = true := by
    simp only [List.mem_cons, List.not_mem_nil, or_false] at hunit
    rcases hunit with rfl | rfl | rfl <;> decide
  have hunit : w.countP (· = '-') = 0 := by
    rw [List.countP_eq_zero]
    rintro x hx hdash
    obtain rfl := of_decide_eq_true hdash
    obtain ⟨l, hl, hlx⟩ := exists_letter hsame hx
    have hnot := List.all_eq_true.mp hletters l hl
    rw [hlx] at hnot
    cases hnot
  rw [List.countP_append, List.countP_append, List.countP_append, hblank, hunit, countP_fraction hf,
    countP_number (not_mark_of_isDecimal (by decide) (by decide)) hds.2]

end Matching

/-! ### Rule by rule -/

/-- The rule treats every token by itself, and leaves it as the next rule finds it. -/
def Treats (U : Unicode) (n : ℕ) (p : Pattern) (new : String) : Prop :=
  ∀ k F τ Y, Standing U n k F τ Y → Spaced F →
    ∃ τ', p.sub new.toList (F ++ (τ ++ Y)) = p.sub new.toList F ++ (τ' ++ p.sub new.toList Y) ∧
      Standing U (n + 1) k (p.sub new.toList F) τ' (p.sub new.toList Y)

section Treating

variable {F Y τ : Text} {p : Pattern} {n : ℕ} {q r : Char → Bool} {new : Text}

omit hU in
/-- A token before a blank stays. -/
theorem stays_delimited (hp : p.Steady) (hdemands : p.Demands n q r)
    (hr : ∀ c, Text.isSpace c = true → r c = false)
    (hF : ∀ d, F.getLast? = some d → p.Sealed d (τ ++ Y)) (hY : Delimited Y) (hτ : τ.countP q < n) :
    p.sub new (F ++ (τ ++ Y)) = p.sub new F ++ (τ ++ p.sub new Y) :=
  stays new hdemands hF (.inl fun c hc => hr c (hY c hc)) (hp.fresh hY) hτ

omit hU in
/-- What an earlier rule wrote stays, whatever follows it. -/
theorem stays_tag (hblind : p.Blind '>') (hdemands : p.Demands n q r) (hr : r '>' = false)
    (hF : ∀ d, F.getLast? = some d → p.Sealed d (τ ++ Y)) (hlast : τ.getLast? = some '>')
    (hτ : τ.countP q < n) : p.sub new (F ++ (τ ++ Y)) = p.sub new F ++ (τ ++ p.sub new Y) :=
  stays new hdemands hF (.inr ⟨'>', hlast, hr⟩) (fresh_of_getLast? hlast hblind) hτ

omit hU in
/-- A duration stays where the rule neither ends in a unit nor begins with what follows it. -/
theorem stays_timed (hnull : p.nullable = false) (hdemands : p.Demands n q r)
    (hr : ∀ c, sameLetter 's' c = true → r c = false)
    (hopens : ∀ c, U.isWord c = false → p.opens false c = false)
    (hF : ∀ d, F.getLast? = some d → p.Sealed d (τ ++ Y)) (hkind : IsTimed U τ) (hY : Parted U Y)
    (hτ : τ.countP q < n) : p.sub new (F ++ (τ ++ Y)) = p.sub new F ++ (τ ++ p.sub new Y) := by
  obtain ⟨d, hd, hs⟩ := exists_last_of_timed hkind
  exact stays new hdemands hF (.inr ⟨d, hd, hr d hs⟩) (fresh_of_opens hnull fun c hc =>
    hopens c (hY c hc)) hτ

omit hU in
/-- No rule puts a word behind a token. -/
theorem parted_sub (hY : Parted U Y) (hnew : ∃ t, new = '<' :: t) : Parted U (p.sub new Y) := by
  obtain ⟨t, rfl⟩ := hnew
  intro c hc
  rcases head?_sub hc with h | h | h
  · exact hY c h
  · obtain rfl := Option.some.inj h
    exact (U.isWord_ascii _ (by decide)).trans (by decide)
  · cases h

omit hU in
theorem not_isWord_tag : U.isWord '>' = false := (U.isWord_ascii _ (by decide)).trans (by decide)

omit hU in
theorem isDecimal_tag : U.isDecimal '>' = false :=
  (Unicode.isDecimal_ascii (by decide)).trans (by decide)

theorem not_isDecimal_of_not_isWord {c : Char}
    (h : U.isWord c = false) : U.isDecimal c = false := by
  rw [← Bool.not_eq_true]
  intro hdecimal
  rw [hU.decimal c hdecimal] at h
  cases h

omit hU in
/-- The last letter of a unit is no digit. -/
theorem not_isHex_of_unit {c : Char}
    (h : sameLetter 's' c = true) : (isHex c || c = '-') = false := by
  rw [← Bool.not_eq_true, Bool.or_eq_true, not_or]
  simp only [sameLetter, Bool.or_eq_true, Bool.and_eq_true, decide_eq_true_eq] at h
  rcases h with (((rfl | rfl) | ⟨h, -⟩) | ⟨-, h⟩) | ⟨h, -⟩
  · decide
  · decide
  · exact absurd h (by decide)
  · refine ⟨fun hhex => ?_, fun hdash => ?_⟩
    · have hrange := toNat_of_isHex hhex
      omega
    · obtain rfl := of_decide_eq_true hdash
      exact absurd h (by decide)
  · exact absurd h (by decide)

theorem treats_guid : Treats U 0 (guid U) "<guid>" := by
  intro k F τ Y hτ hF
  have hseal : ∀ d, F.getLast? = some d → (guid U).Sealed d (τ ++ Y) :=
    fun d hd => sealed_guid (hF d hd)
  have hblank : ∀ c, Text.isSpace c = true → (isHex c || decide (c = '-')) = false := fun c hc => by
    rw [isHex_of_isSpace hc, Bool.false_or, decide_eq_false_iff_not]
    rintro rfl
    exact absurd hc (by decide)
  cases k with
  | guid =>
    obtain ⟨hkind, hY⟩ : IsGuid τ ∧ Delimited Y := hτ
    obtain ⟨m, hm, hrest⟩ := matchAt_guid hU hF hY hkind
    have hne : τ ≠ [] := by
      obtain ⟨a, b, c, d, e, -, -, -, -, -, rfl⟩ := hkind
      simp
    exact ⟨_, sub_goes hseal hm hrest hne (steady_guid.fresh hY), rfl⟩
  | timestamp =>
    obtain ⟨hkind, hY⟩ : IsDated U τ ∧ Delimited Y := hτ
    exact ⟨τ, stays_delimited steady_guid demands_guid hblank hseal hY (countP_dated hkind), hkind,
      steady_guid.delimited_sub hY⟩
  | duration =>
    obtain ⟨hkind, hY⟩ : IsTimed U τ ∧ Parted U Y := hτ
    have hopens : ∀ c, U.isWord c = false → (guid U).opens false c = false := fun c hc => by
      rw [opens_guid, ← Bool.not_eq_true]
      intro hhex
      rw [isWord_of_isHex hhex] at hc
      cases hc
    exact ⟨τ, stays_timed rfl demands_guid (fun _ => not_isHex_of_unit) hopens hseal hkind hY
      (by rw [countP_timed hkind]; decide), hkind, parted_sub hY ⟨_, rfl⟩⟩
  | elapsed => exact hτ.elim
  | lineNumber =>
    obtain ⟨hnumber, hline, hY, hunit⟩ := hτ
    have hnone : τ.countP (· = '-') < 4 := by
      rw [countP_number (not_mark_of_isDecimal (by decide) (by decide)) hnumber.2]
      decide
    exact ⟨τ, stays_delimited steady_guid demands_guid hblank hseal hY hnone, hnumber, hline,
      steady_guid.delimited_sub hY, fun _ => hunit (by decide)⟩

omit hU in
/-- Digits are the hours of a time of day only before a colon. -/
theorem clock_number {w Z : Text} (hw : ∀ c ∈ w, U.isDecimal c = true)
    (hZ : ∀ c ∈ Z.head?, U.isDecimal c = false ∧ c ≠ ':') :
    ∀ c ∈ ((w ++ Z).dropWhile U.isDecimal).head?, c ≠ ':' := by
  rw [List.dropWhile_append_of_pos hw]
  cases Z with
  | nil => simp
  | cons c Z =>
    have hc := hZ c rfl
    rw [List.dropWhile_cons_of_neg (by simp [hc.1])]
    intro x hx
    obtain rfl : c = x := Option.some.inj hx
    exact hc.2

theorem head_delimited (hY : Delimited Y) : ∀ c ∈ Y.head?, U.isDecimal c = false ∧
    c ≠ ':' := fun c hc => by
  refine ⟨hU.not_isDecimal (hY c hc), ?_⟩
  rintro rfl
  exact absurd (hY _ hc) (by decide)

omit hU in
theorem head_mark {a : Char} {Z : Text} (ha : a.toNat < 128) (hnot : a.isDigit = false)
    (hcolon : a ≠ ':') :
    ∀ c ∈ (a :: Z).head?, U.isDecimal c = false ∧ c ≠ ':' := fun c hc => by
  obtain rfl : a = c := Option.some.inj hc
  exact ⟨(Unicode.isDecimal_ascii ha).trans hnot, hcolon⟩

/-- The number of a duration is the hours of no time of day. -/
theorem clock_timed (hτ : IsTimed U τ) : ∀ c ∈ ((τ ++ Y).dropWhile U.isDecimal).head?, c ≠ ':' := by
  obtain ⟨ds, f, gap, w, hds, hf, hgap, hw, rfl⟩ := hτ
  rw [List.append_assoc]
  refine clock_number hds.2 fun c hc => ?_
  rcases hf with rfl | ⟨fs, -, rfl⟩
  · rcases hgap with rfl | ⟨b, hb, rfl⟩
    · have hletter := head_of_unit (Y := Y) hU hw c hc
      exact ⟨hletter.1, hletter.2.2.2⟩
    · exact head_delimited hU (Y := [b]) (fun x hx => by
        obtain rfl := Option.some.inj hx; exact hb) c hc
  · exact head_mark (by decide) (by decide) (by decide) c hc

theorem treats_timestamp : Treats U 1 (timestamp U) "<timestamp>" := by
  intro k F τ Y hτ hF
  have hdash : ∀ c, U.isDecimal c = true → decide (c = '-') = false :=
    not_mark_of_isDecimal (by decide) (by decide)
  have hblank : ∀ c, Text.isSpace c = true →
      (U.isDecimal c || decide (c = '-')) = false := fun c hc => by
    rw [hU.not_isDecimal hc, Bool.false_or, decide_eq_false_iff_not]
    rintro rfl
    exact absurd hc (by decide)
  have hseal : (∀ c ∈ ((τ ++ Y).dropWhile U.isDecimal).head?, c ≠ ':') →
      ∀ d, F.getLast? = some d → (timestamp U).Sealed d (τ ++ Y) := fun hX d hd =>
    sealed_timestamp hU (hF d hd) hX
  cases k with
  | guid =>
    obtain rfl : τ = "<guid>".toList := hτ
    have hX := clock_number (U := U) (w := []) (Z := "<guid>".toList ++ Y) (by simp)
      (head_mark (by decide) (by decide) (by decide))
    exact ⟨_, stays_tag (by simp [timestamp, wordEdge, decimals, times, word, seqs, Blind,
      not_isWord_tag])
      demands_timestamp (by rw [isDecimal_tag]; decide) (hseal hX) rfl (by decide), rfl⟩
  | timestamp =>
    obtain ⟨hkind, hY⟩ : IsDated U τ ∧ Delimited Y := hτ
    obtain ⟨m, hm, hrest⟩ := matchAt_timestamp hU hF hY hkind
    obtain ⟨y, mo, d, sep, h, mi, s, tail, hy, -, -, -, -, -, -, -, -, rfl⟩ := hkind
    have hX := clock_number (U := U) (Z := '-'
      :: (mo ++ '-' :: (d ++ sep :: (h ++ ':' :: (mi ++ ':' ::
      (s ++ tail))))) ++ Y) hy.2 (head_mark (by decide) (by decide) (by decide))
    rw [← List.append_assoc] at hX
    exact ⟨_, sub_goes (hseal hX) hm hrest (by simp) ((steady_timestamp hU).fresh hY), rfl⟩
  | duration =>
    obtain ⟨hkind, hY⟩ : IsTimed U τ ∧ Parted U Y := hτ
    have hlast : ∀ c, sameLetter 's' c = true →
        (U.isDecimal c || decide (c = '-')) = false := fun c hc => by
      have hnot := not_isHex_of_unit hc
      rw [Bool.or_eq_false_iff] at hnot
      rw [hU.letter 's' c (by decide) hc, hnot.2]
      rfl
    exact ⟨τ, stays_timed rfl demands_timestamp hlast
      (fun c hc => opens_timestamp.trans (not_isDecimal_of_not_isWord hU hc))
        (hseal (clock_timed hU hkind)) hkind hY
      (by rw [countP_timed hkind]; decide), hkind, parted_sub hY ⟨_, rfl⟩⟩
  | elapsed => exact hτ.elim
  | lineNumber =>
    obtain ⟨hnumber, hline, hY, hunit⟩ := hτ
    exact ⟨τ, stays_delimited (steady_timestamp hU) demands_timestamp hblank
      (hseal (clock_number hnumber.2 (head_delimited hU hY))) hY
        (by rw [countP_number hdash hnumber.2]; decide),
      hnumber, hline, (steady_timestamp hU).delimited_sub hY, fun _ => hunit (by decide)⟩

/-- A digit, or the mark a rule begins with, is no letter of a unit. -/
theorem head_unit {c : Char} (hc : U.isDecimal c = true ∨ c = '<') :
    sameLetter 'm' c = false ∧ sameLetter 's' c = false := by
  rcases hc with hc | rfl
  · have hnot : ∀ l, l.isAlpha = true → sameLetter l c = false := fun l hl => by
      rw [← Bool.not_eq_true]
      intro hsame
      rw [hU.letter l c hl hsame] at hc
      cases hc
    exact ⟨hnot 'm' (by decide), hnot 's' (by decide)⟩
  · exact ⟨by decide, by decide⟩

omit hU in
theorem head_number {w Z : Text}
    (hw : IsNumber U w) : ∀ c ∈ (w ++ Z).head?, U.isDecimal c = true := fun c hc => by
  obtain ⟨x, w', rfl⟩ := List.exists_cons_of_ne_nil hw.1
  obtain rfl : x = c := Option.some.inj hc
  exact hw.2 x List.mem_cons_self

omit hU in
/-- No digit stands in what the rules write. -/
theorem countP_of_all (h : τ.all (fun c => c.toNat < 128 && !c.isDigit) = true) :
    τ.countP U.isDecimal < 1 := by
  refine Nat.lt_one_iff.mpr (List.countP_eq_zero.mpr fun c hc => ?_)
  have hascii := List.all_eq_true.mp h c hc
  rw [Bool.and_eq_true, decide_eq_true_eq, Bool.not_eq_true'] at hascii
  rw [Unicode.isDecimal_ascii hascii.1, hascii.2]
  exact Bool.false_ne_true

theorem treats_duration : Treats U 2 (duration U) "<duration>" := by
  intro k F τ Y hτ hF
  have hseal : (∀ c ∈ (τ ++ Y).head?, U.isDecimal c = true ∨ c = '<') →
      ∀ d, F.getLast? = some d → (duration U).Sealed d (τ ++ Y) := fun hX d hd =>
    sealed_duration hU (hF d hd) fun c hc => head_unit hU (hX c hc)
  have hstays : ∀ w, τ = '<' :: w → τ.getLast? = some '>' →
      τ.all (fun c => c.toNat < 128 && !c.isDigit) = true →
      (duration U).sub "<duration>".toList (F ++ (τ ++ Y))
        = (duration U).sub "<duration>".toList F ++ (τ ++ (duration U).sub "<duration>".toList Y) :=
    fun w hw hlast hall => stays_tag
      (by simp [duration, wordEdge, anyCase, word, plus, opt, seqs, Blind, not_isWord_tag])
      demands_duration isDecimal_tag
      (hseal fun c hc => .inr (by rw [hw] at hc; exact (Option.some.inj hc).symm)) hlast
        (countP_of_all hall)
  cases k with
  | guid =>
    have hkind : τ = "<guid>".toList := hτ
    exact ⟨τ, hstays _ hkind (by rw [hkind]; rfl) (by rw [hkind]; decide), hkind⟩
  | timestamp =>
    have hkind : τ = "<timestamp>".toList := hτ
    exact ⟨τ, hstays _ hkind (by rw [hkind]; rfl) (by rw [hkind]; decide), hkind⟩
  | duration =>
    obtain ⟨hkind, hY⟩ : IsTimed U τ ∧ Parted U Y := hτ
    obtain ⟨m, hm, hrest⟩ := matchAt_duration hU hF hY hkind
    obtain ⟨ds, f, gap, w, hds, -, -, -, rfl⟩ := hkind
    have hX : ∀ c ∈ (ds ++ (f ++ (gap ++ w)) ++ Y).head?, U.isDecimal c = true ∨
        c = '<' := fun c hc => by
      rw [List.append_assoc] at hc
      exact .inl (head_number hds c hc)
    exact ⟨_, sub_goes (hseal hX) hm hrest (by simp [hds.1])
      (fresh_of_opens rfl fun c hc =>
        opens_duration.trans (not_isDecimal_of_not_isWord hU (hY c hc))), rfl⟩
  | elapsed => exact hτ.elim
  | lineNumber =>
    obtain ⟨hnumber, hline, hY, hunit⟩ := hτ
    have hX : ∀ c ∈ (τ ++ Y).head?, U.isDecimal c = true ∨ c = '<' :=
      fun c hc => .inl (head_number hnumber c hc)
    exact ⟨τ, sub_stays (hseal hX) (quiet_duration hU hnumber.2 hY (hunit (by decide)))
      ((steady_duration hU).fresh hY), hnumber, hline, (steady_duration hU).delimited_sub hY,
      fun h => absurd h (by decide)⟩

omit hU in
/-- A rule that replaces none of the tokens. -/
theorem treats_of_stays {new : String} (hn : 3 ≤ n) (hp : p.Steady) (hdemands : p.Demands 1 q r)
    (hblank : ∀ c, Text.isSpace c = true → r c = false) (htag : r '>' = false)
    (hblind : p.Blind '>') (hseal : ∀ d X, Text.isSpace d = true → p.Sealed d X)
    (htags : "<guid><timestamp><duration>".toList.all (fun c => !q c) = true)
    (hdigits : ∀ c, U.isDecimal c = true → q c = false)
    (hline : ∀ F, rewritten U n 5 F = rewritten U (n + 1) 5 (p.sub new.toList F)) :
    Treats U n p new := by
  intro k F τ Y hτ hF
  have hstays : ∀ {t : Text}, t <:+: "<guid><timestamp><duration>".toList →
    t.getLast? = some '>' → τ = t →
      p.sub new.toList (F ++ (τ ++ Y)) = p.sub new.toList F ++ (τ ++ p.sub new.toList Y) := by
    rintro t ht hlast rfl
    refine stays_tag hblind hdemands htag (fun d hd => hseal d _ (hF d hd)) hlast ?_
    refine Nat.lt_one_iff.mpr (List.countP_eq_zero.mpr fun c hc => ?_)
    have hnot := List.all_eq_true.mp htags c (ht.subset hc)
    rwa [Bool.not_eq_true', ← Bool.not_eq_true] at hnot
  cases k with
  | guid =>
    have h : τ = "<guid>".toList := by rwa [Standing, if_neg (by omega)] at hτ
    refine ⟨τ, hstays ⟨[], "<timestamp><duration>".toList, rfl⟩ rfl h, ?_⟩
    rwa [Standing, if_neg (by omega)]
  | timestamp =>
    have h : τ = "<timestamp>".toList := by rwa [Standing, if_neg (by omega)] at hτ
    refine ⟨τ, hstays ⟨"<guid>".toList, "<duration>".toList, rfl⟩ rfl h, ?_⟩
    rwa [Standing, if_neg (by omega)]
  | duration =>
    have h : τ = "<duration>".toList := by rwa [Standing, if_neg (by omega)] at hτ
    refine ⟨τ, hstays ⟨"<guid><timestamp>".toList, [], rfl⟩ rfl h, ?_⟩
    rwa [Standing, if_neg (by omega)]
  | elapsed => exact hτ.elim
  | lineNumber =>
    obtain ⟨hnumber, hword, hY, -⟩ := hτ
    refine ⟨τ, stays_delimited hp hdemands hblank (fun d hd => hseal d _ (hF d hd)) hY
      (by rw [countP_number hdigits hnumber.2]; decide), hnumber, ?_, hp.delimited_sub hY,
        fun h => by omega⟩
    rwa [← hline]

theorem treats_address : Treats U 3 (address U) "<addr>" :=
  treats_of_stays le_rfl steady_address demands_address
    (fun c hc => by
      rw [sameLetter_of_isSpace (by decide) (by decide) hc,
        sameLetter_of_isSpace (by decide) (by decide) hc]
      rfl)
    (by decide) (by simp [address, wordEdge, anyCase, plus, seqs, Blind, not_isWord_tag])
    (fun _ _ hd => sealed_address hd) (by decide)
    (fun c hc => by
      rw [← Bool.not_eq_true]
      intro hsame
      rw [hU.letter 'x' c (by decide) hsame] at hc
      cases hc)
    fun _ => rfl

theorem treats_filePath : Treats U 4 (filePath U) "<path>" :=
  treats_of_stays (by decide) (steady_filePath hU) demands_filePath
    (fun c hc => by
      have hopens := (steady_filePath hU).opens c hc
      rw [opens_filePath, Bool.or_eq_false_iff] at hopens
      have hcolon : c ≠ ':' := by
        rintro rfl
        exact absurd hc (by decide)
      simp [hopens.1, of_decide_eq_false hopens.2, hcolon])
    (by decide) (by simp [filePath, word, plus, seqs, Blind])
    (fun _ _ hd => sealed_filePath hU hd) (by decide)
    (fun c hc => Bool.or_eq_false_iff.mpr ⟨not_mark_of_isDecimal (by decide) (by decide) c hc,
      not_mark_of_isDecimal (by decide) (by decide) c hc⟩)
    fun _ => rfl

/-- **The sixth rule forgets every token**: the others are what the rules wrote, and line numbers
go. -/
theorem forgets_lineNumber (k : Kind) (hF : Spaced F) : ∃ R, ∀ τ Y, Standing U 5 k F τ Y →
    (lineNumber U).sub ":<line>".toList (F ++ (τ ++ Y)) = R
      ++ (lineNumber U).sub ":<line>".toList Y := by
  have hblind : (lineNumber U).Blind '>' := by
    simp [lineNumber, wordEdge, word, anyCase, plus, seqs, Blind, not_isWord_tag]
  have hstays : ∀ {t : Text}, (t.countP fun c => c = ':' || sameLetter 'l' c) < 1 →
    t.getLast? = some '>' →
      (∀ Y, ∀ c ∈ (t ++ Y).head?, U.isDecimal c = false ∧ Text.isSpace c = false) →
      ∃ R, ∀ τ Y, τ = t →
        (lineNumber U).sub ":<line>".toList (F ++ (τ ++ Y)) = R
        ++ (lineNumber U).sub ":<line>".toList Y := by
    intro t ht hlast hX
    refine ⟨(lineNumber U).sub ":<line>".toList F ++ t, ?_⟩
    rintro τ Y rfl
    rw [List.append_assoc]
    exact stays_tag hblind demands_lineNumber (by decide) (fun d hd =>
      sealed_lineNumber hU (hF d hd) (hX Y))
      hlast ht
  have hmark : ∀ {w : Text} (Y : Text), ∀ c ∈ ('<' :: w ++ Y).head?, U.isDecimal c = false ∧
      Text.isSpace c = false := by
    intro w Y c hc
    obtain rfl : '<' = c := Option.some.inj hc
    exact ⟨(Unicode.isDecimal_ascii (by decide)).trans (by decide), by decide⟩
  cases k with
  | guid => exact hstays (t := "<guid>".toList) (by decide) rfl hmark
  | timestamp => exact hstays (t := "<timestamp>".toList) (by decide) rfl hmark
  | duration => exact hstays (t := "<duration>".toList) (by decide) rfl hmark
  | elapsed => exact ⟨[], fun _ _ h => h.elim⟩
  | lineNumber =>
    by_cases hline : EndsInLine U F
    · obtain ⟨G, l, gap, rfl, hG, hl, hne, hgap⟩ := hline
      refine ⟨(lineNumber U).sub ":<line>".toList G ++ ":<line>".toList, ?_⟩
      rintro τ Y ⟨hnumber, -, hY, -⟩
      obtain ⟨m, hm, hrest⟩ := matchAt_lineNumber hU hG hl hne hgap hnumber hY
      have hword : ∀ c ∈ (l ++ (gap ++ τ) ++ Y).head?, sameLetter 'l' c = true := by
        cases hl with
        | cons hc _ =>
          intro c hx
          obtain rfl := Option.some.inj hx
          exact hc
      have hgoes : (lineNumber U).sub ":<line>".toList (G ++ (l ++ (gap ++ τ) ++ Y)) = _ :=
        sub_goes (fun d hd => sealed_lineNumber_word hU (hG d hd) hword)
          (by simpa using hm) hrest (by simp [hne]) ((steady_lineNumber hU).fresh hY)
      simpa using hgoes
    · exact ⟨[], fun τ Y h => absurd h.2.1 hline⟩

end Treating

/-! ### Behind other text

A text that ends in two blanks is rewritten by itself: no rule before the sixth reads more than
one. -/

section Behind

variable {A F Y τ t t' : Text} {p : Pattern} {k : Kind}

omit hU in
theorem spaced_behind (hF : Spaced F) : Spaced (A ++ ' ' :: F) := by
  intro c hc
  cases F with
  | nil =>
    rw [List.getLast?_concat] at hc
    obtain rfl := Option.some.inj hc
    decide
  | cons x F =>
    rw [List.getLast?_append, List.getLast?_cons_cons] at hc
    refine hF c ?_
    obtain ⟨d, hd⟩ := Option.isSome_iff_exists.mp (List.getLast?_isSome.mpr (List.cons_ne_nil x F))
    rw [hd, Option.some_or] at hc
    rwa [hd]

omit hU in
theorem sub_behind (new : Text) (hp : p.Steady) (hblind : p.Blind ' ')
    (hseal : ∀ d, Text.isSpace d = true → p.Sealed d (' ' :: F)) (hA : Spaced A) :
    ∃ B, Spaced B ∧ p.sub new (A ++ ' ' :: F) = B ++ ' ' :: p.sub new F := by
  refine ⟨p.sub new A, hp.spaced_sub hA, ?_⟩
  have hblank : ∀ c ∈ (' ' :: F).head?, p.opens false c = false := fun c hc => hp.opens c (by
    obtain rfl := Option.some.inj hc
    decide)
  rw [sub, subFrom_append (fun d hd => hseal d (hA d hd)) (Nat.zero_le _), List.append_nil, subFrom,
    matchAt_eq_none hp.nullable hblank]
  exact congrArg (fun u => p.sub new A ++ ' ' :: u) (fresh_of_blind hblind new)

theorem rewritten_behind (hA : Spaced A) :
    ∃ B, rewritten U 0 5 (A ++ ' ' :: F) = B ++ ' ' :: rewritten U 0 5 F := by
  have hword : U.isWord ' ' = false := hU.blank ' ' (by decide)
  have hnot : U.isDecimal ' ' = false := hU.not_isDecimal (by decide)
  simp only [rewritten, noise, List.take_succ_cons, List.take_zero, List.drop_zero, List.foldl_cons,
    List.foldl_nil]
  obtain ⟨B, hB, hsub⟩ := sub_behind (p := guid U) (F := F) "<guid>".toList steady_guid
    (by simp [guid, wordEdge, hexRow, times, word, seqs, Blind, hword]) (fun d hd =>
      sealed_guid hd) hA
  rw [hsub]
  generalize (guid U).sub "<guid>".toList F = F₁
  obtain ⟨B, hB, hsub⟩ := sub_behind (F := F₁) "<timestamp>".toList (steady_timestamp hU)
    (by simp [timestamp, wordEdge, decimals, times, word, seqs, Blind, hword])
    (fun d hd => sealed_timestamp hU hd (by simp [hnot])) hB
  rw [hsub]
  generalize (timestamp U).sub "<timestamp>".toList F₁ = F₂
  obtain ⟨B, hB, hsub⟩ := sub_behind (F := F₂) "<duration>".toList (steady_duration hU)
    (by simp [duration, wordEdge, anyCase, word, plus, opt, seqs, Blind, hword])
    (fun d hd => sealed_duration hU hd fun c hc => by
      obtain rfl := Option.some.inj hc
      decide) hB
  rw [hsub]
  generalize (duration U).sub "<duration>".toList F₂ = F₃
  obtain ⟨B, hB, hsub⟩ := sub_behind (p := address U) (F := F₃) "<addr>".toList steady_address
    (by simp [address, wordEdge, anyCase, plus, seqs, Blind, hword]) (fun d hd =>
      sealed_address hd) hB
  rw [hsub]
  generalize (address U).sub "<addr>".toList F₃ = F₄
  obtain ⟨B, hB, hsub⟩ := sub_behind (F := F₄) "<path>".toList (steady_filePath hU)
    (by simp [filePath, word, plus, seqs, Blind]) (fun d hd => sealed_filePath hU hd) hB
  exact ⟨B, hsub⟩

theorem endsInLine_behind {B : Text} (h : EndsInLine U F) : EndsInLine U (B ++ ' ' :: F) := by
  obtain ⟨G, l, gap, rfl, hG, hl, hne, hgap⟩ := h
  refine ⟨B ++ ' ' :: G, l, gap, by simp, fun c hc => ?_, hl, hne, hgap⟩
  cases G with
  | nil =>
    rw [List.getLast?_concat] at hc
    obtain rfl := Option.some.inj hc
    exact hU.blank ' ' (by decide)
  | cons x G =>
    rw [List.getLast?_append, List.getLast?_cons_cons] at hc
    refine hG c ?_
    obtain ⟨d, hd⟩ := Option.isSome_iff_exists.mp (List.getLast?_isSome.mpr (List.cons_ne_nil x G))
    rw [hd, Option.some_or] at hc
    rwa [hd]

theorem known_behind (hA : Spaced A) (h : Known U k F τ Y) : Known U k (A ++ ' ' :: F) τ Y := by
  cases k with
  | guid => exact h
  | timestamp => exact h
  | duration => exact h
  | elapsed => exact h
  | lineNumber =>
    obtain ⟨B, hB⟩ := rewritten_behind (F := F) hU hA
    exact ⟨h.1, hB ▸ endsInLine_behind hU h.2.1, h.2.2⟩

/-- **Messages stay alike behind the same text**, if it ends in two blanks. -/
theorem woven_behind (hA : Spaced A) (h : Woven (Known U) t t') :
    Woven (Known U) (A ++ ' ' :: t) (A ++ ' ' :: t') := by
  cases h with
  | same => exact .same _
  | @step k F τ τ' Y Y' hF hτ hτ' h =>
    have hstep := Woven.step (spaced_behind (A := A) hF) (known_behind hU hA hτ)
      (known_behind hU hA hτ') h
    rwa [List.append_assoc, List.append_assoc] at hstep

end Behind

/-! ### Noise and what is known -/

section Noises

variable {F Y τ : Text} {k : Kind}

theorem not_isSpace_of_fraction (h : IsFraction U τ) : ∀ c ∈ τ, Text.isSpace c = false := by
  rcases h with rfl | ⟨ds, hds, rfl⟩
  · simp
  · rw [List.forall_mem_cons]
    exact ⟨by decide, fun c hc => hU.not_isSpace (hds.2 c hc)⟩

theorem not_isSpace_of_zone (h : IsZone U τ) : ∀ c ∈ τ, Text.isSpace c = false := by
  rcases h with rfl | rfl | ⟨sign, h, m, hsign, hh, hm, rfl⟩
  · simp
  · rw [List.forall_mem_singleton]
    decide
  · rw [List.forall_mem_cons, List.forall_mem_append, List.forall_mem_cons]
    refine ⟨?_, fun c hc => hU.not_isSpace (hh.2 c hc), by
      decide, fun c hc => hU.not_isSpace (hm.2 c hc)⟩
    rcases hsign with rfl | rfl <;> decide

theorem isDated_of_isTimestamp (h : IsTimestamp U τ) : IsDated U τ := by
  obtain ⟨y, mo, d, sep, h, m, s, f, z, hy, hmo, hd, hsep, hh, hm, hs, hf, hz, rfl⟩ := h
  refine ⟨y, mo, d, sep, h, m, s, f ++ z, hy, hmo, hd, hsep, hh, hm, hs, ?_, ?_, rfl⟩
  · rw [List.forall_mem_append]
    exact ⟨not_isSpace_of_fraction hU hf, not_isSpace_of_zone hU hz⟩
  · have hrow : ∀ {n w}, IsRow U.isDecimal n w → w.countP (· = '-') = 0 := fun hw =>
      countP_number (not_mark_of_isDecimal (by decide) (by decide)) hw.2
    rw [List.countP_append, countP_fraction hf, Nat.zero_add]
    rcases hz with rfl | rfl | ⟨sign, zh, zm, -, hzh, hzm, rfl⟩
    · exact Nat.zero_le 1
    · decide
    · rw [List.countP_cons, List.countP_append, List.countP_cons_of_neg (by decide),
        hrow hzh, hrow hzm]
      split <;> decide

omit hU in
theorem isTimed_of_isDuration (h : IsDuration U τ) : IsTimed U τ := by
  obtain ⟨ds, unit, hds, hunit, rfl⟩ := h
  refine ⟨ds, [], [' '], unit, hds, .inl rfl, .inr ⟨' ', by decide, rfl⟩,
    ⟨⟨String.ofList unit, ?_, ?_⟩, ?_⟩, rfl⟩
  · rcases hunit with rfl | rfl <;> simp
  · rw [String.toList_ofList]
    exact List.forall₂_same.mpr fun c _ => by simp [sameLetter]
  · have hletters : unit.all (fun c => c.toNat < 128 && c.isAlpha) = true := by
      rcases hunit with rfl | rfl <;> decide
    intro c hc
    have hletter := List.all_eq_true.mp hletters c hc
    rw [Bool.and_eq_true, decide_eq_true_eq] at hletter
    rw [U.isWord_ascii c hletter.1, Char.isAlphanum, hletter.2]
    rfl

/-- **The rules know all noise** but elapsed times, and line numbers that an earlier rule spoils. -/
theorem known_of_noisy (h : Noisy U k F τ Y) (helapsed : k ≠ .elapsed)
    (hline : k = .lineNumber →
      EndsInLine U (rewritten U 0 5 F) ∧ ¬ BeginsWithUnit U (rewritten U 0 2 Y)) :
      Known U k F τ Y := by
  cases k with
  | guid => exact h
  | timestamp => exact ⟨isDated_of_isTimestamp hU h.1, h.2⟩
  | duration => exact ⟨isTimed_of_isDuration h.1, parted_of_delimited hU h.2⟩
  | elapsed => exact absurd rfl helapsed
  | lineNumber => exact ⟨h.1, (hline rfl).1, h.2.2, fun _ => (hline rfl).2⟩

end Noises

/-- **Messages that differ in known tokens have one normal form.** -/
theorem normalize_eq {D : Digest} {t t' : Text}
    (h : Woven (Known U) (Text.strip t) (Text.strip t')) :
    normalize U D t = normalize U D t' := by
  have hguid := h.rewrite steady_guid (treats_guid hU)
  have htimestamp := hguid.rewrite (steady_timestamp hU) (treats_timestamp hU)
  have hduration := htimestamp.rewrite (steady_duration hU) (treats_duration hU)
  have haddress := hduration.rewrite steady_address (treats_address hU)
  have hpath := haddress.rewrite (steady_filePath hU) (treats_filePath hU)
  have hline := hpath.forget fun k F hF => forgets_lineNumber hU k hF
  rw [normalize, normalize]
  simp only [noise, List.foldl_cons, List.foldl_nil]
  rw [hline]

end Rules

end Fingerprint

end AgentPlatform
