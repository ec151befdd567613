import AgentPlatform.Tools.TestOutput

/-!
# Tools/FailureBlocks — which text describes a failed test

`parse_dotnet_output` describes a failed test by the first exception among the 800 characters behind
its name, or by those characters themselves.  The window does not end where the next failed test
begins, so a test whose own **block** is short may be described by a later one.

An exception is read in one way only: its type is the row of letters before the colon (`Throws`,
`Throws.unique`).  Hence appending text to a block changes the description exactly where nothing in
the block settles it (`describe_append_iff`), and `ownBlocks_of_confined` says for which outputs
every test is described by its own block.
-/

namespace AgentPlatform

namespace TestOutput

open Regex Pattern

/-- The name of a failed test. -/
def testName (m : Place) : Text := Text.strip (m.group 1)

section Blocks

variable (U : Unicode)

/-- The failure of a test, described by a text. -/
def describe (name tail : Text) : TestFailure :=
  match (exception U).search tail with
  | some e => ⟨name, e.group 1, (Text.strip (e.group 2)).take 400⟩
  | none => ⟨name, [], (Text.strip tail).take 400⟩

theorem failureAt_eq (m : Place) :
    failureAt U m = describe U (testName m) (m.rest.take 800) := rfl

/-- **The block of a failed test**: the text between it and the next one. -/
def block (m : Place) : Text := (failedTest U).upTo m.before m.rest

/-- The failure as its own block describes it. -/
def alone (m : Place) : TestFailure := describe U (testName m) ((block U m).take 800)

/-- What the window shows of the text behind the block. -/
def beyond (m : Place) : Text := (m.rest.drop (block U m).length).take (800 - (block U m).length)

/-- The first match of each name. -/
def firsts : List Text → List Place → List Place
  | _, [] => []
  | seen, m :: ms =>
    if seen.contains (testName m) then firsts seen ms else m :: firsts (testName m :: seen) ms

/-- The matches whose failures are recorded. -/
def recorded (text : Text) : List Place := firsts [] ((failedTest U).finditer text)

theorem collect_eq_map (seen : List Text) (ms : List Place) :
    collect U seen ms = (firsts seen ms).map (failureAt U) := by
  induction ms generalizing seen with
  | nil => rfl
  | cons m ms ih =>
    rw [collect, firsts, testName]
    split
    · exact ih seen
    · rw [List.map_cons, ih]

theorem failuresOf_eq_map (text : Text) : failuresOf U text = (recorded U text).map (failureAt U) :=
  collect_eq_map U [] _

end Blocks

/-! ## How an exception is read -/

/-- No word character is blank. -/
def WordsApart (U : Unicode) : Prop := ∀ c, Text.isSpace c = true → U.isWord c = false

/-- The type of an exception and its colon. -/
def exceptionHead (U : Unicode) : Pattern :=
  seqs [group 1 (seqs [one isNameStart, many true (one fun c => U.isWord c || c = '.'),
      alt (word "Exception") (word "Error")]), spaces, word ":"]

/-- What stands behind the colon. -/
def exceptionTail : Pattern := seqs [spaces, group 2 (many true dot)]

theorem run_exception (U : Unicode) (s : Place) :
    (exception U).run some s = (exceptionHead U).run (exceptionTail.run some) s := rfl

/-- **A text begins with an exception**: the type `n`, blanks and a colon, before `a`. -/
def Throws (U : Unicode) (t n a : Text) : Prop :=
  ∃ c x kind gap, n = c :: (x ++ kind) ∧ isNameStart c = true ∧
    (∀ d ∈ x, (U.isWord d || d = '.') = true) ∧
    (kind = "Exception".toList ∨ kind = "Error".toList) ∧
    (∀ d ∈ gap, Text.isSpace d = true) ∧ t = n ++ (gap ++ ':' :: a)

/-- The message: the first line that is not blank. -/
def line (a : Text) : Text := (a.dropWhile Text.isSpace).takeWhile (· ≠ '\n')

/-- What follows the message. -/
def behind (a : Text) : Text := (a.dropWhile Text.isSpace).dropWhile (· ≠ '\n')

section Reading

variable {U : Unicode} {t n a v before : Text} {s s' e : Place}

theorem take_close (n t : Text) : (n ++ t).take ((n ++ t).length - t.length) = n := by
  rw [List.length_append, Nat.add_sub_cancel_right, List.take_left]

/-- The colon is behind an exception. -/
theorem ends_exceptionHead (h : (exceptionHead U).Ends ⟨before, t, []⟩ s') :
    ∃ n, Throws U t n s'.rest ∧ s'.groups = [(1, n)] := by
  obtain ⟨u, ⟨u', ⟨u₁, ⟨c, t₁, ht, hc, rfl⟩, u₂, hmany, u₃, hkind, rfl⟩, rfl⟩, u₄, hgap, u₅,
    hcolon, rfl⟩ := h
  obtain ⟨x, t₂, rfl, hx, rfl⟩ := ends_many_one.mp hmany
  obtain ⟨kind, hword, t₃, rfl, rfl⟩ : ∃ kind, (kind = "Exception".toList ∨ kind = "Error".toList) ∧
      ∃ t₃, t₂ = kind ++ t₃ ∧ u' = ⟨kind.reverse ++ (x.reverse ++ c :: before), t₃, []⟩ := by
    rcases hkind with hkind | hkind
    · exact ⟨_, .inl rfl, ends_word.mp hkind⟩
    · exact ⟨_, .inr rfl, ends_word.mp hkind⟩
  obtain ⟨gap, t₄, rfl, hblank, rfl⟩ := ends_many_one.mp hgap
  obtain ⟨a, rfl, rfl⟩ := ends_word.mp hcolon
  have htext : t = c :: (x ++ kind) ++ (gap ++ ':' :: a) := by
    rw [List.cons_append, List.append_assoc]
    exact ht
  refine ⟨c :: (x ++ kind), ⟨c, x, kind, gap, rfl, hc, hx, hword, hblank, htext⟩, ?_⟩
  have hread := take_close (c :: (x ++ kind)) (gap ++ ':' :: a)
  rw [← htext] at hread
  exact congrArg (fun w => [(1, w)]) hread

/-- …and every exception is read up to its colon. -/
theorem Throws.ends (h : Throws U t n a) (before : Text) :
    ∃ s', (exceptionHead U).Ends ⟨before, t, []⟩ s' := by
  obtain ⟨c, x, kind, gap, rfl, hc, hx, hkind, hgap, rfl⟩ := h
  have hword : (alt (word "Exception") (word "Error")).Ends
      ⟨x.reverse ++ c :: before, kind ++ (gap ++ ':' :: a), []⟩
      ⟨kind.reverse ++ (x.reverse ++ c :: before), gap ++ ':' :: a, []⟩ := by
    rcases hkind with rfl | rfl
    · exact .inl (ends_word.mpr ⟨_, rfl, rfl⟩)
    · exact .inr (ends_word.mpr ⟨_, rfl, rfl⟩)
  rw [List.cons_append, List.append_assoc]
  exact ⟨_, _, ⟨_, ⟨_, ⟨c, _, rfl, hc, rfl⟩, _, ends_many_one.mpr ⟨x, _, rfl, hx, rfl⟩, _,
    hword, rfl⟩, rfl⟩, _, ends_many_one.mpr ⟨gap, _, rfl, hgap, rfl⟩, _,
    ends_word.mpr ⟨a, rfl, rfl⟩, rfl⟩

theorem head_dropWhile (p : Char → Bool) (t : Text) : ∀ c ∈ (t.dropWhile p).head?, p c = false := by
  intro c hc
  have hhead := List.head?_dropWhile_not p t
  rw [hc] at hhead
  simpa using hhead

theorem whiles_of_head {p : Char → Bool} {t : Text} (h : ∀ c ∈ t.head?, p c = false) :
    t.takeWhile p = [] ∧ t.dropWhile p = t := by
  cases t with
  | nil => exact ⟨rfl, rfl⟩
  | cons c t =>
    have hc := h c rfl
    exact ⟨List.takeWhile_cons_of_neg (by simp [hc]), List.dropWhile_cons_of_neg (by simp [hc])⟩

/-- Behind the colon the engine has no choice. -/
theorem run_exceptionTail (s : Place) : ∃ e, exceptionTail.run some s = some e ∧
    e.rest = behind s.rest ∧ e.groups = (2, line s.rest) :: s.groups := by
  obtain ⟨b, t, g⟩ := s
  have hspaces : t.takeWhile Text.isSpace ++ t.dropWhile Text.isSpace = t :=
    List.takeWhile_append_dropWhile
  have hline : line t ++ behind t = t.dropWhile Text.isSpace := List.takeWhile_append_dropWhile
  have hread := take_close (line t) (behind t)
  rw [hline] at hread
  refine ⟨⟨(line t).reverse ++ ((t.takeWhile Text.isSpace).reverse ++ b), behind t,
    (2, line t) :: g⟩, ?_, rfl, rfl⟩
  nth_rewrite 1 [← hspaces]
  refine run_many_greedy (fun c hc => List.mem_takeWhile_imp hc) (head_dropWhile _ _) ?_
  change (many true dot).run (fun u => some (Place.close 2 _ u)) ⟨_,
    t.dropWhile Text.isSpace, g⟩ = _
  rw [← hline]
  have hchars : ∀ c ∈ line t, decide (c ≠ '\n') = true := fun c hc =>
    List.mem_takeWhile_imp (p := fun c => decide (c ≠ '\n')) hc
  refine run_many_greedy hchars (head_dropWhile _ _) ?_
  rw [Place.close]
  simp only [hline, hread]

theorem isWord_of_isNameStart {c : Char} (h : isNameStart c = true) : U.isWord c = true := by
  rcases Bool.or_eq_true_iff.mp h with h | h
  · have hrange := Text.toNat_of_isAlpha h
    rw [U.isWord_ascii c (by omega), Char.isAlphanum, h]
    rfl
  · obtain rfl := of_decide_eq_true h
    rw [U.isWord_ascii '_' (by decide)]
    decide

/-- The characters of an exception's type. -/
def isTypeChar (U : Unicode) (c : Char) : Bool := U.isWord c || c = '.'

theorem isTypeChar_colon : isTypeChar U ':' = false := by
  rw [isTypeChar, U.isWord_ascii ':' (by decide)]
  decide

theorem isTypeChar_of_isSpace (hU : WordsApart U) {c : Char} (h : Text.isSpace c = true) :
    isTypeChar U c = false := by
  rw [isTypeChar, hU c h, Bool.false_or, decide_eq_false_iff_not]
  rintro rfl
  exact absurd h (by decide)

theorem Throws.type_chars (h : Throws U t n a) : ∀ d ∈ n, isTypeChar U d = true := by
  obtain ⟨c, x, kind, gap, rfl, hc, hx, hkind, -, -⟩ := h
  have hword : ∀ d, isNameStart d = true → isTypeChar U d = true := fun d hd => by
    rw [isTypeChar, isWord_of_isNameStart hd, Bool.true_or]
  have hletters : ∀ d ∈ kind, isNameStart d = true := by
    rcases hkind with rfl | rfl
    · simp [isNameStart]
    · simp [isNameStart]
  intro d hd
  rcases List.mem_cons.mp hd with rfl | hd
  · exact hword d hc
  rcases List.mem_append.mp hd with hd | hd
  · exact hx d hd
  · exact hword d (hletters d hd)

/-- The type is the row of its characters, and the colon the first character that is not blank
behind it. -/
theorem Throws.parts (hU : WordsApart U) (h : Throws U t n a) :
    n = t.takeWhile (isTypeChar U) ∧
      ':' :: a = (t.dropWhile (isTypeChar U)).dropWhile Text.isSpace := by
  have hn := h.type_chars
  obtain ⟨-, -, -, gap, -, -, -, -, hgap, rfl⟩ := h
  have hstop : ∀ d ∈ (gap ++ ':' :: a).head?, isTypeChar U d = false := by
    intro d hd
    rcases gap with _ | ⟨g, gap⟩
    · obtain rfl : ':' = d := Option.some.inj hd
      exact isTypeChar_colon
    · obtain rfl : g = d := Option.some.inj hd
      exact isTypeChar_of_isSpace hU (hgap g List.mem_cons_self)
  obtain ⟨htake, hdrop⟩ := whiles_of_head hstop
  rw [List.takeWhile_append_of_pos hn, List.dropWhile_append_of_pos hn, htake, hdrop,
    List.append_nil, List.dropWhile_append_of_pos hgap]
  exact ⟨rfl, rfl⟩

/-- **An exception is read in one way.** -/
theorem Throws.unique (hU : WordsApart U) (h : Throws U t n a) {n' a' : Text}
    (h' : Throws U t n' a') :
    n = n' ∧ a = a' := by
  obtain ⟨hn, ha⟩ := h.parts hU
  obtain ⟨hn', ha'⟩ := h'.parts hU
  exact ⟨hn.trans hn'.symm, (List.cons.inj (ha.trans ha'.symm)).2⟩

/-- A match reads an exception of type `n`, before `a`. -/
structure Caught (e : Place) (n a : Text) : Prop where
  rest : e.rest = behind a
  groups : e.groups = [(2, line a), (1, n)]

theorem Caught.group_one (h : Caught e n a) : e.group 1 = n := by
  rw [Place.group, h.groups]
  rfl

theorem Caught.group_two (h : Caught e n a) : e.group 2 = line a := by
  rw [Place.group, h.groups]
  rfl

/-- **What a match at a place reads.** -/
theorem throws_of_matchAt (h : (exception U).matchAt before t = some e) :
    ∃ n a, Throws U t n a ∧ Caught e n a := by
  rw [matchAt, run_exception] at h
  obtain ⟨s', hends, htail⟩ := run_ends h
  obtain ⟨n, hthrows, hgroups⟩ := ends_exceptionHead hends
  obtain ⟨e', he', hrest, hgroups'⟩ := run_exceptionTail s'
  obtain rfl := Option.some.inj (htail.symm.trans he')
  exact ⟨n, s'.rest, hthrows, hrest, by rw [hgroups', hgroups]⟩

/-- **Every exception is matched.** -/
theorem Throws.matchAt (hU : WordsApart U) (h : Throws U t n a) (before : Text) :
    ∃ e, (exception U).matchAt before t = some e ∧ Caught e n a := by
  obtain ⟨s', hends⟩ := h.ends before
  obtain ⟨e', he', -⟩ := run_exceptionTail s'
  have hsome : (exception U).matchAt before t ≠ none := by
    rw [Pattern.matchAt, run_exception]
    exact run_ne_none hends (by rw [he']; exact Option.some_ne_none _)
  obtain ⟨e, he⟩ := Option.ne_none_iff_exists'.mp hsome
  obtain ⟨n', a', hthrows, hcaught⟩ := throws_of_matchAt he
  obtain ⟨rfl, rfl⟩ := h.unique hU hthrows
  exact ⟨e, he, hcaught⟩

theorem Throws.append (h : Throws U t n a) (v : Text) : Throws U (t ++ v) n (a ++ v) := by
  obtain ⟨c, x, kind, gap, rfl, hc, hx, hkind, hgap, rfl⟩ := h
  exact ⟨c, x, kind, gap, rfl, hc, hx, hkind, hgap, by simp⟩

theorem Throws.colon_mem (h : Throws U t n a) : ':' ∈ t := by
  obtain ⟨c, x, kind, gap, rfl, -, -, -, -, rfl⟩ := h
  simp

/-- An exception whose colon is in the text begins there. -/
theorem Throws.of_append (h : Throws U (t ++ v) n a)
    (hcolon : ':' ∈ t) : ∃ a', Throws U t n a' := by
  have hn := h.type_chars
  obtain ⟨c, x, kind, gap, hname, hc, hx, hkind, hgap, htext⟩ := h
  have hmem : ':' ∉ n ++ gap := by
    intro hmem
    rcases List.mem_append.mp hmem with hmem | hmem
    · exact absurd (hn _ hmem) (by simp [isTypeChar_colon])
    · exact absurd (hgap _ hmem) (by decide)
  rw [← List.append_assoc] at htext
  rcases List.append_eq_append_iff.mp htext with ⟨y, hy, -⟩ | ⟨y, rfl, hy⟩
  · exact absurd (hy ▸ List.mem_append_left y hcolon) hmem
  · rcases y with _ | ⟨d, y⟩
    · rw [List.append_nil] at hcolon
      exact absurd hcolon hmem
    · obtain ⟨rfl, -⟩ := List.cons.inj hy
      exact ⟨y, c, x, kind, gap, hname, hc, hx, hkind, hgap, by rw [List.append_assoc]⟩

/-! ## Searching a text that goes on -/

/-- A match that is found is an exception somewhere in the text. -/
theorem throws_of_searchFrom (h : (exception U).searchFrom before t = some e) :
    ∃ u n a, u <:+ t ∧ Throws U u n a ∧ Caught e n a := by
  induction t generalizing before with
  | nil =>
    obtain ⟨n, a, hthrows, hcaught⟩ := throws_of_matchAt h
    exact ⟨[], n, a, List.suffix_refl _, hthrows, hcaught⟩
  | cons c t ih =>
    rw [searchFrom] at h
    rcases Option.or_eq_some_iff.mp h with h | ⟨-, h⟩
    · obtain ⟨n, a, hthrows, hcaught⟩ := throws_of_matchAt h
      exact ⟨c :: t, n, a, List.suffix_refl _, hthrows, hcaught⟩
    · obtain ⟨u, n, a, hsuffix, hthrows, hcaught⟩ := ih h
      exact ⟨u, n, a, hsuffix.trans (List.suffix_cons c t), hthrows, hcaught⟩

theorem colon_of_searchFrom (h : (exception U).searchFrom before t = some e) : ':' ∈ t := by
  obtain ⟨u, n, a, hsuffix, hthrows, -⟩ := throws_of_searchFrom h
  exact hsuffix.subset hthrows.colon_mem

/-- **The first exception of a text is the first one of any text that goes on from it**, with a
message that may go on too. -/
theorem searchFrom_append (hU : WordsApart U)
    (h : (exception U).searchFrom before t = some e) (v : Text) :
    ∃ n a e', Caught e n a ∧ ':' :: a <:+ t ∧ (exception U).searchFrom before (t ++ v) = some e' ∧
      Caught e' n (a ++ v) := by
  induction t generalizing before with
  | nil => exact absurd (colon_of_searchFrom h) (by simp)
  | cons c t ih =>
    rw [searchFrom] at h
    rcases Option.or_eq_some_iff.mp h with h | ⟨hnone, h⟩
    · obtain ⟨n, a, hthrows, hcaught⟩ := throws_of_matchAt h
      obtain ⟨e', he', hcaught'⟩ := (hthrows.append v).matchAt hU before
      refine ⟨n, a, e', hcaught, ?_, searchFrom_of_matchAt he', hcaught'⟩
      obtain ⟨-, -, -, gap, -, -, -, -, -, htext⟩ := hthrows
      exact ⟨n ++ gap, by rw [htext, List.append_assoc]⟩
    · obtain ⟨n, a, e', hcaught, hsuffix, he', hcaught'⟩ := ih h
      refine ⟨n, a, e', hcaught, hsuffix.trans (List.suffix_cons c t), ?_, hcaught'⟩
      have hhere : (exception U).matchAt before (c :: (t ++ v)) = none := by
        by_contra hsome
        obtain ⟨e'', he''⟩ := Option.ne_none_iff_exists'.mp hsome
        obtain ⟨n'', a'', hthrows, -⟩ := throws_of_matchAt he''
        rw [← List.cons_append] at hthrows
        obtain ⟨_, hthrows'⟩ := hthrows.of_append (List.mem_cons_of_mem c (colon_of_searchFrom h))
        obtain ⟨_, hmatch, -⟩ := hthrows'.matchAt hU before
        rw [hnone] at hmatch
        cases hmatch
      rw [List.cons_append, searchFrom, hhere, Option.none_or, he']

/-- Blanks complete no exception. -/
theorem searchFrom_append_blank (hU : WordsApart U) (hv : ∀ c ∈ v, Text.isSpace c = true)
    (h : (exception U).searchFrom before t = none) :
    (exception U).searchFrom before (t ++ v) = none := by
  have hcolon : ':' ∉ v := fun hmem => absurd (hv _ hmem) (by decide)
  induction t generalizing before with
  | nil =>
    by_contra hsome
    obtain ⟨e, he⟩ := Option.ne_none_iff_exists'.mp hsome
    exact hcolon (colon_of_searchFrom he)
  | cons c t ih =>
    rw [searchFrom, Option.or_eq_none_iff] at h
    rw [List.cons_append, searchFrom, Option.or_eq_none_iff]
    refine ⟨?_, ih h.2⟩
    by_contra hsome
    obtain ⟨e, he⟩ := Option.ne_none_iff_exists'.mp hsome
    obtain ⟨n, a, hthrows, -⟩ := throws_of_matchAt he
    rw [← List.cons_append] at hthrows
    have hmem := (List.mem_append.mp hthrows.colon_mem).resolve_right hcolon
    obtain ⟨_, hthrows'⟩ := hthrows.of_append hmem
    obtain ⟨_, hmatch, -⟩ := hthrows'.matchAt hU before
    rw [h.1] at hmatch
    cases hmatch

/-! ## Messages -/

/-- A message that ends in the text is the message of any text that goes on from it. -/
theorem line_append (h : behind a ≠ []) (v : Text) : line (a ++ v) = line a := by
  have hdrop : a.dropWhile Text.isSpace ≠ [] := fun hnil => h (by rw [behind, hnil]; rfl)
  rw [line, List.dropWhile_append, if_neg (by simpa using hdrop), List.takeWhile_append, if_neg]
  · rfl
  · intro hall
    refine h (List.dropWhile_eq_nil_iff.mpr fun c hc => ?_)
    have hself := List.takeWhile_eq_self_iff.mp
      ((List.takeWhile_prefix (fun c => decide (c ≠ '\n'))).eq_of_length hall)
    exact hself c hc

/-- Blanks do not change the message. -/
theorem strip_line_append_blank (hv : ∀ c ∈ v, Text.isSpace c = true) :
    Text.strip (line (a ++ v)) = Text.strip (line a) := by
  rcases hdrop : a.dropWhile Text.isSpace with _ | ⟨c, d⟩
  · rw [line, line, List.dropWhile_append, hdrop, List.dropWhile_eq_nil_iff.mpr hv]
    rfl
  · rw [line, line, List.dropWhile_append, hdrop, if_neg (by simp), List.takeWhile_append]
    split
    · rename_i hall
      rw [Text.strip_append_of_blank fun x hx => hv x ((List.takeWhile_prefix _).subset hx)]
      rw [(List.takeWhile_prefix (fun c => decide (c ≠ '\n'))).eq_of_length hall]
    · rfl

theorem getLast?_of_suffix {u : Text} {c : Char} (h : u <:+ t) (hne : u ≠ [])
    (hend : t.getLast? = some c) :
    u.getLast? = some c := by
  obtain ⟨w, rfl⟩ := h
  rwa [List.getLast?_append_of_ne_nil _ hne] at hend

/-- A message that runs off a text whose last character is a line feed is blank so far. -/
theorem blank_of_behind (hend : a.getLast? = some '\n') (h : behind a = []) :
    ∀ c ∈ a, Text.isSpace c = true := by
  rw [← List.dropWhile_eq_nil_iff]
  by_contra hne
  have hlast := getLast?_of_suffix (List.dropWhile_suffix _) hne hend
  have hline := List.dropWhile_eq_nil_iff.mp h '\n' (List.mem_of_getLast? hlast)
  exact absurd hline (by decide)

/-- …and becomes what follows. -/
theorem strip_line_ne_nil (ha : ∀ c ∈ a, Text.isSpace c = true)
    (hv : ¬ ∀ c ∈ v, Text.isSpace c = true) :
    Text.strip (line (a ++ v)) ≠ [] := by
  have hdrop : v.dropWhile Text.isSpace ≠ [] := fun hnil => hv (List.dropWhile_eq_nil_iff.mp hnil)
  rw [line, List.dropWhile_append_of_pos ha]
  obtain ⟨c, d, hcd⟩ := List.exists_cons_of_ne_nil hdrop
  have hc : Text.isSpace c = false := head_dropWhile Text.isSpace v c (by rw [hcd]; rfl)
  have hline : c ≠ '\n' := by
    rintro rfl
    exact absurd hc (by decide)
  rw [hcd, List.takeWhile_cons_of_pos (by simpa using hline)]
  refine Text.strip_ne_nil fun hall => ?_
  rw [hall c List.mem_cons_self] at hc
  cases hc

/-! ## Descriptions -/

section Describing

variable {name b : Text}

theorem describe_of_none (h : (exception U).search t = none) :
    describe U name t = ⟨name, [], (Text.strip t).take 400⟩ := by
  rw [describe, h]

theorem describe_of_caught (h : (exception U).search t = some e) (hcaught : Caught e n a) :
    describe U name t = ⟨name, n, (Text.strip (line a)).take 400⟩ := by
  rw [describe, h, ← hcaught.group_one, ← hcaught.group_two]

/-- A text described by itself fills the description, or what is added is blank. -/
theorem take_strip_append_iff : (Text.strip (b ++ v)).take 400 = (Text.strip b).take 400 ↔
    (∀ c ∈ v, Text.isSpace c = true) ∨ 400 ≤ (Text.strip b).length := by
  by_cases hv : ∀ c ∈ v, Text.isSpace c = true
  · rw [Text.strip_append_of_blank hv]
    exact ⟨fun _ => .inl hv, fun _ => rfl⟩
  obtain ⟨x, hx, hstrip⟩ := Text.exists_strip_append (t := b) hv
  rw [hstrip, or_iff_right hv]
  constructor
  · intro heq
    have hlength := congrArg List.length heq
    have hpos := List.length_pos_of_ne_nil hx
    simp only [List.length_take, List.length_append] at hlength
    omega
  · exact fun hle => List.take_append_of_le_length hle

/-- An exception that only the longer text has changes the description. -/
theorem describe_append_of_none (hb : (exception U).search b = none)
    (hbv : (exception U).search (b ++ v) = some e) :
    describe U name (b ++ v) ≠ describe U name b := by
  obtain ⟨u, n, a, -, hthrows, hcaught⟩ := throws_of_searchFrom hbv
  have hne : n ≠ [] := by
    obtain ⟨c, x, kind, gap, rfl, -⟩ := hthrows
    simp
  rw [describe_of_caught hbv hcaught, describe_of_none hb]
  exact fun heq => hne (congrArg TestFailure.exceptionType heq)

/-- An exception of the text is described alike, unless its message goes on. -/
theorem describe_append_of_some (hU : WordsApart U)
    (hend : v ≠ [] → b ≠ [] → b.getLast? = some '\n') (hb : (exception U).search b = some e) :
    describe U name (b ++ v) = describe U name b ↔ (∀ c ∈ v, Text.isSpace c = true) ∨
    e.rest ≠ [] := by
  obtain ⟨n, a, e', hcaught, hsuffix, he', hcaught'⟩ := searchFrom_append hU hb v
  rw [describe_of_caught he' hcaught', describe_of_caught hb hcaught, hcaught.rest]
  by_cases hv : ∀ c ∈ v, Text.isSpace c = true
  · rw [strip_line_append_blank hv]
    exact ⟨fun _ => .inl hv, fun _ => rfl⟩
  rw [or_iff_right hv]
  refine ⟨fun heq hbehind => ?_, fun hbehind => by rw [line_append hbehind]⟩
  have hv' : v ≠ [] := by
    rintro rfl
    exact hv (by simp)
  have hb' : b ≠ [] := by
    rintro rfl
    simp at hsuffix
  -- the text ends in a line feed, so nothing but blanks stands behind the colon
  have hlast := getLast?_of_suffix hsuffix (by simp) (hend hv' hb')
  have hblank : ∀ c ∈ a, Text.isSpace c = true := by
    rcases a with _ | ⟨d, a⟩
    · simp
    · exact blank_of_behind (by rwa [List.getLast?_cons_cons] at hlast) hbehind
  have hempty : line a = [] := by rw [line, List.dropWhile_eq_nil_iff.mpr hblank]; rfl
  have hmessage := congrArg TestFailure.message heq
  rw [hempty] at hmessage
  have hnil : Text.strip (line (a ++ v)) = [] := by
    rcases List.take_eq_nil_iff.mp hmessage with h | h
    · exact absurd h (by decide)
    · exact h
  exact strip_line_ne_nil hblank hv hnil

/-- **When a text that goes on is described as the text itself.**  What is added is blank, or the
message ends in the text, or there is no exception at all and the text fills the description. -/
theorem describe_append_iff (hU : WordsApart U) (hend : v ≠ [] → b ≠ [] → b.getLast? = some '\n') :
    describe U name (b ++ v) = describe U name b ↔
      (∀ c ∈ v, Text.isSpace c = true) ∨ (∃ e, (exception U).search b = some e ∧ e.rest ≠ []) ∨
        ((exception U).search (b ++ v) = none ∧ 400 ≤ (Text.strip b).length) := by
  rcases hb : (exception U).search b with _ | e
  · rcases hbv : (exception U).search (b ++ v) with _ | e'
    · rw [describe_of_none hbv, describe_of_none hb, TestFailure.mk.injEq, take_strip_append_iff]
      simp
    · have hv : ¬ ∀ c ∈ v, Text.isSpace c = true := by
        intro hv
        rw [search, searchFrom_append_blank hU hv hb] at hbv
        cases hbv
      simp [describe_append_of_none hb hbv, hv]
  · have hbv : (exception U).search (b ++ v) ≠ none := by
      obtain ⟨_, _, e', -, -, he', -⟩ := searchFrom_append hU hb v
      rw [search, he']
      exact Option.some_ne_none e'
    rw [describe_append_of_some hU hend hb]
    simp [hbv]

end Describing

end Reading

/-! ## Outputs -/

section Outputs

variable {U : Unicode} {m : Place}

/-- **The window of a test tells no more than its block**: what it shows beyond the block is blank,
or the exception's message ends in the block, or there is no exception in the window and the block
alone fills the message. -/
def Confined (U : Unicode) (m : Place) : Prop :=
  (∀ c ∈ beyond U m, Text.isSpace c = true) ∨
    (∃ e, (exception U).search (block U m) = some e ∧ e.rest ≠ []) ∨
    ((exception U).search (m.rest.take 800) = none ∧ 400 ≤ (Text.strip (block U m)).length)

/-- **Each failure is described by its own block**: two outputs with the same failed tests, and the
same block behind one of them, record the same of it. -/
def OwnBlocks (U : Unicode) : Prop :=
  ∀ text text' m m', m ∈ recorded U text → m' ∈ recorded U text' →
    (recorded U text).map testName = (recorded U text').map testName →
    testName m = testName m' → block U m = block U m' → failureAt U m = failureAt U m'

/-- A failed test stands at the beginning of a line. -/
theorem atLineStart_of_failedTest {before rest : Text}
    (h : (failedTest U).matchAt before rest ≠ none) :
    (⟨before, rest, []⟩ : Place).atLineStart = true := by
  by_contra hstart
  exact h (if_neg hstart)

/-- A block that is followed by a failed test ends in a line feed. -/
theorem getLast?_block {after : Text}
    (h : (failedTest U).matchAt ((block U m).reverse ++ m.before) after ≠ none)
    (hne : block U m ≠ []) : (block U m).getLast? = some '\n' := by
  have hstart := atLineStart_of_failedTest h
  rcases hlast : (block U m).getLast? with _ | c
  · exact absurd (List.getLast?_eq_none_iff.mp hlast) hne
  · rw [Place.atLineStart, List.head?_append, List.head?_reverse, hlast] at hstart
    simpa using hstart

/-- **When a test is described by its own block.** -/
theorem failureAt_eq_alone_iff (hU : WordsApart U) (m : Place) :
    failureAt U m = alone U m ↔ Confined U m := by
  obtain ⟨after, hrest, hafter⟩ : ∃ after, m.rest = block U m ++ after ∧
      (after ≠ [] → (failedTest U).matchAt ((block U m).reverse ++ m.before) after ≠ none) :=
    exists_upTo_append
  have hbeyond : beyond U m = after.take (800 - (block U m).length) := by
    rw [beyond]
    nth_rewrite 1 [hrest]
    rw [List.drop_left]
  have hwindow : m.rest.take 800 = (block U m).take 800 ++ beyond U m := by
    rw [hbeyond]
    nth_rewrite 1 [hrest]
    rw [List.take_append]
  rw [failureAt_eq, alone, Confined, hwindow]
  by_cases hlong : 800 ≤ (block U m).length
  · have hnone : beyond U m = [] := by rw [hbeyond, Nat.sub_eq_zero_of_le hlong, List.take_zero]
    rw [hnone, List.append_nil]
    simp
  · rw [List.take_of_length_le (by omega)]
    refine describe_append_iff hU fun hv hne => getLast?_block (hafter ?_) hne
    rintro rfl
    rw [hbeyond, List.take_nil] at hv
    exact hv rfl

/-- **Which outputs are described block by block**: those whose windows are confined to their
blocks; and two of them that show a test with the same block record the same of it. -/
theorem ownBlocks_of_confined (hU : WordsApart U) :
    (∀ text, failuresOf U text = (recorded U text).map (alone U) ↔
      ∀ m ∈ recorded U text, Confined U m) ∧
    ∀ text text' m m', m ∈ recorded U text → m' ∈ recorded U text' → testName m = testName m' →
      block U m = block U m' → Confined U m → Confined U m' → failureAt U m = failureAt U m' := by
  constructor
  · intro text
    rw [failuresOf_eq_map, List.map_inj_left]
    exact forall₂_congr fun m _ => failureAt_eq_alone_iff hU m
  · intro text text' m m' _ _ hname hblock hm hm'
    rw [(failureAt_eq_alone_iff hU m).mpr hm, (failureAt_eq_alone_iff hU m').mpr hm',
      alone, alone, hname, hblock]

end Outputs

theorem wordsApart_ascii : WordsApart .ascii := by
  intro c hc
  rw [← Bool.not_eq_true]
  intro hword
  have hrange : 48 ≤ c.toNat ∧ c.toNat ≤ 122 := by
    rcases Bool.or_eq_true_iff.mp hword with h | h
    · rcases Bool.or_eq_true_iff.mp h with h | h
      · have hletter := Text.toNat_of_isAlpha h
        omega
      · have hdigit := Text.toNat_of_isDigit h
        omega
    · obtain rfl := of_decide_eq_true h
      decide
  simp only [Text.isSpace, List.contains_eq_mem, List.mem_cons, List.not_mem_nil, or_false,
    Bool.or_eq_true, Bool.and_eq_true, decide_eq_true_eq] at hc
  omega

theorem ownBlocks_of_confined_ascii :
    (∀ text, failuresOf .ascii text = (recorded .ascii text).map (alone .ascii) ↔
      ∀ m ∈ recorded .ascii text, Confined .ascii m) ∧
    ∀ text text' m m', m ∈ recorded .ascii text → m' ∈ recorded .ascii text' →
    testName m = testName m' →
      block .ascii m = block .ascii m' → Confined .ascii m → Confined .ascii m' →
        failureAt .ascii m = failureAt .ascii m' :=
  ownBlocks_of_confined wordsApart_ascii

/-- Two failed tests, the first without an exception of its own. -/
def twoFailed (thrown : String) : Text :=
  ("  Failed A.One [1 ms]\n  Failed A.Two [2 ms]\n  " ++ thrown ++ "\n").toList

/-- **A test is described by another test's exception**: what `A.Two` throws is recorded of
`A.One`. -/
theorem twoFailed_borrows : ¬ OwnBlocks .ascii := by
  intro h
  have hnames : (recorded .ascii (twoFailed "System.Exception : boom")).map testName
      = (recorded .ascii (twoFailed "System.TimeoutException : late")).map testName := by
        decide +kernel
  have hfirst : (recorded .ascii (twoFailed "System.Exception : boom")).head?.map (fun m =>
      (testName m, block .ascii m, (failureAt .ascii m).exceptionType))
      = some ("A.One".toList, " [1 ms]\n".toList, "System.Exception".toList) := by decide +kernel
  have hsecond : (recorded .ascii (twoFailed "System.TimeoutException : late")).head?.map (fun m =>
      (testName m, block .ascii m, (failureAt .ascii m).exceptionType))
      = some ("A.One".toList, " [1 ms]\n".toList,
        "System.TimeoutException".toList) := by decide +kernel
  rcases hm : recorded .ascii (twoFailed "System.Exception : boom") with _ | ⟨m, ms⟩
  · simp [hm] at hfirst
  rcases hm' : recorded .ascii (twoFailed "System.TimeoutException : late") with _ | ⟨m', ms'⟩
  · simp [hm'] at hsecond
  simp only [hm, List.head?_cons, Option.map_some, Option.some.injEq, Prod.mk.injEq] at hfirst
  simp only [hm', List.head?_cons, Option.map_some, Option.some.injEq, Prod.mk.injEq] at hsecond
  have hsame := h _ _ m m' (hm ▸ List.mem_cons_self) (hm' ▸ List.mem_cons_self) hnames
    (hfirst.1.trans hsecond.1.symm) (hfirst.2.1.trans hsecond.2.1.symm)
  have htypes := hfirst.2.2.symm.trans
    ((congrArg TestFailure.exceptionType hsame).trans hsecond.2.2)
  exact absurd htypes (by decide)

end TestOutput

end AgentPlatform
