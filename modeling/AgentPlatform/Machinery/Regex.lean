import Mathlib.Logic.Relation
import AgentPlatform.Machinery.Text

/-!
# Machinery/Regex — Python's regular expressions, by backtracking

A pattern runs from a place in a text and offers what follows every place it can end at, in the
order in which the engine tries them; the first one that what follows accepts is the match.
`search` takes the first place of the text where there is a match, and `finditer` goes on behind
each match.

* `run_many_greedy`, `run_many_lazy` — a repeated class reads a row of its characters;
* `run_ends`, `run_ne_none` — a match ends where the pattern can end, and there is one where it can;
* `searchFrom_of_quiet` — a stretch in which no match starts is passed over;
* `finditer_eq_nil_iff` — nothing is found one by one exactly where nothing is found at all.
-/

namespace Regex

/-! ## Characters -/

/-- The character classes of `re` on Unicode text: the decimal digits with their values, and the
word characters, of which the ASCII ones are known here. -/
structure Unicode where
  decimal? : Char → Option ℕ
  isWord : Char → Bool
  decimal_ascii : ∀ c, c.toNat < 128 → decimal? c = if c.isDigit then some (c.toNat - 48) else none
  isWord_ascii : ∀ c, c.toNat < 128 → isWord c = (c.isAlphanum || c = '_')

/-- The classes with nothing beyond ASCII. -/
def Unicode.ascii : Unicode where
  decimal? c := if c.isDigit then some (c.toNat - 48) else none
  isWord c := c.isAlphanum || c = '_'
  decimal_ascii _ _ := rfl
  isWord_ascii _ _ := rfl

/-- `\d`. -/
def Unicode.isDecimal (U : Unicode) (c : Char) : Bool := (U.decimal? c).isSome

namespace Unicode

variable {U : Unicode} {c : Char}

theorem isDecimal_ascii (h : c.toNat < 128) : U.isDecimal c = c.isDigit := by
  rw [isDecimal, U.decimal_ascii c h]
  cases c.isDigit <;> rfl

theorem decimal?_of_isDigit (h : c.isDigit = true) : U.decimal? c = some (c.toNat - 48) := by
  have hdigit := Text.toNat_of_isDigit h
  rw [U.decimal_ascii c (by omega), if_pos h]

theorem isDecimal_of_isDigit (h : c.isDigit = true) : U.isDecimal c = true := by
  rw [isDecimal, decimal?_of_isDigit h]
  rfl

end Unicode

/-- A small letter against a character, with `re.IGNORECASE`: four characters beyond ASCII count as
letters. -/
def sameLetter (l c : Char) : Bool :=
  c = l || c = l.toUpper || (l = 'i' && (c.toNat = 0x130 || c.toNat = 0x131)) ||
    (l = 's' && c.toNat = 0x17f) || (l = 'k' && c.toNat = 0x212a)

/-! ## Patterns -/

/-- A regular expression. -/
inductive Pattern where
  | nothing
  | one (p : Char → Bool)
  /-- `^`, with `re.MULTILINE`. -/
  | lineStart
  /-- `\b`. -/
  | boundary (isWord : Char → Bool)
  | seq (a b : Pattern)
  | alt (a b : Pattern)
  /-- `*` and `*?`. -/
  | many (greedy : Bool) (a : Pattern)
  | group (n : ℕ) (a : Pattern)

/-- A place in a text: the characters before, the nearest first, and those after; with what the
groups hold, the last one set first. -/
structure Place where
  before : Text
  rest : Text
  groups : List (ℕ × Text)
  deriving DecidableEq

/-- `match.group(n)`. -/
def Place.group (s : Place) (n : ℕ) : Text := (s.groups.lookup n).getD []

def Place.atLineStart (s : Place) : Bool := s.before.head?.all (· = '\n')

def Place.atBoundary (isWord : Char → Bool) (s : Place) : Bool :=
  s.before.head?.any isWord != s.rest.head?.any isWord

/-- The place behind the group, where it was entered and where it was left. -/
def Place.close (n : ℕ) (s s' : Place) : Place :=
  { s' with groups := (n, s.rest.take (s.rest.length - s'.rest.length)) :: s'.groups }

variable {α : Type}

/-- Repetition, of what reads at least one character each time. -/
def iterate (greedy : Bool) (step : (Place → Option α) → Place → Option α) (k : Place → Option α) :
    ℕ → Place → Option α
  | 0, s => k s
  | n + 1, s =>
    let more := step (fun s' => if s'.rest.length < s.rest.length
      then iterate greedy step k n s' else none) s
    if greedy then more.or (k s) else (k s).or more

namespace Pattern

/-- **The pattern from a place**, before what follows. -/
def run : Pattern → (Place → Option α) → Place → Option α
  | nothing, k, s => k s
  | one p, k, s =>
    match s.rest with
    | [] => none
    | c :: t => if p c then k ⟨c :: s.before, t, s.groups⟩ else none
  | lineStart, k, s => if s.atLineStart then k s else none
  | boundary isWord, k, s => if s.atBoundary isWord then k s else none
  | seq a b, k, s => a.run (b.run k) s
  | alt a b, k, s => (a.run k s).or (b.run k s)
  | many greedy a, k, s => iterate greedy a.run k s.rest.length s
  | group n a, k, s => a.run (fun s' => k (s.close n s')) s

def seqs : List Pattern → Pattern
  | [] => nothing
  | p :: ps => seq p (seqs ps)

/-- A literal. -/
def word (t : String) : Pattern := seqs (t.toList.map fun c => one (· = c))

/-- A literal in small letters, with `re.IGNORECASE`. -/
def anyCase (t : String) : Pattern := seqs (t.toList.map fun c => one (sameLetter c))

/-- `+`. -/
def plus (a : Pattern) : Pattern := seq a (many true a)

/-- `?`. -/
def opt (a : Pattern) : Pattern := alt a nothing

/-- `{n}`. -/
def times (n : ℕ) (a : Pattern) : Pattern := seqs (List.replicate n a)

example : times 2 lineStart = seq lineStart (seq lineStart nothing) := by simp [times, seqs]

/-! ## Searching -/

/-- The match at a place, as the place where it ends. -/
def matchAt (p : Pattern) (before rest : Text) : Option Place := p.run some ⟨before, rest, []⟩

def searchFrom (p : Pattern) (before : Text) : Text → Option Place
  | [] => p.matchAt before []
  | c :: t => (p.matchAt before (c :: t)).or (p.searchFrom (c :: before) t)

/-- `pattern.search(text)`. -/
def search (p : Pattern) (text : Text) : Option Place := p.searchFrom [] text

/-- `finditer`, of a pattern that matches no empty text, skipping what a match already covers. -/
def finditerFrom (p : Pattern) : ℕ → Text → Text → List Place
  | 0, before, [] => (p.matchAt before []).toList
  | _ + 1, _, [] => []
  | 0, before, c :: t =>
    match p.matchAt before (c :: t) with
    | some m => m :: p.finditerFrom (t.length - m.rest.length) (c :: before) t
    | none => p.finditerFrom 0 (c :: before) t
  | skip + 1, before, c :: t => p.finditerFrom skip (c :: before) t

/-- `pattern.finditer(text)`. -/
def finditer (p : Pattern) (text : Text) : List Place := p.finditerFrom 0 [] text

/-- `sub`, of a pattern that matches no empty text, skipping what a match already covers. -/
def subFrom (p : Pattern) (new : Text) : ℕ → Text → Text → Text
  | _, _, [] => []
  | 0, before, c :: t =>
    match p.matchAt before (c :: t) with
    | some m => new ++ p.subFrom new (t.length - m.rest.length) (c :: before) t
    | none => c :: p.subFrom new 0 (c :: before) t
  | skip + 1, before, c :: t => p.subFrom new skip (c :: before) t

/-- `pattern.sub(new, text)`. -/
def sub (p : Pattern) (new text : Text) : Text := p.subFrom new 0 [] text

/-- What stands between two matches is kept. -/
example : (one (· = 'a')).sub ['b'] "acab".toList
      = "bcbb".toList := by simp [sub, subFrom, matchAt, run]

/-! ## Reading a row of characters -/

section Running

variable {p : Char → Bool} {k : Place → Option α} {before rest w : Text} {g : List (ℕ × Text)}
  {r : α}

theorem run_one_cons {c : Char} (h : p c = true) :
    (one p).run k ⟨before, c :: rest, g⟩ = k ⟨c :: before, rest, g⟩ := if_pos h

theorem run_one_of_not (h : ∀ c ∈ rest.head?, p c = false) :
    (one p).run k ⟨before, rest, g⟩ = none := by
  cases rest with
  | nil => rfl
  | cons c t =>
    have hc := h c rfl
    exact if_neg (by rw [hc]; exact Bool.false_ne_true)

@[simp] theorem run_seqs_nil {s : Place} : (seqs []).run k s = k s := rfl

@[simp] theorem run_seqs_cons {a : Pattern} {as : List Pattern} {s : Place} :
    (seqs (a :: as)).run k s = a.run ((seqs as).run k) s := rfl

/-- A greedy row ends where no character of the class follows. -/
theorem iterate_greedy (n : ℕ) (hn : (w ++ rest).length ≤ n) (hw : ∀ c ∈ w, p c = true)
    (hrest : ∀ c ∈ rest.head?, p c = false) (hk : k ⟨w.reverse ++ before, rest, g⟩ = some r) :
    iterate true (one p).run k n ⟨before, w ++ rest, g⟩ = some r := by
  induction w generalizing before n with
  | nil =>
    cases n with
    | zero => exact hk
    | succ n =>
      rw [iterate, if_pos rfl, List.nil_append, run_one_of_not hrest]
      exact hk
  | cons c w ih =>
    rw [List.forall_mem_cons] at hw
    rw [List.cons_append, List.length_cons] at hn
    obtain ⟨m, rfl⟩ := Nat.exists_eq_succ_of_ne_zero
      (Nat.ne_of_gt (Nat.lt_of_lt_of_le (Nat.succ_pos _) hn))
    have hnext : iterate true (one p).run k m ⟨c :: before, w ++ rest, g⟩ = some r :=
      ih m (Nat.le_of_succ_le_succ hn) hw.2 (by simpa using hk)
    rw [iterate, if_pos rfl, List.cons_append, run_one_cons hw.1, if_pos (by simp), hnext]
    rfl

theorem run_many_greedy (hw : ∀ c ∈ w, p c = true) (hrest : ∀ c ∈ rest.head?, p c = false)
    (hk : k ⟨w.reverse ++ before, rest, g⟩ = some r) :
    (many true (one p)).run k ⟨before, w ++ rest, g⟩ = some r :=
  iterate_greedy _ (le_refl _) hw hrest hk

/-- A row that does not begin is passed over. -/
theorem run_many_of_not (greedy : Bool) (h : ∀ c ∈ rest.head?, p c = false) :
    (many greedy (one p)).run k ⟨before, rest, g⟩ = k ⟨before, rest, g⟩ := by
  cases rest with
  | nil => rfl
  | cons c t =>
    rw [run, List.length_cons, iterate, run_one_of_not h]
    cases greedy with
    | true => exact Option.none_or
    | false => exact Option.or_none

/-- A lazy row ends where what follows first succeeds. -/
theorem iterate_lazy (n : ℕ) (hn : (w ++ rest).length ≤ n) (hw : ∀ c ∈ w, p c = true)
    (hfail : ∀ u v, w = u ++ v → v ≠ [] → k ⟨u.reverse ++ before, v ++ rest, g⟩ = none)
    (hk : k ⟨w.reverse ++ before, rest, g⟩ = some r) :
    iterate false (one p).run k n ⟨before, w ++ rest, g⟩ = some r := by
  induction w generalizing before n with
  | nil =>
    cases n with
    | zero => exact hk
    | succ n =>
      rw [iterate, if_neg Bool.false_ne_true]
      rw [List.reverse_nil, List.nil_append] at hk
      rw [List.nil_append, hk]
      rfl
  | cons c w ih =>
    rw [List.forall_mem_cons] at hw
    rw [List.cons_append, List.length_cons] at hn
    obtain ⟨m, rfl⟩ := Nat.exists_eq_succ_of_ne_zero
      (Nat.ne_of_gt (Nat.lt_of_lt_of_le (Nat.succ_pos _) hn))
    have hnext : iterate false (one p).run k m ⟨c :: before, w ++ rest, g⟩ = some r :=
      ih m (Nat.le_of_succ_le_succ hn) hw.2
        (fun u v huv hv => by simpa using hfail (c :: u) v (by rw [huv, List.cons_append]) hv)
        (by simpa using hk)
    have hhere : k ⟨before, c :: (w ++ rest), g⟩ = none := by
      simpa using hfail [] (c :: w) rfl (List.cons_ne_nil c w)
    rw [iterate, if_neg Bool.false_ne_true, List.cons_append, hhere, run_one_cons hw.1,
      if_pos (by simp), hnext]
    rfl

theorem run_many_lazy (hw : ∀ c ∈ w, p c = true)
    (hfail : ∀ u v, w = u ++ v → v ≠ [] → k ⟨u.reverse ++ before, v ++ rest, g⟩ = none)
    (hk : k ⟨w.reverse ++ before, rest, g⟩ = some r) :
    (many false (one p)).run k ⟨before, w ++ rest, g⟩ = some r :=
  iterate_lazy _ (le_refl _) hw hfail hk

/-- A row of at least one character. -/
theorem run_plus (hne : w ≠ []) (hw : ∀ c ∈ w, p c = true) (hrest : ∀ c ∈ rest.head?, p c = false)
    (hk : k ⟨w.reverse ++ before, rest, g⟩ = some r) :
    (plus (one p)).run k ⟨before, w ++ rest, g⟩ = some r := by
  obtain ⟨c, w, rfl⟩ := List.exists_cons_of_ne_nil hne
  rw [List.forall_mem_cons] at hw
  rw [plus, run, List.cons_append, run_one_cons hw.1]
  exact run_many_greedy hw.2 hrest (by simpa using hk)

/-- A row of at least one character, as a group. -/
theorem run_group_plus {n : ℕ} (hne : w ≠ []) (hw : ∀ c ∈ w, p c = true)
    (hrest : ∀ c ∈ rest.head?, p c = false)
    (hk : k ⟨w.reverse ++ before, rest, (n, w) :: g⟩ = some r) :
    (group n (plus (one p))).run k ⟨before, w ++ rest, g⟩ = some r := by
  have hread : (w ++ rest).take ((w ++ rest).length - rest.length) = w := by
    rw [List.length_append, Nat.add_sub_cancel_right, List.take_left]
  rw [run]
  refine run_plus hne hw hrest ?_
  rw [Place.close, hread]
  exact hk

/-- A literal reads itself. -/
theorem run_literal {same : Char → Char → Bool} {t : Text}
    (hsame : List.Forall₂ (fun l c => same l c = true) t w) :
    (seqs (t.map fun c => one (same c))).run k ⟨before, w ++ rest, g⟩
      = k ⟨w.reverse ++ before, rest, g⟩ := by
  induction hsame generalizing before with
  | nil => rfl
  | cons h _ ih =>
    rw [List.map_cons, run_seqs_cons, List.cons_append, run_one_cons h, ih]
    simp

/-- A number of characters of one class is read as it stands. -/
theorem run_times {n : ℕ} (hn : w.length = n) (hw : ∀ c ∈ w, p c = true) :
    (times n (one p)).run k ⟨before, w ++ rest, g⟩ = k ⟨w.reverse ++ before, rest, g⟩ := by
  induction w generalizing before n with
  | nil =>
    obtain rfl : 0 = n := hn
    rfl
  | cons c w ih =>
    obtain rfl : w.length + 1 = n := hn
    rw [List.forall_mem_cons] at hw
    have hnext : (times w.length (one p)).run k ⟨c :: before, w ++ rest, g⟩
        = k ⟨w.reverse ++ c :: before, rest, g⟩ := ih rfl hw.2
    rw [times, List.replicate_succ, run_seqs_cons, List.cons_append,
      run_one_cons hw.1, ← times, hnext, List.reverse_cons, List.append_assoc]
    rfl

/-- `?` passes over what does not begin. -/
theorem run_opt_of_none {a : Pattern} {s : Place}
    (h : a.run k s = none) : (opt a).run k s = k s := by
  rw [opt, run, h, Option.none_or]
  rfl

theorem run_opt_of_some {a : Pattern} {s : Place}
    (h : a.run k s = some r) : (opt a).run k s = some r := by
  rw [opt, run, h, Option.some_or]

theorem run_boundary {isWord : Char → Bool} {s : Place} (h : s.atBoundary isWord = true) :
    (boundary isWord).run k s = k s := if_pos h

/-- A mark reads itself. -/
theorem run_mark {c : Char} {t : String} (ht : t.toList = [c]) :
    (word t).run k ⟨before, c :: rest, g⟩ = k ⟨c :: before, rest, g⟩ := by
  rw [word, ht]
  exact run_one_cons (p := fun d => d = c) (decide_eq_true rfl)

/-- A literal stops at another character. -/
theorem run_literal_of_not {same : Char → Char → Bool} {l : Char} {t : Text}
    (h : ∀ c ∈ rest.head?, same l c = false) :
    (seqs ((l :: t).map fun c => one (same c))).run k ⟨before, rest, g⟩ = none := by
  rw [List.map_cons, run_seqs_cons, run_one_of_not h]

end Running

/-! ## The places a pattern can end at

`Ends` forgets the order in which the engine tries them: a match ends at one of the places
(`run_ends`), and there is a match where what follows accepts one (`run_ne_none`). -/

/-- **The pattern can lead from one place to the other.** -/
def Ends : Pattern → Place → Place → Prop
  | nothing, s, s' => s' = s
  | one p, s, s' => ∃ c t, s.rest = c :: t ∧ p c = true ∧ s' = ⟨c :: s.before, t, s.groups⟩
  | lineStart, s, s' => s.atLineStart = true ∧ s' = s
  | boundary isWord, s, s' => s.atBoundary isWord = true ∧ s' = s
  | seq a b, s, s' => ∃ u, a.Ends s u ∧ b.Ends u s'
  | alt a b, s, s' => a.Ends s s' ∨ b.Ends s s'
  | many _ a, s, s' => Relation.ReflTransGen (fun u v => a.Ends u v ∧
    v.rest.length < u.rest.length) s s'
  | group n a, s, s' => ∃ u, a.Ends s u ∧ s' = s.close n u

section Ending

variable {k : Place → Option α} {s s' : Place} {r : α} {p : Char → Bool}

/-- Repetition ends where repeated steps lead. -/
theorem iterate_ends {greedy : Bool} {a : Pattern}
    (ha : ∀ (k : Place → Option α) (s : Place) (r : α), a.run k s = some r →
      ∃ s', a.Ends s s' ∧ k s' = some r)
    {n : ℕ} (h : iterate greedy a.run k n s = some r) :
    ∃ s', (many greedy a).Ends s s' ∧ k s' = some r := by
  induction n generalizing s with
  | zero => exact ⟨s, Relation.ReflTransGen.refl, h⟩
  | succ n ih =>
    have hmore : a.run (fun s' => if s'.rest.length < s.rest.length then iterate greedy a.run k n s'
        else none) s = some r → ∃ s', (many greedy a).Ends s s' ∧ k s' = some r := by
      intro hstep
      obtain ⟨u, hu, hnext⟩ := ha _ _ _ hstep
      split at hnext
      · rename_i hshort
        obtain ⟨s', hs', hk⟩ := ih hnext
        exact ⟨s', Relation.ReflTransGen.head ⟨hu, hshort⟩ hs', hk⟩
      · cases hnext
    rw [iterate] at h
    split at h
    · rcases Option.or_eq_some_iff.mp h with h | ⟨-, h⟩
      · exact hmore h
      · exact ⟨s, Relation.ReflTransGen.refl, h⟩
    · rcases Option.or_eq_some_iff.mp h with h | ⟨-, h⟩
      · exact ⟨s, Relation.ReflTransGen.refl, h⟩
      · exact hmore h

/-- **A match ends at a place the pattern can end at.** -/
theorem run_ends {p : Pattern} (h : p.run k s = some r) : ∃ s', p.Ends s s' ∧ k s' = some r := by
  induction p generalizing k s r with
  | nothing => exact ⟨s, rfl, h⟩
  | one p =>
    rw [run] at h
    split at h
    · cases h
    · rename_i c t hrest
      split at h
      · exact ⟨_, ⟨c, t, hrest, ‹_›, rfl⟩, h⟩
      · cases h
  | lineStart =>
    rw [run] at h
    split at h
    · exact ⟨s, ⟨‹_›, rfl⟩, h⟩
    · cases h
  | boundary isWord =>
    rw [run] at h
    split at h
    · exact ⟨s, ⟨‹_›, rfl⟩, h⟩
    · cases h
  | seq a b iha ihb =>
    obtain ⟨u, hu, h⟩ := iha h
    obtain ⟨s', hs', hk⟩ := ihb h
    exact ⟨s', ⟨u, hu, hs'⟩, hk⟩
  | alt a b iha ihb =>
    rcases Option.or_eq_some_iff.mp h with h | ⟨-, h⟩
    · obtain ⟨s', hs', hk⟩ := iha h
      exact ⟨s', .inl hs', hk⟩
    · obtain ⟨s', hs', hk⟩ := ihb h
      exact ⟨s', .inr hs', hk⟩
  | many greedy a ih => exact iterate_ends (fun k s r h => ih h) h
  | group n a ih =>
    obtain ⟨u, hu, hk⟩ := ih h
    exact ⟨_, ⟨u, hu, rfl⟩, hk⟩

/-- Repetition tries every place repeated steps lead to, given as many rounds as there are
characters. -/
theorem iterate_ne_none {greedy : Bool} {a : Pattern}
    (ha : ∀ (k : Place → Option α) (s s' : Place), a.Ends s s' → k s' ≠ none → a.run k s ≠ none)
    {n : ℕ} (hn : s.rest.length ≤ n) (h : (many greedy a).Ends s s') (hk : k s' ≠ none) :
    iterate greedy a.run k n s ≠ none := by
  induction h using Relation.ReflTransGen.head_induction_on generalizing n with
  | refl =>
    cases n with
    | zero => exact hk
    | succ n =>
      rw [iterate]
      split <;> simp [Option.or_eq_none_iff, hk]
  | head hstep _ ih =>
    obtain ⟨hends, hshort⟩ := hstep
    cases n with
    | zero => omega
    | succ n =>
      have hmore := ha (fun u => if u.rest.length < _ then iterate greedy a.run k n u
        else none) _ _ hends
        (by rw [if_pos hshort]; exact ih (by omega))
      rw [iterate]
      split
      · exact fun hnone => hmore (Option.or_eq_none_iff.mp hnone).1
      · exact fun hnone => hmore (Option.or_eq_none_iff.mp hnone).2

/-- **There is a match where what follows accepts a place the pattern can end at.** -/
theorem run_ne_none {p : Pattern} (h : p.Ends s s') (hk : k s' ≠ none) : p.run k s ≠ none := by
  induction p generalizing k s s' with
  | nothing =>
    obtain rfl : s' = s := h
    exact hk
  | one p =>
    obtain ⟨c, t, hrest, hc, rfl⟩ := h
    rw [run, hrest]
    dsimp only
    rwa [if_pos hc]
  | lineStart =>
    obtain ⟨hstart, rfl⟩ := h
    rwa [run, if_pos hstart]
  | boundary isWord =>
    obtain ⟨hedge, rfl⟩ := h
    rwa [run, if_pos hedge]
  | seq a b iha ihb =>
    obtain ⟨u, hu, hs'⟩ := h
    exact iha hu (ihb hs' hk)
  | alt a b iha ihb =>
    rw [run]
    intro hnone
    rw [Option.or_eq_none_iff] at hnone
    rcases h with h | h
    · exact iha h hk hnone.1
    · exact ihb h hk hnone.2
  | many greedy a ih => exact iterate_ne_none (fun k s s' h hk => ih h hk) le_rfl h hk
  | group n a ih =>
    obtain ⟨u, hu, rfl⟩ := h
    exact ih hu hk

/-- A repeated class reads a row of its characters. -/
theorem ends_many_one {greedy : Bool} : (many greedy (one p)).Ends s s' ↔
    ∃ w t, s.rest = w ++ t ∧ (∀ c ∈ w, p c = true) ∧ s' = ⟨w.reverse ++ s.before, t, s.groups⟩ := by
  constructor
  · intro h
    induction h using Relation.ReflTransGen.head_induction_on with
    | refl => exact ⟨[], s'.rest, rfl, by simp, rfl⟩
    | head hstep _ ih =>
      obtain ⟨⟨c, t, hrest, hc, rfl⟩, -⟩ := hstep
      obtain ⟨w, t', rfl, hw, rfl⟩ := ih
      exact ⟨c :: w, t', hrest, List.forall_mem_cons.mpr ⟨hc, hw⟩, by simp⟩
  · rintro ⟨w, t, hrest, hw, rfl⟩
    obtain ⟨before, rest, g⟩ := s
    obtain rfl : rest = w ++ t := hrest
    induction w generalizing before with
    | nil => exact Relation.ReflTransGen.refl
    | cons c w ih =>
      rw [List.forall_mem_cons] at hw
      have hnext := ih hw.2 (c :: before)
      rw [List.reverse_cons, List.append_assoc]
      exact Relation.ReflTransGen.head ⟨⟨c, w ++ t, rfl, hw.1, rfl⟩, by simp⟩ hnext

/-- A row of characters, one class for each. -/
theorem ends_row {same : Char → Char → Bool} {t : Text} :
    (seqs (t.map fun l => one (same l))).Ends s s' ↔
      ∃ w u, s.rest = w ++ u ∧ List.Forall₂ (fun l c => same l c = true) t w ∧
        s' = ⟨w.reverse ++ s.before, u, s.groups⟩ := by
  induction t generalizing s with
  | nil =>
    constructor
    · intro h
      exact ⟨[], s.rest, rfl, .nil, h⟩
    · rintro ⟨w, u, hrest, hsame, rfl⟩
      cases hsame
      rw [List.nil_append] at hrest
      rw [← hrest]
      rfl
  | cons l t ih =>
    constructor
    · rintro ⟨v, ⟨c, r, hrest, hc, rfl⟩, h⟩
      obtain ⟨w, u, rfl, hsame, rfl⟩ := ih.mp h
      exact ⟨c :: w, u, hrest, .cons hc hsame, by simp⟩
    · rintro ⟨_, u, hrest, hsame, rfl⟩
      cases hsame with
      | @cons _ c _ w hc hsame =>
        exact ⟨_, ⟨c, w ++ u, hrest, hc, rfl⟩, ih.mpr ⟨w, u, rfl, hsame, by simp⟩⟩

/-- A literal reads itself. -/
theorem ends_word {t : String} : (word t).Ends s s' ↔
    ∃ u, s.rest = t.toList ++ u ∧ s' = ⟨t.toList.reverse ++ s.before, u, s.groups⟩ := by
  rw [word]
  generalize t.toList = w
  refine ends_row.trans ⟨?_, ?_⟩
  · rintro ⟨v, u, hrest, hsame, rfl⟩
    obtain rfl : v = w := by
      clear hrest
      induction hsame with
      | nil => rfl
      | cons hc _ ih => rw [of_decide_eq_true hc, ih]
    exact ⟨u, hrest, rfl⟩
  · rintro ⟨u, hrest, rfl⟩
    refine ⟨w, u, hrest, ?_, rfl⟩
    clear hrest
    induction w with
    | nil => exact .nil
    | cons c w ih => exact .cons (decide_eq_true rfl) ih

/-- A number of characters of one class. -/
theorem ends_times {n : ℕ} : (times n (one p)).Ends s s' ↔
    ∃ w u, s.rest = w ++ u ∧ w.length = n ∧ (∀ c ∈ w, p c = true) ∧
      s' = ⟨w.reverse ++ s.before, u, s.groups⟩ := by
  induction n generalizing s with
  | zero =>
    constructor
    · intro h
      exact ⟨[], s.rest, rfl, rfl, by simp, h⟩
    · rintro ⟨w, u, hrest, hlength, -, rfl⟩
      obtain rfl := List.length_eq_zero_iff.mp hlength
      rw [List.nil_append] at hrest
      rw [← hrest]
      rfl
  | succ n ih =>
    constructor
    · rintro ⟨v, ⟨c, r, hrest, hc, rfl⟩, h⟩
      obtain ⟨w, u, rfl, hlength, hw, rfl⟩ := ih.mp h
      exact ⟨c :: w, u, hrest, congrArg (· + 1) hlength, List.forall_mem_cons.mpr ⟨hc, hw⟩, by simp⟩
    · rintro ⟨w, u, hrest, hlength, hw, rfl⟩
      obtain ⟨c, w, rfl⟩ := List.exists_cons_of_length_eq_add_one hlength
      rw [List.forall_mem_cons] at hw
      exact ⟨_, ⟨c, w ++ u, hrest, hw.1, rfl⟩,
        ih.mpr ⟨w, u, rfl, Nat.succ.inj hlength, hw.2, by simp⟩⟩

/-- A row of at least one character. -/
theorem ends_plus_one : (plus (one p)).Ends s s' ↔
    ∃ w u, s.rest = w ++ u ∧ w ≠ [] ∧ (∀ c ∈ w, p c = true) ∧
    s' = ⟨w.reverse ++ s.before, u, s.groups⟩ := by
  constructor
  · rintro ⟨v, ⟨c, t, hrest, hc, rfl⟩, h⟩
    obtain ⟨w, u, rfl, hw, rfl⟩ := ends_many_one.mp h
    exact ⟨c :: w, u, hrest, List.cons_ne_nil c w, List.forall_mem_cons.mpr ⟨hc, hw⟩, by simp⟩
  · rintro ⟨w, u, hrest, hne, hw, rfl⟩
    obtain ⟨c, w, rfl⟩ := List.exists_cons_of_ne_nil hne
    rw [List.forall_mem_cons] at hw
    exact ⟨_, ⟨c, w ++ u, hrest, hw.1, rfl⟩, ends_many_one.mpr ⟨w, u, rfl, hw.2, by simp⟩⟩

/-- A match leaves an end of what was to be read. -/
theorem ends_suffix {p : Pattern} (h : p.Ends s s') : s'.rest <:+ s.rest := by
  induction p generalizing s s' with
  | nothing =>
    obtain rfl : s' = s := h
    exact List.suffix_refl _
  | one p =>
    obtain ⟨c, t, hrest, -, rfl⟩ := h
    rw [hrest]
    exact List.suffix_cons c t
  | lineStart =>
    obtain ⟨-, rfl⟩ := h
    exact List.suffix_refl _
  | boundary isWord =>
    obtain ⟨-, rfl⟩ := h
    exact List.suffix_refl _
  | seq a b iha ihb =>
    obtain ⟨u, hu, hs'⟩ := h
    exact (ihb hs').trans (iha hu)
  | alt a b iha ihb => exact h.elim iha ihb
  | many greedy a ih =>
    induction h using Relation.ReflTransGen.head_induction_on with
    | refl => exact List.suffix_refl _
    | head hstep _ ihrest => exact ihrest.trans (ih hstep.1)
  | group n a ih =>
    obtain ⟨u, hu, rfl⟩ := h
    have hrest := ih hu
    exact hrest

/-- **Every match reads a character of the class.** -/
def Needs (q : Char → Bool) : Pattern → Prop
  | nothing => False
  | one p => ∀ c, p c = true → q c = true
  | lineStart => False
  | boundary _ => False
  | seq a b => a.Needs q ∨ b.Needs q
  | alt a b => a.Needs q ∧ b.Needs q
  | many _ _ => False
  | group _ a => a.Needs q

theorem needs_word {q : Char → Bool} {t : String}
    (h : t.toList.any q = true) : (word t).Needs q := by
  rw [word]
  generalize t.toList = w at h
  induction w with
  | nil => cases h
  | cons c w ih =>
    rw [List.any_cons, Bool.or_eq_true] at h
    refine h.imp (fun hc d hd => ?_) ih
    rwa [of_decide_eq_true hd]

theorem exists_mem_of_needs {q : Char → Bool} {p : Pattern} (hp : p.Needs q) (h : p.Ends s s') :
    ∃ c ∈ s.rest, q c = true := by
  induction p generalizing s s' with
  | nothing => exact hp.elim
  | one p =>
    obtain ⟨c, t, hrest, hc, -⟩ := h
    exact ⟨c, hrest ▸ List.mem_cons_self, hp c hc⟩
  | lineStart => exact hp.elim
  | boundary isWord => exact hp.elim
  | seq a b iha ihb =>
    obtain ⟨u, hu, hs'⟩ := h
    rcases hp with hp | hp
    · exact iha hp hu
    · obtain ⟨c, hc, hq⟩ := ihb hp hs'
      exact ⟨c, (ends_suffix hu).mem hc, hq⟩
  | alt a b iha ihb => exact h.elim (iha hp.1) (ihb hp.2)
  | many greedy a => exact hp.elim
  | group n a ih =>
    obtain ⟨u, hu, -⟩ := h
    exact ih hp hu

end Ending

/-! ## Where no match starts -/

/-- No match starts in the stretch `w` of a text. -/
def Quiet (p : Pattern) : Text → Text → Text → Prop
  | _, [], _ => True
  | before, c :: w, rest => p.matchAt before (c :: (w ++ rest)) = none ∧
    p.Quiet (c :: before) w rest

instance decidableQuiet (p : Pattern) : ∀ before w rest, Decidable (p.Quiet before w rest)
  | _, [], _ => .isTrue trivial
  | before, c :: w, rest =>
    have := decidableQuiet p (c :: before) w rest
    inferInstanceAs (Decidable (p.matchAt before (c :: (w ++ rest)) = none ∧
      p.Quiet (c :: before) w rest))

/-- The text up to the next match. -/
def upTo (p : Pattern) : Text → Text → Text
  | _, [] => []
  | before, c :: t => if (p.matchAt before (c :: t)).isSome then [] else c :: p.upTo (c :: before) t

section Searching

variable {p : Pattern} {before rest w : Text}

/-- The next match begins behind what stands before it. -/
theorem exists_upTo_append : ∃ after, rest = p.upTo before rest ++ after ∧
    (after ≠ [] → p.matchAt ((p.upTo before rest).reverse ++ before) after ≠ none) := by
  induction rest generalizing before with
  | nil => exact ⟨[], rfl, by simp⟩
  | cons c t ih =>
    rw [upTo]
    split
    · rename_i hmatch
      exact ⟨c :: t, rfl, fun _ => Option.isSome_iff_ne_none.mp hmatch⟩
    · obtain ⟨after, hrest, hafter⟩ := @ih (c :: before)
      refine ⟨after, by rw [List.cons_append, ← hrest], ?_⟩
      rwa [List.reverse_cons, List.append_assoc]

theorem searchFrom_of_quiet (h : p.Quiet before w rest) :
    p.searchFrom before (w ++ rest) = p.searchFrom (w.reverse ++ before) rest := by
  induction w generalizing before with
  | nil => rfl
  | cons c w ih =>
    rw [List.cons_append, searchFrom, h.1, Option.none_or, ih h.2, List.reverse_cons,
      List.append_assoc]
    rfl

theorem searchFrom_of_matchAt {m : Place} (h : p.matchAt before rest = some m) :
    p.searchFrom before rest = some m := by
  cases rest with
  | nil => exact h
  | cons c t => rw [searchFrom, h, Option.some_or]

/-- A match is found whatever stands before it. -/
theorem searchFrom_append_ne_none (h : p.searchFrom (w.reverse ++ before) rest ≠ none) :
    p.searchFrom before (w ++ rest) ≠ none := by
  induction w generalizing before with
  | nil => exact h
  | cons c w ih =>
    rw [List.reverse_cons, List.append_assoc] at h
    rw [List.cons_append, searchFrom]
    cases p.matchAt before (c :: (w ++ rest)) with
    | none => exact ih h
    | some m => exact Option.some_ne_none m

theorem finditerFrom_eq_nil_iff : p.finditerFrom 0 before rest = [] ↔
    p.searchFrom before rest = none := by
  induction rest generalizing before with
  | nil => rw [finditerFrom, searchFrom, Option.toList_eq_nil_iff]
  | cons c t ih =>
    rw [finditerFrom, searchFrom]
    cases p.matchAt before (c :: t) with
    | none => exact ih
    | some m => simp

/-- **Nothing is found one by one exactly where nothing is found at all.** -/
theorem finditer_eq_nil_iff : p.finditer rest = [] ↔ p.search rest = none := finditerFrom_eq_nil_iff

end Searching

end Pattern

end Regex
