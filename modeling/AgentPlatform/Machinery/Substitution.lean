import AgentPlatform.Machinery.Regex

/-!
# Machinery/Substitution — `re.sub`, piece by piece

A text is rewritten piece by piece where no match leads from one piece into the next.  Which
characters a pattern reads first and last (`opens`, `closes`) tells, at each joint, whether it can
go on there; where it can, it may still get stuck in what follows (`Shut`).

* `run_widen` — a pattern that is shut at the end of a text does not see what stands behind it;
* `subFrom_append` — …so the text is rewritten as if alone;
* `subFrom_of_quiet`, `subFrom_of_matchAt` — a piece without a match stays, a piece that is one
  match goes;
* `Woven.rewrite`, `Woven.forget` — two texts that differ in tokens behind blanks stay alike, or
  become one.
-/

namespace Regex

/-- The place in a longer text. -/
def Place.widen (b r : Text) (s : Place) : Place := ⟨s.before ++ b, s.rest ++ r, s.groups⟩

namespace Pattern

variable {α : Type}

/-! ## What a pattern reads -/

/-- The pattern can match the empty text. -/
def nullable : Pattern → Bool
  | nothing => true
  | one _ => false
  | lineStart => true
  | boundary _ => true
  | seq a b => a.nullable && b.nullable
  | alt a b => a.nullable || b.nullable
  | many _ _ => true
  | group _ a => a.nullable

/-- The character can be the first one the pattern reads or, with `edge`, looks at. -/
def opens (edge : Bool) : Pattern → Char → Bool
  | nothing, _ => false
  | one p, c => p c
  | lineStart, _ => false
  | boundary isWord, c => edge && isWord c
  | seq a b, c => a.opens edge c || (a.nullable && b.opens edge c)
  | alt a b, c => a.opens edge c || b.opens edge c
  | many _ a, c => a.opens edge c
  | group _ a, c => a.opens edge c

/-- The character can be the last one the pattern reads. -/
def closes : Pattern → Char → Bool
  | nothing, _ => false
  | one p, c => p c
  | lineStart, _ => false
  | boundary _, _ => false
  | seq a b, c => b.closes c || (b.nullable && a.closes c)
  | alt a b, c => a.closes c || b.closes c
  | many _ a, c => a.closes c
  | group _ a, c => a.closes c

/-- The pattern can read the character somewhere. -/
def reads : Pattern → Char → Bool
  | nothing, _ => false
  | one p, c => p c
  | lineStart, _ => false
  | boundary _, _ => false
  | seq a b, c => a.reads c || b.reads c
  | alt a b, c => a.reads c || b.reads c
  | many _ a, c => a.reads c
  | group _ a, c => a.reads c

section Reading

variable {p : Pattern} {s s' : Place} {c : Char}

theorem reads_of_closes (h : p.closes c = true) : p.reads c = true := by
  induction p with
  | nothing => exact h
  | one p => exact h
  | lineStart => exact h
  | boundary _ => exact h
  | seq a b iha ihb =>
    rw [closes, Bool.or_eq_true, Bool.and_eq_true] at h
    rw [reads, Bool.or_eq_true]
    exact h.elim (fun hb => .inr (ihb hb)) (fun ha => .inl (iha ha.2))
  | alt a b iha ihb =>
    rw [closes, Bool.or_eq_true] at h
    rw [reads, Bool.or_eq_true]
    exact h.imp iha ihb
  | many _ a ih => exact ih h
  | group _ a ih => exact ih h

/-- No pattern changes the text it runs over. -/
theorem ends_text (h : p.Ends s s') :
    s'.rest.reverse ++ s'.before = s.rest.reverse ++ s.before := by
  induction p generalizing s s' with
  | nothing =>
    obtain rfl : s' = s := h
    rfl
  | one p =>
    obtain ⟨c, t, hrest, -, rfl⟩ := h
    simp [hrest]
  | lineStart => rw [h.2]
  | boundary _ => rw [h.2]
  | seq a b iha ihb =>
    obtain ⟨u, hu, hs'⟩ := h
    exact (ihb hs').trans (iha hu)
  | alt a b iha ihb => exact h.elim iha ihb
  | many _ a ih =>
    induction h with
    | refl => rfl
    | tail _ hstep hprev => exact (ih hstep.1).trans hprev
  | group _ a ih =>
    obtain ⟨u, hu, rfl⟩ := h
    have hread := ih hu
    exact hread

/-- **A pattern stays where it is, or reads**: a first and a last character. -/
theorem ends_cases (h : p.Ends s s') :
    (p.nullable = true ∧ s'.before = s.before ∧ s'.rest = s.rest) ∨
      (s'.rest.length < s.rest.length ∧ (∃ c ∈ s.rest.head?, p.opens false c = true) ∧
        ∃ c ∈ s'.before.head?, p.closes c = true) := by
  induction p generalizing s s' with
  | nothing =>
    obtain rfl : s' = s := h
    exact .inl ⟨rfl, rfl, rfl⟩
  | one p =>
    obtain ⟨c, t, hrest, hc, rfl⟩ := h
    exact .inr ⟨by simp [hrest], ⟨c, by simp [hrest], hc⟩, c, rfl, hc⟩
  | lineStart =>
    obtain ⟨-, rfl⟩ := h
    exact .inl ⟨rfl, rfl, rfl⟩
  | boundary _ =>
    obtain ⟨-, rfl⟩ := h
    exact .inl ⟨rfl, rfl, rfl⟩
  | seq a b iha ihb =>
    obtain ⟨u, hu, hs'⟩ := h
    simp only [nullable, opens, closes, Bool.and_eq_true, Bool.or_eq_true]
    rcases iha hu with ⟨hna, hbefore, hrest⟩ | ⟨hshort, ⟨c, hc, hopen⟩, d, hd, hclose⟩ <;>
      rcases ihb hs' with ⟨hnb, hbefore', hrest'⟩ | ⟨hshort', ⟨c', hc', hopen'⟩, d', hd', hclose'⟩
    · exact .inl ⟨⟨hna, hnb⟩, hbefore'.trans hbefore, hrest'.trans hrest⟩
    · rw [hrest] at hc' hshort'
      exact .inr ⟨hshort', ⟨c', hc', .inr ⟨hna, hopen'⟩⟩, d', hd', .inl hclose'⟩
    · rw [hrest', hbefore']
      exact .inr ⟨hshort, ⟨c, hc, .inl hopen⟩, d, hd, .inr ⟨hnb, hclose⟩⟩
    · exact .inr ⟨hshort'.trans hshort, ⟨c, hc, .inl hopen⟩, d', hd', .inl hclose'⟩
  | alt a b iha ihb =>
    simp only [nullable, opens, closes, Bool.or_eq_true]
    rcases h with h | h
    · exact (iha h).imp (fun hs => ⟨.inl hs.1, hs.2⟩) fun ⟨hshort, ⟨c, hc, hopen⟩, d, hd, hclose⟩ =>
        ⟨hshort, ⟨c, hc, .inl hopen⟩, d, hd, .inl hclose⟩
    · exact (ihb h).imp (fun hs => ⟨.inr hs.1, hs.2⟩) fun ⟨hshort, ⟨c, hc, hopen⟩, d, hd, hclose⟩ =>
        ⟨hshort, ⟨c, hc, .inr hopen⟩, d, hd, .inr hclose⟩
  | many _ a ih =>
    induction h with
    | refl => exact .inl ⟨rfl, rfl, rfl⟩
    | tail _ hstep hprev =>
      obtain ⟨hstep, hshort⟩ := hstep
      rcases ih hstep with ⟨-, -, hrest⟩ | ⟨-, ⟨c, hc, hopen⟩, hclose⟩
      · rw [hrest] at hshort
        exact absurd hshort (lt_irrefl _)
      · rcases hprev with ⟨-, -, hrest⟩ | ⟨hshort', hopen', -⟩
        · rw [hrest] at hc hshort
          exact .inr ⟨hshort, ⟨c, hc, hopen⟩, hclose⟩
        · exact .inr ⟨hshort.trans hshort', hopen', hclose⟩
  | group _ a ih =>
    obtain ⟨u, hu, rfl⟩ := h
    have hread := ih hu
    exact hread

/-- What reads goes on only where it may begin. -/
theorem not_ends_of_opens (hnull : p.nullable = false)
    (hopen : ∀ c ∈ s.rest.head?, p.opens false c = false) :
    ¬ p.Ends s s' := by
  intro h
  rcases ends_cases h with ⟨hnull', -, -⟩ | ⟨-, ⟨c, hc, hopen'⟩, -⟩
  · rw [hnull] at hnull'
    cases hnull'
  · rw [hopen c hc] at hopen'
    cases hopen'

theorem opens_of_opens {edge : Bool} (h : p.opens edge c = true) : p.opens true c = true := by
  induction p with
  | nothing => exact h
  | one p => exact h
  | lineStart => exact h
  | boundary isWord =>
    rw [opens, Bool.and_eq_true] at h
    exact h.2
  | seq a b iha ihb =>
    rw [opens, Bool.or_eq_true, Bool.and_eq_true] at h ⊢
    exact h.imp iha fun hb => ⟨hb.1, ihb hb.2⟩
  | alt a b iha ihb =>
    rw [opens, Bool.or_eq_true] at h ⊢
    exact h.imp iha ihb
  | many _ a ih => exact ih h
  | group _ a ih => exact ih h

/-- A run ends nowhere where the pattern does not. -/
theorem run_eq_none {k : Place → Option α} (h : ∀ s', ¬ p.Ends s s') : p.run k s = none := by
  rw [Option.eq_none_iff_forall_ne_some]
  intro r hr
  obtain ⟨s', hs', -⟩ := run_ends hr
  exact h s' hs'

end Reading

/-! ## What stands behind the text -/

/-- **A pattern makes nothing of a text that follows**: it does not look at its first character, or
it has to read on and gets stuck. -/
def Shut (p : Pattern) (r : Text) : Prop :=
  (∀ c ∈ r.head?, p.opens true c = false) ∨
    (p.nullable = false ∧ ∀ before g s', ¬ p.Ends ⟨before, r, g⟩ s')

/-- No part of the pattern that has read `d` goes on into the text. -/
def Sealed (d : Char) (r : Text) : Pattern → Prop
  | nothing => True
  | one _ => True
  | lineStart => True
  | boundary _ => True
  | seq a b => a.Sealed d r ∧ b.Sealed d r ∧ (a.closes d = true → b.Shut r)
  | alt a b => a.Sealed d r ∧ b.Sealed d r
  | many _ a => a.Sealed d r ∧ (a.closes d = true → a.Shut r)
  | group _ a => a.Sealed d r

section Widening

variable {p : Pattern} {b r : Text} {d : Char} {s : Place} {k k' : Place → Option α} {f : α → α}

/-- What never reads the last character is sealed behind it. -/
theorem sealed_of_not_reads (h : p.reads d = false) : p.Sealed d r := by
  induction p with
  | nothing => trivial
  | one _ => trivial
  | lineStart => trivial
  | boundary _ => trivial
  | seq a b iha ihb =>
    rw [reads, Bool.or_eq_false_iff] at h
    refine ⟨iha h.1, ihb h.2, fun hclose => ?_⟩
    rw [reads_of_closes hclose] at h
    cases h.1
  | alt a b iha ihb =>
    rw [reads, Bool.or_eq_false_iff] at h
    exact ⟨iha h.1, ihb h.2⟩
  | many _ a ih =>
    refine ⟨ih h, fun hclose => ?_⟩
    rw [reads, reads_of_closes hclose] at h
    cases h
  | group _ a ih => exact ih h

/-- A sequence is sealed where its first pattern reads nothing of the kind, and the others are
sealed. -/
theorem sealed_seqs_cons {a : Pattern} {as : List Pattern} (ha : a.reads d = false)
    (has : (seqs as).Sealed d r) : (seqs (a :: as)).Sealed d r := by
  refine ⟨sealed_of_not_reads ha, has, fun hclose => ?_⟩
  rw [reads_of_closes hclose] at ha
  cases ha

/-- …or where the others do not begin with what follows. -/
theorem sealed_seqs_cons_of_opens {a : Pattern} {as : List Pattern} (ha : a.Sealed d r)
    (has : (seqs as).Sealed d r) (hopen : ∀ c ∈ r.head?, (seqs as).opens true c = false) :
    (seqs (a :: as)).Sealed d r := ⟨ha, has, fun _ => .inl hopen⟩

/-- A repeated class is sealed before another character. -/
theorem sealed_plus_one {q : Char → Bool}
    (h : ∀ c ∈ r.head?, q c = false) : (plus (one q)).Sealed d r :=
  ⟨trivial, ⟨trivial, fun _ => .inl h⟩, fun _ => .inl h⟩

theorem reads_times {q : Char → Bool} {n : ℕ} {c : Char} (h : q c = false) :
    (times n (one q)).reads c = false := by
  induction n with
  | zero => rfl
  | succ n ih => exact Bool.or_eq_false_iff.mpr ⟨h, ih⟩

theorem Shut.not_shorter {s' : Place} (h : p.Shut s.rest) (hs : p.Ends s s') :
    ¬ s'.rest.length < s.rest.length := by
  rcases h with hopen | ⟨-, hstuck⟩
  · rcases ends_cases hs with ⟨-, -, hrest⟩ | ⟨-, ⟨c, hc, hopen'⟩, -⟩
    · rw [hrest]
      exact lt_irrefl _
    · have hnot := opens_of_opens hopen'
      rw [hopen c hc] at hnot
      cases hnot
  · exact absurd hs (hstuck s.before s.groups s')

/-- Repetition ends at once where no step reads. -/
theorem iterate_of_not_shorter {greedy : Bool} {a : Pattern} {n : ℕ}
    (h : ∀ s', a.Ends s s' → ¬ s'.rest.length < s.rest.length) :
    iterate greedy a.run k n s = k s := by
  cases n with
  | zero => rfl
  | succ n =>
    have hmore : a.run (fun s' => if s'.rest.length < s.rest.length then iterate greedy a.run k n s'
        else none) s = none := by
      rw [Option.eq_none_iff_forall_ne_some]
      intro r hr
      obtain ⟨s', hs', hnext⟩ := run_ends hr
      rw [if_neg (h s' hs')] at hnext
      cases hnext
    rw [iterate, hmore, Option.none_or, Option.or_none, ite_self]

/-- What a pattern reads keeps the text, its last character, and something in front. -/
theorem text_of_ends {s' : Place} (h : p.Ends s s') (hb : s.before = [] → b = [])
    (hd : (s.rest.reverse ++ s.before).head? = some d) :
    (s'.before = [] → b = []) ∧ (s'.rest.reverse ++ s'.before).head? = some d := by
  refine ⟨fun hnil => ?_, by rw [ends_text h, hd]⟩
  rcases ends_cases h with ⟨-, hbefore, -⟩ | ⟨-, -, c, hc, -⟩
  · exact hb (hbefore.symm.trans hnil)
  · rw [hnil] at hc
    cases hc

theorem head?_widen (hb : s.before = [] → b = []) : (s.before ++ b).head? = s.before.head? := by
  cases hbefore : s.before with
  | nil => rw [hb hbefore]; rfl
  | cons c t => rfl

theorem atLineStart_widen (hb : s.before = [] → b = []) :
    (s.widen b r).atLineStart = s.atLineStart := by
  rw [Place.atLineStart, Place.widen, head?_widen hb]
  rfl

/-- A word that ends with the text ends there still, unless a word stands behind it. -/
theorem atBoundary_widen {isWord : Char → Bool} (hb : s.before = [] → b = [])
    (hshut : s.rest = [] → ∀ c ∈ r.head?, isWord c = false) :
    (s.widen b r).atBoundary isWord = s.atBoundary isWord := by
  rw [Place.atBoundary, Place.widen, head?_widen hb, Place.atBoundary]
  cases hrest : s.rest with
  | nil =>
    cases r with
    | nil => rfl
    | cons c t => simp [hshut hrest c rfl]
  | cons c t => rfl

/-- Repetition does not see what stands behind the text, if its steps do not. -/
theorem iterate_widen {greedy : Bool} {a : Pattern} {n m : ℕ}
    (hclose : a.closes d = true → a.Shut r)
    (ha : ∀ {k k' : Place → Option α} {s : Place}, (s.before = [] → b = []) →
      (s.rest.reverse ++ s.before).head? = some d → s.rest ≠ [] →
      (∀ s', a.Ends s s' → k (s'.widen b r) = (k' s').map f) →
      a.run k (s.widen b r) = (a.run k' s).map f)
    (hn : s.rest.length ≤ n) (hm : (s.rest ++ r).length ≤ m) (hb : s.before = [] → b = [])
    (hd : (s.rest.reverse ++ s.before).head? = some d) (hshut : s.rest = [] → a.Shut r)
    (hk : ∀ s', (many greedy a).Ends s s' → k (s'.widen b r) = (k' s').map f) :
    iterate greedy a.run k m (s.widen b r) = (iterate greedy a.run k' n s).map f := by
  induction n generalizing s m with
  | zero =>
    have hnil : s.rest = [] := List.length_eq_zero_iff.mp (Nat.le_zero.mp hn)
    have hstuck : a.Shut (s.widen b r).rest := by rw [Place.widen, hnil]; exact hshut hnil
    rw [iterate_of_not_shorter fun s' hs' => hstuck.not_shorter hs']
    exact hk s Relation.ReflTransGen.refl
  | succ n ih =>
    by_cases hnil : s.rest = []
    · have hstuck : a.Shut (s.widen b r).rest := by rw [Place.widen, hnil]; exact hshut hnil
      rw [iterate_of_not_shorter fun s' hs' => hstuck.not_shorter hs',
        iterate_of_not_shorter fun s' _ => by rw [hnil]; exact Nat.not_lt_zero _]
      exact hk s Relation.ReflTransGen.refl
    obtain ⟨m, rfl⟩ := Nat.exists_eq_succ_of_ne_zero (n := m) (by
      have hpos := List.length_pos_of_ne_nil hnil
      rw [List.length_append] at hm
      omega)
    have hmore : a.run (fun s' => if s'.rest.length < (s.widen b r).rest.length then
          iterate greedy a.run k m s' else none) (s.widen b r)
        = (a.run (fun s' => if s'.rest.length < s.rest.length then iterate greedy a.run k' n s'
          else none) s).map f := by
      refine ha hb hd hnil fun s' hs' => ?_
      obtain ⟨hb', hd'⟩ := text_of_ends hs' hb hd
      by_cases hshort : s'.rest.length < s.rest.length
      · have hwide : (s'.widen b r).rest.length < (s.widen b r).rest.length := by
          simpa [Place.widen] using hshort
        rw [if_pos hshort, if_pos hwide]
        refine ih (by omega) ?_ hb' hd' (fun hend => hclose ?_) fun u hu =>
          hk u (Relation.ReflTransGen.head ⟨hs', hshort⟩ hu)
        · rw [List.length_append] at hm ⊢
          omega
        · rcases ends_cases hs' with ⟨-, -, hrest⟩ | ⟨-, -, c, hc, hlast⟩
          · rw [hrest] at hshort
            exact absurd hshort (lt_irrefl _)
          · rw [hend, List.reverse_nil, List.nil_append, hc, Option.some.injEq] at hd'
            exact hd' ▸ hlast
      · have hwide : ¬ (s'.widen b r).rest.length < (s.widen b r).rest.length := by
          simpa [Place.widen] using hshort
        rw [if_neg hshort, if_neg hwide]
        rfl
    rw [iterate, iterate, hmore, hk s Relation.ReflTransGen.refl]
    cases greedy with
    | true => exact Option.map_or.symm
    | false => exact Option.map_or.symm

theorem close_widen {n : ℕ} {s' : Place} :
    (s.widen b r).close n (s'.widen b r) = (s.close n s').widen b r := by
  have htake : (s.rest ++ r).take ((s.rest ++ r).length - (s'.rest ++ r).length)
      = s.rest.take (s.rest.length - s'.rest.length) := by
    rw [List.length_append, List.length_append, Nat.add_sub_add_right,
      List.take_append_of_le_length (Nat.sub_le _ _)]
  simp only [Place.close, Place.widen, htake]

/-- **The pattern takes a character before it for nothing**: it asks for no line start, and the
character is in no word. -/
def Blind (x : Char) : Pattern → Prop
  | nothing => True
  | one _ => True
  | lineStart => False
  | boundary isWord => isWord x = false
  | seq a b => a.Blind x ∧ b.Blind x
  | alt a b => a.Blind x ∧ b.Blind x
  | many _ a => a.Blind x
  | group _ a => a.Blind x

/-- Repetition does not see what stands before the text, if its steps do not. -/
theorem iterate_behind {greedy : Bool} {a : Pattern} {x : Char} {n : ℕ}
    (ha : ∀ {k k' : Place → Option α} {s : Place},
      (∀ s', a.Ends s s' → k (s'.widen (x :: b) []) = (k' s').map f) →
        a.run k (s.widen (x :: b) []) = (a.run k' s).map f)
    (hk : ∀ s', (many greedy a).Ends s s' → k (s'.widen (x :: b) []) = (k' s').map f) :
    iterate greedy a.run k n (s.widen (x :: b) []) = (iterate greedy a.run k' n s).map f := by
  induction n generalizing s with
  | zero => exact hk s Relation.ReflTransGen.refl
  | succ n ih =>
    have hlength : ∀ u : Place, (u.widen (x :: b) []).rest.length = u.rest.length := fun u => by
      simp [Place.widen]
    have hmore : a.run (fun s' => if s'.rest.length < (s.widen (x :: b) []).rest.length then
          iterate greedy a.run k n s' else none) (s.widen (x :: b) [])
        = (a.run (fun s' => if s'.rest.length < s.rest.length then iterate greedy a.run k' n s'
          else none) s).map f := by
      refine ha fun s' hs' => ?_
      rw [hlength, hlength]
      split
      next hshort => exact ih fun u hu => hk u (Relation.ReflTransGen.head ⟨hs', hshort⟩ hu)
      next => rfl
    rw [iterate, iterate, hmore, hk s Relation.ReflTransGen.refl]
    cases greedy with
    | true => exact Option.map_or.symm
    | false => exact Option.map_or.symm

/-- **A pattern does not see a character it is blind to**, nor what stands before that. -/
theorem run_behind {x : Char} (hp : p.Blind x)
    (hk : ∀ s', p.Ends s s' → k (s'.widen (x :: b) []) = (k' s').map f) :
    p.run k (s.widen (x :: b) []) = (p.run k' s).map f := by
  induction p generalizing s k k' with
  | nothing => exact hk s rfl
  | one q =>
    obtain ⟨before, rest, g⟩ := s
    cases rest with
    | nil => rfl
    | cons c t =>
      rw [run, run]
      dsimp only [Place.widen, List.cons_append]
      split
      · exact hk ⟨c :: before, t, g⟩ ⟨c, t, rfl, ‹_›, rfl⟩
      · rfl
  | lineStart => exact hp.elim
  | boundary isWord =>
    have hword : isWord x = false := hp
    have hedge : (s.widen (x :: b) []).atBoundary isWord = s.atBoundary isWord := by
      obtain ⟨before, rest, g⟩ := s
      rw [Place.atBoundary, Place.widen, List.append_nil, Place.atBoundary]
      cases before with
      | nil => simp [hword]
      | cons c before => rfl
    rw [run, run, hedge]
    split
    · exact hk s ⟨‹_›, rfl⟩
    · rfl
  | seq a c iha ihc =>
    exact iha hp.1 fun u hu => ihc hp.2 fun s' hs' => hk s' ⟨u, hu, hs'⟩
  | alt a c iha ihc =>
    rw [run, run, Option.map_or, iha hp.1 fun s' hs' => hk s' (.inl hs'),
      ihc hp.2 fun s' hs' => hk s' (.inr hs')]
  | many greedy a ih =>
    have hlength : (s.widen (x :: b) []).rest.length = s.rest.length := by simp [Place.widen]
    rw [run, run, hlength]
    exact iterate_behind (fun hk => ih hp hk) hk
  | group n a ih =>
    refine ih hp fun u hu => ?_
    rw [close_widen]
    exact hk _ ⟨u, hu, rfl⟩

/-- **A pattern does not see what stands behind a text that is sealed**, nor in front of the last
character before. -/
theorem run_widen (hp : p.Sealed d r) (hb : s.before = [] → b = [])
    (hd : (s.rest.reverse ++ s.before).head? = some d)
    (hshut : s.rest = [] → ∀ c ∈ r.head?, p.opens true c = false)
    (hk : ∀ s', p.Ends s s' → k (s'.widen b r) = (k' s').map f) :
    p.run k (s.widen b r) = (p.run k' s).map f := by
  induction p generalizing s k k' with
  | nothing => exact hk s rfl
  | one q =>
    obtain ⟨before, rest, g⟩ := s
    cases rest with
    | nil => exact run_one_of_not (hshut rfl)
    | cons c t =>
      rw [run, run]
      dsimp only [Place.widen, List.cons_append]
      split
      · exact hk ⟨c :: before, t, g⟩ ⟨c, t, rfl, ‹_›, rfl⟩
      · rfl
  | lineStart =>
    rw [run, run, atLineStart_widen hb]
    split
    · exact hk s ⟨‹_›, rfl⟩
    · rfl
  | boundary isWord =>
    have hedge : (s.widen b r).atBoundary isWord = s.atBoundary isWord := atBoundary_widen hb hshut
    rw [run, run, hedge]
    split
    · exact hk s ⟨‹_›, rfl⟩
    · rfl
  | seq a c iha ihc =>
    obtain ⟨ha, hc, hjoint⟩ := hp
    refine iha ha hb hd (fun hend x hx => ?_) fun u hu => ?_
    · have hopen := hshut hend x hx
      rw [opens, Bool.or_eq_false_iff] at hopen
      exact hopen.1
    obtain ⟨hb', hd'⟩ := text_of_ends hu hb hd
    have hnext : ∀ s', c.Ends u s' → k (s'.widen b r) = (k' s').map f :=
      fun s' hs' => hk s' ⟨u, hu, hs'⟩
    by_cases hend : u.rest = []
    · rcases ends_cases hu with ⟨hnull, -, hrest⟩ | ⟨-, -, x, hx, hclose⟩
      · refine ihc hc hb' hd' (fun _ x hx => ?_) hnext
        have hopen := hshut (hrest.symm.trans hend) x hx
        rw [opens, hnull, Bool.true_and, Bool.or_eq_false_iff] at hopen
        exact hopen.2
      · rw [hend, List.reverse_nil, List.nil_append, hx, Option.some.injEq] at hd'
        rcases hjoint (hd' ▸ hclose) with hopen | ⟨hnull, hstuck⟩
        · exact ihc hc hb' (by rw [hend, List.reverse_nil, List.nil_append, hx, hd'])
            (fun _ => hopen) hnext
        · -- what has to read on gets stuck, behind the text as at its end
          have hwide : u.widen b r = ⟨u.before ++ b, r, u.groups⟩ := by rw [Place.widen, hend]; rfl
          rw [hwide, run_eq_none (hstuck _ _), run_eq_none fun s' =>
            not_ends_of_opens hnull (by simp [hend])]
          rfl
    · exact ihc hc hb' hd' (fun hend' => absurd hend' hend) hnext
  | alt a c iha ihc =>
    have hopen : s.rest = [] → ∀ x ∈ r.head?, a.opens true x = false ∧ c.opens true x = false := by
      intro hend x hx
      have hboth := hshut hend x hx
      rwa [opens, Bool.or_eq_false_iff] at hboth
    rw [run, run, Option.map_or, iha hp.1 hb hd (fun hend x hx => (hopen hend x hx).1) fun s' hs' =>
      hk s' (.inl hs'), ihc hp.2 hb hd (fun hend x hx => (hopen hend x hx).2) fun s' hs' =>
        hk s' (.inr hs')]
  | many greedy a ih =>
    exact iterate_widen hp.2
      (fun hb hd hne hk => ih hp.1 hb hd (fun hend => absurd hend hne) hk) le_rfl le_rfl
      hb hd (fun hend => .inl (hshut hend)) hk
  | group n a ih =>
    refine ih hp hb hd hshut fun u hu => ?_
    rw [close_widen]
    exact hk _ ⟨u, hu, rfl⟩

end Widening

/-! ## Rewriting -/

section Rewriting

variable {p : Pattern} {new before rest A X τ Y : Text} {c : Char} {n : ℕ}

/-- Where no part of a pattern goes on, its matches are those of the text alone. -/
theorem matchAt_widen {b r : Text} {d : Char} (hp : p.Sealed d r) (hb : before = [] → b = [])
    (hd : (c :: rest).getLast? = some d) :
    p.matchAt (before ++ b) (c :: (rest ++ r))
      = (p.matchAt before (c :: rest)).map (Place.widen b r) :=
  run_widen (s := ⟨before, c :: rest, []⟩) hp hb
    (by rw [List.head?_append, List.head?_reverse, hd]; rfl)
    (fun h => by cases h) fun _ _ => rfl

@[simp] theorem subFrom_nil : p.subFrom new n before [] = [] := by cases n <;> rfl

/-- **A text that is sealed is rewritten as if alone.** -/
theorem subFrom_append (hp : ∀ d, A.getLast? = some d → p.Sealed d X) (hn : n ≤ A.length) :
    p.subFrom new n before (A ++ X)
      = p.subFrom new n before A ++ p.subFrom new 0 (A.reverse ++ before) X := by
  induction A generalizing n before with
  | nil =>
    obtain rfl : n = 0 := Nat.le_zero.mp hn
    rw [subFrom_nil]
    rfl
  | cons c A ih =>
    have hA : ∀ d, A.getLast? = some d → p.Sealed d X :=
      fun d hd => hp d (by rw [List.getLast?_cons, hd]; rfl)
    rw [List.reverse_cons, List.append_assoc, List.singleton_append]
    cases n with
    | succ n => exact ih hA (Nat.le_of_succ_le_succ hn)
    | zero =>
      obtain ⟨d, hd⟩ := Option.isSome_iff_exists.mp
        (List.getLast?_isSome.mpr (List.cons_ne_nil c A))
      have hmatch : p.matchAt (before ++ []) (c :: (A ++ X))
          = (p.matchAt before (c :: A)).map (Place.widen [] X) :=
        matchAt_widen (hp d hd) (fun _ => rfl) hd
      rw [List.append_nil] at hmatch
      rw [List.cons_append, subFrom, subFrom, hmatch]
      cases hm : p.matchAt before (c :: A) with
      | none => exact congrArg (c :: ·) (ih hA (Nat.zero_le _))
      | some m =>
        have hskip : (A ++ X).length - (Place.widen [] X m).rest.length
            = A.length - m.rest.length := by
          rw [Place.widen, List.length_append, List.length_append, Nat.add_sub_add_right]
        dsimp only [Option.map_some]
        rw [hskip, ih hA (Nat.sub_le _ _), List.append_assoc]

/-- Nothing follows the empty text. -/
theorem sealed_nil {d : Char} : p.Sealed d [] := by
  induction p with
  | nothing => trivial
  | one _ => trivial
  | lineStart => trivial
  | boundary _ => trivial
  | seq a b iha ihb => exact ⟨iha, ihb, fun _ => .inl (by simp)⟩
  | alt a b iha ihb => exact ⟨iha, ihb⟩
  | many _ a ih => exact ⟨ih, fun _ => .inl (by simp)⟩
  | group _ a ih => exact ih

/-- Of what stands before, rewriting looks at one character only. -/
theorem subFrom_before {b t : Text} (hb : before ≠ []) :
    p.subFrom new n (before ++ b) t = p.subFrom new n before t := by
  induction t generalizing n before with
  | nil => rw [subFrom_nil, subFrom_nil]
  | cons c t ih =>
    have hnext : ∀ n, p.subFrom new n (c :: (before ++ b)) t
        = p.subFrom new n (c :: before) t := fun n =>
      ih (List.cons_ne_nil c before)
    cases n with
    | succ n => exact hnext n
    | zero =>
      obtain ⟨d, hd⟩ := Option.isSome_iff_exists.mp
        (List.getLast?_isSome.mpr (List.cons_ne_nil c t))
      have hmatch := matchAt_widen (p := p) (b := b) sealed_nil (fun h => absurd h hb) hd
      rw [List.append_nil] at hmatch
      rw [subFrom, subFrom, hmatch]
      cases p.matchAt before (c :: t) with
      | none => exact congrArg (c :: ·) (hnext 0)
      | some m =>
        dsimp only [Option.map_some, Place.widen]
        rw [List.append_nil, hnext]

/-- A stretch in which no match starts stays. -/
theorem subFrom_of_quiet (h : p.Quiet before τ Y) :
    p.subFrom new 0 before (τ ++ Y) = τ ++ p.subFrom new 0 (τ.reverse ++ before) Y := by
  induction τ generalizing before with
  | nil => rfl
  | cons c τ ih =>
    rw [List.cons_append, subFrom, h.1, List.reverse_cons, List.append_assoc]
    exact congrArg (c :: ·) (ih h.2)

theorem subFrom_skip : p.subFrom new τ.length before (τ ++ Y)
      = p.subFrom new 0 (τ.reverse ++ before) Y := by
  induction τ generalizing before with
  | nil => rfl
  | cons c τ ih =>
    rw [List.cons_append, List.length_cons, subFrom, ih, List.reverse_cons, List.append_assoc]
    rfl

/-- A stretch that is a match goes. -/
theorem subFrom_of_matchAt {m : Place} (h : p.matchAt before (τ ++ Y) = some m) (hrest : m.rest = Y)
    (hτ : τ ≠ []) : p.subFrom new 0 before (τ ++ Y) = new
      ++ p.subFrom new 0 (τ.reverse ++ before) Y := by
  obtain ⟨c, τ, rfl⟩ := List.exists_cons_of_ne_nil hτ
  rw [List.cons_append] at h
  rw [List.cons_append, subFrom, h]
  dsimp only
  rw [hrest, List.length_append, Nat.add_sub_cancel, subFrom_skip, List.reverse_cons,
    List.append_assoc]
  rfl

/-- No match starts where the pattern does not open. -/
theorem matchAt_eq_none (hnull : p.nullable = false)
    (h : ∀ c ∈ rest.head?, p.opens false c = false) :
    p.matchAt before rest = none := run_eq_none fun _ => not_ends_of_opens hnull h

/-- Behind a character that opens no match, a text is rewritten as if alone. -/
theorem subFrom_eq_sub (hnull : p.nullable = false) (hY : ∀ c ∈ Y.head?, p.opens false c = false) :
    p.subFrom new 0 before Y = p.sub new Y := by
  cases Y with
  | nil => rw [sub, subFrom_nil, subFrom_nil]
  | cons c t =>
    rw [sub, subFrom, subFrom, matchAt_eq_none hnull hY, matchAt_eq_none hnull hY]
    have hbefore : p.subFrom new 0 ([c] ++ before) t = p.subFrom new 0 [c] t :=
      subFrom_before (List.cons_ne_nil c [])
    exact congrArg (c :: ·) hbefore

/-- **What stands before makes no difference**: the text is rewritten as if alone. -/
def Fresh (p : Pattern) (before Y : Text) : Prop := ∀ new, p.subFrom new 0 before Y = p.sub new Y

theorem fresh_of_opens (hnull : p.nullable = false) (hY : ∀ c ∈ Y.head?, p.opens false c = false) :
    p.Fresh before Y := fun _ => subFrom_eq_sub hnull hY

/-- Behind a character the pattern takes for nothing, a text is rewritten as if alone. -/
theorem fresh_of_blind (hc : p.Blind c) : p.Fresh (c :: before) Y := by
  intro new
  have hone : p.subFrom new 0 ([c] ++ before) Y = p.subFrom new 0 [c] Y :=
    subFrom_before (List.cons_ne_nil c [])
  refine hone.trans ?_
  cases Y with
  | nil => rw [sub, subFrom_nil, subFrom_nil]
  | cons y t =>
    have hmatch : p.matchAt [c] (y :: t) = (p.matchAt [] (y :: t)).map (Place.widen [c] []) := by
      have hrun : p.run some (Place.widen [c] [] ⟨[], y :: t, []⟩)
          = (p.run some ⟨[], y :: t, []⟩).map (Place.widen [c] []) := run_behind hc fun _ _ => rfl
      simpa [Place.widen, matchAt] using hrun
    have hnext : ∀ n, p.subFrom new n ([y] ++ [c]) t = p.subFrom new n [y] t := fun n =>
      subFrom_before (List.cons_ne_nil y [])
    rw [sub, subFrom, subFrom, hmatch]
    cases p.matchAt [] (y :: t) with
    | none => exact congrArg (y :: ·) (hnext 0)
    | some m =>
      dsimp only [Option.map_some, Place.widen]
      rw [List.append_nil]
      exact congrArg (new ++ ·) (hnext _)

theorem fresh_of_getLast? (hlast : τ.getLast? = some c) (hc : p.Blind c) :
    p.Fresh (τ.reverse ++ before) Y := by
  obtain ⟨A, rfl⟩ := List.getLast?_eq_some_iff.mp hlast
  rw [List.reverse_append, List.append_assoc]
  exact fresh_of_blind hc

/-- A text goes on as it began, or with what was put in. -/
theorem head?_sub {x : Char} (hx : x ∈ (p.sub new Y).head?) : x ∈ Y.head? ∨
    x ∈ new.head? ∨ new = [] := by
  cases Y with
  | nil =>
    rw [sub, subFrom_nil] at hx
    cases hx
  | cons c t =>
    rw [sub, subFrom] at hx
    split at hx
    · cases new with
      | nil => exact .inr (.inr rfl)
      | cons d new => exact .inr (.inl hx)
    · exact .inl hx

/-- …and that character stays. -/
theorem sub_cons (hnull : p.nullable = false) (hc : p.opens false c = false) :
    p.sub new (c :: Y) = c :: p.subFrom new 0 [c] Y := by
  rw [sub, subFrom, matchAt_eq_none hnull (by simpa using hc)]

/-- A character that neither opens nor closes a match stays at the end. -/
theorem getLast?_subFrom (hnull : p.nullable = false) (hopen : p.opens false c = false)
    (hclose : p.closes c = false) (hn : n ≤ A.length) :
    (p.subFrom new n before (A ++ [c])).getLast? = some c := by
  induction A generalizing n before with
  | nil =>
    obtain rfl : n = 0 := Nat.le_zero.mp hn
    rw [List.nil_append, subFrom, matchAt_eq_none hnull (by simpa using hopen)]
    rfl
  | cons d A ih =>
    cases n with
    | succ n => exact ih (Nat.le_of_succ_le_succ hn)
    | zero =>
      rw [List.cons_append, subFrom]
      split
      · rename_i m hm
        -- the match does not reach the last character
        have hne : m.rest ≠ [] := by
          intro hnil
          obtain ⟨s', hs', hsome⟩ := run_ends hm
          obtain rfl := Option.some.inj hsome
          rcases ends_cases hs' with ⟨hnull', -, -⟩ | ⟨-, -, x, hx, hlast⟩
          · rw [hnull] at hnull'
            cases hnull'
          · have htext := congrArg List.head? (ends_text hs')
            rw [hnil, List.reverse_nil, List.nil_append, hx] at htext
            simp only [List.reverse_cons, List.reverse_append, List.reverse_nil, List.nil_append,
              List.cons_append, List.head?_cons, Option.some.injEq] at htext
            rw [htext, hclose] at hlast
            cases hlast
        have hpos := List.length_pos_of_ne_nil hne
        have hskip : (A ++ [c]).length - m.rest.length ≤ A.length := by
          rw [List.length_append, List.length_singleton]
          omega
        rw [List.getLast?_append, ih hskip]
        rfl
      · rw [List.getLast?_cons, ih (Nat.zero_le _)]
        rfl

end Rewriting

/-! ## Tokens between blanks -/

/-- The text is empty or begins with a blank. -/
def Delimited (t : Text) : Prop := ∀ c ∈ t.head?, Text.isSpace c = true

/-- **Every match begins with a word** of characters in `r`, in which `n` of those in `q` stand. -/
def Demands (p : Pattern) (n : ℕ) (q r : Char → Bool) : Prop :=
  ∀ s s', p.Ends s s' → ∃ v t, s.rest = v ++ t ∧ n ≤ v.countP q ∧ ∀ c ∈ v, r c = true

/-- No word of such characters leads out of a token: its last character is none of them, or what
follows is none. -/
def Stops (r : Char → Bool) (τ Y : Text) : Prop :=
  (∀ c ∈ Y.head?, r c = false) ∨ ∃ d ∈ τ.getLast?, r d = false

section Tokens

variable {p : Pattern} {before τ Y v t : Text} {n : ℕ} {q r : Char → Bool}

/-- A word does not go on behind a token. -/
theorem prefix_of_append_eq (h : τ ++ Y = v ++ t) (hv : ∀ c ∈ v, r c = true) (hY : Stops r τ Y) :
    v <+: τ := by
  rcases List.append_eq_append_iff.mp h with ⟨u, rfl, rfl⟩ | ⟨u, rfl, -⟩
  · rw [List.forall_mem_append] at hv
    cases u with
    | nil =>
      rw [List.append_nil]
    | cons c u =>
      rcases hY with hY | ⟨d, hd, hnot⟩
      · have hc := hv.2 c List.mem_cons_self
        rw [hY c rfl] at hc
        cases hc
      · rw [hv.1 d (List.mem_of_mem_getLast? hd)] at hnot
        cases hnot
  · exact List.prefix_append v u

/-- A token without what every match begins with stays. -/
theorem quiet_of_demands (hp : p.Demands n q r) (hY : Stops r τ Y) (hτ : τ.countP q < n) :
    p.Quiet before τ Y := by
  induction τ generalizing before with
  | nil => trivial
  | cons c τ ih =>
    refine ⟨run_eq_none fun s' hs' => ?_, ?_⟩
    · obtain ⟨v, t, hrest, hn, hv⟩ := hp _ _ hs'
      have hprefix : v <+: c :: τ := prefix_of_append_eq hrest hv hY
      exact absurd (hn.trans hprefix.sublist.countP_le) (Nat.not_le.mpr hτ)
    · cases τ with
      | nil => trivial
      | cons d τ =>
        have hstop : Stops r (d :: τ) Y := by
          rw [Stops, List.getLast?_cons_cons] at hY
          exact hY
        exact ih hstop (lt_of_le_of_lt (List.Sublist.countP_le (List.sublist_cons_self c _)) hτ)

/-- A match demands the character it begins with. -/
theorem demands_opens (hnull : p.nullable = false) :
    p.Demands 1 (p.opens false) (p.opens false) := by
  intro s s' hs
  rcases ends_cases hs with ⟨hnull', -, -⟩ | ⟨-, ⟨c, hc, hopen⟩, -⟩
  · rw [hnull] at hnull'
    cases hnull'
  obtain ⟨t, ht⟩ := List.head?_eq_some_iff.mp hc
  refine ⟨[c], t, ht, by simp [hopen], fun d hd => ?_⟩
  obtain rfl := List.mem_singleton.mp hd
  exact hopen

end Tokens

/-! ## Rewriting a text with tokens -/

/-- The text is empty or ends in a blank. -/
def Spaced (t : Text) : Prop := ∀ c ∈ t.getLast?, Text.isSpace c = true

/-- A pattern whose matches neither begin nor end with a blank. -/
structure Steady (p : Pattern) : Prop where
  nullable : p.nullable = false
  opens : ∀ c, Text.isSpace c = true → p.opens false c = false
  closes : ∀ c, Text.isSpace c = true → p.closes c = false

/-- **Two texts that differ in tokens behind blanks**: `T k F τ Y` says that `τ` is a token of the
kind `k`, behind `F` and before `Y`. -/
inductive Woven {κ : Type} (T : κ → Text → Text → Text → Prop) : Text → Text → Prop
  | same (F : Text) : Woven T F F
  | step {k : κ} {F τ τ' Y Y' : Text} (hF : Spaced F) (hτ : T k F τ Y) (hτ' : T k F τ' Y')
      (h : Woven T Y Y') : Woven T (F ++ (τ ++ Y)) (F ++ (τ' ++ Y'))

section Weaving

variable {p : Pattern} {new before F τ Y t t' : Text} {κ : Type}
  {T T' : κ → Text → Text → Text → Prop} {m : Place}

/-- A token in which no match starts stays. -/
theorem sub_stays (hF : ∀ d, F.getLast? = some d → p.Sealed d (τ ++ Y))
    (hτ : p.Quiet F.reverse τ Y) (hY : p.Fresh (τ.reverse ++ F.reverse) Y) :
    p.sub new (F ++ (τ ++ Y)) = p.sub new F ++ (τ ++ p.sub new Y) := by
  rw [sub, subFrom_append hF (Nat.zero_le _), List.append_nil, subFrom_of_quiet hτ, hY new]
  rfl

/-- A token that is a match goes. -/
theorem sub_goes (hF : ∀ d, F.getLast? = some d → p.Sealed d (τ ++ Y))
    (hτ : p.matchAt F.reverse (τ ++ Y) = some m) (hrest : m.rest = Y) (hne : τ ≠ [])
    (hY : p.Fresh (τ.reverse ++ F.reverse) Y) :
    p.sub new (F ++ (τ ++ Y)) = p.sub new F ++ (new ++ p.sub new Y) := by
  rw [sub, subFrom_append hF (Nat.zero_le _), List.append_nil,
    subFrom_of_matchAt hτ hrest hne, hY new]
  rfl

/-- A pattern begins afresh at a blank. -/
theorem Steady.fresh (hp : p.Steady) (hY : Delimited Y) : p.Fresh before Y :=
  fresh_of_opens hp.nullable fun c hc => hp.opens c (hY c hc)

theorem Steady.delimited_sub (hp : p.Steady) (hY : Delimited Y) : Delimited (p.sub new Y) := by
  cases Y with
  | nil =>
    rw [sub, subFrom_nil]
    exact hY
  | cons c t =>
    rw [sub_cons hp.nullable (hp.opens c (hY c rfl))]
    exact hY

theorem Steady.spaced_sub (hp : p.Steady) (hF : Spaced F) : Spaced (p.sub new F) := by
  rcases List.eq_nil_or_concat F with rfl | ⟨A, c, rfl⟩
  · rw [sub, subFrom_nil]
    exact hF
  · rw [List.concat_eq_append] at hF ⊢
    have hc := hF c List.getLast?_concat
    intro d hd
    rw [sub, getLast?_subFrom hp.nullable (hp.opens c hc) (hp.closes c hc) (Nat.zero_le _),
      Option.mem_some] at hd
    exact hd ▸ hc

/-- **Rewriting keeps two texts alike**, if it treats each token by itself. -/
theorem Woven.rewrite (hp : p.Steady)
    (hT : ∀ k F τ Y, T k F τ Y → Spaced F →
      ∃ τ', p.sub new (F ++ (τ ++ Y)) = p.sub new F ++ (τ' ++ p.sub new Y) ∧
        T' k (p.sub new F) τ' (p.sub new Y))
    (h : Woven T t t') : Woven T' (p.sub new t) (p.sub new t') := by
  induction h with
  | same F => exact .same _
  | step hF hτ hτ' _ ih =>
    obtain ⟨u, hu, hknown⟩ := hT _ _ _ _ hτ hF
    obtain ⟨u', hu', hknown'⟩ := hT _ _ _ _ hτ' hF
    rw [hu, hu']
    exact .step (hp.spaced_sub hF) hknown hknown' ih

/-- Two texts become one where the rewriting forgets the tokens. -/
theorem Woven.forget
    (hT : ∀ k F, Spaced F → ∃ R, ∀ τ Y, T k F τ Y →
      p.sub new (F ++ (τ ++ Y)) = R ++ p.sub new Y)
    (h : Woven T t t') : p.sub new t = p.sub new t' := by
  induction h with
  | same F => rfl
  | step hF hτ hτ' _ ih =>
    obtain ⟨R, hR⟩ := hT _ _ hF
    rw [hR _ _ hτ, hR _ _ hτ', ih]

end Weaving

end Pattern

end Regex
