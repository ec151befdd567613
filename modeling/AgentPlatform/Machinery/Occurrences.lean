import AgentPlatform.Machinery.Text

/-!
# Machinery/Occurrences — where a text occurs, how often it is counted, what a replacement replaces

`Text.count` counts from the left and goes on behind each occurrence, so it sees two occurrences
exactly when some two are a whole text apart (`two_le_count_iff`); occurrences that all overlap the
first count once.  `Text.replaceOnce` replaces one occurrence and leaves what stands before and
behind it (`exists_replaceOnce_eq`).
-/

namespace Text

variable {sub t : Text} {i : ℕ}

/-- **The text occurs at the index**, overlapping another occurrence or not. -/
def OccursAt (sub t : Text) (i : ℕ) : Prop := i ≤ t.length ∧ sub <+: t.drop i

theorem occursAt_nil (h : sub ≠ []) : ¬ OccursAt sub [] i := by
  rintro ⟨-, hbegins⟩
  rw [List.drop_nil, List.prefix_nil] at hbegins
  exact h hbegins

theorem occursAt_zero : OccursAt sub t 0 ↔ sub <+: t := by
  simp [OccursAt]

theorem occursAt_cons {c : Char} : OccursAt sub (c :: t) (i + 1) ↔ OccursAt sub t i := by
  simp [OccursAt]

/-- An occurrence behind the first `n` characters. -/
theorem occursAt_drop {n : ℕ} (h : sub ≠ []) : OccursAt sub (t.drop n) i ↔
    OccursAt sub t (n + i) := by
  rw [OccursAt, OccursAt, List.drop_drop, List.length_drop]
  refine and_congr_left fun hbegins => ⟨fun _ => ?_, fun hle => by omega⟩
  by_contra hlt
  rw [List.drop_eq_nil_of_le (by omega), List.prefix_nil] at hbegins
  exact h hbegins

theorem exists_occursAt_cons {c : Char} :
    (∃ i, OccursAt sub (c :: t) i) ↔ sub <+: c :: t ∨ ∃ i, OccursAt sub t i := by
  constructor
  · rintro ⟨_ | i, hi⟩
    · exact .inl (occursAt_zero.mp hi)
    · exact .inr ⟨i, occursAt_cons.mp hi⟩
  · rintro (hbegins | ⟨i, hi⟩)
    · exact ⟨0, occursAt_zero.mpr hbegins⟩
    · exact ⟨i + 1, occursAt_cons.mpr hi⟩

/-! ## Counting -/

theorem countFrom_eq_drop (sub : Text) (skip : ℕ) (t : Text) :
    countFrom sub skip t = countFrom sub 0 (t.drop skip) := by
  induction skip generalizing t with
  | zero => rw [List.drop_zero]
  | succ skip ih =>
    rcases t with _ | ⟨c, t⟩
    · rfl
    · rw [countFrom, ih, List.drop_succ_cons]

theorem countFrom_of_begins {c : Char} (hne : sub ≠ []) (h : sub <+: c :: t) :
    countFrom sub 0 (c :: t) = countFrom sub 0 ((c :: t).drop sub.length) + 1 := by
  have hlength : sub.length = sub.length - 1 + 1 := by
    have hpos := List.length_pos_of_ne_nil hne
    omega
  rw [countFrom, if_pos (List.isPrefixOf_iff_prefix.mpr h), countFrom_eq_drop, hlength,
    List.drop_succ_cons, Nat.add_sub_cancel]

theorem countFrom_of_misses {c : Char} (h : ¬ sub <+: c :: t) :
    countFrom sub 0 (c :: t) = countFrom sub 0 t := by
  rw [countFrom, if_neg (mt List.isPrefixOf_iff_prefix.mp h)]

theorem countFrom_pos_iff (hne : sub ≠ []) : 0 < countFrom sub 0 t ↔ ∃ i, OccursAt sub t i := by
  induction t with
  | nil =>
    rw [countFrom]
    exact iff_of_false (Nat.lt_irrefl 0) fun ⟨i, hi⟩ => occursAt_nil hne hi
  | cons c t ih =>
    rw [exists_occursAt_cons]
    by_cases hbegins : sub <+: c :: t
    · rw [countFrom_of_begins hne hbegins]
      exact iff_of_true (Nat.succ_pos _) (.inl hbegins)
    · rw [countFrom_of_misses hbegins, ih, or_iff_right hbegins]

theorem two_le_countFrom_iff (hne : sub ≠ []) : 2 ≤ countFrom sub 0 t ↔
    ∃ i j, OccursAt sub t i ∧ OccursAt sub t j ∧ i + sub.length ≤ j := by
  induction t with
  | nil =>
    rw [countFrom]
    exact iff_of_false (by omega) fun ⟨i, _, hi, _⟩ => occursAt_nil hne hi
  | cons c t ih =>
    by_cases hbegins : sub <+: c :: t
    · have hrest : 2 ≤ countFrom sub 0 ((c :: t).drop sub.length) + 1 ↔
          0 < countFrom sub 0 ((c :: t).drop sub.length) := by omega
      rw [countFrom_of_begins hne hbegins, hrest, countFrom_pos_iff hne]
      constructor
      · rintro ⟨k, hk⟩
        exact ⟨0, sub.length + k, occursAt_zero.mpr hbegins, (occursAt_drop hne).mp hk, by omega⟩
      · rintro ⟨i, j, -, hj, hle⟩
        refine ⟨j - sub.length, (occursAt_drop hne).mpr ?_⟩
        rwa [Nat.add_sub_cancel' (by omega)]
    · rw [countFrom_of_misses hbegins, ih]
      constructor
      · rintro ⟨i, j, hi, hj, hle⟩
        exact ⟨i + 1, j + 1, occursAt_cons.mpr hi, occursAt_cons.mpr hj, by omega⟩
      · rintro ⟨_ | i, _ | j, hi, hj, hle⟩
        · exact absurd (occursAt_zero.mp hi) hbegins
        · exact absurd (occursAt_zero.mp hi) hbegins
        · exact absurd (occursAt_zero.mp hj) hbegins
        · exact ⟨i, j, occursAt_cons.mp hi, occursAt_cons.mp hj, by omega⟩

theorem count_of_ne_nil (hne : sub ≠ []) : count sub t = countFrom sub 0 t := by
  rw [count, if_neg (by simpa using hne)]

/-- **A text that counts at all occurs.** -/
theorem count_pos_iff (hne : sub ≠ []) : 0 < count sub t ↔ ∃ i, OccursAt sub t i := by
  rw [count_of_ne_nil hne, countFrom_pos_iff hne]

/-- **It counts twice exactly if two occurrences do not overlap.** -/
theorem two_le_count_iff (hne : sub ≠ []) : 2 ≤ count sub t ↔
    ∃ i j, OccursAt sub t i ∧ OccursAt sub t j ∧ i + sub.length ≤ j := by
  rw [count_of_ne_nil hne, two_le_countFrom_iff hne]

/-- …and so does the empty text, which counts everywhere. -/
theorem exists_occursAt_of_count (h : 0 < count sub t) : ∃ i, OccursAt sub t i := by
  rcases eq_or_ne sub [] with rfl | hne
  · exact ⟨0, occursAt_zero.mpr List.nil_prefix⟩
  · exact (count_pos_iff hne).mp h

/-! ## Replacing -/

/-- **A replacement replaces one occurrence and nothing else.** -/
theorem exists_replaceOnce_eq (new : Text) (h : ∃ i, OccursAt sub t i) :
    ∃ p s, t = p ++ sub ++ s ∧ replaceOnce sub new t = p ++ new ++ s := by
  induction t with
  | nil =>
    obtain rfl : sub = [] := by
      by_contra hne
      exact occursAt_nil hne h.choose_spec
    exact ⟨[], [], rfl, by simp [replaceOnce]⟩
  | cons c t ih =>
    by_cases hbegins : sub <+: c :: t
    · obtain ⟨s, hs⟩ := hbegins
      refine ⟨[], s, by simpa using hs.symm, ?_⟩
      rw [replaceOnce, if_pos (List.isPrefixOf_iff_prefix.mpr ⟨s, hs⟩), ← hs, List.drop_left,
        List.nil_append]
    · obtain ⟨p, s, rfl, hreplaced⟩ := ih ((exists_occursAt_cons.mp h).resolve_left hbegins)
      refine ⟨c :: p, s, rfl, ?_⟩
      rw [replaceOnce, if_neg (mt List.isPrefixOf_iff_prefix.mp hbegins), hreplaced]
      rfl

/-- A replacement by another text makes another text. -/
theorem replaceOnce_ne {new : Text} (h : ∃ i, OccursAt sub t i) (hne : sub ≠ new) :
    replaceOnce sub new t ≠ t := by
  obtain ⟨p, s, ht, hreplaced⟩ := exists_replaceOnce_eq new h
  rw [hreplaced]
  intro hsame
  rw [ht] at hsame
  exact hne (List.append_cancel_left (List.append_cancel_right hsame)).symm

end Text
