import AgentPlatform.Machinery.Text

/-!
# Machinery/Splitting — a text cut where a character or a separator stands

`str.find` and `str.rfind` of a character, `str.removeprefix` and `str.split` of a separator, each
with the text put together again from what it leaves (`find_eq_some_iff`, `rfind_eq_some_iff`,
`exists_removeprefix`, `join_split`).
-/

namespace Text

variable {c : Char} {t u x y : Text} {i : ℕ}

/-! ## Finding a character -/

/-- `t.find(c)`; `none` is its `-1`. -/
def find (c : Char) (t : Text) : Option ℕ := t.findIdx? (· = c)

/-- `t.rfind(c)`. -/
def rfind (c : Char) (t : Text) : Option ℕ := (find c t.reverse).map fun i => t.length - 1 - i

theorem find_append (h : c ∉ x) (y : Text) : find c (x ++ c :: y) = some x.length := by
  induction x with
  | nil => simp [find, List.findIdx?_cons]
  | cons d x ih =>
    have hd : d ≠ c := fun hdc => h (hdc ▸ List.mem_cons_self)
    have hx := ih fun hmem => h (List.mem_cons_of_mem d hmem)
    rw [find] at hx ⊢
    rw [List.cons_append, List.findIdx?_cons, hx, if_neg (by simpa using hd)]
    rfl

theorem find_eq_none (h : c ∉ t) : find c t = none := by
  rw [find, List.findIdx?_eq_none_iff]
  intro d hd
  have hne : d ≠ c := fun hdc => h (hdc ▸ hd)
  simpa using hne

/-- The first place where the character stands. -/
theorem find_eq_some_iff : find c t = some i ↔ ∃ x y, t = x ++ c :: y ∧ c ∉ x ∧ x.length = i := by
  constructor
  · intro h
    by_cases hmem : c ∈ t
    · obtain ⟨x, y, rfl, hx⟩ := List.eq_append_cons_of_mem hmem
      rw [find_append hx] at h
      exact ⟨x, y, rfl, hx, Option.some.inj h⟩
    · rw [find_eq_none hmem] at h
      cases h
  · rintro ⟨x, y, rfl, hx, rfl⟩
    exact find_append hx y

/-- …and the last. -/
theorem rfind_eq_some_iff : rfind c t = some i ↔ ∃ x y, t = x ++ c :: y ∧ c ∉ y ∧ x.length = i := by
  rw [rfind, Option.map_eq_some_iff]
  constructor
  · rintro ⟨j, hfind, rfl⟩
    obtain ⟨y, x, hreverse, hy, rfl⟩ := find_eq_some_iff.mp hfind
    have ht : t = x.reverse ++ c :: y.reverse := by
      rw [← List.reverse_reverse t, hreverse]
      simp
    refine ⟨x.reverse, y.reverse, ht, by simpa using hy, ?_⟩
    rw [ht]
    simp
  · rintro ⟨x, y, rfl, hy, rfl⟩
    refine ⟨y.length, find_eq_some_iff.mpr ⟨y.reverse,
      x.reverse, by simp, by simpa using hy, by simp⟩, ?_⟩
    simp

/-- A character of a text has a last place. -/
theorem exists_last (h : c ∈ t) : ∃ x y, t = x ++ c :: y ∧ c ∉ y := by
  obtain ⟨y, x, hreverse, hy⟩ := List.eq_append_cons_of_mem (List.mem_reverse.mpr h)
  refine ⟨x.reverse, y.reverse, ?_, by simpa using hy⟩
  rw [← List.reverse_reverse t, hreverse]
  simp

/-- What stands before an occurrence of a character begins with what stands before the first. -/
theorem prefix_of_not_mem (h : u ++ c :: t = x ++ y) (hx : c ∉ x) : x <+: u := by
  obtain ⟨z, rfl, hz⟩ | ⟨z, rfl, -⟩ := List.append_eq_append_iff.mp h
  · cases z with
    | nil => exact ⟨[], by simp⟩
    | cons d z =>
      obtain ⟨rfl, -⟩ := List.cons.inj hz
      exact absurd (List.mem_append_right u List.mem_cons_self) hx
  · exact List.prefix_append x z

theorem suffix_of_not_mem (h : t ++ c :: u = y ++ x) (hx : c ∉ x) : x <:+ u := by
  have hreverse : u.reverse ++ c :: t.reverse = x.reverse ++ y.reverse := by
    simpa using congrArg List.reverse h
  exact List.reverse_prefix.mp (prefix_of_not_mem hreverse (by simpa using hx))

/-! ## Prefixes and blanks -/

/-- `t.removeprefix(w)`. -/
def removeprefix (w t : Text) : Text := if w.isPrefixOf t then t.drop w.length else t

theorem exists_removeprefix (w t : Text) : ∃ x, (x = [] ∨ x = w) ∧ t = x ++ removeprefix w t := by
  unfold removeprefix
  split
  · next h =>
    obtain ⟨y, rfl⟩ := List.isPrefixOf_iff_prefix.mp h
    exact ⟨w, .inr rfl, by rw [List.drop_left]⟩
  · exact ⟨[], .inl rfl, rfl⟩

theorem exists_strip (t : Text) : ∃ x y, t = x ++ strip t ++ y ∧ (∀ c ∈ x, isSpace c = true) ∧
    ∀ c ∈ y, isSpace c = true := by
  refine ⟨t.takeWhile isSpace, ((t.dropWhile isSpace).reverse.takeWhile isSpace).reverse, ?_,
    fun c hc => List.mem_takeWhile_imp hc, fun c hc =>
    List.mem_takeWhile_imp (List.mem_reverse.mp hc)⟩
  rw [strip, List.append_assoc, ← List.reverse_append, List.takeWhile_append_dropWhile,
    List.reverse_reverse, List.takeWhile_append_dropWhile]

/-! ## Separators -/

/-- The pieces between separators, skipping the `skip` characters a separator already covers. -/
def splitFrom (sep : Text) : ℕ → Text → List Text
  | _, [] => [[]]
  | 0, c :: t => if sep.isPrefixOf (c :: t) then [] :: splitFrom sep (sep.length - 1) t
      else (splitFrom sep 0 t).modifyHead (c :: ·)
  | skip + 1, _ :: t => splitFrom sep skip t

/-- `t.split(sep)`. -/
def split (sep t : Text) : List Text := splitFrom sep 0 t

theorem splitFrom_ne_nil (sep : Text) (skip : ℕ) (t : Text) : splitFrom sep skip t ≠ [] := by
  fun_induction splitFrom sep skip t with
  | case1 => exact List.cons_ne_nil _ _
  | case2 => exact List.cons_ne_nil _ _
  | case3 c t _ ih => simpa using ih
  | case4 skip c t ih => exact ih

theorem join_cons (sep p : Text) {ps : List Text}
    (h : ps ≠ []) : join sep (p :: ps) = p ++ sep ++ join sep ps := by
  obtain ⟨q, ps, rfl⟩ := List.exists_cons_of_ne_nil h
  simp [join]

theorem join_modifyHead (sep : Text) (c : Char) {ps : List Text} (h : ps ≠ []) :
    join sep (ps.modifyHead (c :: ·)) = c :: join sep ps := by
  obtain ⟨p, ps, rfl⟩ := List.exists_cons_of_ne_nil h
  cases ps <;> simp [join]

theorem join_splitFrom {sep : Text} (hsep : sep ≠ []) (skip : ℕ) (t : Text) :
    join sep (splitFrom sep skip t) = t.drop skip := by
  fun_induction splitFrom sep skip t with
  | case1 => simp [join]
  | case2 c t h ih =>
    obtain ⟨rest, hrest⟩ := List.isPrefixOf_iff_prefix.mp h
    obtain ⟨d, w, rfl⟩ := List.exists_cons_of_ne_nil hsep
    obtain ⟨rfl, rfl⟩ := List.cons.inj hrest
    rw [join_cons _ _ (splitFrom_ne_nil _ _ _), ih]
    simp
  | case3 c t h ih => rw [join_modifyHead _ _ (splitFrom_ne_nil _ _ _), ih,
    List.drop_zero, List.drop_zero]
  | case4 skip c t ih => rw [ih, List.drop_succ_cons]

/-- **The pieces joined by the separator are the text.** -/
theorem join_split {sep : Text} (hsep : sep ≠ []) (t : Text) : join sep (split sep t) = t :=
  join_splitFrom hsep 0 t

theorem infix_join {sep p : Text} {ps : List Text} (h : p ∈ ps) : p <:+: join sep ps := by
  induction ps with
  | nil => cases h
  | cons q ps ih =>
    by_cases hps : ps = []
    · subst hps
      obtain rfl := List.mem_singleton.mp h
      simp [join]
    · rw [join_cons sep q hps]
      rcases List.mem_cons.mp h with rfl | h
      · exact ⟨[], sep ++ join sep ps, by simp⟩
      · exact (ih h).trans (List.suffix_append _ _).isInfix

theorem infix_of_mem_split {sep p : Text} (hsep : sep ≠ []) (h : p ∈ split sep t) : p <:+: t :=
  join_split hsep t ▸ infix_join h

/-- A text without the separator is one piece. -/
theorem split_of_not_infix {sep : Text} (h : ¬ sep <:+: t) : split sep t = [t] := by
  induction t with
  | nil => rfl
  | cons c t ih =>
    have hprefix : ¬ sep.isPrefixOf (c :: t) = true :=
      fun hp => h (List.isPrefixOf_iff_prefix.mp hp).isInfix
    have hrest := ih fun ht => h (ht.trans (List.suffix_cons c t).isInfix)
    rw [split] at hrest ⊢
    rw [splitFrom, if_neg hprefix, hrest]
    rfl

end Text
