import Mathlib.Data.List.Nodup

/-!
# Machinery/Grouping — a dictionary gathered from a list

A loop over a list that keeps a dictionary: an element opens the entry of its key, or updates the
one that is there.  The keys stay in the order of their first elements, and what a key is worth
depends on the elements of that key alone (`value_gather`).
-/

namespace Grouping

variable {ε K V : Type*} [DecidableEq K] (key : ε → K) (first : ε → V) (next : V → ε → V)

/-- One turn of the loop. -/
def note (d : List (K × V)) (e : ε) : List (K × V) :=
  if key e ∈ d.map (·.1) then d.map fun p => if p.1 = key e then (p.1, next p.2 e) else p
  else d ++ [(key e, first e)]

/-- The loop, from a dictionary on. -/
def gather (d : List (K × V)) (es : List ε) : List (K × V) := es.foldl (note key first next) d

/-- `d.get(k)`. -/
def value (d : List (K × V)) (k : K) : Option V := (d.find? (·.1 = k)).map (·.2)

/-- What an element makes of its entry. -/
def feed (v : Option V) (e : ε) : Option V := some (v.elim (first e) fun v => next v e)

variable {d : List (K × V)} {e : ε} {es : List ε} {k : K} {v : V} {key} {first} {next}

/-! ## Keys -/

theorem keys_note : (note key first next d e).map (·.1) =
    if key e ∈ d.map (·.1) then d.map (·.1) else d.map (·.1) ++ [key e] := by
  rw [note]
  split
  · rw [List.map_map]
    refine List.map_congr_left fun p _ => ?_
    rw [Function.comp_apply]
    split <;> rfl
  · rw [List.map_append, List.map_singleton]

theorem nodup_note (h : (d.map (·.1)).Nodup) : ((note key first next d e).map (·.1)).Nodup := by
  rw [keys_note]
  split
  · exact h
  · next hnew =>
      exact List.Nodup.append h (List.nodup_singleton _) (List.disjoint_singleton.mpr hnew)

/-- **No key twice.** -/
theorem nodup_gather (h : (d.map (·.1)).Nodup) :
    ((gather key first next d es).map (·.1)).Nodup := by
  induction es generalizing d with
  | nil => exact h
  | cons e es ih => exact ih (nodup_note h)

theorem mem_keys_note : k ∈ (note key first next d e).map (·.1) ↔ k ∈ d.map (·.1) ∨ key e = k := by
  rw [keys_note]
  split
  · next hmem => exact ⟨.inl, fun h => h.elim id fun hk => hk ▸ hmem⟩
  · rw [List.mem_append, List.mem_singleton, eq_comm]

/-- An element leaves the entries of the other keys alone. -/
theorem mem_note_of_ne {p : K × V} (hp : p.1 ≠ key e) : p ∈ note key first next d e ↔ p ∈ d := by
  rw [note]
  split
  · rw [List.mem_map]
    constructor
    · rintro ⟨q, hq, rfl⟩
      split at hp
      next hkey => exact absurd hkey hp
      next hkey => rwa [if_neg hkey]
    · exact fun h => ⟨p, h, if_neg hp⟩
  · rw [List.mem_append, List.mem_singleton, or_iff_left]
    rintro rfl
    exact hp rfl

/-- The keys are those of the dictionary at the start and those of the elements. -/
theorem mem_keys_gather :
    k ∈ (gather key first next d es).map (·.1) ↔ k ∈ d.map (·.1) ∨ ∃ e ∈ es, key e = k := by
  induction es generalizing d with
  | nil => simp [gather]
  | cons e es ih =>
    have hrest := ih (d := note key first next d e)
    rw [mem_keys_note, or_assoc] at hrest
    rw [List.exists_mem_cons_iff]
    exact hrest

/-! ## Values -/

theorem value_eq_none_iff : value d k = none ↔ k ∉ d.map (·.1) := by
  rw [value, Option.map_eq_none_iff, List.find?_eq_none, List.mem_map]
  simp only [decide_eq_true_eq, not_exists, not_and]

/-- In a dictionary, a pair is the value of its key. -/
theorem value_eq_some_iff (h : (d.map (·.1)).Nodup) : value d k = some v ↔ (k, v) ∈ d := by
  induction d with
  | nil => simp [value]
  | cons p d ih =>
    obtain ⟨k', v'⟩ := p
    rw [List.map_cons, List.nodup_cons] at h
    by_cases hk : k' = k
    · subst hk
      have hnot : (k', v) ∉ d := fun hmem => h.1 (List.mem_map.mpr ⟨_, hmem, rfl⟩)
      simp [value, hnot, eq_comm]
    · have hrest := ih h.2
      rw [value] at hrest ⊢
      rw [List.find?_cons_of_neg (by simpa using hk), hrest, List.mem_cons]
      simp [Ne.symm hk]

theorem value_map {f : K → V → V} :
    value (d.map fun p => (p.1, f p.1 p.2)) k = (value d k).map (f k) := by
  rw [value, value, List.find?_map, Option.map_map, Option.map_map]
  cases hfound : d.find? (·.1 = k) with
  | none => simpa [Function.comp_def] using hfound
  | some p =>
    have hk : p.1 = k := by simpa using List.find?_some hfound
    simp [Function.comp_def, hfound, hk]

theorem value_append (k' : K) (v : V) :
    value (d ++ [(k', v)]) k = (value d k).or (if k' = k then some v else none) := by
  rw [value, value, List.find?_append, Option.map_or, List.find?_singleton]
  by_cases hk : k' = k
  · rw [if_pos hk, if_pos (decide_eq_true hk)]
    rfl
  · rw [if_neg hk, if_neg (by simpa using hk)]
    rfl

/-- `d.pop(k')`. -/
theorem value_filter_ne (k' : K) :
    value (d.filter (·.1 ≠ k')) k = if k = k' then none else value d k := by
  rw [value, value, List.find?_filter]
  by_cases hk : k = k'
  · subst hk
    rw [if_pos rfl, Option.map_eq_none_iff, List.find?_eq_none]
    simp
  · rw [if_neg hk]
    congr 2
    ext p
    by_cases hp : p.1 = k
    · simp [hp, hk]
    · simp [hp]

/-- **One turn changes the value of its key alone.** -/
theorem value_note : value (note key first next d e) k =
    if key e = k then feed first next (value d k) e else value d k := by
  rw [note]
  by_cases hmem : key e ∈ d.map (·.1)
  · have hmap : (d.map fun p => if p.1 = key e then (p.1, next p.2 e) else p)
        = d.map fun p => (p.1, if p.1 = key e then next p.2 e else p.2) :=
      List.map_congr_left fun p _ => by split <;> rfl
    rw [if_pos hmem, hmap]
    refine (value_map (f := fun k v => if k = key e then next v e else v)).trans ?_
    by_cases hk : key e = k
    · subst hk
      have hsome := mt value_eq_none_iff.mp (not_not.mpr hmem)
      obtain ⟨v, hv⟩ := Option.ne_none_iff_exists'.mp hsome
      simp [hv, feed]
    · simp [hk, Ne.symm hk]
  · rw [if_neg hmem, value_append]
    by_cases hk : key e = k
    · subst hk
      rw [value_eq_none_iff.mpr hmem]
      simp [feed]
    · rw [if_neg hk, if_neg hk, Option.or_none]

/-- **What a key is worth is told by its own elements.** -/
theorem value_gather : value (gather key first next d es) k =
    (es.filter (key · = k)).foldl (feed first next) (value d k) := by
  induction es generalizing d with
  | nil => rfl
  | cons e es ih =>
    have hrest := ih (d := note key first next d e)
    rw [value_note] at hrest
    rw [List.filter_cons]
    by_cases hk : key e = k
    · rw [if_pos hk] at hrest
      rw [if_pos (decide_eq_true hk), List.foldl_cons]
      exact hrest
    · rw [if_neg hk] at hrest
      rw [if_neg (by simpa using hk)]
      exact hrest

end Grouping
