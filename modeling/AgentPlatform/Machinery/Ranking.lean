import Mathlib.Data.List.Basic
import Mathlib.Data.Set.Basic
import Mathlib.Tactic.Common

/-!
# Machinery/Ranking — the first of the highest, and the top of a set

Values are ranked by a natural number.  `best` goes through a list and replaces what it holds by a
value that ranks strictly higher; `isTop_best` says that it ends with a value that nothing in the
list, nor the value it began with, ranks above.  A top is determined by the set when the ranks tell
values apart, and a larger set has a top that ranks no lower.
-/

namespace Ranking

variable {α : Type*} {rank : α → ℕ} {S T : Set α} {a b : α}

/-- The running maximum: the first of the highest. -/
def best (rank : α → ℕ) (start : α) (xs : List α) : α :=
  xs.foldl (fun held x => if rank held < rank x then x else held) start

/-- **`top` is in the set, and nothing in the set ranks above it.** -/
structure IsTop (rank : α → ℕ) (S : Set α) (top : α) : Prop where
  mem : top ∈ S
  le : ∀ a ∈ S, rank a ≤ rank top

theorem best_mem (rank : α → ℕ) (start : α) (xs : List α) :
    best rank start xs = start ∨ best rank start xs ∈ xs := by
  induction xs generalizing start with
  | nil => exact .inl rfl
  | cons x xs ih =>
    rw [best, List.foldl_cons]
    rcases ih (if rank start < rank x then x else start) with h | h
    · rw [best] at h
      rw [h]
      split
      · exact .inr List.mem_cons_self
      · exact .inl rfl
    · exact .inr (List.mem_cons_of_mem _ h)

/-- What bounds the start and the list bounds the best, and conversely. -/
theorem rank_best_le {start : α} {xs : List α} {n : ℕ} :
    rank (best rank start xs) ≤ n ↔ rank start ≤ n ∧ ∀ x ∈ xs, rank x ≤ n := by
  induction xs generalizing start with
  | nil => simp [best]
  | cons x xs ih =>
    rw [best, List.foldl_cons]
    refine ih.trans ?_
    rw [List.forall_mem_cons, ← and_assoc]
    refine and_congr_left fun _ => ?_
    split <;> omega

theorem isTop_best (rank : α → ℕ) (start : α) (xs : List α) :
    IsTop rank {a | a = start ∨ a ∈ xs} (best rank start xs) := by
  refine ⟨best_mem rank start xs, ?_⟩
  obtain ⟨hstart, hxs⟩ := rank_best_le.mp (le_refl (rank (best rank start xs)))
  rintro a (rfl | ha)
  · exact hstart
  · exact hxs a ha

theorem IsTop.congr (h : IsTop rank S a) (hmem : ∀ b, b ∈ S ↔ b ∈ T) : IsTop rank T a :=
  ⟨(hmem a).mp h.mem, fun b hb => h.le b ((hmem b).mpr hb)⟩

/-- **A larger set has a top that ranks no lower.** -/
theorem IsTop.rank_le (ha : IsTop rank S a) (hb : IsTop rank T b)
    (hsub : S ⊆ T) : rank a ≤ rank b :=
  hb.le a (hsub ha.mem)

/-- **A set has one top**, if no two values have one rank. -/
theorem IsTop.unique (hrank : Function.Injective rank) (ha : IsTop rank S a) (hb : IsTop rank S b) :
    a = b :=
  hrank (Nat.le_antisymm (ha.rank_le hb subset_rfl) (hb.rank_le ha subset_rfl))

end Ranking
