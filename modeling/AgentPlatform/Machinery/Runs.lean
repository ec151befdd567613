import Mathlib.Data.List.Basic
import Mathlib.Tactic.Common

/-!
# Machinery/Runs — runs of a step function, and what survives them

A system is a step function `step : S → A → S`; an input it does not react to leaves it where it is.
A **run** consumes a list of inputs, and `Along step ok s as` says that every step of the run of
`as` from `s` meets the condition `ok`, read at the state the step starts from.

* `Along.invariant` — a property one good step preserves holds at the end of every good run.
* `Somewhere` — some step of the run meets `ok`.
* `along_iff_forall_prefix` — where a step is good exactly if it preserves the property, the runs
  all of whose states have it are exactly the good ones.
-/

namespace Runs

variable {S A : Type*} (step : S → A → S)

/-- The state a run ends in. -/
def run (s : S) (as : List A) : S := as.foldl step s

@[simp] theorem run_nil (s : S) : run step s [] = s := rfl

@[simp] theorem run_cons (s : S) (a : A) (as : List A) :
    run step s (a :: as) = run step (step s a) as := rfl

theorem run_append (s : S) (as bs : List A) :
    run step s (as ++ bs) = run step (run step s as) bs := List.foldl_append

/-- **Every step of the run meets `ok`**, at the state it starts from. -/
def Along (ok : S → A → Prop) : S → List A → Prop
  | _, [] => True
  | s, a :: as => ok s a ∧ Along ok (step s a) as

/-- The condition is decided step by step. -/
instance Along.decidable (ok : S → A → Prop) [∀ s a, Decidable (ok s a)] :
    ∀ (s : S) (as : List A), Decidable (Along step ok s as)
  | _, [] => isTrue trivial
  | s, a :: as =>
    have := Along.decidable ok (step s a) as
    inferInstanceAs (Decidable (ok s a ∧ Along step ok (step s a) as))

/-- **Some step of the run meets `ok`**, at the state it starts from. -/
def Somewhere (ok : S → A → Prop) (s : S) (as : List A) : Prop :=
  ∃ bs a cs, as = bs ++ a :: cs ∧ ok (run step s bs) a

variable {step} {ok : S → A → Prop} {s : S} {as : List A}

theorem somewhere_head {a : A} (h : ok s a) : Somewhere step ok s (a :: as) := ⟨[], a, as, rfl, h⟩

theorem Somewhere.cons {a : A}
    (h : Somewhere step ok (step s a) as) : Somewhere step ok s (a :: as) := by
  obtain ⟨bs, b, cs, rfl, hb⟩ := h
  exact ⟨a :: bs, b, cs, rfl, hb⟩

/-- **The invariant rule**: what one good step preserves, a good run preserves. -/
theorem Along.invariant {P : S → Prop} (hstep : ∀ s a, P s → ok s a → P (step s a))
    (h : Along step ok s as) (hs : P s) : P (run step s as) := by
  induction as generalizing s with
  | nil => exact hs
  | cons a as ih => exact ih h.2 (hstep s a hs h.1)

/-- …with no condition on the steps. -/
theorem run_invariant {P : S → Prop} (hstep : ∀ s a, P s → P (step s a)) (hs : P s)
    (as : List A) : P (run step s as) := by
  induction as generalizing s with
  | nil => exact hs
  | cons a as ih => exact ih (hstep s a hs)

/-- A run meets the condition from its beginning on. -/
theorem Along.of_append {bs : List A} (h : Along step ok s (as ++ bs)) : Along step ok s as := by
  induction as generalizing s with
  | nil => trivial
  | cons a as ih => exact ⟨h.1, ih h.2⟩

/-- Two conditions that agree on the steps of a run agree on the run. -/
theorem Along.congr {ok' ok'' : S → A → Prop} (hiff : ∀ s a, ok s a → (ok' s a ↔ ok'' s a))
    (h : Along step ok s as) : Along step ok' s as ↔ Along step ok'' s as := by
  induction as generalizing s with
  | nil => exact Iff.rfl
  | cons a as ih => exact and_congr (hiff s a h.1) (ih h.2)

/-- **The good runs are those whose states all have `P`**, if a step is good exactly when it keeps
`P`. -/
theorem along_iff_forall_prefix {I P : S → Prop} (hinv : ∀ s a, I s → I (step s a))
    (hstep : ∀ s a, I s → P s → (ok s a ↔ P (step s a))) (hI : I s) (hP : P s) :
    Along step ok s as ↔ ∀ bs, bs <+: as → P (run step s bs) := by
  induction as generalizing s with
  | nil =>
    refine ⟨fun _ bs hbs => ?_, fun _ => trivial⟩
    obtain rfl := List.prefix_nil.mp hbs
    exact hP
  | cons a as ih =>
    constructor
    · rintro ⟨hok, halong⟩ bs hbs
      have hnext := (hstep s a hI hP).mp hok
      rcases List.prefix_cons_iff.mp hbs with rfl | ⟨cs, rfl, hcs⟩
      · exact hP
      · exact (ih (hinv s a hI) hnext).mp halong cs hcs
    · intro h
      have hnext : P (step s a) := h [a] (by simp)
      refine ⟨(hstep s a hI hP).mpr hnext, (ih (hinv s a hI) hnext).mpr fun bs hbs => ?_⟩
      exact h (a :: bs) (List.cons_prefix_cons.mpr ⟨rfl, hbs⟩)

end Runs
