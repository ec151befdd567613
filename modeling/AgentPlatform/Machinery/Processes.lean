import Mathlib.Data.List.Basic
import Mathlib.Tactic.Common

/-!
# Machinery/Processes — a list of processes of which one moves at a time

A process is known by its place in a list.  A step of the process at `i` replaces the entry at `i`
(`List.set`), a new process is appended.  `AtMostOne p` says that no two places hold a process with
`p`, and the lemmas say when each kind of step keeps it.
-/

namespace Processes

variable {P : Type*} {p : P → Prop} {ps : List P} {x : P} {i : ℕ}

/-- **At most one process satisfies `p`.** -/
def AtMostOne (p : P → Prop) (ps : List P) : Prop :=
  ∀ (i j : ℕ) (x y : P), ps[i]? = some x → ps[j]? = some y → p x → p y → i = j

/-- An entry after a step of the process at `i`: the new one there, else an old one. -/
theorem getElem?_set_cases {j : ℕ} {y : P} (h : (ps.set i x)[j]? = some y) :
    (j = i ∧ y = x) ∨ (j ≠ i ∧ ps[j]? = some y) := by
  by_cases hji : j = i
  · subst hji
    rw [List.getElem?_set] at h
    simp only [if_true] at h
    split at h
    · exact .inl ⟨rfl, (Option.some.inj h).symm⟩
    · exact absurd h (by simp)
  · rw [List.getElem?_set_ne (Ne.symm hji)] at h
    exact .inr ⟨hji, h⟩

/-- A process that has `p` only if it had it before keeps exclusion. -/
theorem AtMostOne.set (h : AtMostOne p ps) (hx : p x → ∃ y, ps[i]? = some y ∧ p y) :
    AtMostOne p (ps.set i x) := by
  intro j k y z hj hk hy hz
  rcases getElem?_set_cases hj with ⟨hji, rfl⟩ | ⟨_, hj'⟩
  · obtain ⟨y', hi, hy'⟩ := hx hy
    rcases getElem?_set_cases hk with ⟨hki, _⟩ | ⟨_, hk'⟩
    · rw [hji, hki]
    · rw [hji]
      exact h _ _ _ _ hi hk' hy' hz
  · rcases getElem?_set_cases hk with ⟨hki, rfl⟩ | ⟨_, hk'⟩
    · obtain ⟨z', hi, hz'⟩ := hx hz
      rw [hki]
      exact h _ _ _ _ hj' hi hy hz'
    · exact h _ _ _ _ hj' hk' hy hz

/-- Where no process has `p`, one may come to have it. -/
theorem atMostOne_set_of_none (h : ∀ y ∈ ps, ¬ p y) : AtMostOne p (ps.set i x) := by
  intro j k y z hj hk hy hz
  rcases getElem?_set_cases hj with ⟨hji, _⟩ | ⟨_, hj'⟩
  · rcases getElem?_set_cases hk with ⟨hki, _⟩ | ⟨_, hk'⟩
    · rw [hji, hki]
    · exact absurd hz (h _ (List.mem_of_getElem? hk'))
  · exact absurd hy (h _ (List.mem_of_getElem? hj'))

/-- An entry of a list with a new process at its end. -/
theorem getElem?_append_cases {j : ℕ} {y : P} (h : (ps ++ [x])[j]? = some y) :
    y = x ∨ ps[j]? = some y := by
  rw [List.getElem?_append] at h
  split at h
  · exact .inr h
  · exact .inl (by simpa using List.mem_of_getElem? h)

/-- A new process without `p` keeps exclusion. -/
theorem AtMostOne.append (h : AtMostOne p ps) (hx : ¬ p x) : AtMostOne p (ps ++ [x]) := by
  intro j k y z hj hk hy hz
  rcases getElem?_append_cases hj with rfl | hj
  · exact absurd hy hx
  · rcases getElem?_append_cases hk with rfl | hk
    · exact absurd hz hx
    · exact h _ _ _ _ hj hk hy hz

/-- **A property of every process**, where the one that moves keeps it. -/
theorem forall_set (h : ∀ y ∈ ps, p y) (hx : p x) : ∀ y ∈ ps.set i x, p y := by
  intro y hy
  rcases List.mem_or_eq_of_mem_set hy with hy | rfl
  · exact h y hy
  · exact hx

/-- A process is still there after another, or itself, has moved. -/
theorem exists_set {j : ℕ} {y : P} (hi : ps[i]? = some y) (hp : p y → p x)
    (h : ∃ z, ps[j]? = some z ∧ p z) : ∃ z, (ps.set i x)[j]? = some z ∧ p z := by
  obtain ⟨z, hz, hpz⟩ := h
  by_cases hji : j = i
  · subst hji
    obtain rfl := Option.some.inj (hi.symm.trans hz)
    obtain ⟨hlt, -⟩ := List.getElem?_eq_some_iff.mp hi
    exact ⟨x, List.getElem?_set_self hlt, hp hpz⟩
  · exact ⟨z, by rw [List.getElem?_set_ne (Ne.symm hji)]; exact hz, hpz⟩

theorem forall_append (h : ∀ y ∈ ps, p y) (hx : p x) : ∀ y ∈ ps ++ [x], p y := by
  intro y hy
  rcases List.mem_append.mp hy with hy | hy
  · exact h y hy
  · rw [List.mem_singleton.mp hy]
    exact hx

end Processes
