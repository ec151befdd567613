import Mathlib.Order.Defs.Unbundled
import Mathlib.Tactic.Common

/-!
# Machinery/Programs — programs that raise and keep what they did

`Prog σ ε α` is a program over states `σ` that returns an `α` or raises an `ε`; an exception does
not undo the effects that came before it.  Four ways to reason about one:

* the inversion rules `bind_eq_ok`, `read_eq_ok`, … read a completed program backwards, call by
  call;
* `Keeps R m` says every outcome of `m` leaves the state `R`-related to the one it started from —
  a frame condition, proved call by call for a preorder `R`;
* `Returns Q m` says whatever `m` returns satisfies `Q`;
* `Triple P R Q m` says that from a state with `P`, `m` returns into `R` or raises into `Q`.
-/

/-- A program over states `σ` that returns an `α` or raises an `ε`. -/
def Prog (σ ε α : Type) := σ → Except ε α × σ

namespace Prog

variable {σ ε α β : Type}

instance : Monad (Prog σ ε) where
  pure a := fun s => (.ok a, s)
  bind m f := fun s => match m s with
    | (.ok a, s') => f a s'
    | (.error e, s') => (.error e, s')

/-- `raise`. -/
def raise (e : ε) : Prog σ ε α := fun s => (.error e, s)

/-- Read the state. -/
def read (f : σ → α) : Prog σ ε α := fun s => (.ok (f s), s)

/-- Change the state. -/
def modify (f : σ → σ) : Prog σ ε Unit := fun s => (.ok (), f s)

/-- The outcome of a call that leaves the state alone. -/
def lift (r : Except ε α) : Prog σ ε α := fun s => (r, s)

/-- A call whose only outcome of interest is the exception it may raise. -/
def call : Option ε → Prog σ ε Unit
  | none => pure ()
  | some e => raise e

/-- `if c: m`. -/
def whenever (c : Prop) [Decidable c] (m : Prog σ ε Unit) : Prog σ ε Unit :=
  if c then m else pure ()

/-- `try: m except …`, for a handler that looks at the exception. -/
def catching (m : Prog σ ε α) (handler : ε → Prog σ ε α) : Prog σ ε α := fun s =>
  match m s with
  | (.ok a, s') => (.ok a, s')
  | (.error e, s') => handler e s'

theorem pure_apply (a : α) (s : σ) : (pure a : Prog σ ε α) s = (.ok a, s) := rfl

theorem bind_apply (m : Prog σ ε α) (f : α → Prog σ ε β) (s : σ) :
    (m >>= f) s = match m s with
      | (.ok a, s') => f a s'
      | (.error e, s') => (.error e, s') := rfl

/-- A sequence whose first half returns. -/
theorem bind_of_ok {m : Prog σ ε α} {f : α → Prog σ ε β} {s s' : σ} {a : α}
    (h : m s = (.ok a, s')) : (m >>= f) s = f a s' := by rw [bind_apply, h]

/-! ## Reading an outcome backwards -/

section Inversion

theorem outcome_bind_eq_ok {x : Except ε α} {f : α → Except ε β} {b : β} :
    (x >>= f) = .ok b ↔ ∃ a, x = .ok a ∧ f a = .ok b := by
  cases x with
  | error e => exact ⟨fun h => (nomatch h), fun ⟨_, ha, _⟩ => (nomatch ha)⟩
  | ok a =>
    refine ⟨fun h => ⟨a, rfl, h⟩, fun ⟨a', ha, hf⟩ => ?_⟩
    obtain rfl := Except.ok.inj ha
    exact hf

variable {m : Prog σ ε α} {f : α → Prog σ ε β} {s s' : σ}

/-- **A sequence that returned**: both halves did. -/
theorem bind_eq_ok {b : β} :
    (m >>= f) s = (.ok b, s') ↔ ∃ a t, m s = (.ok a, t) ∧ f a t = (.ok b, s') := by
  rw [bind_apply]
  rcases m s with ⟨_ | a, t⟩ <;> simp

@[simp] theorem pure_eq_ok {a b : α} :
    (pure a : Prog σ ε α) s = (.ok b, s') ↔ a = b ∧ s = s' := by simp [pure_apply]

@[simp] theorem raise_eq_ok {e : ε} {a : α} : (raise e : Prog σ ε α) s = (.ok a, s') ↔ False := by
  simp [raise]

@[simp] theorem read_eq_ok {g : σ → α} {a : α} :
    (read g : Prog σ ε α) s = (.ok a, s') ↔ g s = a ∧ s = s' := by simp [read]

@[simp] theorem modify_eq_ok {g : σ → σ} {u : Unit} :
    (modify g : Prog σ ε Unit) s = (.ok u, s') ↔ g s = s' := by simp [modify]

@[simp] theorem lift_eq_ok {r : Except ε α} {a : α} :
    (lift r : Prog σ ε α) s = (.ok a, s') ↔ r = .ok a ∧ s = s' := by simp [lift]

@[simp] theorem call_eq_ok {c : Option ε} {u : Unit} :
    (call c : Prog σ ε Unit) s = (.ok u, s') ↔ c = none ∧ s = s' := by
  cases c <;> simp [call]

/-- **A guarded program that returned**: on its own, or through its handler. -/
theorem catching_eq_ok {handler : ε → Prog σ ε α} {a : α} :
    catching m handler s = (.ok a, s') ↔
      m s = (.ok a, s') ∨ ∃ e t, m s = (.error e, t) ∧ handler e t = (.ok a, s') := by
  rw [catching]
  rcases m s with ⟨_ | _, t⟩ <;> simp

end Inversion

/-! ## Frame conditions -/

/-- **Every outcome of `m` leaves the state `R`-related to where it started.** -/
def Keeps (R : σ → σ → Prop) (m : Prog σ ε α) : Prop := ∀ s, R s (m s).2

section Keeps

variable {R : σ → σ → Prop}

theorem Keeps.of_eq {m : Prog σ ε α} (h : Keeps R m) {s s' : σ} {r : Except ε α}
    (hm : m s = (r, s')) : R s s' := by
  have := h s
  rwa [hm] at this

theorem keeps_modify {g : σ → σ} (h : ∀ s, R s (g s)) : Keeps R (modify g : Prog σ ε Unit) := h

theorem Keeps.ite {c : Prop} [Decidable c] {m n : Prog σ ε α} (hm : c → Keeps R m)
    (hn : ¬ c → Keeps R n) : Keeps R (if c then m else n) := by
  by_cases h : c
  · simpa [h] using hm h
  · simpa [h] using hn h

variable [IsPreorder σ R]

theorem keeps_pure (a : α) : Keeps R (pure a : Prog σ ε α) := fun s => refl s

theorem keeps_raise (e : ε) : Keeps R (raise e : Prog σ ε α) := fun s => refl s

theorem keeps_read (g : σ → α) : Keeps R (read g : Prog σ ε α) := fun s => refl s

theorem keeps_lift (r : Except ε α) : Keeps R (lift r : Prog σ ε α) := fun s => refl s

theorem keeps_call : ∀ c : Option ε, Keeps R (call c : Prog σ ε Unit)
  | none => keeps_pure ()
  | some e => keeps_raise e

theorem Keeps.bind {m : Prog σ ε α} {f : α → Prog σ ε β} (hm : Keeps R m)
    (hf : ∀ a, Keeps R (f a)) : Keeps R (m >>= f) := by
  intro s
  have hs := hm s
  rw [bind_apply]
  rcases h : m s with ⟨e | a, t⟩
  · simpa [h] using hs
  · rw [h] at hs
    exact trans_of R hs (hf a t)

theorem Keeps.whenever {c : Prop} [Decidable c] {m : Prog σ ε Unit} (hm : Keeps R m) :
    Keeps R (whenever c m) := Keeps.ite (fun _ => hm) fun _ => keeps_pure ()

theorem Keeps.catching {m : Prog σ ε α} {handler : ε → Prog σ ε α} (hm : Keeps R m)
    (hh : ∀ e, Keeps R (handler e)) : Keeps R (catching m handler) := by
  intro s
  have hs := hm s
  rw [Prog.catching]
  rcases h : m s with ⟨e | a, t⟩
  · rw [h] at hs
    exact trans_of R hs (hh e t)
  · simpa [h] using hs

end Keeps

/-! ## Returned values -/

/-- **Whatever `m` returns satisfies `Q`.** -/
def Returns (Q : α → Prop) (m : Prog σ ε α) : Prop := ∀ s a s', m s = (.ok a, s') → Q a

section Returns

variable {Q : β → Prop}

theorem returns_pure {b : β} (h : Q b) : Returns Q (pure b : Prog σ ε β) := by
  intro s a s' hm
  obtain ⟨rfl, -⟩ := pure_eq_ok.mp hm
  exact h

theorem Returns.bind {P : α → Prop} {m : Prog σ ε α} {f : α → Prog σ ε β} (hm : Returns P m)
    (hf : ∀ a, P a → Returns Q (f a)) : Returns Q (m >>= f) := by
  intro s b s' h
  obtain ⟨a, t, ha, hb⟩ := bind_eq_ok.mp h
  exact hf a (hm s a t ha) t b s' hb

/-- …whatever the first half returns. -/
theorem returns_bind {m : Prog σ ε α} {f : α → Prog σ ε β} (hf : ∀ a, Returns Q (f a)) :
    Returns Q (m >>= f) :=
  Returns.bind (P := fun _ => True) (fun _ _ _ _ => trivial) fun a _ => hf a

theorem Returns.ite {c : Prop} [Decidable c] {m n : Prog σ ε β} (hm : c → Returns Q m)
    (hn : ¬ c → Returns Q n) : Returns Q (if c then m else n) := by
  by_cases h : c
  · rw [if_pos h]
    exact hm h
  · rw [if_neg h]
    exact hn h

end Returns

/-! ## Triples -/

/-- **From a state with `P`, `m` returns into a state with `R`, or raises into one with `Q`.** -/
def Triple (P : σ → Prop) (R : α → σ → Prop) (Q : ε → σ → Prop) (m : Prog σ ε α) : Prop :=
  ∀ s, P s → match m s with
    | (.ok a, s') => R a s'
    | (.error e, s') => Q e s'

section Triple

variable {P : σ → Prop} {Q : ε → σ → Prop}

theorem triple_pure {R : α → σ → Prop} {a : α} (h : ∀ s, P s → R a s) :
    Triple P R Q (pure a : Prog σ ε α) := h

theorem triple_modify {R : σ → Prop} {g : σ → σ} (h : ∀ s, P s → R (g s)) :
    Triple P (fun _ => R) Q (modify g : Prog σ ε Unit) := h

theorem triple_read {g : σ → α} : Triple P (fun _ => P) Q (read g : Prog σ ε α) := fun _ hs => hs

theorem triple_lift {r : Except ε α} (h : ∀ e s, P s → Q e s) :
    Triple P (fun _ => P) Q (lift r : Prog σ ε α) := by
  intro s hs
  rcases r with e | a
  · exact h e s hs
  · exact hs

/-- What is read is what the state has. -/
theorem triple_read_eq {g : σ → α} :
    Triple P (fun a s => P s ∧ a = g s) Q (read g : Prog σ ε α) := fun _ hs => ⟨hs, rfl⟩

/-- What is lifted in is what the outcome holds. -/
theorem triple_lift_eq {r : Except ε α} (h : ∀ e s, P s → Q e s) :
    Triple P (fun a s => P s ∧ r = .ok a) Q (lift r : Prog σ ε α) := by
  intro s hs
  rcases r with e | a
  · exact h e s hs
  · exact ⟨hs, rfl⟩

/-- A fact that does not speak of the state is had once and for all. -/
theorem triple_of_fact {R : α → σ → Prop} {K : Prop} {m : Prog σ ε α} (h : K → Triple P R Q m) :
    Triple (fun s => P s ∧ K) R Q m := fun s hs => h hs.2 s hs.1

/-- The rule of consequence. -/
theorem Triple.mono {P' : σ → Prop} {R R' : α → σ → Prop} {Q' : ε → σ → Prop} {m : Prog σ ε α}
    (h : Triple P R Q m) (hP : ∀ s, P' s → P s) (hR : ∀ a s, R a s → R' a s)
    (hQ : ∀ e s, Q e s → Q' e s) : Triple P' R' Q' m := by
  intro s hs
  have hpost := h s (hP s hs)
  rcases hrun : m s with ⟨e | a, t⟩
  · rw [hrun] at hpost
    exact hQ e t hpost
  · rw [hrun] at hpost
    exact hR a t hpost

/-- A frame condition keeps what it frames. -/
theorem Keeps.triple {R : σ → σ → Prop} {m : Prog σ ε α} (h : Keeps R m)
    (hP : ∀ s s', P s → R s s' → P s') (hQ : ∀ e s, P s → Q e s) : Triple P (fun _ => P) Q m := by
  intro s hs
  have hpost := hP s (m s).2 hs (h s)
  rcases hrun : m s with ⟨e | a, t⟩
  · rw [hrun] at hpost
    exact hQ e t hpost
  · rw [hrun] at hpost
    exact hpost

theorem Triple.bind {R : α → σ → Prop} {S : β → σ → Prop} {m : Prog σ ε α} {f : α → Prog σ ε β}
    (hm : Triple P R Q m) (hf : ∀ a, Triple (R a) S Q (f a)) : Triple P S Q (m >>= f) := by
  intro s hs
  have hpost := hm s hs
  rw [bind_apply]
  rcases h : m s with ⟨e | a, t⟩
  · rw [h] at hpost
    exact hpost
  · rw [h] at hpost
    exact hf a t hpost

theorem Triple.ite {R : α → σ → Prop} {c : Prop} [Decidable c] {m n : Prog σ ε α}
    (hm : c → Triple P R Q m) (hn : ¬ c → Triple P R Q n) : Triple P R Q (if c then m else n) := by
  by_cases h : c
  · rw [if_pos h]
    exact hm h
  · rw [if_neg h]
    exact hn h

end Triple

/-! ## Programs with a record -/

section Record

variable {τ : Type}

/-- A program run beside a record it does not touch. -/
def beside (m : Prog σ ε α) : Prog (σ × τ) ε α := fun s =>
  match m s.1 with
  | (r, t) => (r, (t, s.2))

/-- **Forgetting the record of `m'` gives `m`.** -/
def Erases (m' : Prog (σ × τ) ε α) (m : Prog σ ε α) : Prop :=
  ∀ s, ((m' s).1, (m' s).2.1) = m s.1

theorem erases_beside (m : Prog σ ε α) : Erases (beside m : Prog (σ × τ) ε α) m := fun _ => rfl

theorem erases_read (f : σ → α) : Erases (read fun s => f s.1 : Prog (σ × τ) ε α) (read f) :=
  fun _ => rfl

theorem erases_lift (r : Except ε α) : Erases (lift r : Prog (σ × τ) ε α) (lift r) := fun _ => rfl

theorem Erases.bind {m' : Prog (σ × τ) ε α} {m : Prog σ ε α} {f' : α → Prog (σ × τ) ε β}
    {f : α → Prog σ ε β} (hm : Erases m' m) (hf : ∀ a, Erases (f' a) (f a)) :
    Erases (m' >>= f') (m >>= f) := by
  intro s
  have hs := hm s
  rw [bind_apply, bind_apply, ← hs]
  rcases m' s with ⟨e | a, t⟩
  · rfl
  · exact hf a t

/-- A step that only writes to the record leaves no trace. -/
theorem Erases.note {g : σ × τ → τ} {m' : Prog (σ × τ) ε α} {m : Prog σ ε α} (h : Erases m' m) :
    Erases (modify (fun s => (s.1, g s)) >>= fun _ => m') m := fun s => h (s.1, g s)

theorem Erases.ite {c : Prop} [Decidable c] {m' n' : Prog (σ × τ) ε α} {m n : Prog σ ε α}
    (hm : Erases m' m) (hn : Erases n' n) :
    Erases (if c then m' else n') (if c then m else n) := by
  by_cases h : c
  · rwa [if_pos h, if_pos h]
  · rwa [if_neg h, if_neg h]

theorem triple_beside_modify {P R : σ × τ → Prop} {Q : ε → σ × τ → Prop} {g : σ → σ}
    (h : ∀ s, P s → R (g s.1, s.2)) :
    Triple P (fun _ => R) Q (beside (modify g) : Prog (σ × τ) ε Unit) := h

/-- What a program does to the state it does beside a record. -/
theorem Triple.beside {P : σ → Prop} {R : α → σ → Prop} {Q : ε → σ → Prop} {m : Prog σ ε α}
    (h : Triple P R Q m) (K : τ → Prop) :
    Triple (fun s => P s.1 ∧ K s.2) (fun a s => R a s.1 ∧ K s.2) (fun e s => Q e s.1 ∧ K s.2)
      (Prog.beside m : Prog (σ × τ) ε α) := by
  rintro ⟨s, t⟩ ⟨hs, ht⟩
  have hpost := h s hs
  rw [Prog.beside]
  rcases hrun : m s with ⟨e | a, s'⟩
  · rw [hrun] at hpost
    exact ⟨hpost, ht⟩
  · rw [hrun] at hpost
    exact ⟨hpost, ht⟩

end Record

end Prog
