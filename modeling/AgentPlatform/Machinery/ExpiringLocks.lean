import Mathlib.Data.List.Induction
import Mathlib.Logic.Function.Basic
import Mathlib.Order.Lattice
import Mathlib.Tactic.Common

/-!
# Machinery/ExpiringLocks — the lock that lapses by itself

The specification of an **expiring lock**: every name has at most one holder, with a deadline, and a
holding is in force while the clock has not reached its deadline.  Names, owners and the clock are
arbitrary types; of the clock only its order is used.

A call is checked against the holdings in force at one reading of the clock and counts a new
deadline from a second one, which an implementation that reads the clock twice needs.  Two tables
**agree** from a reading on if the same holdings are in force at every later one: what has lapsed
may still be stored in one of them and not in the other.

* `simulates` — an implementation each of whose calls answers as `step` and keeps the tables in
  agreement answers as `step` along every sequence of calls whose readings do not decrease.
* `answers_mapTtl` — locks that last longer or shorter are answered alike by a clock that is never
  read in between.
-/

namespace ExpiringLock

variable {N O T M : Type*}

/-- What a caller asks for. -/
inductive Request (T : Type*) where
  | acquire (ttl : T)
  | renew (ttl : T)
  | release
  deriving DecidableEq

/-- How long the caller asks for. -/
def Request.ttl? : Request T → Option T
  | .acquire ttl | .renew ttl => some ttl
  | .release => none

/-- A request for another time. -/
def Request.mapTtl (f : T → T) : Request T → Request T
  | .acquire ttl => .acquire (f ttl)
  | .renew ttl => .renew (f ttl)
  | .release => .release

/-- A call, with the clock at its check and at the stamping of a new deadline. -/
structure Call (N O T : Type*) where
  name : N
  owner : O
  request : Request T
  asked : T
  stamped : T

/-- A call for another time. -/
def Call.mapTtl (f : T → T) (c : Call N O T) : Call N O T :=
  { c with request := c.request.mapTtl f }

/-- The holder of each name and its deadline. -/
abbrev Holdings (N O T : Type*) := N → Option (O × T)

/-- The readings of the clock, in the order they are taken. -/
def readings (calls : List (Call N O T)) : List T := calls.flatMap fun c => [c.asked, c.stamped]

section Order

variable [LinearOrder T]

/-- The entry, while it has not lapsed. -/
def unexpired (now : T) (entry : Option (O × T)) : Option (O × T) :=
  entry.filter fun holding => now < holding.2

@[simp] theorem unexpired_none (now : T) : unexpired now (none : Option (O × T)) = none := rfl

theorem unexpired_some (now : T) (holding : O × T) :
    unexpired now (some holding) = if now < holding.2 then some holding else none := by
  by_cases h : now < holding.2 <;> simp [unexpired, Option.filter, h]

/-- What is in force now was in force before. -/
theorem unexpired_unexpired {now later : T} (h : now ≤ later) (entry : Option (O × T)) :
    unexpired later (unexpired now entry) = unexpired later entry := by
  cases entry with
  | none => rfl
  | some holding =>
    rw [unexpired_some]
    split
    · rfl
    · rename_i hexpired
      rw [unexpired_some, unexpired_none, if_neg fun hlater => hexpired (h.trans_lt hlater)]

/-- A holding in force is the stored one. -/
theorem unexpired_eq_some {now : T} {entry : Option (O × T)} {holding : O × T} :
    unexpired now entry = some holding ↔ entry = some holding ∧ now < holding.2 := by
  simp [unexpired, Option.filter_eq_some_iff]

/-- **The same holdings are in force** from `now` on. -/
def Agree (now : T) (held stored : Holdings N O T) : Prop :=
  ∀ later, now ≤ later → ∀ name, unexpired later (held name) = unexpired later (stored name)

theorem Agree.mono {now later : T} {held stored : Holdings N O T} (h : Agree now held stored)
    (hle : now ≤ later) : Agree later held stored :=
  fun t ht => h t (hle.trans ht)

/-- Two agreeing tables still agree when both get the same entry. -/
theorem Agree.update [DecidableEq N] {now : T} {held stored : Holdings N O T}
    (h : Agree now held stored) (name : N) (entry : Option (O × T)) :
    Agree now (Function.update held name entry) (Function.update stored name entry) := by
  intro later hlater other
  by_cases hother : other = name
  · subst hother
    simp
  · simpa [Function.update_of_ne hother] using h later hlater other

/-- A table agrees with what is in force in it. -/
theorem agree_unexpired (now : T) (held : Holdings N O T) :
    Agree now (fun name => unexpired now (held name)) held :=
  fun _ hlater name => unexpired_unexpired hlater (held name)

/-- Who holds an entry, while it has not lapsed. -/
def holder (now : T) (entry : Option (O × T)) : Option O := (unexpired now entry).map Prod.fst

/-- What was in force at one reading is in force at another if it is at the later of them. -/
theorem holder_unexpired (now asked : T) (entry : Option (O × T)) :
    holder now (unexpired asked entry) = holder (max now asked) entry := by
  rcases le_total asked now with h | h
  · rw [holder, unexpired_unexpired h, max_eq_left h, holder]
  · rw [max_eq_right h]
    cases entry with
    | none => rfl
    | some holding =>
      by_cases hlive : asked < holding.2
      · simp [holder, unexpired_some, hlive, h.trans_lt hlive]
      · simp [holder, unexpired_some, hlive]

/-- **Tables that no reading of a set tells apart**: a name has the same holder at each. -/
def SameHolders (readings : Set T) (held held' : Holdings N O T) : Prop :=
  ∀ now ∈ readings, ∀ name, holder now (held name) = holder now (held' name)

namespace SameHolders

variable {readings : Set T} {held held' : Holdings N O T}

theorem inForce (h : SameHolders readings held held') {asked : T} (hasked : asked ∈ readings) :
    SameHolders readings (fun name => unexpired asked (held name))
      (fun name => unexpired asked (held' name)) := by
  intro now hnow name
  rw [holder_unexpired, holder_unexpired]
  rcases le_total asked now with hle | hle
  · rw [max_eq_left hle]
    exact h now hnow name
  · rw [max_eq_right hle]
    exact h asked hasked name

theorem update [DecidableEq N] (h : SameHolders readings held held') (name : N)
    {entry entry' : Option (O × T)}
    (hentry : ∀ now ∈ readings, holder now entry = holder now entry') :
    SameHolders readings (Function.update held name entry)
      (Function.update held' name entry') := by
  intro now hnow other
  by_cases hother : other = name
  · subst hother
    rw [Function.update_self, Function.update_self]
    exact hentry now hnow
  · rw [Function.update_of_ne hother, Function.update_of_ne hother]
    exact h now hnow other

end SameHolders

variable [Add T] [DecidableEq N] [DecidableEq O]

/-- **One call of the specification**: the answer, and the holdings after it. -/
def step (held : Holdings N O T) (c : Call N O T) : Option Bool × Holdings N O T :=
  let inForce : Holdings N O T := fun name => unexpired c.asked (held name)
  match c.request, inForce c.name with
  | .acquire ttl, none =>
    (some true, Function.update inForce c.name (some (c.owner, c.stamped + ttl)))
  | .acquire _, some _ => (some false, inForce)
  | .renew _, none => (some false, inForce)
  | .renew ttl, some (holder, _) =>
    if holder = c.owner then
      (some true, Function.update inForce c.name (some (c.owner, c.stamped + ttl)))
    else (some false, inForce)
  | .release, none => (none, inForce)
  | .release, some (holder, _) =>
    if holder = c.owner then (none, Function.update inForce c.name none) else (none, inForce)

/-- **Another ttl is no other answer**, where no reading lies between the two deadlines. -/
theorem SameHolders.step {readings : Set T} {held held' : Holdings N O T}
    (h : SameHolders readings held held') {f g : T → T} {c : Call N O T}
    (hasked : c.asked ∈ readings) (hclear : ∀ ttl ∈ c.request.ttl?, ∀ now ∈ readings,
      (now < c.stamped + f ttl ↔ now < c.stamped + g ttl)) :
    (step held (c.mapTtl f)).1 = (step held' (c.mapTtl g)).1 ∧
      SameHolders readings (step held (c.mapTtl f)).2 (step held' (c.mapTtl g)).2 := by
  have hforce := h.inForce hasked
  have hname : (unexpired c.asked (held c.name)).map Prod.fst =
      (unexpired c.asked (held' c.name)).map Prod.fst := h c.asked hasked c.name
  have hset : ∀ ttl ∈ c.request.ttl?, SameHolders readings
      (Function.update (fun name => unexpired c.asked (held name)) c.name
        (some (c.owner, c.stamped + f ttl)))
      (Function.update (fun name => unexpired c.asked (held' name)) c.name
        (some (c.owner, c.stamped + g ttl))) := fun ttl httl =>
          hforce.update c.name fun now hnow => by
    simp only [holder, unexpired_some, hclear ttl httl now hnow]
    split <;> rfl
  obtain ⟨name, owner, request, asked, stamped⟩ := c
  cases hheld : unexpired asked (held name) with
  | none =>
    rw [hheld, Option.map_none, eq_comm, Option.map_eq_none_iff] at hname
    cases request with
    | acquire ttl =>
      simp only [ExpiringLock.step, Call.mapTtl, Request.mapTtl, hheld, hname]
      exact ⟨trivial, hset ttl rfl⟩
    | renew ttl =>
      simp only [ExpiringLock.step, Call.mapTtl, Request.mapTtl, hheld, hname]
      exact ⟨trivial, hforce⟩
    | release =>
      simp only [ExpiringLock.step, Call.mapTtl, Request.mapTtl, hheld, hname]
      exact ⟨trivial, hforce⟩
  | some holding =>
    obtain ⟨other, deadline⟩ := holding
    rw [hheld, Option.map_some, eq_comm, Option.map_eq_some_iff] at hname
    obtain ⟨⟨other', deadline'⟩, hheld', hother⟩ := hname
    obtain rfl : other' = other := hother
    cases request with
    | acquire ttl =>
      simp only [ExpiringLock.step, Call.mapTtl, Request.mapTtl, hheld, hheld']
      exact ⟨trivial, hforce⟩
    | renew ttl =>
      by_cases howner : other' = owner
      · simp only [ExpiringLock.step, Call.mapTtl, Request.mapTtl, hheld, hheld', howner, if_true]
        exact ⟨trivial, hset ttl rfl⟩
      · simp only [ExpiringLock.step, Call.mapTtl, Request.mapTtl, hheld, hheld', howner, if_false]
        exact ⟨trivial, hforce⟩
    | release =>
      by_cases howner : other' = owner
      · simp only [ExpiringLock.step, Call.mapTtl, Request.mapTtl, hheld, hheld', howner, if_true]
        exact ⟨trivial, hforce.update name fun _ _ => rfl⟩
      · simp only [ExpiringLock.step, Call.mapTtl, Request.mapTtl, hheld, hheld', howner, if_false]
        exact ⟨trivial, hforce⟩

/-- **What a call can change**: nothing in force, or the entry of its name, from the caller's own or
none to the caller's own or none. -/
theorem step_changes (held : Holdings N O T) (c : Call N O T) :
    (step held c).2 = (fun name => unexpired c.asked (held name)) ∨
      ∃ entry, (step held c).2 =
          Function.update (fun name => unexpired c.asked (held name)) c.name entry ∧
        (∀ holding ∈ entry, holding.1 = c.owner) ∧
        ∀ holding ∈ unexpired c.asked (held c.name), holding.1 = c.owner := by
  cases hheld : unexpired c.asked (held c.name) with
  | none =>
    cases hrequest : c.request with
    | acquire ttl =>
      exact .inr ⟨some (c.owner, c.stamped + ttl), by simp [step, hrequest, hheld], by simp,
        by simp⟩
    | renew ttl => exact .inl (by simp [step, hrequest, hheld])
    | release => exact .inl (by simp [step, hrequest, hheld])
  | some holding =>
    by_cases howner : holding.1 = c.owner
    · cases hrequest : c.request with
      | acquire ttl => exact .inl (by simp [step, hrequest, hheld])
      | renew ttl =>
        exact .inr ⟨some (c.owner, c.stamped + ttl), by simp [step, hrequest, hheld,
          howner], by simp, by simpa using howner⟩
      | release =>
        exact .inr ⟨none, by simp [step, hrequest, hheld, howner], by simp, by simpa using howner⟩
    · cases hrequest : c.request <;> exact .inl (by simp [step, hrequest, hheld, howner])

/-- **A call leaves every other holding as it is**: under another name, or of another owner. -/
theorem step_frame {held : Holdings N O T} {c : Call N O T} {name : N} {holding : O × T} {now : T}
    (hother : name ≠ c.name ∨ holding.1 ≠ c.owner) (hnow : c.asked ≤ now) :
    unexpired now ((step held c).2 name) = some holding ↔
      unexpired now (held name) = some holding := by
  rcases step_changes held c with hstep | ⟨entry, hstep, hentry, hheld⟩
  · rw [hstep, unexpired_unexpired hnow]
  · rw [hstep, ← unexpired_unexpired hnow (held name)]
    by_cases hname : name = c.name
    · subst hname
      have howner : holding.1 ≠ c.owner := hother.resolve_left (absurd rfl)
      rw [Function.update_self]
      constructor <;> intro h <;> obtain ⟨hstored, -⟩ := unexpired_eq_some.mp h
      · exact absurd (hentry holding hstored) howner
      · exact absurd (hheld holding hstored) howner
    · rw [Function.update_of_ne hname]

end Order

/-! ## Sequences of calls -/

section Sequences

variable {S : Type*}

/-- The answers of a sequence of calls, each on the state the one before it left. -/
def answers (call : S → Call N O T → Option Bool × S) : S → List (Call N O T) → List (Option Bool)
  | _, [] => []
  | s, c :: calls => (call s c).1 :: answers call (call s c).2 calls

/-- The state a sequence of calls leaves. -/
def after (call : S → Call N O T → Option Bool × S) (s : S) (calls : List (Call N O T)) : S :=
  calls.foldl (fun s c => (call s c).2) s

theorem after_concat (call : S → Call N O T → Option Bool × S) (s : S) (c : Call N O T)
    (calls : List (Call N O T)) :
    after call s (calls ++ [c]) = (call (after call s calls) c).2 := by
  simp [after]

theorem answers_concat (call : S → Call N O T → Option Bool × S) (s : S) (c : Call N O T)
    (calls : List (Call N O T)) :
    answers call s (calls ++ [c]) = answers call s calls ++ [(call (after call s calls) c).1] := by
  induction calls generalizing s with
  | nil => rfl
  | cons c' calls ih => exact congrArg _ (ih (call s c').2)

theorem readings_concat (c : Call N O T) (calls : List (Call N O T)) :
    readings (calls ++ [c]) = readings calls ++ [c.asked, c.stamped] := by
  simp [readings]

variable [LinearOrder T] [Add T] [DecidableEq N] [DecidableEq O]

/-- **The simulation rule.**  `table` reads the stored entries off the implementation's state,
`Valid` is what the callers promise of a call, and `spec` is the call of the specification that a
call stands for. -/
theorem simulates_of {call : S → Call N O T → Option Bool × S} {table : S → Holdings N O T}
    (Valid : Call N O T → Prop) (spec : Call N O T → Call N O T)
    (hcall : ∀ (s : S) (held : Holdings N O T) (c : Call N O T), Valid c → c.asked ≤ c.stamped →
      Agree c.asked held (table s) →
      (call s c).1 = (step held (spec c)).1 ∧
        Agree c.stamped (step held (spec c)).2 (table (call s c).2))
    {s : S} {held : Holdings N O T} {calls : List (Call N O T)} (hvalid : ∀ c ∈ calls, Valid c)
    (hclock : (readings calls).Pairwise (· ≤ ·)) (h : ∀ now, Agree now held (table s)) :
    answers call s calls = answers step held (calls.map spec) ∧
      ∀ now, (∀ reading ∈ readings calls, reading ≤ now) →
        Agree now (after step held (calls.map spec)) (table (after call s calls)) := by
  -- induction on the last call: the readings before it are not after its own
  induction calls using List.reverseRecOn with
  | nil => exact ⟨rfl, fun now _ => h now⟩
  | append_singleton calls c ih =>
    rw [readings_concat] at hclock ⊢
    obtain ⟨hbefore, hcalls, hbetween⟩ := List.pairwise_append.mp hclock
    have hasked : c.asked ≤ c.stamped := by simpa using hcalls
    obtain ⟨hanswers, hagree⟩ := ih (fun c' hc' => hvalid c' (List.mem_append_left _ hc')) hbefore
    obtain ⟨hanswer, hafter⟩ := hcall _ _ c (hvalid c (by simp)) hasked
      (hagree c.asked fun reading hreading => hbetween reading hreading c.asked (by simp))
    rw [List.map_append, List.map_singleton]
    refine ⟨?_, fun now hnow => ?_⟩
    · rw [answers_concat, answers_concat, hanswers, hanswer]
    · rw [after_concat, after_concat]
      exact hafter.mono (hnow c.stamped (by simp))

/-- The rule for an implementation that serves every call. -/
theorem simulates {call : S → Call N O T → Option Bool × S} {table : S → Holdings N O T}
    (hcall : ∀ (s : S) (held : Holdings N O T) (c : Call N O T), c.asked ≤ c.stamped →
      Agree c.asked held (table s) →
      (call s c).1 = (step held c).1 ∧ Agree c.stamped (step held c).2 (table (call s c).2))
    {s : S} {held : Holdings N O T} {calls : List (Call N O T)}
    (hclock : (readings calls).Pairwise (· ≤ ·)) (h : ∀ now, Agree now held (table s)) :
    answers call s calls = answers step held calls ∧
      ∀ now, (∀ reading ∈ readings calls, reading ≤ now) →
        Agree now (after step held calls) (table (after call s calls)) := by
  have hsimulates := simulates_of (fun _ => True) id (fun s held c _ => hcall s held c)
    (fun _ _ => trivial) hclock h
  rwa [List.map_id] at hsimulates

/-- **Locks that last longer or shorter are answered alike**, and have the same holders, where no
reading lies between the two deadlines of a call. -/
theorem answers_mapTtl {R : Set T} {f g : T → T} {held held' : Holdings N O T}
    (h : SameHolders R held held') {calls : List (Call N O T)} (hasked : ∀ c ∈ calls, c.asked ∈ R)
    (hclear : ∀ c ∈ calls, ∀ ttl ∈ c.request.ttl?, ∀ now ∈ R,
      (now < c.stamped + f ttl ↔ now < c.stamped + g ttl)) :
    answers step held (calls.map (Call.mapTtl f)) = answers step held' (calls.map (Call.mapTtl g)) ∧
      SameHolders R (after step held (calls.map (Call.mapTtl f)))
        (after step held' (calls.map (Call.mapTtl g))) := by
  induction calls generalizing held held' with
  | nil => exact ⟨rfl, h⟩
  | cons c calls ih =>
    obtain ⟨hc, hcalls⟩ := List.forall_mem_cons.mp hasked
    obtain ⟨hcclear, hcallsclear⟩ := List.forall_mem_cons.mp hclear
    obtain ⟨hanswer, hafter⟩ := h.step hc hcclear
    obtain ⟨hanswers, hrest⟩ := ih hafter hcalls hcallsclear
    refine ⟨?_, hrest⟩
    rw [List.map_cons, List.map_cons, answers, answers, hanswer, hanswers]

end Sequences

end ExpiringLock
