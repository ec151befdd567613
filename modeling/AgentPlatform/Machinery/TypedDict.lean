import Mathlib.Logic.Basic
import Mathlib.Tactic.Common

/-!
# Machinery/TypedDict — dictionaries whose keys declare the type of their value

A `TypedDict Ty` holds, at each key `k`, either nothing or a value of type `Ty k` — a record none of
whose fields is required.  An update is a dictionary of the same kind, and `merge` overwrites key by
key: a key the update leaves out keeps the value it had.
-/

/-- A dictionary whose key `k`, when present, holds a `Ty k`. -/
def TypedDict {K : Type*} (Ty : K → Type) := (k : K) → Option (Ty k)

namespace TypedDict

variable {K : Type*} {Ty : K → Type}

/-- The dictionary with no key. -/
def empty : TypedDict Ty := fun _ => none

/-- The value at a key, if the key is present. -/
def get? (d : TypedDict Ty) (k : K) : Option (Ty k) := d k

/-- The value at a key, or a default. -/
def get (d : TypedDict Ty) (k : K) (v : Ty k) : Ty k := (d.get? k).getD v

/-- Overwrite `d` with the keys `u` holds. -/
def merge (d u : TypedDict Ty) : TypedDict Ty := fun k => (u k).or (d k)

@[simp] theorem get?_empty (k : K) : (empty : TypedDict Ty).get? k = none := rfl

@[simp] theorem get?_merge (d u : TypedDict Ty) (k : K) :
    (d.merge u).get? k = (u.get? k).or (d.get? k) := rfl

/-- An update made twice is made once. -/
theorem merge_merge_self (d u : TypedDict Ty) : (d.merge u).merge u = d.merge u := by
  funext k
  rcases hu : u k with _ | v <;> simp [merge, hu]

/-- **A key the update leaves out keeps its value.** -/
theorem get_merge_of_none {d u : TypedDict Ty} {k : K} (h : u.get? k = none) (v : Ty k) :
    (d.merge u).get k v = d.get k v := by simp [get, h]

/-- **A key the update holds takes its value.** -/
theorem get_merge_of_some {d u : TypedDict Ty} {k : K} {x : Ty k} (h : u.get? k = some x)
    (v : Ty k) : (d.merge u).get k v = x := by simp [get, h]

/-- The dictionary holds no key outside `ks`. -/
def Within (ks : List K) (d : TypedDict Ty) : Prop := ∀ k, k ∉ ks → d.get? k = none

theorem within_empty (ks : List K) : Within ks (empty : TypedDict Ty) := fun _ _ => rfl

theorem Within.mono {ks ks' : List K} {d : TypedDict Ty} (h : Within ks d) (hk : ks ⊆ ks') :
    Within ks' d := fun k hn => h k fun hm => hn (hk hm)

theorem Within.merge {ks : List K} {d u : TypedDict Ty} (hd : Within ks d) (hu : Within ks u) :
    Within ks (d.merge u) := by
  intro k hk
  rw [get?_merge, hu k hk, hd k hk]
  rfl

variable [DecidableEq K]

/-- Write one key. -/
def set (d : TypedDict Ty) (k : K) (v : Ty k) : TypedDict Ty :=
  fun j => if h : j = k then some (h ▸ v) else d j

@[simp] theorem get?_set_self (d : TypedDict Ty) (k : K) (v : Ty k) :
    (d.set k v).get? k = some v := by simp [set, get?]

@[simp] theorem get?_set_of_ne (d : TypedDict Ty) {k j : K} (v : Ty k) (h : j ≠ k) :
    (d.set k v).get? j = d.get? j := by simp [set, get?, h]

/-- The dictionary that lists its entries. -/
def of : List (Sigma Ty) → TypedDict Ty
  | [] => empty
  | ⟨k, v⟩ :: l => (of l).set k v

@[simp] theorem of_nil : of ([] : List (Sigma Ty)) = empty := rfl

@[simp] theorem of_cons (k : K) (v : Ty k) (l : List (Sigma Ty)) :
    of (⟨k, v⟩ :: l) = (of l).set k v := rfl

/-- A dictionary holds the keys it lists. -/
theorem within_of (l : List (Sigma Ty)) : Within (l.map Sigma.fst) (of l) := by
  induction l with
  | nil => exact within_empty _
  | cons entry l ih =>
    intro k hk
    rw [List.map_cons, List.mem_cons, not_or] at hk
    rw [of_cons, get?_set_of_ne _ _ hk.1, ih k hk.2]

end TypedDict
