import AgentPlatform.Machinery.JsonDumps

/-!
# Machinery/JsonParse — JSON as a browser reads it

`JSON.parse` reads the grammar that `json.loads` reads, but it has one kind of number: an integer is
the double nearest to it, and the words `NaN` and `Infinity` are refused.

* `Browser.parse_dumps` — a value is parsed as it was dumped, if its floats are finite and its
  integers lie within `2 ^ 53`.
-/

namespace Json

variable {F : Type}

/-- How a browser reads numbers. -/
structure Browser (F : Type) where
  parseFloat : Text → F
  /-- The double nearest to an integer. -/
  double : ℤ → Json F
  double_exact : ∀ i : ℤ, i.natAbs ≤ 2 ^ 53 → double i = .int i

namespace Browser

variable (B : Browser F)

/-- The grammar of `JSON.parse`. -/
def decoder : Decoder F := ⟨B.parseFloat, fun _ => none⟩

mutual

/-- A value with its integers read as doubles. -/
def rounded : Json F → Json F
  | .null => .null
  | .bool b => .bool b
  | .int i => B.double i
  | .float x => .float x
  | .string s => .string s
  | .array items => .array (roundedItems items)
  | .object members => .object (roundedMembers members)

def roundedItems : List (Json F) → List (Json F)
  | [] => []
  | v :: vs => rounded v :: roundedItems vs

def roundedMembers : List (Key × Json F) → List (Key × Json F)
  | [] => []
  | (k, v) :: kvs => (k, rounded v) :: roundedMembers kvs

end

/-- `JSON.parse(text)`; `none` is its `SyntaxError`. -/
def parse (t : Text) : Option (Json F) := (loads B.decoder t).map B.rounded

/-- **A browser reads the value exactly**: it has a text, its floats are read back by the browser,
and its integers are doubles. -/
def Exact (f : F → Text) (v : Json F) : Prop :=
  FaithfulOn (Reads B.decoder f) (fun i => i.natAbs ≤ 2 ^ 53) v

variable {B} {f : F → Text} {v : Json F}

/-- No word for a number is read. -/
theorem not_reads_of_word {x : F}
    (hx : f x ∈ ["NaN".toList, "Infinity".toList, "-Infinity".toList]) :
    ¬ Reads B.decoder f x := by
  intro h
  have hread := h [] stops_nil
  simp only [List.mem_cons, List.not_mem_nil, or_false] at hx
  rcases hx with hx | hx | hx
  · rw [hx] at hread
    cases hread
  · rw [hx] at hread
    cases hread
  · rw [hx] at hread
    cases hread

theorem Exact.rounded_eq (h : B.Exact f v) : B.rounded v = v := by
  induction h with
  | null => rfl
  | bool b => rfl
  | int hi => exact B.double_exact _ hi
  | float hx => rfl
  | string hs => rfl
  | array hitems ih =>
    refine congrArg Json.array ?_
    clear hitems
    rename_i items
    induction items with
    | nil => rfl
    | cons w ws ihs =>
      obtain ⟨hw, hws⟩ := List.forall_mem_cons.mp ih
      rw [roundedItems, hw, ihs hws]
  | object hkeys hnodup hvalues ih =>
    refine congrArg Json.object ?_
    clear hkeys hnodup hvalues
    rename_i members
    induction members with
    | nil => rfl
    | cons p ps ihs =>
      obtain ⟨hp, hps⟩ := List.forall_mem_cons.mp ih
      rw [roundedMembers, hp, ihs hps]

/-- **What was dumped is parsed**, where every number is exact. -/
theorem parse_dumps (h : B.Exact f v) : B.parse (dumps f v) = some v := by
  rw [parse, loads_dumps_of (fun x hx => hx) h, Option.map_some, h.rounded_eq]

end Browser

end Json
