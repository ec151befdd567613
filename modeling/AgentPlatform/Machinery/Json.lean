import AgentPlatform.Machinery.Text

/-!
# Machinery/Json — `json.loads`

The scanner of `json.JSONDecoder` on a text, with its two hooks for numbers that are not integers,
and the grammar it reads: `Value`, `Members` and `Elements` say what stands at the start of a text
and what is left behind it, without the scanner's bound on its depth.

* `loads_iff` — `loads` accepts exactly the texts that are one value between blanks.
* `Value.braced` — an object stands from its `{` to its `}`.
-/

/-- What `json.loads` returns.  A string is its code points; an escape may name half of a surrogate
pair. -/
inductive Json (F : Type) where
  | null
  | bool (b : Bool)
  | int (i : ℤ)
  | float (x : F)
  | string (s : List ℕ)
  | array (items : List (Json F))
  | object (members : List (List ℕ × Json F))

namespace Json

abbrev Key := List ℕ

/-- A dictionary, in the order of insertion. -/
abbrev Dict (F : Type) := List (Key × Json F)

/-- `JSONDecoder(parse_float=..., parse_constant=...)`: what a literal that is no integer is worth,
and what `NaN`, `Infinity` and `-Infinity` are, if they are anything. -/
structure Decoder (F : Type) where
  parseFloat : Text → F
  parseConstant : Text → Option F

variable {F : Type}

/-- `d[k] = v`. -/
def Dict.set (d : Dict F) (k : Key) (v : Json F) : Dict F :=
  if d.any (·.1 = k) then d.map fun p => if p.1 = k then (k, v) else p else d ++ [(k, v)]

/-- `dict(pairs)`. -/
def dict (pairs : List (Key × Json F)) : Dict F := pairs.foldl (fun d p => Dict.set d p.1 p.2) []

/-! ## Tokens -/

/-- `[ \t\n\r]`. -/
def isBlank (c : Char) : Bool := c = ' ' || c = '\t' || c = '\n' || c = '\r'

def skip (s : Text) : Text := s.dropWhile isBlank

def hexDigit? (c : Char) : Option ℕ :=
  if c.isDigit then some (c.toNat - '0'.toNat)
  else if 'a' ≤ c ∧ c ≤ 'f' then some (c.toNat - 'a'.toNat + 10)
  else if 'A' ≤ c ∧ c ≤ 'F' then some (c.toNat - 'A'.toNat + 10)
  else none

/-- `BACKSLASH`. -/
def escape? : Char → Option ℕ
  | '"' => some 0x22
  | '\\' => some 0x5c
  | '/' => some 0x2f
  | 'b' => some 0x08
  | 'f' => some 0x0c
  | 'n' => some 0x0a
  | 'r' => some 0x0d
  | 't' => some 0x09
  | _ => none

/-- The four digits of `\u`. -/
def decodeUnit (a b c d : Char) : Option ℕ := do
  let a ← hexDigit? a
  let b ← hexDigit? b
  let c ← hexDigit? c
  let d ← hexDigit? d
  return ((a * 16 + b) * 16 + c) * 16 + d

/-- The characters of a string behind its opening quote, an escape each of its own, and the text
behind the closing quote.  Control characters have to be escaped. -/
def scanUnits : Text → Option (List ℕ × Text)
  | [] => none
  | '"' :: r => some ([], r)
  | '\\' :: 'u' :: a :: b :: c :: d :: r => do
    let unit ← decodeUnit a b c d
    let (units, r) ← scanUnits r
    return (unit :: units, r)
  | '\\' :: c :: r => do
    let unit ← escape? c
    let (units, r) ← scanUnits r
    return (unit :: units, r)
  | c :: r =>
    if c.toNat < 0x20 ∨ c = '\\' then none
    else do
      let (units, r) ← scanUnits r
      return (c.toNat :: units, r)

/-- A string ends at its first quote. -/
example : scanUnits ['a', '"', 'b'] = some ([97], ['b']) := by simp [scanUnits]

/-- Two escapes that make a pair of surrogates are one character. -/
def joinSurrogates : List ℕ → List ℕ
  | high :: low :: units =>
    if 0xd800 ≤ high ∧ high ≤ 0xdbff ∧ 0xdc00 ≤ low ∧ low ≤ 0xdfff then
      (0x10000 + (high - 0xd800) * 0x400 + (low - 0xdc00)) :: joinSurrogates units
    else high :: joinSurrogates (low :: units)
  | units => units

/-- `scanstring`. -/
def scanString (s : Text) : Option (Key × Text) :=
  (scanUnits s).map fun p => (joinSurrogates p.1, p.2)

/-- `(0|[1-9][0-9]*)`, or nothing. -/
def intPart : Text → Text
  | '0' :: _ => ['0']
  | s => s.takeWhile Char.isDigit

/-- `(\.[0-9]+)?`. -/
def fraction : Text → Text
  | '.' :: s => if s.takeWhile Char.isDigit = [] then [] else '.' :: s.takeWhile Char.isDigit
  | _ => []

/-- `[-+]?`. -/
def signPart : Text → Text
  | '-' :: _ => ['-']
  | '+' :: _ => ['+']
  | _ => []

/-- `([eE][-+]?[0-9]+)?`. -/
def exponent : Text → Text
  | e :: s =>
    let digits := (s.drop (signPart s).length).takeWhile Char.isDigit
    if (e = 'e' ∨ e = 'E') ∧ digits ≠ [] then e :: signPart s ++ digits else []
  | [] => []

/-- `-?`. -/
def minusPart : Text → Text
  | '-' :: _ => ['-']
  | _ => []

/-- `NUMBER_RE`; a number with neither fraction nor exponent is an integer. -/
def number (D : Decoder F) (s : Text) : Option (Json F × Text) :=
  let minus := minusPart s
  let integer := intPart (s.drop minus.length)
  let frac := fraction (s.drop (minus.length + integer.length))
  let exp := exponent (s.drop (minus.length + integer.length + frac.length))
  let n := Nat.ofDigitChars 10 integer 0
  if integer = [] then none
  else some
    (if frac = [] ∧ exp = [] then .int (if minus = [] then n else -n)
      else .float (D.parseFloat (minus ++ integer ++ frac ++ exp)),
    s.drop (minus.length + integer.length + frac.length + exp.length))

/-- The words that are values. -/
def keywords (D : Decoder F) : List (Text × Option (Json F)) :=
  [("null".toList, some .null), ("true".toList, some (.bool true)),
    ("false".toList, some (.bool false)), ("NaN".toList, (D.parseConstant "NaN".toList).map .float),
    ("Infinity".toList, (D.parseConstant "Infinity".toList).map .float),
    ("-Infinity".toList, (D.parseConstant "-Infinity".toList).map .float)]

/-- A word or a number. -/
def literal (D : Decoder F) (s : Text) : Option (Json F × Text) :=
  match (keywords D).find? (·.1.isPrefixOf s) with
  | some (word, value) => value.map (·, s.drop word.length)
  | none => number D s

/-! ## The scanner -/

mutual

/-- `scan_once`, to a depth. -/
def scanOnce (D : Decoder F) : ℕ → Text → Option (Json F × Text)
  | 0, _ => none
  | n + 1, s =>
    match s with
    | '"' :: s => (scanString s).map fun p => (.string p.1, p.2)
    | '{' :: s =>
      match skip s with
      | '}' :: r => some (.object [], r)
      | s => (jsonObject D n s).map fun p => (.object (dict p.1), p.2)
    | '[' :: s =>
      match skip s with
      | ']' :: r => some (.array [], r)
      | s => (jsonArray D n s).map fun p => (.array p.1, p.2)
    | s => literal D s

/-- `JSONObject` from its first key on: the pairs, and the text behind the brace. -/
def jsonObject (D : Decoder F) : ℕ → Text → Option (List (Key × Json F) × Text)
  | 0, _ => none
  | n + 1, s =>
    match s with
    | '"' :: s => do
      let (k, s) ← scanString s
      match skip s with
      | ':' :: s => do
        let (v, s) ← scanOnce D n (skip s)
        match skip s with
        | '}' :: r => some ([(k, v)], r)
        | ',' :: s => (jsonObject D n (skip s)).map fun p => ((k, v) :: p.1, p.2)
        | _ => none
      | _ => none
    | _ => none

/-- `JSONArray` from its first item on. -/
def jsonArray (D : Decoder F) : ℕ → Text → Option (List (Json F) × Text)
  | 0, _ => none
  | n + 1, s => do
    let (v, s) ← scanOnce D n s
    match skip s with
    | ']' :: r => some ([v], r)
    | ',' :: s => (jsonArray D n (skip s)).map fun p => (v :: p.1, p.2)
    | _ => none

end

/-- `json.loads(s)`; `none` is its `JSONDecodeError`.  Left out are the limits of the interpreter,
on the digits of an integer and on the depth of the recursion. -/
def loads (D : Decoder F) (s : Text) : Option (Json F) :=
  match scanOnce D (2 * s.length + 1) (skip s) with
  | some (v, r) => if skip r = [] then some v else none
  | none => none

/-! ## The grammar -/

mutual

/-- A value at the start of a text, and what is left behind it. -/
inductive Value (D : Decoder F) : Text → Json F → Text → Prop
  | string {s r : Text} {k : Key} (hkey : scanString s = some (k, r)) : Value D
    ('"' :: s) (.string k) r
  | emptyObject {s r : Text} (hend : skip s = '}' :: r) : Value D ('{' :: s) (.object []) r
  | object {s r : Text} {kvs : List (Key × Json F)} (hmembers : Members D (skip s) kvs r) :
      Value D ('{' :: s) (.object (dict kvs)) r
  | emptyArray {s r : Text} (hend : skip s = ']' :: r) : Value D ('[' :: s) (.array []) r
  | array {s r : Text} {vs : List (Json F)} (hitems : Elements D (skip s) vs r) :
      Value D ('[' :: s) (.array vs) r
  | literal {s r : Text} {v : Json F} (hliteral : Json.literal D s = some (v, r)) : Value D s v r

/-- The pairs of an object, from the first key to the brace. -/
inductive Members (D : Decoder F) : Text → List (Key × Json F) → Text → Prop
  | last {s t u w r : Text} {k : Key} {v : Json F} (hkey : scanString s = some (k, t))
      (hcolon : skip t = ':' :: u) (hvalue : Value D (skip u) v w) (hend : skip w = '}' :: r) :
      Members D ('"' :: s) [(k, v)] r
  | more {s t u w x r : Text} {k : Key} {v : Json F} {kvs : List (Key × Json F)}
      (hkey : scanString s = some (k, t)) (hcolon : skip t = ':' :: u)
        (hvalue : Value D (skip u) v w)
      (hcomma : skip w = ',' :: x) (hmembers : Members D (skip x) kvs r) :
      Members D ('"' :: s) ((k, v) :: kvs) r

/-- The items of an array, from the first to the bracket. -/
inductive Elements (D : Decoder F) : Text → List (Json F) → Text → Prop
  | last {s w r : Text} {v : Json F} (hvalue : Value D s v w) (hend : skip w = ']' :: r) :
      Elements D s [v] r
  | more {s w x r : Text} {v : Json F} {vs : List (Json F)} (hvalue : Value D s v w)
      (hcomma : skip w = ',' :: x) (hitems : Elements D (skip x) vs r) : Elements D s (v :: vs) r

end

variable {D : Decoder F} {s t r : Text} {v : Json F} {kvs : List (Key × Json F)}
  {vs : List (Json F)}

/-! ## What is read is cut off -/

/-- `r` is left of `s` when at least a character of it was read. -/
def Behind (s r : Text) : Prop := ∃ c t, s = c :: t ∧ r <:+ t

theorem Behind.trans (h : Behind s t) (hr : r <:+ t) : Behind s r := by
  obtain ⟨c, u, rfl, hsuffix⟩ := h
  exact ⟨c, u, rfl, hr.trans hsuffix⟩

theorem Behind.suffix (h : Behind s r) : r <:+ s := by
  obtain ⟨c, t, rfl, hsuffix⟩ := h
  exact hsuffix.trans (List.suffix_cons c t)

theorem Behind.length_lt (h : Behind s r) : r.length < s.length := by
  obtain ⟨c, t, rfl, hsuffix⟩ := h
  exact Nat.lt_succ_of_le hsuffix.length_le

theorem behind_drop {n : ℕ} (hn : 0 < n) (hs : s ≠ []) : Behind s (s.drop n) := by
  obtain ⟨c, t, rfl⟩ := List.exists_cons_of_ne_nil hs
  obtain ⟨m, rfl⟩ := Nat.exists_eq_succ_of_ne_zero hn.ne'
  exact ⟨c, t, rfl, List.drop_suffix m t⟩

theorem skip_suffix (s : Text) : skip s <:+ s := List.dropWhile_suffix isBlank

theorem behind_of_skip {c : Char} (h : skip s = c :: r) : Behind s r := by
  have hsuffix := skip_suffix s
  rw [h] at hsuffix
  obtain ⟨_ | ⟨d, u⟩, rfl⟩ := hsuffix
  · exact ⟨c, r, rfl, List.suffix_rfl⟩
  · exact ⟨d, _, rfl, (List.suffix_cons c r).trans (List.suffix_append u _)⟩

theorem behind_scanUnits {units : List ℕ} (h : scanUnits s = some (units, r)) : Behind s r := by
  fun_induction scanUnits s generalizing units with
  | case1 => cases h
  | case2 t =>
    cases h
    exact ⟨_, _, rfl, List.suffix_rfl⟩
  | case3 a b c d t ih =>
    obtain ⟨_, _, hrest⟩ := Option.bind_eq_some_iff.mp h
    obtain ⟨⟨units, r⟩, hunits, hpair⟩ := Option.bind_eq_some_iff.mp hrest
    cases hpair
    exact ⟨_, _, rfl, (ih hunits).suffix.trans (List.suffix_append ['u', a, b, c, d] t)⟩
  | case4 c t hshort ih =>
    obtain ⟨_, _, hrest⟩ := Option.bind_eq_some_iff.mp h
    obtain ⟨⟨units, r⟩, hunits, hpair⟩ := Option.bind_eq_some_iff.mp hrest
    cases hpair
    exact ⟨_, _, rfl, (ih hunits).suffix.trans (List.suffix_cons c t)⟩
  | case5 => cases h
  | case6 c t hquote hunit hescape hplain ih =>
    obtain ⟨⟨units, r⟩, hunits, hpair⟩ := Option.bind_eq_some_iff.mp h
    cases hpair
    exact ⟨_, _, rfl, (ih hunits).suffix⟩

theorem behind_scanString {k : Key} (h : scanString s = some (k, r)) : Behind s r := by
  obtain ⟨⟨units, r⟩, hunits, hpair⟩ := Option.map_eq_some_iff.mp h
  cases hpair
  exact behind_scanUnits hunits

theorem behind_number (h : number D s = some (v, r)) : Behind s r := by
  rw [number] at h
  obtain ⟨hinteger, hread⟩ := Option.ite_none_left_eq_some.mp h
  cases hread
  have hpos := List.length_pos_iff.mpr hinteger
  refine behind_drop (by omega) ?_
  rintro rfl
  exact hinteger rfl

theorem ne_nil_of_mem_keywords {p : Text × Option (Json F)} (h : p ∈ keywords D) : p.1 ≠ [] := by
  simp only [keywords, List.mem_cons, List.not_mem_nil, or_false] at h
  rcases h with rfl | rfl | rfl | rfl | rfl | rfl <;> exact List.cons_ne_nil _ _

theorem behind_literal (h : literal D s = some (v, r)) : Behind s r := by
  rw [literal] at h
  split at h
  · next word value hfound =>
    obtain ⟨_, _, hpair⟩ := Option.map_eq_some_iff.mp h
    cases hpair
    have hword : word ≠ [] := ne_nil_of_mem_keywords (List.mem_of_find?_eq_some hfound)
    refine behind_drop (List.length_pos_iff.mpr hword) ?_
    rintro rfl
    have hprefix : word.isPrefixOf [] = true := by simpa using List.find?_some hfound
    exact hword (List.prefix_nil.mp (List.isPrefixOf_iff_prefix.mp hprefix))
  · exact behind_number h

/-- A pair of an object is read from its key on. -/
theorem suffix_of_member {u w : Text} {k : Key} (hkey : scanString s = some (k, t))
    (hcolon : skip t = ':' :: u) (hvalue : Behind (skip u) w) : w <:+ '"' :: s :=
  (hvalue.suffix.trans (skip_suffix u)).trans ((behind_of_skip hcolon).suffix.trans
    ((behind_scanString hkey).suffix.trans (List.suffix_cons _ _)))

theorem suffix_of_skip {c : Char} (h : skip s = c :: r) : c :: r <:+ s := h ▸ skip_suffix s

mutual

theorem Value.behind {s r : Text} {v : Json F} : Value D s v r → Behind s r
  | .string hkey => ⟨_, _, rfl, (behind_scanString hkey).suffix⟩
  | .emptyObject hend => ⟨_, _, rfl, (behind_of_skip hend).suffix⟩
  | .object hmembers =>
    ⟨_, _, rfl, (List.suffix_cons _ _).trans (hmembers.ends.trans (skip_suffix _))⟩
  | .emptyArray hend => ⟨_, _, rfl, (behind_of_skip hend).suffix⟩
  | .array hitems => ⟨_, _, rfl, (List.suffix_cons _ _).trans (hitems.ends.trans (skip_suffix _))⟩
  | .literal hliteral => behind_literal hliteral

/-- The pairs of an object stand before its brace. -/
theorem Members.ends {s r : Text} {kvs : List (Key × Json F)} : Members D s kvs r → '}' :: r <:+ s
  | .last hkey hcolon hvalue hend =>
    (suffix_of_skip hend).trans (suffix_of_member hkey hcolon hvalue.behind)
  | .more hkey hcolon hvalue hcomma hmembers => by
    have hnext := hmembers.ends.trans (skip_suffix _)
    exact hnext.trans ((behind_of_skip hcomma).suffix.trans
      (suffix_of_member hkey hcolon hvalue.behind))

/-- …and the items of an array before its bracket. -/
theorem Elements.ends {s r : Text} {vs : List (Json F)} : Elements D s vs r → ']' :: r <:+ s
  | .last hvalue hend => (suffix_of_skip hend).trans hvalue.behind.suffix
  | .more hvalue hcomma hitems => by
    have hnext := hitems.ends.trans (skip_suffix _)
    exact hnext.trans ((behind_of_skip hcomma).suffix.trans hvalue.behind.suffix)

end

/-- No literal is an object. -/
theorem literal_ne_object (h : literal D s = some (v, r)) : v ≠ .object kvs := by
  rintro rfl
  rw [literal] at h
  split at h
  · next word value hfound =>
    obtain ⟨_, rfl, hpair⟩ := Option.map_eq_some_iff.mp h
    cases hpair
    have hmem := List.mem_of_find?_eq_some hfound
    have hkeyword : ∀ p ∈ keywords D, p.2 ≠ some (.object kvs) := by simp [keywords]
    exact hkeyword _ hmem rfl
  · rw [number] at h
    obtain ⟨-, hread⟩ := Option.ite_none_left_eq_some.mp h
    have hvalue := congrArg Prod.fst (Option.some.inj hread)
    dsimp only at hvalue
    split at hvalue <;> cases hvalue

/-- **An object stands from its `{` to its `}`.** -/
theorem Value.braced (h : Value D s (.object kvs) r) : ∃ t, s = '{' :: t ∧ '}' :: r <:+ t := by
  cases h with
  | emptyObject hend => exact ⟨_, rfl, suffix_of_skip hend⟩
  | object hmembers => exact ⟨_, rfl, hmembers.ends.trans (skip_suffix _)⟩
  | literal hliteral => exact absurd rfl (literal_ne_object hliteral)

/-! ## The scanner reads the grammar

A call reads a character less than its caller, but for the first item of an array: twice the length
of the text is depth enough. -/

/-- What a literal does not begin with. -/
theorem literal_eq_none {c : Char} (h : c ∈ ['"', '{', '[', ']']) : literal D (c :: s) = none := by
  simp only [List.mem_cons, List.not_mem_nil, or_false] at h
  rcases h with rfl | rfl | rfl | rfl <;> rfl

theorem scanOnce_literal {n : ℕ}
    (h : literal D s = some (v, r)) : scanOnce D (n + 1) s = some (v, r) := by
  rw [scanOnce, h]
  all_goals
    rintro t rfl
    rw [literal_eq_none (by decide)] at h
    cases h

theorem Value.ne_bracket (h : Value D s v r) : s ≠ ']' :: t := by
  rintro rfl
  cases h with
  | literal hliteral =>
    rw [literal_eq_none (by decide)] at hliteral
    cases hliteral

theorem Members.head (h : Members D s kvs r) : ∃ t, s = '"' :: t := by
  cases h <;> exact ⟨_, rfl⟩

theorem Elements.ne_bracket (h : Elements D s vs r) : s ≠ ']' :: t := by
  cases h with
  | last hvalue => exact hvalue.ne_bracket
  | more hvalue => exact hvalue.ne_bracket

theorem scanOnce_object {n : ℕ} (hs : ∀ r, skip s ≠ '}' :: r)
    (h : jsonObject D n (skip s) = some (kvs, r)) :
    scanOnce D (n + 1) ('{' :: s) = some (.object (dict kvs), r) := by
  rw [scanOnce]
  split
  · exact absurd ‹_› (hs _)
  · rw [h]
    rfl

theorem scanOnce_array {n : ℕ} (hs : ∀ r, skip s ≠ ']' :: r)
    (h : jsonArray D n (skip s) = some (vs, r)) :
    scanOnce D (n + 1) ('[' :: s) = some (.array vs, r) := by
  rw [scanOnce]
  split
  · exact absurd ‹_› (hs _)
  · rw [h]
    rfl

/-- What is left behind blanks is no longer. -/
theorem length_skip_le (s : Text) : (skip s).length ≤ s.length := (skip_suffix s).length_le

/-- A pair's value stands behind its key. -/
theorem length_member {k : Key} {u : Text} (hkey : scanString s = some (k, t))
    (hcolon : skip t = ':' :: u) : (skip u).length < s.length := by
  have hs := (behind_scanString hkey).length_lt
  have ht := (behind_of_skip hcolon).length_lt
  have hu := length_skip_le u
  omega

mutual

theorem Value.scanOnce {s r : Text} {v : Json F} : Value D s v r →
    ∀ n, 2 * s.length < n → scanOnce D n s = some (v, r)
  | .string hkey, n + 1, _ => by simp [Json.scanOnce, hkey]
  | .emptyObject hend, n + 1, _ => by simp [Json.scanOnce, hend]
  | .object (s := t) hmembers, n + 1, hn => by
    obtain ⟨u, hu⟩ := hmembers.head
    have hlen := length_skip_le t
    rw [List.length_cons] at hn
    exact scanOnce_object (by simp [hu]) (hmembers.jsonObject n (by omega))
  | .emptyArray hend, n + 1, _ => by simp [Json.scanOnce, hend]
  | .array (s := t) hitems, n + 1, hn => by
    have hlen := length_skip_le t
    rw [List.length_cons] at hn
    exact scanOnce_array (fun _ => hitems.ne_bracket) (hitems.jsonArray n (by omega))
  | .literal hliteral, n + 1, _ => scanOnce_literal hliteral

theorem Members.jsonObject {s r : Text} {kvs : List (Key × Json F)} : Members D s kvs r →
    ∀ n, 2 * s.length < n → jsonObject D n s = some (kvs, r)
  | .last hkey hcolon hvalue hend, n + 1, hn => by
    have hlen := length_member hkey hcolon
    rw [List.length_cons] at hn
    have hv := hvalue.scanOnce n (by omega)
    simp [Json.jsonObject, hkey, hcolon, hv, hend]
  | .more (x := x) hkey hcolon hvalue hcomma hmembers, n + 1, hn => by
    have hlen := length_member hkey hcolon
    rw [List.length_cons] at hn
    have hv := hvalue.scanOnce n (by omega)
    have hw := hvalue.behind.length_lt
    have hx := (behind_of_skip hcomma).length_lt
    have hnext := length_skip_le x
    have hm := hmembers.jsonObject n (by omega)
    simp [Json.jsonObject, hkey, hcolon, hv, hcomma, hm]

theorem Elements.jsonArray {s r : Text} {vs : List (Json F)} : Elements D s vs r →
    ∀ n, 2 * s.length + 1 < n → jsonArray D n s = some (vs, r)
  | .last hvalue hend, n + 1, hn => by
    have hv := hvalue.scanOnce n (by omega)
    simp [Json.jsonArray, hv, hend]
  | .more (x := x) hvalue hcomma hitems, n + 1, hn => by
    have hv := hvalue.scanOnce n (by omega)
    have hx := (behind_of_skip hcomma).length_lt
    have hrest := hvalue.behind.length_lt
    have hlen := length_skip_le x
    have hi := hitems.jsonArray n (by omega)
    simp [Json.jsonArray, hv, hcomma, hi]

end

section Soundness

variable {n : ℕ} (hvalues : ∀ {s v r}, scanOnce D n s = some (v, r) → Value D s v r)
  (hmembers : ∀ {s kvs r}, jsonObject D n s = some (kvs, r) → Members D s kvs r)
  (hitems : ∀ {s vs r}, jsonArray D n s = some (vs, r) → Elements D s vs r)

include hmembers hitems in
theorem scanOnce_step (h : scanOnce D (n + 1) s = some (v, r)) : Value D s v r := by
  unfold scanOnce at h
  split at h
  · obtain ⟨⟨k, t⟩, hkey, hpair⟩ := Option.map_eq_some_iff.mp h
    cases hpair
    exact .string hkey
  · split at h
    · cases h
      exact .emptyObject ‹_›
    · obtain ⟨⟨kvs, t⟩, hread, hpair⟩ := Option.map_eq_some_iff.mp h
      cases hpair
      exact .object (hmembers hread)
  · split at h
    · cases h
      exact .emptyArray ‹_›
    · obtain ⟨⟨vs, t⟩, hread, hpair⟩ := Option.map_eq_some_iff.mp h
      cases hpair
      exact .array (hitems hread)
  · exact .literal h

include hvalues hmembers in
theorem jsonObject_step (h : jsonObject D (n + 1) s = some (kvs, r)) : Members D s kvs r := by
  unfold jsonObject at h
  split at h
  · obtain ⟨⟨k, t⟩, hkey, hcolon⟩ := Option.bind_eq_some_iff.mp h
    dsimp only at hcolon
    split at hcolon
    · obtain ⟨⟨v, w⟩, hvalue, hrest⟩ := Option.bind_eq_some_iff.mp hcolon
      dsimp only at hrest
      split at hrest
      · cases hrest
        exact .last hkey ‹_› (hvalues hvalue) ‹_›
      · obtain ⟨⟨kvs, t⟩, hread, hpair⟩ := Option.map_eq_some_iff.mp hrest
        cases hpair
        exact .more hkey ‹_› (hvalues hvalue) ‹_› (hmembers hread)
      · cases hrest
    · cases hcolon
  · cases h

include hvalues hitems in
theorem jsonArray_step (h : jsonArray D (n + 1) s = some (vs, r)) : Elements D s vs r := by
  unfold jsonArray at h
  obtain ⟨⟨v, w⟩, hvalue, hrest⟩ := Option.bind_eq_some_iff.mp h
  dsimp only at hrest
  split at hrest
  · cases hrest
    exact .last (hvalues hvalue) ‹_›
  · obtain ⟨⟨vs, t⟩, hread, hpair⟩ := Option.map_eq_some_iff.mp hrest
    cases hpair
    exact .more (hvalues hvalue) ‹_› (hitems hread)
  · cases hrest

end Soundness

/-- Whatever the depth, what is scanned is read by the grammar. -/
theorem scans_sound (n : ℕ) :
    (∀ {s v r}, scanOnce D n s = some (v, r) → Value D s v r) ∧
    (∀ {s kvs r}, jsonObject D n s = some (kvs, r) → Members D s kvs r) ∧
      ∀ {s vs r}, jsonArray D n s = some (vs, r) → Elements D s vs r := by
  induction n with
  | zero => simp [scanOnce, jsonObject, jsonArray]
  | succ n ih =>
    obtain ⟨hvalues, hmembers, hitems⟩ := ih
    exact ⟨scanOnce_step hmembers hitems, jsonObject_step hvalues hmembers,
      jsonArray_step hvalues hitems⟩

/-- **`loads` accepts exactly the texts that are one value between blanks.** -/
theorem loads_iff : loads D s = some v ↔ ∃ r, Value D (skip s) v r ∧ skip r = [] := by
  constructor
  · intro h
    rw [loads] at h
    split at h
    · next v' r hscan =>
      obtain ⟨hend, hv⟩ := Option.ite_none_right_eq_some.mp h
      cases hv
      exact ⟨r, (scans_sound _).1 hscan, hend⟩
    · cases h
  · rintro ⟨r, hvalue, hend⟩
    have hlen := length_skip_le s
    rw [loads, hvalue.scanOnce _ (by omega)]
    exact if_pos hend

end Json
