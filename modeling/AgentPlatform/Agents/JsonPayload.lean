import AgentPlatform.Machinery.Json
import AgentPlatform.Machinery.Splitting

/-!
# Agents/JsonPayload — the object an agent reads out of a model's text

`parse_json_payload`: "structured output first; fall back to the largest JSON object in the text".
The fallback tries the text and the pieces between its code fences, each from its first `{` to its
last `}`, and takes the first that loads as a dictionary.

* `findsLargest_iff` — it is the largest object of the text exactly if the braces of the text
  enclose one object, or no object is in the text, or the first piece whose braces enclose one reads
  as a largest object does.
-/

namespace AgentPlatform

open Text Json

variable {F : Type} {D : Decoder F} {t u s w c : Text} {v : Dict F}

/-! ## The code -/

/-- `cleaned[start : end + 1]`, from the first `{` to the last `}`. -/
def braceSlice (cleaned : Text) : Option Text :=
  match find '{' cleaned, rfind '}' cleaned with
  | some start, some stop => if stop ≤ start then none
    else some ((cleaned.take (stop + 1)).drop start)
  | _, _ => none

/-- One turn of the loop of `parse_json_payload`. -/
def candidatePayload (D : Decoder F) (candidate : Text) : Option (Dict F) :=
  let cleaned := strip (strip candidate |> removeprefix "json".toList)
  (braceSlice cleaned).bind fun slice =>
    match loads D slice with
    | some (.object payload) => some payload
    | _ => none

/-- `parse_json_payload`, on the two fields of the outcome it reads. -/
def parseJsonPayload (D : Decoder F) (parsed : Option (Dict F)) (text : Text) : Dict F :=
  match parsed with
  | some payload => payload
  | none =>
    let text := strip text
    if text = [] then []
    else ((text :: split "```".toList text).findSome? (candidatePayload D)).getD []

/-! ## Objects in a text -/

/-- From a `{` to a `}`. -/
def IsBraced (s : Text) : Prop := s.head? = some '{' ∧ s.getLast? = some '}'

/-- A JSON object, and the dictionary it loads as. -/
def IsObject (D : Decoder F) (s : Text) (v : Dict F) : Prop :=
  IsBraced s ∧ loads D s = some (.object v)

/-- A longest object among the substrings of a text. -/
def Largest (D : Decoder F) (text s : Text) (v : Dict F) : Prop :=
  (s <:+: text ∧ IsObject D s v) ∧ ∀ s' v', s' <:+: text → IsObject D s' v' → s'.length ≤ s.length

/-- **The fallback finds the largest object**: it returns what a longest object loads as, and if
there is none the empty dictionary. -/
def FindsLargest (D : Decoder F) (text : Text) : Prop :=
  (∃ s, Largest D text s (parseJsonPayload D none text)) ∨
    (∀ s v, s <:+: text → ¬ IsObject D s v) ∧ parseJsonPayload D none text = []

/-- `w` is what the outermost braces of a text enclose, braces included. -/
def Encloses (c w : Text) : Prop := IsBraced w ∧ ∃ x y, c = x ++ w ++ y ∧ '{' ∉ x ∧ '}' ∉ y

/-- What the outermost braces of a text enclose is one object. -/
def IsWhole (D : Decoder F) (c : Text) (v : Dict F) : Prop :=
  ∃ w, Encloses c w ∧ loads D w = some (.object v)

/-- `v` is the first whole object among the pieces, the empty dictionary if there is none. -/
def FirstWhole (D : Decoder F) (pieces : List Text) (v : Dict F) : Prop :=
  (∃ front p back, pieces = front ++ p :: back ∧ (∀ q ∈ front, ∀ v', ¬ IsWhole D q v') ∧
    IsWhole D p v) ∨ (∀ p ∈ pieces, ∀ v', ¬ IsWhole D p v') ∧ v = []

/-! ## Braces -/

theorem IsBraced.cons (h : IsBraced s) : ∃ m, s = '{' :: (m ++ ['}']) := by
  obtain ⟨hhead, hlast⟩ := h
  obtain ⟨x, rfl⟩ := List.getLast?_eq_some_iff.mp hlast
  cases x with
  | nil => cases hhead
  | cons d m =>
    obtain rfl := Option.some.inj hhead
    exact ⟨m, rfl⟩

theorem isBraced_cons (m : Text) : IsBraced ('{' :: (m ++ ['}'])) :=
  ⟨rfl, by rw [← List.cons_append, List.getLast?_concat]⟩

theorem slice_append (x m y : Text) :
    ((x ++ '{' :: (m ++ ['}']) ++ y).take ((x ++ '{' :: m).length + 1)).drop x.length
      = '{' :: (m ++ ['}']) := by
  have hlength : (x ++ '{' :: m).length + 1 = (x ++ '{' :: (m ++ ['}'])).length := by
    simp only [List.length_append, List.length_cons, List.length_nil]
    omega
  rw [hlength, List.take_left, List.drop_left]

theorem encloses_of_braceSlice (h : braceSlice c = some w) : Encloses c w := by
  rw [braceSlice] at h
  split at h
  · next start stop hfind hrfind =>
    obtain ⟨x, r, rfl, hx, rfl⟩ := find_eq_some_iff.mp hfind
    obtain ⟨l, y, hc, hy, rfl⟩ := rfind_eq_some_iff.mp hrfind
    obtain ⟨hlt, hslice⟩ := Option.ite_none_left_eq_some.mp h
    obtain ⟨_ | ⟨d, m⟩, hl, hr⟩ | ⟨z, rfl, -⟩ := List.append_eq_append_iff.mp hc
    · exact absurd (by rw [hl, List.append_nil]) hlt
    · rw [List.cons_append] at hr
      obtain ⟨rfl, rfl⟩ := List.cons.inj hr
      rw [hl, show x ++ '{' :: (m ++ '}' :: y) = x ++ '{' :: (m ++ ['}'])
        ++ y by simp, slice_append] at hslice
      cases hslice
      exact ⟨isBraced_cons m, x, y, by simp, hx, hy⟩
    · exact absurd (by rw [List.length_append]; omega) hlt
  · cases h

/-- **The slice of the code is what the outermost braces enclose.** -/
theorem braceSlice_eq_some_iff : braceSlice c = some w ↔ Encloses c w := by
  refine ⟨encloses_of_braceSlice, ?_⟩
  rintro ⟨hbraced, x, y, rfl, hx, hy⟩
  obtain ⟨m, rfl⟩ := hbraced.cons
  have hfind : find '{' (x ++ '{' :: (m ++ ['}']) ++ y) = some x.length :=
    find_eq_some_iff.mpr ⟨x, m ++ ['}'] ++ y, by simp, hx, rfl⟩
  have hrfind : rfind '}' (x ++ '{' :: (m ++ ['}']) ++ y) = some (x ++ '{' :: m).length :=
    rfind_eq_some_iff.mpr ⟨x ++ '{' :: m, y, by simp, hy, rfl⟩
  have hlt : ¬ (x ++ '{' :: m).length ≤ x.length := by
    rw [List.length_append, List.length_cons]
    omega
  rw [braceSlice, hfind, hrfind]
  dsimp only
  rw [if_neg hlt, slice_append]

theorem Encloses.unique (h : Encloses c w) (h' : Encloses c s) : w = s :=
  Option.some.inj ((braceSlice_eq_some_iff.mpr h).symm.trans (braceSlice_eq_some_iff.mpr h'))

theorem Encloses.within (h : Encloses c w) : w <:+: c := by
  obtain ⟨-, x, y, rfl, -⟩ := h
  exact ⟨x, y, rfl⟩

/-- **Every substring from a `{` to a `}` is enclosed.** -/
theorem exists_encloses (hs : IsBraced s) (h : s <:+: c) : ∃ w, Encloses c w ∧ s <:+: w := by
  obtain ⟨m, rfl⟩ := hs.cons
  obtain ⟨l, r, rfl⟩ := h
  obtain ⟨x, y, hfirst, hx⟩ := List.eq_append_cons_of_mem
    (show '{' ∈ l ++ '{' :: (m ++ ['}']) ++ r by simp)
  obtain ⟨z, b, hlast, hb⟩ := exists_last (show '}' ∈ l ++ '{' :: (m ++ ['}']) ++ r by simp)
  obtain ⟨l', rfl⟩ := prefix_of_not_mem (t := m ++ ['}'] ++ r) (by simpa using hfirst) hx
  obtain ⟨r', rfl⟩ := suffix_of_not_mem (t := x ++ l' ++ '{' :: m) (y := z ++ ['}'])
    (by simpa using hlast) hb
  refine ⟨l' ++ '{' :: (m ++ ['}']) ++ r', ⟨⟨?_, ?_⟩, x, b, by simp, hx, hb⟩, ⟨l', r', rfl⟩⟩
  · have hstart : x ++ (l' ++ '{' :: (m ++ ['}']) ++ r' ++ b) = x ++ '{'
      :: y := by simpa using hfirst
    have hhead := congrArg List.head? (List.append_cancel_left hstart)
    rwa [List.head?_append_of_ne_nil _ (by simp)] at hhead
  · have hend : x ++ (l' ++ '{' :: (m ++ ['}']) ++ r') ++ b = z ++ ['}']
      ++ b := by simpa using hlast
    have hlast := congrArg List.getLast? (List.append_cancel_right hend)
    rwa [List.getLast?_append_of_ne_nil _ (by simp), List.getLast?_concat] at hlast

/-- A frame without braces of its own changes nothing. -/
theorem encloses_append_iff {x y : Text} (hx : '{' ∉ x) (hy : '}' ∉ y) :
    Encloses (x ++ c ++ y) w ↔ Encloses c w := by
  constructor
  · rintro ⟨hbraced, a, b, hc, ha, hb⟩
    obtain ⟨m, rfl⟩ := hbraced.cons
    obtain ⟨a', rfl⟩ := prefix_of_not_mem (u := a) (t := m ++ ['}'] ++ b) (y := c ++ y)
      (by simpa using hc.symm) hx
    obtain ⟨b', rfl⟩ := suffix_of_not_mem (t := x ++ a' ++ '{' :: m) (y := x ++ c)
      (by simpa using hc.symm) hy
    refine ⟨hbraced, a', b', ?_, fun h => ha (List.mem_append_right x h), fun h =>
      hb (List.mem_append_left y h)⟩
    have hinner : x ++ (c ++ y) = x ++ (a' ++ '{' :: (m ++ ['}']) ++ b' ++ y) := by simpa using hc
    exact List.append_cancel_right (List.append_cancel_left hinner)
  · rintro ⟨hbraced, a, b, rfl, ha, hb⟩
    exact ⟨hbraced, x ++ a, b ++ y, by simp, by simp [hx, ha], by simp [hy, hb]⟩

/-! ## The candidates -/

theorem not_brace_of_isSpace {d : Char} (h : isSpace d = true) : d ≠ '{' ∧ d ≠ '}' := by
  constructor
  all_goals
    rintro rfl
    exact absurd h (by decide)

theorem encloses_strip_iff : Encloses (strip c) w ↔ Encloses c w := by
  obtain ⟨x, y, hc, hx, hy⟩ := exists_strip c
  have hframe := encloses_append_iff (c := strip c) (w := w) (fun h =>
    (not_brace_of_isSpace (hx _ h)).1 rfl)
    (fun h => (not_brace_of_isSpace (hy _ h)).2 rfl)
  rw [← hframe, ← hc]

theorem encloses_removeprefix_iff : Encloses (c |> removeprefix "json".toList) w ↔
    Encloses c w := by
  obtain ⟨x, hx, hc⟩ := exists_removeprefix "json".toList c
  have hnot : '{' ∉ x := by
    rcases hx with rfl | rfl <;> decide
  have hframe := encloses_append_iff (c := removeprefix "json".toList c) (w := w) (y := []) hnot
    (List.not_mem_nil)
  rw [← hframe, List.append_nil, ← hc]

/-- **A turn of the loop succeeds on the whole objects.** -/
theorem candidatePayload_eq_some_iff : candidatePayload D c = some v ↔ IsWhole D c v := by
  rw [candidatePayload, Option.bind_eq_some_iff, IsWhole]
  refine exists_congr fun w => ?_
  rw [braceSlice_eq_some_iff, encloses_strip_iff, encloses_removeprefix_iff, encloses_strip_iff]
  refine and_congr_right fun _ => ?_
  split
  · next payload hloads => simp [hloads]
  · next hnot =>
    exact ⟨fun h => (Option.some_ne_none _ h.symm).elim, fun h => absurd h (hnot v)⟩

theorem candidatePayload_eq_none_iff : candidatePayload D c = none ↔ ∀ v, ¬ IsWhole D c v := by
  rw [Option.eq_none_iff_forall_ne_some]
  exact forall_congr' fun v => not_congr candidatePayload_eq_some_iff

/-- The loop over the pieces returns the first whole object. -/
theorem findSome_iff (pieces : List Text) :
    (pieces.findSome? (candidatePayload D)).getD [] = v ↔ FirstWhole D pieces v := by
  cases hfound : pieces.findSome? (candidatePayload D) with
  | none =>
    have hnone : ∀ p ∈ pieces, ∀ v', ¬ IsWhole D p v' := fun p hp =>
      candidatePayload_eq_none_iff.mp (List.findSome?_eq_none_iff.mp hfound p hp)
    constructor
    · rintro rfl
      exact .inr ⟨hnone, rfl⟩
    · rintro (⟨front, p, back, rfl, -, hp⟩ | ⟨-, rfl⟩)
      · exact absurd hp (hnone p (by simp) v)
      · rfl
  | some payload =>
    obtain ⟨front, p, back, hpieces, hp, hfront⟩ := List.findSome?_eq_some_iff.mp hfound
    constructor
    · rintro rfl
      exact .inl ⟨front, p, back, hpieces, fun q hq =>
        candidatePayload_eq_none_iff.mp (hfront q hq), candidatePayload_eq_some_iff.mp hp⟩
    · rintro (⟨front', p', back', rfl, hfront', hp'⟩ | ⟨hnone, -⟩)
      · have hagain := List.findSome?_eq_some_iff.mpr ⟨front', p', back', rfl,
          candidatePayload_eq_some_iff.mpr hp', fun q hq =>
          candidatePayload_eq_none_iff.mpr (hfront' q hq)⟩
        exact Option.some.inj (hfound.symm.trans hagain)
      · exact absurd (candidatePayload_eq_some_iff.mp hp) (hnone p (by simp [hpieces]) payload)

theorem parseJsonPayload_none (D : Decoder F) (text : Text) : parseJsonPayload D none text
    = ((strip text :: split "```".toList (strip text)).findSome? (candidatePayload D)).getD [] := by
  rw [parseJsonPayload]
  split
  · next h =>
    rw [h]
    rfl
  · rfl

theorem isWhole_strip_iff : IsWhole D (strip c) v ↔ IsWhole D c v :=
  exists_congr fun _ => and_congr_left fun _ => encloses_strip_iff

theorem parse_of_whole (h : IsWhole D t v) : parseJsonPayload D none t = v := by
  rw [parseJsonPayload_none, List.findSome?_cons,
    candidatePayload_eq_some_iff.mpr (isWhole_strip_iff.mpr h)]
  rfl

theorem parse_of_not_whole (h : ∀ v, ¬ IsWhole D t v) :
    parseJsonPayload D none t = v ↔ FirstWhole D (split "```".toList (strip t)) v := by
  rw [parseJsonPayload_none, List.findSome?_cons,
    candidatePayload_eq_none_iff.mpr fun v hv => h v (isWhole_strip_iff.mp hv)]
  exact findSome_iff _

/-! ## The largest object -/

theorem IsWhole.isObject (h : IsWhole D c v) : ∃ w, w <:+: c ∧ IsObject D w v := by
  obtain ⟨w, henc, hloads⟩ := h
  exact ⟨w, henc.within, henc.1, hloads⟩

/-- **What the braces of the whole text enclose is its largest object**, if it is one. -/
theorem IsWhole.largest (h : IsWhole D c v) : ∃ w, Largest D c w v := by
  obtain ⟨w, henc, hloads⟩ := h
  refine ⟨w, ⟨henc.within, henc.1, hloads⟩, fun s' v' hs' hobject => ?_⟩
  obtain ⟨w', henc', hsub⟩ := exists_encloses hobject.1 hs'
  rw [henc.unique henc']
  exact hsub.length_le

theorem infix_of_mem_pieces {p : Text} (h : p ∈ split "```".toList (strip t)) : p <:+: t := by
  obtain ⟨x, y, ht, -⟩ := exists_strip t
  exact (infix_of_mem_split (List.cons_ne_nil _ _) h).trans ⟨x, y, ht.symm⟩

/-- A text without objects has no whole ones. -/
theorem parse_of_no_object (h : ∀ s v, s <:+: t → ¬ IsObject D s v) :
    parseJsonPayload D none t = [] := by
  have hwhole : ∀ {c : Text}, c <:+: t → ∀ v, ¬ IsWhole D c v := fun hc v hv => by
    obtain ⟨w, hw, hobject⟩ := hv.isObject
    exact h w v (hw.trans hc) hobject
  exact (parse_of_not_whole (hwhole List.infix_rfl)).mpr
    (.inr ⟨fun p hp => hwhole (infix_of_mem_pieces hp), rfl⟩)

theorem findsLargest_of_whole (h : IsWhole D t v) : FindsLargest D t := by
  obtain ⟨w, hlargest⟩ := h.largest
  rw [← parse_of_whole h] at hlargest
  exact .inl ⟨w, hlargest⟩

theorem findsLargest_of_not_whole (h : ∀ v, ¬ IsWhole D t v) : FindsLargest D t ↔
    (∀ s v, s <:+: t → ¬ IsObject D s v) ∨
      ∃ s v, Largest D t s v ∧ FirstWhole D (split "```".toList (strip t)) v := by
  constructor
  · rintro (⟨s, hs⟩ | ⟨hno, -⟩)
    · exact .inr ⟨s, _, hs, (parse_of_not_whole h).mp rfl⟩
    · exact .inl hno
  · rintro (hno | ⟨s, v, hs, hfirst⟩)
    · exact .inr ⟨hno, parse_of_no_object hno⟩
    · rw [← (parse_of_not_whole h).mpr hfirst] at hs
      exact .inl ⟨s, hs⟩

/-- **Exactly when the fallback finds the largest object.** -/
theorem findsLargest_iff (D : Decoder F) (text : Text) : FindsLargest D text ↔
    (∃ v, IsWhole D text v) ∨ (∀ s v, s <:+: text → ¬ IsObject D s v) ∨
      ∃ s v, Largest D text s v ∧ FirstWhole D (split "```".toList (strip text)) v := by
  by_cases hwhole : ∃ v, IsWhole D text v
  · obtain ⟨v, hv⟩ := hwhole
    exact iff_of_true (findsLargest_of_whole hv) (.inl ⟨v, hv⟩)
  · rw [findsLargest_of_not_whole fun v hv => hwhole ⟨v, hv⟩, or_iff_right hwhole]

/-- Without fences nothing but the text itself is tried. -/
theorem findsLargest_unfenced (h : ¬ "```".toList <:+: t) : FindsLargest D t ↔
    (∃ v, IsWhole D t v) ∨ (∀ s v, s <:+: t → ¬ IsObject D s v) ∨ ∃ s, Largest D t s [] := by
  by_cases hwhole : ∃ v, IsWhole D t v
  · obtain ⟨v, hv⟩ := hwhole
    exact iff_of_true (findsLargest_of_whole hv) (.inl ⟨v, hv⟩)
  · have hnot : ∀ v, ¬ IsWhole D t v := fun v hv => hwhole ⟨v, hv⟩
    obtain ⟨x, y, ht, -⟩ := exists_strip t
    have hpieces : split "```".toList (strip t) = [strip t] :=
      split_of_not_infix fun hsub => h (hsub.trans ⟨x, y, ht.symm⟩)
    have hfirst : ∀ v, FirstWhole D [strip t] v ↔ v = [] := fun v => by
      rw [← findSome_iff, List.findSome?_cons,
        candidatePayload_eq_none_iff.mpr fun v hv => hnot v (isWhole_strip_iff.mp hv)]
      exact eq_comm
    rw [findsLargest_of_not_whole hnot, or_iff_right hwhole, hpieces]
    simp only [hfirst, exists_eq_right]

/-- A decoder that keeps nothing of a number but that it is one. -/
def plainDecoder : Decoder Unit := ⟨fun _ => (), fun _ => some ()⟩

/-- An object behind prose with braces. -/
def bracedProse : Text := "\x7ba\x7d \x7b\"x\": 1\x7d".toList

/-- The object in it. -/
def hidden : Text := "\x7b\"x\": 1\x7d".toList

theorem exists_isObject_hidden : ∃ v, IsObject plainDecoder hidden v := by
  have hsome : (candidatePayload plainDecoder hidden).isSome := by decide +kernel
  obtain ⟨v, hv⟩ := Option.isSome_iff_exists.mp hsome
  obtain ⟨w, henc, hloads⟩ := candidatePayload_eq_some_iff.mp hv
  have hself : Encloses hidden hidden :=
    ⟨⟨rfl, rfl⟩, [], [], rfl, List.not_mem_nil, List.not_mem_nil⟩
  rw [henc.unique hself] at hloads
  exact ⟨v, ⟨rfl, rfl⟩, hloads⟩

/-- What loads as a dictionary without entries. -/
def isEmptyDict : Option (Json Unit) → Bool
  | some (.object []) => true
  | _ => false

/-- No substring as long as it is an empty dictionary. -/
theorem not_empty_of_length {s : Text} (hs : s <:+: bracedProse)
    (hlength : hidden.length ≤ s.length) :
    loads plainDecoder s ≠ some (.object []) := by
  have hmem : s ∈ bracedProse.tails.flatMap List.inits := by
    obtain ⟨u, hprefix, hsuffix⟩ := List.infix_iff_prefix_suffix.mp hs
    exact List.mem_flatMap.mpr ⟨u, (List.mem_tails _ _).mpr hsuffix,
      (List.mem_inits _ _).mpr hprefix⟩
  have hall : (bracedProse.tails.flatMap List.inits).all (fun s => s.length < hidden.length ||
      !isEmptyDict (loads plainDecoder s)) = true := by decide +kernel
  intro hempty
  have hentry := List.all_eq_true.mp hall s hmem
  rw [hempty] at hentry
  simp only [isEmptyDict, Bool.not_true, Bool.or_false, decide_eq_true_eq] at hentry
  omega

/-- **Braces in the prose hide the object.** -/
theorem bracedProse_not_found : ¬ FindsLargest plainDecoder bracedProse := by
  have hnot : ∀ v, ¬ IsWhole plainDecoder bracedProse v :=
    candidatePayload_eq_none_iff.mp (Option.isNone_iff_eq_none.mp (by decide +kernel))
  have hsub : hidden <:+: bracedProse := ⟨"\x7ba\x7d ".toList, [], rfl⟩
  obtain ⟨object, hhidden⟩ := exists_isObject_hidden
  rw [findsLargest_of_not_whole hnot]
  rintro (hno | ⟨s, v, ⟨⟨hs, hobject⟩, hlongest⟩, hfirst⟩)
  · exact hno _ _ hsub hhidden
  · have hempty : parseJsonPayload plainDecoder none bracedProse = [] :=
      List.isEmpty_iff.mp (by decide +kernel)
    obtain rfl := (parse_of_not_whole hnot).mpr hfirst ▸ hempty
    exact not_empty_of_length hs (hlongest _ _ hsub hhidden) hobject.2

end AgentPlatform
