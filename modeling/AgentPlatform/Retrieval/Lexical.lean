import Mathlib.Algebra.Order.Field.Basic
import Mathlib.Analysis.SpecialFunctions.Log.Basic
import Mathlib.Data.List.Sort
import AgentPlatform.Core.Domain
import AgentPlatform.Machinery.Grouping
import AgentPlatform.Machinery.Text

/-!
# Retrieval/Lexical — the lexical index

`LexicalIndex` weighs the tokens of a query over the chunks of a repository, BM25-ish.  The numbers
are those of an ordered field with a logarithm; a division by zero and the logarithm of a number
that is not positive raise.

* `lexicalRecall_exact` — over the reals, the index finds the chunks that share a token with the
  query, each once, best first, and nothing raises.
-/

namespace AgentPlatform

/-! ## Tokens -/

/-- `[A-Za-z_]`. -/
def isTokenStart (c : Char) : Bool := c.isAlpha || c = '_'

/-- `[A-Za-z0-9_]`. -/
def isTokenChar (c : Char) : Bool := c.isAlpha || c.isDigit || c = '_'

/-- `_TOKEN.findall`, skipping the `skip` characters a token already covers. -/
def findTokens : ℕ → Text → List Text
  | _, [] => []
  | 0, c :: t =>
    let run := t.takeWhile isTokenChar
    if isTokenStart c = true ∧ run ≠ [] then (c :: run) :: findTokens run.length t
      else findTokens 0 t
  | skip + 1, _ :: t => findTokens skip t

/-- `_CAMEL.split`, behind a character. -/
def camelSplit : Option Char → Text → List Text
  | _, [] => [[]]
  | before, c :: t =>
    let rest := (camelSplit (some c) t).modifyHead (c :: ·)
    if before.any (fun b => b.isLower || b.isDigit) && c.isUpper then [] :: rest else rest

/-- `str.lower`, on ASCII. -/
def lowerAscii (t : Text) : Text := t.map Char.toLower

/-- `tokenize`. -/
def tokenize (text : Text) : List Text :=
  (findTokens 0 text).flatMap fun raw =>
    let parts := ((camelSplit none raw).filter fun part => 2 < part.length).map lowerAscii
    lowerAscii raw :: if 1 < parts.length then parts else []

example : tokenize "retry CancelOrder x".toList
    = ["retry".toList, "cancelorder".toList, "cancel".toList, "order".toList] := by decide

/-! ## Chunks -/

/-- `CodeChunk`. -/
structure CodeChunk where
  id : String
  filePath : Text
  symbolName : Option Text
  symbolKind : Option Text
  startLine : ℤ
  endLine : ℤ
  content : Text
  deriving DecidableEq, Repr

/-- `ScoredChunk`. -/
structure ScoredChunk (R : Type) where
  chunk : CodeChunk
  score : R
  source : Text

/-! ## Counters -/

/-- A `Counter` of texts. -/
abbrev Counter := List (Text × ℕ)

namespace Counter

variable {c : Counter} {keys : List Text} {k : Text}

/-- `counter.update(keys)`. -/
def update (c : Counter) (keys : List Text) : Counter :=
  Grouping.gather id (fun _ => 1) (fun n _ => n + 1) c keys

/-- `counter.get(k, 0)`. -/
def get (c : Counter) (k : Text) : ℕ := (Grouping.value c k).getD 0

theorem getD_foldl_feed (keys : List Text) (v : Option ℕ) :
    (keys.foldl (Grouping.feed (fun _ => 1) fun n _ => n + 1) v).getD 0 = v.getD 0
      + keys.length := by
  induction keys generalizing v with
  | nil => rfl
  | cons k keys ih =>
    rw [List.foldl_cons, ih, List.length_cons]
    cases v <;> simp [Grouping.feed] <;> omega

/-- **A counter counts.** -/
theorem get_update : (update c keys).get k = c.get k + keys.count k := by
  rw [get, update, Grouping.value_gather, getD_foldl_feed, get, List.count_eq_length_filter]
  simp only [id_eq, beq_eq_decide]

theorem nodup_update (keys : List Text) : ((update [] keys).map (·.1)).Nodup :=
  Grouping.nodup_gather List.nodup_nil

/-- The keys of a counter are what it counted. -/
theorem mem_keys_update : k ∈ (update [] keys).map (·.1) ↔ k ∈ keys := by
  rw [update, Grouping.mem_keys_gather]
  simp

end Counter

/-! ## The index -/

namespace LexicalIndex

/-- `K1`. -/
def k1 (R : Type) [Field R] : R := 3 / 2

/-- `B`. -/
def b (R : Type) [Field R] : R := 3 / 4

end LexicalIndex

/-- `LexicalIndex`. -/
structure LexicalIndex (R : Type) where
  chunks : List CodeChunk
  documents : List (List Text)
  frequencies : List Counter
  lengths : List ℕ
  averageLength : R
  documentFrequency : Counter

namespace LexicalIndex

section Code

variable {R : Type} [Field R] [LinearOrder R]

/-- `a / b`. -/
def div? (a b : R) : Except PyError R :=
  if b = 0 then .error (.other "ZeroDivisionError" "float division by zero") else .ok (a / b)

/-- `math.log`. -/
def log? (log : R → R) (x : R) : Except PyError R :=
  if x ≤ 0 then .error (.other "ValueError" "math domain error") else .ok (log x)

theorem div?_of_pos {a x : R} (h : 0 < x) : div? a x = .ok (a / x) := if_neg h.ne'

theorem log?_of_pos {log : R → R} {x : R} (h : 0 < x) : log? log x = .ok (log x) := if_neg h.not_ge

/-- The text of a chunk that is indexed. -/
def documentOf (c : CodeChunk) : Text :=
  c.filePath ++ ' ' :: (c.symbolName.getD [] ++ ' ' :: c.content)

/-- `sum(lengths) / len(lengths) if lengths else 0.0`. -/
def averageOf (lengths : List ℕ) : Except PyError R :=
  if lengths = [] then .ok 0 else div? (lengths.sum : R) (lengths.length : R)

/-- `LexicalIndex.__init__`. -/
def init (chunks : List CodeChunk) : Except PyError (LexicalIndex R) := do
  let documents := chunks.map fun c => tokenize (documentOf c)
  let frequencies := documents.map fun document => Counter.update [] document
  let lengths := documents.map List.length
  let averageLength ← averageOf lengths
  let documentFrequency := frequencies.foldl (fun counter frequency =>
    Counter.update counter (frequency.map (·.1))) []
  return ⟨chunks, documents, frequencies, lengths, averageLength, documentFrequency⟩

variable (log : R → R) (index : LexicalIndex R)

/-- One turn of the loop over the terms of a query. -/
def addTerm (i : ℕ) (frequency : Counter) (score : R) (term : Text) : Except PyError R := do
  let occurrences := frequency.get term
  if occurrences = 0 then return score
  let appearances := index.documentFrequency.get term
  let ratio ← div? (index.chunks.length - appearances + 1 / 2 : R) (appearances + 1 / 2)
  let idf ← log? log (1 + ratio)
  let relative ← div? (index.lengths.getD i 0 : R) (if index.averageLength = 0 then 1
    else index.averageLength)
  let lengthNorm := 1 - b R + b R * relative
  let gain ← div? (idf * (occurrences * (k1 R + 1))) (occurrences + k1 R * lengthNorm)
  return score + gain

/-- One turn of the loop over the chunks. -/
def addChunk (terms : List Text) (results : List (ScoredChunk R)) (entry : Counter × ℕ) :
    Except PyError (List (ScoredChunk R)) := do
  let score ← terms.foldlM (addTerm log index entry.2 entry.1) 0
  if 0 < score then
    return results ++ (index.chunks[entry.2]?.map fun c => ⟨c, score, "lexical".toList⟩).toList
  else return results

/-- `results.sort(key=lambda item: item.score, reverse=True)`, which is stable. -/
def sortByScore {α : Type} (score : α → R) (results : List α) : List α :=
  results.insertionSort fun a b => score b ≤ score a

/-- `LexicalIndex.search`. -/
def search (query : Text) (limit : ℕ) : Except PyError (List (ScoredChunk R)) := do
  let terms := tokenize query
  if terms = [] ∨ index.chunks = [] then return []
  let results ← index.frequencies.zipIdx.foldlM (addChunk log index terms) []
  return (sortByScore (·.score) results).take limit

end Code

/-! ## What the index holds -/

/-- The tokens a chunk is indexed under. -/
def tokensOf (c : CodeChunk) : List Text := tokenize (documentOf c)

/-- The chunk shares a token with the query. -/
def Shares (query : Text) (c : CodeChunk) : Prop := ∃ term ∈ tokenize query, term ∈ tokensOf c

instance (query : Text) : DecidablePred (Shares query) := fun c =>
  inferInstanceAs (Decidable (∃ term ∈ tokenize query, term ∈ tokensOf c))

section Holds

variable {R : Type} [Field R] [LinearOrder R] [IsStrictOrderedRing R] {chunks : List CodeChunk}
  {index : LexicalIndex R} {i : ℕ} {c : CodeChunk} {term : Text}

/-- **The index of a list of chunks**: the frequencies are their counters, and the document
frequency of a token is the number of chunks it is in. -/
structure Indexes (index : LexicalIndex R) (chunks : List CodeChunk) : Prop where
  chunks_eq : index.chunks = chunks
  frequencies_eq : index.frequencies = chunks.map fun c => Counter.update [] (tokensOf c)
  average : 0 ≤ index.averageLength
  documentFrequency : ∀ term, index.documentFrequency.get term = chunks.countP (term ∈ tokensOf ·)

/-- The document frequency counts the chunks of a token. -/
theorem get_documentFrequency (chunks : List CodeChunk) (counter : Counter) (term : Text) :
    Counter.get ((chunks.map fun c => Counter.update [] (tokensOf c)).foldl
      (fun counter frequency => Counter.update counter (frequency.map (·.1))) counter) term
      = counter.get term + chunks.countP (term ∈ tokensOf ·) := by
  induction chunks generalizing counter with
  | nil => rfl
  | cons c chunks ih =>
    rw [List.map_cons, List.foldl_cons, ih, Counter.get_update, List.countP_cons]
    have hcount : ((Counter.update [] (tokensOf c)).map (·.1)).count term
        = if term ∈ tokensOf c then 1 else 0 := by
      rw [(Counter.nodup_update _).count]
      simp only [Counter.mem_keys_update]
    rw [hcount]
    simp only [decide_eq_true_eq]
    omega

theorem exists_averageOf (lengths : List ℕ) : ∃ average : R, averageOf lengths = .ok average ∧
    0 ≤ average := by
  rw [averageOf]
  split
  · exact ⟨0, rfl, le_rfl⟩
  · next hne =>
    have hlength : (0 : R) < lengths.length := by exact_mod_cast List.length_pos_iff.mpr hne
    exact ⟨_, div?_of_pos hlength, div_nonneg (Nat.cast_nonneg _) hlength.le⟩

/-- **The index of any list of chunks is built.** -/
theorem exists_init (chunks : List CodeChunk) : ∃ index : LexicalIndex R, init chunks = .ok index ∧
    index.Indexes chunks := by
  obtain ⟨average, haverage, hnonneg⟩ := exists_averageOf (R := R)
    ((chunks.map fun c => tokenize (documentOf c)).map List.length)
  have hfrequencies : (chunks.map fun c => tokenize (documentOf c)).map (fun document =>
    Counter.update [] document)
      = chunks.map fun c => Counter.update [] (tokensOf c) := List.map_map
  rw [init, haverage, hfrequencies]
  refine ⟨_, rfl, rfl, rfl, hnonneg, fun term => ?_⟩
  rw [get_documentFrequency]
  exact Nat.zero_add _

/-! ## Scores -/

variable {log : R → R} (hlog : ∀ x, 1 < x → 0 < log x)

/-- A document frequency never exceeds the number of chunks. -/
theorem Indexes.documentFrequency_le (h : index.Indexes chunks) (term : Text) :
    (index.documentFrequency.get term : R) ≤ index.chunks.length := by
  rw [h.documentFrequency, h.chunks_eq]
  exact_mod_cast List.countP_le_length

/-- Half more than a count is a divisor. -/
theorem half_pos_add (n : ℕ) : (0 : R) < n + 1 / 2 :=
  add_pos_of_nonneg_of_pos (Nat.cast_nonneg n) one_half_pos

theorem Indexes.divisor_pos (h : index.Indexes chunks) :
    (0 : R) < (if index.averageLength = 0 then 1 else index.averageLength) := by
  split
  · exact one_pos
  · next hne => exact lt_of_le_of_ne h.average (Ne.symm hne)

theorem lengthNorm_pos {relative : R} (h : 0 ≤ relative) : 0 < 1 - b R + b R * relative := by
  have hb : (0 : R) < b R := by norm_num [b]
  have hrest : (0 : R) < 1 - b R := by norm_num [b]
  exact add_pos_of_pos_of_nonneg hrest (mul_nonneg hb.le h)

theorem k1_pos : (0 : R) < k1 R := by norm_num [k1]

/-- The divisor of a gain: occurrences, and the length of the chunk relative to the average. -/
theorem Indexes.weight_pos (h : index.Indexes chunks) {occurrences : R}
    (hpos : 0 < occurrences) (length : ℕ) :
    0 < occurrences + k1 R * (1 - b R + b R *
      (length / (if index.averageLength = 0 then 1 else index.averageLength))) :=
  add_pos hpos (mul_pos k1_pos (lengthNorm_pos
    (div_nonneg (Nat.cast_nonneg length) h.divisor_pos.le)))

/-- **The inverse document frequency is the logarithm of more than one.** -/
theorem Indexes.one_lt_ratio (h : index.Indexes chunks) (term : Text) :
    1 < 1 + (index.chunks.length - index.documentFrequency.get term + 1 / 2 : R)
      / (index.documentFrequency.get term + 1 / 2) :=
  lt_add_of_pos_right 1 (div_pos
    (add_pos_of_nonneg_of_pos (sub_nonneg.mpr (h.documentFrequency_le term))
    one_half_pos) (half_pos_add _))

include hlog in
/-- **A term adds to the score of the chunks it is in**, and to no other. -/
theorem exists_addTerm (h : index.Indexes chunks) (score : R) (term : Text) :
    ∃ gain, addTerm log index i (Counter.update [] (tokensOf c)) score term = .ok (score + gain) ∧
      0 ≤ gain ∧ (0 < gain ↔ term ∈ tokensOf c) := by
  have hcount : (Counter.update [] (tokensOf c)).get term = (tokensOf c).count term := by
    rw [Counter.get_update]
    exact Nat.zero_add _
  rw [addTerm, hcount]
  by_cases hmem : term ∈ tokensOf c
  · have hcount_pos := List.count_pos_iff.mpr hmem
    have hoccurrences : (0 : R) < (tokensOf c).count term := by exact_mod_cast hcount_pos
    have hone := h.one_lt_ratio term
    have hweight := h.weight_pos hoccurrences (index.lengths.getD i 0)
    rw [if_neg hcount_pos.ne']
    dsimp only
    rw [div?_of_pos (half_pos_add _)]
    dsimp only [bind, Except.bind]
    rw [log?_of_pos (one_pos.trans hone)]
    dsimp only [bind, Except.bind]
    rw [div?_of_pos h.divisor_pos]
    dsimp only [bind, Except.bind]
    rw [div?_of_pos hweight]
    have hgain :=
      div_pos (mul_pos (hlog _ hone) (mul_pos hoccurrences (add_pos k1_pos one_pos))) hweight
    exact ⟨_, rfl, hgain.le, iff_of_true hgain hmem⟩
  · have hzero : (tokensOf c).count term = 0 := List.count_eq_zero_of_not_mem hmem
    refine ⟨0, ?_, le_rfl, by simp [hmem]⟩
    rw [hzero, add_zero]
    rfl

include hlog in
/-- …and a query to the score of those that share a token with it. -/
theorem exists_score (h : index.Indexes chunks) (terms : List Text) (score : R) :
    ∃ gain, terms.foldlM (addTerm log index i (Counter.update [] (tokensOf c))) score
      = .ok (score + gain) ∧ 0 ≤ gain ∧ (0 < gain ↔ ∃ term ∈ terms, term ∈ tokensOf c) := by
  induction terms generalizing score with
  | nil => exact ⟨0, by rw [add_zero]; rfl, le_rfl, by simp⟩
  | cons term terms ih =>
    obtain ⟨first, hfirst, hnonneg, hpos⟩ := exists_addTerm (i := i) (c := c) hlog h score term
    obtain ⟨rest, hrest, hnonneg', hpos'⟩ := ih (score + first)
    refine ⟨first + rest, ?_, add_nonneg hnonneg hnonneg', ?_⟩
    · rw [List.foldlM_cons, hfirst, ← add_assoc]
      exact hrest
    · rw [List.exists_mem_cons_iff, ← hpos, ← hpos']
      constructor
      · intro hsum
        by_contra hnot
        obtain ⟨hle, hle'⟩ := not_or.mp hnot
        linarith
      · rintro (hlt | hlt) <;> linarith

variable (query : Text) (results : List (ScoredChunk R))

include hlog in
/-- One turn of the loop over the chunks appends the chunk if it shares a token. -/
theorem exists_addChunk (h : index.Indexes chunks) (hc : index.chunks[i]? = some c) :
    ∃ hits, addChunk log index (tokenize query) results (Counter.update [] (tokensOf c), i)
        = .ok (results ++ hits) ∧
      hits.map (·.chunk) = [c].filter (Shares query) ∧
      ∀ hit ∈ hits, hit.source = "lexical".toList := by
  obtain ⟨score, hscore, -, hpos⟩ := exists_score hlog h (tokenize query) 0 (i := i) (c := c)
  rw [addChunk, hscore, zero_add]
  dsimp only [bind, Except.bind]
  by_cases hshares : Shares query c
  · rw [if_pos (hpos.mpr hshares), hc]
    exact ⟨[⟨c, score, "lexical".toList⟩], rfl, by simp [hshares], by simp⟩
  · rw [if_neg (mt hpos.mp hshares)]
    exact ⟨[], by rw [List.append_nil]; rfl, by simp [hshares], by simp⟩

include hlog in
/-- **The loop keeps the chunks that share a token**, in their order. -/
theorem exists_hits (h : index.Indexes chunks) (before behind : List CodeChunk)
    (hchunks : index.chunks = before ++ behind) :
    ∃ hits, ((behind.map fun c => Counter.update [] (tokensOf c)).zipIdx before.length).foldlM
        (addChunk log index (tokenize query)) results = .ok (results ++ hits) ∧
      hits.map (·.chunk) = behind.filter (Shares query) ∧
      ∀ hit ∈ hits, hit.source = "lexical".toList := by
  induction behind generalizing before results with
  | nil => exact ⟨[], by rw [List.append_nil]; rfl, rfl, by simp⟩
  | cons c behind ih =>
    have hc : index.chunks[before.length]? = some c := by simp [hchunks]
    obtain ⟨first, hfirst, hmap, hsource⟩ := exists_addChunk hlog query results h hc
    obtain ⟨rest, hrest, hmap', hsource'⟩ :=
      ih (results ++ first) (before ++ [c]) (by simp [hchunks])
    refine ⟨first ++ rest, ?_, ?_, List.forall_mem_append.mpr ⟨hsource, hsource'⟩⟩
    · rw [List.length_append, List.length_singleton] at hrest
      rw [List.map_cons, List.zipIdx_cons, List.foldlM_cons, hfirst, ← List.append_assoc]
      exact hrest
    · rw [List.map_append, hmap, hmap', ← List.filter_append]
      rfl

include hlog in
/-- **What a search returns**: the hits by their scores, cut at the limit. -/
theorem exists_search (h : index.Indexes chunks) (query : Text) (limit : ℕ) :
    ∃ hits, index.search log query limit = .ok ((sortByScore (·.score) hits).take limit) ∧
      hits.map (·.chunk) = chunks.filter (Shares query) ∧
      ∀ hit ∈ hits, hit.source = "lexical".toList := by
  rw [search]
  split
  · next hnone =>
    have hshares : chunks.filter (Shares query) = [] := List.filter_eq_nil_iff.mpr fun c hc => by
      rw [decide_eq_true_eq]
      rintro ⟨term, hterm, -⟩
      obtain hterms | hchunks := hnone
      · rw [hterms] at hterm
        cases hterm
      · rw [← h.chunks_eq, hchunks] at hc
        cases hc
    refine ⟨[], ?_, hshares.symm, by simp⟩
    rw [sortByScore, List.insertionSort_nil, List.take_nil]
    rfl
  · obtain ⟨hits, hhits, hmap, hsource⟩ := exists_hits hlog query [] h [] index.chunks rfl
    rw [h.chunks_eq, ← h.frequencies_eq] at hhits
    refine ⟨hits, ?_, h.chunks_eq ▸ hmap, hsource⟩
    rw [List.length_nil, List.nil_append] at hhits
    rw [hhits]
    rfl

end Holds

end LexicalIndex

open LexicalIndex

/-- **Lexical recall is exact.** -/
theorem lexicalRecall_exact (chunks : List CodeChunk) (query : Text) (limit : ℕ)
    (hlimit : chunks.length ≤ limit) :
    ∃ results : List (ScoredChunk ℝ),
      (do let index ← init chunks; index.search Real.log query limit) = .ok results ∧
      (results.map (·.chunk)).Perm (chunks.filter (Shares query)) ∧
      results.Pairwise fun a b => b.score ≤ a.score := by
  obtain ⟨index, hinit, hindex⟩ := exists_init (R := ℝ) chunks
  obtain ⟨hits, hsearch, hmap, -⟩ := exists_search (fun _ => Real.log_pos) hindex query limit
  have hlength : (sortByScore (·.score) hits).length ≤ limit := by
    rw [sortByScore, List.length_insertionSort, ← List.length_map (·.chunk), hmap]
    exact (List.length_filter_le _ _).trans hlimit
  rw [List.take_of_length_le hlength] at hsearch
  refine ⟨_, ?_, hmap ▸ (List.perm_insertionSort _ hits).map _, List.pairwise_insertionSort _ hits⟩
  rw [hinit]
  exact hsearch

/-- A chunk about cancelling orders, and one that is not. -/
def orderChunks : List CodeChunk :=
  [⟨"c1", "OrderService.cs".toList, some "CancelOrder".toList, some "method".toList, 10, 30,
      "order.Cancel();".toList⟩,
    ⟨"c2", "README.md".toList, none, none, 1, 2, "Usage".toList⟩]

theorem lexicalRecall_orderChunks : ∃ results : List (ScoredChunk ℝ),
    (do let index ← init orderChunks; index.search Real.log "cancel order".toList 2) = .ok results ∧
      (results.map (·.chunk)).Perm (orderChunks.filter (Shares "cancel order".toList)) ∧
      results.Pairwise fun a b => b.score ≤ a.score :=
  lexicalRecall_exact orderChunks "cancel order".toList 2 le_rfl

example : (orderChunks.filter (Shares "cancel order".toList)).map (·.id) = ["c1"] := by decide

end AgentPlatform
