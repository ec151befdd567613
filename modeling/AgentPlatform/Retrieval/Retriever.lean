import AgentPlatform.Retrieval.Hybrid
import AgentPlatform.Retrieval.SymbolPatterns

/-!
# Retrieval/Retriever — the vector index, and a retriever with all its indexes

`VectorIndex.search` ranks the embedded chunks by the cosine of their embeddings with the query's,
and `HybridRetriever` builds its indexes from one list of chunks.  As in `Retrieval/Lexical`,
numbers are those of an ordered field, and what divides may raise.

* `vectorSearch_exact` — the chunks whose embedding has the query's dimension and a positive product
  with it, each once, by their cosines; nothing is divided by zero.
* `exists_searchAll` — a search never raises, and fuses exactly what its indexes find: where the
  limit leaves room, the candidates are the chunks that answer the query.
-/

namespace AgentPlatform

open LexicalIndex

section Code

variable {R : Type} [Field R] [LinearOrder R] (sqrt : R → R)

/-- `sum(a * b for a, b in zip(left, right))`. -/
def dot (left right : List R) : R := (List.zipWith (· * ·) left right).sum

/-- `cosine_similarity`. -/
def cosineSimilarity (left right : List R) : Except PyError R := do
  if left = [] ∨ right = [] ∨ left.length ≠ right.length then return 0
  let leftNorm := sqrt (dot left left)
  let rightNorm := sqrt (dot right right)
  if leftNorm = 0 ∨ rightNorm = 0 then return 0
  div? (dot left right) (leftNorm * rightNorm)

/-- `VectorIndex`: the chunks with an embedding that is not empty, and it. -/
structure VectorIndex (R : Type) where
  chunks : List (CodeChunk × List R)

namespace VectorIndex

/-- `VectorIndex.__init__`. -/
def init (embedding : CodeChunk → Option (List R)) (chunks : List CodeChunk) : VectorIndex R :=
  ⟨chunks.filterMap fun c =>
    match embedding c with
    | some (x :: xs) => some (c, x :: xs)
    | _ => none⟩

/-- `enabled`. -/
def enabled (index : VectorIndex R) : Bool := !index.chunks.isEmpty

/-- An item of `scored`. -/
def scoreChunk (queryEmbedding : List R)
    (entry : CodeChunk × List R) : Except PyError (ScoredChunk R) := do
  return ⟨entry.1, ← cosineSimilarity sqrt queryEmbedding entry.2, "vector".toList⟩

/-- `VectorIndex.search`. -/
def search (index : VectorIndex R) (queryEmbedding : List R)
    (limit : ℕ) : Except PyError (List (ScoredChunk R)) := do
  let scored ← index.chunks.mapM (scoreChunk sqrt queryEmbedding)
  return (sortByScore (·.score) (scored.filter fun item => 0 < item.score)).take limit

end VectorIndex

variable (embedding : CodeChunk → Option (List R)) (embedQuery : Option (Text → List R))
  (chunks : List CodeChunk)

/-- The ranking of the vector index, if there is an embedder and something is embedded. -/
def vectorRanking (query : Text) (limit : ℕ) : Except PyError (Option (List (ScoredChunk R))) :=
  match embedQuery with
  | some embed =>
    if (VectorIndex.init embedding chunks).enabled then
      ((VectorIndex.init embedding chunks).search sqrt (embed query) limit).map some
    else .ok none
  | none => .ok none

/-- `HybridRetriever(chunks, embedder).search(query, limit)`. -/
def HybridRetriever.searchAll (py : PyRuntime) (log : R → R) (query : Text) (limit : ℕ) :
    Except PyError (List RetrievalResult) := do
  let index ← LexicalIndex.init chunks
  let lexical ← index.search log query (limit * 3)
  let symbol := HybridRetriever.symbolSearch (R := R) py ⟨chunks, fun _ _ => [],
    none⟩ query (limit * 2)
  let vector ← vectorRanking sqrt embedding embedQuery chunks query (limit * 3)
  return HybridRetriever.results py query limit (HybridRetriever.rankedLists lexical symbol vector)

end Code

/-! ## Cosines -/

section Cosines

variable {R : Type} [Field R] [LinearOrder R] [IsStrictOrderedRing R] {sqrt : R → R}

omit [LinearOrder R] [IsStrictOrderedRing R] in
theorem dot_comm (left right : List R) : dot left right = dot right left := by
  rw [dot, dot, List.zipWith_comm_of_comm fun a b => mul_comm a b]

theorem dot_self_nonneg (left : List R) : 0 ≤ dot left left := by
  induction left with
  | nil => exact le_rfl
  | cons x left ih => exact add_nonneg (mul_self_nonneg x) ih

/-- A vector without length has no product. -/
theorem dot_eq_zero {left : List R} (h : dot left left = 0)
    (right : List R) : dot left right = 0 := by
  induction left generalizing right with
  | nil => rfl
  | cons x left ih =>
    have hsum : x * x + dot left left = 0 := h
    obtain ⟨hx, hrest⟩ :=
      (add_eq_zero_iff_of_nonneg (mul_self_nonneg x) (dot_self_nonneg left)).mp hsum
    cases right with
    | nil => rfl
    | cons y right =>
      have hsplit : dot (x :: left) (y :: right) = x * y + dot left right := rfl
      rw [hsplit, mul_self_eq_zero.mp hx, zero_mul, zero_add]
      exact ih hrest right

/-- The embedding points where the query's does. -/
def Alike (queryEmbedding embedding : List R) : Prop :=
  embedding.length = queryEmbedding.length ∧ 0 < dot queryEmbedding embedding

instance (queryEmbedding embedding : List R) : Decidable (Alike queryEmbedding embedding) :=
  inferInstanceAs (Decidable (_ ∧ _))

/-- **A cosine is never divided by zero**, and positive exactly for vectors that are alike. -/
theorem exists_cosineSimilarity (hpos : ∀ x, 0 < x → 0 < sqrt x)
    (queryEmbedding embedding : List R) :
    ∃ score, cosineSimilarity sqrt queryEmbedding embedding = .ok score ∧
      (0 < score ↔ Alike queryEmbedding embedding) ∧
      (Alike queryEmbedding embedding → score = dot queryEmbedding embedding /
        (sqrt (dot queryEmbedding queryEmbedding) * sqrt (dot embedding embedding))) := by
  rw [cosineSimilarity]
  split
  · rename_i hshape
    have hnot : ¬ Alike queryEmbedding embedding := by
      rintro ⟨hlength, hdot⟩
      rcases hshape with rfl | rfl | hne
      · exact absurd hdot (lt_irrefl _)
      · rw [dot_comm] at hdot
        exact absurd hdot (lt_irrefl _)
      · exact hne hlength.symm
    exact ⟨0, rfl, by simp [hnot], fun h => absurd h hnot⟩
  · rename_i hshape
    have hlength : embedding.length = queryEmbedding.length := by
      by_contra hne
      exact hshape (.inr (.inr (Ne.symm hne)))
    have hnorm : ∀ v : List R, dot v v ≠ 0 → 0 < sqrt (dot v v) := fun v hv =>
      hpos _ (lt_of_le_of_ne (dot_self_nonneg v) (Ne.symm hv))
    dsimp only
    split
    · rename_i hzero
      have hdot : dot queryEmbedding embedding = 0 := by
        by_contra hne
        rcases hzero with hzero | hzero
        · exact (hnorm queryEmbedding fun h => hne (dot_eq_zero h embedding)).ne' hzero
        · have hfar : dot embedding embedding ≠ 0 := fun h =>
            hne (dot_comm queryEmbedding embedding ▸ dot_eq_zero h _)
          exact (hnorm embedding hfar).ne' hzero
      have hnot : ¬ Alike queryEmbedding embedding := fun h => h.2.ne' hdot
      exact ⟨0, rfl, by simp [hnot], fun h => absurd h hnot⟩
    · rename_i hnonzero
      obtain ⟨hleft, hright⟩ := not_or.mp hnonzero
      have hproduct :
          sqrt (dot queryEmbedding queryEmbedding) * sqrt (dot embedding embedding) ≠ 0 :=
        mul_ne_zero hleft hright
      refine ⟨_, if_neg hproduct, ?_, fun _ => rfl⟩
      rw [Alike, and_iff_right hlength]
      by_cases hdot : dot queryEmbedding embedding = 0
      · simp [hdot]
      · have hquery : 0 < sqrt (dot queryEmbedding queryEmbedding) :=
          hnorm _ fun h => hdot (dot_eq_zero h embedding)
        have hchunk : 0 < sqrt (dot embedding embedding) :=
          hnorm _ fun h => hdot (dot_comm queryEmbedding embedding ▸ dot_eq_zero h _)
        exact div_pos_iff_of_pos_right (mul_pos hquery hchunk)

/-! ## The vector index -/

/-- The chunk has an embedding, and it is like the query's. -/
def Similar (embedding : CodeChunk → Option (List R)) (queryEmbedding : List R)
    (c : CodeChunk) : Prop :=
  ∃ v ∈ embedding c, Alike queryEmbedding v

instance (embedding : CodeChunk → Option (List R)) (queryEmbedding : List R) :
    DecidablePred (Similar embedding queryEmbedding) := fun c =>
  inferInstanceAs (Decidable (∃ v ∈ embedding c, Alike queryEmbedding v))

variable {embedding : CodeChunk → Option (List R)} {queryEmbedding : List R}

omit [IsStrictOrderedRing R] in
/-- An empty embedding is like none. -/
theorem not_alike_nil : ¬ Alike queryEmbedding [] := fun h => by
  have hdot := h.2
  rw [dot_comm] at hdot
  exact absurd hdot (lt_irrefl _)

/-- The chunk's score. -/
def IsCosine (sqrt : R → R) (embedding : CodeChunk → Option (List R)) (queryEmbedding : List R)
    (hit : ScoredChunk R) : Prop :=
  ∃ v ∈ embedding hit.chunk, hit.score = dot queryEmbedding v /
    (sqrt (dot queryEmbedding queryEmbedding) * sqrt (dot v v))

/-- One chunk is scored, and stays if it is similar. -/
theorem exists_scored (hpos : ∀ x, 0 < x → 0 < sqrt x) (embedding : CodeChunk → Option (List R))
    (queryEmbedding : List R) (chunks : List CodeChunk) :
    ∃ scored : List (ScoredChunk R),
      (VectorIndex.init embedding chunks).chunks.mapM (VectorIndex.scoreChunk sqrt queryEmbedding)
        = .ok scored ∧
      (scored.filter fun item => 0 < item.score).map (·.chunk)
        = chunks.filter (Similar embedding queryEmbedding) ∧
      ∀ hit ∈ scored.filter fun item => 0 < item.score,
        hit.source = "vector".toList ∧ IsCosine sqrt embedding queryEmbedding hit := by
  induction chunks with
  | nil => exact ⟨[], rfl, rfl, by simp⟩
  | cons c chunks ih =>
    obtain ⟨scored, hscored, hmap, hhits⟩ := ih
    rcases hv : embedding c with _ | ⟨_ | ⟨x, xs⟩⟩
    · have hnot : ¬ Similar embedding queryEmbedding c := by simp [Similar, hv]
      refine ⟨scored, ?_, by rw [hmap, List.filter_cons_of_neg (by simpa using hnot)], hhits⟩
      simpa [VectorIndex.init, hv] using hscored
    · have hnot : ¬ Similar embedding queryEmbedding c := by simp [Similar, hv, not_alike_nil]
      refine ⟨scored, ?_, by rw [hmap, List.filter_cons_of_neg (by simpa using hnot)], hhits⟩
      simpa [VectorIndex.init, hv] using hscored
    · obtain ⟨score, hscore, hiff, hcosine⟩ := exists_cosineSimilarity hpos queryEmbedding (x :: xs)
      have hsimilar : Similar embedding queryEmbedding c ↔ 0 < score := by simp [Similar, hv, hiff]
      refine ⟨⟨c, score, "vector".toList⟩ :: scored, ?_, ?_, ?_⟩
      · have hinit : (VectorIndex.init embedding (c :: chunks)).chunks =
            (c, x :: xs) :: (VectorIndex.init embedding chunks).chunks := by
            simp [VectorIndex.init, hv]
        rw [hinit, List.mapM_cons, hscored, VectorIndex.scoreChunk, hscore]
        rfl
      · by_cases hlt : 0 < score
        · rw [List.filter_cons_of_pos (by simpa using hlt), List.map_cons, hmap,
            List.filter_cons_of_pos (by simpa using hsimilar.mpr hlt)]
        · rw [List.filter_cons_of_neg (by simpa using hlt), hmap,
            List.filter_cons_of_neg (by simpa using mt hsimilar.mp hlt)]
      · intro hit hhit
        by_cases hlt : 0 < score
        · rw [List.filter_cons_of_pos (by simpa using hlt)] at hhit
          rcases List.mem_cons.mp hhit with rfl | hhit
          · exact ⟨rfl, x :: xs, hv, hcosine (hiff.mp hlt)⟩
          · exact hhits hit hhit
        · rw [List.filter_cons_of_neg (by simpa using hlt)] at hhit
          exact hhits hit hhit

/-- **What a vector search returns**: the similar chunks by their cosines, cut at the limit. -/
theorem exists_vectorSearch (hpos : ∀ x, 0 < x → 0 < sqrt x)
    (embedding : CodeChunk → Option (List R))
    (queryEmbedding : List R) (chunks : List CodeChunk) (limit : ℕ) :
    ∃ hits, (VectorIndex.init embedding chunks).search sqrt queryEmbedding limit =
        .ok ((sortByScore (·.score) hits).take limit) ∧
      hits.map (·.chunk) = chunks.filter (Similar embedding queryEmbedding) ∧
      ∀ hit ∈ hits, hit.source = "vector".toList ∧ IsCosine sqrt embedding queryEmbedding hit := by
  obtain ⟨scored, hscored, hmap, hhits⟩ := exists_scored hpos embedding queryEmbedding chunks
  refine ⟨_, ?_, hmap, hhits⟩
  rw [VectorIndex.search, hscored]
  rfl

end Cosines

/-- **Vector search is exact.** -/
theorem vectorSearch_exact (embedding : CodeChunk → Option (List ℝ)) (queryEmbedding : List ℝ)
    (chunks : List CodeChunk) (limit : ℕ) (hlimit : chunks.length ≤ limit) :
    ∃ results, (VectorIndex.init embedding chunks).search Real.sqrt queryEmbedding limit
      = .ok results ∧
      (results.map (·.chunk)).Perm (chunks.filter (Similar embedding queryEmbedding)) ∧
      (results.Pairwise fun a b => b.score ≤ a.score) ∧
      ∀ result ∈ results, IsCosine Real.sqrt embedding queryEmbedding result := by
  obtain ⟨hits, hsearch, hmap, hhits⟩ :=
    exists_vectorSearch (fun _ => Real.sqrt_pos.mpr) embedding queryEmbedding chunks limit
  have hperm := List.perm_insertionSort (fun a b : ScoredChunk ℝ => b.score ≤ a.score) hits
  have hlength : (sortByScore (·.score) hits).length ≤ limit := by
    rw [sortByScore, List.length_insertionSort, ← List.length_map (·.chunk), hmap]
    exact (List.length_filter_le _ _).trans hlimit
  rw [List.take_of_length_le hlength] at hsearch
  exact ⟨_, hsearch, hmap ▸ hperm.map _, List.pairwise_insertionSort _ hits,
    fun result hresult => (hhits result (hperm.subset hresult)).2⟩

/-- The order chunks, of which one is embedded. -/
noncomputable def orderEmbedding (c : CodeChunk) : Option (List ℝ) :=
  if c.id = "c1" then some [1, 0] else none

theorem vectorSearch_exact_orderChunks : ∃ results : List (ScoredChunk ℝ),
    (VectorIndex.init orderEmbedding orderChunks).search Real.sqrt [1, 1] 2 = .ok results ∧
      (results.map (·.chunk)).Perm (orderChunks.filter (Similar orderEmbedding [1, 1])) ∧
      (results.Pairwise fun a b => b.score ≤ a.score) ∧
      ∀ result ∈ results, IsCosine Real.sqrt orderEmbedding [1, 1] result :=
  vectorSearch_exact orderEmbedding [1, 1] orderChunks 2 le_rfl

/-! ## The retriever -/

/-- **The chunk answers the query**: by a token, by its name, or by its embedding. -/
def Answers (py : PyRuntime) (embedding : CodeChunk → Option (List ℝ))
    (embedQuery : Option (Text → List ℝ)) (query : Text) (c : CodeChunk) : Prop :=
  Shares query c ∨ Reranker.namedIn py (tokenize query).dedup c = true ∨
    ∃ embed ∈ embedQuery, Similar embedding (embed query) c

/-- A ranking of the hits of an index holds the chunks hit, all of them if there is room. -/
theorem mem_ranked {hits : List (ScoredChunk ℝ)} {limit : ℕ} {c : CodeChunk} :
    (c ∈ ((sortByScore (·.score) hits).take limit).map (·.chunk) → c ∈ hits.map (·.chunk)) ∧
      (hits.length ≤ limit →
        c ∈ hits.map (·.chunk) → c ∈ ((sortByScore (·.score) hits).take limit).map (·.chunk)) := by
  have hperm : (sortByScore (·.score) hits).Perm hits :=
    List.perm_insertionSort (fun a b : ScoredChunk ℝ => b.score ≤ a.score) hits
  refine ⟨fun hc => ?_, fun hlength hc => ?_⟩
  · obtain ⟨hit, hhit, rfl⟩ := List.mem_map.mp hc
    exact List.mem_map_of_mem (hperm.subset (List.mem_of_mem_take hhit))
  · rw [List.take_of_length_le (by rw [hperm.length_eq]; exact hlength)]
    exact (hperm.map _).mem_iff.mpr hc

/-- **The vector index ranks a chunk once**, and what is similar if there is room. -/
theorem exists_vectorRanking (embedding : CodeChunk → Option (List ℝ))
    (embedQuery : Option (Text → List ℝ))
    {chunks : List CodeChunk} (hids : (chunks.map (·.id)).Nodup) (query : Text) (limit : ℕ) :
    ∃ vector, vectorRanking Real.sqrt embedding embedQuery chunks query limit = .ok vector ∧
      (∀ ranked ∈ vector, HybridRetriever.Ranking chunks "vector".toList ranked) ∧
      (∀ c, (∃ ranked ∈ vector, c ∈ ranked.map (·.chunk)) →
        c ∈ chunks ∧ ∃ embed ∈ embedQuery, Similar embedding (embed query) c) ∧
      (chunks.length ≤ limit → ∀ c ∈ chunks,
        (∃ embed ∈ embedQuery, Similar embedding (embed query) c) →
        ∃ ranked ∈ vector, c ∈ ranked.map (·.chunk)) := by
  cases embedQuery with
  | none => exact ⟨none, rfl, by simp, by simp, by simp⟩
  | some embed =>
    obtain ⟨hits, hsearch, hmap, hhits⟩ :=
      exists_vectorSearch (fun _ => Real.sqrt_pos.mpr) embedding (embed query) chunks limit
    rw [vectorRanking]
    split
    · refine ⟨some ((sortByScore (·.score) hits).take limit), by rw [hsearch]; rfl, ?_, ?_, ?_⟩
      · rintro ranked hranked
        obtain rfl := Option.some.inj hranked
        have hperm := List.perm_insertionSort (fun a b : ScoredChunk ℝ => b.score ≤ a.score) hits
        refine ⟨fun item hitem => ?_, fun item hitem => ?_, ?_⟩
        · have hmem := mem_ranked.1 (List.mem_map_of_mem (f := (·.chunk)) hitem)
          rw [hmap] at hmem
          exact List.mem_of_mem_filter hmem
        · exact (hhits item (hperm.subset (List.mem_of_mem_take hitem))).1
        · have hnodup := (hids.of_map _).filter (Similar embedding (embed query) ·)
          rw [← hmap] at hnodup
          exact ((hperm.map _).nodup_iff.mpr hnodup).sublist ((List.take_sublist _ _).map _)
      · rintro c ⟨ranked, hranked, hc⟩
        obtain rfl := Option.some.inj hranked
        have hmem := mem_ranked.1 hc
        rw [hmap] at hmem
        obtain ⟨hchunk, hsimilar⟩ := List.mem_filter.mp hmem
        exact ⟨hchunk, embed, rfl, of_decide_eq_true hsimilar⟩
      · rintro hlimit c hc ⟨embed', hembed, hsimilar⟩
        obtain rfl := Option.some.inj hembed
        have hlength : hits.length ≤ limit := by
          rw [← List.length_map (·.chunk), hmap]
          exact (List.length_filter_le _ _).trans hlimit
        refine ⟨_, rfl, mem_ranked.2 hlength ?_⟩
        rw [hmap]
        exact List.mem_filter.mpr ⟨hc, decide_eq_true hsimilar⟩
    · rename_i hdisabled
      refine ⟨none, rfl, by simp, by simp, ?_⟩
      rintro - c hc ⟨embed', hembed, v, hv, halike⟩
      -- nothing is embedded, so nothing is similar
      refine absurd ?_ hdisabled
      cases v with
      | nil => exact absurd halike not_alike_nil
      | cons x xs =>
        rw [VectorIndex.enabled, Bool.not_eq_true', List.isEmpty_eq_false_iff]
        refine List.ne_nil_of_mem (a := (c, x :: xs)) (List.mem_filterMap.mpr ⟨c, hc, ?_⟩)
        rw [Option.mem_def.mp hv]

/-- **Retrieval is exact**: a search never raises, fuses what its indexes find, and finds only
chunks that answer the query; with a limit of half the chunks, all of them. -/
theorem exists_searchAll (py : PyRuntime) (embedding : CodeChunk → Option (List ℝ))
    (embedQuery : Option (Text → List ℝ)) {chunks : List CodeChunk}
    (hids : (chunks.map (·.id)).Nodup) (query : Text) (limit : ℕ) :
    ∃ (named : List (Text × List (ScoredChunk ℝ))) (candidates results : List RetrievalResult),
      HybridRetriever.searchAll Real.sqrt embedding embedQuery chunks py Real.log query limit
        = .ok results ∧
      HybridRetriever.FusedExactly named candidates ∧
      HybridRetriever.BestOf candidates limit results ∧
      (∀ c, HybridRetriever.Occurs named c → c ∈ chunks ∧ Answers py embedding embedQuery query c) ∧
      (chunks.length ≤ limit * 2 → ∀ c ∈ chunks, Answers py embedding embedQuery query c →
        HybridRetriever.Occurs named c) := by
  obtain ⟨index, hinit, hindex⟩ := LexicalIndex.exists_init (R := ℝ) chunks
  obtain ⟨hits, hsearch, hmap, -⟩ :=
    LexicalIndex.exists_search (fun _ => Real.log_pos) hindex query (limit * 3)
  obtain ⟨vector, hvector, hvectors, hsimilar, hsimilar'⟩ :=
    exists_vectorRanking embedding embedQuery hids query (limit * 3)
  have hlexical := HybridRetriever.ranking_lexicalSearch (fun _ => Real.log_pos) hindex hids hsearch
  have hsymbol := HybridRetriever.ranking_symbolSearch (R := ℝ) py ⟨chunks, fun _ _ => [],
    none⟩ hids query (limit * 2)
  have hsymbols : (HybridRetriever.symbolSearch (R := ℝ) py ⟨chunks, fun _ _ => [],
    none⟩ query (limit * 2)).map
      (·.chunk) = (chunks.filter (Reranker.namedIn py (tokenize query).dedup)).take
        (limit * 2) := by
    rw [HybridRetriever.symbolSearch, List.map_take, List.map_map]
    exact congrArg (List.take (limit * 2)) (List.map_id' _)
  generalize hsymbolRanked :
    HybridRetriever.symbolSearch (R := ℝ) py ⟨chunks, fun _ _ => [], none⟩ query (limit * 2)
    = symbol at *
  have hfused := HybridRetriever.fusedExactly hids
    (HybridRetriever.ranking_namedRankings hlexical hsymbol hvectors)
      (HybridRetriever.pairwise_namedRankings _ symbol vector)
  rw [HybridRetriever.map_namedRankings] at hfused
  refine ⟨_, _, _, ?_, hfused, HybridRetriever.bestOf py hfused.distinct query limit, ?_, ?_⟩
  · rw [HybridRetriever.searchAll, hinit]
    dsimp only [bind, Except.bind]
    rw [hsearch]
    dsimp only [bind, Except.bind]
    rw [hvector, hsymbolRanked]
    rfl
  · rintro c ⟨p, hp, hc⟩
    simp only [HybridRetriever.namedRankings, List.mem_cons] at hp
    rcases hp with rfl | rfl | hp
    · have hmem := mem_ranked.1 hc
      rw [hmap] at hmem
      obtain ⟨hchunk, hshares⟩ := List.mem_filter.mp hmem
      exact ⟨hchunk, .inl (of_decide_eq_true hshares)⟩
    · rw [hsymbols] at hc
      obtain ⟨hchunk, hnamed⟩ := List.mem_filter.mp (List.mem_of_mem_take hc)
      exact ⟨hchunk, .inr (.inl hnamed)⟩
    · obtain ⟨ranked, hranked, rfl⟩ := List.mem_map.mp hp
      obtain ⟨hchunk, hanswer⟩ := hsimilar c ⟨ranked, Option.mem_toList.mp hranked, hc⟩
      exact ⟨hchunk, .inr (.inr hanswer)⟩
  · rintro hlimit c hc (hshares | hnamed | hanswer)
    · have hlength : hits.length ≤ limit * 3 := by
        have hle : hits.length ≤ chunks.length := by
          rw [← List.length_map (·.chunk), hmap]
          exact List.length_filter_le _ _
        omega
      refine ⟨_, List.mem_cons_self, mem_ranked.2 hlength ?_⟩
      rw [hmap]
      exact List.mem_filter.mpr ⟨hc, decide_eq_true hshares⟩
    · refine ⟨_, List.mem_cons_of_mem _ List.mem_cons_self, ?_⟩
      rw [hsymbols, List.take_of_length_le ((List.length_filter_le _ _).trans hlimit)]
      exact List.mem_filter.mpr ⟨hc, hnamed⟩
    · obtain ⟨ranked, hranked, hmem⟩ := hsimilar' (by omega) c hc hanswer
      refine ⟨("vector".toList, ranked), ?_, hmem⟩
      simp only [HybridRetriever.namedRankings, List.mem_cons]
      exact .inr (.inr (List.mem_map_of_mem (Option.mem_toList.mpr hranked)))

end AgentPlatform
