import AgentPlatform.Retrieval.Lexical
import AgentPlatform.Retrieval.Parser
import AgentPlatform.Tools.ReadTools

/-!
# Retrieval/Hybrid — reciprocal rank fusion and reranking

`HybridRetriever.search` fuses the rankings of its indexes into one list of candidates, each with
the sum of its reciprocal ranks and the indexes it came from, and hands the best to `rerank`.  The
scores are rational.

* `rankFusion_exact` — the candidates are the chunks of the rankings, with exactly the score and the
  sources the rankings give them, and the results are the best of them, each once and in order.
-/

namespace AgentPlatform

open LexicalIndex (sortByScore)

/-! ## Candidates -/

/-- `RetrievalResult`. -/
structure RetrievalResult where
  chunk : CodeChunk
  score : ℚ
  sources : List Text
  deriving DecidableEq

namespace HybridRetriever

/-- `RRF_K`. -/
def rrfK : ℕ := 60

variable {R : Type}

/-- An entry of `fused`. -/
structure Fused where
  chunk : CodeChunk
  score : ℚ
  sources : List Text

/-- `1.0 / (RRF_K + position)`. -/
def reciprocal (position : ℕ) : ℚ := 1 / (rrfK + position)

/-- The loop over the positions of a ranked list. -/
def fuseRanked (fused : List (String × Fused))
    (ranked : List (ScoredChunk R)) : List (String × Fused) :=
  Grouping.gather (fun item => item.1.chunk.id)
    (fun item => ⟨item.1.chunk, reciprocal item.2, [item.1.source]⟩)
    (fun entry item => ⟨entry.chunk, entry.score + reciprocal item.2,
      entry.sources ++ [item.1.source]⟩)
    fused (ranked.zipIdx 1)

/-- `fused`, behind the loop over the ranked lists. -/
def fuse (rankedLists : List (List (ScoredChunk R))) : List (String × Fused) :=
  rankedLists.foldl fuseRanked []

/-- `candidates`, sorted. -/
def candidates (rankedLists : List (List (ScoredChunk R))) : List RetrievalResult :=
  sortByScore (·.score) ((fuse rankedLists).map fun entry =>
    ⟨entry.2.chunk, entry.2.score, ReadTools.sortedSet entry.2.sources⟩)

end HybridRetriever

/-! ## The reranker -/

namespace Reranker

/-- `TEST_MARKERS`. -/
def testMarkers : List Text := ["test".toList, "spec".toList, "fixture".toList]

/-- `BEHAVIOUR_MARKERS`. -/
def behaviourMarkers : List Text :=
  ["service".toList, "controller".toList, "handler".toList, "repository".toList, "manager".toList]

variable (py : PyRuntime)

/-- `chunk.symbol_name and chunk.symbol_name.lower() in terms`. -/
def namedIn (terms : List Text) (chunk : CodeChunk) : Bool :=
  match chunk.symbolName with
  | some name => name ≠ [] && terms.contains (py.lower name)
  | none => false

/-- `_feature_score`. -/
def featureScore (queryTerms : List Text) (result : RetrievalResult) : ℚ :=
  let chunk := result.chunk
  let path := py.lower chunk.filePath
  let body := py.lower chunk.content
  let overlap := (queryTerms.filter fun term => Text.contains term body).length
  (if namedIn py queryTerms chunk then 2 else 0)
    + (if queryTerms.any fun term => Text.contains term path then 1 else 0)
    + (if behaviourMarkers.any fun marker => Text.contains marker path then 1 / 2 else 0)
    - (if testMarkers.any fun marker => Text.contains marker path then 2 / 5 else 0)
    + (if chunk.symbolKind ∈ [some "method".toList, some "function".toList] then 3 / 10 else 0)
    + (min overlap 6 : ℕ) * (3 / 20)
    - (if chunk.endLine - chunk.startLine < 3 then 3 / 10 else 0)

/-- `max(candidate.score for candidate in candidates) or 1.0`. -/
def highest (candidates : List RetrievalResult) : ℚ :=
  let best := ((candidates.map (·.score)).max?).getD 0
  if best = 0 then 1 else best

/-- One turn of the loop of `rerank`. -/
def rescore (terms : List Text) (highest : ℚ) (candidate : RetrievalResult) : RetrievalResult :=
  { candidate with score := candidate.score / highest + featureScore py terms candidate }

/-- `rerank`. -/
def rerank (query : Text) (candidates : List RetrievalResult) : List RetrievalResult :=
  let terms := (tokenize query).dedup
  if candidates = [] then []
  else sortByScore (·.score) (candidates.map (rescore py terms (highest candidates)))

end Reranker

/-! ## The retriever -/

/-- `HybridRetriever`, with the searches of its indexes. -/
structure HybridRetriever (R : Type) where
  chunks : List CodeChunk
  /-- `lexical.search(query, limit)`. -/
  lexical : Text → ℕ → List (ScoredChunk R)
  /-- `vector.search(embedding, limit)` of the query's embedding, with an embedder and embedded
  chunks. -/
  vector : Option (Text → ℕ → List (ScoredChunk R))

namespace HybridRetriever

variable {R : Type} (py : PyRuntime)

/-- `symbol_search`. -/
def symbolSearch [One R] (retriever : HybridRetriever R) (query : Text)
    (limit : ℕ) : List (ScoredChunk R) :=
  let terms := (tokenize query).dedup
  ((retriever.chunks.filter (Reranker.namedIn py terms)).map
    fun chunk => ⟨chunk, 1, "symbol".toList⟩).take limit

/-- What `search` makes of its ranked lists. -/
def results (query : Text) (limit : ℕ)
    (rankedLists : List (List (ScoredChunk R))) : List RetrievalResult :=
  (Reranker.rerank py query ((candidates rankedLists).take (limit * 3))).take limit

/-- `ranked_lists`. -/
def rankedLists (lexical symbol : List (ScoredChunk R)) (vector : Option (List (ScoredChunk R))) :
    List (List (ScoredChunk R)) := [lexical, symbol] ++ vector.toList

/-- `search`. -/
def search [One R] (retriever : HybridRetriever R) (query : Text)
    (limit : ℕ) : List RetrievalResult :=
  results py query limit (rankedLists (retriever.lexical query (limit * 3))
    (retriever.symbolSearch py query (limit * 2)) (retriever.vector.map fun search =>
      search query (limit * 3)))

/-! ## What a fusion is worth -/

/-- A ranking of some of the chunks, none of them twice, by one of the indexes. -/
structure Ranking (chunks : List CodeChunk) (source : Text)
    (ranked : List (ScoredChunk R)) : Prop where
  mem : ∀ item ∈ ranked, item.chunk ∈ chunks
  source_eq : ∀ item ∈ ranked, item.source = source
  nodup : (ranked.map (·.chunk)).Nodup

/-- `1 / (60 + rank)`, if the chunk has a rank. -/
def share (c : CodeChunk) (ranked : List (ScoredChunk R)) : ℚ :=
  if c ∈ ranked.map (·.chunk) then 1 / (60 + ((ranked.map (·.chunk)).idxOf c + 1)) else 0

/-- The chunk occurs in a ranking. -/
def Occurs (named : List (Text × List (ScoredChunk R))) (c : CodeChunk) : Prop :=
  ∃ p ∈ named, c ∈ p.2.map (·.chunk)

instance (named : List (Text × List (ScoredChunk R))) : DecidablePred (Occurs named) := fun c =>
  inferInstanceAs (Decidable (∃ p ∈ named, c ∈ p.2.map (·.chunk)))

/-- The rankings a chunk occurs in. -/
def sourcesOf (named : List (Text × List (ScoredChunk R))) (c : CodeChunk) : List Text :=
  (named.filter fun p => c ∈ p.2.map (·.chunk)).map (·.1)

/-- **The candidates are the fused rankings**: the chunks that occur, each once, with the sum of
their shares and exactly their sources. -/
structure FusedExactly (named : List (Text × List (ScoredChunk R)))
    (candidates : List RetrievalResult) : Prop where
  chunks : ∀ c, (∃ result ∈ candidates, result.chunk = c) ↔ Occurs named c
  score : ∀ result ∈ candidates, result.score = (named.map fun p => share result.chunk p.2).sum
  sources : ∀ result ∈ candidates, result.sources = sourcesOf named result.chunk
  distinct : (candidates.map (·.chunk.id)).Nodup

/-- **The results are the best of the candidates**, each once and in order. -/
structure BestOf (candidates : List RetrievalResult) (limit : ℕ)
    (results : List RetrievalResult) : Prop where
  distinct : (results.map (·.chunk.id)).Nodup
  chunks : ∀ result ∈ results, ∃ candidate ∈ candidates, candidate.chunk = result.chunk
  length_eq : results.length = min limit candidates.length
  sorted : results.Pairwise fun a b => b.score ≤ a.score

/-! ## One chunk -/

section Votes

variable {chunks : List CodeChunk} {c : CodeChunk} {source : Text} {ranked : List (ScoredChunk R)}
  {named : List (Text × List (ScoredChunk R))}

/-- What a ranking adds to the entry of a chunk at a position of it. -/
def vote (c : CodeChunk) (source : Text) (position : ℕ) (entry : Option Fused) : Option Fused :=
  some (entry.elim ⟨c, reciprocal position, [source]⟩ fun entry =>
    ⟨entry.chunk, entry.score + reciprocal position, entry.sources ++ [source]⟩)

/-- Distinct ids tell the chunks apart. -/
theorem chunk_eq_of_id (hids : (chunks.map (·.id)).Nodup) {d : CodeChunk} (hc : c ∈ chunks)
    (hd : d ∈ chunks) (h : d.id = c.id) : d = c :=
  List.inj_on_of_nodup_map hids hd hc h

/-- What an item of a ranking makes of its entry. -/
def feedItem (entry : Option Fused) (item : ScoredChunk R × ℕ) : Option Fused :=
  vote item.1.chunk item.1.source item.2 entry

theorem Ranking.tail {item : ScoredChunk R} (h : Ranking chunks source (item :: ranked)) :
    Ranking chunks source ranked where
  mem i hi := h.mem i (List.mem_cons_of_mem item hi)
  source_eq i hi := h.source_eq i (List.mem_cons_of_mem item hi)
  nodup := (List.nodup_cons.mp h.nodup).2

/-- The items of a chunk are at most one, at its place. -/
theorem foldl_feedItem (hids : (chunks.map (·.id)).Nodup) (hc : c ∈ chunks)
    (h : Ranking chunks source ranked) (start : ℕ) (entry : Option Fused) :
    ((ranked.zipIdx start).filter fun item => item.1.chunk.id = c.id).foldl feedItem entry =
      if c ∈ ranked.map (·.chunk) then vote c source ((ranked.map (·.chunk)).idxOf c + start) entry
      else entry := by
  induction ranked generalizing entry start with
  | nil => rfl
  | cons item ranked ih =>
    rw [List.zipIdx_cons, List.filter_cons, List.map_cons]
    by_cases hitem : item.chunk = c
    · have hsource := h.source_eq item List.mem_cons_self
      have hrest : c ∉ ranked.map (·.chunk) := hitem ▸ (List.nodup_cons.mp h.nodup).1
      rw [if_pos (by simp [hitem]), List.foldl_cons, ih h.tail, if_neg hrest, hitem,
        if_pos List.mem_cons_self, List.idxOf_cons_self, Nat.zero_add, feedItem, hitem, hsource]
    · have hid : item.chunk.id ≠ c.id := fun hid =>
        hitem (chunk_eq_of_id hids hc (h.mem item List.mem_cons_self) hid)
      have hmem : c ∈ item.chunk :: ranked.map (·.chunk) ↔ c ∈ ranked.map (·.chunk) := by
        rw [List.mem_cons, or_iff_right (Ne.symm hitem)]
      rw [if_neg (by simpa using hid), ih h.tail, List.idxOf_cons_ne _ hitem]
      simp only [hmem, Nat.succ_eq_add_one, Nat.add_assoc, Nat.add_comm 1 start]

/-- **A ranking votes once for a chunk**, if it has it. -/
theorem value_fuseRanked (hids : (chunks.map (·.id)).Nodup) (hc : c ∈ chunks)
    (h : Ranking chunks source ranked) (fused : List (String × Fused)) :
    Grouping.value (fuseRanked fused ranked) c.id =
      if c ∈ ranked.map (·.chunk) then
        vote c source ((ranked.map (·.chunk)).idxOf c + 1) (Grouping.value fused c.id)
      else Grouping.value fused c.id := by
  rw [fuseRanked, Grouping.value_gather]
  exact foldl_feedItem hids hc h 1 _

theorem share_of_mem (h : c ∈ ranked.map (·.chunk)) :
    share c ranked = reciprocal ((ranked.map (·.chunk)).idxOf c + 1) := by
  rw [share, if_pos h, reciprocal, rrfK]
  push_cast
  rfl

theorem share_of_not_mem (h : c ∉ ranked.map (·.chunk)) : share c ranked = 0 := if_neg h

theorem sourcesOf_cons (p : Text × List (ScoredChunk R)) : sourcesOf (p :: named) c =
    if c ∈ p.2.map (·.chunk) then p.1 :: sourcesOf named c else sourcesOf named c := by
  rw [sourcesOf, List.filter_cons]
  simp only [decide_eq_true_eq]
  split <;> rfl

/-- What the rankings make of an entry that is open. -/
theorem value_foldl_fuseRanked (hids : (chunks.map (·.id)).Nodup) (hc : c ∈ chunks)
    (h : ∀ p ∈ named, Ranking chunks p.1 p.2) (fused : List (String × Fused)) {entry : Fused}
    (hentry : Grouping.value fused c.id = some entry) :
    Grouping.value ((named.map (·.2)).foldl fuseRanked fused) c.id =
      some ⟨entry.chunk, entry.score + (named.map fun p => share c p.2).sum,
        entry.sources ++ sourcesOf named c⟩ := by
  induction named generalizing fused entry with
  | nil =>
    rw [List.map_nil, List.foldl_nil, hentry]
    simp [sourcesOf]
  | cons p named ih =>
    obtain ⟨hp, hnamed⟩ := List.forall_mem_cons.mp h
    have hvalue := value_fuseRanked hids hc hp fused
    rw [List.map_cons, List.foldl_cons, List.map_cons, List.sum_cons, sourcesOf_cons]
    by_cases hmem : c ∈ p.2.map (·.chunk)
    · rw [if_pos hmem, hentry] at hvalue
      rw [ih hnamed _ hvalue, if_pos hmem, share_of_mem hmem, Option.elim_some, add_assoc,
        List.append_assoc]
      rfl
    · rw [if_neg hmem, hentry] at hvalue
      rw [ih hnamed _ hvalue, if_neg hmem, share_of_not_mem hmem, zero_add]

theorem occurs_cons_iff (p : Text × List (ScoredChunk R)) :
    Occurs (p :: named) c ↔ c ∈ p.2.map (·.chunk) ∨ Occurs named c :=
  List.exists_mem_cons_iff _ _ _

/-- …and of one that is not. -/
theorem value_foldl_fuseRanked_of_none (hids : (chunks.map (·.id)).Nodup) (hc : c ∈ chunks)
    (h : ∀ p ∈ named, Ranking chunks p.1 p.2) (fused : List (String × Fused))
    (hentry : Grouping.value fused c.id = none) :
    Grouping.value ((named.map (·.2)).foldl fuseRanked fused) c.id =
      if Occurs named c then some ⟨c, (named.map fun p => share c p.2).sum, sourcesOf named c⟩
        else none := by
  induction named generalizing fused with
  | nil =>
    rw [if_neg (by simp [Occurs])]
    exact hentry
  | cons p named ih =>
    obtain ⟨hp, hnamed⟩ := List.forall_mem_cons.mp h
    have hvalue := value_fuseRanked hids hc hp fused
    rw [hentry] at hvalue
    rw [List.map_cons, List.foldl_cons, List.map_cons, List.sum_cons, sourcesOf_cons]
    by_cases hmem : c ∈ p.2.map (·.chunk)
    · rw [if_pos hmem] at hvalue
      rw [value_foldl_fuseRanked hids hc hnamed _ hvalue,
        if_pos ((occurs_cons_iff p).mpr (.inl hmem)), if_pos hmem, share_of_mem hmem]
      rfl
    · rw [if_neg hmem] at hvalue
      rw [ih hnamed _ hvalue, if_neg hmem, share_of_not_mem hmem, zero_add]
      simp only [occurs_cons_iff, hmem, false_or]

/-! ## The candidates -/

theorem nodup_fuse (rankedLists : List (List (ScoredChunk R))) :
    ((fuse rankedLists).map (·.1)).Nodup := by
  have hfold : ∀ (fused : List (String × Fused)), (fused.map (·.1)).Nodup →
      ((rankedLists.foldl fuseRanked fused).map (·.1)).Nodup := by
    induction rankedLists with
    | nil => exact fun _ h => h
    | cons ranked rankedLists ih => exact fun fused h => ih _ (Grouping.nodup_gather h)
  exact hfold [] List.nodup_nil

/-- The keys are ids of chunks that occur. -/
theorem exists_of_mem_keys {k : String} {fused : List (String × Fused)}
    (h : k ∈ ((named.map (·.2)).foldl fuseRanked fused).map (·.1)) :
    k ∈ fused.map (·.1) ∨ ∃ c, Occurs named c ∧ c.id = k := by
  induction named generalizing fused with
  | nil => exact .inl h
  | cons p named ih =>
    obtain hkey | ⟨c, hc, hid⟩ := ih h
    · obtain hkey | ⟨item, hitem, hid⟩ := Grouping.mem_keys_gather.mp hkey
      · exact .inl hkey
      · have hmem := List.mem_map_of_mem (f := (·.chunk)) (List.fst_mem_of_mem_zipIdx hitem)
        exact .inr ⟨item.1.chunk, (occurs_cons_iff p).mpr (.inl hmem), hid⟩
    · exact .inr ⟨c, (occurs_cons_iff p).mpr (.inr hc), hid⟩

/-- **What the fusion holds.** -/
theorem mem_fuse_iff (hids : (chunks.map (·.id)).Nodup) (h : ∀ p ∈ named, Ranking chunks p.1 p.2)
    {entry : String × Fused} : entry ∈ fuse (named.map (·.2)) ↔ ∃ c, Occurs named c ∧
      entry = (c.id, ⟨c, (named.map fun p => share c p.2).sum, sourcesOf named c⟩) := by
  have hchunk : ∀ {c}, Occurs named c → c ∈ chunks := fun ⟨p, hp, hc⟩ => by
    obtain ⟨item, hitem, rfl⟩ := List.mem_map.mp hc
    exact (h p hp).mem item hitem
  have hvalue : ∀ {c}, Occurs named c → Grouping.value (fuse (named.map (·.2))) c.id =
      some ⟨c, (named.map fun p => share c p.2).sum, sourcesOf named c⟩ := fun hc => by
    rw [fuse, value_foldl_fuseRanked_of_none hids (hchunk hc) h [] rfl, if_pos hc]
  obtain ⟨k, e⟩ := entry
  rw [← Grouping.value_eq_some_iff (nodup_fuse _)]
  constructor
  · intro hentry
    have hkey : k ∈ (fuse (named.map (·.2))).map (·.1) :=
      List.mem_map.mpr ⟨(k, e), (Grouping.value_eq_some_iff (nodup_fuse _)).mp hentry, rfl⟩
    obtain ⟨c, hc, rfl⟩ := (exists_of_mem_keys hkey).resolve_left List.not_mem_nil
    rw [hvalue hc] at hentry
    exact ⟨c, hc, by rw [Option.some.inj hentry]⟩
  · rintro ⟨c, hc, hentry⟩
    obtain ⟨rfl, rfl⟩ := Prod.mk.inj hentry
    exact hvalue hc

/-- A fused entry as a candidate. -/
theorem exists_entry {result : RetrievalResult} {rankedLists : List (List (ScoredChunk R))} :
    result ∈ candidates rankedLists ↔ ∃ entry ∈ fuse rankedLists,
      ⟨entry.2.chunk, entry.2.score, ReadTools.sortedSet entry.2.sources⟩ = result := by
  rw [candidates, sortByScore, List.mem_insertionSort, List.mem_map]

/-- The names of sources that stand in order stay as they are. -/
theorem sortedSet_sourcesOf (hnames : (named.map (·.1)).Pairwise (· < ·)) :
    ReadTools.sortedSet (sourcesOf named c) = sourcesOf named c := by
  have hsublist : (sourcesOf named c).Sublist (named.map (·.1)) := List.filter_sublist.map _
  have hpairwise := hnames.sublist hsublist
  rw [ReadTools.sortedSet, List.Nodup.dedup (hpairwise.imp ne_of_lt)]
  exact (hpairwise.imp le_of_lt).insertionSort_eq

/-- **Fusion is exact.** -/
theorem fusedExactly (hids : (chunks.map (·.id)).Nodup) (h : ∀ p ∈ named, Ranking chunks p.1 p.2)
    (hnames : (named.map (·.1)).Pairwise (· < ·)) :
    FusedExactly named (candidates (named.map (·.2))) := by
  have hmem : ∀ {result}, result ∈ candidates (named.map (·.2)) ↔ ∃ c, Occurs named c ∧
      result = ⟨c, (named.map fun p => share c p.2).sum, sourcesOf named c⟩ := by
    intro result
    rw [exists_entry]
    constructor
    · rintro ⟨entry, hentry, rfl⟩
      obtain ⟨c, hc, rfl⟩ := (mem_fuse_iff hids h).mp hentry
      exact ⟨c, hc, by rw [sortedSet_sourcesOf hnames]⟩
    · rintro ⟨c, hc, rfl⟩
      exact ⟨_, (mem_fuse_iff hids h).mpr ⟨c, hc, rfl⟩, by rw [sortedSet_sourcesOf hnames]⟩
  refine ⟨fun c => ⟨?_, fun hc => ⟨_, hmem.mpr ⟨c, hc, rfl⟩, rfl⟩⟩, fun result hresult => ?_,
    fun result hresult => ?_, ?_⟩
  · rintro ⟨result, hresult, rfl⟩
    obtain ⟨c, hc, rfl⟩ := hmem.mp hresult
    exact hc
  · obtain ⟨c, -, rfl⟩ := hmem.mp hresult
    rfl
  · obtain ⟨c, -, rfl⟩ := hmem.mp hresult
    rfl
  · have hkeys : (fuse (named.map (·.2))).map (·.2.chunk.id) = (fuse (named.map (·.2))).map (·.1) :=
      List.map_congr_left fun entry hentry => by
        obtain ⟨c, -, rfl⟩ := (mem_fuse_iff hids h).mp hentry
        rfl
    rw [candidates, sortByScore, ((List.perm_insertionSort _ _).map _).nodup_iff, List.map_map]
    exact hkeys ▸ nodup_fuse _

/-! ## The results -/

/-- Reranking gives every candidate a score, and sorts. -/
theorem rerank_eq (query : Text) (found : List RetrievalResult) : Reranker.rerank py query found =
    sortByScore (·.score) (found.map
      (Reranker.rescore py (tokenize query).dedup (Reranker.highest found))) := by
  rw [Reranker.rerank]
  split
  · next hnil =>
    rw [hnil]
    rfl
  · rfl

/-- It loses no chunk and repeats none. -/
theorem chunks_rerank (query : Text) (found : List RetrievalResult) :
    ((Reranker.rerank py query found).map (·.chunk)).Perm (found.map (·.chunk)) := by
  have hperm := (List.perm_insertionSort (fun a b : RetrievalResult => b.score ≤ a.score)
    (found.map (Reranker.rescore py (tokenize query).dedup (Reranker.highest found)))).map (·.chunk)
  rw [List.map_map] at hperm
  rw [rerank_eq]
  exact hperm

/-- **The results are the best of the candidates.** -/
theorem bestOf {rankedLists : List (List (ScoredChunk R))}
    (hdistinct : ((candidates rankedLists).map (·.chunk.id)).Nodup) (query : Text) (limit : ℕ) :
    BestOf (candidates rankedLists) limit (results py query limit rankedLists) := by
  have hperm := chunks_rerank py query ((candidates rankedLists).take (limit * 3))
  refine ⟨?_, fun result hresult => ?_, ?_, ?_⟩
  · have hids := (hperm.map (·.id)).nodup_iff
    rw [List.map_map, List.map_map] at hids
    have hranked := hids.mpr (hdistinct.sublist ((List.take_sublist _ _).map _))
    exact hranked.sublist ((List.take_sublist limit _).map _)
  · have hchunk := hperm.subset (List.mem_map_of_mem (List.mem_of_mem_take hresult))
    obtain ⟨candidate, hcandidate, heq⟩ := List.mem_map.mp hchunk
    exact ⟨candidate, List.mem_of_mem_take hcandidate, heq⟩
  · have hlength := hperm.length_eq
    rw [List.length_map, List.length_map, List.length_take] at hlength
    rw [results, List.length_take, hlength]
    omega
  · rw [results, rerank_eq]
    exact (List.pairwise_insertionSort _ _).sublist (List.take_sublist _ _)

end Votes

/-! ## The rankings of the indexes -/

section Rankings

variable {chunks : List CodeChunk}

/-- The rankings under the names of their indexes. -/
def namedRankings (lexical symbol : List (ScoredChunk R)) (vector : Option (List (ScoredChunk R))) :
    List (Text × List (ScoredChunk R)) :=
  ("lexical".toList, lexical) :: ("symbol".toList, symbol) :: vector.toList.map ("vector".toList, ·)

theorem map_namedRankings (lexical symbol : List (ScoredChunk R))
    (vector : Option (List (ScoredChunk R))) :
    (namedRankings lexical symbol vector).map (·.2) = rankedLists lexical symbol vector := by
  cases vector <;> rfl

theorem pairwise_namedRankings (lexical symbol : List (ScoredChunk R))
    (vector : Option (List (ScoredChunk R))) :
    ((namedRankings lexical symbol vector).map (·.1)).Pairwise (· < ·) := by
  have hnames : ["lexical".toList, "symbol".toList, "vector".toList].Pairwise (· < ·) := by decide
  cases vector with
  | none => exact hnames.sublist (List.sublist_append_left ["lexical".toList, "symbol".toList] _)
  | some vector => exact hnames

theorem ranking_namedRankings {lexical symbol : List (ScoredChunk R)}
    {vector : Option (List (ScoredChunk R))}
    (hlexical : Ranking chunks "lexical".toList lexical)
    (hsymbol : Ranking chunks "symbol".toList symbol)
    (hvector : ∀ ranked ∈ vector, Ranking chunks "vector".toList ranked) :
    ∀ p ∈ namedRankings lexical symbol vector, Ranking chunks p.1 p.2 := by
  refine List.forall_mem_cons.mpr ⟨hlexical, List.forall_mem_cons.mpr ⟨hsymbol, fun p hp => ?_⟩⟩
  obtain ⟨ranked, hranked, rfl⟩ := List.mem_map.mp hp
  exact hvector ranked (Option.mem_toList.mp hranked)

/-- **The symbol search ranks a chunk once.** -/
theorem ranking_symbolSearch [One R] (retriever : HybridRetriever R)
    (hids : (retriever.chunks.map (·.id)).Nodup) (query : Text) (limit : ℕ) :
    Ranking retriever.chunks "symbol".toList (retriever.symbolSearch py query limit) := by
  have hchunks : (retriever.symbolSearch py query limit).map (·.chunk)
      = (retriever.chunks.filter (Reranker.namedIn py (tokenize query).dedup)).take limit := by
    rw [symbolSearch, List.map_take, List.map_map]
    exact congrArg (List.take limit) (List.map_id' _)
  refine ⟨fun item hitem => ?_, fun item hitem => ?_, ?_⟩
  · have hmem := List.mem_map_of_mem (f := (·.chunk)) hitem
    rw [hchunks] at hmem
    exact List.mem_of_mem_filter (List.mem_of_mem_take hmem)
  · obtain ⟨c, -, rfl⟩ := List.mem_map.mp (List.mem_of_mem_take hitem)
    rfl
  · rw [hchunks]
    exact ((hids.of_map _).filter _).sublist (List.take_sublist _ _)

/-- **The lexical search ranks a chunk once.** -/
theorem ranking_lexicalSearch [Field R] [LinearOrder R] [IsStrictOrderedRing R] {log : R → R}
    (hlog : ∀ x, 1 < x → 0 < log x) {index : LexicalIndex R} (hindex : index.Indexes chunks)
    (hids : (chunks.map (·.id)).Nodup) {query : Text} {limit : ℕ} {ranked : List (ScoredChunk R)}
    (h : index.search log query limit = .ok ranked) : Ranking chunks "lexical".toList ranked := by
  obtain ⟨hits, hsearch, hchunks, hsource⟩ := LexicalIndex.exists_search hlog hindex query limit
  obtain rfl := Except.ok.inj (hsearch.symm.trans h)
  have hperm := List.perm_insertionSort (fun a b : ScoredChunk R => b.score ≤ a.score) hits
  refine ⟨fun item hitem => ?_, fun item hitem => ?_, ?_⟩
  · have hmem := List.mem_map_of_mem (f := (·.chunk)) (hperm.subset (List.mem_of_mem_take hitem))
    rw [hchunks] at hmem
    exact List.mem_of_mem_filter hmem
  · exact hsource item (hperm.subset (List.mem_of_mem_take hitem))
  · have hnodup := ((hids.of_map _).filter (LexicalIndex.Shares query ·))
    rw [← hchunks] at hnodup
    exact ((hperm.map _).nodup_iff.mpr hnodup).sublist ((List.take_sublist _ _).map _)

/-- **A search with rankings of its own**: the symbols are ranked by the retriever itself. -/
theorem search_best [One R] (retriever : HybridRetriever R)
    (hids : (retriever.chunks.map (·.id)).Nodup) (query : Text) (limit : ℕ)
    (hlexical : Ranking retriever.chunks "lexical".toList (retriever.lexical query (limit * 3)))
    (hvector : ∀ ranked ∈ retriever.vector.map fun search => search query (limit * 3),
      Ranking retriever.chunks "vector".toList ranked) :
    BestOf (candidates (rankedLists (retriever.lexical query (limit * 3))
        (retriever.symbolSearch py query (limit * 2)) (retriever.vector.map fun search =>
          search query (limit * 3))))
      limit (retriever.search py query limit) := by
  have hsymbol := ranking_symbolSearch py retriever hids query (limit * 2)
  have hfused := fusedExactly hids (ranking_namedRankings hlexical hsymbol hvector)
    (pairwise_namedRankings _ _ _)
  rw [map_namedRankings] at hfused
  exact bestOf py hfused.distinct query limit

end Rankings

/-- **Rank fusion is exact.** -/
theorem rankFusion_exact {chunks : List CodeChunk} (hids : (chunks.map (·.id)).Nodup)
    (query : Text) (limit : ℕ)
    {lexical symbol : List (ScoredChunk R)} {vector : Option (List (ScoredChunk R))}
    (hlexical : Ranking chunks "lexical".toList lexical)
    (hsymbol : Ranking chunks "symbol".toList symbol)
    (hvector : ∀ ranked ∈ vector, Ranking chunks "vector".toList ranked) :
    FusedExactly (namedRankings lexical symbol vector)
      (candidates (rankedLists lexical symbol vector)) ∧
      BestOf (candidates (rankedLists lexical symbol vector)) limit
        (results py query limit (rankedLists lexical symbol vector)) := by
  have hfused := fusedExactly hids (ranking_namedRankings hlexical hsymbol hvector)
    (pairwise_namedRankings lexical symbol vector)
  rw [map_namedRankings] at hfused
  exact ⟨hfused, bestOf py hfused.distinct query limit⟩

/-- The chunks of an index, ranked as they stand. -/
def ranked (source : Text) (chunks : List CodeChunk) : List (ScoredChunk ℚ) :=
  chunks.map (⟨·, 1, source⟩)

theorem rankFusion_orderChunks :
    FusedExactly (namedRankings (ranked "lexical".toList orderChunks)
        (ranked "symbol".toList (orderChunks.take 1)) none)
      (candidates (rankedLists (ranked "lexical".toList orderChunks)
        (ranked "symbol".toList (orderChunks.take 1)) none)) ∧
    BestOf (candidates (rankedLists (ranked "lexical".toList orderChunks)
        (ranked "symbol".toList (orderChunks.take 1)) none)) 1
      (results ReadTools.literalPy "CancelOrder".toList 1
        (rankedLists (ranked "lexical".toList orderChunks)
        (ranked "symbol".toList (orderChunks.take 1)) none)) :=
  rankFusion_exact ReadTools.literalPy (show (orderChunks.map (·.id)).Nodup by decide)
    "CancelOrder".toList 1
    ⟨by decide, by decide, by decide⟩ ⟨by decide, by decide, by decide⟩ (fun _ h => by cases h)

example : (candidates (rankedLists (ranked "lexical".toList orderChunks)
    (ranked "symbol".toList (orderChunks.take 1)) none)).map (fun c => (c.chunk.id, c.score))
      = [("c1", 2 / 61), ("c2", 1 / 62)] := by decide +kernel

end HybridRetriever

end AgentPlatform
