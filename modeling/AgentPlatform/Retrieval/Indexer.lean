import AgentPlatform.Machinery.Grouping
import AgentPlatform.Machinery.Runs
import AgentPlatform.Machinery.Sha256
import AgentPlatform.Retrieval.Chunker
import AgentPlatform.Retrieval.Retriever

/-!
# Retrieval/Indexer — the index, from the working tree to a citation

`index_repository` scans a tree, cuts its files into chunks, embeds them if it is given an embedder,
and replaces the rows of the repository; it is one transaction, so what raises leaves the tables as
they were.  The identifiers it draws are an input.

* `index_holds` — after any sequence of indexings, of any repositories, the rows of a repository are
  the chunks of the files it was last indexed with, and its `chunk_count` is their number; the next
  indexing leaves the rows of the other repositories alone.
* `retrieval_cites` — a search over them returns chunks whose file was scanned and whose content is
  the lines they cite.
-/

namespace AgentPlatform

open PosixPath Symlinks ReadTools Scanner Chunker

/-! ## Rows -/

/-- `Repository`, under its id. -/
structure RepositoryRow where
  url : Text
  path : Location
  defaultBranch : Text
  languages : List Text
  chunkCount : ℕ
  /-- `indexed_at` is set. -/
  indexed : Bool

/-- A row of `code_chunks`. -/
structure ChunkRow (F : Type) where
  repositoryId : Text
  chunk : CodeChunk
  language : String
  embedding : Option (List F)
  /-- `meta["lines"]`. -/
  lines : ℤ

/-- The row of a chunk, under an id. -/
def rowOf (F : Type) (repositoryId : Text) (c : Chunk) (id : String) : ChunkRow F :=
  ⟨repositoryId, ⟨id, c.filePath, c.symbolName, c.symbolKind, c.startLine, c.endLine, c.content⟩,
    c.language, none, c.endLine - c.startLine + 1⟩

/-- A row without its id and its embedding. -/
def ChunkRow.bare {F : Type} (row : ChunkRow F) : ChunkRow F :=
  { row with chunk := { row.chunk with id := "" }, embedding := none }

/-- The tables of the index. -/
structure CodeStore (F : Type) where
  repositories : List (Text × RepositoryRow)
  chunks : List (ChunkRow F)

/-- `repository_id_for`. -/
def repositoryIdFor (url : Text) : Text := "repo-".toList ++ (Sha256.hexdigest url).take 16

/-- `detect_languages`. -/
def detectLanguages (files : List ScannedFile) : List Text :=
  sortedSet ((files.filter (·.language ≠ "text")).map (·.language.toList))

namespace CodeStore

variable {F : Type} (s : CodeStore F)

def empty : CodeStore F := ⟨[], []⟩

/-- `RepositoryRepository.upsert`: the url of a row is the one it was made with. -/
def upsert (url : Text) (path : Location) (defaultBranch : Text)
    (languages : List Text) : CodeStore F :=
  { s with
    repositories := Grouping.note repositoryIdFor (fun url =>
      ⟨url, path, defaultBranch, languages, 0, false⟩)
      (fun row _ =>
        { row with path := path, defaultBranch := defaultBranch, languages := languages })
      s.repositories url }

/-- `CodeChunkRepository.replace_all`: the primary key is enforced. -/
def replaceAll (repositoryId : Text) (rows : List (ChunkRow F)) : Except PyError (CodeStore F) :=
  let chunks := s.chunks.filter (·.repositoryId ≠ repositoryId) ++ rows
  if (chunks.map (·.chunk.id)).Nodup then .ok { s with chunks := chunks }
  else .error (.other "IntegrityError" "UNIQUE constraint failed: code_chunks.id")

/-- `RepositoryRepository.mark_indexed`. -/
def markIndexed (identifier : Text) (chunkCount : ℕ) : CodeStore F :=
  { s with
    repositories := s.repositories.map fun p =>
      (p.1, if p.1 = identifier then { p.2 with indexed := true, chunkCount := chunkCount }
        else p.2) }

/-- `CodeChunkRepository.all_for`.  The query names no order; the list has the rows in that in which
they were added. -/
def allFor (repositoryId : Text) : List (ChunkRow F) :=
  s.chunks.filter (·.repositoryId = repositoryId)

end CodeStore

/-! ## Indexing -/

/-- A call of `index_repository`, with the disk it finds and the ids it draws. -/
structure Indexing (F : Type) where
  url : Text
  root : Location
  defaultBranch : Text
  disk : Disk
  contents : Contents
  embed : Option (List Text → List (List F))
  newId : ℕ → String

namespace Indexing

variable {F : Type} (py : PyRuntime) (x : Indexing F)

/-- The row of a chunk and its number. -/
def row (c : Chunk × ℕ) : ChunkRow F := rowOf F (repositoryIdFor x.url) c.1 (x.newId c.2)

/-- The rows with their embeddings; `zip` is strict. -/
def embedAll (rows : List (ChunkRow F)) : Except PyError (List (ChunkRow F)) :=
  match x.embed with
  | none => .ok rows
  | some embed =>
    let vectors := embed (rows.map (·.chunk.content))
    if vectors.length = rows.length then
      .ok (List.zipWith (fun row vector => { row with embedding := some vector }) rows vectors)
    else .error (.other "ValueError" "zip() arguments have different lengths")

/-- `index_repository`: the files it scanned, and the tables after it. -/
def run (s : CodeStore F) : Except PyError (List ScannedFile × CodeStore F) := do
  let files ← scanRepository py x.disk x.contents x.root
  let path ← resolvePath x.disk x.root
  let s := s.upsert x.url path x.defaultBranch (detectLanguages files)
  let rows ← x.embedAll (((files.flatMap (chunkFile py)).zipIdx).map x.row)
  let s ← s.replaceAll (repositoryIdFor x.url) rows
  return (files, s.markIndexed (repositoryIdFor x.url) rows.length)

end Indexing

/-- The tables, and what each repository was last indexed with. -/
structure Index (F : Type) where
  store : CodeStore F
  latest : Text → List ScannedFile

/-- **Only one repository's rows differ**: the chunks of every other, with their ids and embeddings,
and its own row are as they were. -/
structure CodeStore.LeavesOthers {F : Type} (s s' : CodeStore F) (repositoryId : Text) : Prop where
  chunks : ∀ other ≠ repositoryId, s'.allFor other = s.allFor other
  repositories : ∀ p : Text × RepositoryRow, p.1 ≠ repositoryId →
    (p ∈ s'.repositories ↔ p ∈ s.repositories)

namespace Index

variable {F : Type} (py : PyRuntime)

/-- Nothing is indexed. -/
def empty : Index F := ⟨.empty, fun _ => []⟩

/-- An indexing, rolled back if it raises. -/
def step (i : Index F) (x : Indexing F) : Index F :=
  match x.run py i.store with
  | .ok (files, store) => ⟨store, Function.update i.latest (repositoryIdFor x.url) files⟩
  | .error _ => i

/-- **The tables hold what was indexed.** -/
structure Holds (i : Index F) : Prop where
  repositories : (i.store.repositories.map (·.1)).Nodup
  named : ∀ p ∈ i.store.repositories, p.1 = repositoryIdFor p.2.url
  chunk_ids : (i.store.chunks.map (·.chunk.id)).Nodup
  owned : ∀ row ∈ i.store.chunks, row.repositoryId ∈ i.store.repositories.map (·.1)
  counted : ∀ p ∈ i.store.repositories, p.2.chunkCount = (i.store.allFor p.1).length
  /-- The rows are the chunks of the files, each once. -/
  exact_rows : ∀ repositoryId, ((i.store.allFor repositoryId).map ChunkRow.bare).Perm
    (((i.latest repositoryId).flatMap (chunkFile py)).map (rowOf F repositoryId · ""))

end Index

/-! ## What one indexing does -/

section Run

variable {F : Type} {py : PyRuntime} {x : Indexing F} {s s' : CodeStore F}
  {files : List ScannedFile}

theorem map_bare_row (chunks : List Chunk) (start : ℕ) :
    ((chunks.zipIdx start).map x.row).map ChunkRow.bare
      = chunks.map (rowOf F (repositoryIdFor x.url) · "") := by
  induction chunks generalizing start with
  | nil => rfl
  | cons c chunks ih => exact congrArg _ (ih (start + 1))

/-- What an update does not touch. -/
theorem map_zipWith_of_forall {α β γ : Type*} {f : α → β → α} {g : α → γ}
    (h : ∀ a b, g (f a b) = g a)
    {as : List α} {bs : List β} (hlength : bs.length = as.length) :
    (List.zipWith f as bs).map g = as.map g := by
  induction as generalizing bs with
  | nil => simp
  | cons a as ih =>
    cases bs with
    | nil => simp at hlength
    | cons b bs =>
      rw [List.zipWith_cons_cons, List.map_cons, List.map_cons, h, ih (by simpa using hlength)]

/-- An embedding is all that embedding adds. -/
theorem map_bare_embedAll {rows rows' : List (ChunkRow F)} (h : x.embedAll rows = .ok rows') :
    rows'.map ChunkRow.bare = rows.map ChunkRow.bare ∧
      rows'.map (·.repositoryId) = rows.map (·.repositoryId) := by
  rw [Indexing.embedAll] at h
  split at h
  · obtain rfl := Except.ok.inj h
    exact ⟨rfl, rfl⟩
  · dsimp only at h
    split_ifs at h with hlength
    obtain rfl := Except.ok.inj h
    constructor
    · refine map_zipWith_of_forall ?_ hlength
      exact fun _ _ => rfl
    · refine map_zipWith_of_forall ?_ hlength
      exact fun _ _ => rfl

/-- **What an indexing does**: it scans, and puts the rows of what it found in the place of the
repository's. -/
theorem run_eq_ok (h : x.run py s = .ok (files, s')) : ∃ path rows,
    scanRepository py x.disk x.contents x.root = .ok files ∧
      s'.chunks = s.chunks.filter (·.repositoryId ≠ repositoryIdFor x.url) ++ rows ∧
      (s'.chunks.map (·.chunk.id)).Nodup ∧
      rows.map ChunkRow.bare = (files.flatMap (chunkFile py)).map
        (rowOf F (repositoryIdFor x.url) · "") ∧
      (∀ row ∈ rows, row.repositoryId = repositoryIdFor x.url) ∧
      s'.repositories = ((s.upsert x.url path x.defaultBranch (detectLanguages files)).markIndexed
        (repositoryIdFor x.url) rows.length).repositories := by
  rw [Indexing.run] at h
  cases hfiles : scanRepository py x.disk x.contents x.root with
  | error e => rw [hfiles] at h; cases h
  | ok scanned =>
  rw [hfiles] at h
  cases hpath : resolvePath x.disk x.root with
  | error e => rw [hpath] at h; cases h
  | ok path =>
  rw [hpath] at h
  dsimp only [bind, Except.bind] at h
  cases hrows : x.embedAll (((scanned.flatMap (chunkFile py)).zipIdx).map x.row) with
  | error e => rw [hrows] at h; cases h
  | ok rows =>
  rw [hrows] at h
  simp only [CodeStore.replaceAll] at h
  split_ifs at h with hnodup
  · obtain ⟨rfl, rfl⟩ := Prod.mk.inj (Except.ok.inj h)
    obtain ⟨hbare, howner⟩ := map_bare_embedAll hrows
    refine ⟨path, rows, rfl, rfl, hnodup, ?_, fun row hrow => ?_, rfl⟩
    · rw [hbare]
      exact map_bare_row _ _
    · have hmem := List.mem_map_of_mem (f := (·.repositoryId)) hrow
      rw [howner, List.map_map] at hmem
      obtain ⟨c, -, hc⟩ := List.mem_map.mp hmem
      exact hc.symm

/-- The rows of a repository after its own were replaced. -/
theorem allFor_replaced {identifier : Text} {rows : List (ChunkRow F)}
    (hchunks : s'.chunks = s.chunks.filter (·.repositoryId ≠ identifier) ++ rows)
    (hrows : ∀ row ∈ rows, row.repositoryId = identifier) (repositoryId : Text) :
    s'.allFor repositoryId = if repositoryId = identifier then rows else s.allFor repositoryId := by
  rw [CodeStore.allFor, hchunks, List.filter_append, List.filter_filter]
  split
  · rename_i heq
    subst heq
    have hothers : s.chunks.filter (fun row => decide (row.repositoryId = repositoryId) &&
        decide (row.repositoryId ≠ repositoryId))
        = [] := List.filter_eq_nil_iff.mpr fun row _ => by simp
    rw [hothers, List.nil_append]
    exact List.filter_eq_self.mpr fun row hrow => by simpa using hrows row hrow
  · rename_i hne
    have hnone : rows.filter (·.repositoryId = repositoryId) = [] :=
        List.filter_eq_nil_iff.mpr fun row hrow => by
      simpa [hrows row hrow] using Ne.symm hne
    rw [hnone, List.append_nil, CodeStore.allFor]
    refine List.filter_congr fun row _ => ?_
    by_cases hrow : row.repositoryId = repositoryId
    · simp [hrow, hne]
    · simp [hrow]

/-- **An indexing leaves the other repositories alone.** -/
theorem leavesOthers_of_run (h : x.run py s = .ok (files, s')) :
    s.LeavesOthers s' (repositoryIdFor x.url) := by
  obtain ⟨path, rows, -, hchunks, -, -, howner, hrepositories⟩ := run_eq_ok h
  constructor
  · intro other hother
    rw [allFor_replaced hchunks howner, if_neg hother]
  · intro p hp
    rw [hrepositories, CodeStore.markIndexed, List.mem_map]
    have hupsert : p ∈ (s.upsert x.url path x.defaultBranch (detectLanguages files)).repositories ↔
        p ∈ s.repositories := by
      rw [CodeStore.upsert]
      dsimp only
      exact Grouping.mem_note_of_ne hp
    rw [← hupsert]
    constructor
    · rintro ⟨q, hq, rfl⟩
      rwa [if_neg hp]
    · exact fun hmem => ⟨p, hmem, by rw [if_neg hp]⟩

/-- What an upsert leaves of the other rows, and what it makes of its own. -/
theorem mem_upsert {path : Location} {defaultBranch : Text} {languages : List Text}
    {p : Text × RepositoryRow}
    (hp : p ∈ (s.upsert x.url path defaultBranch languages).repositories) :
    p ∈ s.repositories ∨ p.1 = repositoryIdFor x.url ∧ (p.2.url = x.url ∨ ∃ q ∈ s.repositories, q.1
      = p.1 ∧ q.2.url = p.2.url) := by
  rw [CodeStore.upsert] at hp
  dsimp only at hp
  rw [Grouping.note] at hp
  split at hp
  · obtain ⟨q, hq, rfl⟩ := List.mem_map.mp hp
    split
    · rename_i hkey
      exact .inr ⟨hkey, .inr ⟨q, hq, rfl, rfl⟩⟩
    · exact .inl hq
  · rcases List.mem_append.mp hp with hp | hp
    · exact .inl hp
    · obtain rfl := List.mem_singleton.mp hp
      exact .inr ⟨rfl, .inl rfl⟩

end Run

/-! ## What every indexing keeps -/

namespace Index

variable {F : Type} {py : PyRuntime}

theorem Holds.step {i : Index F} (h : i.Holds py) (x : Indexing F) : (i.step py x).Holds py := by
  rw [Index.step]
  split
  · rename_i files store hrun
    obtain ⟨path, rows, -, hchunks, hnodup, hbare, howner, hrepositories⟩ := run_eq_ok hrun
    have hall := allFor_replaced hchunks howner
    have hkeys : store.repositories.map (·.1) =
        (i.store.upsert x.url path x.defaultBranch (detectLanguages
          files)).repositories.map (·.1) := by
      rw [hrepositories, CodeStore.markIndexed, List.map_map]
      rfl
    refine ⟨?_, ?_, hnodup, ?_, ?_, ?_⟩
    · rw [hkeys, CodeStore.upsert]
      dsimp only
      exact Grouping.nodup_note h.repositories
    · intro p hp
      rw [hrepositories] at hp
      obtain ⟨q, hq, rfl⟩ := List.mem_map.mp hp
      have hurl : q.1 = repositoryIdFor q.2.url := by
        rcases mem_upsert hq with hq | ⟨hkey, hurl | ⟨q', hq', hkey', hurl'⟩⟩
        · exact h.named q hq
        · rw [hurl]
          exact hkey
        · rw [← hkey', ← hurl']
          exact h.named q' hq'
      dsimp only
      split <;> exact hurl
    · intro row hrow
      dsimp only at hrow ⊢
      rw [hkeys, CodeStore.upsert]
      dsimp only
      refine Grouping.mem_keys_note.mpr ?_
      rw [hchunks, List.mem_append] at hrow
      rcases hrow with hrow | hrow
      · exact .inl (h.owned row (List.mem_of_mem_filter hrow))
      · exact .inr (howner row hrow).symm
    · intro p hp
      dsimp only at hp ⊢
      rw [hrepositories] at hp
      obtain ⟨q, hq, rfl⟩ := List.mem_map.mp hp
      rw [hall]
      dsimp only
      split
      · rfl
      · rename_i hne
        rcases mem_upsert hq with hq | ⟨hkey, -⟩
        · exact h.counted q hq
        · exact absurd hkey hne
    · intro repositoryId
      dsimp only
      rw [hall]
      split
      · rename_i heq
        subst heq
        rw [Function.update_self, hbare]
      · rename_i hne
        rw [Function.update_of_ne hne]
        exact h.exact_rows repositoryId
  · exact h

theorem holds_empty : (empty : Index F).Holds py where
  repositories := List.nodup_nil
  named := by simp [empty, CodeStore.empty]
  chunk_ids := List.nodup_nil
  owned := by simp [empty, CodeStore.empty]
  counted := by simp [empty, CodeStore.empty]
  exact_rows _ := List.Perm.refl _

/-- Rolled back or not. -/
theorem leavesOthers_step (i : Index F) (x : Indexing F) :
    i.store.LeavesOthers (i.step py x).store (repositoryIdFor x.url) := by
  rw [Index.step]
  split
  next hrun => exact leavesOthers_of_run hrun
  next => exact ⟨fun _ _ => rfl, fun _ _ => Iff.rfl⟩

theorem holds_foldl (py : PyRuntime) (indexings : List (Indexing F)) :
    (indexings.foldl (step py) (empty : Index F)).Holds py :=
  Runs.run_invariant (fun (_ : Index F) x h => h.step x) holds_empty indexings

/-- **The tables hold what was indexed**, after any sequence of indexings, and one more leaves the
other repositories' rows alone. -/
theorem index_holds (py : PyRuntime) (indexings : List (Indexing F)) :
    (indexings.foldl (step py) (empty : Index F)).Holds py ∧
      ∀ x : Indexing F, (indexings.foldl (step py) (empty : Index F)).store.LeavesOthers
        (((indexings.foldl (step py) (empty : Index F)).step py x).store) (repositoryIdFor x.url) :=
  ⟨holds_foldl py indexings, leavesOthers_step _⟩

/-! ## From a search back to the lines -/

/-- **The chunk is what it cites**: the lines of a file that was scanned. -/
def Cites (files : List ScannedFile) (c : CodeChunk) : Prop :=
  ∃ file ∈ files, ∃ start finish : ℕ, c.filePath = file.relativePath ∧ c.startLine = start ∧
    c.endLine = finish ∧
    1 ≤ start ∧ start ≤ finish ∧ finish ≤ (Text.splitlines file.content).length ∧
    c.content = Text.join ['\n'] (((Text.splitlines file.content).take finish).drop (start - 1)) ∧
    Text.strip c.content ≠ []

/-- The rows of a repository cite its files. -/
theorem Holds.cites {U : Regex.Unicode} (hpy : Parser.ReadsSymbols U py) {i : Index F}
    (h : i.Holds py)
    {repositoryId : Text} {row : ChunkRow F} (hrow : row ∈ i.store.allFor repositoryId) :
    Cites (i.latest repositoryId) row.chunk := by
  have hbare := List.mem_map_of_mem (f := ChunkRow.bare) hrow
  obtain ⟨chunk, hchunk, heq⟩ := List.mem_map.mp ((h.exact_rows repositoryId).subset hbare)
  obtain ⟨file, hfile, hcut⟩ := List.mem_flatMap.mp hchunk
  have hdata : row.chunk.filePath = chunk.filePath ∧ row.chunk.startLine = chunk.startLine ∧
      row.chunk.endLine = chunk.endLine ∧ row.chunk.content = chunk.content := by
    have hchunk := congrArg ChunkRow.chunk heq
    rw [ChunkRow.bare, rowOf] at hchunk
    simp only [CodeChunk.mk.injEq] at hchunk
    exact ⟨hchunk.2.1.symm, hchunk.2.2.2.2.1.symm, hchunk.2.2.2.2.2.1.symm, hchunk.2.2.2.2.2.2.symm⟩
  obtain ⟨hpath, hstart, hfinish, hcontent⟩ := hdata
  refine ⟨file, hfile, chunk.startLine, chunk.endLine, ?_, hstart, hfinish, ?_⟩
  · rw [hpath]
    rcases chunkFile_cases hcut with hwindow | ⟨symbol, -, -, rfl⟩
    · obtain ⟨windows, hwindowed⟩ := exists_windowed file (Text.splitlines file.content)
      rw [windowChunks, (hwindowed.stops _ (Nat.lt_succ_self _)).2, Option.getD_some] at hwindow
      obtain ⟨w, -, -, rfl⟩ := mem_chunksOf.mp hwindow
      rfl
    · rfl
  · rw [hcontent]
    rcases chunkFile_cases hcut with hwindow | ⟨symbol, hsymbol, -, rfl⟩
    · have hslice := ExactSlice.of_windowChunks hwindow
      exact ⟨hslice.start, hslice.ordered, hslice.finish, hslice.content, hslice.not_blank⟩
    · have hranged := Parser.ranged_of_mem hpy hsymbol
      exact ⟨hranged.start, hranged.ordered, hranged.finish, rfl, strip_symbolChunk hranged⟩

/-- The results are all the candidates, if there is room. -/
theorem exists_result {candidates results : List RetrievalResult} {limit : ℕ}
    (hdistinct : (candidates.map (·.chunk.id)).Nodup)
    (hbest : HybridRetriever.BestOf candidates limit results) (hlimit : candidates.length ≤ limit)
    {candidate : RetrievalResult} (hcandidate : candidate ∈ candidates) :
    ∃ result ∈ results, result.chunk = candidate.chunk := by
  have hsubset : results.map (·.chunk.id) ⊆ candidates.map (·.chunk.id) := by
    intro id hid
    obtain ⟨result, hresult, rfl⟩ := List.mem_map.mp hid
    obtain ⟨other, hother, hsame⟩ := hbest.chunks result hresult
    exact List.mem_map.mpr ⟨other, hother, congrArg CodeChunk.id hsame⟩
  have hlength : (candidates.map (·.chunk.id)).length ≤ (results.map (·.chunk.id)).length := by
    rw [List.length_map, List.length_map, hbest.length_eq]
    omega
  have hperm := (hbest.distinct.subperm hsubset).perm_of_length_le hlength
  obtain ⟨result, hresult, hid⟩ :=
    List.mem_map.mp (hperm.mem_iff.mpr (List.mem_map_of_mem hcandidate))
  obtain ⟨other, hother, hsame⟩ := hbest.chunks result hresult
  have heq : other = candidate :=
    List.inj_on_of_nodup_map hdistinct hother hcandidate ((congrArg CodeChunk.id hsame).trans hid)
  exact ⟨result, hresult, heq ▸ hsame.symm⟩

/-- **A search returns what it cites.**  After any indexings, a search over a repository's rows, in
whatever order they are read, never raises; its results are at most as many as asked for, none of
them twice, and each answers the query and is the lines it cites of a file the repository was last
indexed with.  Asked for as many as there are, it returns all that answer. -/
theorem retrieval_cites {U : Regex.Unicode} (hpy : Parser.ReadsSymbols U py)
    (indexings : List (Indexing F)) (repositoryId : Text) {chunks : List CodeChunk}
    (hchunks : chunks.Perm (((indexings.foldl (step py) empty).store.allFor repositoryId).map
      (·.chunk)))
    (embedding : CodeChunk → Option (List ℝ)) (embedQuery : Option (Text → List ℝ))
    (query : Text) (limit : ℕ) :
    ∃ results, HybridRetriever.searchAll Real.sqrt embedding embedQuery chunks py Real.log query
      limit = .ok results ∧ results.length ≤ limit ∧ (results.map (·.chunk.id)).Nodup ∧
      (∀ result ∈ results, Cites ((indexings.foldl (step py) empty).latest repositoryId)
        result.chunk ∧ Answers py embedding embedQuery query result.chunk) ∧
      (chunks.length ≤ limit → ∀ c ∈ chunks, Answers py embedding embedQuery query c →
        ∃ result ∈ results, result.chunk = c) := by
  have hholds := holds_foldl py indexings
  have hids : (chunks.map (·.id)).Nodup := by
    rw [(hchunks.map (·.id)).nodup_iff, List.map_map]
    exact hholds.chunk_ids.sublist (List.filter_sublist.map _)
  obtain ⟨named, candidates, results, hsearch, hfused, hbest, hanswers, hall⟩ :=
    exists_searchAll py embedding embedQuery hids query limit
  refine ⟨results, hsearch, ?_, hbest.distinct, fun result hresult => ?_,
    fun hlimit c hc hanswer => ?_⟩
  · rw [hbest.length_eq]
    exact Nat.min_le_left _ _
  · obtain ⟨candidate, hcandidate, hsame⟩ := hbest.chunks result hresult
    obtain ⟨hmem, hanswer⟩ := hanswers result.chunk
      ((hfused.chunks result.chunk).mp ⟨candidate, hcandidate, hsame⟩)
    obtain ⟨row, hrow, hrowChunk⟩ := List.mem_map.mp (hchunks.subset hmem)
    exact ⟨hrowChunk ▸ hholds.cites hpy hrow, hanswer⟩
  · obtain ⟨candidate, hcandidate, rfl⟩ := (hfused.chunks c).mpr (hall (by omega) c hc hanswer)
    refine exists_result hfused.distinct hbest ?_ hcandidate
    have hsubset : candidates.map (·.chunk.id) ⊆ chunks.map (·.id) := by
      intro id hid
      obtain ⟨other, hother, rfl⟩ := List.mem_map.mp hid
      exact List.mem_map_of_mem (hanswers other.chunk ((hfused.chunks _).mp ⟨other, hother, rfl⟩)).1
    have hlength := (hfused.distinct.subperm hsubset).length_le
    rw [List.length_map, List.length_map] at hlength
    exact hlength.trans hlimit

/-- A tree with one Python file, indexed once. -/
def tinyTree : Disk where
  entries := [(["w".toList], .dir), (["w".toList, "billing.py".toList], .file)]
  below := by decide
  unique := by decide
  parents := by decide

def tinyIndexing : Indexing ℝ :=
  ⟨"file:///w".toList, ["w".toList], "main".toList, tinyTree,
    fun _ => ("def cancel():\n    pass\n".toList).flatMap String.utf8EncodeChar, none,
    fun n => toString n⟩

theorem retrieval_cites_tinyTree : ∃ results : List RetrievalResult,
    HybridRetriever.searchAll Real.sqrt (fun _ => none) none
        ((([tinyIndexing].foldl (step Parser.symbolPy) empty).store.allFor
          (repositoryIdFor "file:///w".toList)).map (·.chunk))
        Parser.symbolPy Real.log "cancel".toList 8 = .ok results ∧
      ∀ result ∈ results, Cites (([tinyIndexing].foldl (step Parser.symbolPy) empty).latest
        (repositoryIdFor "file:///w".toList)) result.chunk := by
  obtain ⟨results, hsearch, -, -, hcites, -⟩ :=
    retrieval_cites Parser.readsSymbols_symbolPy [tinyIndexing]
    (repositoryIdFor "file:///w".toList) (List.Perm.refl _) (fun _ => none) none "cancel".toList 8
  exact ⟨results, hsearch, fun result hresult => (hcites result hresult).1⟩

end Index

end AgentPlatform
