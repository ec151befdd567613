import AgentPlatform.Api.Idempotency

/-!
# Api/Replay — which requests a replayed key takes for one another

A request whose key is on record is given the task of the record if the two fingerprints agree, and
is refused otherwise.  The fingerprint hashes the URL and the issue with a newline between them; the
path of the checkout is not part of it, and a newline inside the URL moves the border.

`replayed_same_iff` — two requests with one key can share a task without being the same request
exactly when their hashed texts agree while their paths, or the newlines of their URLs, do not.
-/

namespace AgentPlatform

namespace Creation

/-! ## The same request -/

namespace Request

/-- The text `fingerprint` hashes. -/
def text (r : Request) : String := s!"{r.repositoryUrl}\n{r.issue}"

/-- **The two requests ask for the same work.** -/
structure Same (q r : Request) : Prop where
  repositoryUrl : q.repositoryUrl = r.repositoryUrl
  repositoryPath : q.repositoryPath = r.repositoryPath
  issue : q.issue = r.issue

/-- How many newlines the URL has. -/
def urlNewlines (r : Request) : ℕ := r.repositoryUrl.toList.count '\n'

/-- SHA-256 does not collide on the two requests. -/
def CollisionFree (sha256 : String → String) (q r : Request) : Prop :=
  q.fingerprint sha256 = r.fingerprint sha256 → q.text = r.text

variable {q r : Request}

theorem fingerprint_eq_of_text (sha256 : String → String) (h : q.text = r.text) :
    q.fingerprint sha256 = r.fingerprint sha256 := by
  unfold text at h
  rw [fingerprint, fingerprint, Creation.fingerprint, Creation.fingerprint, h]

theorem toList_text : r.text.toList = r.repositoryUrl.toList ++ '\n' :: r.issue.toList := by
  simp [text, toString]

/-- **A border between two texts is found again by the newlines before it.** -/
theorem append_newline_inj {u v a b : List Char} (h : u ++ '\n' :: a = v ++ '\n' :: b)
    (hcount : u.count '\n' = v.count '\n') : u = v ∧ a = b := by
  rcases List.append_eq_append_iff.mp h with ⟨w, rfl, hw⟩ | ⟨w, rfl, hw⟩
  · rcases w with _ | ⟨c, w⟩
    · simpa using hw
    · obtain ⟨rfl, -⟩ := List.cons.inj hw
      simp only [List.count_append, List.count_cons_self] at hcount
      omega
  · rcases w with _ | ⟨c, w⟩
    · simpa using hw.symm
    · obtain ⟨rfl, -⟩ := List.cons.inj hw
      simp only [List.count_append, List.count_cons_self] at hcount
      omega

theorem same_of_text (htext : q.text = r.text) (hpath : q.repositoryPath = r.repositoryPath)
    (hcount : q.urlNewlines = r.urlNewlines) : q.Same r := by
  have hlist := congrArg String.toList htext
  rw [toList_text, toList_text] at hlist
  obtain ⟨hurl, hissue⟩ := append_newline_inj hlist hcount
  exact ⟨String.toList_injective hurl, hpath, String.toList_injective hissue⟩

end Request

/-! ## Requests that share a task -/

/-- The task `create_task` has returned. -/
def Phase.returns? : Phase → Option String
  | returned id _ | succeeded id _ => some id
  | _ => none

namespace Store

/-- **Two requests of a run that were given one task.** -/
def Replayed (s : Store) (q r : Request) : Prop :=
  ∃ (i j : ℕ) (x y : Session) (id : String), i ≠ j ∧ s.sessions[i]? = some x ∧
    s.sessions[j]? = some y ∧
    x.request = q ∧ y.request = r ∧ x.phase.returns? = some id ∧ y.phase.returns? = some id

/-- A session that goes by a record has the record's fingerprint. -/
def Matched (sha256 : String → String) (s : Store) (x : Session) : Prop :=
  match x.phase with
  | .found record => record.requestFingerprint = x.request.fingerprint sha256
  | .returned id false | .succeeded id false => x.request.key? ≠ none ∧
    ∃ record ∈ s.keys, record.taskId = id ∧ record.requestFingerprint = x.request.fingerprint sha256
  | _ => True

section Matching

variable {sha256 : String → String} {s : Store} {x x' : Session} {m : Move} {i : ℕ}

theorem Matched.mono {commits : List Commit} {sessions sessions' : List Session}
    (h : Matched sha256 ⟨s.commits, sessions⟩ x) (hsub : s.commits ⊆ commits) :
    Matched sha256 ⟨commits, sessions'⟩ x := by
  have hkeys : ∀ record, record ∈ (⟨s.commits, sessions⟩ : Store).keys →
      record ∈ (⟨commits, sessions'⟩ : Store).keys := by
    intro record hrecord
    obtain ⟨c, hc, hmem⟩ := List.mem_flatMap.mp hrecord
    exact List.mem_flatMap.mpr ⟨c, hsub hc, hmem⟩
  unfold Matched at h ⊢
  split at h
  · exact h
  · exact ⟨h.1, h.2.imp fun record hr => ⟨hkeys record hr.1, hr.2⟩⟩
  · exact ⟨h.1, h.2.imp fun record hr => ⟨hkeys record hr.1, hr.2⟩⟩
  · trivial

/-- The lookup goes on with a record only if the fingerprints agree. -/
theorem fingerprint_of_find {record : IdempotencyRecord}
    (h : (s.find sha256 x).phase = .found record) :
    record.requestFingerprint = x.request.fingerprint sha256 := by
  unfold find at h
  split at h
  · simp at h
  · split at h
    · simp at h
    · split_ifs at h with hfingerprint
      · obtain rfl := Phase.found.inj h
        exact hfingerprint
      · simp [Session.fail] at h

theorem matched_move (hs : s.Consistent sha256) (hx : x ∈ s.sessions)
    (hmatched : s.Matched sha256 x) (h : s.move sha256 x m = some x') : s.Matched sha256 x' := by
  cases moved_of_move h with
  | misses _ _ => trivial
  | finds hphase _ _ =>
    rw [move, if_pos hphase] at h
    exact fingerprint_of_find (x := x) (congrArg Session.phase (Option.some.inj h))
  | @gets record task hphase htask hid =>
    have hread := hs.reads x hx
    rw [Reads, hphase] at hread
    rw [Matched, hphase] at hmatched
    exact ⟨by rw [hread.2]; simp, record, hread.1, hid.symm, hmatched⟩
  | inserts _ _ => trivial
  | appends _ => trivial
  | publishes _ => trivial
  | @commits id isNew hphase =>
    cases isNew with
    | false => rwa [Matched, hphase] at hmatched
    | true => trivial
  | fails _ _ => trivial

theorem matched_step (hs : s.Consistent sha256) (hmatched : ∀ y ∈ s.sessions, s.Matched sha256 y)
    (a : Action) : ∀ y ∈ (s.step sha256 a).sessions, (s.step sha256 a).Matched sha256 y := by
  cases a with
  | arrive request => exact Processes.forall_append hmatched trivial
  | act i m =>
    rw [Store.step]
    split
    · rename_i x hi
      split
      · rename_i x' hx'
        have hgrows : s.commits ⊆ if m = .commit then s.commits ++ [⟨i, x.rows⟩]
            else s.commits := by
          split
          · exact List.subset_append_left _ _
          · exact List.Subset.refl _
        have hmem := List.mem_of_getElem? hi
        refine Processes.forall_set (fun y hy => (hmatched y hy).mono hgrows) ?_
        exact (matched_move hs hmem (hmatched x hmem) hx').mono hgrows
      · exact hmatched
    · exact hmatched

/-- **Every request of a run that goes by a record has its fingerprint.** -/
theorem matched_run (sha256 : String → String) (as : List Action) :
    (Runs.run (Store.step sha256) empty as).Consistent sha256 ∧
      ∀ y ∈ (Runs.run (Store.step sha256) empty as).sessions,
        (Runs.run (Store.step sha256) empty as).Matched sha256 y := by
  refine Runs.run_invariant (P := fun s : Store => s.Consistent sha256 ∧
    ∀ y ∈ s.sessions, s.Matched sha256 y)
    (fun s a hs => ⟨hs.1.step a, matched_step hs.1 hs.2 a⟩) ⟨consistent_empty, ?_⟩ as
  simp [empty]

/-- A record among a session's rows has the session's fingerprint. -/
theorem fingerprint_of_record (h : x.Written sha256) {record : IdempotencyRecord}
    (hrecord : record ∈ x.rows.keys) :
    record.requestFingerprint = x.request.fingerprint sha256 := by
  rcases hw : x.phase.wrote? with _ | id
  · rw [Session.Written, hw] at h
    rw [h] at hrecord
    exact absurd hrecord (by simp)
  · rw [Session.Written, hw] at h
    rw [h.2, Request.records] at hrecord
    obtain ⟨key, -, rfl⟩ := List.mem_map.mp hrecord
    rfl

end Matching

/-! ## What sharing a task says of the requests -/

section Sharing

variable {sha256 : String → String} {s : Store} {x y : Session} {i j : ℕ} {id : String}

/-- A session holds the record that leads to the task, and its fingerprint is the request's. -/
def Backs (sha256 : String → String) (s : Store) (r : Request) (id : String) (i : ℕ) : Prop :=
  ∃ y record, s.sessions[i]? = some y ∧ record ∈ y.rows.keys ∧ record.taskId = id ∧
    record.requestFingerprint = r.fingerprint sha256

theorem returns?_cases {phase : Phase} (h : phase.returns? = some id) :
    phase.wrote? = some id ∨ phase = .returned id false ∨ phase = .succeeded id false := by
  cases phase with
  | returned id' isNew => cases isNew <;> simp_all [Phase.returns?, Phase.wrote?]
  | succeeded id' isNew => cases isNew <;> simp_all [Phase.returns?, Phase.wrote?]
  | _ => simp [Phase.returns?] at h

/-- **A request with a key that was given a task has a record behind it.** -/
theorem exists_backs (hs : s.Consistent sha256) (hmatched : ∀ y ∈ s.sessions, s.Matched sha256 y)
    (hi : s.sessions[i]? = some x) (hreturns : x.phase.returns? = some id)
    (hkey : x.request.key? ≠ none) : ∃ k, s.Backs sha256 x.request id k := by
  have hmem := List.mem_of_getElem? hi
  have hread : ∀ record ∈ s.keys, record.taskId = id →
      record.requestFingerprint = x.request.fingerprint sha256 →
      ∃ k, s.Backs sha256 x.request id k := by
    intro record hrecord hid hfingerprint
    obtain ⟨c, hc, hrecord⟩ := List.mem_flatMap.mp hrecord
    obtain ⟨y, hy, hrows, -⟩ := hs.committed c hc
    rw [← hrows] at hrecord
    exact ⟨c.session, y, record, hy, hrecord, hid, hfingerprint⟩
  have hx := hmatched x hmem
  rcases returns?_cases hreturns with hwrote | hphase | hphase
  · have hwritten := hs.written x hmem
    rw [Session.Written, hwrote] at hwritten
    obtain ⟨key, hkey⟩ := Option.ne_none_iff_exists'.mp hkey
    refine ⟨i, x, ⟨key, id, x.request.fingerprint sha256⟩, hi, ?_, rfl, rfl⟩
    simp [hwritten.2, Request.records, hkey]
  · rw [Matched, hphase] at hx
    obtain ⟨-, record, hrecord, hid, hfingerprint⟩ := hx
    exact hread record hrecord hid hfingerprint
  · rw [Matched, hphase] at hx
    obtain ⟨-, record, hrecord, hid, hfingerprint⟩ := hx
    exact hread record hrecord hid hfingerprint

/-- **A task has one record**: the primary key of `tasks`. -/
theorem Backs.fingerprint_eq (hs : s.Consistent sha256) {q r : Request} {k l : ℕ}
    (hq : s.Backs sha256 q id k) (hr : s.Backs sha256 r id l) :
    q.fingerprint sha256 = r.fingerprint sha256 := by
  obtain ⟨y, record, hy, hrecord, rfl, hfingerprint⟩ := hq
  obtain ⟨z, record', hz, hrecord', hid, hfingerprint'⟩ := hr
  have hwritten := hs.written y (List.mem_of_getElem? hy)
  have hwritten' := hs.written z (List.mem_of_getElem? hz)
  have hsame : k = l := by
    refine hs.exclusive .taskId record.taskId _ _ y z hy hz ?_ ?_
    · simp [Rows.used, (written_of_record hwritten hrecord).1, Request.task]
    · simp [Rows.used, (written_of_record hwritten' hrecord').1, Request.task, hid]
  subst hsame
  obtain rfl := Option.some.inj (hy.symm.trans hz)
  rw [← hfingerprint, ← hfingerprint', fingerprint_of_record hwritten hrecord,
    fingerprint_of_record hwritten hrecord']

/-- A request without a key is given no task but its own. -/
theorem task_mem_used (hs : s.Consistent sha256) (hmatched : ∀ y ∈ s.sessions, s.Matched sha256 y)
    (hx : x ∈ s.sessions) (hreturns : x.phase.returns? = some id) (hkey : x.request.key? = none) :
    id ∈ x.rows.used .taskId := by
  have hmatch := hmatched x hx
  rcases returns?_cases hreturns with hwrote | hphase | hphase
  · have hwritten := hs.written x hx
    rw [Session.Written, hwrote] at hwritten
    simp [Rows.used, hwritten.1, Request.task]
  · rw [Matched, hphase] at hmatch
    exact absurd hkey hmatch.1
  · rw [Matched, hphase] at hmatch
    exact absurd hkey hmatch.1

/-- **Requests with one key that share a task share their fingerprint**, and the key is not
empty. -/
theorem Replayed.fingerprint_eq {q r : Request} {as : List Action}
    (h : (Runs.run (Store.step sha256) empty as).Replayed q r)
    (hkey : q.idempotencyKey = r.idempotencyKey) :
    q.key? ≠ none ∧ q.fingerprint sha256 = r.fingerprint sha256 := by
  obtain ⟨hs, hmatched⟩ := matched_run sha256 as
  obtain ⟨i, j, x, y, id, hne, hi, hj, rfl, rfl, hx, hy⟩ := h
  have hkeys : x.request.key? = y.request.key? := by rw [Request.key?, Request.key?, hkey]
  have hsome : x.request.key? ≠ none := by
    intro hnone
    have hx := task_mem_used hs hmatched (List.mem_of_getElem? hi) hx hnone
    have hy := task_mem_used hs hmatched (List.mem_of_getElem? hj) hy (hkeys ▸ hnone)
    exact hne (hs.exclusive .taskId id i j x y hi hj hx hy)
  obtain ⟨k, hk⟩ := exists_backs hs hmatched hi hx hsome
  obtain ⟨l, hl⟩ := exists_backs hs hmatched hj hy (hkeys ▸ hsome)
  exact ⟨hsome, Backs.fingerprint_eq hs hk hl⟩

end Sharing

/-! ## One request after the other -/

/-- A request alone, from its arrival to the commit of its session. -/
def alone (q : Request) : List Action :=
  [.arrive q, .act 0 .find, .act 0 (.create "TASK-1"), .act 0 (.append "evt-1"), .act 0 .publish,
    .act 0 .commit]

/-- A second one after it, up to what it is given. -/
def inTurn (q r : Request) : List Action :=
  alone q ++ [.arrive r, .act 1 .find, .act 1 .get]

variable {q r : Request} {key : String}

/-- The rows a request alone commits. -/
def aloneRows (sha256 : String → String) (q : Request) (key : String) : Rows where
  tasks := [q.task "TASK-1"]
  keys := [⟨key, "TASK-1", q.fingerprint sha256⟩]
  events := [⟨"evt-1", "TASK-1", 1, .taskCreated, q.repositoryUrl⟩]

theorem run_alone (sha256 : String → String) (hq : q.key? = some key) :
    Runs.run (Store.step sha256) empty (alone q)
      = ⟨[⟨0, aloneRows sha256 q key⟩],
        [⟨q, .succeeded "TASK-1" true, aloneRows sha256 q key⟩]⟩ := by
  simp [alone, Runs.run, step, move, find, empty, keys, tasks, hq, insertTask, insertion, pending,
    insertEvent, Request.task, Request.records, events, nextSequence, aloneRows, Phase.isOpen]

/-- **Equal texts are enough for the second request to be given the first one's task.** -/
theorem replayed_inTurn (sha256 : String → String) (hq : q.key? = some key) (hr : r.key? = some key)
    (htext : q.text = r.text) : (Runs.run (Store.step sha256) empty (inTurn q r)).Replayed q r := by
  have hfingerprint := Request.fingerprint_eq_of_text sha256 htext
  have hsessions : (Runs.run (Store.step sha256) empty (inTurn q r)).sessions
      = [⟨q, .succeeded "TASK-1" true, aloneRows sha256 q key⟩,
        ⟨r, .returned "TASK-1" false, {}⟩] := by
    rw [inTurn, Runs.run_append, run_alone sha256 hq]
    simp [Runs.run, step, move, find, hr, keys, tasks, aloneRows, hfingerprint, Request.task]
  refine ⟨0, 1, ⟨q, .succeeded "TASK-1" true, aloneRows sha256 q key⟩,
    ⟨r, .returned "TASK-1" false, {}⟩, "TASK-1", by decide, ?_, ?_, rfl, rfl, rfl, rfl⟩
  · rw [hsessions]
    rfl
  · rw [hsessions]
    rfl

/-- **A key replays the same request only, unless the hashed texts of two different ones agree**:
the requests differ in their paths, or in how many newlines their URLs have. -/
theorem replayed_same_iff (sha256 : String → String) (q r : Request) (key : String)
    (hq : q.idempotencyKey = some key) (hr : r.idempotencyKey = some key)
    (hfree : Request.CollisionFree sha256 q r) :
    (∀ as, (Runs.run (Store.step sha256) empty as).Replayed q r → q.Same r) ↔
      (key ≠ "" → q.text = r.text →
        q.repositoryPath = r.repositoryPath ∧ q.urlNewlines = r.urlNewlines) := by
  constructor
  · intro h hkey htext
    have hq? : q.key? = some key := key?_eq_some.mpr ⟨hq, hkey⟩
    have hr? : r.key? = some key := key?_eq_some.mpr ⟨hr, hkey⟩
    have hsame := h _ (replayed_inTurn sha256 hq? hr? htext)
    exact ⟨hsame.repositoryPath, by rw [Request.urlNewlines, Request.urlNewlines,
      hsame.repositoryUrl]⟩
  · intro h as hreplayed
    obtain ⟨hkey?, hfingerprint⟩ := hreplayed.fingerprint_eq (hq.trans hr.symm)
    have hkey : key ≠ "" := by
      rintro rfl
      exact hkey? (by simp [Request.key?, hq])
    obtain ⟨hpath, hcount⟩ := h hkey (hfree hfingerprint)
    exact Request.same_of_text (hfree hfingerprint) hpath hcount

/-- Two requests for one issue, in two checkouts. -/
def twoCheckouts : Request × Request :=
  (⟨"file://order-service", some "/srv/checkout-a", "Totals are wrong", none, some "abc-123"⟩,
    ⟨"file://order-service", some "/srv/checkout-b", "Totals are wrong", none, some "abc-123"⟩)

/-- The second is given the first one's task, which works on the other checkout. -/
theorem twoCheckouts_replayed :
    twoCheckouts.1.idempotencyKey = some "abc-123" ∧
    twoCheckouts.2.idempotencyKey = some "abc-123" ∧
      Request.CollisionFree id twoCheckouts.1 twoCheckouts.2 ∧
      (Runs.run (Store.step id) empty (inTurn twoCheckouts.1 twoCheckouts.2)).Replayed
        twoCheckouts.1 twoCheckouts.2 ∧ ¬ twoCheckouts.1.Same twoCheckouts.2 := by
  have hkey : twoCheckouts.1.key? = some "abc-123" := rfl
  refine ⟨rfl, rfl, fun _ => rfl, replayed_inTurn id hkey rfl rfl, fun h => ?_⟩
  exact absurd h.repositoryPath (by decide)

/-- A request, and the same one on behalf of somebody else. -/
def askedTwice : Request × Request :=
  (⟨"file://order-service", none, "Totals are wrong", some "ana", some "abc-123"⟩,
    ⟨"file://order-service", none, "Totals are wrong", some "ben", some "abc-123"⟩)

theorem askedTwice_same :
    Request.CollisionFree id askedTwice.1 askedTwice.2 ∧
      ∀ as, (Runs.run (Store.step id) empty as).Replayed askedTwice.1 askedTwice.2 →
        askedTwice.1.Same askedTwice.2 :=
  ⟨fun _ => rfl, (replayed_same_iff id askedTwice.1 askedTwice.2 "abc-123" rfl rfl fun _ => rfl).mpr
    fun _ _ => ⟨rfl, rfl⟩⟩

end Store

end Creation

end AgentPlatform
