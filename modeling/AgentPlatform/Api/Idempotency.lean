import AgentPlatform.Core.Domain
import AgentPlatform.Machinery.Processes
import AgentPlatform.Machinery.Runs
import Mathlib.Data.List.Nodup

/-!
# Api/Idempotency — concurrent `create_task` requests, and the key they carry

A request looks its `Idempotency-Key` up, and if nobody has used it inserts the task, the record of
the key and the first event, all in the one transaction of its session.  Nothing but the primary key
of `idempotency_keys` keeps two requests that have both found the key unused from both creating a
task: an insert fails on a committed record with that key, and waits while an open transaction has
inserted one.

A statement sees what is committed when it runs.  `namesOne_run` — the key names one task after
every run of any number of requests.
-/

namespace AgentPlatform

namespace Creation

/-! ## Rows -/

/-- The arguments of `create_task`. -/
structure Request where
  repositoryUrl : String
  repositoryPath : Option String
  issue : String
  createdBy : Option String
  idempotencyKey : Option String
  deriving DecidableEq

/-- What `TaskRepository.create` writes of a `Task`. -/
structure Task where
  id : String
  repositoryUrl : String
  repositoryPath : Option String
  issue : String
  status : TaskStatus
  createdBy : Option String
  idempotencyKey : Option String
  deriving DecidableEq

/-- `IdempotencyRecord`. -/
structure IdempotencyRecord where
  key : String
  taskId : String
  requestFingerprint : String
  deriving DecidableEq

/-- The `TASK_CREATED` row `_publish` appends. -/
structure CreatedEvent where
  id : String
  taskId : String
  sequence : ℕ
  type : EventType
  repository : String
  deriving DecidableEq

/-- Rows of the three tables. -/
structure Rows where
  tasks : List Task := []
  keys : List IdempotencyRecord := []
  events : List CreatedEvent := []
  deriving DecidableEq

/-- `fingerprint`, over the hexadecimal SHA-256 of a text. -/
def fingerprint (sha256 : String → String) (repositoryUrl issue : String) : String :=
  String.ofList ((sha256 s!"{repositoryUrl}\n{issue}").toList.take 64)

namespace Request

variable (sha256 : String → String) (r : Request)

/-- The key, if there is one and it is not empty. -/
def key? : Option String := r.idempotencyKey.filter (· ≠ "")

def fingerprint : String := Creation.fingerprint sha256 r.repositoryUrl r.issue

/-- The `Task` of `TaskRepository.create`. -/
def task (id : String) : Task :=
  ⟨id, r.repositoryUrl, r.repositoryPath, r.issue, .queued, r.createdBy, r.idempotencyKey⟩

/-- …and its `IdempotencyRecord`. -/
def records (id : String) : List IdempotencyRecord :=
  r.key?.toList.map fun key => ⟨key, id, r.fingerprint sha256⟩

end Request

/-! ## Sessions -/

/-- Where a request is in `create_task` and `get_session`. -/
inductive Phase where
  | started
  /-- `find_by_idempotency_key` returned a record of the same fingerprint. -/
  | found (record : IdempotencyRecord)
  /-- About to flush the task and its record. -/
  | creating
  /-- Flushed; about to append the event. -/
  | created (id : String)
  /-- About to publish it on the bus. -/
  | appended (id : String)
  /-- `create_task` returned; the session is not committed. -/
  | returned (id : String) (isNew : Bool)
  | succeeded (id : String) (isNew : Bool)
  | failed
  deriving DecidableEq

/-- The session is neither committed nor rolled back. -/
def Phase.isOpen : Phase → Bool
  | succeeded _ _ | failed => false
  | _ => true

/-- The session is committed. -/
def Phase.isCommitted : Phase → Bool
  | succeeded _ _ => true
  | _ => false

/-- The task the session has inserted. -/
def Phase.wrote? : Phase → Option String
  | created id | appended id | returned id true | succeeded id true => some id
  | _ => none

/-- A request with its session: `rows` is what it has inserted and not rolled back. -/
structure Session where
  request : Request
  phase : Phase
  rows : Rows
  deriving DecidableEq

/-- An exception: the session is rolled back. -/
def Session.fail (x : Session) : Session := ⟨x.request, .failed, {}⟩

/-- A transaction that was committed, and the session it was of. -/
structure Commit where
  session : ℕ
  rows : Rows
  deriving DecidableEq

/-- The database and the requests on it. -/
structure Store where
  commits : List Commit
  sessions : List Session
  deriving DecidableEq

/-- What a request does next. -/
inductive Move where
  /-- `find_by_idempotency_key`, for a request with a key. -/
  | find
  /-- `tasks.get` on the task of the record. -/
  | get
  /-- `tasks.create`, with the id `new_task_id` gives. -/
  | create (id : String)
  /-- `event_log.append`, with the id `event_id` gives. -/
  | append (id : String)
  /-- `events.publish`. -/
  | publish
  | commit
  /-- Any call of the request, or its commit, raises. -/
  | fail
  deriving DecidableEq

inductive Action where
  | arrive (request : Request)
  | act (i : ℕ) (move : Move)
  deriving DecidableEq

namespace Store

variable (s : Store)

def tasks : List Task := s.commits.flatMap (·.rows.tasks)

def keys : List IdempotencyRecord := s.commits.flatMap (·.rows.keys)

def events : List CreatedEvent := s.commits.flatMap (·.rows.events)

/-- What open transactions have inserted. -/
def pending : List Rows := (s.sessions.filter (·.phase.isOpen)).map (·.rows)

/-- How an `INSERT` of keys fares. -/
inductive Insertion where
  | inserted
  /-- A row of an open transaction has the key: the statement waits. -/
  | waits
  /-- A committed row has it: `IntegrityError`. -/
  | violates
  deriving DecidableEq

/-- The primary key of a table: `committed` and `pending` are the keys in use. -/
def insertion (committed pending new : List String) : Insertion :=
  if ∃ key ∈ new, key ∈ committed then .violates
  else if ∃ key ∈ new, key ∈ pending then .waits
  else .inserted

/-- The flush of `TaskRepository.create`. -/
def insertTask (task : Task) (records : List IdempotencyRecord) : Insertion :=
  match insertion (s.tasks.map (·.id))
    (s.pending.flatMap fun rows => rows.tasks.map (·.id)) [task.id] with
  | .inserted => insertion (s.keys.map (·.key)) (s.pending.flatMap fun rows =>
    rows.keys.map (·.key))
      (records.map (·.key))
  | other => other

/-- The flush of `EventRepository.append`. -/
def insertEvent (id : String) : Insertion :=
  insertion (s.events.map (·.id)) (s.pending.flatMap fun rows => rows.events.map (·.id)) [id]

/-- `coalesce(max(sequence), 0) + 1` over the events of the task that the session sees. -/
def nextSequence (rows : Rows) (taskId : String) : ℕ :=
  (((s.events ++ rows.events).filter (·.taskId = taskId)).map (·.sequence)).foldr max 0 + 1

variable (sha256 : String → String)

/-- `create_task` up to its insert: the record of the key, if it is of the same request. -/
def find (x : Session) : Session :=
  match x.request.key? with
  | none => { x with phase := .creating }
  | some key =>
    match s.keys.find? (·.key = key) with
    | none => { x with phase := .creating }
    | some record =>
      if record.requestFingerprint = x.request.fingerprint sha256
        then { x with phase := .found record }
      else x.fail

/-- One move of a request; `none` where it cannot be made. -/
def move (x : Session) : Move → Option Session
  | .find => if x.phase = .started then some (s.find sha256 x) else none
  | .get =>
    match x.phase with
    | .found record =>
      match s.tasks.find? (·.id = record.taskId) with
      | some task => some { x with phase := .returned task.id false }
      | none => some { x with phase := .creating }
    | _ => none
  | .create id =>
    if x.phase = .creating then
      match s.insertTask (x.request.task id) (x.request.records sha256 id) with
      | .inserted => some { x with
          phase := .created id
          rows :=
            { x.rows with tasks := [x.request.task id], keys := x.request.records sha256 id } }
      | .waits => none
      | .violates => some x.fail
    else none
  | .append eventId =>
    match x.phase with
    | .created id =>
      match s.insertEvent eventId with
      | .inserted => some { x with
          phase := .appended id
          rows := { x.rows with events :=
            [⟨eventId, id, s.nextSequence x.rows id, .taskCreated, x.request.repositoryUrl⟩] } }
      | .waits => none
      | .violates => some x.fail
    | _ => none
  | .publish =>
    match x.phase with
    | .appended id => some { x with phase := .returned id true }
    | _ => none
  | .commit =>
    match x.phase with
    | .returned id isNew => some { x with phase := .succeeded id isNew }
    | _ => none
  | .fail => if x.phase.isOpen then some x.fail else none

/-- **One step of one request.** -/
def step (sha256 : String → String) (s : Store) : Action → Store
  | .arrive request => { s with sessions := s.sessions ++ [⟨request, .started, {}⟩] }
  | .act i m =>
    match s.sessions[i]? with
    | some x =>
      match s.move sha256 x m with
      | some x' => ⟨if m = .commit then s.commits ++ [⟨i, x.rows⟩] else s.commits,
        s.sessions.set i x'⟩
      | none => s
    | none => s

/-- No request yet. -/
def empty : Store := ⟨[], []⟩

end Store

/-! ## The property -/

namespace Store

/-- The request at `i` carries the key and returned that it created its task. -/
def CreatesAt (s : Store) (key : String) (i : ℕ) : Prop :=
  ∃ x id, s.sessions[i]? = some x ∧ x.request.idempotencyKey = some key ∧
    x.phase = .succeeded id true

/-- **An idempotency key names one task.** -/
structure NamesOne (s : Store) (key : String) : Prop where
  /-- No two committed tasks carry it. -/
  unique : s.tasks.Pairwise fun t t' =>
    ¬ (t.idempotencyKey = some key ∧ t'.idempotencyKey = some key)
  /-- A request with it that succeeds returns the id of the committed task that carries it. -/
  names : ∀ x ∈ s.sessions, x.request.idempotencyKey = some key → ∀ id isNew,
    x.phase = .succeeded id isNew → ∃ t ∈ s.tasks, t.idempotencyKey = some key ∧ t.id = id
  /-- Exactly one of those that succeed returns `created = True`. -/
  creates : ∀ x ∈ s.sessions, x.request.idempotencyKey = some key → x.phase.isCommitted = true →
    ∃! i, s.CreatesAt key i

/-- **A request that fails leaves no row behind**: none of what is committed was written by it. -/
def Traceless (s : Store) : Prop :=
  ∀ (i : ℕ) (x : Session), s.sessions[i]? = some x → x.phase = .failed →
    ∀ c ∈ s.commits, c.session ≠ i

end Store

/-! ## What every reachable store satisfies -/

/-- The two primary keys. -/
inductive Column where
  | taskId | key

/-- The values of a column in some rows. -/
def Rows.used (rows : Rows) : Column → List String
  | .taskId => rows.tasks.map (·.id)
  | .key => rows.keys.map (·.key)

/-- The rows of a session are those of its phase. -/
def Session.Written (sha256 : String → String) (x : Session) : Prop :=
  match x.phase.wrote? with
  | some id => x.rows.tasks = [x.request.task id] ∧ x.rows.keys = x.request.records sha256 id
  | none => x.rows = {}

namespace Store

/-- What a session has read is committed. -/
def Reads (s : Store) (x : Session) : Prop :=
  match x.phase with
  | .found record => record ∈ s.keys ∧ x.request.key? = some record.key
  | .returned id false | .succeeded id false =>
    ∃ t ∈ s.tasks, t.id = id ∧ t.idempotencyKey = x.request.idempotencyKey
  | _ => True

/-- **The invariant.** -/
structure Consistent (sha256 : String → String) (s : Store) : Prop where
  written : ∀ x ∈ s.sessions, x.Written sha256
  reads : ∀ x ∈ s.sessions, s.Reads x
  /-- The commits are those of the sessions that are committed, one each. -/
  committed : ∀ c ∈ s.commits, ∃ x, s.sessions[c.session]? = some x ∧ x.rows = c.rows ∧
    x.phase.isCommitted = true
  durable : ∀ (i : ℕ) (x : Session), s.sessions[i]? = some x → x.phase.isCommitted = true →
    ⟨i, x.rows⟩ ∈ s.commits
  once : (s.commits.map (·.session)).Nodup
  /-- The primary keys, over committed and open transactions. -/
  exclusive : ∀ col v, Processes.AtMostOne (fun x : Session => v ∈ x.rows.used col) s.sessions

/-! ## Moves -/

section Moves

variable {sha256 : String → String} {s : Store} {x x' : Session} {m : Move} {i : ℕ}

/-- **Everything a move can do.** -/
inductive Moved (sha256 : String → String) (s : Store) (x : Session) : Move → Session → Prop
  | misses {m : Move} (h : x.phase = .started ∨ ∃ record, x.phase = .found record)
    (hm : m ≠ .commit) :
      Moved sha256 s x m { x with phase := .creating }
  | finds {record} (h : x.phase = .started) (hmem : record ∈ s.keys)
      (hkey : x.request.key? = some record.key) :
        Moved sha256 s x .find { x with phase := .found record }
  | gets {record task} (h : x.phase = .found record) (hmem : task ∈ s.tasks)
      (hid : task.id = record.taskId) : Moved sha256 s x .get { x
        with phase := .returned task.id false }
  | inserts {id} (h : x.phase = .creating)
      (hins : s.insertTask (x.request.task id) (x.request.records sha256 id) = .inserted) :
      Moved sha256 s x (.create id) { x with
        phase := .created id
        rows := { x.rows with tasks := [x.request.task id], keys := x.request.records sha256 id } }
  | appends {id eventId events} (h : x.phase = .created id) :
      Moved sha256 s x (.append eventId) { x with
        phase := .appended id, rows := { x.rows with events := events } }
  | publishes {id} (h : x.phase = .appended id) :
      Moved sha256 s x .publish { x with phase := .returned id true }
  | commits {id isNew} (h : x.phase = .returned id isNew) :
      Moved sha256 s x .commit { x with phase := .succeeded id isNew }
  | fails {m : Move} (h : x.phase.isOpen = true) (hm : m ≠ .commit) : Moved sha256 s x m x.fail

theorem moved_find (h : x.phase = .started) : Moved sha256 s x .find (s.find sha256 x) := by
  unfold find
  split
  · exact .misses (.inl h) (by simp)
  · rename_i key hkey
    split
    · exact .misses (.inl h) (by simp)
    · rename_i record hrecord
      split_ifs
      · have hkeyed : record.key = key := by simpa using List.find?_some hrecord
        exact .finds h (List.mem_of_find?_eq_some hrecord) (hkeyed ▸ hkey)
      · exact .fails (by simp [h, Phase.isOpen]) (by simp)

theorem moved_of_move (h : s.move sha256 x m = some x') : Moved sha256 s x m x' := by
  cases m with
  | find =>
    rw [move] at h
    split_ifs at h with hphase
    obtain rfl := Option.some.inj h
    exact moved_find hphase
  | get =>
    rw [move] at h
    split at h
    · rename_i record hphase
      split at h
      · rename_i task htask
        obtain rfl := Option.some.inj h
        exact .gets hphase (List.mem_of_find?_eq_some htask) (by simpa using List.find?_some htask)
      · obtain rfl := Option.some.inj h
        exact .misses (.inr ⟨record, hphase⟩) (by simp)
    · exact absurd h (by simp)
  | create id =>
    rw [move] at h
    split_ifs at h with hphase
    split at h
    · rename_i hins
      obtain rfl := Option.some.inj h
      exact .inserts hphase hins
    · exact absurd h (by simp)
    · obtain rfl := Option.some.inj h
      exact .fails (by simp [hphase, Phase.isOpen]) (by simp)
  | append eventId =>
    rw [move] at h
    split at h
    · rename_i id hphase
      split at h
      · obtain rfl := Option.some.inj h
        exact .appends hphase
      · exact absurd h (by simp)
      · obtain rfl := Option.some.inj h
        exact .fails (by simp [hphase, Phase.isOpen]) (by simp)
    · exact absurd h (by simp)
  | publish =>
    rw [move] at h
    split at h
    · rename_i id hphase
      obtain rfl := Option.some.inj h
      exact .publishes hphase
    · exact absurd h (by simp)
  | commit =>
    rw [move] at h
    split at h
    · rename_i id isNew hphase
      obtain rfl := Option.some.inj h
      exact .commits hphase
    · exact absurd h (by simp)
  | fail =>
    rw [move] at h
    split_ifs at h with hphase
    obtain rfl := Option.some.inj h
    exact .fails hphase (by simp)

end Moves

/-! ## The primary keys -/

section PrimaryKeys

variable {sha256 : String → String} {s : Store} {col : Column} {v : String}

/-- The values of a column in the committed rows. -/
def committedUse (s : Store) (col : Column) : List String := s.commits.flatMap (·.rows.used col)

/-- …and in those of the open transactions. -/
def pendingUse (s : Store) (col : Column) : List String := s.pending.flatMap (·.used col)

theorem insertion_eq_inserted {committed pending new : List String}
    (h : insertion committed pending new = .inserted)
    (hv : v ∈ new) : v ∉ committed ∧ v ∉ pending := by
  rw [insertion] at h
  split_ifs at h with hcommitted hpending
  exact ⟨fun hmem => hcommitted ⟨v, hv, hmem⟩, fun hmem => hpending ⟨v, hv, hmem⟩⟩

/-- What a flush inserts is in neither. -/
theorem insertTask_eq_inserted {x : Session} {id : String}
    (h : s.insertTask (x.request.task id) (x.request.records sha256 id) = .inserted)
    (hv : v ∈ Rows.used { x.rows with
      tasks := [x.request.task id], keys := x.request.records sha256 id } col) :
    v ∉ s.committedUse col ∧ v ∉ s.pendingUse col := by
  rw [insertTask] at h
  split at h
  · rename_i hid
    cases col with
    | taskId =>
      have hfree := insertion_eq_inserted hid hv
      rwa [tasks, List.map_flatMap] at hfree
    | key =>
      have hfree := insertion_eq_inserted h hv
      rwa [keys, List.map_flatMap] at hfree
  · rename_i hother
    exact absurd h hother

/-- A session either is open, is committed, or has no rows. -/
theorem Consistent.unused (hs : s.Consistent sha256) (hcommitted : v ∉ s.committedUse col)
    (hpending : v ∉ s.pendingUse col) : ∀ y ∈ s.sessions, v ∉ y.rows.used col := by
  intro y hy hv
  obtain ⟨j, hj⟩ := List.getElem?_of_mem hy
  rcases hopen : y.phase.isOpen with _ | _
  · rcases hphase : y.phase.isCommitted with _ | _
    · have hfailed : y.phase.wrote? = none := by
        rcases y with ⟨request, phase, rows⟩
        cases phase <;> simp_all [Phase.isOpen, Phase.isCommitted, Phase.wrote?]
      have hrows := hs.written y hy
      simp only [Session.Written, hfailed] at hrows
      rw [hrows] at hv
      cases col <;> simp [Rows.used] at hv
    · exact hcommitted (List.mem_flatMap.mpr ⟨_, hs.durable j y hj hphase, hv⟩)
  · refine hpending (List.mem_flatMap.mpr ⟨y.rows, ?_, hv⟩)
    exact List.mem_map_of_mem (List.mem_filter.mpr ⟨hy, hopen⟩)

end PrimaryKeys

/-! ## Steps -/

section Steps

variable {sha256 : String → String} {s s' : Store} {x x' : Session} {m : Move} {i : ℕ}

theorem Reads.mono (hcommits : s.commits ⊆ s'.commits) (h : s.Reads x) : s'.Reads x := by
  have htasks : s.tasks ⊆ s'.tasks := fun t ht => by
    obtain ⟨c, hc, ht⟩ := List.mem_flatMap.mp ht
    exact List.mem_flatMap.mpr ⟨c, hcommits hc, ht⟩
  have hkeys : s.keys ⊆ s'.keys := fun r hr => by
    obtain ⟨c, hc, hr⟩ := List.mem_flatMap.mp hr
    exact List.mem_flatMap.mpr ⟨c, hcommits hc, hr⟩
  unfold Reads at h ⊢
  split at h
  · exact ⟨hkeys h.1, h.2⟩
  · obtain ⟨t, ht, hid, hkey⟩ := h
    exact ⟨t, htasks ht, hid, hkey⟩
  · obtain ⟨t, ht, hid, hkey⟩ := h
    exact ⟨t, htasks ht, hid, hkey⟩
  · trivial

/-- **A session that is not committed moves on**, with what it had inserted and values nobody
uses. -/
theorem Consistent.set (hs : s.Consistent sha256) (hi : s.sessions[i]? = some x)
    (hx : x.phase.isCommitted = false) (hx' : x'.phase.isCommitted = false)
    (hwritten : x'.Written sha256) (hreads : s.Reads x')
    (hused : ∀ col v, v ∈ x'.rows.used col → v ∈ x.rows.used col ∨
      ∀ y ∈ s.sessions, v ∉ y.rows.used col) :
    Consistent sha256 ⟨s.commits, s.sessions.set i x'⟩ where
  written := Processes.forall_set hs.written hwritten
  reads := Processes.forall_set hs.reads hreads
  committed c hc := by
    obtain ⟨y, hy, hrows, hphase⟩ := hs.committed c hc
    have hne : i ≠ c.session := by
      rintro rfl
      obtain rfl := Option.some.inj (hi.symm.trans hy)
      exact Bool.false_ne_true (hx.symm.trans hphase)
    exact ⟨y, by rw [List.getElem?_set_ne hne]; exact hy, hrows, hphase⟩
  durable j y hj hy := by
    rcases Processes.getElem?_set_cases hj with ⟨-, rfl⟩ | ⟨-, hj⟩
    · exact absurd (hx'.symm.trans hy) Bool.false_ne_true
    · exact hs.durable j y hj hy
  once := hs.once
  exclusive col v := by
    by_cases hv : v ∈ x'.rows.used col
    · rcases hused col v hv with hold | hnone
      · exact (hs.exclusive col v).set fun _ => ⟨x, hi, hold⟩
      · exact Processes.atMostOne_set_of_none hnone
    · exact (hs.exclusive col v).set fun h => absurd h hv

/-- **A session is committed.** -/
theorem Consistent.commit (hs : s.Consistent sha256) (hi : s.sessions[i]? = some x) {id : String}
    {isNew : Bool} (hphase : x.phase = .returned id isNew) :
    Consistent sha256 ⟨s.commits ++ [⟨i, x.rows⟩],
      s.sessions.set i { x with phase := .succeeded id isNew }⟩ := by
  have hmem := List.mem_of_getElem? hi
  have hgrows : s.commits ⊆ s.commits ++ [⟨i, x.rows⟩] := List.subset_append_left _ _
  have hfresh : ∀ c ∈ s.commits, c.session ≠ i := by
    rintro c hc rfl
    obtain ⟨y, hy, -, hcommitted⟩ := hs.committed c hc
    obtain rfl := Option.some.inj (hi.symm.trans hy)
    simp [hphase, Phase.isCommitted] at hcommitted
  obtain ⟨hlt, -⟩ := List.getElem?_eq_some_iff.mp hi
  refine ⟨?_, ?_, ?_, ?_, ?_, ?_⟩
  · refine Processes.forall_set hs.written ?_
    have hwritten := hs.written x hmem
    cases isNew <;> simpa [Session.Written, hphase, Phase.wrote?] using hwritten
  · refine Processes.forall_set (fun y hy => (hs.reads y hy).mono hgrows) ?_
    have hreads : Reads ⟨s.commits ++ [⟨i, x.rows⟩], s.sessions⟩ x := (hs.reads x hmem).mono hgrows
    cases isNew
    · simpa [Reads, hphase, tasks] using hreads
    · trivial
  · intro c hc
    rcases List.mem_append.mp hc with hc | hc
    · obtain ⟨y, hy, hrows, hcommitted⟩ := hs.committed c hc
      exact ⟨y, by rw [List.getElem?_set_ne (hfresh c hc).symm]; exact hy, hrows, hcommitted⟩
    · obtain rfl := List.mem_singleton.mp hc
      exact ⟨_, List.getElem?_set_self hlt, rfl, rfl⟩
  · intro j y hj hy
    rcases Processes.getElem?_set_cases hj with ⟨rfl, rfl⟩ | ⟨-, hj⟩
    · exact List.mem_append_right _ (List.mem_singleton.mpr rfl)
    · exact List.mem_append_left _ (hs.durable j y hj hy)
  · rw [List.map_append, List.nodup_append]
    refine ⟨hs.once, List.nodup_singleton _, fun j hj k hk => ?_⟩
    obtain ⟨c, hc, rfl⟩ := List.mem_map.mp hj
    obtain rfl := List.mem_singleton.mp hk
    exact hfresh c hc
  · exact fun col v => (hs.exclusive col v).set fun hv => ⟨x, hi, hv⟩

theorem key?_eq_some {r : Request} {key : String} :
    r.key? = some key ↔ r.idempotencyKey = some key ∧ key ≠ "" := by
  simp [Request.key?, Option.filter_eq_some_iff]

/-- A session with a task has inserted that task and its record. -/
theorem written_of_task (h : x.Written sha256) {t : Task} (ht : t ∈ x.rows.tasks) :
    ∃ id, x.phase.wrote? = some id ∧ t = x.request.task id ∧ x.rows.tasks = [t] ∧
      x.rows.keys = x.request.records sha256 id := by
  rcases hw : x.phase.wrote? with _ | id
  · rw [Session.Written, hw] at h
    rw [h] at ht
    exact absurd ht (by simp)
  · rw [Session.Written, hw] at h
    obtain ⟨htasks, hkeys⟩ := h
    rw [htasks] at ht
    obtain rfl := List.mem_singleton.mp ht
    exact ⟨id, rfl, rfl, htasks, hkeys⟩

/-- …and so has one with a record. -/
theorem written_of_record (h : x.Written sha256) {r : IdempotencyRecord} (hr : r ∈ x.rows.keys) :
    x.rows.tasks = [x.request.task r.taskId] ∧ x.request.idempotencyKey = some r.key := by
  rcases hw : x.phase.wrote? with _ | id
  · rw [Session.Written, hw] at h
    rw [h] at hr
    exact absurd hr (by simp)
  · rw [Session.Written, hw] at h
    obtain ⟨htasks, hkeys⟩ := h
    rw [hkeys, Request.records] at hr
    obtain ⟨key, hkey, rfl⟩ := List.mem_map.mp hr
    exact ⟨htasks, (key?_eq_some.mp (Option.mem_toList.mp hkey)).1⟩

/-- **The task a committed record leads to carries the record's key.** -/
theorem Consistent.key_of_record (hs : s.Consistent sha256) {r : IdempotencyRecord} {t : Task}
    (hr : r ∈ s.keys) (ht : t ∈ s.tasks)
    (hid : t.id = r.taskId) : t.idempotencyKey = some r.key := by
  obtain ⟨c, hc, hr⟩ := List.mem_flatMap.mp hr
  obtain ⟨y, hy, hrows, -⟩ := hs.committed c hc
  rw [← hrows] at hr
  obtain ⟨htasks, hkey⟩ := written_of_record (hs.written y (List.mem_of_getElem? hy)) hr
  obtain ⟨c', hc', ht⟩ := List.mem_flatMap.mp ht
  obtain ⟨z, hz, hrows', -⟩ := hs.committed c' hc'
  rw [← hrows'] at ht
  -- the primary key of `tasks`: the two commits are one
  have hsame : c.session = c'.session := by
    refine hs.exclusive .taskId t.id _ _ y z hy hz ?_ (List.mem_map_of_mem ht)
    simp [Rows.used, htasks, Request.task, hid]
  rw [hsame] at hy
  obtain rfl := Option.some.inj (hz.symm.trans hy)
  rw [htasks] at ht
  rw [List.mem_singleton.mp ht]
  exact hkey

/-- A session that has inserted nothing goes on with nothing. -/
theorem Consistent.set_unwritten (hs : s.Consistent sha256)
    (hi : s.sessions[i]? = some x) {phase : Phase}
    (hwrote : x.phase.wrote? = none) (hwrote' : phase.wrote? = none)
    (hx : x.phase.isCommitted = false)
    (hx' : phase.isCommitted = false) (hreads : s.Reads { x with phase := phase }) :
    Consistent sha256 ⟨s.commits, s.sessions.set i { x with phase := phase }⟩ := by
  refine hs.set hi hx hx' ?_ hreads fun _ _ hv => .inl hv
  have hwritten := hs.written x (List.mem_of_getElem? hi)
  simpa [Session.Written, hwrote, hwrote'] using hwritten

/-- A session with its rows goes on with them. -/
theorem Consistent.set_written (hs : s.Consistent sha256)
    (hi : s.sessions[i]? = some x) {id : String}
    (events : List CreatedEvent) (phase : Phase) (hwrote : x.phase.wrote? = some id)
    (hwrote' : phase.wrote? = some id) (hx : x.phase.isCommitted = false)
    (hx' : phase.isCommitted = false)
    (hreads : s.Reads ⟨x.request, phase, { x.rows with events := events }⟩) :
    Consistent sha256 ⟨s.commits, s.sessions.set i ⟨x.request, phase,
      { x.rows with events := events }⟩⟩ := by
  refine hs.set hi hx hx' ?_ hreads fun col _ hv => .inl (by cases col <;> exact hv)
  have hwritten := hs.written x (List.mem_of_getElem? hi)
  simpa [Session.Written, hwrote, hwrote'] using hwritten

/-- **Every move keeps the store consistent.** -/
theorem Consistent.act (hs : s.Consistent sha256) (hi : s.sessions[i]? = some x)
    (hm : Moved sha256 s x m x') :
    Consistent sha256 ⟨if m = .commit then s.commits ++ [⟨i, x.rows⟩] else s.commits,
      s.sessions.set i x'⟩ := by
  have hmem := List.mem_of_getElem? hi
  cases hm with
  | misses hphase hm =>
    rw [if_neg hm]
    rcases hphase with hphase | ⟨record, hphase⟩
    · exact hs.set_unwritten hi (by rw [hphase]; rfl) rfl (by rw [hphase]; rfl) rfl trivial
    · exact hs.set_unwritten hi (by rw [hphase]; rfl) rfl (by rw [hphase]; rfl) rfl trivial
  | finds hphase hrecord hkey =>
    exact hs.set_unwritten hi (by rw [hphase]; rfl) rfl (by rw [hphase]; rfl) rfl ⟨hrecord, hkey⟩
  | @gets record task hphase htask hid =>
    have hread := hs.reads x hmem
    rw [Reads, hphase] at hread
    have hkey := hs.key_of_record hread.1 htask hid
    refine hs.set_unwritten hi (by rw [hphase]; rfl) rfl (by rw [hphase]; rfl) rfl ?_
    exact ⟨task, htask, rfl, hkey.trans (key?_eq_some.mp hread.2).1.symm⟩
  | inserts hphase hins =>
    refine hs.set hi (by rw [hphase]; rfl) rfl ⟨rfl, rfl⟩ trivial fun col v hv => .inr ?_
    have hfree := insertTask_eq_inserted hins hv
    exact hs.unused hfree.1 hfree.2
  | @appends id eventId events hphase =>
    exact hs.set_written hi _ _ (by rw [hphase]; rfl) rfl (by rw [hphase]; rfl) rfl trivial
  | @publishes id hphase =>
    exact hs.set_written hi x.rows.events (.returned id true) (by rw [hphase]; rfl) rfl
      (by rw [hphase]; rfl) rfl trivial
  | commits hphase => exact hs.commit hi hphase
  | fails hopen hm =>
    rw [if_neg hm]
    have hx : x.phase.isCommitted = false := by
      cases hphase : x.phase <;> simp_all [Phase.isOpen, Phase.isCommitted]
    exact hs.set hi hx rfl rfl trivial fun col v hv => by
      cases col <;> simp [Session.fail, Rows.used] at hv

theorem Consistent.step (hs : s.Consistent sha256) (a : Action) :
    (s.step sha256 a).Consistent sha256 := by
  cases a with
  | arrive request =>
    have hset : ∀ y ∈ s.sessions ++ [⟨request, .started, {}⟩], y.Written sha256 :=
      Processes.forall_append hs.written rfl
    refine ⟨hset, Processes.forall_append hs.reads trivial, fun c hc => ?_,
      fun j y hj hy => ?_, hs.once, fun col v =>
      (hs.exclusive col v).append (by cases col <;> simp [Rows.used])⟩
    · obtain ⟨y, hy, h⟩ := hs.committed c hc
      obtain ⟨hlt, -⟩ := List.getElem?_eq_some_iff.mp hy
      exact ⟨y, by rw [Store.step, List.getElem?_append_left hlt]; exact hy, h⟩
    · rcases Processes.getElem?_append_cases hj with rfl | hj
      · exact absurd hy (by simp [Phase.isCommitted])
      · exact hs.durable j y hj hy
  | act i m =>
    rw [Store.step]
    split
    · rename_i x hi
      split
      · rename_i x' hx'
        exact hs.act hi (moved_of_move hx')
      · exact hs
    · exact hs

theorem consistent_empty : empty.Consistent sha256 :=
  ⟨by simp [empty], by simp [empty], by simp [empty], by simp [empty], by simp [empty],
    fun _ _ i j x y hi => by simp [empty] at hi⟩

/-- **Every reachable store is consistent.** -/
theorem consistent_run (sha256 : String → String) (as : List Action) :
    (Runs.run (Store.step sha256) empty as).Consistent sha256 :=
  Runs.run_invariant (fun _ a hs => hs.step a) consistent_empty as

end Steps

/-! ## The key names one task -/

section Names

variable {sha256 : String → String} {s : Store} {key : String}

/-- The session of a committed task, which is committed, created it and carries its key. -/
theorem Consistent.creator (hs : s.Consistent sha256) {c : Commit} (hc : c ∈ s.commits) {t : Task}
    (ht : t ∈ c.rows.tasks) : ∃ x, s.sessions[c.session]? = some x ∧ c.rows.tasks = [t] ∧
      x.request.idempotencyKey = t.idempotencyKey ∧ x.phase = .succeeded t.id true ∧
      x.rows.keys = x.request.records sha256 t.id := by
  obtain ⟨x, hx, hrows, hcommitted⟩ := hs.committed c hc
  rw [← hrows] at ht
  obtain ⟨id, hwrote, rfl, htasks, hkeys⟩ :=
    written_of_task (hs.written x (List.mem_of_getElem? hx)) ht
  refine ⟨x, hx, hrows ▸ htasks, rfl, ?_, hkeys⟩
  rcases x with ⟨request, phase, rows⟩
  cases phase with
  | succeeded id' isNew => cases isNew <;> simp_all [Phase.wrote?, Request.task]
  | _ => simp [Phase.isCommitted] at hcommitted

/-- A session that created a task with the key holds the key. -/
theorem key_mem_used {x : Session} {id : String} (hkey : key ≠ "")
    (hrequest : x.request.idempotencyKey = some key)
    (hkeys : x.rows.keys = x.request.records sha256 id) :
    key ∈ x.rows.used .key := by
  have hkey? := key?_eq_some.mpr ⟨hrequest, hkey⟩
  simp [Rows.used, hkeys, Request.records, hkey?]

/-- The tasks of two commits do not both carry the key. -/
theorem Consistent.session_eq (hs : s.Consistent sha256) (hkey : key ≠ "") {c c' : Commit}
    (hc : c ∈ s.commits) (hc' : c' ∈ s.commits) {t t' : Task} (ht : t ∈ c.rows.tasks)
    (ht' : t' ∈ c'.rows.tasks) (hcarries : t.idempotencyKey = some key)
    (hcarries' : t'.idempotencyKey = some key) : c.session = c'.session := by
  obtain ⟨x, hx, -, hrequest, -, hkeys⟩ := hs.creator hc ht
  obtain ⟨x', hx', -, hrequest', -, hkeys'⟩ := hs.creator hc' ht'
  exact hs.exclusive .key key _ _ x x' hx hx' (key_mem_used hkey (hrequest.trans hcarries) hkeys)
    (key_mem_used hkey (hrequest'.trans hcarries') hkeys')

theorem Consistent.unique (hs : s.Consistent sha256) (hkey : key ≠ "") :
    s.tasks.Pairwise fun t t' => ¬ (t.idempotencyKey = some key ∧
      t'.idempotencyKey = some key) := by
  rw [tasks, List.pairwise_flatMap]
  constructor
  · intro c hc
    rcases htasks : c.rows.tasks with _ | ⟨t, ts⟩
    · exact List.Pairwise.nil
    · obtain ⟨-, -, hone, -⟩ := hs.creator hc (htasks ▸ List.mem_cons_self)
      rw [← htasks, hone]
      exact List.pairwise_singleton _ _
  · have honce : s.commits.Pairwise fun c c' => c.session ≠ c'.session :=
      List.pairwise_map.mp hs.once
    refine honce.imp_of_mem fun hc hc' hne t ht t' ht' h => hne ?_
    exact hs.session_eq hkey hc hc' ht ht' h.1 h.2

theorem Consistent.names (hs : s.Consistent sha256) {x : Session} (hx : x ∈ s.sessions)
    (hrequest : x.request.idempotencyKey = some key) {id : String} {isNew : Bool}
    (hphase : x.phase = .succeeded id isNew) :
    ∃ t ∈ s.tasks, t.idempotencyKey = some key ∧ t.id = id := by
  obtain ⟨i, hi⟩ := List.getElem?_of_mem hx
  cases isNew with
  | false =>
    have hreads := hs.reads x hx
    rw [Reads, hphase] at hreads
    obtain ⟨t, ht, hid, hcarries⟩ := hreads
    exact ⟨t, ht, hcarries.trans hrequest, hid⟩
  | true =>
    have hwritten := hs.written x hx
    rw [Session.Written, hphase] at hwritten
    have hdurable := hs.durable i x hi (by rw [hphase]; rfl)
    refine ⟨x.request.task id, List.mem_flatMap.mpr ⟨_, hdurable, ?_⟩, hrequest, rfl⟩
    rw [hwritten.1]
    exact List.mem_singleton.mpr rfl

theorem Consistent.creates (hs : s.Consistent sha256) (hkey : key ≠ "") {x : Session}
    (hx : x ∈ s.sessions) (hrequest : x.request.idempotencyKey = some key)
    (hcommitted : x.phase.isCommitted = true) : ∃! i, s.CreatesAt key i := by
  obtain ⟨id, isNew, hphase⟩ : ∃ id isNew, x.phase = .succeeded id isNew := by
    cases hphase : x.phase <;> simp_all [Phase.isCommitted]
  obtain ⟨t, ht, hcarries, -⟩ := hs.names hx hrequest hphase
  obtain ⟨c, hc, ht⟩ := List.mem_flatMap.mp ht
  obtain ⟨y, hy, -, hrequest', hphase', -⟩ := hs.creator hc ht
  refine ⟨c.session, ⟨y, t.id, hy, hrequest'.trans hcarries, hphase'⟩, ?_⟩
  rintro j ⟨z, id', hz, hrequest'', hphase''⟩
  have hdurable := hs.durable j z hz (by rw [hphase'']; rfl)
  have hwritten := hs.written z (List.mem_of_getElem? hz)
  rw [Session.Written, hphase''] at hwritten
  have hmem : z.request.task id' ∈ z.rows.tasks := by
    rw [hwritten.1]
    exact List.mem_singleton.mpr rfl
  exact (hs.session_eq hkey hc hdurable ht hmem hcarries hrequest'').symm

theorem Consistent.traceless (hs : s.Consistent sha256) : s.Traceless := by
  rintro i x hx hphase c hc rfl
  obtain ⟨y, hy, -, hcommitted⟩ := hs.committed c hc
  obtain rfl := Option.some.inj (hx.symm.trans hy)
  rw [hphase] at hcommitted
  exact Bool.false_ne_true hcommitted

/-- **After every run of any number of requests a key names one task, and the requests that failed
have left nothing.** -/
theorem namesOne_run (sha256 : String → String) (as : List Action)
    (key : String) (hkey : key ≠ "") : (Runs.run (Store.step sha256) empty as).NamesOne key ∧
      (Runs.run (Store.step sha256) empty as).Traceless := by
  have hs := consistent_run sha256 as
  exact ⟨⟨hs.unique hkey, fun x hx hrequest _ _ => hs.names hx hrequest,
    fun x hx hrequest => hs.creates hkey hx hrequest⟩, hs.traceless⟩

end Names

/-- Two requests with one key, both past the lookup before either inserts; the second fails on the
primary key, and a third is given the first one's task. -/
def raced : List Action :=
  let request : Request := ⟨"file://order-service", none, "issue", none, some "abc-123"⟩
  [.arrive request, .arrive request, .act 0 .find, .act 1 .find, .act 0 (.create "TASK-1"),
    .act 1 (.create "TASK-2"), .act 0 (.append "evt-1"), .act 0 .publish, .act 0 .commit,
    .act 1 (.create "TASK-2"), .arrive request, .act 2 .find, .act 2 .get, .act 2 .commit]

theorem namesOne_raced :
    (Runs.run (Store.step id) empty raced).sessions.map (·.phase)
        = [.succeeded "TASK-1" true, .failed, .succeeded "TASK-1" false] ∧
      (Runs.run (Store.step id) empty raced).NamesOne "abc-123" ∧
      (Runs.run (Store.step id) empty raced).Traceless :=
  ⟨by decide +kernel, namesOne_run id raced "abc-123" (by decide)⟩

end Store

end Creation

end AgentPlatform
