import AgentPlatform.Core.Domain
import AgentPlatform.Machinery.Processes
import AgentPlatform.Machinery.Runs

/-!
# Persistence/Events — the event log of one task, and the numbers of its rows

`EventRepository.append` reads the next number in one statement and inserts the row in another, and
the row becomes visible to others when its transaction commits.  Under read-committed isolation a
statement sees what is committed when it runs, and the transaction's own rows.

The numbers identify the events, in the order of their commits, exactly as long as a transaction
that appended finds the log at its commit as its first `SELECT max` had found it
(`undisturbed_iff_sequencesIdentify`).
-/

namespace AgentPlatform

/-- `TaskEvent`: a row of `task_events`, for the one task. -/
structure TaskEvent where
  id : ℕ
  sequence : ℕ
  type : EventType
  deriving DecidableEq, Repr

/-- Who appends: `WorkflowContext.emit`, in a transaction for the one event, or an API request. -/
inductive Writer where
  | worker | api
  deriving DecidableEq, Repr

/-- A transaction. -/
structure Transaction where
  writer : Writer
  /-- Neither committed nor rolled back. -/
  isOpen : Bool
  /-- What its first `SELECT max` found committed. -/
  snapshot : Option (List (List TaskEvent))
  /-- A number read and not inserted yet. -/
  nextSequence : Option ℕ
  /-- The rows it has inserted. -/
  rows : List TaskEvent
  deriving DecidableEq, Repr

/-- The log: the rows of each commit that had some, oldest first, and the transactions. -/
structure EventLog where
  commits : List (List TaskEvent)
  transactions : List Transaction
  nextId : ℕ
  deriving DecidableEq, Repr

/-- What a transaction does next. -/
inductive LogAction where
  | begin (writer : Writer)
  | select (i : ℕ)
  | insert (i : ℕ) (type : EventType)
  | commit (i : ℕ)
  | rollback (i : ℕ)
  deriving DecidableEq, Repr

/-- `coalesce(max(sequence), 0)`. -/
def maxSequence (rows : List TaskEvent) : ℕ := (rows.map (·.sequence)).foldr max 0

namespace EventLog

/-- The log before the task's first event. -/
def empty : EventLog := ⟨[], [], 0⟩

/-- The committed events, in the order of their commits. -/
def durable (s : EventLog) : List TaskEvent := s.commits.flatten

/-- The transaction at `i` becomes `t`. -/
def put (s : EventLog) (i : ℕ) (t : Transaction) : EventLog :=
  { s with transactions := s.transactions.set i t }

/-- A worker's transaction is for one event. -/
def maySelect (t : Transaction) : Bool :=
  t.isOpen && t.nextSequence.isNone && (t.writer = .api || t.rows.isEmpty)

/-- `append` has returned. -/
def mayCommit (t : Transaction) : Bool := t.isOpen && t.nextSequence.isNone

/-- **One statement of one transaction.** -/
def step (s : EventLog) : LogAction → EventLog
  | .begin writer => { s with transactions := s.transactions ++ [⟨writer, true, none, none, []⟩] }
  | .select i =>
    match s.transactions[i]? with
    | some t =>
      if maySelect t then s.put i { t with
        snapshot := t.snapshot <|> some s.commits
        nextSequence := some (maxSequence (s.durable ++ t.rows) + 1) } else s
    | none => s
  | .insert i type =>
    match s.transactions[i]? with
    | some t =>
      match t.isOpen, t.nextSequence with
      | true, some n => { s.put i { t with nextSequence := none, rows := t.rows
        ++ [⟨s.nextId, n, type⟩] }
          with nextId := s.nextId + 1 }
      | _, _ => s
    | none => s
  | .commit i =>
    match s.transactions[i]? with
    | some t =>
      if mayCommit t then { s.put i { t with isOpen := false } with
        commits := if t.rows = [] then s.commits else s.commits ++ [t.rows] } else s
    | none => s
  | .rollback i =>
    match s.transactions[i]? with
    | some t => s.put i { t with isOpen := false }
    | none => s

/-- **Sequence numbers identify events**: no two committed events share one, and no event has a
smaller one than an event committed before. -/
structure SequencesIdentify (s : EventLog) : Prop where
  distinct : (s.durable.map (·.sequence)).Nodup
  ordered : s.commits.Pairwise fun earlier later =>
    ∀ e ∈ earlier, ∀ l ∈ later, e.sequence ≤ l.sequence

/-- A transaction that commits rows finds the log as its first `SELECT max` had found it. -/
def Undisturbed (s : EventLog) : LogAction → Prop
  | .commit i => ∀ t ∈ s.transactions[i]?, mayCommit t = true → t.rows ≠ [] →
      t.snapshot = some s.commits
  | _ => True

instance (s : EventLog) : ∀ a, Decidable (Undisturbed s a)
  | .commit i => inferInstanceAs (Decidable (∀ t ∈ s.transactions[i]?, _))
  | .begin _ | .select _ | .insert _ _ | .rollback _ => isTrue trivial

end EventLog

/-! ## The largest number -/

section MaxSequence

variable {rows rows' : List TaskEvent}

@[simp] theorem maxSequence_nil : maxSequence [] = 0 := rfl

@[simp] theorem maxSequence_cons (e : TaskEvent) :
    maxSequence (e :: rows) = max e.sequence (maxSequence rows) := rfl

theorem maxSequence_append :
    maxSequence (rows ++ rows') = max (maxSequence rows) (maxSequence rows') := by
  induction rows with
  | nil => simp
  | cons e rows ih =>
    rw [List.cons_append, maxSequence_cons, maxSequence_cons, ih]
    omega

theorem maxSequence_lt_iff {n : ℕ} :
    maxSequence rows < n ↔ 0 < n ∧ ∀ e ∈ rows, e.sequence < n := by
  induction rows with
  | nil => simp
  | cons e rows ih =>
    have hmax : max e.sequence (maxSequence rows) < n ↔ e.sequence < n ∧ maxSequence rows < n := by
      omega
    rw [maxSequence_cons, hmax, ih, List.forall_mem_cons]
    tauto

theorem le_maxSequence {e : TaskEvent} (h : e ∈ rows) : e.sequence ≤ maxSequence rows := by
  have hlt := (maxSequence_lt_iff.mp (Nat.lt_succ_self (maxSequence rows))).2 e h
  omega

end MaxSequence

namespace EventLog

variable {s : EventLog} {t : Transaction} {i : ℕ}

/-! ## What one statement does -/

/-- **A step moves one transaction**, and may begin one or commit one. -/
inductive Moves (s : EventLog) : LogAction → EventLog → Prop
  | stay (a : LogAction) (h : ∀ i, a = .commit i → ∀ t ∈ s.transactions[i]?, mayCommit t = false) :
      Moves s a s
  | begin (writer : Writer) : Moves s (.begin writer)
      { s with transactions := s.transactions ++ [⟨writer, true, none, none, []⟩] }
  | select (i : ℕ) (t : Transaction) (hi : s.transactions[i]? = some t) (ht : maySelect t = true) :
      Moves s (.select i) (s.put i { t with
        snapshot := t.snapshot <|> some s.commits
        nextSequence := some (maxSequence (s.durable ++ t.rows) + 1) })
  | insert (i : ℕ) (type : EventType) (t : Transaction) (n : ℕ) (hi : s.transactions[i]? = some t)
      (ht : t.isOpen = true) (hn : t.nextSequence = some n) :
      Moves s (.insert i type) { s.put i { t with
        nextSequence := none, rows := t.rows ++ [⟨s.nextId, n, type⟩] } with
        nextId := s.nextId + 1 }
  | commit (i : ℕ) (t : Transaction) (hi : s.transactions[i]? = some t) (ht : mayCommit t = true) :
      Moves s (.commit i) { s.put i { t with isOpen := false } with
        commits := if t.rows = [] then s.commits else s.commits ++ [t.rows] }
  | rollback (i : ℕ) (t : Transaction) (hi : s.transactions[i]? = some t) :
      Moves s (.rollback i) (s.put i { t with isOpen := false })

theorem moves_step (s : EventLog) (a : LogAction) : Moves s a (step s a) := by
  cases a with
  | begin writer => exact .begin writer
  | select i =>
    rcases hi : s.transactions[i]? with _ | t
    · simp only [step, hi]
      exact .stay _ (by simp)
    · simp only [step, hi]
      split
      · exact .select i t hi ‹_›
      · exact .stay _ (by simp)
  | insert i type =>
    rcases hi : s.transactions[i]? with _ | t
    · simp only [step, hi]
      exact .stay _ (by simp)
    · simp only [step, hi]
      split
      · exact .insert i type t _ hi ‹_› ‹_›
      · exact .stay _ (by simp)
  | commit i =>
    rcases hi : s.transactions[i]? with _ | t
    · simp only [step, hi]
      exact .stay _ (by rintro j ⟨⟩; simp [hi])
    · simp only [step, hi]
      split
      · exact .commit i t hi ‹_›
      · refine .stay _ ?_
        rintro j ⟨⟩
        simp_all
  | rollback i =>
    rcases hi : s.transactions[i]? with _ | t
    · simp only [step, hi]
      exact .stay _ (by simp)
    · simp only [step, hi]
      exact .rollback i t hi

/-! ## What a transaction knows -/

/-- **A transaction's numbers**: they follow on what its first `SELECT max` found, and grow. -/
structure Follows (commits : List (List TaskEvent)) (t : Transaction) : Prop where
  unread : t.snapshot = none → t.rows = [] ∧ t.nextSequence = none
  pending : t.snapshot ≠ none → t.rows = [] → t.nextSequence ≠ none
  found : ∀ snapshot ∈ t.snapshot, snapshot <+: commits
  first : ∀ snapshot ∈ t.snapshot, ∀ e ∈ t.rows.head?, e.sequence = maxSequence snapshot.flatten + 1
  next : ∀ snapshot ∈ t.snapshot, t.rows = [] → ∀ n ∈ t.nextSequence,
    n = maxSequence snapshot.flatten + 1
  above : ∀ n ∈ t.nextSequence, ∀ e ∈ t.rows, e.sequence < n
  grow : t.rows.Pairwise fun e l => e.sequence < l.sequence

/-- What every log keeps. -/
structure Sound (s : EventLog) : Prop where
  transactions : ∀ t ∈ s.transactions, Follows s.commits t
  nonempty : ∀ rows ∈ s.commits, rows ≠ []
  positive : ∀ e ∈ s.durable, 0 < e.sequence

theorem Follows.maxSequence_lt {commits snapshot : List (List TaskEvent)} (h : Follows commits t)
    (hsnapshot : t.snapshot = some snapshot) {e : TaskEvent} (he : e ∈ t.rows) :
    maxSequence snapshot.flatten < e.sequence := by
  rcases hrows : t.rows with _ | ⟨f, rows⟩
  · simp [hrows] at he
  have hfirst := h.first snapshot hsnapshot f (by simp [hrows])
  have hgrow := h.grow
  rw [hrows] at he hgrow
  rcases List.mem_cons.mp he with rfl | he
  · omega
  · have hlt := (List.pairwise_cons.mp hgrow).1 e he
    omega

/-- A log that grows takes nothing from a transaction. -/
theorem Follows.mono {commits commits' : List (List TaskEvent)} (h : Follows commits t)
    (hcommits : commits <+: commits') : Follows commits' t :=
  { h with found := fun snapshot hs => (h.found snapshot hs).trans hcommits }

/-- …and one that ends keeps what it knows. -/
theorem Follows.ended {commits : List (List TaskEvent)} (h : Follows commits t) :
    Follows commits { t with isOpen := false } :=
  ⟨h.unread, h.pending, h.found, h.first, h.next, h.above, h.grow⟩

theorem Follows.select (h : Follows s.commits t) (ht : maySelect t = true) :
    Follows s.commits { t with
      snapshot := t.snapshot <|> some s.commits
      nextSequence := some (maxSequence (s.durable ++ t.rows) + 1) } := by
  have hread : ∀ snapshot, (t.snapshot <|> some s.commits) = some snapshot →
      t.snapshot = some snapshot ∨ t.snapshot = none ∧ snapshot = s.commits := by
    intro snapshot hs
    rcases hsnap : t.snapshot with _ | known
    · rw [hsnap] at hs
      exact .inr ⟨rfl, (Option.some.inj hs).symm⟩
    · rw [hsnap] at hs
      exact .inl hs
  have hfree : t.nextSequence = none := by
    simp only [maySelect, Bool.and_eq_true, Option.isNone_iff_eq_none] at ht
    exact ht.1.2
  refine ⟨fun hnone => ?_, fun _ _ => by simp, fun snapshot hs => ?_, fun snapshot hs e he => ?_,
    fun snapshot hs hrows n hn => ?_, fun n hn e he => ?_, h.grow⟩
  · rcases hsnap : t.snapshot with _ | known <;> simp [hsnap] at hnone
  · rcases hread snapshot hs with hs | ⟨-, rfl⟩
    · exact h.found snapshot hs
    · exact List.prefix_rfl
  · rcases hread snapshot hs with hs | ⟨hnone, -⟩
    · exact h.first snapshot hs e he
    · rw [(h.unread hnone).1] at he
      simp at he
  · dsimp only at hrows
    rcases hread snapshot hs with hs | ⟨-, rfl⟩
    · exact absurd hfree (h.pending (by simp [hs]) hrows)
    · rw [← Option.some.inj hn, hrows, List.append_nil]
      rfl
  · rw [← Option.some.inj hn, maxSequence_append]
    have hle := le_maxSequence he
    dsimp only at hle
    omega

theorem Follows.insert {commits : List (List TaskEvent)} (h : Follows commits t) {n : ℕ}
    (hn : t.nextSequence = some n) (id : ℕ) (type : EventType) :
    Follows commits { t with nextSequence := none, rows := t.rows ++ [⟨id, n, type⟩] } := by
  refine ⟨fun hnone => ?_, fun _ hrows => ?_, h.found, fun snapshot hs e he => ?_,
    fun _ _ hrows => ?_, by simp, ?_⟩
  · exact absurd (h.unread hnone).2 (by simp [hn])
  · simp at hrows
  · rcases hrows : t.rows with _ | ⟨f, rows⟩
    · simp only [hrows, List.nil_append, List.head?_cons, Option.mem_some_iff] at he
      rw [← he]
      exact h.next snapshot hs hrows n hn
    · simp only [hrows, List.cons_append, List.head?_cons, Option.mem_some_iff] at he
      rw [← he]
      exact h.first snapshot hs f (by simp [hrows])
  · simp at hrows
  · refine List.pairwise_append.mpr ⟨h.grow, List.pairwise_singleton _ _, fun e he l hl => ?_⟩
    rw [List.mem_singleton.mp hl]
    exact h.above n hn e he

/-- The rows of a transaction have numbers from one on. -/
theorem Sound.rows_positive (h : Sound s) (ht : t ∈ s.transactions) {e : TaskEvent}
    (he : e ∈ t.rows) :
    0 < e.sequence := by
  have hfollows := h.transactions t ht
  rcases hsnap : t.snapshot with _ | snapshot
  · rw [(hfollows.unread hsnap).1] at he
    simp at he
  · exact Nat.zero_lt_of_lt (hfollows.maxSequence_lt hsnap he)

/-- The events after a commit. -/
theorem durable_commit (s : EventLog) (i : ℕ) (t : Transaction) :
    durable { s.put i { t with isOpen := false } with
      commits := if t.rows = [] then s.commits else s.commits ++ [t.rows] }
        = s.durable ++ t.rows := by
  simp only [durable]
  split
  · simp [*]
  · simp

/-- **Every log is sound.** -/
theorem sound_step (h : Sound s) (a : LogAction) : Sound (step s a) := by
  have hmoves := moves_step s a
  generalize step s a = s' at hmoves
  cases hmoves with
  | stay => exact h
  | begin writer =>
    refine ⟨Processes.forall_append h.transactions ?_, h.nonempty, h.positive⟩
    exact ⟨by simp, by simp, by simp, by simp, by simp, by simp, List.Pairwise.nil⟩
  | select i t hi ht =>
    refine ⟨Processes.forall_set h.transactions ?_, h.nonempty, h.positive⟩
    exact (h.transactions t (List.mem_of_getElem? hi)).select ht
  | insert i type t n hi ht hn =>
    refine ⟨Processes.forall_set h.transactions ?_, h.nonempty, h.positive⟩
    exact (h.transactions t (List.mem_of_getElem? hi)).insert hn _ _
  | commit i t hi ht =>
    have hfollows := h.transactions t (List.mem_of_getElem? hi)
    have hgrows : s.commits <+: if t.rows = [] then s.commits else s.commits ++ [t.rows] := by
      split
      · exact List.prefix_rfl
      · exact List.prefix_append _ _
    refine ⟨?_, fun rows hrows => ?_, fun e he => ?_⟩
    · exact Processes.forall_set (fun u hu => (h.transactions u hu).mono hgrows)
        (hfollows.mono hgrows).ended
    · dsimp only at hrows
      split at hrows
      · exact h.nonempty rows hrows
      · rcases List.mem_append.mp hrows with hrows | hrows
        · exact h.nonempty rows hrows
        · rwa [List.mem_singleton.mp hrows]
    · rw [durable_commit] at he
      rcases List.mem_append.mp he with he | he
      · exact h.positive e he
      · exact h.rows_positive (List.mem_of_getElem? hi) he
  | rollback i t hi =>
    refine ⟨Processes.forall_set h.transactions ?_, h.nonempty, h.positive⟩
    exact (h.transactions t (List.mem_of_getElem? hi)).ended

theorem sound_empty : Sound empty := ⟨by simp [empty], by simp [empty], by simp [empty, durable]⟩

/-! ## Whose an event is -/

/-- **An event is one transaction's**, and inserted once. -/
structure Fresh (s : EventLog) : Prop where
  durable : s.durable.Nodup
  rows : ∀ t ∈ s.transactions, t.rows.Nodup
  durable_lt : ∀ e ∈ s.durable, e.id < s.nextId
  rows_lt : ∀ t ∈ s.transactions, ∀ e ∈ t.rows, e.id < s.nextId
  apart : ∀ t ∈ s.transactions, t.isOpen = true → ∀ e ∈ t.rows, e ∉ s.durable
  others : ∀ (i j : ℕ) (t u : Transaction), s.transactions[i]? = some t →
    s.transactions[j]? = some u → i ≠ j → ∀ e ∈ t.rows, e ∉ u.rows

/-- A transaction that moves takes no row of another's. -/
theorem Fresh.others_set (h : Fresh s) (hi : s.transactions[i]? = some t) {t' : Transaction}
    (hrows : ∀ e ∈ t'.rows, e ∈ t.rows ∨ ∀ u ∈ s.transactions, e ∉ u.rows) :
    ∀ (j k : ℕ) (u v : Transaction), (s.transactions.set i t')[j]? = some u →
      (s.transactions.set i t')[k]? = some v → j ≠ k → ∀ e ∈ u.rows, e ∉ v.rows := by
  intro j k u v hj hk hjk e hu hv
  rcases Processes.getElem?_set_cases hj with ⟨rfl, rfl⟩ | ⟨-, hj'⟩
  · rcases Processes.getElem?_set_cases hk with ⟨rfl, rfl⟩ | ⟨-, hk'⟩
    · exact hjk rfl
    · rcases hrows e hu with he | he
      · exact h.others _ _ _ _ hi hk' hjk e he hv
      · exact he v (List.mem_of_getElem? hk') hv
  · rcases Processes.getElem?_set_cases hk with ⟨rfl, rfl⟩ | ⟨-, hk'⟩
    · rcases hrows e hv with he | he
      · exact h.others _ _ _ _ hi hj' (Ne.symm hjk) e he hu
      · exact he u (List.mem_of_getElem? hj') hu
    · exact h.others _ _ _ _ hj' hk' hjk e hu hv

/-- A transaction that keeps its rows, and does not reopen. -/
theorem Fresh.put (h : Fresh s) (hi : s.transactions[i]? = some t) {t' : Transaction}
    (hrows : t'.rows = t.rows) (hopen : t'.isOpen = true → t.isOpen = true) :
    Fresh (s.put i t') := by
  have ht := List.mem_of_getElem? hi
  refine ⟨h.durable, Processes.forall_set h.rows ?_, h.durable_lt,
    Processes.forall_set h.rows_lt ?_, Processes.forall_set h.apart fun ho => ?_,
    h.others_set hi fun e he => .inl (hrows ▸ he)⟩
  · rw [hrows]
    exact h.rows t ht
  · rw [hrows]
    exact h.rows_lt t ht
  · rw [hrows]
    exact h.apart t ht (hopen ho)

theorem Fresh.insert (h : Fresh s) (hi : s.transactions[i]? = some t) (n : ℕ) (type : EventType) :
    Fresh { s.put i { t with nextSequence := none, rows := t.rows ++ [⟨s.nextId, n, type⟩] } with
      nextId := s.nextId + 1 } := by
  have ht := List.mem_of_getElem? hi
  have hnew : ∀ rows : List TaskEvent, (∀ e ∈ rows, e.id < s.nextId) →
      (⟨s.nextId, n, type⟩ : TaskEvent) ∉ rows := by
    intro rows hrows hmem
    exact absurd (hrows _ hmem) (Nat.lt_irrefl _)
  refine ⟨h.durable, Processes.forall_set h.rows ?_, fun e he =>
    Nat.lt_succ_of_lt (h.durable_lt e he),
      Processes.forall_set (fun u hu e he => Nat.lt_succ_of_lt (h.rows_lt u hu e he)) ?_,
    Processes.forall_set h.apart fun ho => ?_, h.others_set hi fun e he => ?_⟩
  · refine List.nodup_append.mpr ⟨h.rows t ht, by simp, fun a ha b hb => ?_⟩
    rw [List.mem_singleton.mp hb]
    exact fun hab => hnew t.rows (h.rows_lt t ht) (hab ▸ ha)
  · intro e he
    rcases List.mem_append.mp he with he | he
    · exact Nat.lt_succ_of_lt (h.rows_lt t ht e he)
    · rw [List.mem_singleton.mp he]
      exact Nat.lt_succ_self _
  · intro e he
    rcases List.mem_append.mp he with he | he
    · exact h.apart t ht ho e he
    · rw [List.mem_singleton.mp he]
      exact hnew s.durable h.durable_lt
  · rcases List.mem_append.mp he with he | he
    · exact .inl he
    · rw [List.mem_singleton.mp he]
      exact .inr fun u hu => hnew u.rows (h.rows_lt u hu)

theorem Fresh.commit (h : Fresh s) (hi : s.transactions[i]? = some t) (hopen : t.isOpen = true) :
    Fresh { s.put i { t with isOpen := false } with
      commits := if t.rows = [] then s.commits else s.commits ++ [t.rows] } := by
  have ht := List.mem_of_getElem? hi
  have hput : Fresh (s.put i { t with isOpen := false }) := h.put hi rfl (by simp)
  refine ⟨?_, hput.rows, ?_, hput.rows_lt, fun u hu ho e he => ?_, hput.others⟩
  · rw [durable_commit]
    refine List.nodup_append.mpr ⟨h.durable, h.rows t ht, fun a ha b hb hab => ?_⟩
    exact h.apart t ht hopen b hb (hab ▸ ha)
  · rw [durable_commit]
    intro e he
    rcases List.mem_append.mp he with he | he
    · exact h.durable_lt e he
    · exact h.rows_lt t ht e he
  · rw [durable_commit, List.mem_append, not_or]
    refine ⟨hput.apart u hu ho e he, fun hmem => ?_⟩
    obtain ⟨j, hj⟩ := List.mem_iff_getElem?.mp hu
    rcases Processes.getElem?_set_cases hj with ⟨rfl, rfl⟩ | ⟨hji, hold⟩
    · simp at ho
    · exact h.others _ _ _ _ hold hi hji e he hmem

/-- **Every log's events are fresh.** -/
theorem fresh_step (h : Fresh s) (a : LogAction) : Fresh (step s a) := by
  have hmoves := moves_step s a
  generalize step s a = s' at hmoves
  cases hmoves with
  | stay => exact h
  | begin writer =>
    refine ⟨h.durable, Processes.forall_append h.rows (by simp), h.durable_lt,
      Processes.forall_append h.rows_lt (by simp), Processes.forall_append h.apart (by simp), ?_⟩
    intro j k u v hj hk hjk e hu hv
    rcases Processes.getElem?_append_cases hj with rfl | hj
    · simp at hu
    · rcases Processes.getElem?_append_cases hk with rfl | hk
      · simp at hv
      · exact h.others _ _ _ _ hj hk hjk e hu hv
  | select i t hi ht => exact h.put hi rfl id
  | insert i type t n hi ht hn => exact h.insert hi n type
  | commit i t hi ht =>
    simp only [mayCommit, Bool.and_eq_true] at ht
    exact h.commit hi ht.1
  | rollback i t hi => exact h.put hi rfl (by simp)

/-- **What a statement makes durable** is what its commit brings. -/
theorem durable_step {a : LogAction} {e : TaskEvent} (he : e ∈ (step s a).durable) :
    e ∈ s.durable ∨ ∃ i t, a = .commit i ∧ s.transactions[i]? = some t ∧ mayCommit t = true ∧
      e ∈ t.rows := by
  have hmoves := moves_step s a
  generalize step s a = s' at hmoves he
  cases hmoves with
  | commit i t hi ht =>
    rw [durable_commit] at he
    rcases List.mem_append.mp he with he | he
    · exact .inl he
    · exact .inr ⟨i, t, rfl, hi, ht, he⟩
  | _ => exact .inl he

/-- **What a statement leaves uncommitted** was so before, or has a new id. -/
theorem rows_step {a : LogAction} {u : Transaction} (hu : u ∈ (step s a).transactions)
    (ho : u.isOpen = true) {e : TaskEvent} (he : e ∈ u.rows) :
    (∃ t ∈ s.transactions, t.isOpen = true ∧ e ∈ t.rows) ∨ e.id = s.nextId := by
  have hmoves := moves_step s a
  generalize step s a = s' at hmoves hu
  cases hmoves with
  | stay => exact .inl ⟨u, hu, ho, he⟩
  | begin writer =>
    rcases List.mem_append.mp hu with hu | hu
    · exact .inl ⟨u, hu, ho, he⟩
    · rw [List.mem_singleton.mp hu] at he
      simp at he
  | select i t hi ht =>
    rcases List.mem_or_eq_of_mem_set hu with hu | rfl
    · exact .inl ⟨u, hu, ho, he⟩
    · exact .inl ⟨t, List.mem_of_getElem? hi, ho, he⟩
  | insert i type t n hi ht hn =>
    rcases List.mem_or_eq_of_mem_set hu with hu | rfl
    · exact .inl ⟨u, hu, ho, he⟩
    · rcases List.mem_append.mp he with he | he
      · exact .inl ⟨t, List.mem_of_getElem? hi, ho, he⟩
      · rw [List.mem_singleton.mp he]
        exact .inr rfl
  | commit i t hi ht =>
    rcases List.mem_or_eq_of_mem_set hu with hu | rfl
    · exact .inl ⟨u, hu, ho, he⟩
    · simp at ho
  | rollback i t hi =>
    rcases List.mem_or_eq_of_mem_set hu with hu | rfl
    · exact .inl ⟨u, hu, ho, he⟩
    · simp at ho

theorem nextId_le_step (s : EventLog) (a : LogAction) : s.nextId ≤ (step s a).nextId := by
  have hmoves := moves_step s a
  generalize step s a = s' at hmoves
  cases hmoves with
  | insert => exact Nat.le_succ _
  | _ => exact Nat.le_refl _

theorem fresh_empty : Fresh empty :=
  ⟨by simp [empty, durable], by simp [empty], by simp [empty, durable], by simp [empty],
    by simp [empty], by simp [empty]⟩

/-! ## What a commit does to the numbers -/

/-- The numbers, in the order of the commits. -/
theorem sequencesIdentify_append {rows : List TaskEvent}
    (hgrow : rows.Pairwise fun e l => e.sequence < l.sequence) :
    SequencesIdentify { s with commits := s.commits ++ [rows] } ↔
      SequencesIdentify s ∧ ∀ e ∈ s.durable, ∀ l ∈ rows, e.sequence < l.sequence := by
  have hdurable : durable { s with commits := s.commits ++ [rows] } = s.durable ++ rows := by
    simp [durable]
  have hrows : (rows.map (·.sequence)).Nodup :=
    List.pairwise_map.mpr (hgrow.imp fun hlt => Nat.ne_of_lt hlt)
  constructor
  · rintro ⟨hdistinct, hordered⟩
    rw [hdurable, List.map_append, List.nodup_append] at hdistinct
    obtain ⟨hold, -, hdisjoint⟩ := hdistinct
    dsimp only at hordered
    rw [List.pairwise_append] at hordered
    refine ⟨⟨hold, hordered.1⟩, fun e he l hl => ?_⟩
    obtain ⟨earlier, hearlier, he'⟩ := List.mem_flatten.mp he
    have hle := hordered.2.2 earlier hearlier rows (List.mem_singleton_self rows) e he' l hl
    have hne := hdisjoint e.sequence (List.mem_map_of_mem he) l.sequence (List.mem_map_of_mem hl)
    omega
  · rintro ⟨⟨hdistinct, hordered⟩, habove⟩
    refine ⟨?_, ?_⟩
    · rw [hdurable, List.map_append, List.nodup_append]
      refine ⟨hdistinct, hrows, fun a ha b hb => ?_⟩
      obtain ⟨e, he, rfl⟩ := List.mem_map.mp ha
      obtain ⟨l, hl, rfl⟩ := List.mem_map.mp hb
      exact Nat.ne_of_lt (habove e he l hl)
    · refine List.pairwise_append.mpr ⟨hordered, List.pairwise_singleton _ _, ?_⟩
      intro earlier hearlier later hlater e he l hl
      rw [List.mem_singleton.mp hlater] at hl
      exact Nat.le_of_lt (habove e (List.mem_flatten.mpr ⟨earlier, hearlier, he⟩) l hl)

/-- **The rows of a transaction are the last, by number, exactly if no commit came between.** -/
theorem above_durable_iff (h : Sound s) (hs : SequencesIdentify s) (ht : Follows s.commits t)
    (hrows : t.rows ≠ []) :
    (∀ e ∈ s.durable, ∀ l ∈ t.rows, e.sequence < l.sequence) ↔ t.snapshot = some s.commits := by
  rcases hsnap : t.snapshot with _ | snapshot
  · exact absurd (ht.unread hsnap).1 hrows
  constructor
  · intro habove
    obtain ⟨since, hsince⟩ := ht.found snapshot hsnap
    rcases since with _ | ⟨rows, since⟩
    · rw [← hsince, List.append_nil]
    -- The first event committed since is above the snapshot, so it has at least the first number.
    obtain ⟨f, own, hfirst⟩ := List.exists_cons_of_ne_nil hrows
    have hnumber := ht.first snapshot hsnap f (by simp [hfirst])
    have hmem : rows ∈ s.commits := by simp [← hsince]
    obtain ⟨e, rest, hrest⟩ := List.exists_cons_of_ne_nil (h.nonempty rows hmem)
    have he : e ∈ s.durable := List.mem_flatten.mpr ⟨rows, hmem, by simp [hrest]⟩
    have hlt := habove e he f (by simp [hfirst])
    have hmax : maxSequence snapshot.flatten < e.sequence := by
      refine maxSequence_lt_iff.mpr ⟨h.positive e he, fun d hd => ?_⟩
      obtain ⟨earlier, hearlier, hd⟩ := List.mem_flatten.mp hd
      have hordered := hs.ordered
      have hdistinct := hs.distinct
      rw [durable, ← hsince, List.flatten_append, List.map_append, List.nodup_append] at hdistinct
      rw [← hsince, List.pairwise_append] at hordered
      have hle := hordered.2.2 earlier hearlier rows (by simp) d hd e (by simp [hrest])
      have hne := hdistinct.2.2 d.sequence
        (List.mem_map_of_mem (List.mem_flatten.mpr ⟨earlier, hearlier, hd⟩)) e.sequence
        (List.mem_map_of_mem (by simp [hrest]))
      omega
    omega
  · intro hsame e he l hl
    obtain rfl := Option.some.inj hsame
    have hle : e.sequence ≤ maxSequence s.durable := le_maxSequence he
    exact Nat.lt_of_le_of_lt hle (ht.maxSequence_lt hsnap hl)

/-- One statement keeps the numbers exactly if it is undisturbed. -/
theorem undisturbed_iff (h : Sound s) (hs : SequencesIdentify s) (a : LogAction) :
    Undisturbed s a ↔ SequencesIdentify (step s a) := by
  have hmoves := moves_step s a
  generalize step s a = s' at hmoves
  cases hmoves with
  | stay a hstay =>
    refine ⟨fun _ => hs, fun _ => ?_⟩
    cases a with
    | commit i =>
      intro t ht hmay
      rw [hstay i rfl t ht] at hmay
      cases hmay
    | _ => trivial
  | begin writer => exact ⟨fun _ => ⟨hs.distinct, hs.ordered⟩, fun _ => trivial⟩
  | select i t hi ht => exact ⟨fun _ => ⟨hs.distinct, hs.ordered⟩, fun _ => trivial⟩
  | insert i type t n hi ht hn => exact ⟨fun _ => ⟨hs.distinct, hs.ordered⟩, fun _ => trivial⟩
  | rollback i t hi => exact ⟨fun _ => ⟨hs.distinct, hs.ordered⟩, fun _ => trivial⟩
  | commit i t hi ht =>
    have hfollows := h.transactions t (List.mem_of_getElem? hi)
    simp only [Undisturbed, hi, Option.mem_some_iff, forall_eq', ht, true_implies]
    by_cases hrows : t.rows = []
    · simp only [hrows, ne_eq, not_true, false_implies, if_true, true_iff]
      exact ⟨hs.distinct, hs.ordered⟩
    · simp only [hrows, ne_eq, not_false_iff, true_implies, if_false]
      rw [← above_durable_iff h hs hfollows hrows]
      have happend := sequencesIdentify_append
        (s := s.put i { t with isOpen := false }) hfollows.grow
      exact ⟨fun habove => happend.mpr ⟨⟨hs.distinct, hs.ordered⟩, habove⟩, fun h' =>
        (happend.mp h').2⟩

/-- **Sequence numbers identify events throughout a run exactly if its commits are undisturbed.** -/
theorem undisturbed_iff_sequencesIdentify (as : List LogAction) :
    Runs.Along step Undisturbed empty as ↔
      ∀ bs, bs <+: as → SequencesIdentify (Runs.run step empty bs) := by
  have hempty : SequencesIdentify empty := ⟨by simp [empty, durable], List.Pairwise.nil⟩
  exact Runs.along_iff_forall_prefix (fun _ a h => sound_step h a)
    (fun _ a h hs => undisturbed_iff h hs a) sound_empty hempty

/-- A worker's `emit` and a cancellation, each between the other's `SELECT max` and commit. -/
def overlappingAppends : List LogAction :=
  [.begin .worker, .begin .api, .select 0, .select 1,
    .insert 0 .nodeStarted, .insert 1 .taskCancelled, .commit 0, .commit 1]

/-- **Two events share a number.** -/
theorem overlappingAppends_collide :
    (Runs.run step empty overlappingAppends).durable
        = [⟨0, 1, .nodeStarted⟩, ⟨1, 1, .taskCancelled⟩] ∧
      ¬ SequencesIdentify (Runs.run step empty overlappingAppends) := by
  have hlog : (Runs.run step empty overlappingAppends).durable
      = [⟨0, 1, .nodeStarted⟩, ⟨1, 1, .taskCancelled⟩] := by decide
  refine ⟨hlog, fun h => ?_⟩
  have hdistinct := h.distinct
  rw [hlog] at hdistinct
  exact absurd hdistinct (by decide)

end EventLog

end AgentPlatform
