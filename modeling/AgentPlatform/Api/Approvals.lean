import AgentPlatform.Worker.Cluster

/-!
# Api/Approvals — the approval rows of a task, and its status

`human_review` checkpoints the task as ready, looks for a pending row, inserts one if there is none
and checkpoints again; a decision checks the status, looks for a pending row and writes both at its
commit. The status and the rows change in different transactions, and no statement compares them.

`agreeing_iff_agree`: rows and status agree throughout a run exactly if no row is inserted into a
settled task, a terminal status is written only where nothing else is pending, and the row a
decision found is still undecided when it commits.
-/

namespace AgentPlatform

/-- `Approval.status`. -/
inductive ApprovalStatus where
  | pending | approved | rejected
  deriving DecidableEq, Repr

/-- A row of `approvals`, with the number of times it was decided. -/
structure Approval where
  status : ApprovalStatus
  decisions : ℕ
  deriving DecidableEq, Repr

/-- Where an execution of `human_review` is. -/
inductive ReviewPhase where
  | entering
  /-- The first checkpoint is written. -/
  | asking
  /-- `pending_for` answered. -/
  | found (pending : Bool)
  /-- The body is over, or has raised. -/
  | leaving
  | gone
  deriving DecidableEq, Repr

/-- A request whose check of the status passed, and the pending row it found, once it has looked. -/
structure DecisionRequest where
  decision : Decision
  row : Option (Option ℕ)
  deriving DecidableEq, Repr

/-- **The task, its approval rows, and who is at work on them.** -/
structure ReviewDesk where
  status : TaskStatus
  approvals : List Approval
  reviews : List ReviewPhase
  requests : List DecisionRequest
  deriving DecidableEq, Repr

/-- What happens next. -/
inductive DeskAction where
  /-- A worker comes to `human_review`. -/
  | review
  /-- Its next step. -/
  | advance (i : ℕ)
  /-- Its call raises: the rest of the body is skipped. -/
  | raise (i : ℕ)
  | crash (i : ℕ)
  /-- A checkpoint of another node. -/
  | checkpoint (n : Node)
  /-- The status an execution of the graph is finalized with. -/
  | finalize (c : Config)
  | request (dec : Decision)
  | look (j : ℕ)
  | commit (j : ℕ)
  | rollback (j : ℕ)

/-- `pending_for`: the newest pending row. -/
def pendingFor (approvals : List Approval) : Option ℕ :=
  (List.range approvals.length).reverse.find? fun k =>
    (approvals[k]?).any fun a => a.status = .pending

namespace Decision

/-- The status a decision gives the pending row; `cancel` looks for none. -/
def verdict? : Decision → Option ApprovalStatus
  | approve => some .approved
  | reject => some .rejected
  | cancel => none

/-- What a request has found before it looks: `cancel` looks for nothing. -/
def unlooked (dec : Decision) : Option (Option ℕ) :=
  if dec.verdict?.isSome then none else some none

/-- `ApprovalRepository.decide`, for the row that was found. -/
def decideRow (dec : Decision) (approvals : List Approval) (row : Option ℕ) : List Approval :=
  match row, dec.verdict? with
  | some k, some verdict => approvals.modify k fun a => ⟨verdict, a.decisions + 1⟩
  | _, _ => approvals

end Decision

namespace ReviewDesk

/-- The desk of a new task. -/
def create : ReviewDesk := ⟨.queued, [], [], []⟩

/-- The execution of `human_review` at `i` goes on. -/
def advance (s : ReviewDesk) (i : ℕ) : ReviewPhase → ReviewDesk
  | .entering => { s with status := .readyForReview, reviews := s.reviews.set i .asking }
  | .asking => { s with reviews := s.reviews.set i (.found (pendingFor s.approvals).isSome) }
  | .found true => { s with reviews := s.reviews.set i .leaving }
  | .found false => { s with
      approvals := s.approvals ++ [⟨.pending, 0⟩], reviews := s.reviews.set i .leaving }
  | .leaving => { s with status := .readyForReview, reviews := s.reviews.set i .gone }
  | .gone => s

/-- A request commits, once it has looked. -/
def commit (s : ReviewDesk) (j : ℕ) (r : DecisionRequest) : ReviewDesk :=
  match r.row with
  | some row => { s with
      status := r.decision.status, approvals := r.decision.decideRow s.approvals row
      requests := s.requests.eraseIdx j }
  | none => s

/-- **One step.** -/
def step (s : ReviewDesk) : DeskAction → ReviewDesk
  | .review => { s with reviews := s.reviews ++ [.entering] }
  | .advance i =>
    match s.reviews[i]? with
    | some phase => s.advance i phase
    | none => s
  | .raise i =>
    match s.reviews[i]? with
    | some .asking | some (.found _) => { s with reviews := s.reviews.set i .leaving }
    | _ => s
  | .crash i => { s with reviews := s.reviews.set i .gone }
  | .checkpoint n => { s with status := n.status }
  | .finalize c => { s with status := c.finalStatus }
  | .request dec =>
    if dec.admits s.status then { s with requests := s.requests ++ [⟨dec, dec.unlooked⟩] } else s
  | .look j =>
    match s.requests[j]? with
    | some ⟨dec, none⟩ => { s with requests := s.requests.set j ⟨dec,
      some (pendingFor s.approvals)⟩ }
    | _ => s
  | .commit j =>
    match s.requests[j]? with
    | some r => s.commit j r
    | none => s
  | .rollback j => { s with requests := s.requests.eraseIdx j }

/-- **Approval rows and task status agree.** -/
structure Agree (s : ReviewDesk) : Prop where
  settled : s.status.terminal = true → ∀ a ∈ s.approvals, a.status ≠ .pending
  completed : s.status = .completed → ∃ a ∈ s.approvals, a.status = .approved
  once : ∀ a ∈ s.approvals, a.decisions ≤ 1

/-- No row is pending, but for the one at `k`. -/
def NonePending (s : ReviewDesk) (k : Option ℕ) : Prop :=
  ∀ j a, s.approvals[j]? = some a → some j ≠ k → a.status ≠ .pending

/-- What a request needs at its commit, having found `row`. -/
def Closes (s : ReviewDesk) (dec : Decision) (row : Option ℕ) : Prop :=
  s.NonePending row ∧ (∀ k ∈ row, ∀ a, s.approvals[k]? = some a → a.status = .pending) ∧
    (dec = .approve → row ≠ none ∨ ∃ a ∈ s.approvals, a.status = .approved)

/-- **The step keeps rows and status together.** -/
def Agreeing (s : ReviewDesk) : DeskAction → Prop
  | .advance i => s.reviews[i]? = some (.found false) → s.status.terminal = false
  | .finalize c => c.finalStatus.terminal = true → s.NonePending none
  | .commit j => ∀ r, s.requests[j]? = some r → ∀ row, r.row = some row →
      s.Closes r.decision row
  | _ => True

end ReviewDesk

/-! ## The pending row -/

theorem pendingFor_eq_some {approvals : List Approval} {k : ℕ} (h : pendingFor approvals = some k) :
    k < approvals.length := by
  have hmem := List.mem_of_find?_eq_some h
  simpa using hmem

/-- A verdict is a decision, and an approval approves. -/
theorem Decision.verdict_of_eq {dec : Decision} {verdict : ApprovalStatus}
    (h : dec.verdict? = some verdict) :
    verdict ≠ .pending ∧ (dec = .approve → verdict = .approved) := by
  cases dec with
  | approve => simp [← Option.some.inj h]
  | reject => simp [← Option.some.inj h]
  | cancel => cases h

/-- What a decision does to the table: nothing, or one row is decided. -/
theorem Decision.decideRow_cases (dec : Decision) (approvals : List Approval) (row : Option ℕ) :
    dec.decideRow approvals row = approvals ∨ ∃ k verdict, dec.verdict? = some verdict ∧
      dec.decideRow approvals row = approvals.modify k fun a => ⟨verdict, a.decisions + 1⟩ := by
  rcases row with _ | k
  · exact .inl rfl
  · rcases hverdict : dec.verdict? with _ | verdict
    · exact .inl (by simp [decideRow, hverdict])
    · exact .inr ⟨k, verdict, rfl, by simp [decideRow, hverdict]⟩

/-- A property of every row after one was decided. -/
theorem forall_modify_iff {approvals : List Approval} {k : ℕ} {a : Approval}
    (hk : approvals[k]? = some a) (f : Approval → Approval) (p : Approval → Prop) :
    (∀ b ∈ approvals.modify k f, p b) ↔
      p (f a) ∧ ∀ (j : ℕ) (b : Approval), approvals[j]? = some b → some j ≠ some k → p b := by
  constructor
  · intro hall
    refine ⟨hall _ (List.mem_iff_getElem?.mpr ⟨k, ?_⟩), fun j b hj hne => hall _
      (List.mem_iff_getElem?.mpr ⟨j, ?_⟩)⟩
    · simp [hk]
    · have hkj : k ≠ j := fun h => hne (h ▸ rfl)
      simp [hkj, hj]
  · rintro ⟨hself, hothers⟩ b hb
    obtain ⟨j, hj⟩ := List.mem_iff_getElem?.mp hb
    rw [List.getElem?_modify] at hj
    by_cases hkj : k = j
    · subst hkj
      simp only [if_true, hk, Option.map_eq_map, Option.map_some, Option.some.injEq] at hj
      exact hj ▸ hself
    · simp only [hkj, if_false, Option.map_eq_map, Option.map_id'] at hj
      exact hothers j b hj (by simpa using Ne.symm hkj)

namespace ReviewDesk

variable {s : ReviewDesk}

/-! ## What the rows keep -/

/-- A row is pending until it is decided, and a request knows a row of the table. -/
structure Sound (s : ReviewDesk) : Prop where
  rows : ∀ a ∈ s.approvals, a.status = .pending ↔ a.decisions = 0
  unlooked : ∀ r ∈ s.requests, r.row = none → r.decision.verdict? ≠ none
  requests : ∀ r ∈ s.requests, ∀ row ∈ r.row, ∀ k ∈ row,
    k < s.approvals.length ∧ r.decision.verdict? ≠ none

/-- The rows as a list of places. -/
theorem forall_rows_iff {p : Approval → Prop} :
    (∀ a ∈ s.approvals, p a) ↔ ∀ (j : ℕ) (a : Approval), s.approvals[j]? = some a → p a := by
  constructor
  · exact fun h j a hj => h a (List.mem_of_getElem? hj)
  · intro h a ha
    obtain ⟨j, hj⟩ := List.mem_iff_getElem?.mp ha
    exact h j a hj

theorem nonePending_none_iff : s.NonePending none ↔ ∀ a ∈ s.approvals, a.status ≠ .pending := by
  rw [forall_rows_iff]
  simp [NonePending]

/-- The three parts of the property, after a commit. -/
theorem agree_commit_iff {j : ℕ} {r : DecisionRequest} {row : Option ℕ} (hrow : r.row = some row) :
    Agree (s.commit j r) ↔
      (∀ a ∈ r.decision.decideRow s.approvals row, a.status ≠ .pending) ∧
      (r.decision = .approve → ∃ a ∈ r.decision.decideRow s.approvals row, a.status = .approved) ∧
      (∀ a ∈ r.decision.decideRow s.approvals row, a.decisions ≤ 1) := by
  have hstatus : (s.commit j r).status = r.decision.status := by simp [commit, hrow]
  have happrovals : (s.commit j r).approvals = r.decision.decideRow s.approvals row := by
    simp [commit, hrow]
  have hcompleted : r.decision.status = .completed ↔ r.decision = .approve := by
    cases r.decision <;> simp [Decision.status]
  constructor
  · rintro ⟨h₁, h₂, h₃⟩
    rw [hstatus, happrovals] at h₁ h₂
    rw [happrovals] at h₃
    exact ⟨h₁ r.decision.terminal_status, fun happrove => h₂ (hcompleted.mpr happrove), h₃⟩
  · rintro ⟨h₁, h₂, h₃⟩
    refine ⟨?_, ?_, ?_⟩
    · rw [happrovals]
      exact fun _ => h₁
    · rw [hstatus, happrovals, hcompleted]
      exact h₂
    · rw [happrovals]
      exact h₃

/-- **What a commit does**: it keeps rows and status together exactly if it closes the review. -/
theorem closes_iff (hsound : Sound s) (hs : Agree s) {j : ℕ} {r : DecisionRequest} {row : Option ℕ}
    (hr : r ∈ s.requests) (hrow : r.row = some row) :
    s.Closes r.decision row ↔ Agree (s.commit j r) := by
  rw [agree_commit_iff hrow, Closes]
  rcases row with _ | k
  · have hsame : r.decision.decideRow s.approvals none = s.approvals := rfl
    rw [hsame, nonePending_none_iff]
    simp only [Option.not_mem_none, false_implies, implies_true, true_and, ne_eq,
      not_true, false_or]
    exact ⟨fun h => ⟨h.1, h.2, hs.once⟩, fun h => ⟨h.1, h.2.1⟩⟩
  · obtain ⟨hlt, hverdict⟩ := hsound.requests r hr (some k) hrow k rfl
    obtain ⟨verdict, hverdict⟩ := Option.ne_none_iff_exists'.mp hverdict
    obtain ⟨a, ha⟩ : ∃ a, s.approvals[k]? = some a := ⟨_, List.getElem?_eq_getElem hlt⟩
    have hdecided : r.decision.decideRow s.approvals (some k)
        = s.approvals.modify k fun a => ⟨verdict, a.decisions + 1⟩ := by
      simp [Decision.decideRow, hverdict]
    have hknown := Decision.verdict_of_eq hverdict
    have happroved : r.decision = .approve → ∃ b ∈ s.approvals.modify k fun a =>
        ⟨verdict, a.decisions + 1⟩, b.status = .approved := by
      intro happrove
      refine ⟨⟨verdict, a.decisions + 1⟩, List.mem_iff_getElem?.mpr ⟨k, by simp [ha]⟩, ?_⟩
      exact hknown.2 happrove
    have hundecided : a.decisions + 1 ≤ 1 ↔ a.status = .pending := by
      rw [hsound.rows a (List.mem_of_getElem? ha)]
      omega
    rw [hdecided, forall_modify_iff ha, forall_modify_iff ha]
    dsimp only
    rw [hundecided]
    constructor
    · rintro ⟨hnone, hpending, -⟩
      exact ⟨⟨hknown.1, hnone⟩, happroved, hpending k rfl a ha,
        fun j b hj _ => hs.once b (List.mem_of_getElem? hj)⟩
    · rintro ⟨⟨-, hnone⟩, -, hpending, -⟩
      refine ⟨hnone, fun k' hk' b hb => ?_, fun _ => .inl (by simp)⟩
      obtain rfl := Option.some.inj hk'
      obtain rfl := Option.some.inj (ha.symm.trans hb)
      exact hpending

/-! ## The steps -/

/-- A step that leaves the table and the requests alone. -/
theorem Sound.frame (h : Sound s) {s' : ReviewDesk} (happrovals : s'.approvals = s.approvals)
    (hrequests : ∀ r ∈ s'.requests, r ∈ s.requests) : Sound s' := by
  refine ⟨?_, fun r hr => h.unlooked r (hrequests r hr), ?_⟩
  · rw [happrovals]
    exact h.rows
  · rw [happrovals]
    exact fun r hr => h.requests r (hrequests r hr)

theorem Sound.insert (h : Sound s) {s' : ReviewDesk}
    (happrovals : s'.approvals = s.approvals ++ [⟨.pending, 0⟩])
    (hrequests : s'.requests = s.requests) :
    Sound s' := by
  refine ⟨?_, ?_, ?_⟩
  · rw [happrovals]
    intro a ha
    rcases List.mem_append.mp ha with ha | ha
    · exact h.rows a ha
    · simp [List.mem_singleton.mp ha]
  · rw [hrequests]
    exact h.unlooked
  · rw [hrequests, happrovals, List.length_append]
    intro r hr row hrow k hk
    obtain ⟨hlt, hverdict⟩ := h.requests r hr row hrow k hk
    exact ⟨Nat.lt_add_right _ hlt, hverdict⟩

theorem Sound.commit (h : Sound s) (j : ℕ) (r : DecisionRequest) : Sound (s.commit j r) := by
  rcases hrow : r.row with _ | row
  · simpa [ReviewDesk.commit, hrow] using h
  have hcommit : s.commit j r = { s with
      status := r.decision.status, approvals := r.decision.decideRow s.approvals row
      requests := s.requests.eraseIdx j } := by simp [ReviewDesk.commit, hrow]
  have hlength : (r.decision.decideRow s.approvals row).length = s.approvals.length := by
    rcases r.decision.decideRow_cases s.approvals row with hsame | ⟨k, verdict, -, hdecided⟩
    · rw [hsame]
    · rw [hdecided, List.length_modify]
  rw [hcommit]
  refine ⟨fun a ha => ?_, fun r hr => h.unlooked r (List.mem_of_mem_eraseIdx hr), fun r hr => ?_⟩
  · dsimp only at ha
    rcases r.decision.decideRow_cases s.approvals row with hsame | ⟨k, verdict, hverdict, hdecided⟩
    · rw [hsame] at ha
      exact h.rows a ha
    · rw [hdecided] at ha
      obtain ⟨i, hi⟩ := List.mem_iff_getElem?.mp ha
      rw [List.getElem?_modify] at hi
      obtain ⟨b, hb, rfl⟩ := Option.map_eq_some_iff.mp hi
      split
      · simp [(Decision.verdict_of_eq hverdict).1]
      · exact h.rows b (List.mem_of_getElem? hb)
  · rw [hlength]
    exact h.requests r (List.mem_of_mem_eraseIdx hr)

/-- A request that has not looked has no row; one that needs none knows so from the start. -/
theorem Sound.request (h : Sound s) (dec : Decision) :
    Sound { s with requests := s.requests ++ [⟨dec, dec.unlooked⟩] } := by
  refine ⟨h.rows, Processes.forall_append h.unlooked ?_, Processes.forall_append h.requests ?_⟩
  · intro hunlooked hverdict
    simp [Decision.unlooked, hverdict] at hunlooked
  · intro row hrow k hk
    rcases hverdict : dec.verdict? with _ | verdict
    · simp only [Decision.unlooked, hverdict] at hrow
      obtain rfl := Option.some.inj hrow
      simp at hk
    · simp [Decision.unlooked, hverdict] at hrow

/-- A request that looks finds a row of the table. -/
theorem Sound.look (h : Sound s) {j : ℕ} {dec : Decision} (hj : s.requests[j]? = some ⟨dec, none⟩) :
    Sound { s with requests := s.requests.set j ⟨dec, some (pendingFor s.approvals)⟩ } := by
  have hverdict := h.unlooked _ (List.mem_of_getElem? hj) rfl
  refine ⟨h.rows, Processes.forall_set h.unlooked (by simp), Processes.forall_set h.requests ?_⟩
  intro row hrow k hk
  obtain rfl := Option.some.inj hrow
  exact ⟨pendingFor_eq_some hk, hverdict⟩

/-- **Every desk is sound.** -/
theorem sound_step (h : Sound s) (a : DeskAction) : Sound (step s a) := by
  cases a with
  | review | crash i | checkpoint n | finalize c => exact h.frame rfl fun _ hr => hr
  | advance i =>
    rw [step]
    split
    · rename_i phase _
      rcases phase with _ | _ | pending | _ | _
      case found =>
        cases pending with
        | true => exact h.frame rfl fun _ hr => hr
        | false => exact h.insert rfl rfl
      all_goals exact h.frame rfl fun _ hr => hr
    · exact h
  | raise i =>
    rw [step]
    split
    · exact h.frame rfl fun _ hr => hr
    · exact h.frame rfl fun _ hr => hr
    · exact h
  | request dec =>
    rw [step]
    split
    · exact h.request dec
    · exact h
  | look j =>
    rw [step]
    split
    · rename_i dec hj
      exact h.look hj
    · exact h
  | commit j =>
    rw [step]
    split
    · exact h.commit j _
    · exact h
  | rollback j => exact h.frame rfl fun _ hr => List.mem_of_mem_eraseIdx hr

/-- A status that is not terminal agrees with any rows. -/
theorem agree_of_open (h : Agree s) {s' : ReviewDesk} (hopen : s'.status.terminal = false)
    (honce : ∀ a ∈ s'.approvals, a ∈ s.approvals ∨ a.decisions = 0) : Agree s' := by
  refine ⟨fun hterminal => ?_, fun hcompleted => ?_, fun a ha => ?_⟩
  · rw [hopen] at hterminal
    cases hterminal
  · rw [hcompleted] at hopen
    cases hopen
  · rcases honce a ha with ha | ha
    · exact h.once a ha
    · omega

/-- A step that leaves the status and the rows alone. -/
theorem Agree.frame (h : Agree s) {s' : ReviewDesk} (hstatus : s'.status = s.status)
    (happrovals : s'.approvals = s.approvals) : Agree s' := by
  refine ⟨?_, ?_, ?_⟩
  · rw [hstatus, happrovals]
    exact h.settled
  · rw [hstatus, happrovals]
    exact h.completed
  · rw [happrovals]
    exact h.once

/-- One step of `human_review`. -/
theorem agreeing_advance_iff (hs : Agree s) (i : ℕ) :
    Agreeing s (.advance i) ↔ Agree (step s (.advance i)) := by
  rcases hi : s.reviews[i]? with _ | phase
  · simp only [Agreeing, step, hi]
    exact ⟨fun _ => hs, fun _ h => by cases h⟩
  simp only [Agreeing, step, hi, Option.some.injEq]
  rcases phase with _ | _ | pending | _ | _
  case found =>
    cases pending with
    | true =>
      simp only [ReviewPhase.found.injEq, Bool.true_eq_false, false_implies, true_iff]
      exact hs.frame rfl rfl
    | false =>
      simp only [true_implies]
      constructor
      · intro hopen
        refine agree_of_open hs hopen fun a ha => ?_
        rcases List.mem_append.mp ha with ha | ha
        · exact .inl ha
        · exact .inr (by simp [List.mem_singleton.mp ha])
      · intro h
        rw [← Bool.not_eq_true]
        intro hterminal
        exact h.settled hterminal ⟨.pending, 0⟩ (by simp [ReviewDesk.advance]) rfl
  case entering | leaving =>
    exact ⟨fun _ => agree_of_open hs rfl fun a ha => .inl ha, fun _ h => by cases h⟩
  case asking => exact ⟨fun _ => hs.frame rfl rfl, fun _ h => by cases h⟩
  case gone => exact ⟨fun _ => hs, fun _ h => by cases h⟩

/-- **One step keeps rows and status together exactly if it is agreeing.** -/
theorem agreeing_iff (hsound : Sound s) (hs : Agree s) (a : DeskAction) :
    Agreeing s a ↔ Agree (step s a) := by
  cases a with
  | advance i => exact agreeing_advance_iff hs i
  | review | crash i | rollback j => exact ⟨fun _ => hs.frame rfl rfl, fun _ => trivial⟩
  | checkpoint n =>
    exact ⟨fun _ => agree_of_open hs n.terminal_status fun a ha => .inl ha, fun _ => trivial⟩
  | raise i =>
    refine ⟨fun _ => ?_, fun _ => trivial⟩
    rw [step]
    split <;> exact hs.frame rfl rfl
  | request dec =>
    refine ⟨fun _ => ?_, fun _ => trivial⟩
    rw [step]
    split <;> exact hs.frame rfl rfl
  | look j =>
    refine ⟨fun _ => ?_, fun _ => trivial⟩
    rw [step]
    split <;> exact hs.frame rfl rfl
  | finalize c =>
    simp only [Agreeing, nonePending_none_iff]
    refine ⟨fun h => ⟨h, fun hcompleted => ?_, hs.once⟩, fun h => h.settled⟩
    rcases c.finalStatus_cases with hfinal | hfinal | hfinal <;> simp [step, hfinal] at hcompleted
  | commit j =>
    rcases hj : s.requests[j]? with _ | r
    · simp only [Agreeing, step, hj]
      exact ⟨fun _ => hs, fun _ r hr => by cases hr⟩
    rcases hrow : r.row with _ | row
    · simp only [Agreeing, step, hj, Option.some.injEq, forall_eq', hrow]
      exact ⟨fun _ => hs.frame (by simp [commit, hrow]) (by simp [commit, hrow]),
        fun _ row h => by cases h⟩
    · simp only [Agreeing, step, hj, Option.some.injEq, forall_eq', hrow]
      exact closes_iff hsound hs (List.mem_of_getElem? hj) hrow

/-- **Approval rows and task status agree throughout a run exactly if its steps keep them
together.** -/
theorem agreeing_iff_agree (as : List DeskAction) :
    Runs.Along step Agreeing create as ↔ ∀ bs, bs <+: as → Agree (Runs.run step create bs) := by
  have hsound : Sound create := ⟨by simp [create], by simp [create], by simp [create]⟩
  have hagree : Agree create := ⟨by simp [create], by simp [create], by simp [create]⟩
  exact Runs.along_iff_forall_prefix (fun _ a h => sound_step h a)
    (fun _ a h hs => agreeing_iff h hs a) hsound hagree

/-- `human_review` runs through, and the task is cancelled while it waits for its review. -/
def cancelledReview : List DeskAction :=
  [.review, .advance 0, .advance 0, .advance 0, .advance 0, .request .cancel, .commit 0]

/-- **A cancelled task keeps its pending approval.** -/
theorem cancelledReview_pending :
    (Runs.run step create cancelledReview).status = .cancelled ∧
      (Runs.run step create cancelledReview).approvals = [⟨.pending, 0⟩] ∧
      ¬ Agree (Runs.run step create cancelledReview) := by
  have hstatus : (Runs.run step create cancelledReview).status = .cancelled := by decide
  have hrows : (Runs.run step create cancelledReview).approvals = [⟨.pending, 0⟩] := by decide
  refine ⟨hstatus, hrows, fun h => ?_⟩
  exact h.settled (by rw [hstatus]; rfl) ⟨.pending, 0⟩ (by simp [hrows]) rfl

end ReviewDesk

end AgentPlatform
