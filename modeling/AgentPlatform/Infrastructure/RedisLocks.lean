import AgentPlatform.Infrastructure.MemoryLocks

/-!
# Infrastructure/RedisLocks — the Redis lock is the in-process lock

`RedisLockManager`: `acquire` is one `SET NX PX`, `renew` and `release` are scripts that compare the
owner first.  Every worker has a manager of its own; each call is one request, which the server runs
without another in between, so the calls of any number of workers are one sequence.

Of Redis the model takes its four commands as a parameter (`RedisKeys`) and what is documented of
them as laws (`Lawful`).  A command checks what has expired at one reading of the server's clock and
counts a new expiry from a second one; an expired key may be stored for as long as it likes.  Redis
lets a key go up to a millisecond late (its code compares `now > when`), where the in-process lock
has lapsed at its deadline.

* `redisLocks_refine` — every sequence of calls is answered as the expiring lock of that lateness
  answers it; and if no call is made at the very deadline of another, as the expiring lock and the
  in-process one answer it, and the locks in force are the same.
-/

namespace AgentPlatform

open ExpiringLock

/-- What `SET key value NX PX ms` replies. -/
inductive SetReply where
  | ok
  | nil
  | error
  deriving DecidableEq

/-- The commands the lock manager has the server run.  Those that set an expiry take two readings of
the clock, in milliseconds. -/
structure RedisKeys (S : Type*) where
  setNxPx : S → ℕ → ℕ → String → String → ℕ → SetReply × S
  get : S → ℕ → String → Option String × S
  pexpire : S → ℕ → ℕ → String → ℕ → ℕ × S
  del : S → ℕ → String → ℕ × S

variable {S : Type*}

/-- How long a key lives: `late` longer than asked for, but one that has no time is deleted at
once. -/
def lasting (late ms : ℕ) : ℕ := if ms = 0 then 0 else ms + late

/-- **What Redis documents of these commands**, at the `keys` that hold nothing or a string with an
expiry.  `stored` is what the server stores of such strings, expired ones included, each with the
first millisecond at which it is gone. -/
structure RedisKeys.Lawful (redis : RedisKeys S) (late : ℕ) (stored : S → Holdings String String ℕ)
    (keys : Set String) : Prop where
  /-- `PX` must be positive. -/
  set_free : ∀ s asked stamped key value ms, key ∈ keys → asked ≤ stamped → 0 < ms →
    unexpired asked (stored s key) = none →
    (redis.setNxPx s asked stamped key value ms).1 = .ok ∧
      Agree stamped (Function.update (stored s) key (some (value, stamped + lasting late ms)))
        (stored (redis.setNxPx s asked stamped key value ms).2)
  set_taken : ∀ s asked stamped key value ms entry, key ∈ keys → asked ≤ stamped → 0 < ms →
    unexpired asked (stored s key) = some entry →
    (redis.setNxPx s asked stamped key value ms).1 = .nil ∧
      Agree asked (stored s) (stored (redis.setNxPx s asked stamped key value ms).2)
  get : ∀ s now key, key ∈ keys →
    (redis.get s now key).1 = (unexpired now (stored s key)).map Prod.fst ∧
      Agree now (stored s) (stored (redis.get s now key).2)
  pexpire : ∀ s asked stamped key ms entry, key ∈ keys → asked ≤ stamped →
    unexpired asked (stored s key) = some entry →
    (redis.pexpire s asked stamped key ms).1 = 1 ∧
      Agree stamped (Function.update (stored s) key (some (entry.1, stamped + lasting late ms)))
        (stored (redis.pexpire s asked stamped key ms).2)
  del : ∀ s now key, key ∈ keys →
    Agree now (Function.update (stored s) key none) (stored (redis.del s now key).2)

/-- `RedisLockManager`. -/
structure RedisLockManager (S : Type*) where
  redis : RedisKeys S
  keyPrefix : String := "agent:lock"

namespace RedisLockManager

variable (m : RedisLockManager S)

/-- `_key(name)`. -/
def key (name : String) : String := m.keyPrefix ++ ":" ++ name

/-- `_RENEW`. -/
def renewScript (s : S) (asked stamped : ℕ) (key owner : String) (ms : ℕ) : ℕ × S :=
  let (holder, s) := m.redis.get s asked key
  if holder = some owner then m.redis.pexpire s asked stamped key ms else (0, s)

/-- `_RELEASE`. -/
def releaseScript (s : S) (now : ℕ) (key owner : String) : ℕ × S :=
  let (holder, s) := m.redis.get s now key
  if holder = some owner then m.redis.del s now key else (0, s)

/-- The request of a call, its ttl in milliseconds; `none` for what returns nothing, or raises. -/
def request (s : S) (c : Call String String ℕ) : Option Bool × S :=
  match c.request with
  | .acquire ms =>
    match m.redis.setNxPx s c.asked c.stamped (m.key c.name) c.owner ms with
    | (.ok, s) => (some true, s)
    | (.nil, s) => (some false, s)
    | (.error, s) => (none, s)
  | .renew ms =>
    let (result, s) := m.renewScript s c.asked c.stamped (m.key c.name) c.owner ms
    (some (result != 0), s)
  | .release => (none, (m.releaseScript s c.asked (m.key c.name) c.owner).2)

end RedisLockManager

/-- `ttl_seconds * 1000`. -/
def inMillis : Call String String ℕ → Call String String ℕ := Call.mapTtl (· * 1000)

namespace RedisLockManager

variable (m : RedisLockManager S)

/-- A call of one of the three methods, its ttl in seconds. -/
def call (s : S) (c : Call String String ℕ) : Option Bool × S := m.request s (inMillis c)

/-- The entries under the names' keys. -/
def table (stored : S → Holdings String String ℕ) (s : S) : Holdings String String ℕ :=
  stored s ∘ m.key

variable {m} {late : ℕ} {stored : S → Holdings String String ℕ} {keys : Set String}

theorem key_injective : Function.Injective m.key := by
  intro name other h
  have h := congrArg String.toList h
  simp only [key, String.toList_append] at h
  exact String.toList_inj.mp (List.append_cancel_left h)

/-- Tables that agree still do when a key and its name get the same entry. -/
theorem agree_table {held : Holdings String String ℕ} {s s' : S} {now later : ℕ} {name : String}
    {entry : Option (String × ℕ)} (h : Agree now held (m.table stored s)) (hlater : now ≤ later)
    (hstored : Agree later (Function.update (stored s) (m.key name) entry) (stored s')) :
    Agree later (Function.update held name entry) (m.table stored s') := by
  intro t ht other
  rw [((h.mono hlater).update name entry) t ht other, table,
    ← Function.update_comp_eq_of_injective _ key_injective]
  exact hstored t ht (m.key other)

/-- **A request simulates a step of the specification**, unless it asks for a lock that expires at
once. -/
theorem request_simulates (h : m.redis.Lawful late stored keys) (hkeys : ∀ name, m.key name ∈ keys)
    (s : S) (held : Holdings String String ℕ) (c : Call String String ℕ)
    (hms : c.request ≠ .acquire 0) (hclock : c.asked ≤ c.stamped)
    (hagree : Agree c.asked held (m.table stored s)) :
    (m.request s c).1 = (step held (c.mapTtl (lasting late))).1 ∧
      Agree c.stamped (step held (c.mapTtl (lasting late))).2
        (m.table stored (m.request s c).2) := by
  have hname : unexpired c.asked (stored s (m.key c.name)) = unexpired c.asked (held c.name) :=
    (hagree c.asked le_rfl c.name).symm
  have hforce : Agree c.asked (fun name => unexpired c.asked (held name)) (m.table stored s) :=
    fun later hlater name =>
      (agree_unexpired c.asked held later hlater name).trans (hagree later hlater name)
  obtain ⟨hget, hread⟩ := h.get s c.asked (m.key c.name) (hkeys c.name)
  rw [hname] at hget
  have hforce' : Agree c.asked (fun name => unexpired c.asked (held name))
      (m.table stored (m.redis.get s c.asked (m.key c.name)).2) := fun later hlater name =>
    (hforce later hlater name).trans (hread later hlater (m.key name))
  have hname' : unexpired c.asked (stored (m.redis.get s c.asked (m.key c.name)).2 (m.key c.name)) =
      unexpired c.asked (held c.name) := (hread c.asked le_rfl _).symm.trans hname
  cases hrequest : c.request with
  | acquire ms =>
    have hpos : 0 < ms := by
      rcases Nat.eq_zero_or_pos ms with rfl | hpos
      · exact absurd hrequest hms
      · exact hpos
    cases hheld : unexpired c.asked (held c.name) with
    | none =>
      obtain ⟨hreply, hset⟩ := h.set_free s c.asked c.stamped (m.key c.name) c.owner ms (hkeys _)
        hclock hpos (hname.trans hheld)
      rcases hredis : m.redis.setNxPx s c.asked c.stamped (m.key c.name) c.owner ms with ⟨reply, s'⟩
      rw [hredis] at hreply hset
      subst hreply
      simp only [request, step, Call.mapTtl, Request.mapTtl, hrequest, hheld, hredis]
      exact ⟨trivial, agree_table hforce hclock hset⟩
    | some entry =>
      obtain ⟨hreply, hset⟩ := h.set_taken s c.asked c.stamped (m.key c.name) c.owner
        ms entry (hkeys _)
        hclock hpos (hname.trans hheld)
      rcases hredis : m.redis.setNxPx s c.asked c.stamped (m.key c.name) c.owner ms with ⟨reply, s'⟩
      rw [hredis] at hreply hset
      subst hreply
      simp only [request, step, Call.mapTtl, Request.mapTtl, hrequest, hheld, hredis]
      exact ⟨trivial, fun later hlater name => (hforce later (hclock.trans hlater) name).trans
        (hset later (hclock.trans hlater) (m.key name))⟩
  | renew ms =>
    cases hheld : unexpired c.asked (held c.name) with
    | none =>
      rw [hheld] at hget
      simp only [request, renewScript, step, Call.mapTtl, Request.mapTtl, hrequest, hheld, hget,
        Option.map_none, reduceCtorEq, if_false]
      exact ⟨rfl, hforce'.mono hclock⟩
    | some entry =>
      rw [hheld] at hget
      by_cases howner : entry.1 = c.owner
      · obtain ⟨hreply, hexpire⟩ := h.pexpire (m.redis.get s c.asked (m.key c.name)).2
          c.asked c.stamped
          (m.key c.name) ms entry (hkeys _) hclock (hname'.trans hheld)
        rw [howner] at hexpire
        simp only [request, renewScript, step, Call.mapTtl, Request.mapTtl, hrequest, hheld, hget,
          Option.map_some, howner, if_true, hreply]
        exact ⟨rfl, agree_table hforce' hclock hexpire⟩
      · simp only [request, renewScript, step, Call.mapTtl, Request.mapTtl, hrequest, hheld, hget,
          Option.map_some, Option.some.injEq, howner, if_false]
        exact ⟨rfl, hforce'.mono hclock⟩
  | release =>
    cases hheld : unexpired c.asked (held c.name) with
    | none =>
      rw [hheld] at hget
      simp only [request, releaseScript, step, Call.mapTtl, Request.mapTtl, hrequest, hheld, hget,
        Option.map_none, reduceCtorEq, if_false]
      exact ⟨trivial, hforce'.mono hclock⟩
    | some entry =>
      rw [hheld] at hget
      by_cases howner : entry.1 = c.owner
      · simp only [request, releaseScript, step, Call.mapTtl, Request.mapTtl, hrequest, hheld, hget,
          Option.map_some, howner, if_true]
        exact ⟨trivial, (agree_table hforce' le_rfl
          (h.del _ c.asked (m.key c.name) (hkeys _))).mono hclock⟩
      · simp only [request, releaseScript, step, Call.mapTtl, Request.mapTtl, hrequest, hheld, hget,
          Option.map_some, Option.some.injEq, howner, if_false]
        exact ⟨trivial, hforce'.mono hclock⟩

/-- …with its ttl in seconds. -/
theorem call_simulates (h : m.redis.Lawful late stored keys) (hkeys : ∀ name, m.key name ∈ keys)
    (s : S) (held : Holdings String String ℕ) (c : Call String String ℕ)
    (httl : c.request ≠ .acquire 0) (hclock : c.asked ≤ c.stamped)
    (hagree : Agree c.asked held (m.table stored s)) :
    (m.call s c).1 = (step held (c.mapTtl fun ttl => lasting late (ttl * 1000))).1 ∧
      Agree c.stamped (step held (c.mapTtl fun ttl => lasting late (ttl * 1000))).2
        (m.table stored (m.call s c).2) := by
  have hms : (inMillis c).request ≠ .acquire 0 := by
    rw [inMillis, Call.mapTtl]
    cases hrequest : c.request with
    | acquire ttl =>
      rw [hrequest] at httl
      simp only [Request.mapTtl, ne_eq, Request.acquire.injEq] at httl ⊢
      omega
    | renew ttl => simp [Request.mapTtl]
    | release => simp [Request.mapTtl]
  have htwice : (inMillis c).mapTtl (lasting late) =
      c.mapTtl fun ttl => lasting late (ttl * 1000) := by
    obtain ⟨name, owner, request, asked, stamped⟩ := c
    cases request <;> rfl
  have hrequest := request_simulates h hkeys s held (inMillis c) hms hclock hagree
  rwa [htwice] at hrequest

/-- No call's deadline. -/
def OffDeadlines (calls : List (Call String String ℕ)) (now : ℕ) : Prop :=
  ∀ c ∈ calls, ∀ ttl ∈ c.request.ttl?, now ≠ c.stamped + ttl * 1000

/-- Off the deadlines, the lateness of a server shows nowhere. -/
theorem lt_lasting_iff {late : ℕ} (hlate : late ≤ 1) {calls : List (Call String String ℕ)}
    {c : Call String String ℕ} (hc : c ∈ calls) {ttl now : ℕ} (httl : ttl ∈ c.request.ttl?)
    (hnow : OffDeadlines calls now) :
    now < c.stamped + lasting late (ttl * 1000) ↔ now < c.stamped + ttl * 1000 := by
  have hoff := hnow c hc ttl httl
  rw [lasting]
  split <;> omega

/-- **The Redis lock is an expiring lock, and so is the in-process one**: from a server without
locks, the calls of any number of workers are answered as a lock that lasts a little longer answers
them; and if no call is made at a deadline, they are answered by all three alike, and the same locks
are in force after them.  Asked for a lock that expires at once, Redis raises. -/
theorem redisLocks_refine (h : m.redis.Lawful late stored keys) (hlate : late ≤ 1)
    (hkeys : ∀ name, m.key name ∈ keys) {s : S} (hfree : ∀ name, stored s (m.key name) = none)
    (calls : List (Call String String ℕ)) (hclock : (readings calls).Pairwise (· ≤ ·))
    (httl : ∀ c ∈ calls, c.request ≠ .acquire 0) :
    answers m.call s calls =
        answers step (fun _ => none) (calls.map
          (Call.mapTtl (fun ttl => lasting late (ttl * 1000)))) ∧
      ((∀ c ∈ calls, OffDeadlines calls c.asked) →
        (answers m.call s calls = answers step (fun _ => none) (calls.map inMillis) ∧
          answers m.call s calls =
            answers MemoryLocks.call MemoryLocks.empty (calls.map inMillis)) ∧
        ∀ now, (∀ reading ∈ readings calls, reading ≤ now) → OffDeadlines calls now → ∀ name,
          holder now (stored (after m.call s calls) (m.key name)) =
            holder now (after step (fun _ => none) (calls.map inMillis) name) ∧
          holder now (stored (after m.call s calls) (m.key name)) =
            ((after MemoryLocks.call MemoryLocks.empty (calls.map inMillis)).holding now name).map
              Prod.fst) := by
  have hstart : ∀ now, Agree now (fun _ => none) (m.table stored s) := by
    intro now later _ name
    rw [table, Function.comp_apply, hfree]
  obtain ⟨hanswers, hagree⟩ := simulates_of (·.request ≠ .acquire 0) _ (call_simulates h hkeys) httl
    hclock hstart
  refine ⟨hanswers, fun hoff => ?_⟩
  have hreadings : readings (calls.map inMillis) = readings calls := by
    simp only [readings, List.flatMap_map]
    rfl
  have hmemoryStart : ∀ now, Agree now (fun _ => none) (MemoryLocks.empty : MemoryLocks ℕ).locks :=
    fun _ _ _ _ => rfl
  have hclock' := hclock
  rw [← hreadings] at hclock'
  obtain ⟨hmemory, hagree'⟩ := simulates MemoryLocks.call_simulates hclock' hmemoryStart
  have hnone : SameHolders {now | OffDeadlines calls now} (fun _ => none : Holdings String String ℕ)
      (fun _ => none) := fun _ _ _ => rfl
  obtain ⟨hspec, hholders⟩ := answers_mapTtl (f := fun ttl => lasting late (ttl * 1000))
    (g := (· * 1000)) hnone hoff fun c hc ttl httl now hnow => lt_lasting_iff hlate hc httl hnow
  rw [hspec] at hanswers
  refine ⟨⟨hanswers, hanswers.trans hmemory.symm⟩, fun now hnow hclear name => ?_⟩
  have hname : holder now (stored (after m.call s calls) (m.key name)) =
      holder now (after step (fun _ => none) (calls.map inMillis) name) :=
    (congrArg (Option.map Prod.fst) (hagree now hnow now le_rfl name).symm).trans
      (hholders now hclear name)
  rw [← hreadings] at hnow
  exact ⟨hname, hname.trans (congrArg (Option.map Prod.fst) (hagree' now hnow now le_rfl name))⟩

/-! ### A Redis that does as documented -/

/-- The commands on a table of strings that expire, each a millisecond late. -/
def keyspace : RedisKeys (Holdings String String ℕ) where
  setNxPx held asked stamped key value ms :=
    if ms = 0 then (.error, held)
    else match unexpired asked (held key) with
      | some _ => (.nil, held)
      | none => (.ok, Function.update held key (some (value, stamped + lasting 1 ms)))
  get held now key := ((unexpired now (held key)).map Prod.fst, held)
  pexpire held asked stamped key ms :=
    match unexpired asked (held key) with
    | some entry => (1, Function.update held key (some (entry.1, stamped + lasting 1 ms)))
    | none => (0, held)
  del held now key := (if (unexpired now (held key)).isSome then 1 else 0,
    Function.update held key none)

theorem lawful_keyspace : keyspace.Lawful 1 id Set.univ where
  set_free held asked stamped key value ms _ _ hms hfree := by
    have hms : ms ≠ 0 := by omega
    simp only [id, keyspace, if_neg hms] at hfree ⊢
    rw [hfree]
    exact ⟨rfl, fun _ _ _ => rfl⟩
  set_taken held asked stamped key value ms entry _ _ hms htaken := by
    have hms : ms ≠ 0 := by omega
    simp only [id, keyspace, if_neg hms] at htaken ⊢
    rw [htaken]
    exact ⟨rfl, fun _ _ _ => rfl⟩
  get held now key _ := ⟨rfl, fun _ _ _ => rfl⟩
  pexpire held asked stamped key ms entry _ _ hheld := by
    simp only [id, keyspace] at hheld ⊢
    rw [hheld]
    exact ⟨rfl, fun _ _ _ => rfl⟩
  del held now key _ := fun _ _ _ => rfl

/-- Two workers and one lock: the second is refused while the first holds it, the first renews, and
the second is granted the lock behind the new deadline. -/
def handover : List (Call String String ℕ) :=
  [⟨"task:1", "worker-a", .acquire 60, 0, 0⟩, ⟨"task:1", "worker-b", .acquire 60, 10000, 10000⟩,
    ⟨"task:1", "worker-a", .renew 60, 30000, 30001⟩, ⟨"task:1", "worker-b", .release, 40000, 40000⟩,
    ⟨"task:1", "worker-b", .acquire 60, 90002, 90003⟩]

theorem redisLocks_refine_handover :
    answers (RedisLockManager.call ⟨keyspace, "agent:lock"⟩) (fun _ => none) handover =
      [some true, some false, some true, none, some true] := by
  have hoff : ∀ c ∈ handover, OffDeadlines handover c.asked := by
    unfold OffDeadlines
    decide
  refine (((redisLocks_refine (m := ⟨keyspace, "agent:lock"⟩) lawful_keyspace le_rfl
    (fun _ => trivial) (fun _ => rfl) handover ?_ ?_).2 hoff).1.2).trans ?_
  · decide
  · decide
  · decide

end RedisLockManager

end AgentPlatform
