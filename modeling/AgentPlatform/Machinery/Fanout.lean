import Mathlib.Data.List.Induction
import Mathlib.Logic.Function.Basic
import Mathlib.Tactic.Common

/-!
# Machinery/Fanout — publish and subscribe

The specification of a broker: a subscriber has a mailbox for one topic, opened with the broker's
greeting, and a message goes into the mailbox of every subscriber to its topic.  Topics and messages
are arbitrary types.

A **ledger** is kept beside a run from its actions and answers alone: what a subscriber was sent
since it subscribed, and what it took.

* `ledger_spec` — what was sent is what was taken and what the mailbox holds.
* `drained` — a subscriber that goes on taking has in the end taken what it was sent, each message
  once and in order.
-/

namespace Fanout

variable {T M S : Type*}

/-- What happens at a broker; subscribers are numbered. -/
inductive Act (T M : Type*) where
  | publish (m : M)
  | subscribe (i : ℕ) (topic : T)
  | take (i : ℕ)
  | close (i : ℕ)
  deriving DecidableEq

/-- Whose action it is; a publisher is no subscriber. -/
def Act.subscriber? : Act T M → Option ℕ
  | .publish _ => none
  | .subscribe i _ | .take i | .close i => some i

/-- The topic of a subscriber and what waits for it. -/
abbrev Boxes (T M : Type*) := ℕ → Option (T × List M)

/-- A run with its answers: only a `take` has one, and not when nothing waits. -/
def trace (call : S → Act T M → Option M × S) : S → List (Act T M) → List (Act T M × Option M)
  | _, [] => []
  | s, a :: acts => (a, (call s a).1) :: trace call (call s a).2 acts

/-- The state a run leaves. -/
def after (call : S → Act T M → Option M × S) (s : S) (acts : List (Act T M)) : S :=
  acts.foldl (fun s a => (call s a).2) s

theorem after_append (call : S → Act T M → Option M × S) (s : S) (acts acts' : List (Act T M)) :
    after call s (acts ++ acts') = after call (after call s acts) acts' :=
  List.foldl_append

theorem map_fst_trace (call : S → Act T M → Option M × S) (s : S) (acts : List (Act T M)) :
    (trace call s acts).map (·.1) = acts := by
  induction acts generalizing s with
  | nil => rfl
  | cons a acts ih => exact congrArg _ (ih (call s a).2)

theorem trace_append (call : S → Act T M → Option M × S) (s : S) (acts acts' : List (Act T M)) :
    trace call s (acts ++ acts') = trace call s acts ++ trace call (after call s acts) acts' := by
  induction acts generalizing s with
  | nil => rfl
  | cons a acts ih => exact congrArg _ (ih (call s a).2)

/-- Brokers that answer alike answer alike in the end. -/
theorem answer_eq {S' : Type*} {call : S → Act T M → Option M × S} {s : S}
    {call' : S' → Act T M → Option M × S'}
    {s' : S'} (h : ∀ acts, trace call s acts = trace call' s' acts)
    (acts : List (Act T M)) (a : Act T M) :
    (call (after call s acts) a).1 = (call' (after call' s' acts) a).1 := by
  have hlast := h (acts ++ [a])
  rw [trace_append, trace_append, h acts] at hlast
  exact congrArg Prod.snd (List.cons.inj (List.append_cancel_left hlast)).1

/-- Brokers that agree on every step of a run agree on the run. -/
theorem trace_congr {call call' : S → Act T M → Option M × S} {s : S} {acts : List (Act T M)}
    (h : ∀ done a rest, acts = done ++ a :: rest →
      call (after call' s done) a = call' (after call' s done) a) :
    trace call s acts = trace call' s acts := by
  induction acts generalizing s with
  | nil => rfl
  | cons a acts ih =>
    have hfirst : call s a = call' s a := h [] a acts rfl
    rw [trace, trace, hfirst, ih fun done a' rest hacts => h (a :: done) a' rest (congrArg _ hacts)]

/-- What a subscriber was sent and what it took, in order. -/
structure Ledger (T M : Type*) where
  topic : T
  sent : List M
  taken : List M
  deriving DecidableEq

section Spec

variable (topic : M → T) (greeting : T → List M) [DecidableEq T]

/-- **One step of the specification**: the answer, and the mailboxes after it. -/
def step (boxes : Boxes T M) : Act T M → Option M × Boxes T M
  | .publish m =>
    (none, fun i => (boxes i).map fun box =>
      (box.1, if box.1 = topic m then box.2 ++ [m] else box.2))
  | .subscribe i t =>
    (none, Function.update boxes i (some ((boxes i).getD (t, greeting t))))
  | .take i =>
    match boxes i with
    | some (t, m :: ms) => (some m, Function.update boxes i (some (t, ms)))
    | _ => (none, boxes)
  | .close i => (none, Function.update boxes i none)

/-- A subscriber's ledger after one more action. -/
def enter (i : ℕ) (l : Option (Ledger T M)) : Act T M × Option M → Option (Ledger T M)
  | (.publish m, _) => l.map fun l => if l.topic = topic m
    then { l with sent := l.sent ++ [m] } else l
  | (.subscribe j t, _) => if j = i then some (l.getD ⟨t, greeting t, []⟩) else l
  | (.take j, answer) =>
    if j = i then l.map fun l => { l with taken := l.taken ++ answer.toList } else l
  | (.close j, _) => if j = i then none else l

/-- A subscriber's ledger after a run. -/
def ledger (i : ℕ) (run : List (Act T M × Option M)) : Option (Ledger T M) :=
  run.foldl (enter topic greeting i) none

/-- The mailbox holds what was sent and not yet taken. -/
inductive Balanced : Option (T × List M) → Option (Ledger T M) → Prop
  | closed : Balanced none none
  | opened (t : T) (taken box : List M) : Balanced (some (t, box)) (some ⟨t, taken ++ box, taken⟩)

variable {topic greeting} {boxes : Boxes T M} {i j : ℕ} {l : Option (Ledger T M)} {t : T} {m : M}

theorem step_take_cons {ms : List M} (h : boxes i = some (t, m :: ms)) :
    step topic greeting boxes (.take i) = (some m, Function.update boxes i (some (t, ms))) := by
  simp [step, h]

theorem step_take_nil (h : ∀ t m ms, boxes i ≠ some (t, m :: ms)) :
    step topic greeting boxes (.take i) = (none, boxes) := by
  rw [step]
  split
  · exact absurd ‹_› (h _ _ _)
  · rfl

/-- Another subscriber's actions leave a ledger and a mailbox as they are. -/
theorem enter_of_ne {a : Act T M} (ha : a.subscriber? = some j) (hj : j ≠ i) (answer : Option M) :
    enter topic greeting i l (a, answer) = l := by
  cases a <;> cases ha <;> exact if_neg hj

theorem step_of_ne {a : Act T M} (ha : a.subscriber? = some j) (hj : j ≠ i) :
    (step topic greeting boxes a).2 i = boxes i := by
  cases a with
  | publish m => cases ha
  | subscribe j t =>
    cases ha
    exact Function.update_of_ne hj.symm _ _
  | take j =>
    cases ha
    rw [step]
    split
    · exact Function.update_of_ne hj.symm _ _
    · rfl
  | close j =>
    cases ha
    exact Function.update_of_ne hj.symm _ _

theorem Balanced.step (h : Balanced (boxes i) l) (a : Act T M) :
    Balanced ((step topic greeting boxes a).2 i)
      (enter topic greeting i l (a, (step topic greeting boxes a).1)) := by
  cases a with
  | publish m =>
    simp only [Fanout.step, enter]
    generalize boxes i = box at h
    cases h with
    | closed => exact .closed
    | opened =>
      simp only [Option.map_some]
      split
      · rw [List.append_assoc]
        exact .opened _ _ _
      · exact .opened _ _ _
  | subscribe j t =>
    by_cases hj : j = i
    · subst hj
      simp only [Fanout.step, enter, if_true, Function.update_self]
      generalize boxes j = box at h
      cases h with
      | closed => exact .opened t [] _
      | opened => exact .opened _ _ _
    · rw [enter_of_ne rfl hj, step_of_ne rfl hj]
      exact h
  | take j =>
    by_cases hj : j = i
    · subst hj
      generalize hbox : boxes j = box at h
      cases h with
      | closed =>
        rw [step_take_nil (by simp [hbox])]
        simpa [enter, hbox] using Balanced.closed
      | opened t taken box =>
        cases box with
        | nil =>
          rw [step_take_nil (by simp [hbox])]
          simpa [enter, hbox] using Balanced.opened t taken []
        | cons m ms =>
          rw [step_take_cons hbox]
          simpa [enter] using Balanced.opened t (taken ++ [m]) ms
    · rw [enter_of_ne rfl hj, step_of_ne rfl hj]
      exact h
  | close j =>
    by_cases hj : j = i
    · subst hj
      simp only [Fanout.step, enter, if_true, Function.update_self]
      exact .closed
    · rw [enter_of_ne rfl hj, step_of_ne rfl hj]
      exact h

/-- **What was sent is what was taken and what waits.** -/
theorem ledger_spec (topic : M → T) (greeting : T → List M) (acts : List (Act T M)) (i : ℕ) :
    Balanced (after (step topic greeting) (fun _ => none) acts i)
      (ledger topic greeting i (trace (step topic greeting) (fun _ => none) acts)) := by
  induction acts using List.reverseRecOn with
  | nil => exact .closed
  | append_singleton acts a ih =>
    rw [after_append, trace_append, ledger, List.foldl_append]
    exact ih.step a

/-- Taking often enough takes all that waits. -/
theorem take_all (taken : List M) {box : List M} (hbox : boxes i = some (t, box)) {k : ℕ}
    (hk : box.length ≤ k) :
    (trace (step topic greeting) boxes (List.replicate k (.take i))).foldl (enter topic greeting i)
      (some ⟨t, taken ++ box, taken⟩) = some ⟨t, taken ++ box, taken ++ box⟩ := by
  induction k generalizing boxes taken box with
  | zero =>
    rw [List.length_eq_zero_iff.mp (Nat.le_zero.mp hk), List.append_nil]
    rfl
  | succ k ih =>
    rw [List.replicate_succ, trace, List.foldl_cons]
    cases box with
    | nil =>
      have hnext := ih taken hbox (Nat.zero_le k)
      simpa [step, hbox, enter] using hnext
    | cons m ms =>
      have hbox' : Function.update boxes i (some (t, ms)) i = some (t, ms) :=
        Function.update_self ..
      have hnext := ih (taken ++ [m]) hbox' (Nat.le_of_succ_le_succ hk)
      rw [List.append_assoc, List.singleton_append] at hnext
      simpa [step, hbox, enter] using hnext

/-- **Nothing is lost and nothing comes twice**: a subscriber that goes on taking has taken what it
was sent, in order. -/
theorem drained {acts : List (Act T M)} {l : Ledger T M}
    (h : ledger topic greeting i (trace (step topic greeting) (fun _ => none) acts) = some l)
    {k : ℕ} (hk : l.sent.length ≤ k) :
    l.taken <+: l.sent ∧
      ledger topic greeting i (trace (step topic greeting) (fun _ => none)
        (acts ++ List.replicate k (.take i))) = some ⟨l.topic, l.sent, l.sent⟩ := by
  have hbalanced := ledger_spec topic greeting acts i
  rw [h] at hbalanced
  generalize hbox : after (step topic greeting) (fun _ => none) acts i = box at hbalanced
  cases hbalanced with
  | opened t taken box =>
    refine ⟨List.prefix_append taken box, ?_⟩
    rw [trace_append, ledger, List.foldl_append]
    rw [ledger] at h
    rw [h]
    exact take_all taken hbox (Nat.le_trans (by simp) hk)

/-- What was sent was the greeting or was published. -/
theorem mem_sent {run : List (Act T M × Option M)} {l : Ledger T M}
    (h : ledger topic greeting i run = some l) (hm : m ∈ l.sent) :
    (∃ t, m ∈ greeting t) ∨ .publish m ∈ run.map (·.1) := by
  induction run using List.reverseRecOn generalizing l with
  | nil => cases h
  | append_singleton run p ih =>
    obtain ⟨a, answer⟩ := p
    rw [ledger, List.foldl_append, List.foldl_cons, List.foldl_nil] at h
    rw [List.map_append, List.mem_append]
    have hold : ∀ {l' : Ledger T M}, run.foldl (enter topic greeting i) none = some l' →
      m ∈ l'.sent →
        (∃ t, m ∈ greeting t) ∨ .publish m ∈ run.map (·.1) ∨ .publish m ∈ [(a, answer)].map (·.1) :=
      fun hl hm => (ih hl hm).imp_right .inl
    generalize run.foldl (enter topic greeting i) none = before at h hold
    cases a with
    | publish m' =>
      obtain ⟨l', rfl, rfl⟩ := Option.map_eq_some_iff.mp h
      split at hm
      · rcases List.mem_append.mp hm with hm | hm
        · exact hold rfl hm
        · obtain rfl := List.mem_singleton.mp hm
          exact .inr (.inr (by simp))
      · exact hold rfl hm
    | subscribe j t =>
      by_cases hj : j = i
      · rw [enter, if_pos hj] at h
        cases before with
        | none =>
          cases h
          exact .inl ⟨t, hm⟩
        | some l' =>
          cases h
          exact hold rfl hm
      · rw [enter_of_ne rfl hj] at h
        exact hold h hm
    | take j =>
      by_cases hj : j = i
      · rw [enter, if_pos hj] at h
        obtain ⟨l', rfl, rfl⟩ := Option.map_eq_some_iff.mp h
        exact hold rfl hm
      · rw [enter_of_ne rfl hj] at h
        exact hold h hm
    | close j =>
      by_cases hj : j = i
      · rw [enter, if_pos hj] at h
        cases h
      · rw [enter_of_ne rfl hj] at h
        exact hold h hm

/-- What is taken was the greeting or was published. -/
theorem mem_taken {acts : List (Act T M)} {a : Act T M}
    (h : (step topic greeting (after (step topic greeting) (fun _ => none) acts) a).1 = some m) :
    (∃ t, m ∈ greeting t) ∨ .publish m ∈ acts := by
  generalize hboxes : after (step topic greeting) (fun _ => none) acts = boxes at h
  cases a with
  | publish m' => cases h
  | subscribe j t => cases h
  | close j => cases h
  | take j =>
    rw [step] at h
    split at h
    · next t' m' ms hbox =>
      cases h
      have hbalanced := ledger_spec topic greeting acts j
      rw [hboxes, hbox] at hbalanced
      generalize hledger : ledger topic greeting j _ = l at hbalanced
      cases hbalanced with
      | opened =>
        have hsent := mem_sent hledger (m := m) (by simp)
        rwa [map_fst_trace] at hsent
    · cases h

end Spec

/-! ## Brokers -/

section Brokers

variable [DecidableEq T] (topic : M → T) (greeting : T → List M)

/-- **A broker delivers**: where every message published is sound, what a subscriber has taken is
the beginning of what it was sent, and if it goes on taking it is all of it. -/
def Delivers (Sound : M → Prop) (call : S → Act T M → Option M × S) (s : S) : Prop :=
  ∀ acts : List (Act T M), (∀ m, .publish m ∈ acts → Sound m) → ∀ (i : ℕ) (l : Ledger T M),
    ledger topic greeting i (trace call s acts) = some l → l.taken <+: l.sent ∧
    ∀ k, l.sent.length < k →
      ledger topic greeting i (trace call s (acts ++ List.replicate k (.take i))) =
        some ⟨l.topic, l.sent, l.sent⟩

variable {topic greeting} {call : S → Act T M → Option M × S} {s : S}

/-- The simulation rule. -/
theorem trace_eq_of_simulates {R : S → Boxes T M → Prop} (hinit : R s fun _ => none)
    (hstep : ∀ s boxes a, R s boxes → (call s a).1 = (step topic greeting boxes a).1 ∧
      R (call s a).2 (step topic greeting boxes a).2) (acts : List (Act T M)) :
    trace call s acts = trace (step topic greeting) (fun _ => none) acts ∧
      R (after call s acts) (after (step topic greeting) (fun _ => none) acts) := by
  suffices hrun : ∀ (s : S) (boxes : Boxes T M), R s boxes →
      trace call s acts = trace (step topic greeting) boxes acts ∧
        R (after call s acts) (after (step topic greeting) boxes acts) from hrun _ _ hinit
  induction acts with
  | nil => exact fun s boxes h => ⟨rfl, h⟩
  | cons a acts ih =>
    intro s boxes h
    obtain ⟨hanswer, hnext⟩ := hstep s boxes a h
    obtain ⟨htrace, hafter⟩ := ih _ _ hnext
    refine ⟨?_, hafter⟩
    rw [trace, trace, hanswer, htrace]

/-- A broker that runs as another delivers as it does. -/
theorem Delivers.congr {Sound : M → Prop} {call' : S → Act T M → Option M × S}
    (h : Delivers topic greeting Sound call s)
    (htrace : ∀ acts, (∀ m, .publish m ∈ acts → Sound m) → trace call' s acts = trace call s acts) :
    Delivers topic greeting Sound call' s := by
  intro acts hacts i l hl
  rw [htrace acts hacts] at hl
  refine ⟨(h acts hacts i l hl).1, fun k hk => ?_⟩
  rw [htrace]
  · exact (h acts hacts i l hl).2 k hk
  · intro m hm
    rcases List.mem_append.mp hm with hm | hm
    · exact hacts m hm
    · cases List.eq_of_mem_replicate hm

/-- **A broker that answers as the specification delivers.** -/
theorem delivers_of_trace_eq {Sound : M → Prop}
    (h : ∀ acts, trace call s acts = trace (step topic greeting) (fun _ => none) acts) :
    Delivers topic greeting Sound call s := by
  intro acts _ i l hl
  rw [h] at hl
  refine ⟨(drained hl (Nat.le_refl _)).1, fun k hk => ?_⟩
  rw [h]
  exact (drained hl (Nat.le_of_lt hk)).2

end Brokers

/-! ## A broker behind a codec -/

/-- Messages carried by a broker of other messages: each goes to the topic its own is carried by,
and reads back; the greeting is one message at most, and reads as none. -/
structure Codec {T M T' M' : Type*} (topic : M → T) (topic' : M' → T') (greeting' : T' → List M')
    (Sound : M → Prop) where
  carrier : T → T'
  carrier_injective : Function.Injective carrier
  encode : M → M'
  decode : M' → Option M
  topic_encode : ∀ m, topic' (encode m) = carrier (topic m)
  decode_encode : ∀ m, Sound m → decode (encode m) = some m
  decode_greeting : ∀ t, ∀ m ∈ greeting' t, decode m = none
  length_greeting : ∀ t, (greeting' t).length ≤ 1

namespace Codec

variable {T' M' : Type*} {topic : M → T} {topic' : M' → T'} {greeting' : T' → List M'}
  {Sound : M → Prop} (c : Codec topic topic' greeting' Sound)

/-- An action at the other broker. -/
def act : Act T M → Act T' M'
  | .publish m => .publish (c.encode m)
  | .subscribe i t => .subscribe i (c.carrier t)
  | .take i => .take i
  | .close i => .close i

/-- The broker behind the codec. -/
def through (call : S → Act T' M' → Option M' × S) (s : S) (a : Act T M) : Option M × S :=
  ((call s (c.act a)).1.bind c.decode, (call s (c.act a)).2)

theorem after_through (call : S → Act T' M' → Option M' × S) (s : S) (acts : List (Act T M)) :
    after (c.through call) s acts = after call s (acts.map c.act) := by
  simp only [after, List.foldl_map, through]

/-- A ledger and the one it is carried by, which has the greeting more. -/
inductive Carries : Option (Ledger T' M') → Option (Ledger T M) → Prop
  | closed : Carries none none
  | opened {t : T} {sent taken : List M'}
    (hgreeting : sent.length ≤ (sent.filterMap c.decode).length + 1) :
      Carries (some ⟨c.carrier t, sent, taken⟩)
      (some ⟨t, sent.filterMap c.decode, taken.filterMap c.decode⟩)

variable [DecidableEq T] [DecidableEq T'] {c} {call : S → Act T' M' → Option M' × S} {s : S}

theorem Carries.enter {i : ℕ} {l' : Option (Ledger T' M')} {l : Option (Ledger T M)}
    (h : c.Carries l' l) {a : Act T M} (ha : ∀ m, a = .publish m → Sound m) (answer : Option M') :
    c.Carries (Fanout.enter topic' greeting' i l' (c.act a, answer))
      (Fanout.enter topic (fun _ => []) i l (a, answer.bind c.decode)) := by
  cases a with
  | publish m =>
    cases h with
    | closed => exact .closed
    | @opened t sent taken hgreeting =>
      simp only [Fanout.enter, act, Option.map_some, c.topic_encode, c.carrier_injective.eq_iff]
      split
      · have hsent : (sent ++ [c.encode m]).filterMap c.decode
            = sent.filterMap c.decode ++ [m] := by
          simp [c.decode_encode m (ha m rfl)]
        rw [← hsent]
        refine .opened ?_
        rw [hsent, List.length_append, List.length_append, List.length_singleton,
          List.length_singleton]
        omega
      · exact .opened hgreeting
  | subscribe j t =>
    simp only [Fanout.enter, act]
    split
    · cases h with
      | closed =>
        have hnone : (greeting' (c.carrier t)).filterMap c.decode = [] :=
          List.filterMap_eq_nil_iff.mpr (c.decode_greeting _)
        have hopened : c.Carries (some ⟨c.carrier t, greeting' (c.carrier t), []⟩)
            (some ⟨t, (greeting' (c.carrier t)).filterMap c.decode, [].filterMap c.decode⟩) :=
              .opened (by
          have := c.length_greeting (c.carrier t)
          omega)
        rw [hnone, List.filterMap_nil] at hopened
        exact hopened
      | opened hgreeting => exact .opened hgreeting
    · exact h
  | take j =>
    simp only [Fanout.enter, act]
    split
    · cases h with
      | closed => exact .closed
      | @opened t sent taken hgreeting =>
        have hanswer : (taken ++ answer.toList).filterMap c.decode =
            taken.filterMap c.decode ++ (answer.bind c.decode).toList := by
          cases answer with
          | none => simp
          | some m => cases hm : c.decode m <;> simp [hm]
        rw [Option.map_some, Option.map_some, ← hanswer]
        exact .opened hgreeting
    · exact h
  | close j =>
    simp only [Fanout.enter, act]
    split
    · exact .closed
    · exact h

/-- The ledgers of a run and of the run that carries it. -/
theorem carries_ledger (c : Codec topic topic' greeting' Sound)
    (call : S → Act T' M' → Option M' × S) (s : S)
    (i : ℕ) {acts : List (Act T M)} (hacts : ∀ m, .publish m ∈ acts → Sound m) :
    c.Carries (ledger topic' greeting' i (trace call s (acts.map c.act)))
      (ledger topic (fun _ => []) i (trace (c.through call) s acts)) := by
  suffices hrun : ∀ (s : S) (l' : Option (Ledger T' M')) (l : Option (Ledger T M)), c.Carries l' l →
      c.Carries ((trace call s (acts.map c.act)).foldl (Fanout.enter topic' greeting' i) l')
        ((trace (c.through call) s acts).foldl (Fanout.enter topic (fun _ => []) i) l) from
    hrun s none none .closed
  induction acts with
  | nil => exact fun _ _ _ h => h
  | cons a acts ih =>
    intro s l' l h
    refine ih (fun m hm => hacts m (List.mem_cons_of_mem _ hm)) _ _ _ (h.enter (fun m hm => ?_) _)
    exact hacts m (hm ▸ List.mem_cons_self)

/-- **A broker that answers as the specification delivers what it carries.** -/
theorem delivers_through
    (h : ∀ acts, trace call s acts = trace (step topic' greeting') (fun _ => none) acts) :
    Delivers topic (fun _ => []) Sound (c.through call) s := by
  intro acts hacts i l hl
  have hcarries := c.carries_ledger call s i hacts
  rw [hl] at hcarries
  generalize hledger : ledger topic' greeting' i (trace call s (acts.map c.act)) = l' at hcarries
  cases hcarries with
  | @opened t sent taken hgreeting =>
    rw [h] at hledger
    obtain ⟨hbegin, -⟩ := drained hledger (Nat.le_refl _)
    refine ⟨hbegin.filterMap _, fun k hk => ?_⟩
    obtain ⟨-, hall⟩ := drained (k := k) hledger (Nat.le_trans hgreeting hk)
    have hmap : (acts ++ List.replicate k (Act.take i)).map c.act =
        acts.map c.act ++ List.replicate k (.take i) := by
      rw [List.map_append, List.map_replicate]
      rfl
    have hsound : ∀ m, .publish m ∈ acts ++ List.replicate k (.take i) → Sound m := by
      intro m hm
      rcases List.mem_append.mp hm with hm | hm
      · exact hacts m hm
      · cases List.eq_of_mem_replicate hm
    have hlast := c.carries_ledger call s i hsound
    rw [hmap, h, hall] at hlast
    generalize ledger topic (fun _ => []) i _ = last at hlast
    generalize hcarrier : c.carrier t = t' at hlast
    cases hlast with
    | opened => rw [c.carrier_injective hcarrier]

end Codec

end Fanout
