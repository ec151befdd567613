import Mathlib.Data.List.Nodup
import Mathlib.Tactic.Common

/-!
# Machinery/Streams — a log read by a group of consumers

An append-only log whose entries are handed out to the members of one group: an entry is handed to
one of them as the next new one, is pending until somebody acknowledges it, and while it is pending
another member may take it over once it has been idle for long enough.  Identifiers, messages and
consumers are arbitrary types.

`Step` is what one event may do to a log, and a **history** is the list of the events that led from
the empty log to it (`Reached`).

* `Reached.sound` — what a history says of the log: new entries are handed out each once and in the
  order they were added, what is handed out is pending or acknowledged, a takeover waits for its
  idle time, and an acknowledged entry is never handed out again.
-/

namespace Streams

variable {I M C : Type*}

/-- An entry handed out and not acknowledged, with the time it was last handed out. -/
structure Pending (I C : Type*) where
  id : I
  consumer : C
  since : ℕ
  deriving DecidableEq

/-- The log and its group; the first `read` entries have been handed out. -/
structure Log (I M C : Type*) where
  entries : List (I × M)
  read : ℕ
  pending : List (Pending I C)

namespace Log

/-- Nothing was added. -/
def empty : Log I M C := ⟨[], 0, []⟩

/-- The entries handed out. -/
def handed (l : Log I M C) : List (I × M) := l.entries.take l.read

/-- The identifiers that are pending. -/
def pendingIds (l : Log I M C) : List I := l.pending.map (·.id)

end Log

section Reading

variable {l : Log I M C}

/-- The next new entry is handed out after the others. -/
theorem handed_next {x : I × M} (hnext : l.entries[l.read]? = some x)
    (pending : List (Pending I C)) :
    ({ l with read := l.read + 1, pending := pending } : Log I M C).handed = l.handed ++ [x] := by
  simp only [Log.handed]
  rw [List.take_add_one, hnext]
  rfl

/-- The next new entry was not handed out yet. -/
theorem next_not_handed {x : I × M} (hids : (l.entries.map (·.1)).Nodup)
    (hnext : l.entries[l.read]? = some x) : x.1 ∉ l.handed.map (·.1) := by
  intro hmem
  obtain ⟨y, hy, hyx⟩ := List.mem_map.mp hmem
  obtain ⟨i, hi, rfl⟩ := List.mem_take_iff_getElem.mp hy
  obtain ⟨hread, rfl⟩ := List.getElem?_eq_some_iff.mp hnext
  have hlt : i < l.read := by omega
  have hinj := List.nodup_iff_injective_getElem.mp hids
  have heq := @hinj ⟨i, by simp; omega⟩ ⟨l.read, by simpa using hread⟩ (by simpa using hyx)
  simp only [Fin.mk.injEq] at heq
  omega

end Reading

/-- What happens to a log. -/
inductive Event (I M C : Type*) where
  | added (id : I) (m : M)
  /-- The next new entry. -/
  | handed (c : C) (id : I) (m : M) (now : ℕ)
  /-- Entries taken over, idle for `minIdle` at least. -/
  | claimed (c : C) (taken : List (I × M)) (now minIdle : ℕ)
  | acked (id : I)

namespace Event

def added? : Event I M C → Option (I × M)
  | added id m => some (id, m)
  | _ => none

def handed? : Event I M C → Option (I × M)
  | handed _ id m _ => some (id, m)
  | _ => none

variable [DecidableEq I]

/-- When the event hands the entry out, if it does. -/
def delivery? (id : I) : Event I M C → Option ℕ
  | handed _ other _ now => if other = id then some now else none
  | claimed _ taken now _ => if id ∈ taken.map (·.1) then some now else none
  | _ => none

end Event

/-- One entry more at the end of a list that is split: it is the one after the split, or follows
it. -/
theorem concat_eq_append_cons {α : Type*} {xs before after : List α} {x y : α}
    (h : xs ++ [x] = before ++ y :: after) :
    (xs = before ∧ x = y ∧ after = []) ∨ ∃ rest, after = rest ++ [x] ∧
    xs = before ++ y :: rest := by
  rcases List.eq_nil_or_concat after with rfl | ⟨rest, z, rfl⟩
  · obtain ⟨rfl, hx⟩ := List.append_inj' h rfl
    exact .inl ⟨rfl, (List.cons.inj hx).1, rfl⟩
  · rw [List.concat_eq_append, ← List.cons_append, ← List.append_assoc] at h
    obtain ⟨rfl, hx⟩ := List.append_inj' h rfl
    obtain rfl := (List.cons.inj hx).1
    exact .inr ⟨rest, List.concat_eq_append, rfl⟩

section Steps

variable [DecidableEq I]

/-- The pending entries after some were taken over. -/
def Log.reown (l : Log I M C) (ids : List I) (c : C) (now : ℕ) : Log I M C :=
  { l with pending := l.pending.map fun p => if p.id ∈ ids then ⟨p.id, c, now⟩ else p }

/-- Nothing was taken over. -/
theorem Log.reown_nil (l : Log I M C) (c : C) (now : ℕ) : l.reown [] c now = l := by
  simp [Log.reown]

/-- **What an event may do.** -/
inductive Step (l : Log I M C) : Event I M C → Log I M C → Prop
  | added {id : I} {m : M} (hfresh : id ∉ l.entries.map (·.1)) :
      Step l (.added id m) { l with entries := l.entries ++ [(id, m)] }
  | handed {c : C} {id : I} {m : M} {now : ℕ} (hnext : l.entries[l.read]? = some (id, m)) :
      Step l (.handed c id m now)
        { l with read := l.read + 1, pending := l.pending ++ [⟨id, c, now⟩] }
  | claimed {c : C} {taken : List (I × M)} {now minIdle : ℕ}
      (htaken : ∀ e ∈ taken, e ∈ l.entries ∧ ∃ p ∈ l.pending, p.id = e.1 ∧
        p.since + minIdle ≤ now) :
      Step l (.claimed c taken now minIdle) (l.reown (taken.map (·.1)) c now)
  | acked {id : I} : Step l (.acked id) { l with pending := l.pending.filter (·.id ≠ id) }

/-- **The histories of a log.** -/
inductive Reached : List (Event I M C) → Log I M C → Prop
  | empty : Reached [] .empty
  | concat {history : List (Event I M C)} {l l' : Log I M C} {e : Event I M C}
      (h : Reached history l) (hstep : Step l e l') : Reached (history ++ [e]) l'

/-- When the entry was last handed out. -/
def lastDelivery (history : List (Event I M C)) (id : I) : Option ℕ :=
  (history.filterMap (·.delivery? id)).getLast?

theorem lastDelivery_concat (history : List (Event I M C)) (e : Event I M C) (id : I) :
    lastDelivery (history ++ [e]) id = (e.delivery? id).or (lastDelivery history id) := by
  rw [lastDelivery, List.filterMap_append]
  cases h : e.delivery? id with
  | none => simp [h, lastDelivery]
  | some t => simp [h]

/-! ## What a history says of the log -/

/-- The entry was handed out and acknowledged. -/
def Log.Settled (l : Log I M C) (id : I) : Prop := id ∈ l.handed.map (·.1) ∧ id ∉ l.pendingIds

/-- **What a history says of the log.** -/
structure Sound (history : List (Event I M C)) (l : Log I M C) : Prop where
  added : history.filterMap Event.added? = l.entries
  /-- New entries are handed out each once and in order. -/
  handed : history.filterMap Event.handed? = l.handed
  read_le : l.read ≤ l.entries.length
  ids_nodup : (l.entries.map (·.1)).Nodup
  pending_nodup : l.pendingIds.Nodup
  pending_handed : ∀ id ∈ l.pendingIds, id ∈ l.handed.map (·.1)
  since : ∀ p ∈ l.pending, lastDelivery history p.id = some p.since
  settled : ∀ id, l.Settled id → .acked id ∈ history
  /-- A takeover waits. -/
  spaced : ∀ before c taken now minIdle after, history = before
    ++ .claimed c taken now minIdle :: after → ∀ e ∈ taken, e ∈ before.filterMap Event.handed? ∧
      ∃ t, lastDelivery before e.1 = some t ∧ t + minIdle ≤ now
  /-- An acknowledgement is final. -/
  final : ∀ before id after, history = before ++ .acked id :: after →
    id ∈ (before.filterMap Event.handed?).map (·.1) →
      l.Settled id ∧ ∀ e ∈ after, e.delivery? id = none

variable {l l' : Log I M C} {e : Event I M C} {history : List (Event I M C)}

@[simp] theorem pendingIds_reown (ids : List I) (c : C) (now : ℕ) :
    (l.reown ids c now).pendingIds = l.pendingIds := by
  rw [Log.pendingIds, Log.reown, Log.pendingIds, List.map_map]
  refine List.map_congr_left fun p _ => ?_
  simp only [Function.comp_apply]
  split <;> rfl

/-- What was handed out was handed out. -/
theorem Step.handed_subset (hstep : Step l e l') (hread : l.read ≤ l.entries.length) :
    l.handed ⊆ l'.handed := by
  cases hstep with
  | added hfresh => rw [Log.handed, Log.handed,
    List.take_append_of_le_length hread]; exact List.Subset.refl _
  | handed hnext => rw [handed_next hnext]; exact List.subset_append_left ..
  | claimed htaken => exact List.Subset.refl _
  | acked => exact List.Subset.refl _

/-- A settled entry is not handed out, and stays settled. -/
theorem Step.settled {id : I} (hstep : Step l e l') (hids : (l.entries.map (·.1)).Nodup)
    (hread : l.read ≤ l.entries.length)
    (h : l.Settled id) : l'.Settled id ∧ e.delivery? id = none := by
  obtain ⟨hhanded, hpending⟩ := h
  cases hstep with
  | added hfresh =>
    refine ⟨⟨?_, hpending⟩, rfl⟩
    rwa [Log.handed, List.take_append_of_le_length hread]
  | @handed c other m now hnext =>
    have hne : other ≠ id := by
      rintro rfl
      exact next_not_handed hids hnext hhanded
    refine ⟨⟨?_, ?_⟩, if_neg hne⟩
    · rw [handed_next hnext]
      simp only [List.map_append, List.mem_append]
      exact Or.inl hhanded
    · simp only [Log.pendingIds, List.map_append, List.mem_append, List.map_cons, List.map_nil,
        List.mem_singleton, not_or]
      exact ⟨hpending, hne.symm⟩
  | @claimed c taken now minIdle htaken =>
    refine ⟨⟨hhanded, by rwa [pendingIds_reown]⟩, if_neg fun hmem => ?_⟩
    obtain ⟨x, hx, rfl⟩ := List.mem_map.mp hmem
    obtain ⟨-, p, hp, hpx, -⟩ := htaken x hx
    exact hpending (List.mem_map.mpr ⟨p, hp, hpx⟩)
  | acked =>
    refine ⟨⟨hhanded, fun hmem => hpending ?_⟩, rfl⟩
    obtain ⟨p, hp, rfl⟩ := List.mem_map.mp hmem
    exact List.mem_map_of_mem (List.mem_of_mem_filter hp)

/-- An event keeps what a history says of the log. -/
theorem Sound.concat (h : Sound history l) (hstep : Step l e l') : Sound (history ++ [e]) l' where
  added := by
    rw [List.filterMap_append, h.added]
    cases hstep <;> simp [Event.added?, Log.reown]
  handed := by
    rw [List.filterMap_append, h.handed]
    cases hstep with
    | added hfresh => simp [Event.handed?, Log.handed, List.take_append_of_le_length h.read_le]
    | handed hnext => rw [handed_next hnext]; rfl
    | claimed htaken => simp [Event.handed?, Log.handed, Log.reown]
    | acked => simp [Event.handed?, Log.handed]
  read_le := by
    have hle := h.read_le
    cases hstep with
    | added hfresh => simp only [List.length_append]; omega
    | handed hnext => exact (List.getElem?_eq_some_iff.mp hnext).1
    | claimed htaken => exact hle
    | acked => exact hle
  ids_nodup := by
    cases hstep with
    | @added id m hfresh =>
      rw [List.map_append]
      exact h.ids_nodup.append (by simp) (by simpa using hfresh)
    | _ => exact h.ids_nodup
  pending_nodup := by
    cases hstep with
    | added hfresh => exact h.pending_nodup
    | @handed c id m now hnext =>
      rw [Log.pendingIds, List.map_append]
      refine h.pending_nodup.append (by simp) ?_
      simpa using fun hmem => next_not_handed h.ids_nodup hnext (h.pending_handed id hmem)
    | claimed htaken => rw [pendingIds_reown]; exact h.pending_nodup
    | acked => exact h.pending_nodup.sublist (List.filter_sublist.map _)
  pending_handed := by
    intro id hid
    cases hstep with
    | added hfresh =>
      rw [Log.handed, List.take_append_of_le_length h.read_le]
      exact h.pending_handed id hid
    | @handed c other m now hnext =>
      rw [handed_next hnext, List.map_append, List.mem_append]
      rw [Log.pendingIds, List.map_append, List.mem_append] at hid
      exact hid.imp (h.pending_handed id) fun hlast => by simpa using hlast
    | claimed htaken => exact h.pending_handed id (by rwa [pendingIds_reown] at hid)
    | acked =>
      obtain ⟨p, hp, rfl⟩ := List.mem_map.mp hid
      exact h.pending_handed p.id (List.mem_map_of_mem (List.mem_of_mem_filter hp))
  since := by
    intro p hp
    rw [lastDelivery_concat]
    cases hstep with
    | added hfresh => exact h.since p hp
    | @handed c id m now hnext =>
      rcases List.mem_append.mp hp with hp | hp
      · have hne : id ≠ p.id := fun heq => next_not_handed h.ids_nodup hnext
          (heq ▸ h.pending_handed p.id (List.mem_map_of_mem hp))
        rw [Event.delivery?, if_neg hne]
        exact h.since p hp
      · obtain rfl := List.mem_singleton.mp hp
        rw [Event.delivery?, if_pos rfl]
        rfl
    | @claimed c taken now minIdle htaken =>
      obtain ⟨q, hq, rfl⟩ := List.mem_map.mp hp
      by_cases hid : q.id ∈ taken.map (·.1)
      · rw [if_pos hid, Event.delivery?, if_pos hid]
        rfl
      · rw [if_neg hid, Event.delivery?, if_neg hid]
        exact h.since q hq
    | acked => exact h.since p (List.mem_of_mem_filter hp)
  settled := by
    rintro id ⟨hhanded, hpending⟩
    rw [List.mem_append]
    by_cases hsettled : l.Settled id
    · exact .inl (h.settled id hsettled)
    · -- the event settles it: it was pending, and is acknowledged
      refine .inr ?_
      cases hstep with
      | added hfresh =>
        rw [Log.handed, List.take_append_of_le_length h.read_le] at hhanded
        exact absurd ⟨hhanded, hpending⟩ hsettled
      | @handed c other m now hnext =>
        rw [handed_next hnext, List.map_append, List.mem_append] at hhanded
        rw [Log.pendingIds, List.map_append, List.mem_append, not_or] at hpending
        refine absurd ⟨hhanded.resolve_right fun hlast => hpending.2 ?_, hpending.1⟩ hsettled
        simpa using hlast
      | claimed htaken =>
        rw [pendingIds_reown] at hpending
        exact absurd ⟨hhanded, hpending⟩ hsettled
      | @acked other =>
        by_cases heq : other = id
        · simp [heq]
        · refine absurd ⟨hhanded, fun hmem => hpending ?_⟩ hsettled
          obtain ⟨p, hp, rfl⟩ := List.mem_map.mp hmem
          exact List.mem_map.mpr ⟨p, List.mem_filter.mpr ⟨hp, by simpa using fun h => heq h.symm⟩,
            rfl⟩
  spaced := by
    intro before c taken now minIdle after hhistory x hx
    rcases concat_eq_append_cons hhistory with ⟨rfl, rfl, -⟩ | ⟨rest, rfl, hbefore⟩
    · cases hstep with
      | claimed htaken =>
        obtain ⟨hentry, p, hp, hpx, hidle⟩ := htaken x hx
        have hid := h.pending_handed p.id (List.mem_map_of_mem hp)
        rw [hpx] at hid
        obtain ⟨y, hy, hyx⟩ := List.mem_map.mp hid
        have hxy : y = x := List.inj_on_of_nodup_map h.ids_nodup
          (List.mem_of_mem_take hy) hentry hyx
        refine ⟨h.handed ▸ hxy ▸ hy, p.since, ?_, hidle⟩
        rw [← hpx]
        exact h.since p hp
    · exact h.spaced before c taken now minIdle rest hbefore x hx
  final := by
    intro before id after hhistory hid
    rcases concat_eq_append_cons hhistory with ⟨rfl, rfl, rfl⟩ | ⟨rest, rfl, hbefore⟩
    · rw [h.handed] at hid
      cases hstep
      exact ⟨⟨hid, by simp [Log.pendingIds]⟩, by simp⟩
    · obtain ⟨hsettled, hrest⟩ := h.final before id rest hbefore hid
      obtain ⟨hsettled', he⟩ := hstep.settled h.ids_nodup h.read_le hsettled
      refine ⟨hsettled', fun e' he' => ?_⟩
      rcases List.mem_append.mp he' with he' | he'
      · exact hrest e' he'
      · obtain rfl := List.mem_singleton.mp he'
        exact he

/-- **What every history says of its log.** -/
theorem Reached.sound (h : Reached history l) : Sound history l := by
  induction h with
  | empty =>
    constructor <;> simp [Log.empty, Log.handed, Log.pendingIds, Log.Settled]
  | concat _ hstep ih => exact ih.concat hstep

end Steps

end Streams
