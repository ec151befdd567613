import AgentPlatform.Machinery.Grouping
import Mathlib.Algebra.GroupWithZero.Nat
import Mathlib.Data.List.Sort
import Mathlib.Data.Prod.Lex
import Mathlib.Tactic.Common

/-!
# Machinery/SequenceMatcher — the matching blocks of `difflib.SequenceMatcher`

The matcher looks for the longest block of lines the two sequences share, and then for blocks on
either side of it, from a queue of rectangles.  Everything found so far and everything still queued
lies apart — one before the other in both sequences — so the sorted blocks are an alignment
(`aligned_matchingBlocks`).

Which block of a rectangle is found has no part in this: it is enough that its lines agree and that
it lies inside.  No `isjunk` is passed, so no line is junk; `autojunk` is on, so a line that is
popular in a long sequence starts no match.
-/

namespace SequenceMatcher

/-- `Match(a, b, size)`. -/
structure Match where
  a : ℕ
  b : ℕ
  size : ℕ
  deriving DecidableEq, Repr

/-- A part of the two sequences: the lines `alo` to `ahi` of `a`, and `blo` to `bhi` of `b`. -/
structure Rect where
  alo : ℕ
  ahi : ℕ
  blo : ℕ
  bhi : ℕ
  a_le : alo ≤ ahi
  b_le : blo ≤ bhi

/-- The part a block covers. -/
def Match.rect (m : Match) : Rect where
  alo := m.a
  ahi := m.a + m.size
  blo := m.b
  bhi := m.b + m.size
  a_le := Nat.le_add_right _ _
  b_le := Nat.le_add_right _ _

/-- `j2len`: for a line of `b`, how long the match is that ends there. -/
abbrev Lengths := List (ℕ × ℕ)

/-- `j2len.get(j - 1, 0)`. -/
def j2lenget (j2len : Lengths) : ℕ → ℕ
  | 0 => 0
  | j + 1 => (j2len.lookup j).getD 0

variable {α : Type*}

/-- `l[i:j]`. -/
def slice (l : List α) (i j : ℕ) : List α := (l.take j).drop i

section Search

variable [DecidableEq α]

/-- `__chain_b`: where each line stands in `b`.  Popular lines of a long sequence are purged. -/
def chainB (b : List α) : List (α × List ℕ) :=
  let b2j := Grouping.gather (·.1) (fun e => [e.2]) (fun js e => js ++ [e.2]) [] b.zipIdx
  if 200 ≤ b.length then b2j.filter fun e => e.2.length ≤ b.length / 100 + 1 else b2j

variable (a b : List α) (b2j : List (α × List ℕ)) (r : Rect)

/-- The inner loop of `find_longest_match`, over the instances of `a[i]` in `b`. -/
def instances (i : ℕ) (j2len : Lengths) : List ℕ → Match × Lengths → Match × Lengths
  | [], found => found
  | j :: js, (best, newj2len) =>
    if j < r.blo then instances i j2len js (best, newj2len)
    else if r.bhi ≤ j then (best, newj2len)
    else
      let k := j2lenget j2len j + 1
      instances i j2len js
        (if best.size < k then ⟨i + 1 - k, j + 1 - k, k⟩ else best, (j, k) :: newj2len)

/-- One turn of the outer loop. -/
def row (found : Match × Lengths) (i : ℕ) : Match × Lengths :=
  instances r i found.2 ((a[i]?.bind (Grouping.value b2j)).getD []) (found.1, [])

/-- The best match is extended by the lines around it, popular ones too: back to the start of the
part … -/
def extendBack : ℕ → ℕ → ℕ → Match
  | i + 1, j + 1, k =>
    if r.alo ≤ i ∧ r.blo ≤ j ∧ a[i]? = b[j]? then extendBack i j (k + 1) else ⟨i + 1, j + 1, k⟩
  | i, j, k => ⟨i, j, k⟩

/-- … and on to its end, `n` lines away. -/
def extend : ℕ → Match → Match
  | 0, m => m
  | n + 1, m =>
    if m.a + m.size < r.ahi ∧ m.b + m.size < r.bhi ∧ a[m.a + m.size]? = b[m.b + m.size]? then
      extend n { m with size := m.size + 1 }
    else m

/-- `find_longest_match(alo, ahi, blo, bhi)`. -/
def findLongestMatch : Match :=
  let best := ((List.range' r.alo (r.ahi - r.alo)).foldl (row a b2j r) (⟨r.alo, r.blo, 0⟩, [])).1
  let back := extendBack a b r best.a best.b best.size
  extend a b r (r.ahi - (back.a + back.size)) back

/-- What is left to the left of a block … -/
def leftOf (m : Match) : List Rect :=
  if h : r.alo < m.a ∧ r.blo < m.b then [⟨r.alo, m.a, r.blo, m.b, h.1.le, h.2.le⟩] else []

/-- … and to its right. -/
def rightOf (m : Match) : List Rect :=
  if h : m.a + m.size < r.ahi ∧ m.b + m.size < r.bhi then
    [⟨m.a + m.size, r.ahi, m.b + m.size, r.bhi, h.1.le, h.2.le⟩]
  else []

/-- The loop of `get_matching_blocks`; the last part queued is the first one taken.  `none` if
`fuel` turns are not enough. -/
def blocksFrom : ℕ → List Rect → List Match → Option (List Match)
  | _, [], blocks => some blocks
  | 0, _ :: _, _ => none
  | fuel + 1, r :: queue, blocks =>
    let m := findLongestMatch a b b2j r
    if m.size ≠ 0 then blocksFrom fuel (rightOf r m ++ leftOf r m ++ queue) (blocks ++ [m])
    else blocksFrom fuel queue blocks

/-- The two sequences. -/
def whole : Rect := ⟨0, a.length, 0, b.length, Nat.zero_le _, Nat.zero_le _⟩

/-- The order of tuples. -/
def Match.key (m : Match) : ℕ ×ₗ ℕ ×ₗ ℕ := toLex (m.a, toLex (m.b, m.size))

/-- Adjacent blocks are collapsed; an empty one is dropped. -/
def collapse : Match → List Match → List Match
  | m, [] => if m.size ≠ 0 then [m] else []
  | m, m' :: ms =>
    if m.a + m.size = m'.a ∧ m.b + m.size = m'.b then collapse ⟨m.a, m.b, m.size + m'.size⟩ ms
    else (if m.size ≠ 0 then [m] else []) ++ collapse m' ms

/-- The blocks `get_matching_blocks` collapses. -/
def foundBlocks : List Match :=
  ((blocksFrom a b (chainB b) (2 * a.length + 1) [whole a b] []).getD []).insertionSort
    (·.key ≤ ·.key)

/-- `get_matching_blocks()`. -/
def matchingBlocks : List Match :=
  collapse ⟨0, 0, 0⟩ (foundBlocks a b) ++ [⟨a.length, b.length, 0⟩]

end Search

/-! ## Slices -/

theorem slice_self (l : List α) (i : ℕ) : slice l i i = [] := by
  rw [slice, List.drop_eq_nil_iff]
  exact List.length_take_le i l

/-- A slice, and what follows it. -/
theorem slice_append_drop (l : List α) {i j : ℕ}
    (h : i ≤ j) : slice l i j ++ l.drop j = l.drop i := by
  have hj : j = i + (j - i) := (Nat.add_sub_cancel' h).symm
  rw [slice, List.drop_take, hj, Nat.add_sub_cancel_left, ← List.drop_drop]
  exact List.take_append_drop (j - i) (l.drop i)

theorem getElem?_slice (l : List α) (i n d : ℕ) :
    (slice l i (i + n))[d]? = if d < n then l[i + d]? else none := by
  rw [slice, List.getElem?_drop, List.getElem?_take]
  simp only [Nat.add_lt_add_iff_left]

/-! ## What a block is -/

variable {a b : List α} {r : Rect} {m : Match}

/-- The lines of a block agree. -/
def Match.Same (a b : List α) (m : Match) : Prop := ∀ d < m.size, a[m.a + d]? = b[m.b + d]?

/-- **A block of a part of the two sequences.** -/
structure Matched (a b : List α) (r : Rect) (m : Match) : Prop where
  alo : r.alo ≤ m.a
  ahi : m.a + m.size ≤ r.ahi
  blo : r.blo ≤ m.b
  bhi : m.b + m.size ≤ r.bhi
  same : m.Same a b

theorem Match.Same.slice_eq (h : m.Same a b) :
    slice a m.a (m.a + m.size) = slice b m.b (m.b + m.size) := by
  refine List.ext_getElem? fun d => ?_
  rw [getElem?_slice, getElem?_slice]
  split
  · next hd => exact h d hd
  · rfl

/-- The empty block at the start of a part. -/
theorem matched_start (a b : List α) (r : Rect) : Matched a b r ⟨r.alo, r.blo, 0⟩ where
  alo := le_rfl
  ahi := r.a_le
  blo := le_rfl
  bhi := r.b_le
  same _ hd := absurd hd (Nat.not_lt_zero _)

/-- A block grows by the line after it. -/
theorem Matched.extend_one (h : Matched a b r m) (ha : m.a + m.size < r.ahi)
    (hb : m.b + m.size < r.bhi)
    (hline : a[m.a + m.size]? = b[m.b + m.size]?) :
    Matched a b r { m with size := m.size + 1 } where
  alo := h.alo
  ahi := ha
  blo := h.blo
  bhi := hb
  same d hd := by
    rcases Nat.lt_succ_iff_lt_or_eq.mp hd with hlt | rfl
    · exact h.same d hlt
    · exact hline

/-- A block grows by the line before it. -/
theorem Matched.extend_back {i j k : ℕ} (h : Matched a b r ⟨i + 1, j + 1, k⟩) (ha : r.alo ≤ i)
    (hb : r.blo ≤ j) (hline : a[i]? = b[j]?) : Matched a b r ⟨i, j, k + 1⟩ where
  alo := ha
  ahi := by
    have := h.ahi
    dsimp only at this ⊢
    omega
  blo := hb
  bhi := by
    have := h.bhi
    dsimp only at this ⊢
    omega
  same d hd := by
    cases d with
    | zero => exact hline
    | succ d =>
      have := h.same d (Nat.lt_of_succ_lt_succ hd)
      dsimp only at this ⊢
      rwa [Nat.add_right_comm i 1 d, Nat.add_right_comm j 1 d] at this

/-- Two adjacent blocks are one. -/
theorem Match.Same.append {m' : Match} (h : m.Same a b) (h' : m'.Same a b)
    (ha : m.a + m.size = m'.a)
    (hb : m.b + m.size = m'.b) : Match.Same a b ⟨m.a, m.b, m.size + m'.size⟩ := fun d hd => by
  rcases Nat.lt_or_ge d m.size with hlt | hge
  · exact h d hlt
  · obtain ⟨e, rfl⟩ := Nat.exists_eq_add_of_le hge
    have := h' e (Nat.lt_of_add_lt_add_left hd)
    rwa [← ha, ← hb, Nat.add_assoc, Nat.add_assoc] at this

/-! ## The longest match is a block -/

section Longest

variable {b2j : List (α × List ℕ)} {i : ℕ}

/-- The lengths of the matches that end before line `i` of `a` are right. -/
def Ending (a b : List α) (r : Rect) (i : ℕ) (j2len : Lengths) : Prop :=
  ∀ e ∈ j2len, ∃ s t, s + e.2 = i ∧ t + e.2 = e.1 + 1 ∧ Matched a b r ⟨s, t, e.2⟩

/-- What the dictionary answers for the line before `j`: a block that ends there, if only an empty
one. -/
theorem Ending.j2lenget {j2len : Lengths} (h : Ending a b r i j2len) {j : ℕ} (hi : r.alo ≤ i)
    (hi' : i ≤ r.ahi) (hj : r.blo ≤ j) (hj' : j ≤ r.bhi) :
    ∃ s t, s + j2lenget j2len j = i ∧ t + j2lenget j2len j = j ∧
      Matched a b r ⟨s, t, j2lenget j2len j⟩ := by
  have hempty : ∃ s t, s + 0 = i ∧ t + 0 = j ∧ Matched a b r ⟨s, t, 0⟩ :=
    ⟨i, j, rfl, rfl, ⟨hi, hi', hj, hj', fun _ hd => absurd hd (Nat.not_lt_zero _)⟩⟩
  cases j with
  | zero => exact hempty
  | succ j =>
    rw [SequenceMatcher.j2lenget]
    cases hk : j2len.lookup j with
    | none => exact hempty
    | some k => exact h (j, k) (List.lookup_eq_some_iff.mp hk |>.elim fun l ⟨l', hl, _⟩ => by
        rw [hl]
        exact List.mem_append_right _ List.mem_cons_self)

/-- **The inner loop keeps the best match a block.** -/
theorem instances_matched {j2len : Lengths} (h : Ending a b r i j2len) (hi : r.alo ≤ i)
    (hi' : i < r.ahi)
    {js : List ℕ} (hjs : ∀ j ∈ js, a[i]? = b[j]?) {found : Match × Lengths}
    (hbest : Matched a b r found.1) (hnew : Ending a b r (i + 1) found.2) :
    Matched a b r (instances r i j2len js found).1 ∧
      Ending a b r (i + 1) (instances r i j2len js found).2 := by
  induction js generalizing found with
  | nil => exact ⟨hbest, hnew⟩
  | cons j js ih =>
    obtain ⟨best, newj2len⟩ := found
    have hrest := fun j hj => hjs j (List.mem_cons_of_mem _ hj)
    rw [instances]
    split_ifs with hlo hhi
    · exact ih hrest hbest hnew
    · exact ⟨hbest, hnew⟩
    · obtain ⟨s, t, hs, ht, hmatched⟩ :=
        h.j2lenget hi hi'.le (Nat.not_lt.mp hlo) (Nat.not_le.mp hhi).le
      generalize j2lenget j2len j = k at hs ht hmatched
      have hone : Matched a b r ⟨s, t, k + 1⟩ := by
        refine hmatched.extend_one (hs.trans_lt hi') (ht.trans_lt (Nat.not_le.mp hhi)) ?_
        dsimp only
        rw [hs, ht]
        exact hjs j List.mem_cons_self
      refine ih hrest ?_ fun e he => ?_
      · dsimp only
        split_ifs
        · rwa [show i + 1 - (k + 1) = s by omega, show j + 1 - (k + 1) = t by omega]
        · exact hbest
      · rcases List.mem_cons.mp he with rfl | he
        · exact ⟨s, t, by omega, by omega, hone⟩
        · exact hnew e he

/-- The instances of a line, gathered one after the other. -/
theorem mem_foldl_feed {es : List (α × ℕ)} {v : Option (List ℕ)} {js : List ℕ} {j : ℕ}
    (h : es.foldl (Grouping.feed (fun e => [e.2]) fun js e => js ++ [e.2]) v = some js)
    (hj : j ∈ js) : (∃ js', v = some js' ∧ j ∈ js') ∨ ∃ e ∈ es, e.2 = j := by
  induction es generalizing v with
  | nil => exact .inl ⟨js, h, hj⟩
  | cons e es ih =>
    rcases ih h with ⟨js', hjs', hmem⟩ | ⟨e', he', rfl⟩
    · cases v with
      | none =>
        obtain rfl : [e.2] = js' := Option.some.inj hjs'
        exact .inr ⟨e, List.mem_cons_self, (List.mem_singleton.mp hmem).symm⟩
      | some js₀ =>
        obtain rfl : js₀ ++ [e.2] = js' := Option.some.inj hjs'
        rcases List.mem_append.mp hmem with hmem | hmem
        · exact .inl ⟨js₀, rfl, hmem⟩
        · exact .inr ⟨e, List.mem_cons_self, (List.mem_singleton.mp hmem).symm⟩
    · exact .inr ⟨e', List.mem_cons_of_mem _ he', rfl⟩

variable [DecidableEq α]

/-- `b2j` holds right places: what it lists for a line are instances of that line. -/
theorem getElem?_of_value_chainB {x : α} {js : List ℕ} (h : Grouping.value (chainB b) x = some js)
    {j : ℕ} (hj : j ∈ js) : b[j]? = some x := by
  have hgather : Grouping.value
      (Grouping.gather (·.1) (fun e => [e.2]) (fun js e => js ++ [e.2]) [] b.zipIdx) x
        = some js := by
    have hnodup :
      ((Grouping.gather (fun e : α × ℕ => e.1) (fun e => [e.2]) (fun js e => js ++ [e.2]) []
        b.zipIdx).map (·.1)).Nodup := Grouping.nodup_gather List.nodup_nil
    rw [chainB] at h
    split at h
    · rw [Grouping.value_eq_some_iff (hnodup.sublist (List.filter_sublist.map _))] at h
      exact (Grouping.value_eq_some_iff hnodup).mpr (List.mem_of_mem_filter h)
    · exact h
  rw [Grouping.value_gather] at hgather
  obtain ⟨js', hnone, _⟩ | ⟨e, he, rfl⟩ := mem_foldl_feed hgather hj
  · cases hnone
  · obtain ⟨hmem, hkey⟩ := List.mem_filter.mp he
    rw [List.mem_zipIdx_iff_getElem?.mp hmem, of_decide_eq_true hkey]

/-- **The outer loop keeps it one.** -/
theorem rows_matched {n : ℕ} (hi : r.alo ≤ i) (hn : i + n ≤ r.ahi) {found : Match × Lengths}
    (hbest : Matched a b r found.1) (hending : Ending a b r i found.2) :
    Matched a b r ((List.range' i n).foldl (row a (chainB b) r) found).1 := by
  induction n generalizing i found with
  | zero => exact hbest
  | succ n ih =>
    have hjs : ∀ j ∈ (a[i]?.bind (Grouping.value (chainB b))).getD [], a[i]?
        = b[j]? := fun j hj => by
      cases hjs : a[i]?.bind (Grouping.value (chainB b)) with
      | none =>
        rw [hjs] at hj
        cases hj
      | some js =>
        rw [hjs] at hj
        obtain ⟨x, hx, hvalue⟩ := Option.bind_eq_some_iff.mp hjs
        rw [hx, getElem?_of_value_chainB hvalue hj]
    have hempty : Ending a b r (i + 1) [] := fun e he => by cases he
    obtain ⟨hbest', hending'⟩ : Matched a b r (row a (chainB b) r found i).1 ∧
        Ending a b r (i + 1) (row a (chainB b) r found i).2 :=
      instances_matched hending hi (by omega) hjs hbest hempty
    rw [List.range'_succ, List.foldl_cons]
    exact ih (by omega) (by omega) hbest' hending'

theorem extendBack_matched {i j k : ℕ} (h : Matched a b r ⟨i, j, k⟩) :
    Matched a b r (extendBack a b r i j k) := by
  fun_induction extendBack a b r i j k with
  | case1 i j k hline ih => exact ih (h.extend_back hline.1 hline.2.1 hline.2.2)
  | case2 i j k _ => exact h
  | case3 i j k _ => exact h

theorem extend_matched {n : ℕ} (h : Matched a b r m) : Matched a b r (extend a b r n m) := by
  fun_induction extend a b r n m with
  | case1 m => exact h
  | case2 n m hline ih => exact ih (h.extend_one hline.1 hline.2.1 hline.2.2)
  | case3 n m _ => exact h

/-- **What `find_longest_match` returns is a block of the part it is asked about.** -/
theorem findLongestMatch_matched (a b : List α) (r : Rect) :
    Matched a b r (findLongestMatch a b (chainB b) r) := by
  have hempty : Ending a b r r.alo [] := fun e he => by cases he
  have hrows : Matched a b r ((List.range' r.alo (r.ahi - r.alo)).foldl (row a (chainB b) r)
      (⟨r.alo, r.blo, 0⟩, [])).1 :=
    rows_matched le_rfl (Nat.add_sub_cancel' r.a_le).le (matched_start a b r) hempty
  exact extend_matched (extendBack_matched hrows)

end Longest

/-! ## Parts that lie apart -/

namespace Rect

/-- One part ends before the other begins, in both sequences. -/
def Before (r s : Rect) : Prop := r.ahi ≤ s.alo ∧ r.bhi ≤ s.blo

/-- One of the two parts is before the other. -/
def Apart (r s : Rect) : Prop := r.Before s ∨ s.Before r

/-- A part of a part. -/
structure Inside (p r : Rect) : Prop where
  alo : r.alo ≤ p.alo
  ahi : p.ahi ≤ r.ahi
  blo : r.blo ≤ p.blo
  bhi : p.bhi ≤ r.bhi

variable {p r s : Rect}

theorem Apart.symm (h : r.Apart s) : s.Apart r := Or.symm h

/-- A part of a part lies apart from what the part lies apart from. -/
theorem Apart.of_inside (h : r.Apart s) (hp : p.Inside r) : p.Apart s :=
  h.imp (fun h => ⟨hp.ahi.trans h.1, hp.bhi.trans h.2⟩) fun h =>
    ⟨h.1.trans hp.alo, h.2.trans hp.blo⟩

theorem Inside.trans (h : p.Inside r) (h' : r.Inside s) : p.Inside s :=
  ⟨h'.alo.trans h.alo, h.ahi.trans h'.ahi, h'.blo.trans h.blo, h.bhi.trans h'.bhi⟩

end Rect

theorem Matched.inside (h : Matched a b r m) : m.rect.Inside r := ⟨h.alo, h.ahi, h.blo, h.bhi⟩

theorem Matched.mono (h : Matched a b r m) {s : Rect} (hs : r.Inside s) : Matched a b s m :=
  ⟨hs.alo.trans h.alo, h.ahi.trans hs.ahi, hs.blo.trans h.blo, h.bhi.trans hs.bhi, h.same⟩

/-- What a block leaves of its part lies inside it … -/
theorem inside_of_mem_rest (h : Matched a b r m) {p : Rect} (hp : p ∈ rightOf r m ++ leftOf r m) :
    p.Inside r := by
  have halo := h.alo
  have hahi := h.ahi
  have hblo := h.blo
  have hbhi := h.bhi
  rw [rightOf, leftOf] at hp
  split_ifs at hp <;> simp only [List.cons_append, List.nil_append, List.mem_cons, List.not_mem_nil,
    or_false] at hp
  · rcases hp with rfl | rfl <;> constructor <;> dsimp only <;> omega
  · subst hp
    constructor <;> dsimp only <;> omega
  · subst hp
    constructor <;> dsimp only <;> omega

/-- … apart from the block and from one another. -/
theorem pairwise_apart_rest (r : Rect) (m : Match) :
    (m.rect :: (rightOf r m ++ leftOf r m)).Pairwise Rect.Apart := by
  rw [rightOf, leftOf]
  split_ifs <;> simp only [List.cons_append, List.nil_append, List.pairwise_cons, List.mem_cons,
    List.not_mem_nil, or_false, forall_eq_or_imp, forall_eq, false_implies, implies_true, and_true,
    List.Pairwise.nil]
  · exact ⟨⟨.inl ⟨le_rfl, le_rfl⟩, .inr ⟨le_rfl, le_rfl⟩⟩,
      .inr ⟨Nat.le_add_right _ _, Nat.le_add_right _ _⟩⟩
  · exact .inl ⟨le_rfl, le_rfl⟩
  · exact .inr ⟨le_rfl, le_rfl⟩

/-! ## The queue -/

section Queue

variable {queue : List Rect} {blocks : List Match}

/-- **The invariant of the queue.**  What is found and what is queued lie apart from one another,
inside the two sequences; what is found are blocks that are not empty. -/
structure Sound (a b : List α) (queue : List Rect) (blocks : List Match) : Prop where
  apart : (queue ++ blocks.map Match.rect).Pairwise Rect.Apart
  inside : ∀ r ∈ queue, r.Inside (whole a b)
  matched : ∀ m ∈ blocks, 0 < m.size ∧ Matched a b (whole a b) m

theorem sound_start (a b : List α) : Sound a b [whole a b] [] where
  apart := List.pairwise_singleton _ _
  inside r hr := by
    obtain rfl := List.mem_singleton.mp hr
    exact ⟨le_rfl, le_rfl, le_rfl, le_rfl⟩
  matched m hm := by cases hm

/-- A part that holds no block is done with. -/
theorem Sound.drop (h : Sound a b (r :: queue) blocks) : Sound a b queue blocks where
  apart := (List.pairwise_cons.mp h.apart).2
  inside s hs := h.inside s (List.mem_cons_of_mem _ hs)
  matched := h.matched

/-- **A block takes the place of its part**, with what it leaves of it. -/
theorem Sound.found (h : Sound a b (r :: queue) blocks) (hm : Matched a b r m)
    (hsize : 0 < m.size) :
    Sound a b (rightOf r m ++ leftOf r m ++ queue) (blocks ++ [m]) where
  apart := by
    obtain ⟨hr, hrest⟩ := List.pairwise_cons.mp h.apart
    have hperm : (rightOf r m ++ leftOf r m ++ queue) ++ (blocks ++ [m]).map Match.rect
        |>.Perm (m.rect :: (rightOf r m ++ leftOf r m) ++ (queue ++ blocks.map Match.rect)) := by
      rw [List.map_append, List.map_singleton, ← List.append_assoc,
        List.append_assoc (_ ++ _) queue]
      exact List.perm_append_singleton _ _
    refine (hperm.pairwise_iff Rect.Apart.symm).mpr ?_
    refine List.pairwise_append.mpr ⟨pairwise_apart_rest r m, hrest, fun p hp s hs => ?_⟩
    refine (hr s hs).of_inside ?_
    rcases List.mem_cons.mp hp with rfl | hp
    · exact hm.inside
    · exact inside_of_mem_rest hm hp
  inside s hs := by
    have hr := h.inside r List.mem_cons_self
    rcases List.mem_append.mp hs with hs | hs
    · exact (inside_of_mem_rest hm hs).trans hr
    · exact h.inside s (List.mem_cons_of_mem _ hs)
  matched m' hm' := by
    rcases List.mem_append.mp hm' with hm' | hm'
    · exact h.matched m' hm'
    · obtain rfl := List.mem_singleton.mp hm'
      exact ⟨hsize, hm.mono (h.inside r List.mem_cons_self)⟩

/-- The turns a queue may take: each ends with a block found or a part done with. -/
def work (queue : List Rect) : ℕ := (queue.map fun r => 2 * (r.ahi - r.alo) + 1).sum

theorem work_rest (hm : Matched a b r m) (hsize : 0 < m.size) :
    work (rightOf r m ++ leftOf r m ++ queue) < work (r :: queue) := by
  have halo := hm.alo
  have hahi := hm.ahi
  have hrest : work (rightOf r m ++ leftOf r m) < 2 * (r.ahi - r.alo) + 1 := by
    rw [rightOf, leftOf]
    split_ifs <;> simp only [work, List.cons_append, List.nil_append, List.map_cons, List.map_nil,
      List.sum_cons, List.sum_nil] <;> omega
  rw [work, List.map_append, List.sum_append]
  exact Nat.add_lt_add_right hrest _

/-- **The loop ends, and what it has found then is sound.** -/
theorem blocksFrom_sound [DecidableEq α] {fuel : ℕ} (hfuel : work queue ≤ fuel)
    (h : Sound a b queue blocks) :
    ∃ found, blocksFrom a b (chainB b) fuel queue blocks = some found ∧ Sound a b [] found := by
  induction fuel generalizing queue blocks with
  | zero =>
    cases queue with
    | nil => exact ⟨blocks, by rw [blocksFrom], h⟩
    | cons r queue => simp [work] at hfuel
  | succ fuel ih =>
    cases queue with
    | nil => exact ⟨blocks, by rw [blocksFrom], h⟩
    | cons r queue =>
      have hm := findLongestMatch_matched a b r
      rw [blocksFrom]
      generalize findLongestMatch a b (chainB b) r = m at hm
      split_ifs with hsize
      · have hpos := Nat.pos_of_ne_zero hsize
        exact ih (Nat.le_of_lt_succ ((work_rest hm hpos).trans_le hfuel)) (h.found hm hpos)
      · refine ih ?_ h.drop
        rw [work, List.map_cons, List.sum_cons] at hfuel
        rw [work]
        omega

end Queue

/-! ## The alignment -/

/-- **An alignment of the two sequences from lines `i` and `j` on**: blocks one after the other. -/
def Aligned (a b : List α) : ℕ → ℕ → List Match → Prop
  | i, j, [] => i ≤ a.length ∧ j ≤ b.length
  | i, j, m :: ms => i ≤ m.a ∧ j ≤ m.b ∧ m.Same a b ∧ Aligned a b (m.a + m.size) (m.b + m.size) ms

section Alignment

variable {i j : ℕ} {ms : List Match}

theorem Aligned.of_le {i' j' : ℕ} (h : Aligned a b i j ms) (hi : i' ≤ i) (hj : j' ≤ j) :
    Aligned a b i' j' ms := by
  cases ms with
  | nil => exact ⟨hi.trans h.1, hj.trans h.2⟩
  | cons m ms => exact ⟨hi.trans h.1, hj.trans h.2.1, h.2.2⟩

/-- Blocks in order are an alignment. -/
theorem aligned_of_pairwise (hi : i ≤ a.length) (hj : j ≤ b.length)
    (hms : ms.Pairwise fun m m' => m.rect.Before m'.rect)
    (h : ∀ m ∈ ms, i ≤ m.a ∧ j ≤ m.b ∧ Matched a b (whole a b) m) : Aligned a b i j ms := by
  induction ms generalizing i j with
  | nil => exact ⟨hi, hj⟩
  | cons m ms ih =>
    obtain ⟨hbefore, hrest⟩ := List.pairwise_cons.mp hms
    obtain ⟨ha, hb, hm⟩ := h m List.mem_cons_self
    refine ⟨ha, hb, hm.same, ih hm.ahi hm.bhi hrest fun m' hm' => ?_⟩
    exact ⟨(hbefore m' hm').1, (hbefore m' hm').2, (h m' (List.mem_cons_of_mem _ hm')).2.2⟩

theorem collapse_aligned (h : Aligned a b i j (m :: ms)) : Aligned a b i j (collapse m ms) := by
  induction ms generalizing i j m with
  | nil =>
    rw [collapse]
    split_ifs with hsize
    · exact h
    · exact Aligned.of_le h.2.2.2 (h.1.trans (Nat.le_add_right _ _))
        (h.2.1.trans (Nat.le_add_right _ _))
  | cons m' ms ih =>
    obtain ⟨hi, hj, hsame, hrest⟩ := h
    rw [collapse]
    split_ifs with hadjacent hsize
    · refine ih ⟨hi, hj, hsame.append hrest.2.2.1 hadjacent.1 hadjacent.2, ?_⟩
      dsimp only
      rw [← Nat.add_assoc, ← Nat.add_assoc, hadjacent.1, hadjacent.2]
      exact hrest.2.2.2
    · exact ⟨hi, hj, hsame, ih hrest⟩
    · exact ih (hrest.of_le (hi.trans (Nat.le_add_right _ _)) (hj.trans (Nat.le_add_right _ _)))

/-- Sorted, blocks that lie apart follow one another. -/
theorem pairwise_before_sorted (happart : (ms.map Match.rect).Pairwise Rect.Apart)
    (hsize : ∀ m ∈ ms, 0 < m.size) :
    (ms.insertionSort (·.key ≤ ·.key)).Pairwise fun m m' => m.rect.Before m'.rect := by
  have hperm := List.perm_insertionSort (fun m m' : Match => m.key ≤ m'.key) ms
  have hsorted : (ms.insertionSort (·.key ≤ ·.key)).Pairwise fun m m' => m.key ≤ m'.key :=
    haveI : Std.Total fun m m' : Match => m.key ≤ m'.key := ⟨fun m m' => le_total m.key m'.key⟩
    haveI : IsTrans Match fun m m' => m.key ≤ m'.key := ⟨fun _ _ _ => le_trans⟩
    List.pairwise_insertionSort _ ms
  have happart' : (ms.insertionSort (·.key ≤ ·.key)).Pairwise fun m m' => m.rect.Apart m'.rect :=
    (hperm.pairwise_iff Rect.Apart.symm).mpr (List.pairwise_map.mp happart)
  refine (hsorted.and happart').imp_of_mem fun {m m'} _ hm' ⟨hkey, hm⟩ =>
    hm.resolve_right fun hbefore => ?_
  have hle : m.a ≤ m'.a := Prod.Lex.monotone_fst _ _ hkey
  have hlt : m'.a + m'.size ≤ m.a := hbefore.1
  have := hsize m' (hperm.mem_iff.mp hm')
  omega

variable [DecidableEq α]

/-- **The matching blocks are an alignment of the two sequences**, and then their ends. -/
theorem aligned_matchingBlocks (a b : List α) :
    ∃ ms, matchingBlocks a b = ms ++ [⟨a.length, b.length, 0⟩] ∧ Aligned a b 0 0 ms := by
  have hwork : work [whole a b] ≤ 2 * a.length + 1 := le_rfl
  obtain ⟨found, hfound, hsound⟩ := blocksFrom_sound hwork (sound_start a b)
  have hsorted := pairwise_before_sorted hsound.apart fun m hm => (hsound.matched m hm).1
  have haligned : Aligned a b 0 0 (foundBlocks a b) := by
    rw [foundBlocks, hfound, Option.getD_some]
    refine aligned_of_pairwise (Nat.zero_le _) (Nat.zero_le _) hsorted fun m hm => ?_
    exact ⟨Nat.zero_le _, Nat.zero_le _,
      (hsound.matched m ((List.perm_insertionSort _ _).mem_iff.mp hm)).2⟩
  refine ⟨_, rfl, ?_⟩
  generalize foundBlocks a b = ms at haligned
  exact collapse_aligned ⟨le_rfl, le_rfl, fun d hd => absurd hd (Nat.not_lt_zero d), haligned⟩

end Alignment

end SequenceMatcher
