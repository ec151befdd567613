import AgentPlatform.Machinery.DiskWrites

/-!
# Machinery/RealPaths — `realpath` and the kernel agree on what the kernel finds

`realpath` gives up at a link that is being resolved, the kernel after forty links.  Each of the
links that are being resolved costs more than the one inside it, so that a path the kernel finds has
no link inside itself: `realpath_of_lookup`.
-/

namespace Symlinks

open PosixPath

namespace Disk

variable {d : Disk} {here p q : Location}

/-- Where the segments of a link are resolved from. -/
def linkBase (link : Location) (target : Text) : Location :=
  if isAbsolute target then [] else link.dropLast

/-- **What a link costs**: with fewer than `n` links the kernel does not find what it leads to. -/
def Costs (d : Disk) (n : ℕ) (link : Location) : Prop :=
  ∀ target, d.kindAt link = some (.link target) →
    ∀ m < n, ∀ q, d.walk m (linkBase link target) (segments target) ≠ .found q

/-- The least number of links with which a path is found. -/
theorem exists_least {segs : List Text} (h : ∃ n q, d.walk n here segs = .found q) :
    ∃ n, (∃ q, d.walk n here segs = .found q) ∧ ∀ m < n, ∀ q, d.walk m here segs ≠ .found q := by
  obtain ⟨n, hn⟩ := h
  induction n using Nat.strong_induction_on with
  | _ n ih =>
    by_cases hless : ∃ m < n, ∃ q, d.walk m here segs = .found q
    · obtain ⟨m, hm, hfound⟩ := hless
      exact ih m hm hfound
    · exact ⟨n, hn, fun m hm q hq => hless ⟨m, hm, q, hq⟩⟩

/-- There are no more links than entries. -/
theorem length_le_of_links {active : List Location} (hnodup : active.Nodup)
    (hlinks : ∀ link ∈ active, ∃ target, d.kindAt link = some (.link target)) :
    active.length ≤ d.entries.length := by
  have hsub : active ⊆ d.entries.map Prod.fst := by
    intro link hlink
    obtain ⟨target, hkind⟩ := hlinks link hlink
    rw [kindAt] at hkind
    split at hkind
    · cases hkind
    · obtain ⟨l₁, l₂, hentries, -⟩ := List.lookup_eq_some_iff.mp hkind
      rw [hentries]
      simp
  have hle := hnodup.length_le_of_subset hsub
  rwa [List.length_map] at hle

/-- What `realpath` makes of a path: the location, unless a name cannot be looked up. -/
def Agrees (p : Location) (result : Except Stop Location) : Prop :=
  result = .ok p ∨ ∃ e, result = .error (.name e)

/-- Along the segments, if every link on the way agrees. -/
theorem realFrom_of_statFrom {next : Location → List Text → Lookup}
    {follow : Location → Text → Except Stop Location} {segs : List Text}
    (hnext : ∀ link target rest, d.kindAt link = some (.link target) →
      next (linkBase link target) (segments target ++ rest) = .found p →
      ∃ q, Agrees q (follow link target) ∧ Agrees p (d.realFrom follow q rest))
    (h : d.statFrom next here segs = .found p) : Agrees p (d.realFrom follow here segs) := by
  induction segs generalizing here with
  | nil =>
    rw [statFrom] at h
    rw [realFrom, Lookup.found.inj h]
    exact .inl rfl
  | cons seg segs ih =>
    rw [statFrom] at h
    rw [realFrom]
    split_ifs at h ⊢
    · exact ih h
    · exact ih h
    · cases hvalid : FileNames.invalid? seg with
      | some e => exact .inr ⟨e, rfl⟩
      | none =>
        split at h
        next => exact absurd h absent_ne_found
        next target hkind =>
          have hbase : linkBase (here ++ [seg]) target = if isAbsolute target
              then [] else here := by
            rw [linkBase, List.dropLast_concat]
          rw [← hbase] at h
          obtain ⟨q, hq, hrest⟩ := hnext _ _ _ hkind h
          rw [hkind]
          dsimp only
          rcases hq with hq | ⟨e, hq⟩
          · rw [hq]
            exact hrest
          · rw [hq]
            exact .inr ⟨e, rfl⟩
        next k hlink hkind =>
          rw [hkind]
          cases k with
          | link target => exact absurd rfl (hlink target)
          | _ => exact ih h

/-- **What the kernel finds is what `realpath` returns.**  A link that is resolved inside itself
would cost more links than it does. -/
theorem realFrom_of_walk {links : ℕ} {segs : List Text} (h : d.walk links here segs = .found p)
    {depth : ℕ} {active : List Location} (hnodup : active.Nodup)
    (hlinks : ∀ link ∈ active, ∃ target, d.kindAt link = some (.link target))
    (hcosts : ∀ link ∈ active, d.Costs links link)
    (hdepth : active.length + depth = d.entries.length + 1) :
    Agrees p (d.realFrom (d.realLink depth active) here segs) := by
  induction links using Nat.strong_induction_on generalizing here segs p depth active with
  | _ links ih =>
    cases links with
    | zero =>
      rw [walk] at h
      exact realFrom_of_statFrom (fun _ _ _ _ hloop => by cases hloop) h
    | succ links =>
      refine realFrom_of_statFrom (fun link target rest hkind hfound => ?_) h
      obtain ⟨r, hr, happend⟩ := walk_append (d := d) links (linkBase link target)
        (segments target) rest
      rw [happend] at hfound
      obtain ⟨q, hq, hrest⟩ := extend_eq_found hfound
      have hfresh : link ∉ active := fun hactive =>
        hcosts link hactive target hkind links (Nat.lt_succ_self links) q hq
      refine ⟨q, ?_, ih r (Nat.lt_succ_of_le hr) hrest hnodup hlinks (fun l hl t ht m hm =>
        hcosts l hl t ht m (hm.trans_le (hr.trans (Nat.le_succ links)))) hdepth⟩
      cases depth with
      | zero =>
        have hle := length_le_of_links hnodup hlinks
        omega
      | succ depth =>
        rw [realLink, if_neg (by simpa using hfresh)]
        obtain ⟨m, hm, hleast⟩ := exists_least ⟨links, q, hq⟩
        have hmle : m ≤ links := Nat.le_of_not_lt fun hlt => hleast links hlt q hq
        obtain ⟨q', hq'⟩ := hm
        obtain rfl : q' = q := Lookup.found.inj
          ((walk_within (fun _ _ hk => hk) hmle hq').symm.trans hq)
        refine ih m (Nat.lt_succ_of_le hmle) hq' (List.nodup_cons.mpr ⟨hfresh, hnodup⟩)
          (List.forall_mem_cons.mpr ⟨⟨target, hkind⟩, hlinks⟩)
          (List.forall_mem_cons.mpr ⟨fun t ht k hk => ?_, fun l hl t ht k hk => ?_⟩) (by
            rw [List.length_cons]
            omega)
        · obtain rfl := Kind.link.inj (Option.some.inj (hkind.symm.trans ht))
          exact hleast k hk
        · exact hcosts l hl t ht k (hk.trans (Nat.lt_succ_of_le hmle))

/-- **A path that is found is resolved to what is found**, unless a name on the way cannot be
spelled. -/
theorem realpath_of_lookup {path : Location} (h : d.lookup path = .found p) :
    Agrees p (d.realpath path) :=
  realFrom_of_walk h List.nodup_nil (by simp) (by simp) (Nat.zero_add _)

end Disk

end Symlinks
