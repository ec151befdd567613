import AgentPlatform.Agents.ToolGate
import AgentPlatform.Tools.LineCounts

/-!
# Agents/EditRows — what a row of `file_changes` says about a patch

`Agent._execute_tool` copies the counts of a result into the row it records.  Whatever fails on the
way, a call of `apply_patch` leaves at most one row, and its counts are those of the text the tool
read and of the text it wrote (`executeTool_patchRow`).
-/

namespace AgentPlatform

open Prog ToolM

/-- Neither the files nor the rows of `file_changes` change. -/
def Unrecorded (w w' : ToolWorld) : Prop := w'.tree = w.tree ∧ w'.fileChanges = w.fileChanges

instance : IsPreorder ToolWorld Unrecorded where
  refl _ := ⟨rfl, rfl⟩
  trans _ _ _ h₁ h₂ := ⟨h₂.1.trans h₁.1, h₂.2.trans h₁.2⟩

/-- The counts are those of a file's text and of what `w'` has in its place. -/
def CountsOf (w w' : ToolWorld) (counts : ℕ × ℕ) : Prop :=
  ∃ target before after, w.tree.fileAt target = some (.text before) ∧
    w'.tree = w.tree.put target (.file (.text after)) ∧
    counts = countChanges before.universalNewlines after

/-- **The rows after a call**: those before it, and at most one more, with the counts of the
edit. -/
def PatchRow (w w' : ToolWorld) : Prop :=
  w'.fileChanges = w.fileChanges ∨ ∃ row, w'.fileChanges = row :: w.fileChanges ∧
    CountsOf w w' (row.linesAdded, row.linesRemoved)

/-- What is known once the tool has returned: no row yet, and a success has the counts of its
edit. -/
def Reported (w : ToolWorld) (result : ToolResult) (w' : ToolWorld) : Prop :=
  w'.fileChanges = w.fileChanges ∧
    (result.ok = true → CountsOf w w' (result.data.linesAdded, result.data.linesRemoved))

section Rows

variable {w : ToolWorld} {result : ToolResult} {s s' : ToolWorld} (env : GateEnv) (c : ToolContext)

theorem Reported.of_unrecorded (h : Reported w result s) (hs : Unrecorded s s') :
    Reported w result s' := by
  refine ⟨hs.2.trans h.1, fun hok => ?_⟩
  obtain ⟨target, before, after, hfile, htree, hcounts⟩ := h.2 hok
  exact ⟨target, before, after, hfile, hs.1.trans htree, hcounts⟩

theorem PatchRow.of_unrecorded (h : PatchRow w s) (hs : Unrecorded s s') : PatchRow w s' := by
  rcases h with h | ⟨row, hrow, target, before, after, hfile, htree, hcounts⟩
  · exact .inl (hs.2.trans h)
  · exact .inr ⟨row, hs.2.trans hrow, target, before, after, hfile, hs.1.trans htree, hcounts⟩

theorem Reported.patchRow (h : Reported w result s) : PatchRow w s := .inl h.1

theorem emit_unrecorded (event : ToolEvent) : Keeps Unrecorded (emit env event) := by
  refine Keeps.bind (keeps_call _) fun _ => ?_
  exact Keeps.bind (keeps_modify fun _ => ⟨rfl, rfl⟩) fun _ => keeps_call _

theorem audit_unrecorded (name : String) (args : Arguments) (result : ToolResult) :
    Keeps Unrecorded (audit env name args result) := by
  refine Keeps.bind (keeps_call _) fun _ => ?_
  exact Keeps.bind (keeps_modify fun _ => ⟨rfl, rfl⟩) fun _ => emit_unrecorded env _

/-- **The row that is recorded has the counts of the result.** -/
theorem recordEdit_patchRow (tool : Tool) :
    Triple (Reported w result) (fun _ => PatchRow w) (fun _ => PatchRow w)
      (recordEdit env c tool result) := by
  rw [recordEdit]
  rcases result.data.path with _ | path
  · exact triple_pure fun s hs => hs.patchRow
  · refine Triple.ite (fun hedit => ?_) fun _ => triple_pure fun s hs => hs.patchRow
    have hcall : Triple (Reported w result) (fun _ => Reported w result) (fun _ => PatchRow w)
        (call env.recordFileChange : ToolM Unit) :=
      (keeps_call _).triple (fun _ _ hs hsame => hs.of_unrecorded hsame) fun _ _ hs => hs.patchRow
    have hemit : Triple (PatchRow w) (fun _ => PatchRow w) (fun _ => PatchRow w)
        (emit env (.fileChanged path)) :=
      (emit_unrecorded env _).triple (fun _ _ hs hsame => hs.of_unrecorded hsame) fun _ _ hs => hs
    refine Triple.bind (Triple.bind hcall fun _ => triple_modify fun s hs => ?_) fun _ => hemit
    exact .inr ⟨_, congrArg _ hs.1, hs.2 hedit.1⟩

end Rows

/-- What the guarded tool hands on. -/
theorem guarded_reported {rt : ToolRuntime} (hrt : rt.countChanges = countChanges) (c : ToolContext)
    (args : Arguments) (w : ToolWorld) :
    Triple (Unrecorded w) (Reported w) (fun _ => PatchRow w)
      (guarded "apply_patch" (applyPatch rt c args)) := by
  intro s hs
  rw [guarded]
  rcases hrun : applyPatch rt c args s.tree with ⟨e | result, t⟩
  · refine ⟨hs.2, fun hok => ?_⟩
    unfold errorResult at hok
    split at hok <;> cases hok
  · refine ⟨hs.2, fun hok => ?_⟩
    rw [hs.1] at hrun
    exact applyPatch_counts hrt hrun hok

/-- **Every row a call of `apply_patch` leaves has the counts of its edit.** -/
theorem executeTool_patchRow {rt : ToolRuntime} (hrt : rt.countChanges = countChanges)
    (engine : PolicyEngine) (env : GateEnv) (role : AgentRole) (args : Arguments) (c : ToolContext)
    (w : ToolWorld) : PatchRow w (executeTool rt engine env role "apply_patch" args c w).2 := by
  have hpass : ∀ {m : ToolM Unit}, Keeps Unrecorded m →
      Triple (Unrecorded w) (fun _ => Unrecorded w) (fun _ => PatchRow w) m := fun hm =>
    hm.triple (fun _ _ hs hsame => trans_of Unrecorded hs hsame) fun _ _ hs => .inl hs.2
  have hpure : ∀ result : ToolResult,
      Triple (Unrecorded w) (fun _ => PatchRow w) (fun _ => PatchRow w)
      (pure result : ToolM ToolResult) := fun result => triple_pure fun _ hs => .inl hs.2
  have htriple : Triple (Unrecorded w) (fun _ => PatchRow w) (fun _ => PatchRow w)
      (executeTool rt engine env role "apply_patch" args c) := by
    refine Triple.ite (fun _ => Triple.bind (hpass (audit_unrecorded env _ _ _)) fun _ => hpure _)
      fun _ => ?_
    refine Triple.ite (fun _ => ?_) fun _ => ?_
    · refine Triple.bind (hpass (emit_unrecorded env _)) fun _ => ?_
      exact Triple.bind (hpass (audit_unrecorded env _ _ _)) fun _ _ hs => .inl hs.2
    · refine Triple.bind (hpass (emit_unrecorded env _)) fun _ => ?_
      refine Triple.bind (guarded_reported hrt c args w) fun result => ?_
      refine Triple.bind ((audit_unrecorded env _ _ _).triple
        (fun _ _ hs hsame => Reported.of_unrecorded hs hsame) fun _ _ hs => hs.patchRow) fun _ => ?_
      exact Triple.bind (recordEdit_patchRow env c .applyPatch) fun _ => triple_pure fun _ hs => hs
  have hpost := htriple w (refl w)
  rcases hrun : executeTool rt engine env role "apply_patch" args c w with ⟨e | result, w'⟩
  · rw [hrun] at hpost
    exact hpost
  · rw [hrun] at hpost
    exact hpost

end AgentPlatform
