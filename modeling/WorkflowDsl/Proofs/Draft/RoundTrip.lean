import WorkflowDsl.Draft.Workflow
import WorkflowDsl.Proofs.Model.Recoverable

/-!
# Built workflows read back

A workflow that is read from a document is always kept; one that is built need not be. A builder
takes values that reading never gives: a null payload, a jump to a task called `end`, or a finished
task with any entries. `Workflow.isRecoverable` says which of the built workflows are kept, and of
the others it is certain that they are not (`WorkflowDraft.decode_write_of_build`).
-/

namespace WorkflowDsl

/-- Functions are built under distinct names. -/
theorem ComponentsDraft.nodup_functions {d : ComponentsDraft} {c : Components}
    (h : d.build = .ok c) : c.functions.keys.Nodup := by
  obtain ⟨_, _, h⟩ := except_bind_eq_ok.1 h
  obtain ⟨_, _, h⟩ := except_bind_eq_ok.1 h
  obtain ⟨functions, _, h⟩ := except_bind_eq_ok.1 h
  obtain ⟨_, _, h⟩ := except_bind_eq_ok.1 h
  obtain ⟨_, _, h⟩ := except_bind_eq_ok.1 h
  obtain rfl := Except.ok.inj h
  exact Entries.nodup_keys_ofList functions.entries

namespace WorkflowDraft

theorem components_of_build {d : WorkflowDraft} {w : Workflow} (h : d.build = .ok w) :
    ∀ c ∈ w.components, ∃ e : ComponentsDraft, e.build = .ok c := by
  rw [build] at h
  split at h
  · cases h
  · cases h
  · dsimp only at h
    split at h
    · cases h
    · obtain ⟨components, hc, h⟩ := except_bind_eq_ok.1 h
      obtain ⟨tasks, _, h⟩ := except_bind_eq_ok.1 h
      obtain ⟨_, _, h⟩ := except_bind_eq_ok.1 h
      obtain rfl := Except.ok.inj h
      intro c hm
      have hs : components = some c := (Option.mem_filter_iff.1 hm).1
      cases hd : d.components with
      | none =>
        rw [hd] at hc
        cases (Except.ok.inj hc).trans hs
      | some e =>
        rw [hd] at hc
        obtain ⟨c', he, hc⟩ := except_bind_eq_ok.1 hc
        cases (Except.ok.inj hc).trans hs
        exact ⟨e, he⟩

/-- **A built workflow is kept exactly when it is recoverable.** If it is, what it is written as is
read as the same workflow. If it is not, then what it is written as is not read as a workflow equal
to it. -/
theorem decode_write_of_build {d : WorkflowDraft} {w : Workflow} (h : d.build = .ok w) :
    (w.isRecoverable = true →
        ∃ w', Workflow.codec.decode (Workflow.codec.write w) = .ok w' ∧ w' = w) ∧
      (w.isRecoverable = false →
        ∀ w', Workflow.codec.decode (Workflow.codec.write w) = .ok w' → (w' == w) = false) := by
  have hw : KeptIff Workflow.codec.ReadsBack (· == ·) w.isRecoverable w := by
    refine Workflow.keptIff fun c hc => ?_
    obtain ⟨e, he⟩ := components_of_build h c hc
    exact ComponentsDraft.nodup_functions he
  constructor
  · intro hp
    exact ⟨w, Codec.decode_eq_ok.2 (hw.keeps hp), rfl⟩
  · intro hp w' hr
    by_contra he
    rw [Bool.not_eq_false] at he
    rw [hw.of_readsBack (Codec.decode_eq_ok.1 hr) he] at hp
    cases hp

/-- A workflow that runs another one with the given input. -/
def running (input : Option Node) : WorkflowDraft where
  name := some "nightly"
  version := some "1.0.0"
  tasks :=
    [("report", .ofKind (.run (some (.workflow
      { workspace := "default", name := "report", version := "1.0.0", input })) {}))]

/-- Without an input the workflow is kept, and with null for the input it is not. -/
theorem decode_write_of_build_running :
    (∃ w, (running none).build = .ok w ∧
        ∃ w', Workflow.codec.decode (Workflow.codec.write w) = .ok w' ∧ w' = w) ∧
      ∃ w, (running (some .null)).build = .ok w ∧
        ∃ w', Workflow.codec.decode (Workflow.codec.write w) = .ok w' ∧ (w' == w) = false := by
  constructor
  · exact ⟨_, rfl, (decode_write_of_build (d := running none) rfl).1 rfl⟩
  · exact ⟨_, rfl, _, rfl, (decode_write_of_build (d := running (some .null)) rfl).2 rfl _ rfl⟩

end WorkflowDraft

end WorkflowDsl
