import WorkflowDsl.Proofs.Reader.Collecting
import WorkflowDsl.Proofs.Reader.Serving
import WorkflowDsl.Proofs.Reader.Survival

/-!
# How workflows are resolved

The schemas of a workflow are resolved in the document that it is written as, at pointers that were
found before the first of them is. A run goes through the references that stood there at first
(`Resolver.serves_foldlM`), since no document that is inlined disturbs what the pointers after it
lead to. The tree that results is always read as a workflow (`Workflow.exists_resolves`), so that a
reference without a document is the only way to fail (`Resolver.serves_resolveWorkflow`).
-/

namespace WorkflowDsl

open ResourcePosition

/-- The references of the schemas among the resource positions of a document. -/
def Workflow.schemaReferences (w : Workflow) : List String :=
  ((resourcePositions (codec.write w)).filter (·.isSchema)).filterMap fun p =>
    ((codec.write w).at? p.pointer).bind resourceUri?

theorem Workflow.schemaReferences_eq_documentReferences (w : Workflow) :
    w.schemaReferences = documentReferences (codec.write w) := by
  rw [documentReferences, ← pointers_resourcePositions, pointers, referencesAt, List.filterMap_map]
  rfl

/-- **The references of the schemas of a document are those that are collected of it.** -/
theorem Workflow.schemaReferences_eq {n : Node} {w : Workflow} (hn : n.distinctKeys = true)
    (hr : codec.read n = .ok w) : w.schemaReferences = w.collect .references :=
  w.schemaReferences_eq_documentReferences.trans (documentReferences_write hn hr)

namespace Resolver

variable {r : Resolver} {n m : Node}

/-! ## One schema after another -/

theorem edits_concat {ε : Type} {g : Editor ε} {ps : List Pointer} {p : Pointer} {n m m' : Node}
    (h : g.Edits ps n m) (hp : g m p = .ok m') : g.Edits (ps ++ [p]) n m' := by
  rw [Editor.Edits, List.foldlM_append]
  refine except_bind_eq_ok.2 ⟨m, h, ?_⟩
  exact Editor.edits_cons.2 ⟨m', hp, Editor.edits_nil.2 rfl⟩

/-- Resolving a schema answers its reference, if it has one. -/
theorem serves_resolveSchema (m : Node) (p : ResourcePosition) (log : List Url) :
    r.Serves r.Loads r.LoadFails (r.resolveSchema m p) ((m.at? p.pointer).bind resourceUri?).toList
      (fun m' => r.inlineAt m p.pointer = .ok m') log := by
  rw [resolveSchema, inlineAt]
  cases (m.at? p.pointer).bind resourceUri? with
  | none => exact serves_pure rfl
  | some reference =>
    show Serves r _ _ _ ([reference] ++ []) _ log
    refine (serves_load reference log).bind fun hd => serves_pure ?_
    exact except_map_eq_ok.2 ⟨_, hd, rfl⟩

/-- **Resolving schemas answers the references that stood there at first**, as long as no document
that is inlined disturbs what stands at a pointer after it. -/
theorem serves_foldlM {before : List Pointer} (ps : List ResourcePosition)
    (hs : Editor.Steady r.inlineAt (before ++ ps.map (·.pointer)) n) (hb : r.Inlines before n m)
    (log : List Url) :
    r.Serves r.Loads r.LoadFails (ps.foldlM r.resolveSchema m)
      (referencesAt (ps.map (·.pointer)) n) (r.Inlines (ps.map (·.pointer)) m) log := by
  induction ps generalizing before m log with
  | nil => exact serves_pure (Editor.edits_nil.2 rfl)
  | cons p ps ih =>
    have hp : m.at? p.pointer = n.at? p.pointer := hs rfl hb
    have href : referencesAt ((p :: ps).map (·.pointer)) n =
        ((m.at? p.pointer).bind resourceUri?).toList ++ referencesAt (ps.map (·.pointer)) n := by
      rw [hp, List.map_cons, referencesAt, List.filterMap_cons]
      cases (n.at? p.pointer).bind resourceUri? <;> rfl
    rw [href, List.foldlM_cons]
    refine (serves_resolveSchema m p log).bind fun {m' log'} hm => ?_
    rw [List.map_cons, List.append_cons] at hs
    exact (ih hs (edits_concat hb hm) log').imp fun h => Editor.edits_cons.2 ⟨m', hm, h⟩

/-! ## Whole workflows -/

/-- The workflow `w'` is read from what `w` is written as, with the documents of its schemas
inlined. -/
def Resolves (r : Resolver) (w w' : Workflow) : Prop :=
  ∃ m, Difference.WithDistinctKeys r.Inlines (documentPointers false (Workflow.codec.write w))
      (Workflow.codec.write w) m ∧ Workflow.codec.read m = .ok w'

variable {w w' : Workflow} (hn : n.distinctKeys = true) (hw : Workflow.codec.decode n = .ok w)
include hn hw

/-- **A document with its schemas inlined is read as a workflow.** -/
theorem exists_resolves
    (hm : r.Inlines (documentPointers false (Workflow.codec.write w)) (Workflow.codec.write w) m) :
    ∃ w', Workflow.codec.read m = .ok w' ∧ r.Resolves w w' := by
  have hr := Codec.decode_eq_ok.1 hw
  have hk : Workflow.codec.Keeps w := Codec.StableBelow.keeps_of_read (Node.Below.of_distinct hn) hr
  have hd := Workflow.distinctKeys_write hn hr
  have hm : Difference.WithDistinctKeys r.Inlines _ _ m := ⟨hd, distinctKeys_of_inlines hm hd, hm⟩
  obtain ⟨w', hw', -⟩ := Workflow.survives (R := .inlining r) hk hm
  exact ⟨w', hw', m, hm, hw'⟩

/-- **Resolving a workflow answers the references of its schemas.** -/
theorem serves_resolveWorkflow (log : List Url) :
    r.Serves r.Loads r.LoadFails (r.resolveWorkflow w) w.schemaReferences (r.Resolves w) log := by
  have hd := Workflow.distinctKeys_write hn (Codec.decode_eq_ok.1 hw)
  have hs := steady_documentPointers r.leadsDown_inlineAt hd
  rw [w.schemaReferences_eq_documentReferences, documentReferences, resolveWorkflow]
  rw [← pointers_resourcePositions] at hs ⊢
  rw [← List.append_nil (referencesAt _ _)]
  have h0 : r.Inlines [] (Workflow.codec.write w) (Workflow.codec.write w) := Editor.edits_nil.2 rfl
  refine (serves_foldlM _ hs h0 log).bind fun {m log'} hm => ?_
  have hm : r.Inlines (pointers false _) _ m := hm
  rw [pointers_resourcePositions] at hm
  obtain ⟨w', hw', h⟩ := exists_resolves hn hw hm
  rw [hw']
  exact serves_pure h

end Resolver

end WorkflowDsl
