import WorkflowDsl.Proofs.Model.Distinctness
import WorkflowDsl.Proofs.Reader.Resolution
import WorkflowDsl.Proofs.Reader.TaskSurvival

/-!
# Documents survive

Rewriting the external resources of a document, or resolving them, changes nothing else: the
document is the same when both are masked (`Workflow.masked_of_rebaseResources`,
`Workflow.masked_of_resolveWorkflow`). Rewriting moreover leaves a document that is accepted
accepted.
-/

namespace WorkflowDsl

open Pointer (below)
open ResourcePosition

variable {R : Revision} {n : Node}

/-! ## Components -/

theorem Extension.survives {e : Extension} (hr : codec.read n = .ok e) :
    codec.Survives R.Revises (maskedBy R.masking R.all) (extensionPointers R.all n) n e := by
  have hb {key : String} (h : key ∉ ["before", "after"]) :
      below key (extensionPointers R.all n) = [] :=
    Pointer.below_flatMap_of_not_mem (k := id) (by simpa using h)
  have hl {key : String} (h : key ∈ ["before", "after"]) {m : Node} {ts : NamedMap Task}
      (hm : n.get? key = some m) (hr : (Codec.namedMap Task.codec).read m = .ok ts) :
      (Codec.namedMap Task.codec).Survives R.Revises (NamedMap.map R.maskTask)
        (below key (extensionPointers R.all n)) m ts := by
    rw [below_extensionPointers h, hm]
    exact TaskKind.list_survives (Task.survivesBelow R m.depth) (Nat.le_refl _) hr
  refine Codec.record_survives R.descends hr (.computed rfl)
    (id, id, NamedMap.map R.maskTask, NamedMap.map R.maskTask, ())
    (deep_extensionPointers n) (fun hn => ?_) fun es hn => ?_
  · cases n with
    | mapping es => exact absurd rfl (hn es)
    | _ => rfl
  · subst hn
    exact ⟨Field.survives_of_below R.descends (hb (by decide)),
      Field.survives_of_below R.descends (hb (by decide)),
      fun _ _ hm hr => hl (by decide) hm hr, fun _ _ hm hr => hl (by decide) hm hr, trivial⟩

theorem Components.survives {c : Components} (hr : codec.read n = .ok c) :
    codec.Survives R.Revises (maskedBy R.masking R.all) (componentPointers R.all n) n c := by
  have hE := R.descends
  have hb {key : String} (hf : "functions" ≠ key) (he : "extensions" ≠ key) :
      below key (componentPointers R.all n) = [] := by
    simp [componentPointers, hf, he]
  have hx : Extension.codec.SurvivesBelow n.depth R.Revises (Extension.maskedBy R.masking R.all)
      (extensionPointers R.all) := fun _ _ _ hr => Extension.survives hr
  refine Codec.record_survives hE hr (.computed rfl)
    (id, id, id, NamedMap.map (Extension.maskedBy R.masking R.all),
      OrderedMap.map R.maskTask, id, id, id, ())
    (deep_componentPointers n) (fun hn => ?_) fun es hes => ?_
  · cases n with
    | mapping es => exact absurd rfl (hn es)
    | _ => rfl
  · subst hes
    refine ⟨Field.survives_of_below hE (hb (by decide) (by decide)),
      Field.survives_of_below hE (hb (by decide) (by decide)),
      Field.survives_of_below hE (hb (by decide) (by decide)), fun m a hm hr => ?_,
      fun m a hm hr => ?_, Field.survives_of_below hE (hb (by decide) (by decide)),
      Field.survives_of_below hE (hb (by decide) (by decide)),
      Field.survives_of_below hE (hb (by decide) (by decide)), trivial⟩
    · have hm : (Node.mapping es).child? "extensions" = some m := hm
      show (Codec.namedMap Extension.codec).Survives R.Revises _ (below "extensions" _) m a
      rw [below_componentPointers_extensions, hm]
      exact Codec.namedMap_survives hE deep_extensionPointers hx
        (Nat.le_of_lt (Node.depth_lt_of_child? hm)) hr
    · have hm : (Node.mapping es).child? "functions" = some m := hm
      show (Codec.map Task.codec).Survives R.Revises _ (below "functions" _) m a
      rw [below_componentPointers_functions, hm]
      exact Codec.map_survives hE deep_taskPointers (Task.survivesBelow R _) (Nat.le_refl _)
        R.distinct hr

/-! ## Documents -/

namespace Workflow

variable {w w' : Workflow}

/-- **A document survives but for what is masked.** -/
theorem survives (hr : codec.read n = .ok w) :
    codec.Survives R.Revises (maskedBy R.masking R.all) (documentPointers R.all n) n w := by
  intro n' he
  cases n with
  | mapping es =>
    have hE := R.descends
    have hn := (Node.distinctKeys_mapping.1 (R.distinct he)).1
    obtain ⟨es', rfl, hes⟩ := hE.mapping (deep_documentPointers _) he
    have hb {key : String} (h : key ∉ ["input", "output", "export", "use", "do"]) :
        below key (documentPointers R.all (.mapping es)) = [] :=
      below_documentPointers_of_not_mem h
    refine Codec.openRecord_yields hr (.computed rfl)
      (id, Option.map (InputModel.maskedBy R.masking.schema),
        Option.map (Components.maskedBy R.masking R.all),
        NamedMap.map R.maskTask, id,
        Option.map (OutputModel.maskedBy R.masking.schema), id, ())
      hes ⟨Field.survives_of_below hE (hb (by decide)),
        Field.survives_model (below_documentPointers_of_model (by decide)) InputModel.survives,
        Field.survives_optional hE fun m c hm hr => ?_, fun m ts hm hr => ?_,
        Field.survives_of_below hE (hb (by decide)),
        Field.survives_model (below_documentPointers_of_model (by decide)) OutputModel.survives,
        Field.survives_of_below hE (hb (by decide)), trivial⟩ hn fun {key v v'} hk hne hv he => ?_
    · rw [below_documentPointers_use, hm]
      exact Components.survives hr
    · have hm : Entries.get? es "do" = some m := hm
      show (Codec.namedMap Task.codec).Survives R.Revises _ (below "do" _) m ts
      rw [below_documentPointers_do, hm]
      exact TaskKind.list_survives (Task.survivesBelow R m.depth) (Nat.le_refl _) hr
    · have hm : key ∈ ["input", "output", "export", "use", "do"] := by
        by_contra h
        exact hne (hb h)
      simp only [List.mem_cons, List.not_mem_nil, or_false] at hm
      rcases hm with rfl | rfl | rfl | rfl | rfl
      · exact absurd (by decide) hk
      · exact absurd (by decide) hk
      · refine ⟨List.mem_cons_self, R.entry ?_⟩
        rw [below_documentPointers_of_model (by decide), hv] at he
        exact he
      · exact absurd (by decide) hk
      · exact absurd (by decide) hk
  | _ => cases hr

/-! ## Rewriting and resolving -/

theorem edits_rebaseAt (f : String → String) (ps : List ResourcePosition) (n : Node) :
    (rebaseAt f).Edits (pointers true ps) n
      (ps.foldl (fun n p => n.modifyAt (rebaseResource f) p.pointer) n) := by
  induction ps generalizing n with
  | nil => exact Editor.edits_nil.2 rfl
  | cons p ps ih => exact Editor.edits_cons.2 ⟨_, rfl, ih _⟩

theorem edits_rebaseResources (rebase : String → Option String) (n : Node) :
    (rebaseAt (rebaseReference rebase)).Edits (documentPointers true n) n
      (rebaseResources rebase n) := by
  have he := edits_rebaseAt (rebaseReference rebase) (resourcePositions n) n
  rwa [pointers_resourcePositions] at he

theorem distinctKeys_rebaseResources (rebase : String → Option String)
    (hn : n.distinctKeys = true) : (rebaseResources rebase n).distinctKeys = true :=
  distinctKeys_of_edits_rebaseAt (edits_rebaseResources rebase n) hn

/-- **Rewriting the URIs of a document changes nothing but external resources.** A document that is
accepted stays so. -/
theorem masked_of_rebaseResources (rebase : String → Option String) (hn : n.distinctKeys = true)
    (hw : codec.decode n = .ok w) :
    ∃ w', codec.decode (rebaseResources rebase n) = .ok w' ∧ w'.masked true = w.masked true := by
  have he := Revision.rebases_of_edits hn (edits_rebaseResources rebase n)
  obtain ⟨w', hw', hm⟩ := survives (R := .rebasing _ .hiding (.hiding _))
    (Codec.decode_eq_ok.1 hw) he
  exact ⟨w', Codec.decode_eq_ok.2 hw', hm⟩

/-- A document that is read is written with distinct keys. -/
theorem exists_inlines_of_resolveWorkflow {r : Resolver} (hn : n.distinctKeys = true)
    (hw : codec.decode n = .ok w) (hr : (r.resolveWorkflow w).Gives w') :
    ∃ m, Difference.WithDistinctKeys r.Inlines (documentPointers false (codec.write w))
        (codec.write w) m ∧ codec.read m = .ok w' := by
  obtain ⟨m, hm, hr⟩ := Resolver.inlines_of_resolveWorkflow hr
  rw [pointers_resourcePositions] at hm
  have hd := distinctKeys_write hn (Codec.decode_eq_ok.1 hw)
  exact ⟨m, ⟨hd, Resolver.distinctKeys_of_inlines hm hd, hm⟩, hr⟩

/-- **Resolving a document changes nothing but schemas.** -/
theorem masked_of_resolveWorkflow {r : Resolver} (hn : n.distinctKeys = true)
    (hw : codec.decode n = .ok w) (hr : (r.resolveWorkflow w).Gives w') :
    w'.masked false = w.masked false := by
  obtain ⟨m, hm, hr⟩ := exists_inlines_of_resolveWorkflow hn hw hr
  have hk : codec.Keeps w :=
    Codec.StableBelow.keeps_of_read (Node.Below.of_distinct hn) (Codec.decode_eq_ok.1 hw)
  obtain ⟨w₁, hw₁, he⟩ := survives (R := .inlining r) hk hm
  obtain rfl := Except.ok.inj (hr.symm.trans hw₁)
  exact he

end Workflow

end WorkflowDsl
