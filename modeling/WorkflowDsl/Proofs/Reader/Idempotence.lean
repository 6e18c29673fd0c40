import WorkflowDsl.Proofs.Reader.Outcome

/-!
# Resolving a second time

A document in which nothing refers to a schema stays as it is when it is resolved
(`Workflow.outcome_of_schemaReferences_eq_nil`). That is what resolving makes of a document
(`Workflow.schemaReferences_of_resolves`): a document that is inlined takes the place of the
resource, and no position is searched inside of it. So a run asks for the references of the document
that it starts with, and for nothing when it is repeated (`Workflow.outcome_resolveWorkflow`).
-/

namespace WorkflowDsl

open Pointer (below)
open ResourcePosition

variable {r : Resolver} {n n' : Node}

/-! ## What is left in trees -/

/-- A document takes the place of a resource. -/
theorem Resolver.child?_inlineDocument (d : Node) (hn : n.distinctKeys = true) :
    (inlineDocument d n).child? "resource" = none := by
  cases n with
  | mapping es =>
    obtain ⟨hn, -⟩ := Node.distinctKeys_mapping.1 hn
    show Entries.get? (Entries.insert (Entries.swapErase es "resource") "document" d) _ = none
    rw [Entries.get?_insert_of_ne (by decide), Entries.get?_eq_none_iff]
    exact Entries.not_mem_keys_swapErase hn _
  | sequence ns => rfl
  | _ => rfl

namespace ResourcePosition

/-- **Where documents are inlined, data models have no reference.** -/
theorem modelReferences_of_inlines
    (h : Difference.WithDistinctKeys r.Inlines (modelSchema n) n n') : modelReferences n' = [] := by
  obtain ⟨hn, -, h⟩ := h
  rcases modelSchema_cases n with hm | hm
  · rw [hm] at h
    rw [Editor.edits_nil.1 h, modelReferences, hm, referencesAt_nil]
  · rw [hm] at h
    obtain ⟨m, hp, h⟩ := Editor.edits_cons.1 h
    obtain rfl := Editor.edits_nil.1 h
    rw [modelReferences_eq]
    rcases Resolver.inlineAt_eq_ok.1 hp with ⟨hr, rfl⟩ | ⟨_, d, -, -, rfl⟩
    · rw [hr]
      rfl
    · have hat (k : Node) : k.at? ["schema", "resource"] =
          (k.at? ["schema"]).bind (·.at? ["resource"]) := k.at?_append ["schema"] ["resource"]
      show Option.toList (Option.bind (Node.at? _ (n.modifyAt _ ["schema"])) _) = []
      rw [hat, Node.at?_modifyAt]
      cases hs : n.at? ["schema"] with
      | none => rfl
      | some s =>
        have hd := Resolver.child?_inlineDocument d (Node.distinctKeys_of_at? hn hs)
        rw [Option.map_some, Option.bind_some, Node.at?_singleton, hd]
        rfl

theorem appends_eq_nil : Appends fun _ as => as = [] where
  nil := rfl
  append := by
    rintro _ _ _ _ rfl rfl
    rfl

/-- Where documents are inlined, free-form entries that are searched have no reference. -/
theorem searchedReferences_of_inlines {key : String}
    (h : Difference.WithDistinctKeys r.Inlines (searchedPointers false key n) n n') :
    searchedReferences key n' = [] :=
  searchedReferences_of_differs r.leadsDown_inlineAt.descends.withDistinctKeys
    (fun h => h.distinct) appends_eq_nil modelReferences_of_inlines h

/-- A tree in which nothing refers to a document stays when documents are inlined. -/
theorem eq_of_inlines_of_referencesAt_eq_nil {ps : List Pointer} (h : r.Inlines ps n n')
    (hr : referencesAt ps n = []) : n' = n := by
  induction ps with
  | nil => exact Editor.edits_nil.1 h
  | cons p ps ih =>
    obtain ⟨m, hp, hps⟩ := Editor.edits_cons.1 h
    rw [referencesAt, List.filterMap_cons] at hr
    rcases Resolver.inlineAt_eq_ok.1 hp with ⟨hu, rfl⟩ | ⟨_, _, hu, -, -⟩
    · rw [hu] at hr
      exact ih hps hr
    · rw [hu] at hr
      cases hr

end ResourcePosition

/-! ## What is left in documents -/

/-- **In a task whose documents are inlined, no free-form entry that is searched has a reference.**
-/
theorem Task.Inlines.not_findsFree {t t' : Task} (h : t.Inlines r t') (ht : codec.IsRead t)
    (reference : String) : ¬Collector.references.FindsFree reference t' := by
  rintro ⟨key, hk, v', hv', hm⟩
  obtain ⟨n, hn, hr⟩ := ht
  have hd : t.toNode.distinctKeys = true :=
    Codec.DistinctBelow.distinct_of_read (Node.Below.of_distinct hn) hr
  obtain ⟨fields, kind, extra⟩ := t
  obtain ⟨-, m, hi, hr⟩ := h
  have hi : r.Inlines _ (mk fields kind extra).toNode m := hi
  have hd' := Resolver.distinctKeys_of_inlines hi hd
  have he : Difference.WithDistinctKeys r.Inlines _ _ m := ⟨hd, hd', hi⟩
  rw [toNode_mk] at he
  obtain ⟨es, rfl, hes⟩ :=
    r.leadsDown_inlineAt.descends.withDistinctKeys.mapping (deep_taskPointers _) he
  have hv' : Entries.get? es key = some v' :=
    Entries.get?_of_mem (Node.distinctKeys_mapping.1 hd').1
      (freeEntries_subset_of_read hr (Entries.mem_of_get? hv'))
  cases hv : Entries.get? (assemble fields (kind.toNode codec) extra) key with
  | none =>
    rw [hes.agree.get?_eq_none.2 hv] at hv'
    cases hv'
  | some v =>
    obtain ⟨w, hw, he⟩ := hes.values hv
    obtain rfl := Option.some.inj (hw.symm.trans hv')
    rw [below_taskPointers_of_misread hk hv] at he
    have hnil : searchedReferences key w = [] := searchedReferences_of_inlines he
    have hm : reference ∈ searchedReferences key w := hm
    rw [hnil] at hm
    cases hm

namespace Workflow

variable {w w' : Workflow}

/-- The free-form entry of a document that is searched has no reference when documents are
inlined. -/
theorem searchedReferences_of_resolves {m v' : Node}
    (h : Difference.WithDistinctKeys r.Inlines (documentPointers false (codec.write w))
      (codec.write w) m)
    (hr : codec.read m = .ok w') (hv : w'.extra.get? "export" = some v') :
    searchedReferences "export" v' = [] := by
  obtain ⟨es, hes⟩ : ∃ es, codec.write w = .mapping es := ⟨_, rfl⟩
  rw [hes] at h
  obtain ⟨es', rfl, he⟩ :=
    r.leadsDown_inlineAt.descends.withDistinctKeys.mapping (deep_documentPointers _) h
  obtain ⟨-, hx⟩ := (Codec.openRecord_read_mapping (.computed rfl)).1 hr
  rw [OrderedMap.get?, ← hx, Entries.get?_splitKeys_snd _ (by decide)] at hv
  cases hg : Entries.get? es "export" with
  | none =>
    rw [he.agree.get?_eq_none.2 hg] at hv
    cases hv
  | some v =>
    obtain ⟨u, hu, he⟩ := he.values hg
    obtain rfl := Option.some.inj (hu.symm.trans hv)
    rw [below_documentPointers_of_model (by decide), hg] at he
    exact searchedReferences_of_inlines he

variable (hn : n.distinctKeys = true) (hw : codec.decode n = .ok w)
include hn hw

/-- **A document that is resolved refers to no schema.** -/
theorem schemaReferences_of_resolves (h : r.Resolves w w') : w'.schemaReferences = [] := by
  have hr := Codec.decode_eq_ok.1 hw
  have hk : codec.Keeps w := Codec.StableBelow.keeps_of_read (Node.Below.of_distinct hn) hr
  have hf : ∀ c, w.components = some c → c.functions.keys.Nodup :=
    fun _ => nodup_functions_of_read hn hr
  obtain ⟨m, hm, hr'⟩ := h
  have hi : codec.ReadsInlined r (documentPointers false (codec.write w)) w w' :=
    ⟨m, hm.differs, hr'⟩
  rw [schemaReferences_eq hm.distinct' hr', List.eq_nil_iff_forall_not_mem]
  intro reference hmem
  rcases finds_of_mem_collect hmem with ⟨s', hs', hp, hm'⟩ | ⟨t', ht', h⟩ | ⟨v, hv, hmem⟩
  · obtain ⟨s, -, hs⟩ := forall₂_exists_left (settlesAt_schemas hk hf hi) hs'
    have hnone : s'.schema.resource = none := hs.resource_eq_none_iff.2 fun hsearched => by
      rw [hs.1, hsearched] at hp
      cases hp
    obtain ⟨x, hx, -⟩ := List.mem_map.1 hm'
    rw [hnone] at hx
    cases hx
  · obtain ⟨t, ht, hi⟩ := forall₂_exists_left (inlines_allTasks hk hf hi) ht'
    exact hi.not_findsFree (isRead_of_mem_allTasks hn hr ht) reference h
  · have hmem : reference ∈ searchedReferences "export" v := hmem
    rw [searchedReferences_of_resolves hm hr' hv] at hmem
    cases hmem

/-- **A document that refers to no schema is resolved to itself**, without asking for anything. -/
theorem outcome_of_schemaReferences_eq_nil (r : Resolver) (h : w.schemaReferences = []) :
    (r.resolveWorkflow w).outcome = (.ok w, []) := by
  have hk : codec.read (codec.write w) = .ok w :=
    Codec.StableBelow.keeps_of_read (Node.Below.of_distinct hn) (Codec.decode_eq_ok.1 hw)
  cases r.serves_resolveWorkflow hn hw [] with
  | stops hr =>
    rw [h] at hr
    exact absurd hr (by simp)
  | all hx _ hu ha =>
    rw [h] at hu
    cases hu
    obtain ⟨m, hm, hr⟩ := ha
    rw [schemaReferences_eq_documentReferences, documentReferences] at h
    rw [eq_of_inlines_of_referencesAt_eq_nil hm.differs h] at hr
    rw [hx.outcome, Except.ok.inj (hr.symm.trans hk)]

end Workflow

end WorkflowDsl
