import WorkflowDsl.Proofs.Reader.Differing
import WorkflowDsl.Proofs.Reader.Rebasing

/-!
# Revised documents

A `Revision` is a difference in the external resources of documents, with a masking that leaves the
same of schemas that differ in this way, and of the free-form entries that are searched. The URIs of
resources may be replaced (`Revision.rebasing`), which is also seen from the document that results
(`Revision.rebased`), and documents may be inlined at schemas (`Revision.inlining`).

All documents here have distinct keys, so that what stands under a key is a matter of the key.
-/

namespace WorkflowDsl

open Pointer (below)
open ResourcePosition

/-- The masking leaves the same whether `f` is applied to the URIs of schemas, and to the references
in free-form entries, or not. -/
structure Masking.Ignores (μ : Masking) (f : String → String) : Prop where
  schema : ∀ s : Schema, μ.schema (s.mapUri f) = μ.schema s
  entry : ∀ {key v v'}, searchedReferences key v' = (searchedReferences key v).map f →
    μ.entry key v' = μ.entry key v

theorem Masking.Ignores.hiding (f : String → String) : Masking.hiding.Ignores f :=
  ⟨fun _ => rfl, fun _ => rfl⟩

/-- What changes the external resources of a document: of all kinds, or those of schemas alone. -/
structure Revision where
  all : Bool
  Revises : Difference
  masking : Masking
  descends : Revises.Descends
  distinct : ∀ {ps n n'}, Revises ps n n' → n.distinctKeys = true
  schema : ∀ {n n' s}, Revises [["resource"]] n n' → Schema.codec.read n = .ok s →
    Yields masking.schema (Schema.codec.read n') s
  resource : ∀ {n n' x}, all = true → Revises [[]] n n' → ExternalResource.codec.read n = .ok x →
    ∃ y, ExternalResource.codec.read n' = .ok y
  /-- A resource that stands under a key is revised there. -/
  shallow : ∀ {key es n'}, all = true → Revises [[key]] (.mapping es) n' →
    ∃ es', n' = .mapping es' ∧ Revises.Entrywise [[key]] es es'
  entry : ∀ {key v v'}, Revises (searchedPointers all key v) v v' →
    masking.entry key v' = masking.entry key v

namespace Revision

/-- What is left of a task when it is revised. -/
abbrev maskTask (R : Revision) : Task → Task := Task.maskedBy R.masking R.all

variable {f : String → String} {μ : Masking} {n n' v v' : Node} {es : Object} {ps : List Pointer}
  {key : String}

/-! ## Rewriting URIs -/

/-- The tree `n'` is `n` with the URIs at the pointers replaced. -/
abbrev Rebases (f : String → String) : Difference :=
  Difference.WithDistinctKeys (rebaseAt f).Edits

theorem descends_rebases (f : String → String) : Difference.Descends (Rebases f) :=
  (leadsDown_rebaseAt f).descends.withDistinctKeys

theorem rebases_of_edits (hn : n.distinctKeys = true) (h : (rebaseAt f).Edits ps n n') :
    Rebases f ps n n' := ⟨hn, distinctKeys_of_edits_rebaseAt h hn, h⟩

theorem eq_of_rebases {p : Pointer} (h : Rebases f [p] n n') :
    n' = n.modifyAt (rebaseResource f) p := edits_rebaseAt_singleton.1 h.differs

theorem entrywise_of_rebases (h : Rebases f [[key]] (.mapping es) n') :
    ∃ es', n' = .mapping es' ∧ Difference.Entrywise (Rebases f) [[key]] es es' := by
  obtain ⟨es', hn', ha, hv⟩ := Node.modifyAt_entry (rebaseResource f) key [] es
  obtain rfl : n' = .mapping es' := (eq_of_rebases h).trans hn'
  have hb : below key [[key]] = [[]] := Pointer.below_cons_self key [] []
  refine ⟨es', rfl, ha.imp fun k hk => ?_, fun {k v} hk => ?_⟩
  · rw [hk, hb]
    exact List.cons_ne_nil _ _
  · have hd := (Node.distinctKeys_mapping.1 h.distinct).2 _ (Entries.mem_of_get? hk)
    by_cases hkey : key = k
    · subst hkey
      refine ⟨_, hv hk, ?_⟩
      rw [hb]
      exact rebases_of_edits hd (edits_rebaseAt_singleton.2 rfl)
    · refine ⟨v, (ha.get?_eq (Ne.symm hkey)).symm.trans hk, ?_⟩
      rw [Pointer.below_cons_of_ne hkey]
      exact rebases_of_edits hd (Editor.edits_nil.2 rfl)

theorem schema_mapUri (hμ : μ.Ignores f) {g : String → String} (hg : g = id ∨ g = f) (s : Schema) :
    μ.schema (s.mapUri g) = μ.schema s := by
  rcases hg with rfl | rfl
  · rw [Schema.mapUri_id]
  · exact hμ.schema s

/-- Replaces the URIs of resources. -/
def rebasing (f : String → String) (μ : Masking) (hμ : μ.Ignores f) : Revision where
  all := true
  Revises := Rebases f
  masking := μ
  descends := descends_rebases f
  distinct h := h.distinct
  schema {n n' s} h hs := by
    obtain ⟨g, hg, hr⟩ := Schema.exists_readsThrough f n
    rw [eq_of_rebases h]
    exact ⟨s.mapUri g, (hr _).2 ⟨s, hs, rfl⟩, schema_mapUri hμ hg s⟩
  resource {n n' x} _ h hx := by
    obtain ⟨g, -, hr⟩ := ExternalResource.exists_readsThrough f n
    rw [eq_of_rebases h]
    exact ⟨x.mapUri g, (hr _).2 ⟨x, hx, rfl⟩⟩
  shallow _ h := entrywise_of_rebases h
  entry h := hμ.entry (searchedReferences_of_differs (descends_rebases f) (fun h => h.distinct)
    (appends_isMapped f) (fun h => modelReferences_of_edits h.differs) h)

/-! ## Rewritten URIs -/

/-- The tree that is rewritten may be the one that is seen last. -/
theorem modelReferences_of_rebases_flip (h : (Rebases f).flip (modelSchema n) n n') :
    IsMapped f (modelReferences n') (modelReferences n) := by
  obtain ⟨-, -, h⟩ := h
  rcases modelSchema_cases n with hm | hm
  · rw [hm] at h
    have hr : modelReferences n = [] := by rw [modelReferences, hm, referencesAt_nil]
    rw [← Editor.edits_nil.1 h, hr]
    rfl
  · rw [hm] at h
    exact modelReferences_of_edit (edits_rebaseAt_singleton.1 h)

/-- Replaces URIs by those that were there before. -/
def rebased (f : String → String) (μ : Masking) (hμ : μ.Ignores f) : Revision where
  all := true
  Revises := (Rebases f).flip
  masking := μ
  descends := (descends_rebases f).flip
  distinct h := h.distinct'
  schema {n n' s} h hs := by
    obtain ⟨g, hg, hr⟩ := Schema.exists_readsThrough f n'
    rw [eq_of_rebases h] at hs
    obtain ⟨t, ht, rfl⟩ := (hr s).1 hs
    exact ⟨t, ht, (schema_mapUri hμ hg t).symm⟩
  resource {n n' x} _ h hx := by
    obtain ⟨g, -, hr⟩ := ExternalResource.exists_readsThrough f n'
    rw [eq_of_rebases h] at hx
    obtain ⟨y, hy, -⟩ := (hr x).1 hx
    exact ⟨y, hy⟩
  shallow {key es n'} _ h := by
    have hk := (descends_rebases f).kind h
    cases n' with
    | mapping es' =>
      obtain ⟨_, he, hes⟩ := entrywise_of_rebases h
      obtain rfl := Node.mapping.inj he
      exact ⟨es', rfl, hes.flip⟩
    | _ => cases hk
  entry h := Eq.symm <| hμ.entry <| searchedReferences_of_differs
    (r := fun as as' => IsMapped f as' as) (descends_rebases f).flip (fun h => h.distinct')
    ⟨rfl, fun h h' => (appends_isMapped f).append h h'⟩ modelReferences_of_rebases_flip h

/-! ## Inlining documents -/

/-- **A schema is read when a document takes the place of its resource.** -/
theorem exists_read_inlineDocument {s : Schema} (hn : n.distinctKeys = true) (d : Node)
    (hs : Schema.codec.read n = .ok s) :
    ∃ s', Schema.codec.read (Resolver.inlineDocument d n) = .ok s' := by
  cases n with
  | mapping es =>
    obtain ⟨hn, -⟩ := Node.distinctKeys_mapping.1 hn
    obtain ⟨hf, -⟩ := (Codec.record_read_mapping Schema.lawful).1 hs
    have hg {key : String} (hd : "document" ≠ key) (hr : "resource" ≠ key) :
        Entries.get? (Entries.insert (Entries.swapErase es "resource") "document" d) key =
          Entries.get? es key := by
      rw [Entries.get?_insert_of_ne hd, Entries.get?_swapErase_of_ne hn hr]
    have hres : Entries.get? (Entries.insert (Entries.swapErase es "resource") "document" d)
        "resource" = none := by
      rw [Entries.get?_insert_of_ne (by decide), Entries.get?_eq_none_iff]
      exact Entries.not_mem_keys_swapErase hn _
    obtain ⟨x, hx⟩ : ∃ x, Codec.node.option.read d = .ok x := by
      cases d <;> exact ⟨_, rfl⟩
    refine ⟨⟨s.format, x, none⟩, (Codec.record_read_mapping Schema.lawful).2 ⟨?_, ?_, ?_, trivial⟩⟩
    · exact (Field.readEntry_congr (hg (by decide) (by decide))).2 hf
    · exact (Field.readEntry_of_get? (Entries.get?_insert_self _ _ _)).2 hx
    · exact (Field.readEntry_of_absent hres).2 rfl
  | _ => exact ⟨s, hs⟩

/-- Inlines the documents of schemas. -/
def inlining (r : Resolver) : Revision where
  all := false
  Revises := Difference.WithDistinctKeys r.Inlines
  masking := .hiding
  descends := r.leadsDown_inlineAt.descends.withDistinctKeys
  distinct h := h.distinct
  schema {n n' s} h hs := by
    obtain ⟨hn, -, h⟩ := h
    obtain ⟨m, hm, hn'⟩ := Editor.edits_cons.1 h
    obtain rfl := Editor.edits_nil.1 hn'
    rcases Resolver.inlineAt_eq_ok.1 hm with ⟨-, rfl⟩ | ⟨_, d, -, -, rfl⟩
    · exact ⟨s, hs, rfl⟩
    · obtain ⟨s', hs'⟩ := exists_read_inlineDocument hn d hs
      exact ⟨s', hs', rfl⟩
  resource := nofun
  shallow := nofun
  entry _ := rfl

end Revision

end WorkflowDsl
