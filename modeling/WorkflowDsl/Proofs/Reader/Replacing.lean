import WorkflowDsl.Proofs.Reader.Blanking
import WorkflowDsl.Proofs.Reader.Leaving
import WorkflowDsl.Proofs.Reader.Likewise
import WorkflowDsl.Proofs.Reader.Outcome

/-!
# Workflows with replaced references

A document whose relative references are replaced is read just when it was before, and is the same
up to the replacement (`Workflow.rel_read_rebaseResources`). If what replaces a reference means the
same, and is replaced by itself, then the document is also resolved as before: the same URLs are
asked for, and the schemas hold the same documents in the end (`Resolver.alike_resolveWorkflow`).
-/

namespace WorkflowDsl

open ResourcePosition

variable {f : String → String}

/-! ## Up to a replacement -/

theorem Schema.mapUri_mapUri (hf : ∀ s, f (f s) = f s) (s : Schema) :
    (s.mapUri f).mapUri f = s.mapUri f := by
  obtain ⟨format, document, _ | ⟨name, ⟨uri, authentication⟩ | uri⟩⟩ := s <;>
    simp [mapUri, ExternalResource.mapUri, Endpoint.mapUri, EndpointProperties.mapUri, hf]

/-- Leaves schemas up to the replacement of their references, and the replaced references of
free-form entries. -/
def Masking.replacing (f : String → String) : Masking where
  schema := Schema.mapUri f
  entry key v := .sequence (((searchedReferences key v).map f).map .string)

theorem Masking.ignores_replacing (hf : ∀ s, f (f s) = f s) : (replacing f).Ignores f where
  schema s := s.mapUri_mapUri hf
  entry {key v v'} h := by
    have hm : ((searchedReferences key v).map f).map f = (searchedReferences key v).map f := by
      rw [List.map_map]
      exact List.map_congr_left fun s _ => hf s
    rw [replacing]
    dsimp only
    rw [h, hm]

/-- Collects the references that are left. -/
def Collector.left : Collector String where
  schema := Collector.references.schema
  entry
    | _, .sequence ns => ns.filterMap Node.string?
    | _, _ => []

theorem Masking.collects_replacing (f : String → String) :
    (replacing f).Collects .references .left f where
  schema s := by
    obtain ⟨format, document, resource⟩ := s
    cases resource with
    | none => rfl
    | some x => exact congrArg (fun uri => [uri]) (x.uri_mapUri f)
  entry key v := by
    show (((searchedReferences key v).map f).map Node.string).filterMap Node.string? =
      (searchedReferences key v).map f
    rw [List.filterMap_map]
    exact List.filterMap_some

namespace Workflow

/-- The workflows are the same but for references that are replaced by the same. -/
def AlikeUnder (f : String → String) (w w' : Workflow) : Prop :=
  w'.maskedBy (.replacing f) true = w.maskedBy (.replacing f) true

variable {n : Node} {w w' : Workflow} {rebase : String → Option String}

/-- **A document with replaced references is read just when it was before**, and is the same up to
the replacement. -/
theorem rel_read_rebaseResources (hn : n.distinctKeys = true)
    (hf : ∀ s, rebaseReference rebase (rebaseReference rebase s) = rebaseReference rebase s) :
    Option.Rel (AlikeUnder (rebaseReference rebase)) (codec.read n).toOption
      (codec.read (rebaseResources rebase n)).toOption := by
  have hμ := Masking.ignores_replacing hf
  have he := Revision.rebases_of_edits hn (edits_rebaseResources rebase n)
  cases h : codec.read n with
  | ok w =>
    obtain ⟨w', hw', hm⟩ := survives (R := .rebasing _ _ hμ) h he
    rw [hw']
    exact .some hm
  | error e =>
    cases h' : codec.read (rebaseResources rebase n) with
    | error e => exact .none
    | ok w' =>
      -- What is read afterwards was so before, as the positions are those of before.
      rw [← documentPointers_rebaseResources rebase] at he
      obtain ⟨w, hw, -⟩ := survives (R := .rebased _ _ hμ) h' he
      rw [h] at hw
      cases hw

variable (h : AlikeUnder f w w')
include h

theorem AlikeUnder.references : (w'.collect .references).map f = (w.collect .references).map f := by
  rw [← collect_maskedBy (Masking.collects_replacing f), h,
    collect_maskedBy (Masking.collects_replacing f)]

theorem AlikeUnder.schemas :
    w'.schemas.map (·.maskedBy (Schema.mapUri f)) = w.schemas.map (·.maskedBy (Schema.mapUri f)) :=
  w'.schemas_maskedBy.symm.trans ((congrArg Workflow.schemas h).trans w.schemas_maskedBy)

theorem AlikeUnder.masked : w'.masked true = w.masked true := by
  rw [← w'.masked_maskedBy, h, w.masked_maskedBy]

end Workflow

/-! ## Resolving -/

namespace Resolver

variable {r : Resolver} (hf : ∀ s, meaning r.base (f s) = meaning r.base s)
include hf

/-- References that are replaced by the same mean the same document. -/
theorem document_eq_of_replaced {x x' : String} {d d' : Node} (hx : f x' = f x)
    (hd : r.document x = .ok d) (hd' : r.document x' = .ok d') : d' = d := by
  have hm : meaning r.base x' = meaning r.base x := by rw [← hf, hx, hf]
  have ht := toOption_document_congr hm
  rw [hd, hd'] at ht
  exact Option.some.inj ht

/-- Schemas that are the same up to the replacement are settled in the same way. -/
theorem settles_eq {s s' t t' : Schema} (hs : s'.mapUri f = s.mapUri f) (h : r.Settles s t)
    (h' : r.Settles s' t') : t' = t := by
  obtain ⟨format, document, resource⟩ := s
  obtain ⟨format', document', resource'⟩ := s'
  obtain ⟨rfl, rfl, hr⟩ := Schema.mk.inj hs
  cases resource with
  | none =>
    cases resource' with
    | none => exact h'.trans h.symm
    | some x' => cases hr
  | some x =>
    cases resource' with
    | none => cases hr
    | some x' =>
      obtain ⟨d, hd, rfl⟩ := h
      obtain ⟨d', hd', rfl⟩ := h'
      have hu := congrArg ExternalResource.uri (Option.some.inj hr)
      rw [ExternalResource.uri_mapUri, ExternalResource.uri_mapUri] at hu
      rw [document_eq_of_replaced hf hu hd hd']

theorem settlesAt_eq {s s' t t' : PlacedSchema}
    (hs : s'.maskedBy (Schema.mapUri f) = s.maskedBy (Schema.mapUri f)) (h : r.SettlesAt s t)
    (h' : r.SettlesAt s' t') : t' = t := by
  have hplace (s : PlacedSchema) : (s.maskedBy (Schema.mapUri f)).place = s.place := by
    rw [PlacedSchema.maskedBy]
    split <;> rfl
  have hp : s'.place = s.place := by rw [← hplace s', hs, hplace]
  obtain ⟨ht, h⟩ := h
  obtain ⟨ht', h'⟩ := h'
  rw [PlacedSchema.maskedBy, PlacedSchema.maskedBy, hp] at hs
  rw [hp] at ht' h'
  obtain ⟨place, schema⟩ := t
  obtain ⟨place', schema'⟩ := t'
  obtain rfl : place' = place := ht'.trans ht.symm
  refine congrArg (PlacedSchema.mk place') ?_
  split at h
  · next hsearched =>
    rw [if_pos hsearched] at h'
    rw [if_pos hsearched, if_pos hsearched] at hs
    exact settles_eq hf (congrArg PlacedSchema.schema hs) h h'
  · next hsearched =>
    rw [if_neg hsearched] at h'
    rw [if_neg hsearched, if_neg hsearched] at hs
    exact h'.trans ((congrArg PlacedSchema.schema hs).trans h.symm)

theorem forall₂_settlesAt_eq {ss ss' ts ts' : List PlacedSchema}
    (hs : ss'.map (·.maskedBy (Schema.mapUri f)) = ss.map (·.maskedBy (Schema.mapUri f)))
    (h : List.Forall₂ r.SettlesAt ss ts) (h' : List.Forall₂ r.SettlesAt ss' ts') : ts' = ts := by
  induction h generalizing ss' ts' with
  | nil =>
    obtain rfl := List.map_eq_nil_iff.1 hs
    cases h'
    rfl
  | cons h _ ih =>
    cases h' with
    | nil => cases hs
    | cons h' hs' =>
      obtain ⟨hs, hss⟩ := List.cons.inj hs
      rw [settlesAt_eq hf hs h h', ih hss hs']

/-- **Workflows that are the same up to a replacement are resolved alike**, if what replaces a
reference means the same. -/
theorem alike_resolveWorkflow {n n' : Node} {w w' : Workflow} (hn : n.distinctKeys = true)
    (hn' : n'.distinctKeys = true) (hw : Workflow.codec.decode n = .ok w)
    (hw' : Workflow.codec.decode n' = .ok w') (h : w.AlikeUnder f w') :
    (r.resolveWorkflow w).Alike
      (fun v v' => v'.schemas = v.schemas ∧ v'.masked true = v.masked true)
      (r.resolveWorkflow w') := by
  have hk : w.schemaReferences.map (meaning r.base) = w'.schemaReferences.map (meaning r.base) := by
    have hm : (meaning r.base) = fun s => meaning r.base (f s) := (funext hf).symm
    have hr := congrArg (List.map (meaning r.base)) h.references
    rw [List.map_map, List.map_map] at hr
    rw [w.schemaReferences_eq hn (Codec.decode_eq_ok.1 hw),
      w'.schemaReferences_eq hn' (Codec.decode_eq_ok.1 hw'), hm]
    exact hr.symm
  have hx := serves_resolveWorkflow (r := r) hn hw []
  have hy := serves_resolveWorkflow (r := r) hn' hw' []
  refine (hx.alike determinedBy_meaning hk hy).imp fun v v' hv hv' _ => ⟨?_, ?_⟩
  · exact forall₂_settlesAt_eq hf h.schemas (Workflow.forall₂_settlesAt hn hw hv)
      (Workflow.forall₂_settlesAt hn' hw' hv')
  · have hm := Workflow.masked_of_resolveWorkflow hn hw (Resolution.gives_of_outcome hv)
    have hm' := Workflow.masked_of_resolveWorkflow hn' hw' (Resolution.gives_of_outcome hv')
    rw [← v.masked_masked, ← v'.masked_masked, hm, hm', w.masked_masked, w'.masked_masked, h.masked]

end Resolver

end WorkflowDsl
