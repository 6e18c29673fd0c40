import WorkflowDsl.Proofs.Codec.Keyed
import WorkflowDsl.Proofs.Codec.Through
import WorkflowDsl.Proofs.Model.Lossless
import WorkflowDsl.Proofs.Reader.Reference
import WorkflowDsl.Proofs.Reader.Schemas

/-!
# Documents with other URIs

When the URI of a resource is replaced the resource is read just when it was before, and is the
same but for its URI (`ExternalResource.exists_readsThrough`); so is a schema that has it
(`Schema.exists_readsThrough`). Replacing URIs at pointers is editing (`rebaseAt`), and the
references of a document are replaced with them (`modelReferences_of_edits`).
-/

namespace WorkflowDsl

open Pointer (below)
open ResourcePosition

/-! ## Resources with other URIs -/

theorem kind_modifyText (f : String → String) (n : Node) : (n.modifyText f).kind = n.kind := by
  cases n <;> rfl

theorem kind_rebaseResource (f : String → String) (n : Node) :
    (rebaseResource f n).kind = n.kind := by
  refine Node.kind_modifyAt (fun endpoint => ?_) _ n
  cases endpoint with
  | mapping => exact Node.kind_modifyAt (kind_modifyText f) _ _
  | _ => exact kind_modifyText f _

theorem distinctKeys_modifyText (f : String → String) (n : Node) (h : n.distinctKeys = true) :
    (n.modifyText f).distinctKeys = true := by
  cases n with
  | string => rfl
  | _ => exact h

theorem distinctKeys_rebaseResource (f : String → String) (n : Node) (h : n.distinctKeys = true) :
    (rebaseResource f n).distinctKeys = true := by
  refine Node.distinctKeys_modifyAt (fun endpoint h => ?_) _ h
  cases endpoint with
  | mapping => exact Node.distinctKeys_modifyAt (distinctKeys_modifyText f) _ h
  | _ => exact distinctKeys_modifyText f _ h

/-- A text that is changed. -/
theorem string_readsThrough (f : String → String) (n : Node) :
    Codec.string.ReadsThrough f n (n.modifyText f) := by
  cases n with
  | string s =>
    intro b
    constructor
    · exact fun hb => ⟨s, rfl, Except.ok.inj hb⟩
    · rintro ⟨a, ha, rfl⟩
      rw [← Except.ok.inj ha]
      rfl
  | _ => exact Codec.readsThrough_self fun _ => nofun

/-- A node that may be absent is read through a change when the one there is. -/
theorem exists_readsThrough_of_mem {α : Type} {c : Codec α} {φ : (String → String) → α → α}
    {f : String → String} {F : Node → Node} (x : Option Node)
    (h : ∀ n, ∃ g, (g = id ∨ g = f) ∧ c.ReadsThrough (φ g) n (F n)) :
    ∃ g, (g = id ∨ g = f) ∧ ∀ n, x = some n → c.ReadsThrough (φ g) n (F n) := by
  cases x with
  | none => exact ⟨id, .inl rfl, nofun⟩
  | some n =>
    obtain ⟨g, hg, hr⟩ := h n
    refine ⟨g, hg, ?_⟩
    rintro _ ⟨⟩
    exact hr

namespace EndpointProperties

def mapUri (f : String → String) (p : EndpointProperties) : EndpointProperties :=
  { p with uri := f p.uri }

theorem lawful : Fields.Lawful EndpointProperties.mk
    (.more (.required "uri" .string (·.uri)) <|
      .more (.optional "authentication" AuthenticationReference.codec (·.authentication)) .done) :=
  (.computed rfl)

theorem readsThrough (f : String → String) (es : Object) :
    codec.ReadsThrough (mapUri f) (.mapping es)
      ((Node.mapping es).modifyAt (Node.modifyText f) ["uri"]) := by
  obtain ⟨es', he, hes, hu⟩ := Node.modifyAt_key (Node.modifyText f) "uri" es
  rw [he]
  refine Codec.record_readsThrough lawful (f, id, ()) ⟨?_, ?_, trivial⟩
  · exact Field.readsThrough_of_map hu nofun fun n _ => string_readsThrough f n
  · exact Field.readsThrough_id (hes.get?_eq (by decide))

end EndpointProperties

/-- Replaces the URI of an endpoint. -/
def rebaseEndpoint (f : String → String) (endpoint : Node) : Node :=
  match endpoint with
  | .mapping _ => endpoint.modifyAt (Node.modifyText f) ["uri"]
  | _ => endpoint.modifyText f

def Endpoint.mapUri (f : String → String) : Endpoint → Endpoint
  | .first p => .first (p.mapUri f)
  | .second uri => .second (f uri)

theorem Endpoint.mapUri_id (e : Endpoint) : mapUri id e = e := by
  cases e <;> rfl

/-- An endpoint with another URI is read through this. One that is a sequence keeps its URI. -/
theorem Endpoint.exists_readsThrough (f : String → String) (n : Node) :
    ∃ g, (g = id ∨ g = f) ∧ codec.ReadsThrough (mapUri g) n (rebaseEndpoint f n) := by
  cases n with
  | mapping es =>
    refine ⟨f, .inr rfl, Codec.oneOf_mapping_readsThrough (fun _ => rfl) ?_⟩
    exact EndpointProperties.readsThrough f es
  | string s => exact ⟨f, .inr rfl, Codec.oneOf_string_readsThrough (fun _ => rfl) s⟩
  | _ => exact ⟨id, .inl rfl, Codec.readsThrough_self fun e _ => mapUri_id e⟩

namespace ExternalResource

def mapUri (f : String → String) (x : ExternalResource) : ExternalResource :=
  { x with endpoint := Endpoint.mapUri f x.endpoint }

theorem mapUri_id (x : ExternalResource) : x.mapUri id = x :=
  congrArg (ExternalResource.mk x.name) (Endpoint.mapUri_id x.endpoint)

theorem uri_mapUri (f : String → String) (x : ExternalResource) : (x.mapUri f).uri = f x.uri := by
  obtain ⟨_, _ | _⟩ := x <;> rfl

theorem lawful : Fields.Lawful ExternalResource.mk
    (.more (.optional "name" .string (·.name)) <|
      .more (.required "endpoint" Endpoint.codec (·.endpoint)) .done) :=
  (.computed rfl)

/-- **A resource with another URI is read through this.** -/
theorem exists_readsThrough (f : String → String) (n : Node) :
    ∃ g, (g = id ∨ g = f) ∧ codec.ReadsThrough (mapUri g) n (rebaseResource f n) := by
  cases n with
  | mapping es =>
    obtain ⟨es', he, hes, hv⟩ := Node.modifyAt_key (rebaseEndpoint f) "endpoint" es
    obtain ⟨g, hg, hr⟩ := exists_readsThrough_of_mem (Entries.get? es "endpoint")
      (Endpoint.exists_readsThrough f)
    rw [show rebaseResource f (.mapping es) = .mapping es' from he]
    refine ⟨g, hg, Codec.record_readsThrough lawful (id, Endpoint.mapUri g, ()) ⟨?_, ?_, trivial⟩⟩
    · exact Field.readsThrough_id (hes.get?_eq (by decide))
    · exact Field.readsThrough_of_map hv (fun _ => nofun) hr
  | _ => exact ⟨id, .inl rfl, Codec.readsThrough_self fun x _ => mapUri_id x⟩

end ExternalResource

namespace Schema

def mapUri (f : String → String) (s : Schema) : Schema :=
  { s with resource := s.resource.map (ExternalResource.mapUri f) }

theorem mapUri_id (s : Schema) : s.mapUri id = s := by
  obtain ⟨format, document, resource⟩ := s
  cases resource with
  | none => rfl
  | some x => exact congrArg (fun x => Schema.mk format document (some x)) x.mapUri_id

/-- **A schema whose resource has another URI is read through this.** -/
theorem exists_readsThrough (f : String → String) (n : Node) :
    ∃ g, (g = id ∨ g = f) ∧
      codec.ReadsThrough (mapUri g) n (n.modifyAt (rebaseResource f) ["resource"]) := by
  cases n with
  | mapping es =>
    obtain ⟨es', he, hes, hv⟩ := Node.modifyAt_key (rebaseResource f) "resource" es
    obtain ⟨g, hg, hr⟩ := exists_readsThrough_of_mem (Entries.get? es "resource")
      (ExternalResource.exists_readsThrough f)
    rw [he]
    refine ⟨g, hg, Codec.record_readsThrough lawful
      (id, id, Option.map (ExternalResource.mapUri g), ()) ⟨?_, ?_, ?_, trivial⟩⟩
    · exact Field.readsThrough_id (hes.get?_eq (by decide))
    · exact Field.readsThrough_id (hes.get?_eq (by decide))
    · exact Field.readsThrough_optional (kind_rebaseResource f) hv hr
  | _ => exact ⟨id, .inl rfl, Codec.readsThrough_self fun s _ => mapUri_id s⟩

end Schema

/-! ## URIs at pointers -/

/-- The URI of a resource whose endpoint is a mapping stands in this. -/
theorem resourceUri?_of_mapping {es fs : Object} (h : es.get? "endpoint" = some (.mapping fs)) :
    resourceUri? (.mapping es) = (fs.get? "uri").bind Node.string? := by
  show (Entries.get? es "endpoint").bind _ = _
  rw [h]
  rfl

theorem resourceUri?_rebaseResource (f : String → String) (n : Node) :
    resourceUri? (rebaseResource f n) = (resourceUri? n).map f := by
  cases n with
  | mapping es =>
    obtain ⟨es', he, hes, hv⟩ := Node.modifyAt_entry (rebaseEndpoint f) "endpoint" [] es
    have he : rebaseResource f (.mapping es) = .mapping es' := he
    rw [he]
    cases hg : Entries.get? es "endpoint" with
    | none =>
      show (Entries.get? es' "endpoint").bind _ = ((Entries.get? es "endpoint").bind _).map f
      rw [hes.get?_eq_none.2 hg, hg]
      rfl
    | some endpoint =>
      have hg' : Entries.get? es' "endpoint" = some (rebaseEndpoint f endpoint) := hv hg
      cases endpoint with
      | mapping fs =>
        obtain ⟨fs', hf, hfs, hu⟩ := Node.modifyAt_entry (Node.modifyText f) "uri" [] fs
        have hf : rebaseEndpoint f (.mapping fs) = .mapping fs' := hf
        rw [hf] at hg'
        rw [resourceUri?_of_mapping hg, resourceUri?_of_mapping hg']
        cases hg : Entries.get? fs "uri" with
        | none =>
          rw [hfs.get?_eq_none.2 hg]
          rfl
        | some v =>
          have hg' : Entries.get? fs' "uri" = some (Node.modifyText f v) := hu hg
          rw [hg']
          cases v <;> rfl
      | _ =>
        show (Entries.get? es' "endpoint").bind _ = ((Entries.get? es "endpoint").bind _).map f
        rw [hg, hg']
        rfl
  | _ => rfl

/-- Replaces the URI of the resource at a pointer. -/
def rebaseAt (f : String → String) : Editor ReadError := fun n p =>
  .ok (n.modifyAt (rebaseResource f) p)

namespace ResourcePosition

variable {f : String → String} {n n' v v' : Node} {ps : List Pointer}

theorem leadsDown_rebaseAt (f : String → String) : (rebaseAt f).LeadsDown :=
  Editor.leadsDown_modifyAt (kind_rebaseResource f) fun _ => rfl

theorem edits_rebaseAt_singleton {p : Pointer} :
    (rebaseAt f).Edits [p] n n' ↔ n' = n.modifyAt (rebaseResource f) p := by
  rw [Editor.edits_cons]
  constructor
  · rintro ⟨m, hm, hn⟩
    rw [Editor.edits_nil.1 hn, Except.ok.inj hm]
  · rintro rfl
    exact ⟨_, rfl, Editor.edits_nil.2 rfl⟩

theorem distinctKeys_of_edits_rebaseAt (h : (rebaseAt f).Edits ps n n')
    (hn : n.distinctKeys = true) : n'.distinctKeys = true := by
  induction ps generalizing n with
  | nil => rwa [Editor.edits_nil.1 h]
  | cons p ps ih =>
    obtain ⟨m, hm, h⟩ := Editor.edits_cons.1 h
    obtain rfl := Except.ok.inj hm
    exact ih h (Node.distinctKeys_modifyAt (distinctKeys_rebaseResource f) p hn)

/-- A list of references with each replaced. -/
def IsMapped (f : String → String) (as as' : List String) : Prop := as' = as.map f

theorem appends_isMapped (f : String → String) : Appends (IsMapped f) where
  nil := rfl
  append := by
    rintro as _ bs _ rfl rfl
    exact List.map_append.symm

theorem modelReferences_of_edit (h : n' = n.modifyAt (rebaseResource f) ["schema", "resource"]) :
    IsMapped f (modelReferences n) (modelReferences n') := by
  rw [IsMapped, modelReferences_eq, modelReferences_eq, h, Node.at?_modifyAt]
  cases n.at? ["schema", "resource"] with
  | none => rfl
  | some x =>
    rw [Option.map_some, Option.bind_some, Option.bind_some, resourceUri?_rebaseResource]
    cases resourceUri? x <;> rfl

/-- **The references of a data model are replaced with its URIs.** -/
theorem modelReferences_of_edits (h : (rebaseAt f).Edits (modelSchema n) n n') :
    IsMapped f (modelReferences n) (modelReferences n') := by
  rcases modelSchema_cases n with hm | hm
  · rw [hm] at h
    have hr : modelReferences n = [] := by rw [modelReferences, hm, referencesAt_nil]
    rw [Editor.edits_nil.1 h, hr]
    rfl
  · rw [hm] at h
    exact modelReferences_of_edit (edits_rebaseAt_singleton.1 h)

end ResourcePosition

end WorkflowDsl
