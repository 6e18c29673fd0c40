import WorkflowDsl.Proofs.Model.Nesting
import WorkflowDsl.Proofs.Reader.ReadInlined

/-!
# Schemas that are resolved

`Resolver.Settles` says what resolution makes of a schema: it puts the document in the place of the
resource. A schema stands in a data model, at a `SchemaPlace`, and only some places are searched for
external resources; `Resolver.SettlesAt` says what becomes of a schema at its place. A data model
that is read from what another one is written as, with a document inlined at its schema, has that
schema settled (`Codec.settlesAt_of_optional_model`).
-/

namespace WorkflowDsl

open Pointer (below)
open ResourcePosition

variable {r : Resolver}

theorem ExternalResource.resourceUri?_write (x : ExternalResource) :
    resourceUri? (codec.write x) = some x.uri := by
  obtain ⟨_ | name, ⟨uri, _ | a⟩ | uri⟩ := x <;> rfl

theorem ExternalResource.isSome_endpoint_write (x : ExternalResource) :
    ((codec.write x).get? "endpoint").isSome = true := by
  obtain ⟨_ | name, endpoint⟩ := x <;> rfl

namespace Schema

/-- The entries before that of the resource. -/
def innerEntries (s : Schema) : Object :=
  (if s.format = "json" then [] else [("format", .string s.format)])
    ++ (s.document.map fun d => ("document", d)).toList

theorem write_eq (s : Schema) :
    codec.write s = .mapping (s.innerEntries
      ++ (s.resource.map fun x => ("resource", ExternalResource.codec.write x)).toList) := by
  obtain ⟨format, document, resource⟩ := s
  refine congrArg Node.mapping ?_
  rw [innerEntries]
  by_cases hf : format = "json"
  · subst hf
    cases document <;> cases resource <;> rfl
  · rw [Fields.writeEntries_more, Field.written, if_neg, if_neg hf]
    · cases document <;> cases resource <;> rfl
    · simpa [Field.omitted] using hf

theorem resource_not_mem_innerEntries (s : Schema) : "resource" ∉ Entries.keys s.innerEntries := by
  rw [innerEntries, Entries.keys_append]
  cases s.document <;> split <;> simp

/-- The resource of a schema stands under its key. -/
theorem child?_write (s : Schema) :
    (codec.write s).child? "resource" = s.resource.map ExternalResource.codec.write := by
  rw [write_eq]
  show Entries.get? _ _ = _
  rw [Entries.get?_append_of_not_mem_left _ s.resource_not_mem_innerEntries]
  cases s.resource <;> rfl

/-- Inlining a document makes of a written schema what the schema that holds the document is written
as. -/
theorem inlineDocument_write {s : Schema} {x : ExternalResource} (h : s.resource = some x)
    (d : Node) :
    Resolver.inlineDocument d (codec.write s) =
      codec.write { s with document := some d, resource := none } := by
  have he := Entries.swapErase_concat (e := ("resource", ExternalResource.codec.write x))
    s.resource_not_mem_innerEntries
  rw [write_eq, write_eq, h]
  show Node.mapping (Entries.insert (Entries.swapErase _ _) _ _) = _
  rw [Option.map_some, Option.toList_some, he]
  obtain ⟨format, document, resource⟩ := s
  simp only [innerEntries]
  cases document <;> split <;> rfl

end Schema

/-! ## What resolution makes of a schema -/

/-- A schema that is external holds, when it is resolved, the document that its resource means. A
document that is null is none. Other schemas stay. -/
def Resolver.Settles (r : Resolver) (s s' : Schema) : Prop :=
  match s.resource with
  | none => s' = s
  | some x => ∃ d, r.document x.uri = .ok d ∧
    s' = { s with document := if d.isNull then none else some d, resource := none }

namespace Schema

theorem lawful : Fields.Lawful Schema.mk
    (.more (.omitted "format" .string "json" (· == "json") (·.format)) <|
      .more (.optional "document" .node (·.document)) <|
      .more (.optional "resource" ExternalResource.codec (·.resource)) .done) :=
  (.computed rfl)

/-- A schema that holds a document is read with that document, if it is not null. -/
theorem eq_of_readsBack {s s' : Schema} {d : Node}
    (h : codec.ReadsBack { s with document := some d, resource := none } s') :
    s' = { s with document := if d.isNull then none else some d, resource := none } := by
  obtain ⟨hf, hd, hr, -⟩ := (Codec.record_readsBack_iff lawful).1 h
  have hf : s'.format = s.format := hf.eq_of_keeps (Field.Keeping.keeps _)
  have hr : s'.resource = none := (Option.some.inj hr).symm
  have hd : Codec.node.option.ReadsBack (some d) s'.document := Field.optional_readsBack_iff.1 hd
  obtain ⟨format, document, resource⟩ := s'
  obtain rfl : format = s.format := hf
  obtain rfl : resource = none := hr
  refine congrArg (Schema.mk _ · _) ?_
  by_cases hn : d = .null
  · subst hn
    exact (Codec.option_readsBack_null rfl).1 hd
  · obtain ⟨b, hb, rfl⟩ := (Codec.option_readsBack_some (c := .node) hn).1 hd
    obtain rfl : d = b := Except.ok.inj hb
    cases d <;> first | exact absurd rfl hn | rfl

/-- A schema is settled when a document is inlined at its resource, if it has one. -/
theorem settles_of_readsInlined {s s' : Schema} (hk : codec.Keeps s)
    (h : codec.ReadsInlined r (if s.resource.isSome then [["resource"]] else []) s s') :
    r.Settles s s' := by
  rw [Resolver.Settles]
  cases hx : s.resource with
  | none =>
    rw [hx] at h
    exact h.eq_of_keeps hk
  | some x =>
    rw [hx] at h
    obtain ⟨n, hi, hr⟩ := h
    obtain ⟨m, hm, hi⟩ := Editor.edits_cons.1 hi
    obtain rfl := Editor.edits_nil.1 hi
    have hu : ((codec.write s).at? ["resource"]).bind resourceUri? = some x.uri := by
      show (((codec.write s).child? "resource").bind _).bind _ = _
      rw [child?_write, hx]
      exact x.resourceUri?_write
    rw [Resolver.inlineAt, hu] at hm
    obtain ⟨d, hd, rfl⟩ := except_map_eq_ok.1 hm
    have hr : codec.read (Resolver.inlineDocument d (codec.write s)) = .ok s' := hr
    rw [inlineDocument_write hx] at hr
    exact ⟨d, hd, eq_of_readsBack hr⟩

end Schema

/-! ## Places of schemas -/

/-- Where a schema stands: in a data model of a document or of a task, or in one for each event that
a task listens for. -/
inductive SchemaPlace where
  | input
  | output
  | export_
  | eachOutput
  | eachExport
deriving DecidableEq, Repr

/-- Whether external resources are looked for at the place. -/
def SchemaPlace.isSearched : SchemaPlace → Bool
  | input | output | export_ => true
  | eachOutput | eachExport => false

structure PlacedSchema where
  place : SchemaPlace
  schema : Schema

/-- A schema that may be missing, at a place. -/
def placed (place : SchemaPlace) (schema : Option Schema) : List PlacedSchema :=
  schema.toList.map fun s => ⟨place, s⟩

/-- The schema is external by a reference, and stands where external resources are looked for. -/
def PlacedSchema.Names (s : PlacedSchema) (reference : String) : Prop :=
  s.place.isSearched = true ∧ ∃ x, s.schema.resource = some x ∧ x.uri = reference

/-- A schema stays at its place. It is settled if external resources are looked for there, and else
the same. -/
def Resolver.SettlesAt (r : Resolver) (s s' : PlacedSchema) : Prop :=
  s'.place = s.place ∧
    if s.place.isSearched then r.Settles s.schema s'.schema else s'.schema = s.schema

theorem settlesAt_placed {place : SchemaPlace} (hp : place.isSearched = true) {x y : Option Schema}
    (h : Option.Rel r.Settles x y) :
    List.Forall₂ r.SettlesAt (placed place x) (placed place y) := by
  cases h with
  | none => exact .nil
  | some h =>
    refine .cons ⟨rfl, ?_⟩ .nil
    rw [hp]
    exact h

theorem settlesAt_placed_self {place : SchemaPlace} (hp : place.isSearched = false)
    (x : Option Schema) : List.Forall₂ r.SettlesAt (placed place x) (placed place x) := by
  cases x with
  | none => exact .nil
  | some s =>
    refine .cons ⟨rfl, ?_⟩ .nil
    rw [hp]
    exact rfl

/-! ## Data models -/

namespace Codec

variable {ρ : Type} {name key : String} {make : Option Schema → Option Node → ρ}
  {schema : ρ → Option Schema} {content : ρ → Option Node} {x y : ρ}

/-- The fields of a data model: a schema, and a node under `key`. -/
abbrev modelFields (schema : ρ → Option Schema) (key : String) (content : ρ → Option Node) :
    Fields ρ ρ (Option Schema → Option Node → ρ) :=
  .more (.optional "schema" Schema.codec schema) <| .more (.optional key .node content) .done

/-- The codec of a data model. -/
abbrev model (name : String) (make : Option Schema → Option Node → ρ) (schema : ρ → Option Schema)
    (key : String) (content : ρ → Option Node) : Codec ρ :=
  record name make (modelFields schema key content)

section

variable (h : (modelFields schema key content).Lawful make)
include h

/-- The resource of the schema of a data model stands below its key. -/
theorem model_write_at? (name : String) (x : ρ) :
    ((model name make schema key content).write x).at? ["schema", "resource"] =
      (schema x).bind fun s => s.resource.map ExternalResource.codec.write := by
  have hs : ((model name make schema key content).write x).child? "schema" =
      (schema x).map Schema.codec.write :=
    (Fields.holds_written? _ h.nodup_keys fun _ _ => rfl).1.trans (Field.optional_written? _)
  show (((model name make schema key content).write x).child? "schema").bind _ = _
  rw [hs, Option.bind_map]
  refine congrArg (Option.bind _) (funext fun s => ?_)
  show ((Schema.codec.write s).child? "resource").bind some = _
  rw [Schema.child?_write, Option.bind_fun_some]

/-- The schema of a data model is found by its resource. -/
theorem below_modelSchema_write (name : String) (x : ρ) :
    below "schema" (modelSchema ((model name make schema key content).write x)) =
      match schema x with
      | some s => if s.resource.isSome then [["resource"]] else []
      | none => [] := by
  rw [modelSchema, model_write_at? h]
  cases schema x with
  | none => rfl
  | some s =>
    rw [Option.bind_some]
    dsimp only
    cases s.resource with
    | none => rfl
    | some z =>
      rw [Option.map_some, Option.bind_some, z.isSome_endpoint_write]
      rfl

/-- The schema of a data model is settled. -/
theorem rel_of_model_readsInlined
    (hk : (model name make schema key content).Keeps x)
    (hr : (model name make schema key content).ReadsInlined r
      (modelSchema ((model name make schema key content).write x)) x y) :
    Option.Rel r.Settles (schema x) (schema y) := by
  obtain ⟨hf, -⟩ := record_readsInlined h (deep_modelSchema _) hr
  obtain ⟨hk, -⟩ := (record_keeps_iff h).1 hk
  have hf : Option.Rel (Schema.codec.ReadsInlined r (below "schema" _)) (schema x) (schema y) :=
    Field.rel_of_optional_readsInlined (c := Schema.codec) (fun _ => nofun) hf
  have hk : Schema.codec.option.Keeps (schema x) := Field.optional_keeps_iff.1 hk
  rw [below_modelSchema_write h] at hf
  generalize schema y = t at hf ⊢
  cases hs : schema x with
  | none =>
    rw [hs] at hf
    cases hf
    exact .none
  | some s =>
    rw [hs] at hf hk
    cases hf with
    | some hf => exact .some (Schema.settles_of_readsInlined (option_keeps_some.1 hk).2 hf)

/-- The schema of a data model that may be missing is settled at its place. -/
theorem settlesAt_of_optional_model {σ : Type} {field : String} {get : σ → Option ρ}
    {ps : List Pointer} {es : Object} {place : SchemaPlace} {x y : Option ρ}
    (hp : place.isSearched = true)
    (hps : below field ps = ((es.get? field).map modelSchema).getD [])
    (hw : es.get? field =
      (Field.optional field (model name make schema key content) get).written? x)
    (hk : (Field.optional field (model name make schema key content) get).Keeps x)
    (hr : (Field.optional field (model name make schema key content) get).ReadsInlined r
      (below field ps) x y) :
    List.Forall₂ r.SettlesAt (placed place (x.bind schema)) (placed place (y.bind schema)) := by
  have hrel := Field.rel_of_optional_readsInlined (c := model name make schema key content)
    (fun _ => nofun) hr
  rw [hps, hw, Field.optional_written?] at hrel
  refine settlesAt_placed hp ?_
  cases hrel with
  | none => exact .none
  | some hm =>
    exact rel_of_model_readsInlined h (option_keeps_some.1 (Field.optional_keeps_iff.1 hk)).2 hm

end

end Codec

end WorkflowDsl
