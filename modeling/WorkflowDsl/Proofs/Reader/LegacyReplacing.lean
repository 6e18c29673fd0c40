import WorkflowDsl.Proofs.Legacy.Stable
import WorkflowDsl.Proofs.Reader.Likewise
import WorkflowDsl.Proofs.Reader.Rebasing

/-!
# Legacy workflows with replaced references

A legacy document whose relative references are replaced is read just when it was before, and has
the replaced references in its slots (`Legacy.Workflow.exists_readsThrough`). If what replaces a
reference means the same, then the workflow is also resolved to the same one, and the same URLs are
asked for (`Resolver.alike_resolveLegacy`).
-/

namespace WorkflowDsl

/-! ## Fields of documents -/

/-- Changes of fields one after another, each of which changes the entry of its field. -/
theorem foldl_modifyAt_mapping {F : String → Node → Node} {fields : List String}
    (hd : fields.Nodup) (es : Object) :
    ∃ es' : Object,
      fields.foldl (fun (n : Node) field => n.modifyAt (F field) [field]) (Node.mapping es) =
        .mapping es' ∧
      Entries.AgreeBut (· ∈ fields) es es' ∧
      ∀ field ∈ fields, Entries.get? es' field = (Entries.get? es field).map (F field) := by
  induction fields generalizing es with
  | nil => exact ⟨es, rfl, .refl _ es, nofun⟩
  | cons field fields ih =>
    obtain ⟨hf, hd⟩ := List.nodup_cons.1 hd
    obtain ⟨fs, hfs, ha, hv⟩ := Node.modifyAt_key (F field) field es
    obtain ⟨es', he, ha', hv'⟩ := ih hd fs
    refine ⟨es', ?_, ?_, ?_⟩
    · rw [List.foldl_cons, hfs, he]
    · refine (ha.imp fun key hk => ?_).trans (ha'.imp fun key hk => List.mem_cons_of_mem _ hk)
      exact List.mem_cons.2 (.inl hk)
    · intro key hk
      rcases List.mem_cons.1 hk with rfl | hk
      · rw [← ha'.get?_eq hf, hv]
      · rw [hv' key hk, ha.get?_eq (ne_of_mem_of_not_mem hk hf)]

theorem kind_foldl_modifyAt {F : String → Node → Node} (hF : ∀ field n, (F field n).kind = n.kind)
    (fields : List String) (n : Node) :
    (fields.foldl (fun n field => n.modifyAt (F field) [field]) n).kind = n.kind := by
  induction fields generalizing n with
  | nil => rfl
  | cons field fields ih =>
    rw [List.foldl_cons, ih]
    exact Node.kind_modifyAt (hF field) _ n

namespace Legacy

variable {f g : String → String}

/-! ## Slots with other references -/

/-- Replaces the reference that a field of a document holds. -/
def rebaseField (f : String → String) (field : String) (value : Node) : Node :=
  match value with
  | .mapping _ =>
    if field == "dataInputSchema" then value.modifyAt (Node.modifyText f) ["schema"] else value
  | _ => value.modifyText f

theorem kind_rebaseField (f : String → String) (field : String) (n : Node) :
    (rebaseField f field n).kind = n.kind := by
  cases n with
  | mapping es =>
    rw [rebaseField]
    split
    · exact Node.kind_modifyAt (kind_modifyText f) _ _
    · rfl
  | _ => rfl

theorem rebaseField_of_ne {field : String} (h : field ≠ "dataInputSchema") (n : Node) :
    rebaseField f field n = n.modifyText f := by
  cases n with
  | mapping es => exact if_neg (by simpa using h)
  | _ => rfl

section

variable {α : Type} {c : Codec α} [c.ReadsNoScalar]

/-- A reference that may stand in the place of a value is replaced, and a value is not. -/
theorem referenceable_readsThrough (f : String → String) (n : Node) :
    (Codec.oneOf c .string).ReadsThrough (OneOf.mapSecond f) n (n.modifyText f) := by
  cases n with
  | string s => exact Codec.oneOf_string_readsThrough (fun _ => rfl) s
  | _ =>
    refine Codec.readsThrough_self fun x hx => ?_
    cases x with
    | first a => rfl
    | second s => cases (Codec.oneOf_read_second.1 hx).2

end

namespace InputSchema

def mapReference (f : String → String) (d : InputSchema) : InputSchema :=
  { d with schema := d.schema.mapSecond f }

theorem lawful : Fields.Lawful InputSchema.mk
    (.more (.required "schema" (.oneOf .object .string) (·.schema)) <|
      .more (.defaulted "failOnValidationErrors" .bool true (·.failOnErrors)) .done) :=
  (.computed rfl)

theorem readsThrough (f : String → String) (es : Object) :
    codec.ReadsThrough (mapReference f) (.mapping es)
      ((Node.mapping es).modifyAt (Node.modifyText f) ["schema"]) := by
  obtain ⟨es', he, hes, hs⟩ := Node.modifyAt_key (Node.modifyText f) "schema" es
  rw [he]
  refine Codec.record_readsThrough lawful (OneOf.mapSecond f, id, ()) ⟨?_, ?_, trivial⟩
  · exact Field.readsThrough_of_map hs (fun _ => nofun) fun n _ => referenceable_readsThrough f n
  · exact Field.readsThrough_id (hes.get?_eq (by decide))

end InputSchema

/-- Replaces the reference to an input schema, in a definition or in the place of one. -/
def mapSchemaReference (f : String → String) :
    Referenceable InputSchema → Referenceable InputSchema
  | .first d => .first (d.mapReference f)
  | .second s => .second (f s)

theorem mapSchemaReference_id (x : Referenceable InputSchema) : mapSchemaReference id x = x := by
  obtain ⟨_ | _, _⟩ | _ := x <;> rfl

/-- An input schema with another reference is read through this. A definition that is a sequence
keeps its reference. -/
theorem exists_readsThrough_inputSchema (f : String → String) (n : Node) :
    ∃ g, (g = id ∨ g = f) ∧ (Codec.oneOf InputSchema.codec .string).ReadsThrough
      (mapSchemaReference g) n (rebaseField f "dataInputSchema" n) := by
  cases n with
  | mapping es =>
    refine ⟨f, .inr rfl, Codec.oneOf_mapping_readsThrough (fun _ => rfl) ?_⟩
    exact InputSchema.readsThrough f es
  | string s => exact ⟨f, .inr rfl, Codec.oneOf_string_readsThrough (fun _ => rfl) s⟩
  | _ => exact ⟨id, .inl rfl, Codec.readsThrough_self fun x _ => mapSchemaReference_id x⟩

/-- Replaces the references of a workflow, the one to the input schema by `g`. -/
def Workflow.mapReferences (g f : String → String) (w : Workflow) : Workflow :=
  { w with
    inputSchema := w.inputSchema.map (mapSchemaReference g)
    secrets := w.secrets.map (.mapSecond f)
    constants := w.constants.map (.mapSecond f)
    timeouts := w.timeouts.map (.mapSecond f)
    errors := w.errors.map (.mapSecond f)
    events := w.events.map (.mapSecond f)
    functions := w.functions.map (.mapSecond f)
    retries := w.retries.map (.mapSecond f)
    auth := w.auth.map (.mapSecond f) }

/-- A document is read through the changes of its slots. -/
theorem readsThrough_workflow {es es' : Object}
    (hes : Entries.AgreeBut (· ∈ legacyReferenceFields) es es')
    (hv : ∀ field ∈ legacyReferenceFields,
      Entries.get? es' field = (Entries.get? es field).map (rebaseField f field))
    (hr : ∀ n, Entries.get? es "dataInputSchema" = some n →
      (Codec.oneOf InputSchema.codec .string).ReadsThrough (mapSchemaReference g) n
        (rebaseField f "dataInputSchema" n)) :
    Workflow.codec.ReadsThrough (Workflow.mapReferences g f) (.mapping es) (.mapping es') := by
  have hid {α : Type} (field : Field Workflow α) (h : field.key ∉ legacyReferenceFields) :
      field.ReadsThrough id es es' :=
    Field.readsThrough_id (hes.get?_eq h)
  have href {α : Type} {c : Codec α} [c.ReadsNoScalar] {key : String}
      {get : Workflow → Option (Referenceable α)} (h : key ∈ legacyReferenceFields)
      (hne : key ≠ "dataInputSchema") :
      (Workflow.referenceable key c get).ReadsThrough (Option.map (OneOf.mapSecond f)) es es' := by
    refine Field.readsThrough_optional (kind_rebaseField f key) (hv key h) fun n _ => ?_
    rw [rebaseField_of_ne hne]
    exact referenceable_readsThrough f n
  refine Codec.openRecord_readsThrough (.computed rfl)
    (id, id, id, id, id, id, id, id, id, .map (mapSchemaReference g), .map (.mapSecond f),
      .map (.mapSecond f), .map (.mapSecond f), .map (.mapSecond f), id, id, id,
      .map (.mapSecond f), .map (.mapSecond f), .map (.mapSecond f), .map (.mapSecond f), id, ())
    (fun _ => rfl)
    ⟨hid _ (by decide), hid _ (by decide), hid _ (by decide), hid _ (by decide),
      hid _ (by decide), hid _ (by decide), hid _ (by decide), hid _ (by decide),
      hid _ (by decide), ?_, href (by decide) (by decide), href (by decide) (by decide),
      href (by decide) (by decide), href (by decide) (by decide), hid _ (by decide),
      hid _ (by decide), hid _ (by decide), href (by decide) (by decide),
      href (by decide) (by decide), href (by decide) (by decide), href (by decide) (by decide),
      hid _ (by decide), trivial⟩ ?_
  · exact Field.readsThrough_optional (kind_rebaseField f _) (hv _ (by decide)) hr
  · refine ((hes.splitKeys_snd _).eq fun key hk hf => ?_).symm
    refine (Entries.mem_keys_splitKeys_snd hk).2 ((?_ : legacyReferenceFields ⊆ _) hf)
    decide

/-- **A document with replaced references is read through this.** -/
theorem exists_readsThrough_workflow (rebase : String → Option String) (n : Node) :
    ∃ g, (g = id ∨ g = rebaseReference rebase) ∧
      Workflow.codec.ReadsThrough (Workflow.mapReferences g (rebaseReference rebase)) n
        (rebaseLegacyReferences rebase n) := by
  by_cases hn : ∃ es, n = .mapping es
  · obtain ⟨es, rfl⟩ := hn
    have hd : legacyReferenceFields.Nodup := by decide
    obtain ⟨es', he, hes, hv⟩ :=
      foldl_modifyAt_mapping (F := rebaseField (rebaseReference rebase)) hd es
    rw [show rebaseLegacyReferences rebase (.mapping es) = .mapping es' from he]
    obtain ⟨g, hg, hr⟩ := exists_readsThrough_of_mem (Entries.get? es "dataInputSchema")
      (exists_readsThrough_inputSchema (rebaseReference rebase))
    exact ⟨g, hg, readsThrough_workflow hes hv hr⟩
  · refine ⟨id, .inl rfl, Codec.openRecord_readsThrough_of_ne (fun es he => hn ⟨es, he⟩) ?_⟩
    exact kind_foldl_modifyAt (kind_rebaseField (rebaseReference rebase)) legacyReferenceFields n

/-! ## What is held with other references -/

/-- What replaces the reference in a slot. -/
def replacement (g f : String → String) : Slot → String → String
  | .inputSchema => g
  | _ => f

theorem schemaHeld_mapSchemaReference (x : Referenceable InputSchema) :
    schemaHeld (mapSchemaReference g x) = (schemaHeld x).mapSecond g := by
  cases x <;> rfl

theorem failOnErrorsHeld_mapSchemaReference (x : Referenceable InputSchema) :
    failOnErrorsHeld (mapSchemaReference g x) = failOnErrorsHeld x := by
  cases x <;> rfl

theorem referenceIn_map {s : Slot} (f : String → String) (x : Option (Referenceable s.Value)) :
    referenceIn (x.map (.mapSecond f)) = (referenceIn x).map fun p => (p.1, f p.2) := by
  obtain _ | _ | _ := x <;> rfl

namespace Workflow

theorem held_mapReferences (w : Workflow) (s : Slot) :
    (w.mapReferences g f).held s = (w.held s).map (.mapSecond (replacement g f s)) := by
  cases s with
  | inputSchema =>
    show (w.inputSchema.map _).map _ = (w.inputSchema.map _).map _
    rw [Option.map_map, Option.map_map]
    exact congrArg (w.inputSchema.map ·) (funext schemaHeld_mapSchemaReference)
  | _ => rfl

theorem failOnErrors?_mapReferences (w : Workflow) :
    (w.mapReferences g f).failOnErrors? = w.failOnErrors? := by
  show (w.inputSchema.map _).map _ = w.inputSchema.map _
  rw [Option.map_map]
  exact congrArg (w.inputSchema.map ·) (funext failOnErrorsHeld_mapSchemaReference)

/-- A workflow with the slots of another one. -/
def withSlots (w v : Workflow) : Workflow :=
  { w with
    inputSchema := v.inputSchema, secrets := v.secrets, constants := v.constants
    timeouts := v.timeouts, errors := v.errors, events := v.events, functions := v.functions
    retries := v.retries, auth := v.auth }

theorem withSlots_congr {w v v' : Workflow} (hi : v.inputSchema = v'.inputSchema)
    (h : ∀ s, v.held s = v'.held s) : w.withSlots v = w.withSlots v' := by
  rw [withSlots, hi, show v.secrets = v'.secrets from h .secrets,
    show v.constants = v'.constants from h .constants,
    show v.timeouts = v'.timeouts from h .timeouts, show v.errors = v'.errors from h .errors,
    show v.events = v'.events from h .events, show v.functions = v'.functions from h .functions,
    show v.retries = v'.retries from h .retries, show v.auth = v'.auth from h .auth]
  rfl

end Workflow

end Legacy

open Legacy (Referenceable Slot failOnErrorsHeld referenceIn replacement schemaHeld)

/-! ## Resolving -/

namespace Resolver

variable {r : Resolver} {f g : String → String}

theorem Fills.eq_of_map {s : Slot} {x y y' : Option (Referenceable s.Value)}
    (hf : ∀ s, meaning r.base (f s) = meaning r.base s) (h : r.Fills x y)
    (h' : r.Fills (x.map (.mapSecond f)) y') : y' = y := by
  match x with
  | none => exact h'.trans h.symm
  | some (.first a) => exact h'.trans h.symm
  | some (.second reference) =>
    obtain ⟨a, ha, rfl⟩ := h
    obtain ⟨a', ha', rfl⟩ := h'
    have ht := toOption_answer_congr s (hf reference)
    rw [ha, ha'] at ht
    obtain rfl : a' = a := Option.some.inj ht
    rfl

variable (hg : ∀ s, meaning r.base (g s) = meaning r.base s)
  (hf : ∀ s, meaning r.base (f s) = meaning r.base s)
include hg hf

theorem meaning_replacement (slot : Slot) (s : String) :
    meaning r.base (replacement g f slot s) = meaning r.base s := by
  cases slot with
  | inputSchema => exact hg s
  | _ => exact hf s

/-- Replaced references mean the same, one by one. -/
theorem meaning_references_mapReferences (w : Legacy.Workflow) :
    (w.mapReferences g f).references.map (fun p => (p.1, meaning r.base p.2)) =
      w.references.map fun p => (p.1, meaning r.base p.2) := by
  rw [Legacy.Workflow.references, Legacy.Workflow.references, List.map_flatMap, List.map_flatMap]
  refine congrArg (List.flatMap · Slot.all) (funext fun slot => ?_)
  rw [w.held_mapReferences, Legacy.referenceIn_map, List.map_map]
  exact List.map_congr_left fun p _ => Prod.ext rfl (meaning_replacement hg hf slot p.2)

/-- Workflows with replaced references are fulfilled by the same. -/
theorem Fulfils.eq_of_mapReferences {w v v' : Legacy.Workflow} (h : r.Fulfils w v)
    (h' : r.Fulfils (w.mapReferences g f) v') : v' = v := by
  have hheld (s : Slot) : v'.held s = v.held s := by
    have hs := h'.fills s
    rw [w.held_mapReferences] at hs
    exact (h.fills s).eq_of_map (meaning_replacement hg hf s) hs
  have hb : v'.failOnErrors? = v.failOnErrors? := by
    rw [h'.failOnErrors, w.failOnErrors?_mapReferences, h.failOnErrors]
  have hi : v'.inputSchema = v.inputSchema :=
    eq_of_held (hheld .inputSchema) hb (h.fills .inputSchema).referenceIn_eq_nil
  calc v' = v'.withSlots v := Legacy.Workflow.withSlots_congr (w := v') hi hheld
    _ = ((v'.withSlots (w.mapReferences g f)).withSlots w).withSlots v := rfl
    _ = w.withSlots v := congrArg (fun x => (x.withSlots w).withSlots v) h'.frame
    _ = (v.withSlots w).withSlots v := congrArg (·.withSlots v) h.frame.symm
    _ = v := rfl

/-- **A legacy workflow with replaced references is resolved to the same one**, and the same URLs
are asked for, if what replaces a reference means the same. -/
theorem alike_resolveLegacy (w : Legacy.Workflow) :
    (r.resolveLegacy w).Alike Eq (r.resolveLegacy (w.mapReferences g f)) := by
  have hx := serves_resolveLegacy (r := r) w []
  have hy := serves_resolveLegacy (r := r) (w.mapReferences g f) []
  have hk := (meaning_references_mapReferences hg hf w).symm
  exact (hx.alike determinedBy_meaning_slots hk hy).imp fun v v' _ _ h =>
    (h.1.eq_of_mapReferences hg hf h.2).symm

end Resolver

end WorkflowDsl
