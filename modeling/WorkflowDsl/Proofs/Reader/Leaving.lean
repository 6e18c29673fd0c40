import WorkflowDsl.Proofs.Reader.Collecting

/-!
# What a masking leaves

What is collected of a masked document is what is collected of the document, as far as the masking
leaves it (`Masking.Collects`, `Workflow.collect_maskedBy`). The schemas of a masked document are
those of the document, masked where external resources are looked for
(`Workflow.schemas_maskedBy`). What one masking leaves may be hidden after it
(`Workflow.masked_maskedBy`).
-/

namespace WorkflowDsl

open ResourcePosition

/-! ## Collecting -/

section

variable {α β : Type} {μ : Masking} {g : Collector α} {h : Collector β} {f : α → β} {all : Bool}

/-- What `h` collects of what the masking leaves is what `g` collects, changed by `f`. -/
structure Masking.Collects (μ : Masking) (g : Collector α) (h : Collector β) (f : α → β) :
    Prop where
  schema : ∀ s, h.schema (μ.schema s) = (g.schema s).map f
  entry : ∀ key v, h.entry key (μ.entry key v) = (g.entry key v).map f

/-- Under a key that is masked stands what is left. -/
theorem OrderedMap.get?_maskBy {keys : List String} {key : String} (hk : key ∈ keys)
    (mask : String → Node → Node) (m : OrderedMap Node) :
    Entries.get? (m.maskBy keys mask).entries key =
      (Entries.get? m.entries key).map (mask key) := by
  obtain ⟨es⟩ := m
  rw [maskBy]
  dsimp only
  induction es with
  | nil => rfl
  | cons e es ih =>
    rw [List.map_cons, Entries.get?_cons, Entries.get?_cons, ih]
    by_cases he : e.1 = key
    · subst he
      rw [if_pos rfl, if_pos rfl, if_pos hk, Option.map_some]
    · rw [if_neg he, if_neg he]

theorem TaskKind.get?_body_maskedBy {τ : Type} {key : String} (hk : key ∈ misreadKeys)
    (mask : String → Node → Node) (k : TaskKind τ) :
    Entries.get? (k.maskedBy mask all).body key = (Entries.get? k.body key).map (mask key) := by
  cases k with
  | extension name definition =>
    show Entries.get? [(name, if name ∈ misreadKeys then mask name definition else definition)]
      key =
      (Entries.get? [(name, definition)] key).map (mask key)
    rw [Entries.get?_cons, Entries.get?_cons]
    by_cases he : name = key
    · subst he
      rw [if_pos rfl, if_pos rfl, if_pos hk, Option.map_some]
    · rw [if_neg he, if_neg he]
      rfl
  | _ => rfl

/-- A free-form entry of a task under a misread key is masked. -/
theorem Task.get?_freeEntries_maskedBy {key : String} (hk : key ∈ misreadKeys) (t : Task) :
    Entries.get? (t.maskedBy μ all).freeEntries key =
      (Entries.get? t.freeEntries key).map (μ.entry key) := by
  obtain ⟨fields, kind, extra⟩ := t
  have hb : (kind.map (maskedBy μ all)).body = kind.body := by
    cases kind <;> rfl
  rw [maskedBy_mk, freeEntries, freeEntries, Entries.get?_append, Entries.get?_append,
    Option.map_or]
  congr 1
  · show _ = (Entries.get? kind.body key).map _
    rw [← hb]
    exact TaskKind.get?_body_maskedBy hk _ _
  · exact OrderedMap.get?_maskBy hk _ _

theorem TaskKind.placedLists_maskedBy {τ : Type} (mask : String → Node → Node) (k : TaskKind τ) :
    (k.maskedBy mask all).placedLists = k.placedLists := by
  cases k <;> rfl

namespace Masking.Collects

variable (hc : μ.Collects g h f)
include hc

theorem model {ρ : Type} (m? : Option ρ) {schema : ρ → Option Schema} {mask : ρ → ρ}
    (hm : ∀ m, schema (mask m) = (schema m).map μ.schema) :
    h.model schema (m?.map mask) = (g.model schema m?).map f := by
  cases m? with
  | none => rfl
  | some m =>
    rw [Option.map_some, Collector.model, Collector.model, Option.bind_some, Option.bind_some, hm]
    cases schema m with
    | none => rfl
    | some s => exact hc.schema s

theorem fields (t : TaskFields) : (t.maskedBy μ.schema).collect h = (t.collect g).map f := by
  have hi : h.model (·.schema) (t.maskedBy μ.schema).input = (g.model (·.schema) t.input).map f :=
    hc.model t.input fun _ => rfl
  have ho : h.model (·.schema) (t.maskedBy μ.schema).output =
      (g.model (·.schema) t.output).map f := hc.model t.output fun _ => rfl
  have he : h.model (·.schema) (t.maskedBy μ.schema).export_ =
      (g.model (·.schema) t.export_).map f := hc.model t.export_ fun _ => rfl
  rw [TaskFields.collect, TaskFields.collect, hi, ho, he, List.map_append, List.map_append]

theorem free (t : Task) (keys : Pointer) :
    (t.maskedBy μ all).collectFree h keys = (t.collectFree g keys).map f := by
  cases keys with
  | nil => rfl
  | cons key keys =>
    rw [Task.collectFree, Task.collectFree]
    by_cases hk : key ∈ misreadKeys
    · rw [if_pos hk, if_pos hk, Task.get?_freeEntries_maskedBy hk]
      cases Entries.get? t.freeEntries key with
      | none => rfl
      | some v => exact hc.entry key v
    · rw [if_neg hk, if_neg hk, List.map_nil]

/-- **What is collected of a masked task is collected of the task.** -/
theorem task (t : Task) : (t.maskedBy μ all).collect h = (t.collect g).map f := by
  induction t using Task.induction with
  | step fields kind extra ih =>
    have hf (keys : Pointer) : ((Task.mk fields kind extra).maskedBy μ all).collectFree h keys =
      _ := hc.free _ keys
    rw [Task.maskedBy_mk] at hf ⊢
    rw [Task.collect_mk, Task.collect_mk, List.map_append, hc.fields, List.map_flatMap]
    refine congrArg _ (List.flatMap_congr fun keys _ => ?_)
    rw [List.map_append, hf, TaskKind.placedLists_maskedBy, ← TaskKind.collectAt_map,
      TaskKind.map_map, TaskKind.collectAt_map]
    refine congrArg (· ++ _) ?_
    cases hl : kind.placedLists.lookup keys with
    | none => rfl
    | some tasks =>
      rw [Option.map_some, Option.map_some, Option.getD_some, Option.getD_some, List.map_flatMap]
      exact List.flatMap_congr fun t ht => ih t (kind.mem_children_of_lookup hl ht)

theorem tasks (ts : NamedMap Task) :
    (ts.map (Task.maskedBy μ all)).collect h = (ts.collect g).map f := by
  rw [NamedMap.collect, NamedMap.collect, NamedMap.values_map, List.flatMap_map, List.map_flatMap]
  exact List.flatMap_congr fun t _ => hc.task t

theorem extension (e : Extension) : (e.maskedBy μ all).collect h = (e.collect g).map f := by
  rw [Extension.collect, Extension.collect, List.map_append, ← hc.tasks, ← hc.tasks]
  rfl

theorem components (c : Components) : (c.maskedBy μ all).collect h = (c.collect g).map f := by
  have hf : (c.maskedBy μ all).functions.entries.values =
      c.functions.entries.values.map (Task.maskedBy μ all) := OrderedMap.values_map _ _
  have he : (c.maskedBy μ all).extensions.values =
      c.extensions.values.map (Extension.maskedBy μ all) := NamedMap.values_map _ _
  rw [Components.collect, Components.collect, List.map_append, hf, he, List.flatMap_map,
    List.flatMap_map, List.map_flatMap, List.map_flatMap]
  exact congrArg₂ _ (List.flatMap_congr fun t _ => hc.task t)
    (List.flatMap_congr fun e _ => hc.extension e)

end Masking.Collects

/-- **What is collected of a masked document is collected of the document.** -/
theorem Workflow.collect_maskedBy (hc : μ.Collects g h f) (w : Workflow) :
    (w.maskedBy μ all).collect h = (w.collect g).map f := by
  have hi : h.model (·.schema) (w.maskedBy μ all).input = (g.model (·.schema) w.input).map f :=
    hc.model w.input fun _ => rfl
  have ho : h.model (·.schema) (w.maskedBy μ all).output = (g.model (·.schema) w.output).map f :=
    hc.model w.output fun _ => rfl
  have hx : (((w.maskedBy μ all).extra.get? "export").map (h.entry "export")).getD [] =
      (((w.extra.get? "export").map (g.entry "export")).getD []).map f := by
    have hm : (w.maskedBy μ all).extra.get? "export" =
        (w.extra.get? "export").map (μ.entry "export") :=
      OrderedMap.get?_maskBy List.mem_cons_self _ _
    rw [hm]
    cases w.extra.get? "export" with
    | none => rfl
    | some v => exact hc.entry "export" v
  have hcs : ((w.maskedBy μ all).components.map (Components.collect h)).getD [] =
      ((w.components.map (Components.collect g)).getD []).map f := by
    show ((w.components.map (Components.maskedBy μ all)).map _).getD [] = _
    cases w.components with
    | none => rfl
    | some c => exact hc.components c
  have ht : (w.maskedBy μ all).tasks.collect h = (w.tasks.collect g).map f := hc.tasks w.tasks
  rw [collect, collect, hi, ho, hx, hcs, ht]
  simp only [List.map_append]

end

/-! ## Schemas -/

section

variable {μ : Masking} {all : Bool}

/-- Masks a schema that stands where external resources are looked for. -/
def PlacedSchema.maskedBy (f : Schema → Schema) (s : PlacedSchema) : PlacedSchema :=
  if s.place.isSearched then { s with schema := f s.schema } else s

theorem placed_map {place : SchemaPlace} (hp : place.isSearched = true) (f : Schema → Schema)
    (x : Option Schema) : placed place (x.map f) = (placed place x).map (·.maskedBy f) := by
  cases x with
  | none => rfl
  | some s => exact congrArg (fun t => [t]) (if_pos hp).symm

theorem map_placed_of_not_isSearched {place : SchemaPlace} (hp : place.isSearched = false)
    (f : Schema → Schema) (x : Option Schema) :
    (placed place x).map (·.maskedBy f) = placed place x := by
  cases x with
  | none => rfl
  | some s => exact congrArg (fun t => [t]) (if_neg (ne_true_of_eq_false hp))

theorem TaskFields.schemas_maskedBy (f : Schema → Schema) (t : TaskFields) :
    (t.maskedBy f).schemas = t.schemas.map (·.maskedBy f) := by
  rw [schemas, schemas, List.map_append, List.map_append, ← placed_map rfl, ← placed_map rfl,
    ← placed_map rfl]
  simp only [maskedBy, Option.bind_map, Option.map_bind]
  rfl

theorem TaskKind.schemas_maskedBy {τ : Type} (f : Schema → Schema) (mask : String → Node → Node)
    (k : TaskKind τ) : (k.maskedBy mask all).schemas = k.schemas.map (·.maskedBy f) := by
  cases k with
  | listen t =>
    show (t.subscription.map Subscription.schemas).getD [] =
      ((t.subscription.map Subscription.schemas).getD []).map _
    cases t.subscription with
    | none => rfl
    | some s =>
      rw [Option.map_some, Option.getD_some, Subscription.schemas, List.map_append,
        map_placed_of_not_isSearched rfl, map_placed_of_not_isSearched rfl]
  | _ => rfl

theorem TaskKind.schemas_map {σ τ : Type} (f : σ → τ) (k : TaskKind σ) :
    (k.map f).schemas = k.schemas := by
  cases k with
  | listen t =>
    obtain ⟨_, s⟩ := t
    cases s <;> rfl
  | _ => rfl

theorem Task.ownSchemas_maskedBy (t : Task) :
    (t.maskedBy μ all).ownSchemas = t.ownSchemas.map (·.maskedBy μ.schema) := by
  obtain ⟨fields, kind, extra⟩ := t
  rw [maskedBy_mk, ownSchemas, ownSchemas, List.map_append]
  refine congrArg₂ _ (TaskFields.schemas_maskedBy _ _) ?_
  exact (TaskKind.schemas_maskedBy μ.schema _ _).trans
    (congrArg (List.map _) (TaskKind.schemas_map _ kind))

/-- **The schemas of a masked document are those of the document, masked where external resources
are looked for.** -/
theorem Workflow.schemas_maskedBy (w : Workflow) :
    (w.maskedBy μ all).schemas = w.schemas.map (·.maskedBy μ.schema) := by
  have hi : placed .input ((w.maskedBy μ all).input.bind (·.schema)) =
      (placed .input (w.input.bind (·.schema))).map (·.maskedBy μ.schema) := by
    rw [← placed_map rfl]
    show placed .input ((w.input.map _).bind _) = _
    rw [Option.bind_map, Option.map_bind]
    rfl
  have ho : placed .output ((w.maskedBy μ all).output.bind (·.schema)) =
      (placed .output (w.output.bind (·.schema))).map (·.maskedBy μ.schema) := by
    rw [← placed_map rfl]
    show placed .output ((w.output.map _).bind _) = _
    rw [Option.bind_map, Option.map_bind]
    rfl
  rw [schemas, schemas, hi, ho, allTasks_maskedBy, List.flatMap_map, List.map_append,
    List.map_append, List.map_flatMap]
  exact congrArg _ (List.flatMap_congr fun t _ => t.ownSchemas_maskedBy)

end

/-! ## Masking twice -/

theorem NamedMap.map_congr {α β : Type} {f g : α → β} {m : NamedMap α}
    (h : ∀ a ∈ m.values, f a = g a) : m.map f = m.map g := by
  refine congrArg NamedMap.mk (List.map_congr_left fun e he => ?_)
  exact congrArg (Prod.mk e.1) (h e.2 (List.mem_map_of_mem he))

theorem OrderedMap.map_map {α β γ : Type} (g : β → γ) (f : α → β) (m : OrderedMap α) :
    (m.map f).map g = m.map fun a => g (f a) := by
  simp [map, Entries.mapValues]

theorem Call.masked_masked (c : Call) : c.masked.masked = c.masked :=
  congrArg (Call.mk c.function · c.awaits) (OrderedMap.hide_hide _ c.arguments)

theorem Run.masked_masked (r : Run) : r.masked.masked = r.masked := by
  obtain ⟨process, _⟩ := r
  cases process with
  | script p =>
    obtain ⟨_, _, source, _⟩ := p
    cases source <;> rfl
  | _ => rfl

namespace TaskKind

variable {σ τ : Type} {all : Bool}

theorem map_congr {f g : τ → σ} (k : TaskKind τ) (h : ∀ t ∈ k.children, f t = g t) :
    k.map f = k.map g := by
  cases k with
  | do_ tasks => exact congrArg do_ (NamedMap.map_congr h)
  | for_ t => exact congrArg (fun ts => for_ ⟨t.loop, t.condition, ts⟩) (NamedMap.map_congr h)
  | fork b => exact congrArg (fun ts => fork ⟨ts, b.compete⟩) (NamedMap.map_congr h)
  | listen t =>
    obtain ⟨listener, s⟩ := t
    cases s with
    | none => rfl
    | some s =>
      exact congrArg (fun ts => listen ⟨listener, some ⟨s.item, s.index, ts, s.output, s.export_⟩⟩)
        (NamedMap.map_congr h)
  | try_ t =>
    have ht := NamedMap.map_congr fun a ha => h a (List.mem_append_left _ ha)
    have hc := NamedMap.map_congr fun a ha => h a (List.mem_append_right _ ha)
    rw [map, map, ht, hc]
  | _ => rfl

theorem masked_map_maskedBy (mask : String → Node → Node) (f : τ → σ) (k : TaskKind τ) :
    ((k.maskedBy mask all).map f).masked true = (k.map f).masked true := by
  cases k with
  | call c =>
    cases all with
    | false => rfl
    | true => exact congrArg call c.masked_masked
  | run r =>
    cases all with
    | false => rfl
    | true => exact congrArg run r.masked_masked
  | extension key definition =>
    simp only [maskedBy, map, masked]
    split <;> rfl
  | _ => rfl

end TaskKind

section

variable {μ : Masking} {all : Bool}

theorem TaskFields.masked_maskedBy (f : Schema → Schema) (t : TaskFields) :
    (t.maskedBy f).masked = t.masked := by
  simp only [masked, maskedBy, Option.map_map]
  congr 2 <;> funext m <;>
    simp [InputModel.masked, InputModel.maskedBy, OutputModel.masked, OutputModel.maskedBy,
      ExportModel.masked, ExportModel.maskedBy, Function.comp_def]

theorem Task.masked_maskedBy (t : Task) : (t.maskedBy μ all).masked true = t.masked true := by
  induction t using induction with
  | step fields kind extra ih =>
    rw [maskedBy_mk, masked_mk, masked_mk, TaskFields.masked_maskedBy, OrderedMap.hide_maskBy,
      TaskKind.masked_map_maskedBy, TaskKind.map_map, TaskKind.map_congr kind ih]

theorem NamedMap.masked_maskedBy (ts : NamedMap Task) :
    (ts.map (Task.maskedBy μ all)).map (Task.masked true) = ts.map (Task.masked true) := by
  rw [map_map]
  exact map_congr fun t _ => t.masked_maskedBy

theorem Extension.masked_maskedBy (e : Extension) :
    (e.maskedBy μ all).masked true = e.masked true := by
  rw [masked, masked, maskedBy, NamedMap.masked_maskedBy, NamedMap.masked_maskedBy]

theorem Components.masked_maskedBy (c : Components) :
    (c.maskedBy μ all).masked true = c.masked true := by
  rw [masked, masked, maskedBy, NamedMap.map_map, OrderedMap.map_map]
  simp only [Extension.masked_maskedBy, Task.masked_maskedBy]

/-- **What was masked by one masking may still be hidden by another.** -/
theorem Workflow.masked_maskedBy (w : Workflow) :
    (w.maskedBy μ all).masked true = w.masked true := by
  rw [masked, masked, maskedBy]
  simp only [Option.map_map, NamedMap.masked_maskedBy, OrderedMap.hide_maskBy, Function.comp_def,
    Components.masked_maskedBy, InputModel.masked, InputModel.maskedBy, OutputModel.masked,
    OutputModel.maskedBy]
  rfl

theorem Workflow.masked_masked (w : Workflow) : (w.masked all).masked true = w.masked true :=
  w.masked_maskedBy (μ := .hiding)

end

end WorkflowDsl
