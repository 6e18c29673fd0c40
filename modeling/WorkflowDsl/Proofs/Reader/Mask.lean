import WorkflowDsl.Proofs.Model.Nesting
import WorkflowDsl.Reader.Position

/-!
# What external resources may change

A document is *masked* when everything is hidden that rewriting or resolving its external resources
may change: the schemas of data models and, if the resources of calls and scripts count as well, the
argument of a call and the source of a script. Hidden are also the few entries that are searched
though they are free-form, because they have a key under which other tasks have tasks
(`misreadKeys`).

Two documents that are the same when they are masked differ in nothing else. The tasks of a masked
document are those of the document, masked one by one (`Workflow.allTasks_maskedBy`).

Instead of hiding all of a schema, or of an entry that is searched, one may leave something of it. A
`Masking` says what, and hiding them leaves the least (`Workflow.masked_eq`).
-/

namespace WorkflowDsl

open ResourcePosition (callArgument?)

/-- The map with null for the values under the keys. -/
def OrderedMap.hide (keys : List String) (m : OrderedMap Node) : OrderedMap Node :=
  ⟨m.entries.map fun e => (e.1, if e.1 ∈ keys then .null else e.2)⟩

def OrderedMap.map {α β : Type} (f : α → β) (m : OrderedMap α) : OrderedMap β :=
  ⟨m.entries.mapValues f⟩

/-! ## Parts of tasks -/

/-- Stands for any schema. -/
def Schema.hidden : Schema := { document := some .null }

/-- Stands for any external resource. -/
def ExternalResource.hidden : ExternalResource := .ofUri ""

def InputModel.masked (m : InputModel) : InputModel :=
  { m with schema := m.schema.map fun _ => .hidden }

def OutputModel.masked (m : OutputModel) : OutputModel :=
  { m with schema := m.schema.map fun _ => .hidden }

def ExportModel.masked (m : ExportModel) : ExportModel :=
  { m with schema := m.schema.map fun _ => .hidden }

def TaskFields.masked (f : TaskFields) : TaskFields :=
  { f with
    input := f.input.map InputModel.masked
    output := f.output.map OutputModel.masked
    export_ := f.export_.map ExportModel.masked }

/-- Hides the argument that is a resource, if the function has one. -/
def Call.masked (c : Call) : Call :=
  { c with arguments := c.arguments.hide (callArgument? c.function).toList }

def Process.masked : Process → Process
  | script p => script { p with source := p.source.map fun _ => .hidden }
  | p => p

def Run.masked (r : Run) : Run := { r with process := r.process.masked }

/-- The keys of a task that are searched for tasks whatever the kind of the task. -/
def misreadKeys : List String := ["catch", "foreach"]

/-- Hides what may change, but for the tasks inside. -/
def TaskKind.masked {τ : Type} (all : Bool) : TaskKind τ → TaskKind τ
  | call c => call (if all then c.masked else c)
  | run r => run (if all then r.masked else r)
  | extension key definition =>
    extension key (if key ∈ misreadKeys then .null else definition)
  | kind => kind

/-! ## Tasks and documents -/

def Task.masked (all : Bool) : Task → Task :=
  Task.para fun t kind => .mk t.fields.masked (kind.masked all) (t.extra.hide misreadKeys)

def Extension.masked (all : Bool) (e : Extension) : Extension :=
  { e with before := e.before.map (Task.masked all), after := e.after.map (Task.masked all) }

def Components.masked (all : Bool) (c : Components) : Components :=
  { c with
    extensions := c.extensions.map (Extension.masked all)
    functions := c.functions.map (Task.masked all) }

def Workflow.masked (all : Bool) (w : Workflow) : Workflow :=
  { w with
    input := w.input.map InputModel.masked
    components := w.components.map (Components.masked all)
    tasks := w.tasks.map (Task.masked all)
    output := w.output.map OutputModel.masked
    extra := w.extra.hide ["export"] }

/-! ## Leaving something -/

/-- What is left of schemas, and of free-form entries that are searched. -/
structure Masking where
  schema : Schema → Schema
  /-- The entry of a task under a misread key, or that of a document under the key of an export. -/
  entry : String → Node → Node

/-- Leaves nothing. -/
def Masking.hiding : Masking where
  schema _ := .hidden
  entry _ _ := .null

def OrderedMap.maskBy (keys : List String) (f : String → Node → Node) (m : OrderedMap Node) :
    OrderedMap Node :=
  ⟨m.entries.map fun e => (e.1, if e.1 ∈ keys then f e.1 e.2 else e.2)⟩

def InputModel.maskedBy (f : Schema → Schema) (m : InputModel) : InputModel :=
  { m with schema := m.schema.map f }

def OutputModel.maskedBy (f : Schema → Schema) (m : OutputModel) : OutputModel :=
  { m with schema := m.schema.map f }

def ExportModel.maskedBy (f : Schema → Schema) (m : ExportModel) : ExportModel :=
  { m with schema := m.schema.map f }

def TaskFields.maskedBy (f : Schema → Schema) (t : TaskFields) : TaskFields :=
  { t with
    input := t.input.map (InputModel.maskedBy f)
    output := t.output.map (OutputModel.maskedBy f)
    export_ := t.export_.map (ExportModel.maskedBy f) }

def TaskKind.maskedBy {τ : Type} (f : String → Node → Node) (all : Bool) : TaskKind τ → TaskKind τ
  | call c => call (if all then c.masked else c)
  | run r => run (if all then r.masked else r)
  | extension key definition =>
    extension key (if key ∈ misreadKeys then f key definition else definition)
  | kind => kind

def Task.maskedBy (m : Masking) (all : Bool) : Task → Task :=
  Task.para fun t kind =>
    .mk (t.fields.maskedBy m.schema) (kind.maskedBy m.entry all) (t.extra.maskBy misreadKeys m.entry)

def Extension.maskedBy (m : Masking) (all : Bool) (e : Extension) : Extension :=
  { e with before := e.before.map (Task.maskedBy m all), after := e.after.map (Task.maskedBy m all) }

def Components.maskedBy (m : Masking) (all : Bool) (c : Components) : Components :=
  { c with
    extensions := c.extensions.map (Extension.maskedBy m all)
    functions := c.functions.map (Task.maskedBy m all) }

def Workflow.maskedBy (m : Masking) (all : Bool) (w : Workflow) : Workflow :=
  { w with
    input := w.input.map (InputModel.maskedBy m.schema)
    components := w.components.map (Components.maskedBy m all)
    tasks := w.tasks.map (Task.maskedBy m all)
    output := w.output.map (OutputModel.maskedBy m.schema)
    extra := w.extra.maskBy ["export"] m.entry }

variable {all : Bool}

/-- To mask a document is to leave nothing of what may change. -/
theorem Workflow.masked_eq (all : Bool) : masked all = maskedBy .hiding all := rfl

theorem Task.masked_mk (fields : TaskFields) (kind : TaskKind Task) (extra : OrderedMap Node) :
    (mk fields kind extra).masked all =
      mk fields.masked ((kind.map (masked all)).masked all) (extra.hide misreadKeys) := para_mk ..

theorem Task.maskedBy_mk (m : Masking) (all : Bool) (fields : TaskFields) (kind : TaskKind Task)
    (extra : OrderedMap Node) :
    (mk fields kind extra).maskedBy m all =
      mk (fields.maskedBy m.schema) ((kind.map (maskedBy m all)).maskedBy m.entry all)
        (extra.maskBy misreadKeys m.entry) := para_mk ..

/-- What is left of some entries may still be hidden. -/
theorem OrderedMap.hide_maskBy (keys : List String) (f : String → Node → Node)
    (m : OrderedMap Node) : (m.maskBy keys f).hide keys = m.hide keys := by
  rw [maskBy, hide, hide, List.map_map]
  refine congrArg OrderedMap.mk (List.map_congr_left fun e _ => ?_)
  by_cases he : e.1 ∈ keys <;> simp [he]

theorem OrderedMap.hide_hide (keys : List String) (m : OrderedMap Node) :
    (m.hide keys).hide keys = m.hide keys :=
  m.hide_maskBy keys fun _ _ => .null

/-! ## Tasks of masked documents -/

variable {m : Masking}

theorem TaskKind.children_maskedBy {τ : Type} (f : String → Node → Node) (k : TaskKind τ) :
    (k.maskedBy f all).children = k.children := by
  cases k <;> rfl

theorem Task.subtasks_maskedBy (t : Task) :
    (t.maskedBy m all).subtasks = t.subtasks.map (maskedBy m all) := by
  induction t using induction with
  | step fields kind extra ih =>
    rw [subtasks_mk, List.map_cons, maskedBy_mk, subtasks_mk, TaskKind.children_maskedBy,
      TaskKind.children_map, List.flatMap_map, List.map_flatMap]
    exact congrArg _ (List.flatMap_congr ih)

theorem OrderedMap.values_map {α β : Type} (f : α → β) (m : OrderedMap α) :
    (m.map f).entries.values = m.entries.values.map f := by
  simp [OrderedMap.map, Entries.values, Entries.mapValues]

theorem Components.lists_maskedBy (c : Components) :
    ((c.maskedBy m all).extensions.values.flatMap fun e => [e.before, e.after]) =
      (c.extensions.values.flatMap fun e => [e.before, e.after]).map
        (NamedMap.map (Task.maskedBy m all)) := by
  rw [maskedBy, NamedMap.values_map, List.flatMap_map, List.map_flatMap]
  rfl

theorem Workflow.outerLists_maskedBy (w : Workflow) :
    (w.maskedBy m all).outerLists = w.outerLists.map (NamedMap.map (Task.maskedBy m all)) := by
  obtain ⟨_, _, components, _⟩ := w
  refine congrArg (List.cons _) ?_
  cases components with
  | none => rfl
  | some c =>
    show List.flatMap _ [c.maskedBy m all] = List.map _ (List.flatMap _ [c])
    rw [List.flatMap_singleton, List.flatMap_singleton]
    exact c.lists_maskedBy

theorem Workflow.functions_maskedBy (w : Workflow) :
    (w.maskedBy m all).functions = w.functions.map (Task.maskedBy m all) := by
  obtain ⟨_, _, components, _⟩ := w
  cases components with
  | none => rfl
  | some c =>
    show List.flatMap _ [c.maskedBy m all] = List.map _ (List.flatMap _ [c])
    rw [List.flatMap_singleton, List.flatMap_singleton]
    exact OrderedMap.values_map _ c.functions

/-- **The tasks of a masked document are those of the document, masked.** -/
theorem Workflow.allTasks_maskedBy (w : Workflow) :
    (w.maskedBy m all).allTasks = w.allTasks.map (Task.maskedBy m all) := by
  have hv : (w.outerLists.map (NamedMap.map (Task.maskedBy m all))).flatMap NamedMap.values =
      (w.outerLists.flatMap NamedMap.values).map (Task.maskedBy m all) := by
    rw [List.flatMap_map, List.map_flatMap]
    exact List.flatMap_congr fun m _ => NamedMap.values_map _ m
  rw [allTasks, allTasks, outerLists_maskedBy, functions_maskedBy, hv, ← List.map_append,
    List.flatMap_map, List.map_flatMap]
  exact List.flatMap_congr fun t _ => t.subtasks_maskedBy

end WorkflowDsl
