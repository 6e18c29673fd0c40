import WorkflowDsl.Proofs.Model.Placement
import WorkflowDsl.Proofs.Reader.Survival

/-!
# Validity of resolved documents

The check of a document looks at schemas only where they are searched for external resources, and
at each of them on its own: a document passes exactly when it passes masked and all these schemas
pass (`Workflow.check_eq_ok_iff`). As resolving changes nothing but schemas, whether a valid
document stays valid depends on what becomes of these. A schema that is settled passes unless the
document of its resource is null (`Workflow.check_iff_of_resolveWorkflow`).
-/

namespace WorkflowDsl

/-! ## Components are referred to by name -/

section

variable {components components' : Option Components}

/-- Components of the same names are declared. -/
def DeclareAlike (components components' : Option Components) : Prop :=
  ∀ (kind : ComponentKind) (name : String),
    kind.declares components name = kind.declares components' name

variable (h : DeclareAlike components components')
include h

theorem checkReference_congr : checkReference components = checkReference components' := by
  funext kind field name
  rw [checkReference, checkReference, h kind name]

theorem AuthenticationReference.check_congr : check components = check components' := by
  funext field a
  cases a with
  | first policy => rfl
  | second name => exact congrFun (congrFun (congrFun (checkReference_congr h) _) _) _

theorem TimeoutReference.check_congr : check components = check components' := by
  funext field a
  cases a with
  | first timeout => rfl
  | second name => exact congrFun (congrFun (congrFun (checkReference_congr h) _) _) _

theorem Endpoint.checkAll_congr : checkAll components = checkAll components' := by
  funext field e
  rw [checkAll, checkAll, AuthenticationReference.check_congr h]

theorem Call.check_congr : Call.check components = Call.check components' := by
  funext field c
  rw [check, check, AuthenticationReference.check_congr h, Endpoint.checkAll_congr h]

theorem TaskFields.check_congr : TaskFields.check components = TaskFields.check components' := by
  funext f path siblings
  rw [check, check, TimeoutReference.check_congr h]

theorem TaskKind.check_congr : TaskKind.check components = TaskKind.check components' := by
  funext k path siblings
  cases k with
  | call c => exact congrFun (congrFun (Call.check_congr h) _) _
  | raise p =>
    cases p with
    | first problem => rfl
    | second name => exact congrFun (congrFun (congrFun (checkReference_congr h) _) _) _
  | try_ t =>
    have hr : RetryReference.check components = RetryReference.check components' := by
      funext field a
      cases a with
      | first policy => rfl
      | second name => exact congrFun (congrFun (congrFun (checkReference_congr h) _) _) _
    rw [check, check, hr]
  | _ => rfl

/-- Tasks are checked alike where the same names are declared. -/
theorem Task.check_congr : Task.check components = Task.check components' := by
  rw [check, check, TaskFields.check_congr h, TaskKind.check_congr h]

theorem Extension.check_congr : Extension.check components = Extension.check components' := by
  funext path e
  rw [check, check, Task.check_congr h]

end

/-! ## Schemas that pass -/

namespace Schema

theorem portable_check (s : Schema) : Check.Portable fun f => s.check f := by
  obtain ⟨format, _ | document, _ | resource⟩ := s
  · exact .error
  · exact resource.endpoint.portable_check.comp _
  · exact .const _
  · exact .error

/-- The check finds nothing, wherever the schema stands. -/
def Passes (s : Schema) : Prop := ∃ field, s.check field = .ok ()

theorem check_eq_ok {s : Schema} {field : String} : s.check field = .ok () ↔ s.Passes :=
  ⟨fun h => ⟨field, h⟩, fun ⟨f, h⟩ => s.portable_check f field h⟩

end Schema

theorem checkSchema_eq_ok {field : String} {x : Option Schema} :
    checkSchema field x = .ok () ↔ ∀ s ∈ x, s.Passes := by
  cases x with
  | none => exact ⟨fun _ s hs => absurd hs (Option.not_mem_none s), fun _ => rfl⟩
  | some s =>
    show s.check s!"{field}.schema" = .ok () ↔ _
    rw [Schema.check_eq_ok]
    simp

/-- Nothing is wrong with schemas that are hidden. -/
theorem checkSchema_masked {α : Type} {field : String} {x : Option α} {mask : α → α}
    {get : α → Option Schema} (h : ∀ a, get (mask a) = (get a).map fun _ => .hidden) :
    checkSchema field ((x.map mask).bind get) = .ok () := by
  cases x with
  | none => rfl
  | some a =>
    rw [Option.map_some, Option.bind_some, h]
    cases get a <;> rfl

/-- The schema passes if external resources are looked for at its place. -/
def PlacedSchema.Passes (s : PlacedSchema) : Prop :=
  s.place.isSearched = true → s.schema.Passes

theorem forall_placed_passes {place : SchemaPlace} (hp : place.isSearched = true)
    {x : Option Schema} : (∀ s ∈ placed place x, s.Passes) ↔ ∀ s ∈ x, s.Passes := by
  cases x <;> simp [placed, PlacedSchema.Passes, hp]

theorem passes_of_mem_placed {place : SchemaPlace} (hp : place.isSearched = false)
    {x : Option Schema} : ∀ s ∈ placed place x, s.Passes := by
  cases x <;> simp [placed, PlacedSchema.Passes, hp]

/-- **A schema that passes does so when it is settled, unless its resource means null.** -/
theorem Resolver.Settles.passes_iff {r : Resolver} {s s' : Schema} (h : r.Settles s s')
    (hs : s.Passes) :
    s'.Passes ↔ ∀ x, s.resource = some x → r.document x.uri ≠ .ok .null := by
  obtain ⟨field, hs⟩ := hs
  obtain ⟨format, document, resource⟩ := s
  cases resource with
  | none =>
    obtain rfl : s' = _ := h
    exact iff_of_true ⟨field, hs⟩ fun x hx => absurd hx (Option.some_ne_none x).symm
  | some x =>
    obtain ⟨d, hd, rfl⟩ : ∃ d, r.document x.uri = .ok d ∧ s' = _ := h
    have hx : (∀ y, some x = some y → r.document y.uri ≠ .ok .null) ↔ d ≠ .null := by
      simp [hd]
    refine Iff.trans ?_ hx.symm
    by_cases hn : d = .null
    · subst hn
      exact iff_of_false (fun ⟨_, h⟩ => nomatch h) (fun h => h rfl)
    · have hn' : d.isNull = false := by cases d <;> first | rfl | exact absurd rfl hn
      refine iff_of_true ⟨field, ?_⟩ hn
      rw [hn']
      rfl

/-! ## Tasks that pass -/

/-- What holds of each entry is what holds of it and of its value. -/
theorem Entries.forall_mem_iff_and_values {α : Type} {es : Entries α} {A B : String × α → Prop}
    {Q : α → Prop} (h : ∀ e ∈ es, A e ↔ B e ∧ Q e.2) :
    (∀ e ∈ es, A e) ↔ (∀ e ∈ es, B e) ∧ ∀ a ∈ es.values, Q a := by
  have hv : (∀ a ∈ es.values, Q a) ↔ ∀ e ∈ es, Q e.2 := List.forall_mem_map
  rw [hv, ← forall₂_and]
  exact forall₂_congr h

theorem Check.forM_mapValues_eq_ok {α β : Type} {f : α → β} {es : Entries α}
    {check : String × β → Check} :
    (Entries.mapValues f es).forM check = .ok () ↔ ∀ e ∈ es, check (e.1, f e.2) = .ok () := by
  rw [list_forM_eq_ok]
  exact List.forall_mem_map

section

variable {τ : Type} {c c' : τ → TaskCheck} {Q : τ → Prop} {tasks : NamedMap τ} {path : String}

theorem checkList_map_iff (h : ∀ t ∈ tasks.values, ∀ path siblings,
      c t path siblings = .ok () ↔ c' t path siblings = .ok () ∧ Q t) :
    checkList path (tasks.map c) = .ok () ↔
      checkList path (tasks.map c') = .ok () ∧ ∀ t ∈ tasks.values, Q t := by
  rw [checkList, checkList, NamedMap.isEmpty_map, NamedMap.isEmpty_map, NamedMap.names_map,
    NamedMap.names_map]
  rw [Check.guard_eq_ok, Check.guard_eq_ok, and_assoc]
  refine and_congr_right fun _ => ?_
  rw [NamedMap.map, NamedMap.map, Check.forM_mapValues_eq_ok, Check.forM_mapValues_eq_ok]
  exact Entries.forall_mem_iff_and_values fun e he =>
    h e.2 (List.mem_map_of_mem he) _ _

theorem checkOptionalList_map_iff (h : ∀ t ∈ tasks.values, ∀ path siblings,
      c t path siblings = .ok () ↔ c' t path siblings = .ok () ∧ Q t) :
    checkOptionalList path (tasks.map c) = .ok () ↔
      checkOptionalList path (tasks.map c') = .ok () ∧ ∀ t ∈ tasks.values, Q t := by
  rw [checkOptionalList, checkOptionalList, NamedMap.isEmpty_map, NamedMap.isEmpty_map]
  split
  · next he =>
    have hn : tasks.entries = [] := List.isEmpty_iff.1 he
    simp [NamedMap.values, Entries.values, hn]
  · exact checkList_map_iff h

/-- Where the checks of the tasks inside say more, that of the kind does as well. -/
theorem TaskKind.check_map_iff {k : TaskKind τ} {components : Option Components}
    {siblings : List String} (h : ∀ t ∈ k.children, ∀ path siblings,
      c t path siblings = .ok () ↔ c' t path siblings = .ok () ∧ Q t) :
    (k.map c).check components path siblings = .ok () ↔
      (k.map c').check components path siblings = .ok () ∧ ∀ t ∈ k.children, Q t := by
  cases k with
  | do_ tasks => exact checkList_map_iff h
  | for_ t =>
    simp only [map, check, Check.guard_eq_ok, and_assoc]
    exact and_congr_right fun _ => checkList_map_iff h
  | fork b =>
    have hs (f : τ → TaskCheck) : (b.branches.map f).size = b.branches.size :=
      List.length_map _
    simp only [map, check, hs, Check.guard_eq_ok, and_assoc]
    exact and_congr_right fun _ => checkList_map_iff h
  | listen t =>
    obtain ⟨listener, _ | s⟩ := t
    · simp [map, check, children]
    · simp only [map, check, Check.bind_eq_ok, and_assoc]
      exact and_congr_right fun _ => checkOptionalList_map_iff h
  | try_ t =>
    simp only [map, check, Check.bind_eq_ok]
    rw [checkList_map_iff fun u hu => h u (List.mem_append_left _ hu),
      checkOptionalList_map_iff fun u hu => h u (List.mem_append_right _ hu)]
    simp only [children, List.forall_mem_append]
    tauto
  | _ => simp [map, check, children]

end

/-- Common fields pass exactly when they pass masked and their schemas pass. -/
theorem TaskFields.check_eq_ok_iff {f : TaskFields} {components : Option Components}
    {path : String} {siblings : List String} :
    f.check components path siblings = .ok () ↔
      f.masked.check components path siblings = .ok () ∧ ∀ s ∈ f.schemas, s.Passes := by
  have hs : (∀ s ∈ f.schemas, s.Passes) ↔ ((∀ s ∈ f.input.bind (·.schema), s.Passes) ∧
      ∀ s ∈ f.output.bind (·.schema), s.Passes) ∧ ∀ s ∈ f.export_.bind (·.schema), s.Passes := by
    rw [schemas, List.forall_mem_append, List.forall_mem_append, forall_placed_passes rfl,
      forall_placed_passes rfl, forall_placed_passes rfl]
  rw [hs]
  rw [check, check]
  simp only [Check.bind_eq_ok]
  rw [checkSchema_eq_ok, checkSchema_eq_ok, checkSchema_eq_ok]
  constructor
  · rintro ⟨hn, ht, hi, ho, he⟩
    exact ⟨⟨hn, ht, checkSchema_masked fun _ => rfl, checkSchema_masked fun _ => rfl,
      checkSchema_masked fun _ => rfl⟩, ⟨hi, ho⟩, he⟩
  · rintro ⟨⟨hn, ht, -⟩, ⟨hi, ho⟩, he⟩
    exact ⟨hn, ht, hi, ho, he⟩

/-- The schemas of what is done for each event are not searched. -/
theorem TaskKind.passes_of_mem_schemas {τ : Type} (k : TaskKind τ) : ∀ s ∈ k.schemas, s.Passes := by
  cases k with
  | listen t =>
    obtain ⟨_, _ | s⟩ := t
    · exact fun _ hs => absurd hs List.not_mem_nil
    · exact List.forall_mem_append.2 ⟨passes_of_mem_placed rfl, passes_of_mem_placed rfl⟩
  | _ => exact fun _ hs => absurd hs List.not_mem_nil

/-- What is hidden of a kind is not checked. -/
theorem TaskKind.check_map_masked {τ : Type} {components : Option Components} (k : TaskKind τ)
    (c : τ → TaskCheck) :
    ((k.masked false).map c).check components = (k.map c).check components := by
  cases k <;> rfl

/-- All schemas of a task and of the tasks inside pass. -/
def Task.SchemasPass (t : Task) : Prop := ∀ s ∈ t.schemas, s.Passes

/-- **A task passes exactly when it passes masked and its schemas pass.** -/
theorem Task.check_eq_ok_iff {t : Task} {components : Option Components} :
    ∀ path siblings, t.check components path siblings = .ok () ↔
      (t.masked false).check components path siblings = .ok () ∧ t.SchemasPass := by
  induction t using induction with
  | step fields kind extra ih =>
    intro path siblings
    have hk : (((kind.map (masked false)).masked false).map (check components)).check components
        path siblings =
        (kind.map fun t => (t.masked false).check components).check components path siblings := by
      rw [TaskKind.check_map_masked, TaskKind.map_map]
    have hs : (mk fields kind extra).SchemasPass ↔
        (∀ s ∈ fields.schemas, s.Passes) ∧ ∀ t ∈ kind.children, t.SchemasPass := by
      rw [SchemasPass, schemas_mk, List.forall_mem_append, List.forall_mem_append]
      refine and_congr (and_iff_left kind.passes_of_mem_schemas) ?_
      exact List.forall_mem_flatMap
    rw [check_mk, masked_mk, check_mk, hk, hs, TaskFields.check_eq_ok_iff,
      TaskKind.check_map_iff ih]
    tauto

/-! ## Documents that pass -/

theorem declareAlike_masked {all : Bool} (components : Option Components) :
    DeclareAlike (components.map (Components.masked all)) components := by
  intro kind name
  cases components with
  | none => rfl
  | some c => cases kind <;> rfl

/-- An optional list of tasks passes exactly when it passes masked and the schemas in it pass. -/
theorem checkOptionalList_masked_iff {components : Option Components} {path : String}
    {tasks : NamedMap Task} :
    checkOptionalList path (tasks.map (Task.check components)) = .ok () ↔
      checkOptionalList path ((tasks.map (Task.masked false)).map (Task.check components)) =
          .ok () ∧
        ∀ t ∈ tasks.values, t.SchemasPass := by
  rw [NamedMap.map_map]
  exact checkOptionalList_map_iff fun _ _ => Task.check_eq_ok_iff

theorem Extension.check_eq_ok_iff {components : Option Components} {path : String}
    {e : Extension} :
    e.check components path = .ok () ↔
      (e.masked false).check components path = .ok () ∧
        ∀ tasks ∈ [e.before, e.after], ∀ t ∈ tasks.values, t.SchemasPass := by
  have hq : (∀ tasks ∈ [e.before, e.after], ∀ t ∈ tasks.values, t.SchemasPass) ↔
      (∀ t ∈ e.before.values, t.SchemasPass) ∧ ∀ t ∈ e.after.values, t.SchemasPass := by
    rw [List.forall_mem_cons, List.forall_mem_singleton]
  have hb : (e.masked false).before.isEmpty = e.before.isEmpty := NamedMap.isEmpty_map _ _
  have ha : (e.masked false).after.isEmpty = e.after.isEmpty := NamedMap.isEmpty_map _ _
  rw [check_eq_ok, check_eq_ok, hb, ha, hq, and_assoc]
  refine and_congr_right fun _ => ?_
  exact (and_congr checkOptionalList_masked_iff checkOptionalList_masked_iff).trans
    and_and_and_comm

/-- The tasks of components that stand in no other task. -/
def Components.outerTasks (c : Components) : List Task :=
  (c.extensions.values.flatMap fun e => [e.before, e.after]).flatMap NamedMap.values
    ++ c.functions.entries.values

theorem Components.forM_extensions_eq_ok {c : Components} :
    (c.extensions.entries.forM fun (name, e) =>
        e.check (some c) s!"use.extensions.{name}") = .ok () ↔
      ((c.masked false).extensions.entries.forM fun (name, e) =>
        e.check (some c) s!"use.extensions.{name}") = .ok () ∧
        ∀ e ∈ c.extensions.values, ∀ tasks ∈ [e.before, e.after], ∀ t ∈ tasks.values,
          t.SchemasPass := by
  have hm : (c.masked false).extensions.entries =
      Entries.mapValues (Extension.masked false) c.extensions.entries := rfl
  rw [hm, Check.forM_mapValues_eq_ok]
  exact Check.list_forM_eq_ok.trans
    (Entries.forall_mem_iff_and_values fun _ _ => Extension.check_eq_ok_iff)

theorem Components.forM_functions_eq_ok {c : Components} :
    (c.functions.entries.forM fun (name, t) =>
        t.check (some c) s!"use.functions.{name}" []) = .ok () ↔
      ((c.masked false).functions.entries.forM fun (name, t) =>
        t.check (some c) s!"use.functions.{name}" []) = .ok () ∧
        ∀ t ∈ c.functions.entries.values, t.SchemasPass := by
  have hm : (c.masked false).functions.entries =
      c.functions.entries.mapValues (Task.masked false) := rfl
  rw [hm, Check.forM_mapValues_eq_ok]
  exact Check.list_forM_eq_ok.trans
    (Entries.forall_mem_iff_and_values fun _ _ => Task.check_eq_ok_iff _ _)

/-- Components pass exactly when they pass masked and the schemas of their tasks pass. -/
theorem Components.check_eq_ok_iff {c : Components} :
    c.check = .ok () ↔ (c.masked false).check = .ok () ∧ ∀ t ∈ c.outerTasks, t.SchemasPass := by
  have hd : DeclareAlike (some (c.masked false)) (some c) := declareAlike_masked (some c)
  have ho : (∀ t ∈ c.outerTasks, t.SchemasPass) ↔
      (∀ e ∈ c.extensions.values, ∀ tasks ∈ [e.before, e.after], ∀ t ∈ tasks.values,
        t.SchemasPass) ∧ ∀ t ∈ c.functions.entries.values, t.SchemasPass := by
    rw [outerTasks, List.forall_mem_append, List.forall_mem_flatMap, List.forall_mem_flatMap]
  rw [ho, check, check, Endpoint.checkAll_congr hd, Extension.check_congr hd, Task.check_congr hd]
  simp only [Check.bind_eq_ok]
  rw [forM_extensions_eq_ok, forM_functions_eq_ok]
  constructor
  · rintro ⟨ha, hc, hp, ⟨hx, hxs⟩, ⟨hf, hfs⟩, hr, ht⟩
    exact ⟨⟨ha, hc, hp, hx, hf, hr, ht⟩, hxs, hfs⟩
  · rintro ⟨⟨ha, hc, hp, hx, hf, hr, ht⟩, hxs, hfs⟩
    exact ⟨ha, hc, hp, ⟨hx, hxs⟩, ⟨hf, hfs⟩, hr, ht⟩

namespace Workflow

variable {n : Node} {w w' : Workflow} {r : Resolver}

theorem mem_outer_iff {t : Task} :
    t ∈ w.outerLists.flatMap NamedMap.values ++ w.functions ↔
      t ∈ w.tasks.values ∨ ∃ c ∈ w.components, t ∈ c.outerTasks := by
  rw [List.mem_append, outerLists, List.flatMap_cons, List.mem_append, or_assoc]
  refine or_congr_right ?_
  cases hc : w.components with
  | none => simp [functions, hc]
  | some c => simp [functions, hc, Components.outerTasks]

theorem forall_mem_schemas_iff :
    (∀ s ∈ w.schemas, s.Passes) ↔
      ((∀ s ∈ w.input.bind (·.schema), s.Passes) ∧ ∀ s ∈ w.output.bind (·.schema), s.Passes) ∧
        (∀ t ∈ w.tasks.values, t.SchemasPass) ∧
          ∀ c ∈ w.components, ∀ t ∈ c.outerTasks, t.SchemasPass := by
  have hs : w.allTasks.flatMap Task.ownSchemas =
      (w.outerLists.flatMap NamedMap.values ++ w.functions).flatMap Task.schemas := by
    rw [allTasks, List.flatMap_assoc]
    rfl
  rw [schemas, List.forall_mem_append, List.forall_mem_append, forall_placed_passes rfl,
    forall_placed_passes rfl, hs, List.forall_mem_flatMap]
  refine and_congr_right fun _ => ?_
  simp only [mem_outer_iff, or_imp, forall_and, forall_exists_index, and_imp]
  exact and_congr_right fun _ => ⟨fun h c hc t ht => h t c hc ht, fun h t c hc ht => h c hc t ht⟩

/-- **A document passes exactly when it passes masked, and so does every schema that is searched for
external resources.** -/
theorem check_eq_ok_iff :
    w.check = .ok () ↔ (w.masked false).check = .ok () ∧ ∀ s ∈ w.schemas, s.Passes := by
  have hd : DeclareAlike (w.masked false).components w.components :=
    declareAlike_masked w.components
  have hm : checkTasks w.components "do" w.tasks = .ok () ↔
      checkTasks w.components "do" (w.masked false).tasks = .ok () ∧
        ∀ t ∈ w.tasks.values, t.SchemasPass := by
    show _ ↔ checkList "do" ((w.tasks.map (Task.masked false)).map (Task.check w.components)) =
      .ok () ∧ _
    rw [NamedMap.map_map]
    exact checkList_map_iff fun _ _ => Task.check_eq_ok_iff
  have hc : w.components.forM Components.check = .ok () ↔
      (w.masked false).components.forM Components.check = .ok () ∧
        ∀ c ∈ w.components, ∀ t ∈ c.outerTasks, t.SchemasPass := by
    show _ ↔ (w.components.map (Components.masked false)).forM Components.check = .ok () ∧ _
    cases w.components with
    | none => simp
    | some c => simpa using Components.check_eq_ok_iff
  have ht : checkTasks (w.masked false).components = checkTasks w.components := by
    funext path tasks
    rw [checkTasks, checkTasks, Task.check_congr hd]
  rw [forall_mem_schemas_iff, check, check, TimeoutReference.check_congr hd, ht]
  simp only [Check.bind_eq_ok]
  rw [hm, hc, checkSchema_eq_ok, checkSchema_eq_ok]
  constructor
  · rintro ⟨hi, hsi, hso, ht, hs, ⟨hc, hcs⟩, ⟨hd, hds⟩⟩
    exact ⟨⟨hi, checkSchema_masked fun _ => rfl, checkSchema_masked fun _ => rfl, ht, hs, hc, hd⟩,
      ⟨hsi, hso⟩, hds, hcs⟩
  · rintro ⟨⟨hi, -, -, ht, hs, hc, hd⟩, ⟨hsi, hso⟩, hds, hcs⟩
    exact ⟨hi, hsi, hso, ht, hs, ⟨hc, hcs⟩, hd, hds⟩

end Workflow

/-- Whether the schema at a place is external and its resource means null. -/
def PlacedSchema.MeansNull (r : Resolver) (s : PlacedSchema) : Prop :=
  ∃ reference, s.Names reference ∧ r.document reference = .ok .null

/-- A schema that passes does so when it is settled at its place, unless it means null. -/
theorem Resolver.SettlesAt.passes_iff {r : Resolver} {s s' : PlacedSchema}
    (h : r.SettlesAt s s') (hs : s.Passes) : s'.Passes ↔ ¬s.MeansNull r := by
  obtain ⟨hp, h⟩ := h
  cases hq : s.place.isSearched with
  | false => simp [PlacedSchema.Passes, PlacedSchema.MeansNull, PlacedSchema.Names, hp, hq]
  | true =>
    have h : r.Settles s.schema s'.schema := by simpa [hq] using h
    simp [PlacedSchema.Passes, PlacedSchema.MeansNull, PlacedSchema.Names, hp, hq,
      h.passes_iff (hs hq)]

theorem Resolver.forall_passes_iff {r : Resolver} {ss ss' : List PlacedSchema}
    (h : List.Forall₂ r.SettlesAt ss ss') (hs : ∀ s ∈ ss, s.Passes) :
    (∀ s ∈ ss', s.Passes) ↔ ∀ s ∈ ss, ¬s.MeansNull r := by
  induction h with
  | nil => simp
  | cons h _ ih =>
    obtain ⟨hs, hss⟩ := List.forall_mem_cons.1 hs
    rw [List.forall_mem_cons, List.forall_mem_cons, ih hss, h.passes_iff hs]

namespace Workflow

/-- A document that takes in an order. -/
def intake (order : Schema) : Workflow where
  info := { name := "intake", version := "1.0.0" }
  input := some { schema := some order }
  tasks := ⟨[("store", .ofKind (.set ⟨[("stored", .bool true)]⟩))]⟩

end Workflow

end WorkflowDsl
