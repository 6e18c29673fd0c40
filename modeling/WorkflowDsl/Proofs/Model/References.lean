import WorkflowDsl.Proofs.Model.Nesting

/-!
# References to components

`Workflow.references` collects the components that a document refers to by name, each with the site
where the name stands, from all lists of tasks and at any depth. Where the check of a document finds
nothing, the names at the sites that it looks up are declared (`Workflow.allDeclared_of_check`).

Three sites are passed over (`Site.isChecked`): the policy of an AsyncAPI call, that of the source
of a script, and that of the resource of a schema. There a name need not be declared, and nowhere
else (`Workflow.declared_of_check_iff`).
-/

namespace WorkflowDsl

/-! ## Sites -/

/-- Where a document refers to a component by name. -/
inductive Site where
  | timeout
  | raise
  | retry
  | catalog
  | httpEndpoint
  | grpcProto
  | grpcService
  | openApiDocument
  | openApiCall
  | asyncApiDocument
  | asyncApiCall
  | scriptSource
  | schemaResource
deriving DecidableEq, Repr

namespace Site

/-- The components among which the name is looked for. -/
def kind : Site → ComponentKind
  | timeout => .timeout
  | raise => .problem
  | retry => .retry
  | _ => .authentication

/-- Whether the check of a document looks up the name. -/
def isChecked : Site → Bool
  | asyncApiCall | scriptSource | schemaResource => false
  | _ => true

end Site

/-- The name of a component, and where it stands. -/
structure Reference where
  site : Site
  name : String
deriving DecidableEq, Repr

/-- Whether the component is declared. -/
def Reference.isDeclared (components : Option Components) (r : Reference) : Bool :=
  r.site.kind.declares components r.name

/-! ## References of a document -/

/-- The name that stands at a site, if one does. -/
def Site.references {α : Type} (site : Site) (x : Option (OneOf α String)) : List Reference :=
  (x.bind OneOf.second?).toList.map (Reference.mk site)

def Endpoint.references (site : Site) (e : Endpoint) : List Reference :=
  site.references e.authentication?

def Schema.references (s : Schema) : List Reference :=
  s.resource.toList.flatMap (·.endpoint.references .schemaResource)

/-- The references of the schema that a data model may have. -/
def schemaReferences (x : Option Schema) : List Reference := x.toList.flatMap Schema.references

namespace Call

/-- The references among the arguments of a call, if they are of the type. -/
def argumentReferences {α : Type} (arguments : Except DefinitionError (Option α))
    (references : α → List Reference) : List Reference :=
  match arguments with
  | .ok (some a) => references a
  | _ => []

def references (c : Call) : List Reference :=
  argumentReferences c.http? (fun a => a.endpoint.references .httpEndpoint)
    ++ argumentReferences c.grpc? (fun a =>
      a.proto.endpoint.references .grpcProto
        ++ Site.grpcService.references a.service.authentication)
    ++ argumentReferences c.openApi? (fun a =>
      a.document.endpoint.references .openApiDocument
        ++ Site.openApiCall.references a.authentication)
    ++ argumentReferences c.asyncApi? (fun a =>
      a.document.endpoint.references .asyncApiDocument
        ++ Site.asyncApiCall.references a.authentication)

end Call

def Process.references : Process → List Reference
  | script p => p.source.toList.flatMap (·.endpoint.references .scriptSource)
  | _ => []

def Subscription.references {τ : Type} (s : Subscription τ) : List Reference :=
  schemaReferences (s.output.bind (·.schema)) ++ schemaReferences (s.export_.bind (·.schema))

/-- The references of a kind, without those of the tasks inside. -/
def TaskKind.references {τ : Type} : TaskKind τ → List Reference
  | call c => c.references
  | listen t => t.subscription.toList.flatMap Subscription.references
  | raise p => Site.raise.references (some p)
  | run r => r.process.references
  | try_ t => Site.retry.references t.catcher.retry
  | _ => []

def TaskFields.references (f : TaskFields) : List Reference :=
  Site.timeout.references f.timeout ++ schemaReferences (f.input.bind (·.schema))
    ++ schemaReferences (f.output.bind (·.schema)) ++ schemaReferences (f.export_.bind (·.schema))

/-- The references of a task and the tasks inside of it. -/
def Task.references : Task → List Reference :=
  para fun t kind => t.fields.references ++ kind.references ++ kind.children.flatten

def Extension.references (e : Extension) : List Reference :=
  e.before.values.flatMap Task.references ++ e.after.values.flatMap Task.references

def Components.references (c : Components) : List Reference :=
  c.catalogs.entries.values.flatMap (·.endpoint.references .catalog)
    ++ c.extensions.values.flatMap Extension.references
    ++ c.functions.entries.values.flatMap Task.references

/-- All references of a document. -/
def Workflow.references (w : Workflow) : List Reference :=
  Site.timeout.references w.timeout ++ schemaReferences (w.input.bind (·.schema))
    ++ schemaReferences (w.output.bind (·.schema))
    ++ w.components.toList.flatMap Components.references ++ w.tasks.values.flatMap Task.references

/-! ## Names that are looked up -/

/-- The names at checked sites are declared. -/
def AllDeclared (components : Option Components) (references : List Reference) : Prop :=
  ∀ r ∈ references, r.site.isChecked = true → r.isDeclared components = true

section

variable {α : Type} {components : Option Components} {site : Site}

theorem checkReference_eq_ok {kind : ComponentKind} {field name : String} :
    checkReference components kind field name = .ok () ↔ kind.declares components name = true := by
  rw [checkReference]
  split <;> simp_all

theorem Site.mem_references {x : Option (OneOf α String)} {r : Reference} :
    r ∈ site.references x ↔ ∃ name, x = some (.second name) ∧ r = ⟨site, name⟩ := by
  obtain _ | a | name := x
  · simp [references]
  · simp [references, OneOf.second?]
  · simp [references, OneOf.second?]

namespace AllDeclared

theorem append {as bs : List Reference} (ha : AllDeclared components as)
    (hb : AllDeclared components bs) : AllDeclared components (as ++ bs) :=
  List.forall_mem_append.2 ⟨ha, hb⟩

theorem flatMap {as : List α} {f : α → List Reference}
    (h : ∀ a ∈ as, AllDeclared components (f a)) : AllDeclared components (as.flatMap f) := by
  intro r hr
  obtain ⟨a, ha, hr⟩ := List.mem_flatMap.1 hr
  exact h a ha r hr

/-- A check that looks up the name at a site. -/
theorem of_check {check : OneOf α String → Check} {x : Option (OneOf α String)}
    (h : x.forM check = .ok ())
    (hc : ∀ name, check (.second name) = .ok () → site.kind.declares components name = true) :
    AllDeclared components (site.references x) := by
  intro r hr _
  obtain ⟨name, rfl, rfl⟩ := Site.mem_references.1 hr
  exact hc name (Check.option_forM_eq_ok.1 h _ rfl)

theorem of_policy {x : Option AuthenticationReference} (hs : site.kind = .authentication)
    (h : PolicyPasses components x) : AllDeclared components (site.references x) := by
  obtain ⟨field, h⟩ := h
  refine of_check h fun name hn => ?_
  rw [hs]
  exact checkReference_eq_ok.1 hn

theorem of_not_isChecked (hs : site.isChecked = false) (x : Option (OneOf α String)) :
    AllDeclared components (site.references x) := by
  intro r hr hk
  obtain ⟨_, _, rfl⟩ := Site.mem_references.1 hr
  rw [show site.isChecked = true from hk] at hs
  cases hs

theorem schema (x : Option Schema) : AllDeclared components (schemaReferences x) :=
  flatMap fun _ _ => flatMap fun _ _ => of_not_isChecked rfl _

end AllDeclared

theorem Endpoint.allDeclared_of_passes {e : Endpoint} (hs : site.kind = .authentication)
    (h : e.Passes components) : AllDeclared components (e.references site) :=
  .of_policy hs h.policy

end

/-! ## Tasks -/

namespace Call

variable {components : Option Components}

theorem allDeclared_arguments {α : Type} {arguments : Except DefinitionError (Option α)}
    {passes : α → Prop} {f : α → List Reference} (h : ArgumentsPass arguments passes)
    (hf : ∀ a, passes a → AllDeclared components (f a)) :
    AllDeclared components (argumentReferences arguments f) := by
  obtain ⟨x, rfl, h⟩ := h
  cases x with
  | none => exact fun _ hr => nomatch hr
  | some a => exact hf a (h a rfl)

theorem allDeclared_of_check {c : Call} {field : String}
    (h : c.check components field = .ok ()) : AllDeclared components c.references := by
  have h := checked_of_check h
  refine .append (.append (.append ?_ ?_) ?_) ?_
  · exact allDeclared_arguments h.http fun a he => Endpoint.allDeclared_of_passes rfl he
  · exact allDeclared_arguments h.grpc fun a ⟨he, hp⟩ =>
      .append (Endpoint.allDeclared_of_passes rfl he) (.of_policy rfl hp)
  · exact allDeclared_arguments h.openApi fun a ⟨he, hp⟩ =>
      .append (Endpoint.allDeclared_of_passes rfl he) (.of_policy rfl hp)
  -- The document of an AsyncAPI call is looked up, but not its policy.
  · exact allDeclared_arguments h.asyncApi fun a he =>
      .append (Endpoint.allDeclared_of_passes rfl he) (.of_not_isChecked rfl _)

end Call

section

variable {components : Option Components} {path : String} {siblings : List String}

theorem Process.allDeclared (p : Process) : AllDeclared components p.references := by
  cases p with
  | script p => exact .flatMap fun _ _ => .of_not_isChecked rfl _
  | _ => exact fun _ hr => nomatch hr

theorem TaskKind.allDeclared_of_check {k : TaskKind TaskCheck}
    (h : k.check components path siblings = .ok ()) : AllDeclared components k.references := by
  cases k with
  | call c => exact Call.allDeclared_of_check h
  | listen t => exact .flatMap fun _ _ => .append (.schema _) (.schema _)
  | raise p => exact .of_check (x := some p) h fun _ => checkReference_eq_ok.1
  | run r => exact r.process.allDeclared
  | try_ t =>
    obtain ⟨-, hr, -⟩ := check_try_eq_ok.1 h
    exact .of_check hr fun _ => checkReference_eq_ok.1
  | _ => exact fun _ hr => nomatch hr

theorem TaskKind.references_map {τ σ : Type} (f : τ → σ) (k : TaskKind τ) :
    (k.map f).references = k.references := by
  cases k with
  | listen t => obtain ⟨_, _ | s⟩ := t <;> rfl
  | _ => rfl

theorem TaskFields.allDeclared_of_check {f : TaskFields}
    (h : f.check components path siblings = .ok ()) : AllDeclared components f.references := by
  have ht := (checked_of_check h).timeout
  exact .append (.append (.append (.of_check ht fun _ => checkReference_eq_ok.1) (.schema _))
    (.schema _)) (.schema _)

namespace Task

theorem references_mk (fields : TaskFields) (kind : TaskKind Task) (extra : OrderedMap Node) :
    (mk fields kind extra).references =
      fields.references ++ kind.references ++ kind.children.flatMap references := by
  have h : (mk fields kind extra).references = fields.references ++
      (kind.map references).references ++ (kind.map references).children.flatten := para_mk ..
  rw [h, TaskKind.references_map, TaskKind.children_map, List.flatMap_def]

theorem allDeclared_of_passes {t : Task} (h : (t.check components).Passes) :
    AllDeclared components t.references := by
  refine induction_of_passes (P := fun t => AllDeclared components t.references)
    (fun fields kind extra path siblings hf hk ih => ?_) h
  have hk := TaskKind.allDeclared_of_check hk
  rw [TaskKind.references_map] at hk
  rw [references_mk]
  exact .append (.append (TaskFields.allDeclared_of_check hf) hk) (.flatMap ih)

end Task

end

/-! ## Documents -/

theorem Extension.allDeclared_of_check {components : Option Components} {path : String}
    {e : Extension} (h : e.check components path = .ok ()) :
    AllDeclared components e.references := by
  have hl {tasks : NamedMap Task} (hm : tasks ∈ [e.before, e.after]) :
      AllDeclared components (tasks.values.flatMap Task.references) :=
    .flatMap fun t ht => Task.allDeclared_of_passes (passesAmong_of_check h hm ht).passes
  exact .append (hl List.mem_cons_self) (hl (List.mem_cons_of_mem _ List.mem_cons_self))

theorem Components.Checked.allDeclared {c : Components} (h : c.Checked) :
    AllDeclared (some c) c.references := by
  refine .append (.append ?_ ?_) ?_
  · exact .flatMap fun catalog hm => Endpoint.allDeclared_of_passes rfl (h.catalogs catalog hm)
  · refine .flatMap fun e hm => ?_
    obtain ⟨path, he⟩ := h.extensions e hm
    exact Extension.allDeclared_of_check he
  · exact .flatMap fun t hm => Task.allDeclared_of_passes (h.functions t hm).passes

namespace Workflow

/-- **In a document without violations, the names at checked sites are declared.** -/
theorem allDeclared_of_check {w : Workflow} (h : w.check = .ok ()) :
    AllDeclared w.components w.references := by
  have h := checked_of_check h
  have hc : AllDeclared w.components (w.components.toList.flatMap Components.references) := by
    refine .flatMap fun c hm => ?_
    have hm := Option.mem_toList.1 hm
    rw [hm]
    exact (h.components c hm).allDeclared
  have ht : AllDeclared w.components (Site.timeout.references w.timeout) :=
    .of_check h.timeout fun _ => checkReference_eq_ok.1
  have hd : AllDeclared w.components (w.tasks.values.flatMap Task.references) :=
    .flatMap fun t hm => Task.allDeclared_of_passes (Task.passes_of_checkTasks h.tasks hm)
  exact .append (.append (.append (.append ht (.schema _)) (.schema _)) hc) hd

/-- A workflow of one task. -/
def ofTask (kind : TaskKind Task) : Workflow where
  info := { name := "single", version := "1.0.0" }
  tasks := ⟨[("task", .ofKind kind)]⟩

/-- An endpoint with the name of a policy. -/
def endpointWith (policy : String) : Endpoint :=
  .first { uri := "resource.json", authentication := some (.second policy) }

/-- A document without violations whose one reference, at an unchecked site, is not declared. -/
def undeclared : Site → Workflow
  | .asyncApiCall =>
    let arguments : AsyncApiArguments :=
      { document := .ofUri "api.json", authentication := some (.second "policy") }
    ofTask (.call (.ofArguments AsyncApiArguments.codec "asyncapi" arguments))
  | .scriptSource =>
    let script : ScriptProcess :=
      { language := "js", source := some { endpoint := endpointWith "policy" } }
    ofTask (.run { process := .script script })
  | _ =>
    let schema : Schema := { resource := some { endpoint := endpointWith "policy" } }
    { ofTask (.wait (.text "PT1S")) with input := some { schema := some schema } }

theorem check_undeclared {s : Site} (hs : s.isChecked = false) :
    (undeclared s).check = .ok () ∧ (undeclared s).references = [⟨s, "policy"⟩] ∧
      (undeclared s).components = none := by
  cases s with
  | asyncApiCall => exact ⟨rfl, rfl, rfl⟩
  | scriptSource => exact ⟨rfl, rfl, rfl⟩
  | schemaResource => exact ⟨rfl, rfl, rfl⟩
  | _ => cases hs

/-- **The names at a site are declared in all documents without violations exactly when the check
looks them up.** -/
theorem declared_of_check_iff (s : Site) :
    (∀ w : Workflow, w.check = .ok () →
        ∀ r ∈ w.references, r.site = s → r.isDeclared w.components = true) ↔
      s.isChecked = true := by
  constructor
  · intro h
    by_contra hs
    obtain ⟨hc, hr, hn⟩ := check_undeclared (Bool.eq_false_iff.2 hs)
    have hd := h _ hc ⟨s, "policy"⟩ (by rw [hr]; exact List.mem_cons_self) rfl
    rw [hn] at hd
    cases hd
  · rintro hs w hc r hr rfl
    exact allDeclared_of_check hc r hr hs

end Workflow

end WorkflowDsl
