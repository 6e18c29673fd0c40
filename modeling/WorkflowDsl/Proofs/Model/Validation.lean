import WorkflowDsl.Model.Validation
import WorkflowDsl.Proofs.Check
import WorkflowDsl.Proofs.Model.Task

/-!
# Tasks that pass their checks

A task passes among the tasks of a list when its check finds nothing there
(`TaskCheck.PassesAmong`), and passes when it does so in some list (`TaskCheck.Passes`). With a kind
all tasks inside pass, each among the tasks of its own list (`TaskKind.passesAmong_of_check`). So
`Task.induction_of_passes` goes over the tasks inside a task together with their checks.

What a check that finds nothing says of the parts is told once for each definition with several
parts: `Call.Checked`, `TaskFields.Checked`, `Components.Checked` and `Workflow.Checked`.
-/

namespace WorkflowDsl

/-! ## Lists of tasks -/

section

variable {path : String} {tasks : NamedMap TaskCheck} {c : TaskCheck}

/-- The check finds nothing at some place in a list of tasks with these names. -/
def TaskCheck.PassesAmong (siblings : List String) (c : TaskCheck) : Prop :=
  ∃ path : String, c path siblings = .ok ()

/-- The check finds nothing at some place, in some list. -/
def TaskCheck.Passes (c : TaskCheck) : Prop :=
  ∃ (path : String) (siblings : List String), c path siblings = .ok ()

theorem TaskCheck.PassesAmong.passes {siblings : List String} (h : c.PassesAmong siblings) :
    c.Passes := by
  obtain ⟨path, h⟩ := h
  exact ⟨path, siblings, h⟩

theorem passesAmong_of_checkList (h : checkList path tasks = .ok ()) (hc : c ∈ tasks.values) :
    c.PassesAmong tasks.names := by
  unfold checkList at h
  split at h
  · cases h
  · obtain ⟨⟨name, c⟩, he, rfl⟩ := List.mem_map.1 hc
    have hp := Check.list_forM_eq_ok.1 h _ he
    exact ⟨s!"{path}.{name}", hp⟩

theorem passesAmong_of_checkOptionalList (h : checkOptionalList path tasks = .ok ())
    (hc : c ∈ tasks.values) : c.PassesAmong tasks.names := by
  unfold checkOptionalList at h
  split at h
  · next he =>
    have hn : tasks.entries = [] := List.isEmpty_iff.1 he
    simp [NamedMap.values, Entries.values, hn] at hc
  · exact passesAmong_of_checkList h hc

theorem passes_of_checkList (h : checkList path tasks = .ok ()) (hc : c ∈ tasks.values) :
    c.Passes :=
  (passesAmong_of_checkList h hc).passes

end

/-! ## Calls -/

section

variable {components : Option Components}

/-- The check of the endpoint and its policy finds nothing at some place. -/
def Endpoint.Passes (components : Option Components) (e : Endpoint) : Prop :=
  ∃ field : String, e.checkAll components field = .ok ()

/-- The check of the policy, if there is one, finds nothing at some place. -/
def PolicyPasses (components : Option Components) (a : Option AuthenticationReference) : Prop :=
  ∃ field : String, a.forM (AuthenticationReference.check components field) = .ok ()

theorem Endpoint.Passes.policy {e : Endpoint} (h : e.Passes components) :
    PolicyPasses components e.authentication? := by
  obtain ⟨field, h⟩ := h
  exact ⟨_, (Check.bind_eq_ok.1 h).2⟩

namespace Call

/-- The arguments are read, and pass if they are of the type. -/
def ArgumentsPass {α : Type} (arguments : Except DefinitionError (Option α))
    (passes : α → Prop) : Prop :=
  ∃ x, arguments = .ok x ∧ ∀ a ∈ x, passes a

/-- What is checked of a call. Of an AsyncAPI call the policy is not. -/
structure Checked (components : Option Components) (c : Call) : Prop where
  named : ¬Text.isBlankText c.function = true
  http : ArgumentsPass c.http? fun a => a.endpoint.Passes components
  grpc : ArgumentsPass c.grpc? fun a =>
    a.proto.endpoint.Passes components ∧ PolicyPasses components a.service.authentication
  openApi : ArgumentsPass c.openApi? fun a =>
    a.document.endpoint.Passes components ∧ PolicyPasses components a.authentication
  asyncApi : ArgumentsPass c.asyncApi? fun a => a.document.endpoint.Passes components

theorem checked_of_check {c : Call} {field : String} (h : c.check components field = .ok ()) :
    c.Checked components := by
  have both {e : Endpoint} {a : Option AuthenticationReference} {f g : String}
      (h : (do
        e.checkAll components f
        a.forM (AuthenticationReference.check components g)) = .ok ()) :
      e.Passes components ∧ PolicyPasses components a :=
    ⟨⟨f, (Check.bind_eq_ok.1 h).1⟩, g, (Check.bind_eq_ok.1 h).2⟩
  obtain ⟨hn, h⟩ := Check.guard_eq_ok.1 h
  obtain ⟨http, hh, h⟩ := except_bind_eq_ok.1 h
  obtain ⟨h1, h⟩ := Check.bind_eq_ok.1 h
  obtain ⟨grpc, hg, h⟩ := except_bind_eq_ok.1 h
  obtain ⟨h2, h⟩ := Check.bind_eq_ok.1 h
  obtain ⟨openApi, ho, h⟩ := except_bind_eq_ok.1 h
  obtain ⟨h3, h⟩ := Check.bind_eq_ok.1 h
  obtain ⟨asyncApi, ha, h4⟩ := except_bind_eq_ok.1 h
  rw [Check.option_forM_eq_ok] at h1 h2 h3 h4
  exact {
    named := hn
    http := ⟨http, hh, fun a hm => ⟨_, h1 a hm⟩⟩
    grpc := ⟨grpc, hg, fun a hm => both (h2 a hm)⟩
    openApi := ⟨openApi, ho, fun a hm => both (h3 a hm)⟩
    asyncApi := ⟨asyncApi, ha, fun a hm => ⟨_, h4 a hm⟩⟩ }

end Call

end

/-! ## Tasks -/

/-- What is checked of the common fields of a task. -/
structure TaskFields.Checked (components : Option Components) (path : String)
    (siblings : List String) (f : TaskFields) : Prop where
  next : f.next.forM (FlowDirective.check s!"{path}.then" siblings) = .ok ()
  timeout : f.timeout.forM (TimeoutReference.check components s!"{path}.timeout") = .ok ()
  input : checkSchema s!"{path}.input" (f.input.bind (·.schema)) = .ok ()
  output : checkSchema s!"{path}.output" (f.output.bind (·.schema)) = .ok ()
  export_ : checkSchema s!"{path}.export" (f.export_.bind (·.schema)) = .ok ()

theorem TaskFields.checked_of_check {f : TaskFields} {components : Option Components}
    {path : String} {siblings : List String} (h : f.check components path siblings = .ok ()) :
    f.Checked components path siblings := by
  obtain ⟨hn, h⟩ := Check.bind_eq_ok.1 h
  obtain ⟨ht, h⟩ := Check.bind_eq_ok.1 h
  obtain ⟨hi, h⟩ := Check.bind_eq_ok.1 h
  obtain ⟨ho, he⟩ := Check.bind_eq_ok.1 h
  exact ⟨hn, ht, hi, ho, he⟩

namespace TaskKind

variable {τ σ : Type} {components : Option Components}

theorem check_try_eq_ok {t : TryTask TaskCheck} {path : String} {siblings : List String} :
    (try_ t).check components path siblings = .ok () ↔
      checkList s!"{path}.try" t.tasks = .ok () ∧
        t.catcher.retry.forM (RetryReference.check components s!"{path}.catch.retry") = .ok () ∧
          checkOptionalList s!"{path}.catch.do" t.catcher.tasks = .ok () :=
  Check.bind_eq_ok.trans (and_congr_right fun _ => Check.bind_eq_ok)

/-- The lists of tasks directly inside. -/
def lists : TaskKind τ → List (NamedMap τ)
  | do_ tasks => [tasks]
  | for_ t => [t.tasks]
  | fork b => [b.branches]
  | listen t => (t.subscription.map (·.tasks)).toList
  | try_ t => [t.tasks, t.catcher.tasks]
  | _ => []

theorem children_eq (k : TaskKind τ) : k.children = k.lists.flatMap NamedMap.values := by
  cases k with
  | listen t => obtain ⟨_, _ | s⟩ := t <;> simp [children, lists]
  | _ => simp [children, lists]

theorem mem_children {k : TaskKind τ} {t : τ} :
    t ∈ k.children ↔ ∃ tasks ∈ k.lists, t ∈ tasks.values := by
  rw [children_eq, List.mem_flatMap]

theorem lists_map (f : τ → σ) (k : TaskKind τ) :
    (k.map f).lists = k.lists.map (NamedMap.map f) := by
  cases k with
  | listen t => obtain ⟨_, _ | s⟩ := t <;> rfl
  | _ => rfl

theorem children_map (f : τ → σ) (k : TaskKind τ) : (k.map f).children = k.children.map f := by
  rw [children_eq, children_eq, lists_map, List.flatMap_map, List.map_flatMap]
  simp only [NamedMap.values_map]

/-- With a kind, all tasks inside pass, each in its list. -/
theorem passesAmong_of_check {k : TaskKind TaskCheck} {path : String} {siblings : List String}
    (h : k.check components path siblings = .ok ()) {tasks : NamedMap TaskCheck}
    (hl : tasks ∈ k.lists) {c : TaskCheck} (hc : c ∈ tasks.values) :
    c.PassesAmong tasks.names := by
  cases k with
  | do_ inner =>
    obtain rfl := List.mem_singleton.1 hl
    exact passesAmong_of_checkList h hc
  | for_ t =>
    obtain rfl := List.mem_singleton.1 hl
    rw [check] at h
    split at h
    · cases h
    · exact passesAmong_of_checkList h hc
  | fork b =>
    obtain rfl := List.mem_singleton.1 hl
    rw [check] at h
    split at h
    · cases h
    · exact passesAmong_of_checkList h hc
  | listen t =>
    obtain ⟨listener, _ | s⟩ := t
    · cases hl
    · obtain rfl := List.mem_singleton.1 hl
      obtain ⟨-, hs⟩ := Check.bind_eq_ok.1 h
      exact passesAmong_of_checkOptionalList hs hc
  | try_ t =>
    obtain ⟨ht, -, hh⟩ := check_try_eq_ok.1 h
    rcases List.mem_pair.1 hl with rfl | rfl
    · exact passesAmong_of_checkList ht hc
    · exact passesAmong_of_checkOptionalList hh hc
  | _ => cases hl

theorem passes_of_check {k : TaskKind TaskCheck} {path : String} {siblings : List String}
    (h : k.check components path siblings = .ok ()) {c : TaskCheck} (hc : c ∈ k.children) :
    c.Passes := by
  obtain ⟨tasks, hl, hc⟩ := mem_children.1 hc
  exact (passesAmong_of_check h hl hc).passes

end TaskKind

namespace Task

variable {components : Option Components}

theorem check_mk (fields : TaskFields) (kind : TaskKind Task) (extra : OrderedMap Node)
    (path : String) (siblings : List String) :
    (mk fields kind extra).check components path siblings = .ok () ↔
      fields.check components path siblings = .ok () ∧
        (kind.map (check components)).check components path siblings = .ok () := by
  rw [check, para_mk]
  exact Check.bind_eq_ok

/-- What holds of a task whose fields and kind pass, whenever it holds of the tasks inside, holds of
all tasks that pass. -/
theorem induction_of_passes {P : Task → Prop}
    (step : ∀ fields kind extra path siblings, fields.check components path siblings = .ok () →
      (kind.map (check components)).check components path siblings = .ok () →
        (∀ t ∈ kind.children, P t) → P (mk fields kind extra))
    {t : Task} : (t.check components).Passes → P t := by
  induction t using induction with
  | step fields kind extra ih =>
    rintro ⟨path, siblings, h⟩
    obtain ⟨hf, hk⟩ := (check_mk ..).1 h
    refine step fields kind extra path siblings hf hk fun t ht => ih t ht ?_
    refine TaskKind.passes_of_check hk ?_
    rw [TaskKind.children_map]
    exact List.mem_map_of_mem ht

theorem passes_of_checkTasks {path : String} {tasks : NamedMap Task} {t : Task}
    (h : checkTasks components path tasks = .ok ()) (ht : t ∈ tasks.values) :
    (t.check components).Passes := by
  refine passes_of_checkList h ?_
  rw [NamedMap.values_map]
  exact List.mem_map_of_mem ht

end Task

/-! ## Documents -/

theorem Extension.check_eq_ok {components : Option Components} {path : String} {e : Extension} :
    e.check components path = .ok () ↔ ¬(e.before.isEmpty && e.after.isEmpty) = true ∧
      checkOptionalList s!"{path}.before" (e.before.map (Task.check components)) = .ok () ∧
        checkOptionalList s!"{path}.after" (e.after.map (Task.check components)) = .ok () :=
  Check.guard_eq_ok.trans (and_congr_right fun _ => Check.bind_eq_ok)

/-- What is checked of components. Tasks that are declared as functions stand in no list. -/
structure Components.Checked (c : Components) : Prop where
  authentications : ∀ a ∈ c.authentications.entries.values, ∃ field, a.check field = .ok ()
  catalogs : ∀ catalog ∈ c.catalogs.entries.values, catalog.endpoint.Passes (some c)
  problems : ∀ p ∈ c.problems.entries.values, ∃ field, p.check field = .ok ()
  extensions : ∀ e ∈ c.extensions.values, ∃ path, e.check (some c) path = .ok ()
  functions : ∀ t ∈ c.functions.entries.values, (t.check (some c)).PassesAmong []
  retries : ∀ r ∈ c.retries.entries.values, ∃ field, r.check field = .ok ()
  timeouts : ∀ t ∈ c.timeouts.entries.values, ∃ field, t.check field = .ok ()

theorem Components.checked_of_check {c : Components} (h : c.check = .ok ()) : c.Checked := by
  obtain ⟨ha, h⟩ := Check.bind_eq_ok.1 h
  obtain ⟨hc, h⟩ := Check.bind_eq_ok.1 h
  obtain ⟨hp, h⟩ := Check.bind_eq_ok.1 h
  obtain ⟨he, h⟩ := Check.bind_eq_ok.1 h
  obtain ⟨hf, h⟩ := Check.bind_eq_ok.1 h
  obtain ⟨hr, ht⟩ := Check.bind_eq_ok.1 h
  exact {
    authentications := fun _ hm => (Check.of_forM_entries ha hm).imp' _ fun _ h => h
    catalogs := fun _ hm => (Check.of_forM_entries hc hm).imp' _ fun _ h => h
    problems := fun _ hm => (Check.of_forM_entries hp hm).imp' _ fun _ h => h
    extensions := fun _ hm => (Check.of_forM_entries he hm).imp' _ fun _ h => h
    functions := fun _ hm => (Check.of_forM_entries hf hm).imp' _ fun _ h => h
    retries := fun _ hm => (Check.of_forM_entries hr hm).imp' _ fun _ h => h
    timeouts := fun _ hm => (Check.of_forM_entries ht hm).imp' _ fun _ h => h }

/-- What is checked of a document. -/
structure Workflow.Checked (w : Workflow) : Prop where
  info : w.info.check = .ok ()
  input : checkSchema "input" (w.input.bind (·.schema)) = .ok ()
  output : checkSchema "output" (w.output.bind (·.schema)) = .ok ()
  timeout : w.timeout.forM (TimeoutReference.check w.components "timeout") = .ok ()
  schedule : ∀ s ∈ w.schedule, s.check = .ok ()
  components : ∀ c ∈ w.components, c.Checked
  tasks : checkTasks w.components "do" w.tasks = .ok ()

theorem Workflow.checked_of_check {w : Workflow} (h : w.check = .ok ()) : w.Checked := by
  obtain ⟨hd, h⟩ := Check.bind_eq_ok.1 h
  obtain ⟨hi, h⟩ := Check.bind_eq_ok.1 h
  obtain ⟨ho, h⟩ := Check.bind_eq_ok.1 h
  obtain ⟨ht, h⟩ := Check.bind_eq_ok.1 h
  obtain ⟨hs, h⟩ := Check.bind_eq_ok.1 h
  obtain ⟨hc, hl⟩ := Check.bind_eq_ok.1 h
  rw [Check.option_forM_eq_ok] at hs hc
  exact ⟨hd, hi, ho, ht, hs, fun c hm => Components.checked_of_check (hc c hm), hl⟩

end WorkflowDsl
