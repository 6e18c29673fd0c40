import WorkflowDsl.Proofs.Model.Violations
import WorkflowDsl.Proofs.Model.Walk

/-!
# Diagnostics are true

A violation names the place where it is found by a text, in which the keys and names that lead there
are joined by dots. Here the places of a document are found without the check: its lists of tasks,
the tasks in them and the functions (`Workflow.ListAt`, `Workflow.TaskAt`), to any depth, and what
stands in a task and in the schedule (`Workflow.CollectionAt`, `Workflow.DirectiveAt`).

`Workflow.Bears` says that a document is as an error says. The check of a task comes down from its
place to those of its collections and directives, and to the tasks inside at theirs, so by induction
over the task all its errors are borne out (`Workflow.onlyErrors_checkTask`), and with them those of
the document (`Workflow.bears_of_check`).
-/

namespace WorkflowDsl

/-! ## Places -/

/-- The keys and names that lead to a part of a document, from the outside in. -/
abbrev Place := List String

/-- The place in violations. -/
def Place.text (p : Place) : String := ".".intercalate p

theorem Place.text_append {p keys : Place} (hp : p ≠ []) (hk : keys ≠ []) :
    text (p ++ keys) = text p ++ ("." ++ text keys) := by
  rw [text, String.intercalate_append_of_ne_nil hp hk, String.append_assoc]
  rfl

theorem Place.text_concat {p : Place} (hp : p ≠ []) (key : String) :
    text (p ++ [key]) = text p ++ ("." ++ key) := by
  rw [text_append hp (List.cons_ne_nil _ _)]
  exact congrArg (fun s => text p ++ ("." ++ s)) String.intercalate_singleton

/-- The places of what is declared by name. -/
theorem Place.text_use (key name : String) :
    text ["use", key, name] = text ["use", key] ++ "." ++ name := by
  rw [String.append_assoc]
  exact text_concat (List.cons_ne_nil "use" [key]) name

/-- The keys of the list, from its task. -/
def TaskSlot.keys : TaskSlot → Place
  | body => ["do"]
  | branches => ["fork", "branches"]
  | attempt => ["try"]
  | handler => ["catch", "do"]
  | subscription => ["foreach", "do"]

theorem TaskSlot.keys_ne_nil (slot : TaskSlot) : slot.keys ≠ [] := by cases slot <;> exact nofun

theorem TaskSlot.pathIn_text {p : Place} (hp : p ≠ []) (slot : TaskSlot) :
    slot.pathIn p.text = Place.text (p ++ slot.keys) := by
  rw [Place.text_append hp slot.keys_ne_nil]
  cases slot <;> rfl

/-! ## Parts of a task -/

/-- The filters of a strategy that may have several, with its key and their number. -/
def EventStrategy.collections (s : EventStrategy) : List (Place × Nat) :=
  s.selection.filters?.toList.map fun filters => ([s.selection.key], filters.length)

/-- The collections of a kind that hold no tasks, each with its keys and the number of its
entries. -/
def TaskKind.collections {τ : Type} : TaskKind τ → List (Place × Nat)
  | emit e => [(["emit", "event", "with"], e.event.attributes.size)]
  | listen t => t.listener.strategy.collections.map fun c => (["listen", "to"] ++ c.1, c.2)
  | set values => [(["set"], values.size)]
  | switch cases => [(["switch"], cases.size)]
  | _ => []

/-- The directives of a task, each with its keys: its own, and those of the cases of a switch. -/
def Task.directives (t : Task) : List (Place × FlowDirective) :=
  t.fields.next.toList.map (fun d => (["then"], d)) ++
    match t.kind with
    | .switch cases => cases.entries.map fun c => (["switch", c.1, "then"], c.2.next)
    | _ => []

theorem EventStrategy.ne_nil_of_mem_collections {s : EventStrategy} {keys : Place} {size : Nat}
    (h : (keys, size) ∈ s.collections) : keys ≠ [] := by
  obtain ⟨filters, -, he⟩ := List.mem_map.1 h
  obtain ⟨rfl, -⟩ := Prod.mk.inj he
  exact List.cons_ne_nil _ _

/-! ## Parts of a document -/

namespace Workflow

mutual

/-- The lists of tasks of a document, at their places. -/
inductive ListAt (w : Workflow) : Place → NamedMap Task → Prop where
  | topmost : ListAt w ["do"] w.tasks
  | before {c : Components} {name : String} {e : Extension} (hc : w.components = some c)
      (he : (name, e) ∈ c.extensions.entries) :
      ListAt w ["use", "extensions", name, "before"] e.before
  | after {c : Components} {name : String} {e : Extension} (hc : w.components = some c)
      (he : (name, e) ∈ c.extensions.entries) :
      ListAt w ["use", "extensions", name, "after"] e.after
  | inside {place : Place} {siblings : List String} {t : Task} {slot : TaskSlot}
      {tasks : NamedMap Task} (ht : TaskAt w place siblings t) (hs : (slot, tasks) ∈ t.kind.slots) :
      ListAt w (place ++ slot.keys) tasks

/-- The tasks of a document, at their places, each with the names of the tasks of its list. A
function is in no list. -/
inductive TaskAt (w : Workflow) : Place → List String → Task → Prop where
  | listed {place : Place} {tasks : NamedMap Task} {name : String} {t : Task}
      (hl : ListAt w place tasks) (ht : (name, t) ∈ tasks.entries) :
      TaskAt w (place ++ [name]) tasks.names t
  | function {c : Components} {name : String} {t : Task} (hc : w.components = some c)
      (ht : (name, t) ∈ c.functions.entries) : TaskAt w ["use", "functions", name] [] t

end

/-- The collections of a document, at their places, each with the number of its entries. -/
inductive CollectionAt (w : Workflow) : Place → Nat → Prop where
  | list {place : Place} {tasks : NamedMap Task} (hl : w.ListAt place tasks) :
      CollectionAt w place tasks.size
  | inTask {place keys : Place} {siblings : List String} {t : Task} {size : Nat}
      (ht : w.TaskAt place siblings t) (hc : (keys, size) ∈ t.kind.collections) :
      CollectionAt w (place ++ keys) size
  | schedule {s : Schedule} {strategy : EventStrategy} {keys : Place} {size : Nat}
      (hs : w.schedule = some s) (he : s.events = some strategy)
      (hc : (keys, size) ∈ strategy.collections) : CollectionAt w (["schedule", "on"] ++ keys) size

/-- The directives of a document, at their places, each with the names of the tasks of the list that
it belongs to. -/
inductive DirectiveAt (w : Workflow) : Place → List String → FlowDirective → Prop where
  | inTask {place keys : Place} {siblings : List String} {t : Task} {d : FlowDirective}
      (ht : w.TaskAt place siblings t) (hd : (keys, d) ∈ t.directives) :
      DirectiveAt w (place ++ keys) siblings d

/-- The document is as the error says: there is a collection with that number of entries, and there
is a jump to a task that is not in the list. Of other errors nothing is said. -/
def Bears (w : Workflow) : DefinitionError → Prop
  | .cardinality field min actual =>
    ∃ place : Place, place.text = field ∧ w.CollectionAt place actual ∧ actual < min
  | .invalidFormat field value reason =>
    reason = "must name a task of the same list" →
      ∃ (place : Place) (siblings : List String), place.text = field ∧
        w.DirectiveAt place siblings (.goto value) ∧ value ∉ siblings
  | _ => True

variable {w : Workflow} {place keys : Place} {siblings : List String} {t : Task}
  {tasks : NamedMap Task} {size : Nat}

theorem bears_of_isAboutTexts {e : DefinitionError} (h : e.IsAboutTexts) : w.Bears e := by
  cases e with
  | invalidFormat field value reason => exact fun hr => absurd hr h
  | cardinality field min actual => exact h.elim
  | _ => trivial

theorem ListAt.place_ne_nil (h : w.ListAt place tasks) : place ≠ [] := by
  cases h with
  | inside ht hs => exact List.append_ne_nil_of_right_ne_nil _ (TaskSlot.keys_ne_nil _)
  | _ => exact nofun

theorem TaskAt.place_ne_nil (h : w.TaskAt place siblings t) : place ≠ [] := by
  cases h with
  | listed hl ht => exact List.append_ne_nil_of_right_ne_nil _ (List.cons_ne_nil _ _)
  | function hc ht => exact nofun

theorem bears_inTask {min : Nat} (ht : w.TaskAt place siblings t)
    (hc : (keys, size) ∈ t.kind.collections) (hlt : size < min) :
    w.Bears (.cardinality (Place.text (place ++ keys)) min size) :=
  ⟨place ++ keys, rfl, .inTask ht hc, hlt⟩

theorem bears_empty {field : String} (ht : w.TaskAt place siblings t)
    (hc : (keys, size) ∈ t.kind.collections) (hs : size = 0)
    (hf : field = Place.text (place ++ keys)) : w.Bears (.cardinality field 1 0) := by
  subst hs hf
  exact bears_inTask ht hc Nat.zero_lt_one

theorem bears_goto {value : String} (ht : w.TaskAt place siblings t)
    (hd : (keys, .goto value) ∈ t.directives) (hn : value ∉ siblings) :
    w.Bears (.invalidFormat (Place.text (place ++ keys)) value
      "must name a task of the same list") :=
  fun _ => ⟨place ++ keys, siblings, rfl, .inTask ht hd, hn⟩

end Workflow

/-! ## Checks of parts -/

section

variable {P : DefinitionError → Prop} {field : String} {siblings : List String}

theorem NamedMap.size_eq_zero {α : Type} {m : NamedMap α} (h : m.isEmpty = true) : m.size = 0 :=
  List.length_eq_zero_iff.2 (List.isEmpty_iff.1 h)

theorem OrderedMap.size_eq_zero {α : Type} {m : OrderedMap α} (h : m.isEmpty = true) :
    m.size = 0 :=
  List.length_eq_zero_iff.2 (List.isEmpty_iff.1 h)

theorem FlowDirective.onlyErrors_check {d : FlowDirective}
    (h : ∀ target, d = .goto target → target ∉ siblings →
      P (.invalidFormat field target "must name a task of the same list")) :
    OnlyErrors P (d.check field siblings) := by
  cases d with
  | goto target =>
    refine .ite (fun _ => .ok ()) fun hm => .error (h target rfl ?_)
    simpa using hm
  | _ => exact .ok ()

theorem EventStrategy.onlyErrors_check {s : EventStrategy}
    (hc : ∀ keys size, (keys, size) ∈ s.collections → size < 1 →
      P (.cardinality (field ++ ("." ++ Place.text keys)) 1 size))
    (hm : ∀ definition fields, P (.mutuallyExclusive definition fields)) :
    OnlyErrors P (s.check field) := by
  refine .ite (fun he => .error ?_) fun _ => .ite (fun _ => .error (hm _ _)) fun _ => .ok ()
  cases hf : s.selection.filters? with
  | none =>
    rw [hf] at he
    cases he
  | some filters =>
    rw [hf] at he
    have hn : filters = [] := List.isEmpty_iff.1 he
    have hm : ([s.selection.key], 0) ∈ s.collections := by simp [collections, hf, hn]
    have hp := hc _ _ hm Nat.zero_lt_one
    rwa [← String.append_assoc] at hp

theorem checkSwitch_onlyErrors {cases : NamedMap SwitchCase}
    (hc : cases.size = 0 → P (.cardinality field 1 0))
    (hr : ∀ value, P (.invalidFormat field value "only one case may omit 'when'"))
    (hd : ∀ e ∈ cases.entries, OnlyErrors P (e.2.next.check s!"{field}.{e.1}.then" siblings)) :
    OnlyErrors P (checkSwitch field siblings cases) := by
  refine .ite (fun he => .error (hc (NamedMap.size_eq_zero he))) fun _ => ?_
  split
  · exact .error (hr _)
  · exact .list_forM hd

theorem checkList_onlyErrors {tasks : NamedMap TaskCheck}
    (hs : tasks.size = 0 → P (.cardinality field 1 0))
    (ht : ∀ e ∈ tasks.entries, OnlyErrors P (e.2 s!"{field}.{e.1}" tasks.names)) :
    OnlyErrors P (checkList field tasks) :=
  .ite (fun he => .error (hs (NamedMap.size_eq_zero he))) fun _ => .list_forM ht

theorem checkOptionalList_onlyErrors {tasks : NamedMap TaskCheck}
    (h : OnlyErrors P (checkList field tasks)) : OnlyErrors P (checkOptionalList field tasks) :=
  .ite (fun _ => .ok ()) fun _ => h

end

/-! ## Checks of tasks -/

namespace Workflow

variable {w : Workflow} {components : Option Components} {place : Place} {siblings : List String}

/-- The errors of a list are borne out if those of its tasks are. -/
theorem onlyErrors_checkList {tasks : NamedMap Task} (hl : w.ListAt place tasks)
    (ht : ∀ (name : String) (t : Task), (name, t) ∈ tasks.entries →
      OnlyErrors w.Bears (t.check components (Place.text (place ++ [name])) tasks.names)) :
    OnlyErrors w.Bears (checkList place.text (tasks.map (Task.check components))) := by
  refine checkList_onlyErrors (fun hs => ?_) fun e he => ?_
  · rw [NamedMap.size_map] at hs
    have hc := CollectionAt.list hl
    rw [hs] at hc
    exact ⟨place, rfl, hc, Nat.zero_lt_one⟩
  · obtain ⟨⟨name, t⟩, hm, rfl⟩ := List.mem_map.1 he
    have hp := ht name t hm
    rw [Place.text_concat hl.place_ne_nil, ← String.append_assoc] at hp
    rw [NamedMap.names_map]
    exact hp

section

variable {fields : TaskFields} {kind : TaskKind Task} {extra : OrderedMap Node}

theorem onlyErrors_checkFields (ht : w.TaskAt place siblings (.mk fields kind extra)) :
    OnlyErrors w.Bears (fields.check components place.text siblings) := by
  have hb {e : DefinitionError} : e.IsAboutTexts → w.Bears e := bears_of_isAboutTexts
  refine .bind (.option_forM fun d hd => ?_) fun _ => ?_
  · refine FlowDirective.onlyErrors_check fun target hg hn => ?_
    have hm : (["then"], FlowDirective.goto target) ∈
        (Task.mk fields kind extra).directives := by
      have hn : fields.next = some (.goto target) := hg ▸ hd
      simp [Task.directives, Task.fields, hn]
    have hbear := bears_goto ht hm hn
    rwa [Place.text_concat ht.place_ne_nil] at hbear
  · refine .bind (.option_forM fun t _ => ?_) fun _ => ?_
    · exact (TimeoutReference.onlyErrors_check t).imp fun _ => hb
    · exact .bind ((onlyErrors_checkSchema _).imp fun _ => hb) fun _ =>
        .bind ((onlyErrors_checkSchema _).imp fun _ => hb) fun _ =>
          (onlyErrors_checkSchema _).imp fun _ => hb

theorem onlyErrors_checkListener {t : ListenTask Task}
    (ht : w.TaskAt place siblings (.mk fields (.listen t) extra)) :
    OnlyErrors w.Bears (t.listener.strategy.check s!"{place.text}.listen.to") := by
  have hp : place ≠ [] := ht.place_ne_nil
  refine EventStrategy.onlyErrors_check (fun keys size hc hs => ?_) fun _ _ => trivial
  have hm : (["listen", "to"] ++ keys, size) ∈ (TaskKind.listen t).collections :=
    List.mem_map_of_mem (f := fun c => (["listen", "to"] ++ c.1, c.2)) hc
  have hk := EventStrategy.ne_nil_of_mem_collections hc
  have hbear := bears_inTask ht hm hs
  rwa [← List.append_assoc, Place.text_append (List.append_ne_nil_of_left_ne_nil hp _) hk,
    Place.text_append hp (List.cons_ne_nil _ _)] at hbear

theorem onlyErrors_checkCases {cases : NamedMap SwitchCase}
    (ht : w.TaskAt place siblings (.mk fields (.switch cases) extra)) :
    OnlyErrors w.Bears (checkSwitch s!"{place.text}.switch" siblings cases) := by
  have hp : place ≠ [] := ht.place_ne_nil
  refine checkSwitch_onlyErrors (fun hs => ?_) (fun value => ?_) fun c hc => ?_
  · refine bears_empty ht (List.mem_singleton.2 rfl) hs ?_
    rw [Place.text_append hp (List.cons_ne_nil _ _)]
    rfl
  · exact bears_of_isAboutTexts (isAboutTexts_of_reason (by decide))
  · refine FlowDirective.onlyErrors_check fun target hg hn => ?_
    have hm : (["switch", c.1, "then"], FlowDirective.goto target) ∈
        (Task.mk fields (.switch cases) extra).directives := by
      rw [← hg]
      exact List.mem_append_right _
        (List.mem_map_of_mem (f := fun c => (["switch", c.1, "then"], c.2.next)) hc)
    have hbear := bears_goto ht hm hn
    have hk : place ++ ["switch", c.1, "then"] = place ++ ["switch"] ++ [c.1] ++ ["then"] := by
      simp
    have hne (p : Place) (key : String) : p ++ [key] ≠ [] := by simp
    have ha : place.text ++ ("." ++ "switch") ++ ("." ++ c.1) =
        place.text ++ ".switch" ++ "." ++ c.1 := String.append_assoc.symm
    rwa [hk, Place.text_concat (hne _ _), Place.text_concat (hne _ _), Place.text_concat hp,
      ha] at hbear

/-- The errors of a kind are borne out if those of the lists inside are. -/
theorem onlyErrors_checkKind (ht : w.TaskAt place siblings (.mk fields kind extra))
    (hl : ∀ slot tasks, (slot, tasks) ∈ kind.slots →
      OnlyErrors w.Bears
        (checkList (slot.pathIn place.text) (tasks.map (Task.check components)))) :
    OnlyErrors w.Bears
      ((kind.map (Task.check components)).check components place.text siblings) := by
  have hb {e : DefinitionError} : e.IsAboutTexts → w.Bears e := bears_of_isAboutTexts
  have hp : place ≠ [] := ht.place_ne_nil
  cases kind with
  | call c => exact c.onlyErrors_check.imp fun _ => hb
  | do_ tasks => exact hl .body tasks (List.mem_singleton.2 rfl)
  | emit e =>
    refine .ite (fun he => .error ?_) fun _ => .ok ()
    refine bears_empty ht (List.mem_singleton.2 rfl) (OrderedMap.size_eq_zero he) ?_
    rw [Place.text_append hp (List.cons_ne_nil _ _)]
    rfl
  | for_ t =>
    exact .ite (fun _ => .error trivial) fun _ => hl .body t.tasks (List.mem_singleton.2 rfl)
  | fork b =>
    have hm : (TaskSlot.branches, b.branches) ∈ (TaskKind.fork b).slots := List.mem_singleton.2 rfl
    refine .ite (fun hs => .error ?_) fun _ => hl .branches b.branches hm
    have hc := CollectionAt.list (.inside ht hm)
    simp only [NamedMap.size_map] at hs ⊢
    exact ⟨_, (TaskSlot.pathIn_text ht.place_ne_nil .branches).symm, hc, hs⟩
  | listen t =>
    refine .bind (onlyErrors_checkListener ht) fun _ => ?_
    obtain ⟨listener, _ | s⟩ := t
    · exact .ok ()
    · exact checkOptionalList_onlyErrors (hl .subscription s.tasks (List.mem_singleton.2 rfl))
  | raise p => exact (ProblemReference.onlyErrors_check p).imp fun _ => hb
  | run r => exact r.process.onlyErrors_check.imp fun _ => hb
  | set values =>
    refine .ite (fun he => .error ?_) fun _ => .ok ()
    refine bears_empty ht (List.mem_singleton.2 rfl) (OrderedMap.size_eq_zero he) ?_
    rw [Place.text_append hp (List.cons_ne_nil _ _)]
    rfl
  | switch cases => exact onlyErrors_checkCases ht
  | try_ t =>
    refine .bind (hl .attempt t.tasks (by simp [TaskKind.slots])) fun _ => ?_
    refine .bind (.option_forM fun r _ => ?_) fun _ => ?_
    · exact (RetryReference.onlyErrors_check r).imp fun _ => hb
    · exact checkOptionalList_onlyErrors (hl .handler t.catcher.tasks (by simp [TaskKind.slots]))
  | wait d => exact d.onlyErrors_check.imp fun _ => hb
  | extension key definition => exact .ok ()

/-- **What the check of a task reports is so.** -/
theorem onlyErrors_checkTask {t : Task} (ht : w.TaskAt place siblings t) :
    OnlyErrors w.Bears (t.check components place.text siblings) := by
  -- The place goes along: the tasks inside stand at theirs, in the lists of this one.
  induction t using Task.induction generalizing place siblings with
  | step fields kind extra ih =>
    rw [Task.check, Task.para_mk]
    refine .bind (onlyErrors_checkFields ht) fun _ => onlyErrors_checkKind ht ?_
    intro slot tasks hs
    rw [TaskSlot.pathIn_text ht.place_ne_nil]
    refine onlyErrors_checkList (.inside ht hs) fun name t hm => ?_
    exact ih t (TaskKind.mem_children_of_slots hs (List.mem_map_of_mem hm))
      (.listed (.inside ht hs) hm)

end

/-! ## Checks of documents -/

theorem onlyErrors_checkTasks (components : Option Components) {tasks : NamedMap Task}
    (hl : w.ListAt place tasks) :
    OnlyErrors w.Bears (checkList place.text (tasks.map (Task.check components))) :=
  onlyErrors_checkList hl fun _ _ ht => onlyErrors_checkTask (.listed hl ht)

theorem onlyErrors_checkExtension {c : Components} {name : String} {e : Extension}
    (hc : w.components = some c) (he : (name, e) ∈ c.extensions.entries) :
    OnlyErrors w.Bears (e.check components s!"use.extensions.{name}") := by
  have hp (key : String) : Place.text ["use", "extensions", name, key] =
      "use.extensions." ++ name ++ ("." ++ key) := by
    have hk : ["use", "extensions", name, key] = ["use", "extensions", name] ++ [key] := rfl
    rw [hk, Place.text_concat (List.cons_ne_nil _ _), Place.text_use]
    rfl
  refine .ite (fun _ => .error trivial) fun _ => ?_
  refine .bind (checkOptionalList_onlyErrors ?_) fun _ => checkOptionalList_onlyErrors ?_
  · have hl := onlyErrors_checkTasks components (.before hc he)
    rwa [hp] at hl
  · have hl := onlyErrors_checkTasks components (.after hc he)
    rwa [hp] at hl

theorem onlyErrors_checkComponents {c : Components} (hc : w.components = some c) :
    OnlyErrors w.Bears c.check := by
  have hb {e : DefinitionError} : e.IsAboutTexts → w.Bears e := bears_of_isAboutTexts
  refine .bind (.list_forM fun a _ => a.2.onlyErrors_check.imp fun _ => hb) fun _ => ?_
  refine .bind (.list_forM fun a _ => a.2.endpoint.onlyErrors_checkAll.imp fun _ => hb) fun _ => ?_
  refine .bind (.list_forM fun a _ => a.2.onlyErrors_check.imp fun _ => hb) fun _ => ?_
  refine .bind (.list_forM fun a ha => onlyErrors_checkExtension hc ha) fun _ => ?_
  refine .bind (.list_forM fun a ha => ?_) fun _ => ?_
  · have ht := @onlyErrors_checkTask _ (some c) _ _ _ (.function hc ha)
    rwa [Place.text_use] at ht
  refine .bind (.list_forM fun a _ => a.2.onlyErrors_check.imp fun _ => hb) fun _ => ?_
  exact .list_forM fun a _ => a.2.onlyErrors_check.imp fun _ => hb

theorem onlyErrors_checkSchedule {s : Schedule} (hs : w.schedule = some s) :
    OnlyErrors w.Bears s.check := by
  have hb {e : DefinitionError} : e.IsAboutTexts → w.Bears e := bears_of_isAboutTexts
  refine .bind (.option_forM fun d _ => d.onlyErrors_check.imp fun _ => hb) fun _ => ?_
  refine .bind (.option_forM fun d _ => d.onlyErrors_check.imp fun _ => hb) fun _ => ?_
  refine .option_forM fun strategy he => ?_
  refine EventStrategy.onlyErrors_check (fun keys size hc hlt => ?_) fun _ _ => trivial
  refine ⟨["schedule", "on"] ++ keys, ?_, .schedule hs he hc, hlt⟩
  exact Place.text_append (List.cons_ne_nil _ _) (EventStrategy.ne_nil_of_mem_collections hc)

theorem onlyErrors_check (w : Workflow) : OnlyErrors w.Bears w.check := by
  have hb {e : DefinitionError} : e.IsAboutTexts → w.Bears e := bears_of_isAboutTexts
  refine .bind (w.info.onlyErrors_check.imp fun _ => hb) fun _ => ?_
  refine .bind ((onlyErrors_checkSchema _).imp fun _ => hb) fun _ => ?_
  refine .bind ((onlyErrors_checkSchema _).imp fun _ => hb) fun _ => ?_
  refine .bind (.option_forM fun t _ => ?_) fun _ => ?_
  · exact (TimeoutReference.onlyErrors_check t).imp fun _ => hb
  refine .bind (.option_forM fun s hs => onlyErrors_checkSchedule hs) fun _ => ?_
  refine .bind (.option_forM fun c hc => onlyErrors_checkComponents hc) fun _ => ?_
  exact onlyErrors_checkTasks _ .topmost

/-- **What a document is said to violate is so.** If a collection is said to have too few entries,
there is one at the place that is named, and it has as many as are said, which are too few. If a
directive is said to jump to no task of its list, there is such a directive at the place that is
named, and no task of its list has that name. -/
theorem bears_of_check (w : Workflow) :
    (∀ field min actual, w.check = .error (.cardinality field min actual) →
      ∃ place : Place, place.text = field ∧ w.CollectionAt place actual ∧ actual < min) ∧
    ∀ field value,
      w.check = .error (.invalidFormat field value "must name a task of the same list") →
        ∃ (place : Place) (siblings : List String), place.text = field ∧
          w.DirectiveAt place siblings (.goto value) ∧ value ∉ siblings := by
  constructor
  · intro field min actual h
    exact w.onlyErrors_check _ h
  · intro field value h
    exact w.onlyErrors_check _ h rfl

/-- Behind every call, a single task is to run at once with no other. -/
def lonelyBranch : Workflow where
  info := { name := "lonely", version := "1.0.0" }
  components := some {
    extensions := ⟨[("watch", {
      extend := "call"
      after := ⟨[("both", .ofKind (.fork { branches := ⟨[
        ("count", .ofKind (.set ⟨[("calls", .number (.int 1))]⟩))]⟩ }))]⟩ })]⟩ }
  tasks := ⟨[("ping", .ofKind (.call { function := "ping" }))]⟩

/-- In a list, a case of a switch jumps to a task of the list above. -/
def strayedJump : Workflow where
  info := { name := "strayed", version := "1.0.0" }
  tasks := ⟨[("outer", .ofKind (.do_ ⟨[
    ("inner", .ofKind (.switch ⟨[("again", { next := .goto "outer" })]⟩))]⟩))]⟩

theorem bears_of_check_lonelyBranch_strayedJump :
    lonelyBranch.check =
      .error (.cardinality "use.extensions.watch.after.both.fork.branches" 2 1) ∧
    (∃ place : Place, place.text = "use.extensions.watch.after.both.fork.branches" ∧
      lonelyBranch.CollectionAt place 1 ∧ 1 < 2) ∧
    strayedJump.check = .error (.invalidFormat "do.outer.do.inner.switch.again.then" "outer"
      "must name a task of the same list") ∧
    ∃ (place : Place) (siblings : List String),
      place.text = "do.outer.do.inner.switch.again.then" ∧
        strayedJump.DirectiveAt place siblings (.goto "outer") ∧ "outer" ∉ siblings :=
  ⟨rfl, (bears_of_check lonelyBranch).1 _ _ _ rfl, rfl, (bears_of_check strayedJump).2 _ _ rfl⟩

end Workflow

end WorkflowDsl
