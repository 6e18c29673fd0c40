import WorkflowDsl.Proofs.Model.Validation

/-!
# Tasks at any depth

The tasks of a document stand in lists: the topmost one and those of extensions
(`Workflow.outerLists`), and those inside of tasks. Tasks that are declared as functions stand in no
list. `Workflow.lists` are all lists and `Workflow.allTasks` all tasks of a document, through every
kind of task that has tasks inside.

A document without violations is checked at each of them: every task passes among the tasks of its
list (`Workflow.passesAmong_of_mem_lists`), and every function among none.
-/

namespace WorkflowDsl

/-! ## Inside a task -/

namespace Task

/-- The task and all tasks inside of it. -/
def subtasks : Task → List Task := para fun t kind => t :: kind.children.flatten

theorem subtasks_mk (fields : TaskFields) (kind : TaskKind Task) (extra : OrderedMap Node) :
    (mk fields kind extra).subtasks =
      mk fields kind extra :: kind.children.flatMap subtasks := by
  have h : (mk fields kind extra).subtasks =
      mk fields kind extra :: (kind.map subtasks).children.flatten := para_mk ..
  rw [h, TaskKind.children_map, List.flatMap_def]

/-- The tasks inside a task inside are inside. -/
theorem mem_subtasks_trans {t u v : Task} (hu : u ∈ t.subtasks) (hv : v ∈ u.subtasks) :
    v ∈ t.subtasks := by
  induction t using induction with
  | step fields kind extra ih =>
    rw [subtasks_mk] at hu ⊢
    rcases List.mem_cons.1 hu with rfl | hu
    · rwa [subtasks_mk] at hv
    · obtain ⟨t, ht, hu⟩ := List.mem_flatMap.1 hu
      exact List.mem_cons_of_mem _ (List.mem_flatMap.2 ⟨t, ht, ih t ht hu⟩)

variable {components : Option Components} {t u : Task}

/-- With a task, all tasks inside of it pass. -/
theorem passes_of_mem_subtasks (h : (t.check components).Passes) (hu : u ∈ t.subtasks) :
    (u.check components).Passes := by
  refine induction_of_passes (P := fun t => ∀ u ∈ t.subtasks, (u.check components).Passes)
    (fun fields kind extra path siblings hf hk ih u hu => ?_) h u hu
  rw [subtasks_mk] at hu
  rcases List.mem_cons.1 hu with rfl | hu
  · exact ⟨path, siblings, (check_mk ..).2 ⟨hf, hk⟩⟩
  · obtain ⟨t, ht, hu⟩ := List.mem_flatMap.1 hu
    exact ih t ht u hu

theorem passesAmong_map {tasks : NamedMap Task}
    (h : ∀ c ∈ (tasks.map (check components)).values,
      c.PassesAmong (tasks.map (check components)).names)
    (ht : t ∈ tasks.values) : (t.check components).PassesAmong tasks.names := by
  have hm : t.check components ∈ (tasks.map (check components)).values := by
    rw [NamedMap.values_map]
    exact List.mem_map_of_mem ht
  have hp := h _ hm
  rwa [NamedMap.names_map] at hp

/-- With a task, the tasks of each list directly inside pass among themselves. -/
theorem passesAmong_of_mem_lists (h : (t.check components).Passes) {tasks : NamedMap Task}
    (hl : tasks ∈ t.kind.lists) (hu : u ∈ tasks.values) :
    (u.check components).PassesAmong tasks.names := by
  obtain ⟨fields, kind, extra⟩ := t
  obtain ⟨path, siblings, h⟩ := h
  obtain ⟨-, hk⟩ := (check_mk ..).1 h
  have hm : tasks.map (check components) ∈ (kind.map (check components)).lists := by
    rw [TaskKind.lists_map]
    exact List.mem_map_of_mem hl
  exact passesAmong_map (fun _ hc => TaskKind.passesAmong_of_check hk hm hc) hu

end Task

/-! ## Inside a document -/

namespace Workflow

/-- The lists of tasks that stand in no task: the topmost one and those of extensions. -/
def outerLists (w : Workflow) : List (NamedMap Task) :=
  w.tasks :: w.components.toList.flatMap fun c =>
    c.extensions.values.flatMap fun e => [e.before, e.after]

/-- The tasks that are declared as functions. -/
def functions (w : Workflow) : List Task :=
  w.components.toList.flatMap (·.functions.entries.values)

/-- The tasks of a document at any depth. -/
def allTasks (w : Workflow) : List Task :=
  (w.outerLists.flatMap NamedMap.values ++ w.functions).flatMap Task.subtasks

/-- The lists of tasks of a document at any depth. -/
def lists (w : Workflow) : List (NamedMap Task) :=
  w.outerLists ++ w.allTasks.flatMap (·.kind.lists)

theorem mem_allTasks_of_mem_subtasks {w : Workflow} {t u : Task} (ht : t ∈ w.allTasks)
    (hu : u ∈ t.subtasks) : u ∈ w.allTasks := by
  obtain ⟨outer, ho, ht⟩ := List.mem_flatMap.1 ht
  exact List.mem_flatMap.2 ⟨outer, ho, Task.mem_subtasks_trans ht hu⟩

end Workflow

/-- The tasks before and after the extended ones pass, each in its list. -/
theorem Extension.passesAmong_of_check {components : Option Components} {path : String}
    {e : Extension} (h : e.check components path = .ok ()) {tasks : NamedMap Task}
    (hl : tasks ∈ [e.before, e.after]) {t : Task} (ht : t ∈ tasks.values) :
    (t.check components).PassesAmong tasks.names := by
  obtain ⟨-, hb, ha⟩ := check_eq_ok.1 h
  rcases List.mem_pair.1 hl with rfl | rfl
  · exact Task.passesAmong_map (fun _ hc => passesAmong_of_checkOptionalList hb hc) ht
  · exact Task.passesAmong_map (fun _ hc => passesAmong_of_checkOptionalList ha hc) ht

namespace Workflow

variable {w : Workflow}

theorem passesAmong_of_mem_outerLists (h : w.check = .ok ()) {tasks : NamedMap Task}
    (hl : tasks ∈ w.outerLists) {t : Task} (ht : t ∈ tasks.values) :
    (t.check w.components).PassesAmong tasks.names := by
  have h := checked_of_check h
  rcases List.mem_cons.1 hl with rfl | hl
  · exact Task.passesAmong_map (fun _ hc => passesAmong_of_checkList h.tasks hc) ht
  · obtain ⟨c, hc, hl⟩ := List.mem_flatMap.1 hl
    have hc : w.components = some c := Option.mem_toList.1 hc
    obtain ⟨e, he, hl⟩ := List.mem_flatMap.1 hl
    obtain ⟨path, h⟩ := (h.components c hc).extensions e he
    rw [hc]
    exact Extension.passesAmong_of_check h hl ht

/-- A function passes among no tasks. -/
theorem passesAmong_of_mem_functions (h : w.check = .ok ()) {t : Task} (ht : t ∈ w.functions) :
    (t.check w.components).PassesAmong [] := by
  obtain ⟨c, hc, ht⟩ := List.mem_flatMap.1 ht
  have hc : w.components = some c := Option.mem_toList.1 hc
  rw [hc]
  exact ((checked_of_check h).components c hc).functions t ht

/-- All tasks of a document without violations pass, at any depth. -/
theorem passes_of_mem_allTasks (h : w.check = .ok ()) {t : Task} (ht : t ∈ w.allTasks) :
    (t.check w.components).Passes := by
  obtain ⟨outer, ho, ht⟩ := List.mem_flatMap.1 ht
  refine Task.passes_of_mem_subtasks ?_ ht
  rcases List.mem_append.1 ho with ho | ho
  · obtain ⟨tasks, hl, ho⟩ := List.mem_flatMap.1 ho
    exact (passesAmong_of_mem_outerLists h hl ho).passes
  · exact (passesAmong_of_mem_functions h ho).passes

/-- In a document without violations, the tasks of each list pass among themselves. -/
theorem passesAmong_of_mem_lists (h : w.check = .ok ()) {tasks : NamedMap Task}
    (hl : tasks ∈ w.lists) {t : Task} (ht : t ∈ tasks.values) :
    (t.check w.components).PassesAmong tasks.names := by
  rcases List.mem_append.1 hl with hl | hl
  · exact passesAmong_of_mem_outerLists h hl ht
  · obtain ⟨u, hu, hl⟩ := List.mem_flatMap.1 hl
    exact Task.passesAmong_of_mem_lists (passes_of_mem_allTasks h hu) hl ht

end Workflow

end WorkflowDsl
