import WorkflowDsl.Proofs.Model.Validation

/-!
# Walking all tasks

The lists of tasks of a document are a tree: the list `do` of the document is its root, and a task
has further lists inside (`TaskKind.slots`). A task is found by its position in the tree, which is
the steps that lead to it (`Workflow.taskAt?`). `Workflow.visits` goes over the tree depth first:
it comes to each position once, in the order of the document, and calls it by the path under which
the check of the document comes to the task.

A walk is that, but for the lists of a handler and of a subscription (`TaskSlot.isWalked`), into
which it does not go. So it lists all tasks exactly when no task stands in such a list
(`Workflow.walk_eq_visits_iff`).
-/

namespace WorkflowDsl

/-! ## Positions -/

/-- A list of tasks inside of a task. -/
inductive TaskSlot where
  | body
  | branches
  | attempt
  | handler
  | subscription
deriving DecidableEq, Repr

namespace TaskSlot

/-- The path of the list, in a task with a path. -/
def pathIn (path : String) : TaskSlot → String
  | body => s!"{path}.do"
  | branches => s!"{path}.fork.branches"
  | attempt => s!"{path}.try"
  | handler => s!"{path}.catch.do"
  | subscription => s!"{path}.foreach.do"

/-- Whether a walk goes into the list. -/
def isWalked : TaskSlot → Bool
  | handler | subscription => false
  | _ => true

/-- Where the list stands among those of its task: a handler comes after what it handles. -/
def rank : TaskSlot → Nat
  | handler => 1
  | _ => 0

end TaskSlot

/-- A step down the tree, from a task to an entry of one of its lists. -/
structure TaskStep where
  slot : TaskSlot
  index : Nat
deriving DecidableEq, Repr

/-- The entries of a list stand in its order, and those of a list before those of the next. -/
def TaskStep.Before (s t : TaskStep) : Prop :=
  s.slot.rank < t.slot.rank ∨ s.slot = t.slot ∧ s.index < t.index

/-- Where a task stands in the tree. -/
abbrev Position := List TaskStep

/-- The order of a document: a task stands before those inside of it. -/
def Position.Before : Position → Position → Prop := List.Lex TaskStep.Before

theorem Position.not_before_self (p : Position) : ¬p.Before p := by
  induction p with
  | nil => nofun
  | cons step p ih =>
    intro h
    cases h with
    | rel h => rcases h with h | ⟨-, h⟩ <;> exact Nat.lt_irrefl _ h
    | cons h => exact ih h

/-- The lists of tasks directly inside, in their order. -/
def TaskKind.slots {τ : Type} : TaskKind τ → List (TaskSlot × NamedMap τ)
  | do_ tasks => [(.body, tasks)]
  | for_ t => [(.body, t.tasks)]
  | fork b => [(.branches, b.branches)]
  | listen t => (t.subscription.map fun s => (.subscription, s.tasks)).toList
  | try_ t => [(.attempt, t.tasks), (.handler, t.catcher.tasks)]
  | _ => []

/-- The task at a position below a task. -/
def Task.taskAt? : Task → Position → Option Task
  | t, [] => some t
  | t, step :: steps => do
    let slot ← t.kind.slots.find? (·.1 = step.slot)
    let entry ← slot.2.entries[step.index]?
    entry.2.taskAt? steps

/-- The task at a position. -/
def Workflow.taskAt? (w : Workflow) : Position → Option Task
  | ⟨.body, index⟩ :: steps => do (← w.tasks.entries[index]?).2.taskAt? steps
  | _ => none

/-! ## Visits -/

/-- The visit of a task: where it is, by what path, and among which tasks. -/
structure TaskVisit where
  position : Position
  path : String
  siblings : List String
  task : Task

namespace TaskVisit

/-- The visit as it is seen from above. -/
def under (step : TaskStep) (v : TaskVisit) : TaskVisit := { v with position := step :: v.position }

/-- Whether a walk comes to the task. -/
def isWalked (v : TaskVisit) : Bool := v.position.all (·.slot.isWalked)

/-- The path and the task. -/
def entry (v : TaskVisit) : String × Task := (v.path, v.task)

end TaskVisit

/-- The visits of the tasks of a list, and of those inside of them. -/
def NamedMap.visits (slot : TaskSlot) (path : String)
    (tasks : NamedMap (String → List String → List TaskVisit)) : List TaskVisit :=
  tasks.entries.zipIdx.flatMap fun ((name, visits), index) =>
    (visits s!"{path}.{name}" tasks.names).map (.under ⟨slot, index⟩)

/-- The visits of a task and of those inside of it, in the order of the document. -/
def Task.visits : Task → String → List String → List TaskVisit :=
  para fun t kind path siblings =>
    ⟨[], path, siblings, t⟩ ::
      kind.slots.flatMap fun (slot, tasks) => tasks.visits slot (slot.pathIn path)

/-- The visits of all tasks of a document, in its order. -/
def Workflow.visits (w : Workflow) : List TaskVisit := (w.tasks.map Task.visits).visits .body "do"

section

variable {τ σ : Type} {slot : TaskSlot} {path : String} {v : TaskVisit}

theorem TaskKind.slots_map (f : τ → σ) (k : TaskKind τ) :
    (k.map f).slots = k.slots.map fun (slot, tasks) => (slot, tasks.map f) := by
  cases k with
  | listen t => obtain ⟨_, _ | s⟩ := t <;> rfl
  | _ => rfl

theorem TaskKind.lists_eq_slots (k : TaskKind τ) : k.lists = k.slots.map (·.2) := by
  cases k with
  | listen t => obtain ⟨_, _ | s⟩ := t <;> rfl
  | _ => rfl

theorem TaskKind.mem_children_of_slots {k : TaskKind τ} {tasks : NamedMap τ} {t : τ}
    (hl : (slot, tasks) ∈ k.slots) (ht : t ∈ tasks.values) : t ∈ k.children := by
  refine mem_children.2 ⟨tasks, ?_, ht⟩
  rw [lists_eq_slots]
  exact List.mem_map_of_mem hl

theorem Task.visits_mk (fields : TaskFields) (kind : TaskKind Task) (extra : OrderedMap Node)
    (path : String) (siblings : List String) :
    (mk fields kind extra).visits path siblings =
      ⟨[], path, siblings, mk fields kind extra⟩ ::
        kind.slots.flatMap fun (slot, tasks) =>
          (tasks.map visits).visits slot (slot.pathIn path) := by
  have h : (mk fields kind extra).visits path siblings =
      ⟨[], path, siblings, mk fields kind extra⟩ ::
        (kind.map visits).slots.flatMap fun (slot, tasks) =>
          tasks.visits slot (slot.pathIn path) := by
    rw [visits, para_mk]
  rw [h, TaskKind.slots_map, List.flatMap_map]

theorem NamedMap.visits_map (slot : TaskSlot) (path : String) (tasks : NamedMap Task) :
    (tasks.map Task.visits).visits slot path =
      tasks.entries.zipIdx.flatMap fun ((name, t), index) =>
        (t.visits s!"{path}.{name}" tasks.names).map (.under ⟨slot, index⟩) := by
  rw [visits, names_map, map, Entries.mapValues, List.zipIdx_map, List.flatMap_map]
  rfl

theorem NamedMap.mem_visits {tasks : NamedMap Task} :
    v ∈ (tasks.map Task.visits).visits slot path ↔
      ∃ (index : Nat) (name : String) (t : Task), tasks.entries[index]? = some (name, t) ∧
        ∃ u ∈ t.visits s!"{path}.{name}" tasks.names, v = u.under ⟨slot, index⟩ := by
  simp only [visits_map, List.mem_flatMap, Prod.exists, List.mem_zipIdx_iff_getElem?, List.mem_map]
  constructor
  · rintro ⟨name, t, index, ht, u, hu, rfl⟩
    exact ⟨index, name, t, ht, u, hu, rfl⟩
  · rintro ⟨index, name, t, ht, u, hu, rfl⟩
    exact ⟨name, t, index, ht, u, hu, rfl⟩

theorem Task.mem_visits {t : Task} {siblings : List String} :
    v ∈ t.visits path siblings ↔
      v = ⟨[], path, siblings, t⟩ ∨ ∃ slot tasks, (slot, tasks) ∈ t.kind.slots ∧
        v ∈ (tasks.map visits).visits slot (slot.pathIn path) := by
  obtain ⟨fields, kind, extra⟩ := t
  rw [visits_mk, List.mem_cons, List.mem_flatMap]
  simp only [Prod.exists, Task.kind]

end

/-! ## Each position once -/

section

variable {slot : TaskSlot} {path : String} {tasks : NamedMap Task} {t u : Task} {p : Position}

namespace TaskKind

variable {τ : Type} {k : TaskKind τ} {inner : NamedMap τ}

/-- A kind has one list at a slot. -/
theorem find?_slots :
    k.slots.find? (·.1 = slot) = some (slot, inner) ↔ (slot, inner) ∈ k.slots := by
  cases k with
  | listen t => obtain ⟨_, _ | s⟩ := t <;> cases slot <;> simp [slots, eq_comm]
  | _ => cases slot <;> simp [slots, eq_comm]

theorem pairwise_slots (k : TaskKind τ) : k.slots.Pairwise fun a b => a.1.rank < b.1.rank := by
  cases k with
  | listen t => obtain ⟨_, _ | s⟩ := t <;> simp [slots]
  | _ => simp [slots, TaskSlot.rank]

end TaskKind

/-- What is visited below a step into a list is what is visited in its entry. -/
theorem NamedMap.exists_visit_iff {step : TaskStep} :
    (∃ v ∈ (tasks.map Task.visits).visits slot path, v.position = step :: p ∧ v.task = u) ↔
      step.slot = slot ∧ ∃ name t, tasks.entries[step.index]? = some (name, t) ∧
        ∃ v ∈ t.visits s!"{path}.{name}" tasks.names, v.position = p ∧ v.task = u := by
  constructor
  · rintro ⟨v, hv, hp, hu⟩
    obtain ⟨index, name, t, ht, w, hw, rfl⟩ := mem_visits.1 hv
    obtain ⟨rfl, rfl⟩ := List.cons.inj hp
    exact ⟨rfl, name, t, ht, w, hw, rfl, hu⟩
  · rintro ⟨rfl, name, t, ht, v, hv, rfl, rfl⟩
    exact ⟨v.under step, mem_visits.2 ⟨_, name, t, ht, v, hv, rfl⟩, rfl, rfl⟩

theorem NamedMap.pairwise_visits
    (ih : ∀ t ∈ tasks.values, ∀ (path : String) (siblings : List String),
      (t.visits path siblings).Pairwise fun v u => v.position.Before u.position) :
    ((tasks.map Task.visits).visits slot path).Pairwise fun v u =>
      v.position.Before u.position := by
  rw [visits_map, List.pairwise_flatMap]
  constructor
  · rintro ⟨⟨name, t⟩, index⟩ he
    have ht : t ∈ tasks.values := List.mem_map_of_mem (List.fst_mem_of_mem_zipIdx he)
    rw [List.pairwise_map]
    exact (ih t ht _ _).imp .cons
  · rw [List.pairwise_iff_getElem]
    intro i j hi hj hij v hv u hu
    obtain ⟨v, -, rfl⟩ := List.mem_map.1 hv
    obtain ⟨u, -, rfl⟩ := List.mem_map.1 hu
    exact .rel (.inr ⟨rfl, by simpa using hij⟩)

namespace Task

/-- The tasks that are visited are those of the tree, each at its position. -/
theorem exists_visit_iff (t : Task) (p : Position) (path : String) (siblings : List String) :
    (∃ v ∈ t.visits path siblings, v.position = p ∧ v.task = u) ↔ t.taskAt? p = some u := by
  induction t using induction generalizing p path siblings with
  | step fields kind extra ih =>
    cases p with
    | nil =>
      constructor
      · rintro ⟨v, hv, hp, rfl⟩
        obtain rfl | ⟨slot, tasks, -, hv⟩ := mem_visits.1 hv
        · rfl
        · obtain ⟨_, _, _, _, v, _, rfl⟩ := NamedMap.mem_visits.1 hv
          cases hp
      · intro h
        obtain rfl := Option.some.inj h
        exact ⟨_, mem_visits.2 (.inl rfl), rfl, rfl⟩
    | cons step p =>
      have hc {slot : TaskSlot} {tasks : NamedMap Task} (hl : (slot, tasks) ∈ kind.slots)
          {name : String} {t : Task} {index : Nat} (ht : tasks.entries[index]? = some (name, t)) :
          t ∈ kind.children :=
        TaskKind.mem_children_of_slots hl (List.mem_map_of_mem (List.mem_of_getElem? ht))
      rw [taskAt?]
      simp only [Option.bind_eq_bind, Option.bind_eq_some_iff, Prod.exists, Task.kind]
      constructor
      · rintro ⟨v, hv, hp, hu⟩
        obtain rfl | ⟨slot, tasks, hl, hv⟩ := mem_visits.1 hv
        · cases hp
        · obtain ⟨rfl, name, t, ht, h⟩ := NamedMap.exists_visit_iff.1 ⟨v, hv, hp, hu⟩
          exact ⟨_, tasks, TaskKind.find?_slots.2 hl, name, t, ht, (ih t (hc hl ht) ..).1 h⟩
      · rintro ⟨slot, tasks, hl, name, t, ht, h⟩
        obtain rfl : slot = step.slot := by simpa using List.find?_some hl
        have hl := TaskKind.find?_slots.1 hl
        have h := (ih t (hc hl ht) p (s!"{step.slot.pathIn path}.{name}") tasks.names).2 h
        obtain ⟨v, hv, hp, hu⟩ := NamedMap.exists_visit_iff.2 ⟨rfl, name, t, ht, h⟩
        exact ⟨v, mem_visits.2 (.inr ⟨_, tasks, hl, hv⟩), hp, hu⟩

/-- The tasks are visited in the order of the document, so each position at most once. -/
theorem pairwise_visits (t : Task) (path : String) (siblings : List String) :
    (t.visits path siblings).Pairwise fun v u => v.position.Before u.position := by
  induction t using induction generalizing path siblings with
  | step fields kind extra ih =>
    rw [visits_mk, List.pairwise_cons, List.pairwise_flatMap]
    refine ⟨fun v hv => ?_, fun ⟨slot, tasks⟩ hl => ?_, ?_⟩
    · obtain ⟨⟨slot, tasks⟩, -, hv⟩ := List.mem_flatMap.1 hv
      obtain ⟨_, _, _, _, v, _, rfl⟩ := NamedMap.mem_visits.1 hv
      exact .nil
    · exact NamedMap.pairwise_visits fun t ht => ih t (TaskKind.mem_children_of_slots hl ht)
    · refine kind.pairwise_slots.imp fun {a b} hr v hv u hu => ?_
      obtain ⟨_, _, _, _, v, _, rfl⟩ := NamedMap.mem_visits.1 hv
      obtain ⟨_, _, _, _, u, _, rfl⟩ := NamedMap.mem_visits.1 hu
      exact .rel (.inl hr)

end Task

end

/-! ## Visits of the check -/

section

variable {components : Option Components} {observe : Task → TaskCheck} {path : String}
  {tasks : NamedMap Task}

/-- The check of a task that asks an observer at each task. -/
def Task.checkWith (components : Option Components) (observe : Task → TaskCheck) :
    Task → TaskCheck :=
  para fun t kind path siblings => do
    observe t path siblings
    t.fields.check components path siblings
    kind.check components path siblings

/-- Without a violation to find, an observer changes nothing. -/
theorem Task.checkWith_ok : checkWith components (fun _ _ _ => .ok ()) = check components := rfl

/-- The observer finds nothing at the visit. -/
def TaskVisit.Passes (observe : Task → TaskCheck) (v : TaskVisit) : Prop :=
  observe v.task v.path v.siblings = .ok ()

/-- The check of a task comes to its visits. -/
def Task.IsObserved (components : Option Components) (observe : Task → TaskCheck) (t : Task) :
    Prop :=
  ∀ (path : String) (siblings : List String),
    t.checkWith components observe path siblings = .ok () ↔
      t.check components path siblings = .ok () ∧ ∀ v ∈ t.visits path siblings, v.Passes observe

theorem NamedMap.forall_visits {slot : TaskSlot} :
    (∀ v ∈ (tasks.map Task.visits).visits slot path, v.Passes observe) ↔
      ∀ e ∈ tasks.entries, ∀ v ∈ e.2.visits s!"{path}.{e.1}" tasks.names, v.Passes observe := by
  constructor
  · rintro h ⟨name, t⟩ he v hv
    obtain ⟨index, he⟩ := List.getElem?_of_mem he
    exact h (v.under ⟨slot, index⟩) (mem_visits.2 ⟨index, name, t, he, v, hv, rfl⟩)
  · intro h v hv
    obtain ⟨index, name, t, ht, w, hw, rfl⟩ := mem_visits.1 hv
    exact h _ (List.mem_of_getElem? ht) w hw

theorem checkList_map_eq_ok {f : Task → TaskCheck} :
    checkList path (tasks.map f) = .ok () ↔
      tasks.isEmpty = false ∧
        ∀ e ∈ tasks.entries, f e.2 s!"{path}.{e.1}" tasks.names = .ok () := by
  rw [checkList, Check.guard_eq_ok, Check.list_forM_eq_ok, NamedMap.isEmpty_map,
    NamedMap.names_map, Bool.not_eq_true]
  exact and_congr_right fun _ => List.forall_mem_map

theorem checkList_observed (path : String) (slot : TaskSlot)
    (h : ∀ t ∈ tasks.values, t.IsObserved components observe) :
    checkList path (tasks.map (Task.checkWith components observe)) = .ok () ↔
      checkList path (tasks.map (Task.check components)) = .ok () ∧
        ∀ v ∈ (tasks.map Task.visits).visits slot path, v.Passes observe := by
  rw [NamedMap.forall_visits, checkList_map_eq_ok, checkList_map_eq_ok, and_assoc, ← forall₂_and]
  refine and_congr_right fun _ => forall₂_congr fun e he => ?_
  exact h e.2 (List.mem_map_of_mem he) _ _

theorem checkOptionalList_observed (path : String) (slot : TaskSlot)
    (h : ∀ t ∈ tasks.values, t.IsObserved components observe) :
    checkOptionalList path (tasks.map (Task.checkWith components observe)) = .ok () ↔
      checkOptionalList path (tasks.map (Task.check components)) = .ok () ∧
        ∀ v ∈ (tasks.map Task.visits).visits slot path, v.Passes observe := by
  simp only [checkOptionalList, NamedMap.isEmpty_map]
  split
  · next he =>
    have hn : tasks.entries = [] := List.isEmpty_iff.1 he
    simp [NamedMap.visits_map, hn]
  · exact checkList_observed path slot h

/-- The check of a kind comes to the tasks of all its lists. -/
theorem TaskKind.check_observed {kind : TaskKind Task} {siblings : List String}
    (h : ∀ t ∈ kind.children, t.IsObserved components observe) :
    (kind.map (Task.checkWith components observe)).check components path siblings = .ok () ↔
      (kind.map (Task.check components)).check components path siblings = .ok () ∧
        ∀ l ∈ kind.slots, ∀ v ∈ (l.2.map Task.visits).visits l.1 (l.1.pathIn path),
          v.Passes observe := by
  cases kind with
  | do_ tasks =>
    rw [slots, List.forall_mem_singleton]
    exact checkList_observed _ .body h
  | for_ t =>
    rw [slots, List.forall_mem_singleton]
    simp only [map, check, Check.guard_eq_ok, and_assoc]
    exact and_congr_right fun _ => checkList_observed _ .body h
  | fork b =>
    rw [slots, List.forall_mem_singleton]
    simp only [map, check, Check.guard_eq_ok, and_assoc, NamedMap.size_map]
    exact and_congr_right fun _ => checkList_observed _ .branches h
  | listen t =>
    obtain ⟨listener, _ | s⟩ := t
    · simp [map, slots, check]
    · simp only [map, slots, check, Option.map_some, Option.toList_some, List.forall_mem_singleton,
        Check.bind_eq_ok, Check.option_forM_eq_ok, Option.mem_some_iff, forall_eq', and_assoc]
      exact and_congr_right fun _ => checkOptionalList_observed _ .subscription h
  | try_ t =>
    have ha := checkList_observed s!"{path}.try" .attempt fun u hu =>
      h u (List.mem_append_left _ hu)
    have hh := checkOptionalList_observed s!"{path}.catch.do" .handler fun u hu =>
      h u (List.mem_append_right _ hu)
    simp only [map, slots, check, List.forall_mem_cons, Check.bind_eq_ok, ha, hh]
    simp only [TaskSlot.pathIn, List.not_mem_nil, false_imp_iff, implies_true, and_true]
    tauto
  | _ => simp [map, slots, check]

namespace Task

theorem checkWith_mk (fields : TaskFields) (kind : TaskKind Task) (extra : OrderedMap Node)
    (path : String) (siblings : List String) :
    (mk fields kind extra).checkWith components observe path siblings = .ok () ↔
      observe (mk fields kind extra) path siblings = .ok () ∧
        fields.check components path siblings = .ok () ∧
          (kind.map (checkWith components observe)).check components path siblings = .ok () := by
  rw [checkWith, para_mk, Check.bind_eq_ok, Check.bind_eq_ok]
  rfl

/-- The check of a task comes to all tasks that are visited, each by its path. -/
theorem isObserved (t : Task) : t.IsObserved components observe := by
  induction t using induction with
  | step fields kind extra ih =>
    intro path siblings
    rw [checkWith_mk, check_mk, TaskKind.check_observed ih, visits_mk, List.forall_mem_cons]
    simp only [List.forall_mem_flatMap]
    have hv : TaskVisit.Passes observe ⟨[], path, siblings, mk fields kind extra⟩ ↔
        observe (mk fields kind extra) path siblings = .ok () := Iff.rfl
    rw [hv]
    tauto

end Task

end

/-! ## Walks -/

namespace NamedMap

variable {slot : TaskSlot} {path : String} {tasks : NamedMap Task}

theorem walk_map (path key : String) (tasks : NamedMap Task) :
    ((tasks.map Task.walk).entries.flatMap fun (name, walk) => walk s!"{path}.{key}.{name}") =
      tasks.walk s!"{path}.{key}" := by
  rw [map, Entries.mapValues, List.flatMap_map]
  rfl

/-- Among the visits of a list that a walk goes into, a walk has those that it comes to. -/
theorem filter_visits (hs : slot.isWalked = true)
    (ih : ∀ t ∈ tasks.values, ∀ (path : String) (siblings : List String),
      ((t.visits path siblings).filter (·.isWalked)).map (·.entry) = t.walk path) :
    (((tasks.map Task.visits).visits slot path).filter (·.isWalked)).map (·.entry) =
      tasks.walk path := by
  have he : tasks.entries = tasks.entries.zipIdx.map Prod.fst := (List.zipIdx_map_fst ..).symm
  rw [walk, he, List.flatMap_map, visits_map, List.filter_flatMap, List.map_flatMap]
  refine List.flatMap_congr fun ⟨⟨name, t⟩, index⟩ hm => ?_
  have ht : t ∈ tasks.values := List.mem_map_of_mem (List.fst_mem_of_mem_zipIdx hm)
  dsimp only
  rw [← ih t ht _ tasks.names, List.filter_map, List.map_map]
  refine congrArg₂ _ rfl (List.filter_congr fun v _ => ?_)
  simp [TaskVisit.isWalked, TaskVisit.under, hs]

theorem filter_visits_eq_nil (hs : slot.isWalked = false) :
    ((tasks.map Task.visits).visits slot path).filter (·.isWalked) = [] := by
  refine List.filter_eq_nil_iff.2 fun v hv => ?_
  obtain ⟨index, _, _, _, w, _, rfl⟩ := mem_visits.1 hv
  simp [TaskVisit.isWalked, TaskVisit.under, hs]

end NamedMap

namespace Task

theorem walk_mk_nested (fields : TaskFields) (kind : TaskKind Task) (extra : OrderedMap Node)
    (path : String) :
    (mk fields kind extra).walk path = (path, mk fields kind extra) ::
      match (kind.map walk).nested? with
      | some (key, tasks) =>
        tasks.entries.flatMap fun (name, walk) => walk s!"{path}.{key}.{name}"
      | none => [] :=
  congrFun (para_mk fields kind extra) path

theorem walk_mk (fields : TaskFields) (kind : TaskKind Task) (extra : OrderedMap Node)
    (path : String) :
    (mk fields kind extra).walk path = (path, mk fields kind extra) ::
      kind.slots.flatMap fun l => if l.1.isWalked then l.2.walk (l.1.pathIn path) else [] := by
  rw [walk_mk_nested]
  cases kind with
  | listen t =>
    obtain ⟨_, _ | s⟩ := t <;>
      simp [TaskKind.nested?, TaskKind.map, TaskKind.slots, TaskSlot.isWalked]
  | _ =>
    simp [TaskKind.nested?, TaskKind.map, TaskKind.slots, TaskSlot.isWalked, NamedMap.walk_map]
      <;> simp [TaskSlot.pathIn, String.append_assoc, toString]

theorem walk_eq (t : Task) (path : String) (siblings : List String) :
    ((t.visits path siblings).filter (·.isWalked)).map (·.entry) = t.walk path := by
  induction t using induction generalizing path siblings with
  | step fields kind extra ih =>
    rw [walk_mk, visits_mk, List.filter_cons_of_pos rfl, List.map_cons, List.filter_flatMap,
      List.map_flatMap]
    refine congrArg _ (List.flatMap_congr fun ⟨slot, tasks⟩ hl => ?_)
    dsimp only
    split
    · next hs =>
      exact NamedMap.filter_visits hs fun t ht => ih t (TaskKind.mem_children_of_slots hl ht)
    · next hs =>
      rw [NamedMap.filter_visits_eq_nil (Bool.eq_false_iff.2 hs), List.map_nil]

end Task

namespace Workflow

/-- The visits go over all tasks of a document. -/
structure IsTraversal (w : Workflow) (visits : List TaskVisit) : Prop where
  /-- From each task to one further down, so none is visited twice. -/
  ordered : visits.Pairwise fun v u => v.position.Before u.position
  /-- All tasks of the tree are visited, each where it stands. -/
  complete : ∀ p t, (∃ v ∈ visits, v.position = p ∧ v.task = t) ↔ w.taskAt? p = some t
  /-- Each task is visited by the path, and among the tasks, by which the check comes to it: what
  is asked at each task in the course of the check is asked at the visits. -/
  checked : ∀ observe : Task → TaskCheck,
    checkList "do" (w.tasks.map (Task.checkWith w.components observe)) = .ok () ↔
      checkTasks w.components "do" w.tasks = .ok () ∧ ∀ v ∈ visits, v.Passes observe

theorem IsTraversal.nodup {w : Workflow} {visits : List TaskVisit} (h : w.IsTraversal visits) :
    (visits.map (·.position)).Nodup := by
  rw [List.Nodup, List.pairwise_map]
  refine h.ordered.imp fun {v u} hb he => ?_
  rw [he] at hb
  exact u.position.not_before_self hb

theorem isTraversal_visits (w : Workflow) : w.IsTraversal w.visits where
  ordered := NamedMap.pairwise_visits fun t _ => t.pairwise_visits
  complete p t := by
    cases p with
    | nil =>
      refine ⟨fun ⟨v, hv, hp, _⟩ => ?_, nofun⟩
      obtain ⟨_, _, _, _, u, _, rfl⟩ := NamedMap.mem_visits.1 hv
      cases hp
    | cons step p =>
      obtain ⟨slot, index⟩ := step
      rw [visits, NamedMap.exists_visit_iff]
      simp only [Task.exists_visit_iff]
      cases slot with
      | body => simp [taskAt?, Option.bind_eq_some_iff]
      | _ => simp [taskAt?]
  checked observe := checkList_observed _ .body fun t _ => t.isObserved

theorem walk_eq (w : Workflow) : w.walk = (w.visits.filter (·.isWalked)).map (·.entry) :=
  (NamedMap.filter_visits rfl fun t _ => t.walk_eq).symm

/-- **A walk lists all tasks, each by the path by which the check comes to it, exactly when no task
stands in the list of a handler or of a subscription.** -/
theorem walk_eq_visits_iff (w : Workflow) :
    w.IsTraversal w.visits ∧ w.walk = (w.visits.filter (·.isWalked)).map (·.entry) ∧
      (w.walk = w.visits.map (·.entry) ↔ ∀ v ∈ w.visits, v.isWalked = true) := by
  refine ⟨w.isTraversal_visits, w.walk_eq, ?_⟩
  rw [walk_eq]
  constructor
  · intro h
    refine List.filter_eq_self.1 (List.filter_sublist.eq_of_length ?_)
    simpa using congrArg List.length h
  · intro h
    rw [List.filter_eq_self.2 h]

end Workflow

end WorkflowDsl
