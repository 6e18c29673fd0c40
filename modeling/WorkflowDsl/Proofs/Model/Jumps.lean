import WorkflowDsl.Proofs.Model.Nesting

/-!
# Jumps

A task jumps by its own directive, and a switch also by those of its cases. `Task.targets` are the
tasks that are jumped to. A directive is checked against the names of one list
(`FlowDirective.check_eq_ok`); that this is the list of the task itself, at any depth, is
`Workflow.target_mem_names_of_check`.
-/

namespace WorkflowDsl

/-! ## Targets -/

/-- The tasks that the directives of a switch jump to. -/
def TaskKind.targets {τ : Type} : TaskKind τ → List String
  | switch cases => cases.values.filterMap (·.next.target?)
  | _ => []

/-- The tasks that a task jumps to, without those that the tasks inside of it do. -/
def Task.targets (t : Task) : List String :=
  (t.fields.next.bind FlowDirective.target?).toList ++ t.kind.targets

theorem FlowDirective.target?_eq_some {d : FlowDirective} {task : String} :
    d.target? = some task ↔ d = .goto task := by
  cases d <;> simp [target?]

/-- The targets of a task are those of its `goto` directives. -/
theorem Task.mem_targets {t : Task} {target : String} :
    target ∈ t.targets ↔
      t.fields.next = some (.goto target) ∨
        ∃ cases, t.kind = .switch cases ∧ ∃ c ∈ cases.values, c.next = .goto target := by
  have hn : target ∈ (t.fields.next.bind FlowDirective.target?).toList ↔
      t.fields.next = some (.goto target) := by
    simp [Option.bind_eq_some_iff, FlowDirective.target?_eq_some]
  have hk : target ∈ t.kind.targets ↔
      ∃ cases, t.kind = .switch cases ∧ ∃ c ∈ cases.values, c.next = .goto target := by
    cases t.kind <;> simp [TaskKind.targets, FlowDirective.target?_eq_some]
  rw [targets, List.mem_append, hn, hk]

theorem TaskKind.targets_map {τ σ : Type} (f : τ → σ) (k : TaskKind τ) :
    (k.map f).targets = k.targets := by
  cases k <;> rfl

/-! ## Checks -/

section

variable {components : Option Components} {path : String} {siblings : List String}

/-- A directive is accepted if it does not jump, or jumps to a task of the list. -/
theorem FlowDirective.check_eq_ok {d : FlowDirective} :
    d.check path siblings = .ok () ↔ ∀ target ∈ d.target?, target ∈ siblings := by
  unfold check
  cases d.target? with
  | none => simp
  | some task =>
    by_cases hm : task ∈ siblings
    · simp [hm]
    · simp [hm]

theorem next_check_of_checkSwitch {cases : NamedMap SwitchCase}
    (h : checkSwitch path siblings cases = .ok ()) {c : SwitchCase} (hc : c ∈ cases.values) :
    ∃ path, c.next.check path siblings = .ok () := by
  unfold checkSwitch at h
  split at h
  · cases h
  split at h
  · cases h
  · obtain ⟨name, h⟩ := Check.of_forM_entries h hc
    exact ⟨_, h⟩

theorem TaskKind.target_mem_of_check {k : TaskKind TaskCheck}
    (h : k.check components path siblings = .ok ()) {target : String} (ht : target ∈ k.targets) :
    target ∈ siblings := by
  cases k with
  | switch cases =>
    obtain ⟨c, hc, ht⟩ := List.mem_filterMap.1 ht
    obtain ⟨path, h⟩ := next_check_of_checkSwitch h hc
    exact FlowDirective.check_eq_ok.1 h target ht
  | _ => cases ht

theorem TaskFields.target_mem_of_check {f : TaskFields}
    (h : f.check components path siblings = .ok ()) {target : String}
    (ht : target ∈ f.next.bind FlowDirective.target?) : target ∈ siblings := by
  obtain ⟨d, hd, ht⟩ := Option.bind_eq_some_iff.1 ht
  have hn := Check.option_forM_eq_ok.1 (checked_of_check h).next d hd
  exact FlowDirective.check_eq_ok.1 hn target ht

/-- Where a task passes, the tasks that it jumps to are there. -/
theorem Task.target_mem_of_passesAmong {t : Task}
    (h : (t.check components).PassesAmong siblings) {target : String} (ht : target ∈ t.targets) :
    target ∈ siblings := by
  obtain ⟨fields, kind, extra⟩ := t
  obtain ⟨path, h⟩ := h
  obtain ⟨hf, hk⟩ := (check_mk ..).1 h
  rcases List.mem_append.1 ht with ht | ht
  · exact TaskFields.target_mem_of_check hf (Option.mem_toList.1 ht)
  · refine TaskKind.target_mem_of_check hk ?_
    rwa [TaskKind.targets_map]

end

namespace Workflow

/-- **In a document without violations, all tasks of a list, at any depth, jump to tasks of that
same list, and functions do not jump.** -/
theorem target_mem_names_of_check {w : Workflow} (h : w.check = .ok ()) :
    (∀ tasks ∈ w.lists, ∀ t ∈ tasks.values, ∀ target ∈ t.targets, target ∈ tasks.names) ∧
      ∀ t ∈ w.functions, t.targets = [] := by
  constructor
  · intro tasks hl t ht target hm
    exact Task.target_mem_of_passesAmong (passesAmong_of_mem_lists h hl ht) hm
  · intro t ht
    refine List.eq_nil_iff_forall_not_mem.2 fun target hm => ?_
    have hn := Task.target_mem_of_passesAmong (passesAmong_of_mem_functions h ht) hm
    exact List.not_mem_nil hn

/-- A retry, in the tasks of a function: a task waits, and a switch jumps back to it. -/
def waitingLoop : Workflow where
  info := { name := "loop", version := "1.0.0" }
  components := some {
    functions := ⟨[("poll", .ofKind (.do_ ⟨[
      ("pause", .ofKind (.wait (.text "PT1S"))),
      ("again", .ofKind (.switch ⟨[("late", { next := .goto "pause" })]⟩))]⟩))]⟩ }
  tasks := ⟨[("poll", .ofKind (.call { function := "poll" }))]⟩

theorem target_mem_names_of_check_waitingLoop :
    waitingLoop.check = .ok () ∧
      (∀ tasks ∈ waitingLoop.lists, ∀ t ∈ tasks.values, ∀ target ∈ t.targets,
        target ∈ tasks.names) ∧
      ∀ t ∈ waitingLoop.functions, t.targets = [] :=
  ⟨rfl, target_mem_names_of_check rfl⟩

end Workflow

end WorkflowDsl
