import WorkflowDsl.Proofs.Model.Nesting

/-!
# Numbers of parts

How many parts a task needs: `TaskKind.WellSized` says it for each kind, without looking into the
tasks inside, and `EventStrategy.WellSized` and `Process.WellSized` for what a task listens to and
runs. What the checks accept is well-sized, so all tasks of a document without violations are, at
any depth, and its extensions have tasks (`Workflow.allWellSized_of_check`).
-/

namespace WorkflowDsl

/-! ## Well-sized parts -/

/-- Several filters are at least one, and only the consumption of any event has an end. -/
@[mk_iff wellSized_iff]
structure EventStrategy.WellSized (s : EventStrategy) : Prop where
  filtered : ∀ filters ∈ s.selection.filters?, 1 ≤ filters.length
  any_of_until : s.until?.isSome = true → ∃ filters, s.selection = .any filters

/-- A script has exactly one of code and source. -/
def Process.WellSized : Process → Prop
  | script p => (p.code.isSome = true ∧ p.source = none) ∨ (p.code = none ∧ p.source.isSome = true)
  | _ => True

/-- A kind has as many parts as it needs. The tasks inside are not looked into. -/
def TaskKind.WellSized {τ : Type} : TaskKind τ → Prop
  | do_ tasks => 1 ≤ tasks.size
  | emit e => 1 ≤ e.event.attributes.size
  | for_ t => 1 ≤ t.tasks.size
  | fork b => 2 ≤ b.branches.size
  | listen t => t.listener.strategy.WellSized
  | run r => r.process.WellSized
  | set values => 1 ≤ values.size
  | switch cases => 1 ≤ cases.size ∧ (cases.values.filter SwitchCase.isDefault).length ≤ 1
  | try_ t => 1 ≤ t.tasks.size
  | _ => True

/-- There is a task before or after the extended ones. -/
def Extension.WellSized (e : Extension) : Prop := 1 ≤ e.before.size ∨ 1 ≤ e.after.size

theorem NamedMap.one_le_size_iff {α : Type} {m : NamedMap α} :
    1 ≤ m.size ↔ ¬m.isEmpty = true := by
  obtain ⟨_ | ⟨e, es⟩⟩ := m <;> simp [isEmpty, size]

theorem OrderedMap.one_le_size_iff {α : Type} {m : OrderedMap α} :
    1 ≤ m.size ↔ ¬m.isEmpty = true := by
  obtain ⟨_ | ⟨e, es⟩⟩ := m <;> simp [isEmpty, size]

theorem TaskKind.wellSized_map {τ σ : Type} (f : τ → σ) (k : TaskKind τ) :
    (k.map f).WellSized ↔ k.WellSized := by
  cases k with
  | do_ tasks => simp only [map, WellSized, NamedMap.size_map]
  | for_ t => simp only [map, WellSized, NamedMap.size_map]
  | fork b => simp only [map, WellSized, NamedMap.size_map]
  | try_ t => simp only [map, WellSized, NamedMap.size_map]
  | _ => exact Iff.rfl

/-! ## Checks -/

section

variable {components : Option Components} {path : String} {siblings : List String}

theorem EventStrategy.check_eq_ok {s : EventStrategy} : s.check path = .ok () ↔ s.WellSized := by
  have hf : s.selection.filters?.any List.isEmpty = true ↔
      ¬∀ filters ∈ s.selection.filters?, 1 ≤ filters.length := by
    cases s.selection.filters? with
    | none => simp
    | some filters => cases filters <;> simp
  have hu : (s.selection.key != "any" && s.until?.isSome) = true ↔
      ¬(s.until?.isSome = true → ∃ filters, s.selection = .any filters) := by
    cases s.selection with
    | all filters => simp [EventSelection.key, Option.isSome_iff_ne_none]
    | any filters => simp [EventSelection.key]
    | one filter => simp [EventSelection.key, Option.isSome_iff_ne_none]
  unfold check
  split
  · next h => exact iff_of_false nofun fun hs => hf.1 h hs.filtered
  · next h =>
    split
    · next h' => exact iff_of_false nofun fun hs => hu.1 h' hs.any_of_until
    · next h' => exact iff_of_true rfl ⟨not_not.1 (mt hf.2 h), not_not.1 (mt hu.2 h')⟩

theorem Process.wellSized_of_check {p : Process} (h : p.check path = .ok ()) : p.WellSized := by
  cases p with
  | script p =>
    unfold check at h
    dsimp only at h
    split at h
    · cases h
    cases hc : p.code with
    | some code =>
      cases hs : p.source with
      | some source => simp [hc, hs] at h
      | none => exact .inl ⟨by simp [hc], hs⟩
    | none =>
      cases hs : p.source with
      | some source => exact .inr ⟨hc, by simp [hs]⟩
      | none => simp [hc, hs] at h
  | _ => trivial

theorem size_of_checkList {tasks : NamedMap TaskCheck} (h : checkList path tasks = .ok ()) :
    1 ≤ tasks.size := by
  unfold checkList at h
  split at h
  · cases h
  next he => exact NamedMap.one_le_size_iff.2 he

theorem wellSized_of_checkSwitch {cases : NamedMap SwitchCase}
    (h : checkSwitch path siblings cases = .ok ()) :
    1 ≤ cases.size ∧ (cases.values.filter SwitchCase.isDefault).length ≤ 1 := by
  have hv : (cases.values.filter SwitchCase.isDefault).length =
      (cases.entries.filter (·.2.isDefault)).length := by
    rw [NamedMap.values, Entries.values, List.filter_map, List.length_map]
    rfl
  unfold checkSwitch at h
  split at h
  · cases h
  next he =>
    refine ⟨NamedMap.one_le_size_iff.2 he, ?_⟩
    rw [hv]
    split at h
    · cases h
    next hd =>
      -- Two defaults are the case that is refused.
      rcases hl : cases.entries.filter (·.2.isDefault) with _ | ⟨first, _ | ⟨second, rest⟩⟩
      · simp [hl]
      · simp [hl]
      · exact absurd hl (hd first second.1 second.2 rest)

theorem TaskKind.wellSized_of_check {k : TaskKind TaskCheck}
    (h : k.check components path siblings = .ok ()) : k.WellSized := by
  cases k with
  | do_ tasks => exact size_of_checkList h
  | emit e =>
    rw [check] at h
    split at h
    · cases h
    next he => exact OrderedMap.one_le_size_iff.2 he
  | for_ t =>
    rw [check] at h
    split at h
    · cases h
    · exact size_of_checkList h
  | fork b =>
    rw [check] at h
    split at h
    · cases h
    next hb => exact Nat.le_of_not_lt hb
  | listen t => exact EventStrategy.check_eq_ok.1 (Check.bind_eq_ok.1 h).1
  | run r => exact Process.wellSized_of_check h
  | set values =>
    rw [check] at h
    split at h
    · cases h
    next he => exact OrderedMap.one_le_size_iff.2 he
  | switch cases => exact wellSized_of_checkSwitch h
  | try_ t => exact size_of_checkList (check_try_eq_ok.1 h).1
  | _ => trivial

theorem Task.wellSized_of_passes {t : Task} (h : (t.check components).Passes) :
    t.kind.WellSized := by
  obtain ⟨fields, kind, extra⟩ := t
  obtain ⟨path, siblings, h⟩ := h
  obtain ⟨-, hk⟩ := (check_mk ..).1 h
  exact (TaskKind.wellSized_map _ kind).1 (TaskKind.wellSized_of_check hk)

theorem Extension.wellSized_of_check {e : Extension} (h : e.check components path = .ok ()) :
    e.WellSized := by
  obtain ⟨he, -⟩ := check_eq_ok.1 h
  by_cases hb : e.before.isEmpty = true
  · have ha : ¬e.after.isEmpty = true := by simpa [hb] using he
    exact .inr (NamedMap.one_le_size_iff.2 ha)
  · exact .inl (NamedMap.one_le_size_iff.2 hb)

end

namespace Workflow

/-- The extensions that a document declares. -/
def extensions (w : Workflow) : List Extension :=
  w.components.toList.flatMap (·.extensions.values)

/-- **In a document without violations, all tasks have as many parts as they need, at any depth, and
all extensions have tasks.** -/
theorem allWellSized_of_check {w : Workflow} (h : w.check = .ok ()) :
    (∀ t ∈ w.allTasks, t.kind.WellSized) ∧ ∀ e ∈ w.extensions, e.WellSized := by
  constructor
  · intro t ht
    exact Task.wellSized_of_passes (passes_of_mem_allTasks h ht)
  · intro e he
    obtain ⟨c, hc, he⟩ := List.mem_flatMap.1 he
    have hc : w.components = some c := Option.mem_toList.1 hc
    obtain ⟨path, h⟩ := ((checked_of_check h).components c hc).extensions e he
    exact Extension.wellSized_of_check h

/-- Before every call, two tasks run at once: one counts and one listens. -/
def guardedCall : Workflow where
  info := { name := "guarded", version := "1.0.0" }
  components := some {
    extensions := ⟨[("guard", {
      extend := "call"
      before := ⟨[("both", .ofKind (.fork { branches := ⟨[
        ("count", .ofKind (.set ⟨[("calls", .number (.int 1))]⟩)),
        ("hear", .ofKind (.listen { listener :=
          { strategy := .untilExpression (.any [{}]) "${ .calls > 3 }" } }))]⟩ }))]⟩ })]⟩ }
  tasks := ⟨[("ping", .ofKind (.call { function := "ping" }))]⟩

theorem allWellSized_of_check_guardedCall :
    guardedCall.check = .ok () ∧ (∀ t ∈ guardedCall.allTasks, t.kind.WellSized) ∧
      ∀ e ∈ guardedCall.extensions, e.WellSized :=
  ⟨rfl, allWellSized_of_check rfl⟩

end Workflow

end WorkflowDsl
