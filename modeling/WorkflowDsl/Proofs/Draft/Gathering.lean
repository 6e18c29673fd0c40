import WorkflowDsl.Proofs.Draft.Verdict

/-!
# Tasks that gather others

A fork, and a composite of either mode, need at least two tasks. The tasks are added one by one, and
a name may be used again. What counts is the number of distinct names, and it is counted once every
task that was added has been built, also those that another one replaces
(`Gathering.build_added`).
-/

namespace WorkflowDsl

/-- A task in the making that needs at least two tasks. -/
inductive Gathering where
  | fork (compete : Bool)
  | composite (mode : ExecutionMode) (compete : Bool)

namespace Gathering

/-- The kind in the making, with the tasks in the order in which they were added. -/
def kind {τ : Type} : Gathering → List (String × τ) → KindDraft τ
  | fork compete, added => .fork added compete
  | composite mode compete, added => .composite (some mode) added compete

/-- The field that the tasks stand under. -/
def path : Gathering → String
  | fork _ | composite .concurrent _ => "fork.branches"
  | composite .sequential _ => "do"

/-- The kind that is built. -/
def result : Gathering → NamedMap Task → TaskKind Task
  | fork compete, branches | composite .concurrent compete, branches =>
    .fork { branches, compete }
  | composite .sequential _, tasks => .do_ tasks

variable (g : Gathering) (fields : TaskFields) (added : List (String × TaskDraft))

theorem build_kind (tasks : List (String × Built)) :
    (g.kind tasks).build = (collectSeveral g.path tasks).map g.result := by
  rcases g with _ | ⟨_ | _, _⟩ <;> rfl

theorem buildInside_kind :
    TaskDraft.buildInside (g.kind added) = g.kind (TaskDraft.buildEach added) := by
  cases g <;> rfl

/-- All tasks are built before their names are counted. -/
theorem build_eq :
    (TaskDraft.pending fields (g.kind added)).build =
      buildNamed g.path TaskDraft.build added >>= fun ts =>
        requireNames 2 g.path added >>= fun _ => .ok (.mk fields (g.result (.ofList ts)) {}) := by
  have hnames :
      requireNames 2 g.path (TaskDraft.buildEach added) = requireNames 2 g.path added := by
    rw [TaskDraft.buildEach_eq, requireNames_mapValues]
  rw [TaskDraft.build, buildInside_kind, build_kind, collectSeveral_eq, hnames,
    ← TaskDraft.buildList, TaskDraft.buildList_eq]
  cases buildNamed g.path TaskDraft.build added with
  | error e => rfl
  | ok ts => cases requireNames 2 g.path added <;> rfl

variable {g fields added}

theorem builds_iff :
    Builds (TaskDraft.pending fields (g.kind added)).build ↔
      (∀ a ∈ added, Builds a.2.build) ∧ 2 ≤ (Entries.keys added).eraseDups.length := by
  rw [build_eq]
  exact builds_both.trans (and_congr builds_buildNamed (builds_check.trans requireNames_eq_ok))

theorem of_build_eq_ok {t : Task}
    (h : (TaskDraft.pending fields (g.kind added)).build = .ok t) :
    ∃ ts, Entries.Matching (fun d t => d.build = .ok t) added ts ∧
      t = .mk fields (g.result (.ofList ts)) {} := by
  rw [build_eq] at h
  obtain ⟨ts, hts, h⟩ := except_bind_eq_ok.1 h
  obtain ⟨_, -, h⟩ := except_bind_eq_ok.1 h
  exact ⟨ts, buildNamed_eq_ok.1 hts, (Except.ok.inj h).symm⟩

theorem build_eq_error {e : DefinitionError} :
    (TaskDraft.pending fields (g.kind added)).build = .error e ↔
      buildNamed g.path TaskDraft.build added = .error e ∨
        (∀ a ∈ added, Builds a.2.build) ∧ requireNames 2 g.path added = .error e := by
  rw [build_eq, except_bind_eq_error]
  refine or_congr_right ?_
  rw [← builds_buildNamed]
  constructor
  · rintro ⟨ts, hts, h⟩
    obtain h | ⟨_, -, h⟩ := except_bind_eq_error.1 h
    · exact ⟨⟨ts, hts⟩, h⟩
    · cases h
  · rintro ⟨⟨ts, hts⟩, h⟩
    exact ⟨ts, hts, except_bind_eq_error.2 (.inl h)⟩

theorem get?_built {ts : List (String × Task)}
    (h : Entries.Matching (fun d t => d.build = .ok t) added ts) (name : String) :
    (Entries.get? ts name).map .ok = (Entries.get? added name).map TaskDraft.build := by
  induction h with
  | nil => rfl
  | @cons a t added ts ha _ ih =>
    rw [Entries.get?_cons, Entries.get?_cons, ha.1]
    by_cases hn : t.1 = name
    · simp [hn, ha.2]
    · simp [hn, ih]

/-- Of the places of a name the first stays. -/
theorem names_ofList_built {ts : List (String × Task)}
    (h : Entries.Matching (fun d t => d.build = .ok t) added ts) :
    (NamedMap.ofList ts).names = (Entries.keys added).eraseDups := by
  rw [NamedMap.names_ofList, h.keys_eq]

/-- Of the tasks that are built for a name the last stays. -/
theorem get?_ofList_built {ts : List (String × Task)}
    (h : Entries.Matching (fun d t => d.build = .ok t) added ts) (name : String) :
    ((NamedMap.ofList ts).get? name).map .ok =
      (Entries.get? added.reverse name).map TaskDraft.build := by
  rw [NamedMap.get?_ofList]
  exact get?_built (List.forall₂_reverse_iff.2 h) name

/-- **A fork or composite counts distinct names.** It is built exactly when every task that was
added is and at least two names were used. Its list then has the names in the order in which they
were first used, and under each name the task that was added last.

Otherwise the first task that cannot be built decides the error, also when another one would have
replaced it, and where there is none the error tells how many names there are. -/
theorem build_added (g : Gathering) (fields : TaskFields) (added : List (String × TaskDraft)) :
    let names := (Entries.keys added).eraseDups
    let built := (TaskDraft.pending fields (g.kind added)).build
    (Builds built ↔ (∀ a ∈ added, Builds a.2.build) ∧ 2 ≤ names.length) ∧
      (∀ t, built = .ok t ↔
        (∀ a ∈ added, Builds a.2.build) ∧ 2 ≤ names.length ∧
          ∃ tasks : NamedMap Task, t = .mk fields (g.result tasks) {} ∧ tasks.names = names ∧
            ∀ name, (tasks.get? name).map .ok =
              (Entries.get? added.reverse name).map TaskDraft.build) ∧
      ∀ e, built = .error e ↔
        (∃ before name d after own, added = before ++ (name, d) :: after ∧
          (∀ a ∈ before, Builds a.2.build) ∧ d.build = .error own ∧
          e = own.within s!"{g.path}.{name}") ∨
        (∀ a ∈ added, Builds a.2.build) ∧ names.length < 2 ∧
          e = .cardinality g.path 2 names.length := by
  intro names built
  refine ⟨builds_iff, fun t => ?_, fun e => ?_⟩
  · constructor
    · intro h
      obtain ⟨hbuilds, hnames⟩ := builds_iff.1 ⟨t, h⟩
      obtain ⟨ts, hts, rfl⟩ := of_build_eq_ok h
      exact ⟨hbuilds, hnames, .ofList ts, rfl, names_ofList_built hts, get?_ofList_built hts⟩
    · rintro ⟨hbuilds, hnames, tasks, rfl, htasks, hlast⟩
      obtain ⟨t, ht⟩ : Builds built := builds_iff.2 ⟨hbuilds, hnames⟩
      obtain ⟨ts, hts, rfl⟩ := of_build_eq_ok ht
      -- The names and the task under each of them leave no other list.
      have heq : NamedMap.ofList ts = tasks := by
        have hnodup : (NamedMap.ofList ts).names.Nodup := Entries.nodup_keys_ofList ts
        apply NamedMap.eq_of_get?_eq hnodup ((names_ofList_built hts).trans htasks.symm)
        intro name
        apply Option.map_injective fun _ _ => Except.ok.inj
        exact (get?_ofList_built hts name).trans (hlast name).symm
      rw [ht, heq]
  · rw [build_eq_error, buildNamed_eq_error, requireNames_eq_error]

/-- A name that is used twice counts once, and the draft that is replaced has to build as well. -/
example (t : Task) :
    (TaskDraft.ofKind (.fork [("a", .finished t), ("a", .finished t)] true)).build =
        .error (.cardinality "fork.branches" 2 1) ∧
      (TaskDraft.ofKind (.fork [("a", .ofKind (.wait none)), ("a", .finished t),
          ("b", .finished t)] true)).build =
        .error (.missingField "WaitTaskDefinition" "fork.branches.a.wait") := by
  constructor <;> rfl

end Gathering

end WorkflowDsl
