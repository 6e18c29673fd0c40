import WorkflowDsl.Proofs.Draft.Oversight
import WorkflowDsl.Proofs.Draft.Verdict

/-!
# Oversights of tasks

A task is built from its draft once the tasks inside of it are. If it passes the check of a
document, and the names in its lists are distinct, its kind adds no more reasons to be refused than
its oversights (`TaskKind.builds_draft_iff`). So the task is built exactly when neither it nor any
task inside of it has an oversight (`Task.builds_draft_iff`).
-/

namespace WorkflowDsl

/-! ## Lists -/

section

variable {path : String} {tasks : NamedMap Built}

theorem builds_collectTasks :
    Builds (collectTasks path tasks.entries) ↔ ∀ t ∈ tasks.values, Builds t := by
  rw [collectTasks, builds_map, builds_buildNamed]
  exact List.forall_mem_map.symm

theorem builds_collectSeveral (hn : tasks.names.Nodup) (hs : 2 ≤ tasks.size) :
    Builds (collectSeveral path tasks.entries) ↔ ∀ t ∈ tasks.values, Builds t := by
  have hnames : (Entries.keys tasks.entries).eraseDups = tasks.names := by
    rw [← NamedMap.names_ofList, NamedMap.ofList, Entries.ofList_of_nodup hn]
  have hr : requireNames 2 path tasks.entries = .ok () := by
    rw [requireNames_eq_ok, hnames]
    exact hs.trans_eq (List.length_map _).symm
  rw [← builds_collectTasks, builds_iff_verdict, verdict_collectSeveral, hr, Check.bind_ok,
    ← builds_iff_verdict]

theorem requireTasks_eq_ok (h : 1 ≤ tasks.size) : requireTasks path tasks.entries = .ok () := by
  obtain ⟨_ | ⟨e, es⟩⟩ := tasks
  · exact absurd h (by simp [NamedMap.size])
  · rfl

end

/-! ## Kinds -/

/-- The oversights of the retry policy that stands in a catcher itself. -/
def Catcher.oversights {τ : Type} (c : Catcher τ) : List Oversight :=
  (c.retry.bind OneOf.first?).toList.flatMap RetryPolicy.oversights

namespace TaskKind

variable {τ : Type}

/-- The names in each list of a kind: those of tasks, or of the cases of a switch. -/
def nameLists : TaskKind τ → List (List String)
  | switch cases => [cases.names]
  | k => k.lists.map NamedMap.names

/-- The names in each list of a kind are distinct. -/
def NamesDistinct (k : TaskKind τ) : Prop := ∀ names ∈ k.nameLists, names.Nodup

instance (k : TaskKind τ) : Decidable k.NamesDistinct :=
  inferInstanceAs (Decidable (∀ names ∈ k.nameLists, names.Nodup))

/-- The oversights of a kind, without those of the tasks inside. -/
def oversights : TaskKind τ → List Oversight
  | emit e => e.event.oversights
  | listen t => t.listener.strategy.oversights
  | raise (.second name) => if Text.isBlankText name then [.blankProblem] else []
  | run r => r.process.oversights
  | try_ t => t.catcher.oversights
  | _ => []

end TaskKind

theorem Listener.builds_draft_iff (l : Listener) :
    Builds l.draft.build ↔ Builds l.strategy.draft.buildStrategy := by
  have hr (d : ListenerDraft) (mode : EventReadMode) :
      (d.read mode).buildStrategy = d.buildStrategy := by
    obtain ⟨_ | selection, _ | nested | expression, m⟩ := d <;> rfl
  rw [ListenerDraft.build, builds_map, draft]
  cases l.mode with
  | none => rfl
  | some mode => rw [hr]

section

variable {components : Option Components} {path : String} {siblings : List String}

theorem Call.builds_of_check {c : Call} (h : c.check components path = .ok ()) :
    Builds c.build := by
  obtain ⟨hn, ⟨http, hh, -⟩, ⟨grpc, hg, -⟩, ⟨openApi, ho, -⟩, ⟨asyncApi, ha, -⟩⟩ :=
    checked_of_check h
  rw [build]
  dsimp only
  rw [builds_guard, hh, hg, ho, ha]
  exact ⟨fun hc => absurd hc hn, builds_ok c⟩

/-- The cases of a switch are built as they are. -/
theorem buildNamed_cases (cases : NamedMap SwitchCase) :
    buildNamed path SwitchCaseDraft.build (cases.map SwitchCase.draft).entries =
      .ok cases.entries := by
  refine mapM_eq_ok.2 (List.forall₂_map_left_iff.2 (List.forall₂_same.2 fun e _ => ?_))
  obtain ⟨name, c⟩ := e
  rfl

theorem builds_buildCases {cases : NamedMap SwitchCase}
    (h : checkSwitch path siblings cases = .ok ()) (hn : cases.names.Nodup) :
    Builds (buildCases (cases.map SwitchCase.draft).entries) := by
  have hm : (NamedMap.ofList cases.entries).entries = cases.entries := Entries.ofList_of_nodup hn
  unfold checkSwitch at h
  split at h
  · cases h
  next he =>
    have hd : ¬(cases.map SwitchCase.draft).entries.isEmpty = true := by
      rw [← NamedMap.isEmpty, NamedMap.isEmpty_map]
      exact he
    rw [buildCases]
    dsimp only
    rw [builds_guard, buildNamed_cases]
    refine ⟨fun hc => absurd hc hd, builds_bind.2 ⟨_, rfl, ?_⟩⟩
    split at h
    · cases h
    next hf =>
      -- The check has found at most one default among the same entries.
      rw [hm]
      split
      next first name c rest hs => exact absurd hs (hf first name c rest)
      next => exact builds_ok _

theorem Catcher.builds_draft_iff {c : Catcher Built}
    (h : c.retry.forM (RetryReference.check components path) = .ok ()) :
    Builds c.draft.build ↔ (∀ t ∈ c.tasks.values, Builds t) ∧ c.oversights = [] := by
  have hr : Builds (buildRetry c.retry) ↔ c.oversights = [] := by
    rw [oversights]
    cases hc : c.retry with
    | none => simp [buildRetry]
    | some r =>
      have hp := Check.option_forM_eq_ok.1 h r hc
      cases r with
      | first p => simpa [buildRetry, OneOf.first?] using RetryPolicy.builds_iff hp
      | second name => simp [buildRetry, OneOf.first?]
  have ht : Builds (collectTasks "do" c.draft.tasks) ↔ ∀ t ∈ c.tasks.values, Builds t :=
    builds_collectTasks
  rw [CatcherDraft.build, builds_both, ht, ← hr]
  exact and_comm

theorem builds_subscription {s : Option (Subscription Built)} :
    Builds ((s.map Subscription.draft).mapM SubscriptionDraft.build) ↔
      ∀ t ∈ (s.map fun s => s.tasks.values).getD [], Builds t := by
  cases s with
  | none => exact iff_of_true ⟨none, rfl⟩ nofun
  | some s =>
    have hs : Builds s.draft.build ↔ ∀ t ∈ s.tasks.values, Builds t := by
      rw [SubscriptionDraft.build, builds_map]
      exact builds_collectTasks
    exact builds_map.trans hs

/-- What is raised is built, unless it is a blank name. -/
theorem builds_buildRaise {p : ProblemReference} (h : p.check components path = .ok ()) :
    Builds (buildRaise (some (p.mapFirst Problem.draft))) ↔
      (TaskKind.raise p : TaskKind Task).oversights = [] := by
  cases p with
  | first p =>
    have hp : p.check "raise.error" = .ok () := p.portable_check _ _ h
    exact iff_of_true (builds_bind.2 ⟨p, rfl, builds_check_bind.2 ⟨hp, builds_ok _⟩⟩) rfl
  | second name =>
    by_cases hb : Text.isBlankText name = true <;>
      simp [buildRaise, OneOf.mapFirst, TaskKind.oversights, hb]

/-- A kind is built if the tasks inside are, and there is no oversight. -/
theorem TaskKind.builds_draft_iff {kind : TaskKind Task}
    (h : (kind.map (Task.check components)).check components path siblings = .ok ())
    (hn : kind.NamesDistinct) {d : KindDraft Built} (hd : (Task.builtInside kind).draft? = some d) :
    Builds d.build ↔
      (∀ t ∈ (Task.builtInside kind).children, Builds t) ∧ kind.oversights = [] := by
  have hs : (Task.builtInside kind).WellSized := by
    have hw := wellSized_of_check h
    rwa [wellSized_map, ← wellSized_map fun t => t.draft.build] at hw
  cases kind with
  | call c =>
    obtain rfl := Option.some.inj hd
    have hc : Builds c.build := Call.builds_of_check h
    simpa [KindDraft.build, Task.builtInside, map, children, oversights] using hc
  | do_ tasks =>
    obtain rfl := Option.some.inj hd
    rw [KindDraft.build, builds_check_bind, builds_map, builds_collectTasks]
    simp [requireTasks_eq_ok hs, oversights, Task.builtInside, map, children]
  | emit e =>
    obtain rfl := Option.some.inj hd
    simpa [KindDraft.build, Task.builtInside, map, children, oversights] using e.event.builds_iff
  | for_ t =>
    obtain rfl := Option.some.inj hd
    rw [KindDraft.build, builds_check_bind, builds_bind_ok, builds_collectTasks]
    simp [requireTasks_eq_ok hs, oversights, Task.builtInside, map, children]
  | fork b =>
    obtain rfl := Option.some.inj hd
    have hm : (b.branches.map fun t => t.draft.build).names.Nodup := by
      rw [NamedMap.names_map]
      exact hn b.branches.names List.mem_cons_self
    rw [KindDraft.build, builds_map, builds_collectSeveral hm hs]
    simp [oversights, Task.builtInside, map, children]
  | listen t =>
    obtain rfl := Option.some.inj hd
    obtain ⟨l, s⟩ := t
    have hl : Builds l.draft.build ↔ l.strategy.oversights = [] := by
      rw [l.builds_draft_iff]
      exact EventStrategy.builds_draft_iff_of_wellSized hs
    rw [KindDraft.build, builds_both, builds_mapError, hl, builds_subscription]
    exact and_comm
  | raise p =>
    obtain rfl := Option.some.inj hd
    have hr : Builds (buildRaise (some (p.mapFirst Problem.draft))) ↔ (raise p).oversights = [] :=
      builds_buildRaise h
    simpa [KindDraft.build, Task.builtInside, map, children] using hr
  | run r =>
    obtain rfl := Option.some.inj hd
    have hr : Builds r.process.draft.build ↔ r.process.oversights = [] :=
      Process.builds_draft_iff h
    simpa [KindDraft.build, Task.builtInside, map, children, oversights] using hr
  | set values =>
    obtain rfl := Option.some.inj hd
    have hv : ¬values.isEmpty = true := OrderedMap.one_le_size_iff.1 hs
    simp [KindDraft.build, hv, Task.builtInside, map, children, oversights]
  | switch cases =>
    obtain rfl := Option.some.inj hd
    have hc : Builds (buildCases (cases.map SwitchCase.draft).entries) :=
      builds_buildCases h (hn cases.names List.mem_cons_self)
    simpa [KindDraft.build, Task.builtInside, map, children, oversights] using hc
  | try_ t =>
    obtain rfl := Option.some.inj hd
    obtain ⟨-, hr, -⟩ := check_try_eq_ok.1 h
    have hc := Catcher.builds_draft_iff
      (c := ⟨t.catcher.filter, t.catcher.variable_, t.catcher.condition, t.catcher.exception,
        t.catcher.retry, t.catcher.tasks.map fun t => t.draft.build⟩) hr
    rw [KindDraft.build, builds_check_bind, builds_both, builds_mapError, builds_collectTasks, hc]
    rw [Task.builtInside, map, children, List.forall_mem_append, and_assoc]
    exact and_iff_right (requireTasks_eq_ok hs)
  | wait d =>
    obtain rfl := Option.some.inj hd
    have hw : d.check "wait" = .ok () := d.portable_check _ _ h
    simp [KindDraft.build, builds_check_bind, hw, Task.builtInside, map, children, oversights]
  | extension key definition => cases hd

/-! ## Tasks -/

namespace Task

/-- The oversights of a task and of the tasks inside of it. -/
def oversights (t : Task) : List Oversight := t.subtasks.flatMap (·.kind.oversights)

theorem oversights_mk (fields : TaskFields) (kind : TaskKind Task) (extra : OrderedMap Node) :
    (mk fields kind extra).oversights = kind.oversights ++ kind.children.flatMap oversights := by
  rw [oversights, subtasks_mk, List.flatMap_cons, List.flatMap_assoc]
  rfl

/-- A task that passes is built from its draft if no task in it has an oversight. -/
theorem builds_draft_iff {t : Task} (h : (t.check components).Passes)
    (hn : ∀ u ∈ t.subtasks, u.kind.NamesDistinct) :
    Builds t.draft.build ↔ t.oversights = [] := by
  revert hn
  refine induction_of_passes (P := fun t => (∀ u ∈ t.subtasks, u.kind.NamesDistinct) →
      (Builds t.draft.build ↔ t.oversights = []))
    (fun fields kind extra path siblings _ hk ih hn => ?_) h
  rw [subtasks_mk, List.forall_mem_cons] at hn
  obtain ⟨hd, hn⟩ := hn
  have hi : (∀ b ∈ (builtInside kind).children, Builds b) ↔
      kind.children.flatMap oversights = [] := by
    rw [builtInside, TaskKind.children_map, List.forall_mem_map, List.flatMap_eq_nil_iff]
    refine forall₂_congr fun t ht => ih t ht fun u hu => hn u ?_
    exact List.mem_flatMap.2 ⟨t, ht, hu⟩
  rw [oversights_mk, List.append_eq_nil_iff, ← hi]
  cases hb : (builtInside kind).draft? with
  | some d =>
    rw [build_draft hb, builds_map, TaskKind.builds_draft_iff hk hd hb]
    exact and_comm
  | none =>
    -- A kind that the language does not define has no tasks inside.
    rw [build_draft_of_none hb]
    cases kind with
    | extension key definition =>
      simp [builtInside, TaskKind.map, TaskKind.children, TaskKind.oversights]
    | _ => cases hb

end Task

end

end WorkflowDsl
