import WorkflowDsl.Draft.Task
import WorkflowDsl.Proofs.Codec.Collection
import WorkflowDsl.Proofs.Model.Task

/-!
# Drafts of finished definitions

A definition is taken apart into the draft that holds the same values (`Process.draft`,
`EventStrategy.draft`, `Task.draft` and so on). Events, retry policies and most processes are their
own drafts. A task of a kind that the language does not define can only be handed over as it is, and
what a draft has no place for is left out: the other entries of a task, and the output of a
subscription.

`Builds` says that building succeeds.
-/

namespace WorkflowDsl

/-! ## Success -/

/-- Building succeeds. -/
def Builds {α : Type} (x : Except DefinitionError α) : Prop := ∃ a, x = .ok a

section

variable {α β : Type} {x : Except DefinitionError α}

@[simp] theorem builds_ok (a : α) : Builds (.ok a) := ⟨a, rfl⟩

@[simp] theorem not_builds_error (e : DefinitionError) : ¬Builds (.error e : Except _ α) := nofun

@[simp] theorem builds_map {f : α → β} : Builds (x.map f) ↔ Builds x := by
  cases x with
  | ok a => exact iff_of_true ⟨f a, rfl⟩ ⟨a, rfl⟩
  | error e => exact iff_of_false nofun nofun

@[simp] theorem builds_mapError {f : DefinitionError → DefinitionError} :
    Builds (x.mapError f) ↔ Builds x := by
  cases x with
  | ok a => exact iff_of_true ⟨a, rfl⟩ ⟨a, rfl⟩
  | error e => exact iff_of_false nofun nofun

theorem builds_bind {f : α → Except DefinitionError β} :
    Builds (x >>= f) ↔ ∃ a, x = .ok a ∧ Builds (f a) := by
  cases x with
  | ok a =>
    constructor
    · exact fun h => ⟨a, rfl, h⟩
    · rintro ⟨b, hb, h⟩
      obtain rfl := Except.ok.inj hb
      exact h
  | error e => exact iff_of_false nofun nofun

theorem builds_bind_ok {f : α → β} : Builds (x >>= fun a => .ok (f a)) ↔ Builds x :=
  builds_bind.trans ⟨fun ⟨a, ha, _⟩ => ⟨a, ha⟩, fun ⟨a, ha⟩ => ⟨a, ha, builds_ok _⟩⟩

/-- Two parts are built one after the other. -/
theorem builds_both {γ : Type} {y : Except DefinitionError β} {f : α → β → γ} :
    Builds (x >>= fun a => y >>= fun b => .ok (f a b)) ↔ Builds x ∧ Builds y := by
  rw [builds_bind]
  constructor
  · rintro ⟨a, ha, h⟩
    exact ⟨⟨a, ha⟩, builds_bind_ok.1 h⟩
  · rintro ⟨⟨a, ha⟩, h⟩
    exact ⟨a, ha, builds_bind_ok.2 h⟩

/-- A check stands before the rest. -/
theorem builds_check_bind {c : Check} {y : Unit → Except DefinitionError β} :
    Builds (c >>= y) ↔ c = .ok () ∧ Builds (y ()) := by
  rw [builds_bind]
  exact ⟨fun ⟨_, hc, hy⟩ => ⟨hc, hy⟩, fun ⟨hc, hy⟩ => ⟨(), hc, hy⟩⟩

/-- A check is made under a condition, before the rest. -/
theorem builds_guard {p : Prop} [Decidable p] {c : Check} {y : Unit → Except DefinitionError β} :
    Builds (if p then c >>= y else y ()) ↔ (p → c = .ok ()) ∧ Builds (y ()) := by
  by_cases hp : p
  · simp [hp, builds_check_bind]
  · simp [hp]

theorem builds_ite_error {p : Prop} [Decidable p] {e : DefinitionError} :
    Builds (if p then .error e else x) ↔ ¬p ∧ Builds x := by
  by_cases hp : p
  · simp [hp]
  · simp [hp]

end

/-! ## Parts -/

/-- The draft of a filter. -/
def EventFilter.draft (f : EventFilter) : EventFilterDraft where
  attributes := f.attributes.getD {}
  correlations := f.correlations

/-- Adds the filters one after another. -/
def EventSelection.draft : EventSelection → ListenerDraft
  | all filters => filters.foldl (fun d f => d.all f.draft.build) {}
  | any filters => filters.foldl (fun d f => d.any f.draft.build) {}
  | one filter => ListenerDraft.one filter.draft.build {}

def EventStrategy.draft : EventStrategy → ListenerDraft
  | endless s => s.draft
  | untilExpression s expression => s.draft.untilExpression expression
  | untilEvents s events => s.draft.untilListener events.draft

def Listener.draft (l : Listener) : ListenerDraft :=
  match l.mode with
  | none => l.strategy.draft
  | some mode => l.strategy.draft.read mode

def Problem.draft (p : Problem) : ProblemDraft where
  type := some p.type
  status := some p.status
  title := p.title
  detail := p.detail
  instance_ := p.instance_

def Timeout.draft (t : Timeout) : TimeoutDraft where
  after := some t.after

def Authentication.draft (a : Authentication) : AuthenticationDraft where
  policy := some a

def EndpointProperties.draft (e : EndpointProperties) : EndpointDraft where
  uri := some e.uri
  authentication := e.authentication.map (·.mapFirst Authentication.draft)

def ExternalResource.draft (r : ExternalResource) : ResourceDraft where
  name := r.name
  endpoint := some (r.endpoint.mapFirst EndpointProperties.draft)

def ScriptProcess.draft (p : ScriptProcess) : ScriptDraft where
  language := some p.language
  code := p.code
  source := p.source.map ExternalResource.draft
  arguments := p.arguments
  environment := p.environment

def Process.draft : Process → ProcessDraft
  | container p => .container p
  | script p => .script p.draft
  | shell p => .shell p
  | workflow p => .workflow p

def SwitchCase.draft (c : SwitchCase) : SwitchCaseDraft where
  condition := c.condition
  next := some c.next

/-! ## Tasks -/

section

variable {τ σ : Type}

def Subscription.draft (s : Subscription τ) : SubscriptionDraft τ where
  item := s.item
  index := s.index
  tasks := s.tasks.entries

def Catcher.draft (c : Catcher τ) : CatcherDraft τ where
  properties := c.filter.bind (·.properties)
  variable_ := c.variable_
  condition := c.condition
  exception := c.exception
  retry := c.retry
  tasks := c.tasks.entries

/-- The draft of a kind, given those of the tasks inside. -/
def TaskKind.draft? : TaskKind τ → Option (KindDraft τ)
  | call c => some (.call c)
  | do_ tasks => some (.do_ tasks.entries)
  | emit e => some (.emit e.event)
  | for_ t =>
    some (.for_ (some t.loop.each) (some t.loop.collection) t.loop.index t.condition
      t.tasks.entries)
  | fork b => some (.fork b.branches.entries b.compete)
  | listen t => some (.listen (some t.listener.draft) (t.subscription.map Subscription.draft))
  | raise p => some (.raise (some (p.mapFirst Problem.draft)))
  | run r => some (.run (some r.process.draft) r.options)
  | set values => some (.set values)
  | switch cases => some (.switch (cases.map SwitchCase.draft).entries)
  | try_ t => some (.try_ t.tasks.entries (some t.catcher.draft))
  | wait d => some (.wait (some d))
  | extension _ _ => none

end

/-- The draft of a task, with those of the tasks inside of it. -/
def Task.draft : Task → TaskDraft :=
  para fun t kind =>
    match kind.draft? with
    | some kind => .pending t.fields kind
    | none => .finished t

/-! ## Building the tasks inside -/

namespace TaskDraft

theorem buildEach_eq (ds : List (String × TaskDraft)) :
    buildEach ds = Entries.mapValues build ds := by
  induction ds with
  | nil => rfl
  | cons d ds ih =>
    obtain ⟨name, d⟩ := d
    rw [buildEach, buildEntry, ih]
    rfl

theorem buildEach_entries (m : NamedMap TaskDraft) : buildEach m.entries = (m.map build).entries :=
  buildEach_eq m.entries

/-- The tasks inside are built before the kind. -/
theorem buildInside_draft {k : TaskKind TaskDraft} {d : KindDraft TaskDraft}
    (h : k.draft? = some d) : (k.map build).draft? = some (buildInside d) := by
  cases k with
  | do_ tasks =>
    obtain rfl := Option.some.inj h
    rw [buildInside, buildEach_entries]
    rfl
  | for_ t =>
    obtain rfl := Option.some.inj h
    rw [buildInside, buildEach_entries]
    rfl
  | fork b =>
    obtain rfl := Option.some.inj h
    rw [buildInside, buildEach_entries]
    rfl
  | listen t =>
    obtain rfl := Option.some.inj h
    obtain ⟨listener, _ | s⟩ := t
    · rfl
    · show some _ = some (KindDraft.listen (some listener.draft) (some (buildSubscriber s.draft)))
      rw [Subscription.draft, buildSubscriber, buildEach_entries]
      rfl
  | try_ t =>
    obtain rfl := Option.some.inj h
    rw [buildInside, buildEach_entries, Catcher.draft, buildCatcher, buildHandler,
      buildEach_entries]
    rfl
  | extension key definition => cases h
  | _ =>
    obtain rfl := Option.some.inj h
    rfl

end TaskDraft

namespace TaskKind

variable {τ σ ρ : Type}

/-- Whether there is a draft does not depend on the tasks inside. -/
theorem isSome_draft?_map (f : τ → σ) (k : TaskKind τ) :
    (k.map f).draft?.isSome = k.draft?.isSome := by
  cases k <;> rfl

end TaskKind

namespace Task

/-- The tasks inside of a kind, built from their drafts. -/
def builtInside (kind : TaskKind Task) : TaskKind Built := kind.map fun t => t.draft.build

variable {fields : TaskFields} {kind : TaskKind Task} {extra : OrderedMap Node}

theorem draft_mk : (mk fields kind extra).draft =
    match (kind.map draft).draft? with
    | some kind => .pending fields kind
    | none => .finished (mk fields kind extra) := para_mk ..

/-- A task of a kind of the language is built from its kind, once the tasks inside are built. -/
theorem build_draft {d : KindDraft Built} (h : (builtInside kind).draft? = some d) :
    (mk fields kind extra).draft.build = d.build.map fun kind => mk fields kind {} := by
  cases hd : (kind.map draft).draft? with
  | some d' =>
    have hb := TaskDraft.buildInside_draft hd
    rw [TaskKind.map_map] at hb
    obtain rfl := Option.some.inj (h.symm.trans hb)
    rw [draft_mk, hd]
    rfl
  | none =>
    have hs : (builtInside kind).draft?.isSome = (kind.map draft).draft?.isSome := by
      rw [builtInside, TaskKind.isSome_draft?_map, TaskKind.isSome_draft?_map]
    rw [h, hd] at hs
    cases hs

theorem build_draft_of_none (h : (builtInside kind).draft? = none) :
    (mk fields kind extra).draft.build = .ok (mk fields kind extra) := by
  have hs : (kind.map draft).draft?.isSome = (builtInside kind).draft?.isSome := by
    rw [builtInside, TaskKind.isSome_draft?_map, TaskKind.isSome_draft?_map]
  rw [h, Option.isSome_none, Option.isSome_eq_false_iff, Option.isNone_iff_eq_none] at hs
  rw [draft_mk, hs]
  rfl

end Task

end WorkflowDsl
