import WorkflowDsl.Proofs.Draft.TaskOversight
import WorkflowDsl.Proofs.Model.References

/-!
# Checks against builders

The check of a document should report everything that a builder would refuse. `Workflow.parts` are
the definitions in a document for which there are builders: its tasks at any depth, event
strategies, emitted events, policies, processes, problems and timeouts. In a document without
violations, each of them is built from its draft exactly when it has no oversight
(`Workflow.builds_iff_of_check`). Every reason that `Oversight` lists does occur there
(`Workflow.check_overlooked`).
-/

namespace WorkflowDsl

/-! ## Parts -/

/-- A definition in a document, for which there is a builder. -/
inductive Part where
  | task (task : Task)
  | strategy (strategy : EventStrategy)
  /-- A strategy that ends another one. -/
  | innerStrategy (strategy : EventStrategy)
  | event (event : Event)
  | retry (policy : RetryPolicy)
  | process (process : Process)
  | problem (problem : Problem)
  | timeout (timeout : Timeout)
  | policy (policy : Authentication)
  /-- A policy at a site where the check of a document does not look. -/
  | uncheckedPolicy (policy : Authentication)

namespace Part

/-- The builder accepts the values of the definition. -/
def Buildable : Part → Prop
  | task t => Builds t.draft.build
  | strategy s | innerStrategy s => Builds s.draft.build
  | event e => Builds e.build
  | retry p => Builds p.build
  | process p => Builds p.draft.build
  | problem p => Builds p.draft.build
  | timeout t => Builds t.draft.build
  | policy a | uncheckedPolicy a => Builds a.draft.build

def oversights : Part → List Oversight
  | task t => t.oversights
  | strategy s => s.oversights
  | innerStrategy s =>
    if (s :: s.ends).all fun e => (e.check "until").toBool then [] else [.innerStrategy]
  | event e => e.oversights
  | retry p => p.oversights
  | process p => p.oversights
  | problem _ | timeout _ => []
  | policy a => a.oversights
  | uncheckedPolicy a => a.uncheckedOversights

/-- What is known of the definition in a document without violations, of which the names are
distinct. -/
def Accepted (components : Option Components) : Part → Prop
  | task t => (t.check components).Passes ∧ ∀ u ∈ t.subtasks, u.kind.NamesDistinct
  | strategy s => ∃ field, s.check field = .ok ()
  | retry p => ∃ field, p.check field = .ok ()
  | process p => ∃ field, p.check field = .ok ()
  | problem p => ∃ field, p.check field = .ok ()
  | timeout t => ∃ field, t.check field = .ok ()
  | policy a => ∃ field, a.check field = .ok ()
  | innerStrategy _ | event _ | uncheckedPolicy _ => True

variable {components : Option Components}

theorem buildable_iff {p : Part} (h : p.Accepted components) :
    p.Buildable ↔ p.oversights = [] := by
  cases p with
  | task t => exact Task.builds_draft_iff h.1 h.2
  | strategy s =>
    obtain ⟨field, h⟩ := h
    rw [Buildable, ListenerDraft.build, builds_map]
    exact EventStrategy.builds_draft_iff_of_wellSized (EventStrategy.check_eq_ok.1 h)
  | innerStrategy s =>
    have ha : ((s :: s.ends).all fun e => (e.check "until").toBool) = true ↔
        s.WellSized ∧ ∀ e ∈ s.ends, e.WellSized := by
      simp [Check.toBool_eq_true, EventStrategy.check_eq_ok]
    rw [Buildable, ListenerDraft.build, builds_map, EventStrategy.builds_draft_iff, ← ha,
      oversights]
    split
    next hs => exact iff_of_true hs rfl
    next hs => exact iff_of_false hs (List.cons_ne_nil _ _)
  | event e => exact e.builds_iff
  | retry p =>
    obtain ⟨field, h⟩ := h
    exact RetryPolicy.builds_iff h
  | process p =>
    obtain ⟨field, h⟩ := h
    exact Process.builds_draft_iff h
  | problem p =>
    obtain ⟨field, h⟩ := h
    exact iff_of_true (Problem.builds_draft h) rfl
  | timeout t =>
    obtain ⟨field, h⟩ := h
    exact iff_of_true (Timeout.builds_draft h) rfl
  | policy a =>
    obtain ⟨field, h⟩ := h
    exact (a.builds_draft_iff field).trans (and_iff_right h)
  | uncheckedPolicy a => exact a.builds_draft_iff_of_unchecked

end Part

/-! ## Parts of a document -/

/-- A strategy and those that end it. -/
def EventStrategy.parts (s : EventStrategy) : List Part :=
  .strategy s :: s.ends.map .innerStrategy

/-- The definition that stands where a name could stand. -/
def inlinePart {α : Type} (part : α → Part) (x : Option (OneOf α String)) : List Part :=
  (x.bind OneOf.first?).toList.map part

def Schema.parts (s : Schema) : List Part :=
  s.resource.toList.flatMap fun r => inlinePart .uncheckedPolicy r.endpoint.authentication?

def schemaParts (x : Option Schema) : List Part := x.toList.flatMap Schema.parts

namespace Call

/-- The parts of arguments, if they are of the type. -/
def argumentParts {α : Type} (arguments : Except DefinitionError (Option α))
    (parts : α → List Part) : List Part :=
  match arguments with
  | .ok (some a) => parts a
  | _ => []

def parts (c : Call) : List Part :=
  argumentParts c.http? (fun a => inlinePart .policy a.endpoint.authentication?)
    ++ argumentParts c.grpc? (fun a =>
      inlinePart .policy a.proto.endpoint.authentication?
        ++ inlinePart .policy a.service.authentication)
    ++ argumentParts c.openApi? (fun a =>
      inlinePart .policy a.document.endpoint.authentication?
        ++ inlinePart .policy a.authentication)
    ++ argumentParts c.asyncApi? (fun a =>
      inlinePart .policy a.document.endpoint.authentication?
        ++ inlinePart .uncheckedPolicy a.authentication)

end Call

/-- A process, and the policy of the endpoint that it is loaded from. -/
def Process.parts : Process → List Part
  | script p =>
    .process (.script p) ::
      p.source.toList.flatMap fun r => inlinePart .uncheckedPolicy r.endpoint.authentication?
  | p => [.process p]

/-- The parts of a kind, without those of the tasks inside. -/
def TaskKind.parts {τ : Type} : TaskKind τ → List Part
  | call c => c.parts
  | emit e => [.event e.event]
  | listen t =>
    t.listener.strategy.parts
      ++ t.subscription.toList.flatMap fun s =>
        schemaParts (s.output.bind (·.schema)) ++ schemaParts (s.export_.bind (·.schema))
  | raise p => inlinePart .problem (some p)
  | run r => r.process.parts
  | try_ t => inlinePart .retry t.catcher.retry
  | _ => []

def TaskFields.parts (f : TaskFields) : List Part :=
  inlinePart .timeout f.timeout ++ schemaParts (f.input.bind (·.schema))
    ++ schemaParts (f.output.bind (·.schema)) ++ schemaParts (f.export_.bind (·.schema))

/-- A task and its parts, without those of the tasks inside. -/
def Task.parts (t : Task) : List Part := .task t :: (t.fields.parts ++ t.kind.parts)

/-- The parts of components, without those of tasks. -/
def Components.parts (c : Components) : List Part :=
  c.authentications.entries.values.map .policy
    ++ c.catalogs.entries.values.flatMap (fun catalog =>
      inlinePart .policy catalog.endpoint.authentication?)
    ++ c.problems.entries.values.map .problem ++ c.retries.entries.values.map .retry
    ++ c.timeouts.entries.values.map .timeout

/-- All parts of a document. -/
def Workflow.parts (w : Workflow) : List Part :=
  inlinePart .timeout w.timeout ++ schemaParts (w.input.bind (·.schema))
    ++ schemaParts (w.output.bind (·.schema))
    ++ (w.schedule.bind (·.events)).toList.flatMap EventStrategy.parts
    ++ w.components.toList.flatMap Components.parts ++ w.allTasks.flatMap Task.parts

/-! ## Parts of an accepted document -/

/-- All parts are accepted. -/
def AllAccepted (components : Option Components) (parts : List Part) : Prop :=
  ∀ p ∈ parts, p.Accepted components

section

variable {α : Type} {components : Option Components} {path : String} {siblings : List String}

namespace AllAccepted

theorem cons {p : Part} {ps : List Part} (hp : p.Accepted components)
    (hq : AllAccepted components ps) : AllAccepted components (p :: ps) :=
  List.forall_mem_cons.2 ⟨hp, hq⟩

theorem append {ps qs : List Part} (hp : AllAccepted components ps)
    (hq : AllAccepted components qs) : AllAccepted components (ps ++ qs) :=
  List.forall_mem_append.2 ⟨hp, hq⟩

theorem flatMap {as : List α} {f : α → List Part} (h : ∀ a ∈ as, AllAccepted components (f a)) :
    AllAccepted components (as.flatMap f) := by
  intro p hp
  obtain ⟨a, ha, hp⟩ := List.mem_flatMap.1 hp
  exact h a ha p hp

theorem map {as : List α} {f : α → Part} (h : ∀ a ∈ as, (f a).Accepted components) :
    AllAccepted components (as.map f) := List.forall_mem_map.2 h

/-- A definition is checked where it stands itself. -/
theorem inline {part : α → Part} {check : OneOf α String → Check} {x : Option (OneOf α String)}
    (h : x.forM check = .ok ())
    (hc : ∀ a, check (.first a) = .ok () → (part a).Accepted components) :
    AllAccepted components (inlinePart part x) := by
  refine map fun a ha => ?_
  obtain _ | a' | name := x
  · cases ha
  · obtain rfl := List.mem_singleton.1 ha
    exact hc a (Check.option_forM_eq_ok.1 h _ rfl)
  · cases ha

theorem of_policy {x : Option AuthenticationReference} (h : PolicyPasses components x) :
    AllAccepted components (inlinePart .policy x) := by
  obtain ⟨field, h⟩ := h
  exact inline h fun _ ha => ⟨_, ha⟩

theorem unchecked (x : Option AuthenticationReference) :
    AllAccepted components (inlinePart .uncheckedPolicy x) := map fun _ _ => trivial

theorem schema (x : Option Schema) : AllAccepted components (schemaParts x) :=
  flatMap fun _ _ => flatMap fun _ _ => unchecked _

end AllAccepted

namespace Call

theorem allAccepted_arguments {arguments : Except DefinitionError (Option α)} {passes : α → Prop}
    {f : α → List Part} (h : ArgumentsPass arguments passes)
    (hf : ∀ a, passes a → AllAccepted components (f a)) :
    AllAccepted components (argumentParts arguments f) := by
  obtain ⟨x, rfl, h⟩ := h
  cases x with
  | none => exact fun _ hp => nomatch hp
  | some a => exact hf a (h a rfl)

theorem allAccepted_of_check {c : Call} (h : c.check components path = .ok ()) :
    AllAccepted components c.parts := by
  have h := checked_of_check h
  refine .append (.append (.append ?_ ?_) ?_) ?_
  · exact allAccepted_arguments h.http fun a he => .of_policy he.policy
  · exact allAccepted_arguments h.grpc fun a ⟨he, hp⟩ =>
      .append (.of_policy he.policy) (.of_policy hp)
  · exact allAccepted_arguments h.openApi fun a ⟨he, hp⟩ =>
      .append (.of_policy he.policy) (.of_policy hp)
  · exact allAccepted_arguments h.asyncApi fun a he =>
      .append (.of_policy he.policy) (.unchecked _)

end Call

theorem EventStrategy.allAccepted_of_check {s : EventStrategy} (h : s.check path = .ok ()) :
    AllAccepted components s.parts :=
  .cons ⟨path, h⟩ (.map fun _ _ => trivial)

theorem Process.allAccepted_of_check {p : Process} (h : p.check path = .ok ()) :
    AllAccepted components p.parts := by
  cases p with
  | script p => exact .cons ⟨path, h⟩ (.flatMap fun _ _ => .unchecked _)
  | _ => exact List.forall_mem_singleton.2 ⟨path, h⟩

theorem TaskKind.allAccepted_of_check {k : TaskKind TaskCheck}
    (h : k.check components path siblings = .ok ()) : AllAccepted components k.parts := by
  cases k with
  | call c => exact Call.allAccepted_of_check h
  | emit e => exact List.forall_mem_singleton.2 trivial
  | listen t =>
    refine .append (EventStrategy.allAccepted_of_check (Check.bind_eq_ok.1 h).1) ?_
    exact .flatMap fun _ _ => .append (.schema _) (.schema _)
  | raise p => exact .inline (x := some p) h fun _ ha => ⟨_, ha⟩
  | run r => exact Process.allAccepted_of_check h
  | try_ t =>
    obtain ⟨-, hr, -⟩ := check_try_eq_ok.1 h
    exact .inline hr fun _ ha => ⟨_, ha⟩
  | _ => exact fun _ hp => nomatch hp

theorem TaskKind.parts_map {τ σ : Type} (f : τ → σ) (k : TaskKind τ) :
    (k.map f).parts = k.parts := by
  cases k with
  | listen t => obtain ⟨_, _ | s⟩ := t <;> rfl
  | _ => rfl

theorem TaskFields.allAccepted_of_check {f : TaskFields}
    (h : f.check components path siblings = .ok ()) : AllAccepted components f.parts := by
  have ht := (checked_of_check h).timeout
  exact .append (.append (.append (.inline ht fun _ ha => ⟨_, ha⟩) (.schema _)) (.schema _))
    (.schema _)

theorem Task.allAccepted_of_passes {t : Task} (h : (t.check components).Passes)
    (hn : ∀ u ∈ t.subtasks, u.kind.NamesDistinct) : AllAccepted components t.parts := by
  refine .cons ⟨h, hn⟩ ?_
  obtain ⟨fields, kind, extra⟩ := t
  obtain ⟨path, siblings, h⟩ := h
  obtain ⟨hf, hk⟩ := (check_mk ..).1 h
  have hk := TaskKind.allAccepted_of_check hk
  rw [TaskKind.parts_map] at hk
  exact .append (TaskFields.allAccepted_of_check hf) hk

end

theorem Components.Checked.allAccepted {c : Components} (h : c.Checked) :
    AllAccepted (some c) c.parts := by
  refine .append (.append (.append (.append ?_ ?_) ?_) ?_) ?_
  · exact .map h.authentications
  · exact .flatMap fun catalog hm => .of_policy (h.catalogs catalog hm).policy
  · exact .map h.problems
  · exact .map h.retries
  · exact .map h.timeouts

namespace Workflow

/-- The names in each list of tasks, and those of the cases of each switch, are distinct. -/
def NamesDistinct (w : Workflow) : Prop := ∀ t ∈ w.allTasks, t.kind.NamesDistinct

instance (w : Workflow) : Decidable w.NamesDistinct :=
  inferInstanceAs (Decidable (∀ t ∈ w.allTasks, t.kind.NamesDistinct))

theorem allAccepted_of_check {w : Workflow} (h : w.check = .ok ()) (hn : w.NamesDistinct) :
    AllAccepted w.components w.parts := by
  have ht : AllAccepted w.components (w.allTasks.flatMap Task.parts) :=
    .flatMap fun t hm => Task.allAccepted_of_passes (passes_of_mem_allTasks h hm) fun u hu =>
      hn u (mem_allTasks_of_mem_subtasks hm hu)
  have hc : AllAccepted w.components (w.components.toList.flatMap Components.parts) := by
    refine .flatMap fun c hm => ?_
    have hm := Option.mem_toList.1 hm
    rw [hm]
    exact ((checked_of_check h).components c hm).allAccepted
  have h := checked_of_check h
  have hs : AllAccepted w.components
      ((w.schedule.bind (·.events)).toList.flatMap EventStrategy.parts) := by
    refine .flatMap fun e hm => ?_
    obtain ⟨s, hm, he⟩ := Option.bind_eq_some_iff.1 (Option.mem_toList.1 hm)
    have hs := Check.bind_eq_ok.1 (Check.bind_eq_ok.1 (h.schedule s hm)).2
    exact EventStrategy.allAccepted_of_check (Check.option_forM_eq_ok.1 hs.2 e he)
  have hw : AllAccepted w.components (inlinePart .timeout w.timeout) :=
    .inline h.timeout fun _ ha => ⟨_, ha⟩
  exact .append (.append (.append (.append (.append hw (.schema _)) (.schema _)) hs) hc) ht

/-- **In a document without violations, a builder accepts the values of a definition exactly when
there is no oversight.** -/
theorem builds_iff_of_check {w : Workflow} (h : w.check = .ok ()) (hn : w.NamesDistinct)
    {p : Part} (hp : p ∈ w.parts) : p.Buildable ↔ p.oversights = [] :=
  Part.buildable_iff (allAccepted_of_check h hn p hp)

/-- A document without violations, and a part of it that its builder refuses. -/
def overlooked : Oversight → Workflow × Part
  | .untypedEvent =>
    let event : Event := { attributes := ⟨[("source", .string "urn:shop")]⟩ }
    (ofTask (.emit { event }), .event event)
  | .noAttempt =>
    let policy : RetryPolicy := { limit := some { attempt := some { count := some 0 } } }
    ({ ofTask (.wait (.text "PT1S")) with
        components := some { retries := ⟨[("never", policy)]⟩ } }, .retry policy)
  | .lifetime =>
    let process : Process :=
      .container { image := "job", lifetime := some { cleanup := .eventually } }
    (ofTask (.run { process }), .process process)
  | .innerStrategy =>
    let strategy : EventStrategy := .untilEvents (.any [{}]) (.endless (.all []))
    (ofTask (.listen { listener := { strategy } }), .strategy strategy)
  | .blankSecret =>
    ({ ofTask (.wait (.text "PT1S")) with
        components := some { authentications := ⟨[("vault", .secret "")]⟩ } }, .policy (.secret ""))
  | .blankProblem =>
    let kind : TaskKind Task := .raise (.second "")
    ({ ofTask kind with
        components := some { problems := ⟨[("", { type := "urn:late", status := 408 })]⟩ } },
      .task (.ofKind kind))
  | .uncheckedPolicy =>
    let endpoint : Endpoint :=
      .first { uri := "job.js", authentication := some (.first (.basic {})) }
    (ofTask (.run { process := .script { language := "js", source := some { endpoint } } }),
      .uncheckedPolicy (.basic {}))

/-- Each oversight occurs. -/
theorem check_overlooked (o : Oversight) :
    (overlooked o).1.check = .ok () ∧ (overlooked o).1.NamesDistinct ∧
      (overlooked o).2 ∈ (overlooked o).1.parts ∧ (overlooked o).2.oversights = [o] := by
  cases o with
  | untypedEvent => exact ⟨rfl, by decide, .tail _ (.head _), rfl⟩
  | noAttempt => exact ⟨rfl, by decide, .head _, rfl⟩
  | lifetime => exact ⟨rfl, by decide, .tail _ (.head _), rfl⟩
  | innerStrategy => exact ⟨rfl, by decide, .tail _ (.head _), rfl⟩
  | blankSecret => exact ⟨rfl, by decide, .head _, rfl⟩
  | blankProblem => exact ⟨rfl, by decide, .tail _ (.head _), rfl⟩
  | uncheckedPolicy => exact ⟨rfl, by decide, .tail _ (.tail _ (.head _)), rfl⟩

/-- An event without a type is emitted by a document without violations, but not built. -/
theorem builds_iff_of_check_untypedEvent :
    (overlooked .untypedEvent).1.check = .ok () ∧ (overlooked .untypedEvent).1.NamesDistinct ∧
      (overlooked .untypedEvent).2 ∈ (overlooked .untypedEvent).1.parts ∧
      ¬(overlooked .untypedEvent).2.Buildable := by
  obtain ⟨h, hn, hp, ho⟩ := check_overlooked .untypedEvent
  refine ⟨h, hn, hp, ?_⟩
  rw [builds_iff_of_check h hn hp, ho]
  exact List.cons_ne_nil _ _

end Workflow

end WorkflowDsl
