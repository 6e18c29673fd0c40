import Mathlib.Data.List.Nodup
import WorkflowDsl.Legacy.Workflow
import WorkflowDsl.Proofs.Check

/-!
# The graph of states

`State.Leads` says from which parts of a state one comes to another one: its transition, those of
its error handlers, those of the cases and of the default of a switch, and its compensation. A
legacy workflow *is a graph* (`Workflow.IsGraph`) when its states have distinct names and lead to
states only. This is what the check of a workflow finds out, although it looks for one violation
after another (`Workflow.check_eq_ok_iff_isGraph`).

In a graph no walk from the start leaves the states: where a step leads is the name of a state, and
of one state only (`Workflow.IsGraph.mem_stateNames_of_walk`, by induction on the walk).
-/

namespace WorkflowDsl.Legacy

/-! ## Where a state leads -/

/-- The state leads to the one with the name. -/
inductive State.Leads (s : State) : String → Prop where
  | transition {t : Transition} (h : s.fields.transition = some t) : Leads s t.target
  | onError {handler : ErrorHandler} {t : Transition} (hm : handler ∈ s.fields.onErrors)
      (h : handler.transition = some t) : Leads s t.target
  | dataCase {switch : SwitchState} {c : DataCase} {t : Transition} (hk : s.kind = .switch switch)
      (hc : c ∈ switch.dataCases) (h : c.transition = some t) : Leads s t.target
  | eventCase {switch : SwitchState} {c : EventCase} {t : Transition} (hk : s.kind = .switch switch)
      (hc : c ∈ switch.eventCases) (h : c.transition = some t) : Leads s t.target
  | otherwise {switch : SwitchState} {d : DefaultCondition} {t : Transition}
      (hk : s.kind = .switch switch) (hd : switch.default = some d) (h : d.transition = some t) :
      Leads s t.target
  | compensation {name : String} (h : s.fields.compensatedBy = some name) : Leads s name

/-- A state of the kind performs the action. -/
inductive StateKind.Performs : StateKind → Action → Prop where
  | callback (s : CallbackState) : Performs (.callback s) s.action
  | event {s : EventState} {e : OnEvents} {a : Action} (he : e ∈ s.onEvents) (ha : a ∈ e.actions) :
      Performs (.event s) a
  | forEach {s : ForEachState} {a : Action} (ha : a ∈ s.actions) : Performs (.forEach s) a
  | operation {s : OperationState} {a : Action} (ha : a ∈ s.actions) : Performs (.operation s) a
  | parallel {s : ParallelState} {b : Branch} {a : Action} (hb : b ∈ s.branches)
      (ha : a ∈ b.actions) : Performs (.parallel s) a

namespace Workflow

variable {w : Workflow}

/-- The names of the states, in the order of the document. -/
def stateNames (w : Workflow) : List String := w.states.map State.name

/-- What has to hold of a state in a workflow. -/
structure StateFits (w : Workflow) (s : State) : Prop where
  /-- A state that is followed by another one does not end the workflow. -/
  goesOnOrEnds : s.fields.transition = none ∨ s.fields.end_ = none
  leads : ∀ {name}, s.Leads name → name ∈ w.stateNames
  /-- A switch has cases of exactly one kind. -/
  cases : ∀ {switch}, s.kind = .switch switch → (switch.dataCases = [] ↔ switch.eventCases ≠ [])
  /-- If the functions are declared in the document, those that are called are among them. -/
  calls : ∀ {functions}, w.functions = some (.first functions) →
    ∀ {a name}, s.kind.Performs a → a.functionName? = some name → ∃ f ∈ functions, f.name = name

/-- The states of a workflow form a graph, in which everything that is named exists. -/
structure IsGraph (w : Workflow) : Prop where
  named : ∃ c ∈ w.name.toList, Text.isBlank c = false
  inhabited : w.states ≠ []
  distinct : w.stateNames.Nodup
  start : ∀ {s}, w.start = some s → s.state ∈ w.stateNames
  states : ∀ {s}, s ∈ w.states → w.StateFits s

/-! ## States by name -/

theorem isSome_state? {name : String} : (w.state? name).isSome = true ↔ name ∈ w.stateNames := by
  rw [state?, List.find?_isSome, stateNames, List.mem_map]
  simp only [beq_iff_eq]

theorem checkState_eq_ok {field name : String} :
    w.checkState field name = .ok () ↔ name ∈ w.stateNames := by
  rw [← isSome_state?, checkState]
  cases (w.state? name).isSome <;> simp

theorem checkTarget_eq_ok {field : String} {x : Option Transition} :
    w.checkTarget field x = .ok () ↔ ∀ t, x = some t → t.target ∈ w.stateNames := by
  rw [checkTarget, Check.option_forM_eq_ok]
  simp only [checkState_eq_ok, Option.mem_def]

/-- Nothing is reported exactly when no name occurs twice, or occurs among those seen. -/
theorem firstDuplicate?_eq_none {seen names : List String} :
    firstDuplicate? seen names = none ↔ names.Nodup ∧ ∀ name ∈ names, name ∉ seen := by
  induction names generalizing seen with
  | nil => simp [firstDuplicate?]
  | cons name names ih =>
    rw [firstDuplicate?]
    by_cases hs : name ∈ seen
    · simp [hs]
    · rw [if_neg (by simpa using hs), ih, List.nodup_cons, List.forall_mem_cons]
      constructor
      · rintro ⟨hn, h⟩
        have hname : name ∉ names := fun hm => h name hm List.mem_cons_self
        exact ⟨⟨hname, hn⟩, hs, fun n hm hseen => h n hm (List.mem_cons_of_mem _ hseen)⟩
      · rintro ⟨⟨hname, hn⟩, -, h⟩
        refine ⟨hn, fun n hm hseen => ?_⟩
        rcases List.mem_cons.1 hseen with rfl | hseen
        · exact hname hm
        · exact h n hm hseen

end Workflow

/-! ## Parts of states -/

theorem SwitchState.check_eq_ok {field : String} {s : SwitchState} :
    s.check field = .ok () ↔ (s.dataCases = [] ↔ s.eventCases ≠ []) := by
  rw [check]
  cases s.dataCases <;> cases s.eventCases <;> simp

theorem SwitchState.mem_cases {s : SwitchState} {c : SwitchCase} :
    c ∈ s.cases ↔ (∃ d ∈ s.dataCases, c = .data d) ∨ ∃ e ∈ s.eventCases, c = .event e := by
  rw [cases, List.mem_append, List.mem_map, List.mem_map]
  simp only [eq_comm]

theorem StateKind.mem_actions {k : StateKind} {a : Action} : a ∈ k.actions ↔ k.Performs a := by
  constructor
  · intro h
    cases k with
    | callback s =>
      obtain rfl := List.mem_singleton.1 h
      exact .callback s
    | event s =>
      obtain ⟨e, he, ha⟩ := List.mem_flatMap.1 h
      exact .event he ha
    | forEach s => exact .forEach h
    | operation s => exact .operation h
    | parallel s =>
      obtain ⟨b, hb, ha⟩ := List.mem_flatMap.1 h
      exact .parallel hb ha
    | _ => cases h
  · intro h
    cases h with
    | callback s => exact List.mem_singleton.2 rfl
    | event he ha => exact List.mem_flatMap.2 ⟨_, he, ha⟩
    | forEach ha => exact ha
    | operation ha => exact ha
    | parallel hb ha => exact List.mem_flatMap.2 ⟨_, hb, ha⟩

/-- Where a state leads, taken apart by its fields and by its kind. -/
theorem State.forall_leads {s : State} {P : String → Prop} :
    (∀ name, s.Leads name → P name) ↔
      (∀ t, s.fields.transition = some t → P t.target) ∧
      (∀ handler ∈ s.fields.onErrors, ∀ t, handler.transition = some t → P t.target) ∧
      (∀ name, s.fields.compensatedBy = some name → P name) ∧
      ∀ switch, s.kind = .switch switch →
        (∀ c ∈ switch.dataCases, ∀ t, c.transition = some t → P t.target) ∧
        (∀ c ∈ switch.eventCases, ∀ t, c.transition = some t → P t.target) ∧
        ∀ d, switch.default = some d → ∀ t, d.transition = some t → P t.target := by
  constructor
  · intro h
    refine ⟨fun t ht => h _ (.transition ht), fun _ hm t ht => h _ (.onError hm ht),
      fun name hc => h _ (.compensation hc), fun switch hk => ⟨?_, ?_, ?_⟩⟩
    · exact fun c hc t ht => h _ (.dataCase hk hc ht)
    · exact fun c hc t ht => h _ (.eventCase hk hc ht)
    · exact fun d hd t ht => h _ (.otherwise hk hd ht)
  · rintro ⟨ht, ho, hc, hk⟩ name h
    cases h with
    | transition h => exact ht _ h
    | onError hm h => exact ho _ hm _ h
    | dataCase hs hm h => exact (hk _ hs).1 _ hm _ h
    | eventCase hs hm h => exact (hk _ hs).2.1 _ hm _ h
    | otherwise hs hd h => exact (hk _ hs).2.2 _ hd _ h
    | compensation h => exact hc _ h

namespace Workflow

variable {w : Workflow}

/-! ## Checks of states -/

/-- The check of a switch finds nothing exactly when its cases are of one kind, and lead to
states. -/
theorem checkSwitch_eq_ok {s : State} {switch : SwitchState} :
    w.checkSwitch s switch = .ok () ↔
      (switch.dataCases = [] ↔ switch.eventCases ≠ []) ∧
        (∀ c ∈ switch.dataCases, ∀ t, c.transition = some t → t.target ∈ w.stateNames) ∧
        (∀ c ∈ switch.eventCases, ∀ t, c.transition = some t → t.target ∈ w.stateNames) ∧
        ∀ d, switch.default = some d → ∀ t, d.transition = some t → t.target ∈ w.stateNames := by
  have hc : (switch.cases.forM fun c => w.checkTarget "conditions.transition" c.transition?) =
      .ok () ↔ (∀ c ∈ switch.dataCases, ∀ t, c.transition = some t → t.target ∈ w.stateNames) ∧
        ∀ c ∈ switch.eventCases, ∀ t, c.transition = some t → t.target ∈ w.stateNames := by
    rw [Check.list_forM_eq_ok]
    simp only [checkTarget_eq_ok, SwitchState.mem_cases]
    constructor
    · intro h
      exact ⟨fun c hc => h _ (.inl ⟨c, hc, rfl⟩), fun c hc => h _ (.inr ⟨c, hc, rfl⟩)⟩
    · rintro ⟨hd, he⟩ c (⟨d, hm, rfl⟩ | ⟨e, hm, rfl⟩)
      · exact hd d hm
      · exact he e hm
  rw [checkSwitch, Check.bind_eq_ok, Check.bind_eq_ok, hc, except_mapError_eq_ok,
    SwitchState.check_eq_ok, Check.option_forM_eq_ok]
  simp only [checkTarget_eq_ok, Option.mem_def, and_assoc]

theorem checkActions_eq_ok {s : State} :
    w.checkActions s = .ok () ↔
      ∀ functions, w.functions = some (.first functions) →
        ∀ a name, s.kind.Performs a → a.functionName? = some name →
          ∃ f ∈ functions, f.name = name := by
  have hi (functions : List Function) :
      functions ∈ w.inlineFunctions? ↔ w.functions = some (.first functions) := by
    rw [inlineFunctions?, Option.mem_def]
    obtain _ | _ | _ := w.functions <;> simp [OneOf.first?]
  rw [checkActions, Check.option_forM_eq_ok]
  simp only [hi]
  refine forall₂_congr fun functions _ => ?_
  rw [Check.list_forM_eq_ok]
  have hf (name : String) : (if functions.any (·.name == name) then (.ok () : Check) else
      .error (.invalidFormat "actions.functionRef" name "unknown function")) = .ok () ↔
        ∃ f ∈ functions, f.name = name := by
    split <;> simp_all
  simp only [hf, List.mem_filterMap, StateKind.mem_actions]
  constructor
  · intro h a name ha hn
    exact h name ⟨a, ha, hn⟩
  · rintro h name ⟨a, ha, hn⟩
    exact h a name ha hn

/-- The cases of a switch are checked, and then the actions of a state of any kind. -/
theorem checkKind_eq_ok {s : State} :
    (do
      match s.kind with
      | .switch switch => w.checkSwitch s switch
      | _ => .ok ()
      w.checkActions s : Check) = .ok () ↔
      (∀ switch, s.kind = .switch switch → w.checkSwitch s switch = .ok ()) ∧
        w.checkActions s = .ok () := by
  generalize w.checkActions s = actions
  cases s.kind with
  | switch switch =>
    refine Check.bind_eq_ok.trans (and_congr_left' ?_)
    constructor
    · intro h t ht
      cases ht
      exact h
    · intro h
      exact h _ rfl
  | _ =>
    refine Check.bind_eq_ok.trans (and_congr_left' ?_)
    constructor
    · intro _ switch hk
      cases hk
    · intro _
      rfl

/-- **The check of a state finds nothing exactly when the state fits into the workflow.** -/
theorem checkStateDefinition_eq_ok {s : State} :
    w.checkStateDefinition s = .ok () ↔ w.StateFits s := by
  have hx : ¬(s.fields.transition.isSome && s.fields.end_.isSome) = true ↔
      (s.fields.transition = none ∨ s.fields.end_ = none) := by
    cases s.fields.transition <;> cases s.fields.end_ <;> simp
  have hl := State.forall_leads (s := s) (P := (· ∈ w.stateNames))
  refine Check.guard_eq_ok.trans ?_
  rw [hx, Check.bind_eq_ok, Check.bind_eq_ok, Check.bind_eq_ok, checkTarget_eq_ok,
    Check.list_forM_eq_ok, Check.option_forM_eq_ok]
  refine (and_congr_right fun _ => and_congr_right fun _ => and_congr_right fun _ =>
    and_congr_right fun _ => checkKind_eq_ok).trans ?_
  rw [checkActions_eq_ok]
  simp only [checkTarget_eq_ok, checkState_eq_ok, Option.mem_def, checkSwitch_eq_ok]
  constructor
  · rintro ⟨hx, ht, ho, hc, hs, ha⟩
    have hl := hl.2 ⟨ht, ho, hc, fun switch hk => (hs switch hk).2⟩
    exact ⟨hx, hl _, fun hk => (hs _ hk).1, ha _⟩
  · intro h
    obtain ⟨ht, ho, hc, hs⟩ := hl.1 fun _ => h.leads
    exact ⟨h.goesOnOrEnds, ht, ho, hc, fun _ hk => ⟨h.cases hk, hs _ hk⟩,
      fun _ hf _ _ => h.calls hf⟩

/-- **The check of a workflow finds nothing exactly when its states form a graph.** -/
theorem check_eq_ok_iff_isGraph : w.check = .ok () ↔ w.IsGraph := by
  have hn : ¬Text.isBlankText w.name = true ↔ ∃ c ∈ w.name.toList, Text.isBlank c = false := by
    simp [Text.isBlankText]
  have hd : ((firstDuplicate? [] (w.states.map State.name)).forM fun name =>
      (.error (.invalidFormat s!"states.{name}" name "duplicate state name") : Check)) = .ok () ↔
        w.stateNames.Nodup := by
    have h : firstDuplicate? [] w.stateNames = none ↔ _ := firstDuplicate?_eq_none
    simp only [List.not_mem_nil, not_false_eq_true, implies_true, and_true] at h
    rw [Check.option_forM_eq_ok, ← h, stateNames]
    cases firstDuplicate? [] (w.states.map State.name) <;> simp
  refine Check.guard_eq_ok.trans ?_
  refine (and_congr Iff.rfl Check.guard_eq_ok).trans ?_
  rw [hn, Check.bind_eq_ok, Check.bind_eq_ok, hd, Check.option_forM_eq_ok, Check.list_forM_eq_ok]
  simp only [checkState_eq_ok, except_mapError_eq_ok, checkStateDefinition_eq_ok, Option.mem_def,
    List.isEmpty_iff]
  constructor
  · rintro ⟨hn, he, hd, hs, hf⟩
    exact ⟨hn, he, hd, hs _, hf _⟩
  · intro h
    exact ⟨h.named, h.inhabited, h.distinct, fun _ => h.start, fun _ => h.states⟩

/-! ## Walks -/

/-- A walk along the states, of which the last one stands first. It starts where the workflow does,
and may go on from every state that has the name it came to. -/
inductive Walk (w : Workflow) : List String → Prop where
  | start {name : String} (h : w.startState? = some name) : Walk w [name]
  | step {name next : String} {names : List String} {s : State} (walk : Walk w (name :: names))
      (hs : s ∈ w.states) (hn : s.name = name) (h : s.Leads next) : Walk w (next :: name :: names)

/-- Where names are distinct, a state is the only one with its name. -/
theorem filter_name_eq_singleton {states : List State} (hn : (states.map State.name).Nodup)
    {s : State} (hs : s ∈ states) : states.filter (·.name == s.name) = [s] := by
  induction states with
  | nil => cases hs
  | cons t states ih =>
    obtain ⟨ht, hn⟩ := List.nodup_cons.1 hn
    rcases List.mem_cons.1 hs with rfl | hs
    · have he : states.filter (·.name == s.name) = [] := by
        refine List.filter_eq_nil_iff.2 fun t hm he => ht ?_
        exact List.mem_map.2 ⟨t, hm, beq_iff_eq.1 he⟩
      rw [List.filter_cons, if_pos (beq_self_eq_true s.name), he]
    · have hne : t.name ≠ s.name := fun he => ht (he ▸ List.mem_map_of_mem hs)
      rw [List.filter_cons, if_neg (by simpa using hne), ih hn hs]

/-- The name is that of one state, which is the one found by it. -/
def Finds (w : Workflow) (name : String) : Prop :=
  ∃ s, w.state? name = some s ∧ w.states.filter (·.name == name) = [s]

theorem IsGraph.finds (h : w.IsGraph) {name : String} (hn : name ∈ w.stateNames) :
    w.Finds name := by
  obtain ⟨s, hs⟩ := Option.isSome_iff_exists.1 (isSome_state?.2 hn)
  have hm : s ∈ w.states := List.mem_of_find?_eq_some hs
  have hname : s.name = name := by simpa using List.find?_some hs
  exact ⟨s, hs, hname ▸ filter_name_eq_singleton h.distinct hm⟩

/-- The start of a graph is a state. -/
theorem IsGraph.startState_mem (h : w.IsGraph) :
    ∃ name, w.startState? = some name ∧ name ∈ w.stateNames := by
  cases hs : w.start with
  | some s => exact ⟨s.state, by rw [startState?, hs], h.start hs⟩
  | none =>
    obtain ⟨t, states, hw⟩ := List.exists_cons_of_ne_nil h.inhabited
    refine ⟨t.name, by rw [startState?, hs, hw]; rfl, ?_⟩
    rw [stateNames, hw]
    exact List.mem_cons_self

/-- Every step of a walk in a graph comes to a state. -/
theorem IsGraph.mem_stateNames_of_walk (h : w.IsGraph) {names : List String} (hw : w.Walk names) :
    ∀ name ∈ names, name ∈ w.stateNames := by
  induction hw with
  | start hs =>
    obtain ⟨name, hname, hm⟩ := h.startState_mem
    obtain rfl := Option.some.inj (hs.symm.trans hname)
    exact List.forall_mem_singleton.2 hm
  | step _ hs _ hl ih => exact List.forall_mem_cons.2 ⟨(h.states hs).leads hl, ih⟩

/-- **The check of a workflow finds nothing exactly when its states form a graph.** Then there is a
start, and all walks from there come to names only by which one state is found. -/
theorem check_iff_isGraph_and_walks (w : Workflow) :
    (w.check = .ok () ↔ w.IsGraph) ∧
      (w.check = .ok () → (∃ name, w.Walk [name]) ∧
        ∀ names, w.Walk names → ∀ name ∈ names, w.Finds name) := by
  refine ⟨check_eq_ok_iff_isGraph, fun hc => ?_⟩
  have h := check_eq_ok_iff_isGraph.1 hc
  obtain ⟨name, hs, -⟩ := h.startState_mem
  exact ⟨⟨name, .start hs⟩, fun _ hw _ hm => h.finds (h.mem_stateNames_of_walk hw _ hm)⟩

/-- An order that is approved by age, and one for which an event decides. -/
def approval : Workflow :=
  let decide : SwitchState :=
    { dataCases := [{ condition := "adult", transition := some (.second "Approve") }]
      default := some { transition := some (.first { nextState := "Wait" }) } }
  let wait : SwitchState :=
    { eventCases := [{ event := "late", transition := some (.second "Decide") }] }
  let approve : OperationState := { actions := [.ofFunction "approve"] }
  { name := "approval"
    start := some (.second "Decide")
    functions := some (.first [{ name := "approve", operation := "urn:approve" }])
    states := [.ofKind "Approve" (.operation approve), .ofKind "Decide" (.switch decide),
      .ofKind "Wait" (.switch wait)] }

/-- From the start one comes to the second state, and on to the third. -/
theorem check_iff_isGraph_and_walks_approval :
    approval.check = .ok () ∧ approval.Walk ["Wait", "Decide"] ∧ approval.Finds "Wait" := by
  have hc : approval.check = .ok () := rfl
  have hw : approval.Walk ["Wait", "Decide"] :=
    .step (.start rfl) (.tail _ (.head _)) rfl
      (.otherwise (t := .first { nextState := "Wait" }) rfl rfl rfl)
  exact ⟨hc, hw, ((check_iff_isGraph_and_walks approval).2 hc).2 _ hw _ (.head _)⟩

end Workflow

end WorkflowDsl.Legacy
