import Mathlib.Data.List.DropRight
import WorkflowDsl.Proofs.Draft.Feeding
import WorkflowDsl.Proofs.Model.Cardinality

/-!
# Listeners made by calls

The draft of a listener is made by calls, in any order: those that select events, those that set an
end, and those that set the form in which events are read. A draft does not keep the calls. It keeps
of the selecting ones the last with those of its kind directly before it (`selected?`), and of the
others the last of each sort (`lastEnd?`, `lastMode?`): this is the invariant `ofCalls_eq`. What is
built from it is told by the calls alone (`build_ofCalls`).
-/

namespace WorkflowDsl

/-! ## Calls -/

inductive SelectionKind where
  | all
  | any
  | one
deriving DecidableEq, Repr

/-- Adds a filter to a draft. -/
def SelectionKind.add : SelectionKind → EventFilter → ListenerDraft → ListenerDraft
  | all => ListenerDraft.all
  | any => ListenerDraft.any
  | one => ListenerDraft.one

/-- A call to the draft of a listener. The draft of a listener that ends it is made by calls too. -/
inductive ListenerCall where
  | select (kind : SelectionKind) (filter : EventFilter)
  | untilListener (calls : List ListenerCall)
  | untilExpression (expression : String)
  | read (mode : EventReadMode)

namespace ListenerCall

mutual

def apply : ListenerCall → ListenerDraft → ListenerDraft
  | select kind filter, d => kind.add filter d
  | untilListener calls, d => d.untilListener (applyAll calls {})
  | untilExpression expression, d => d.untilExpression expression
  | read mode, d => d.read mode

/-- Makes the calls one after another. -/
def applyAll : List ListenerCall → ListenerDraft → ListenerDraft
  | [], d => d
  | c :: cs, d => applyAll cs (apply c d)

end

def selection? : ListenerCall → Option (SelectionKind × EventFilter)
  | select kind filter => some (kind, filter)
  | _ => none

def end? : ListenerCall → Option (OneOf (List ListenerCall) String)
  | untilListener calls => some (.first calls)
  | untilExpression expression => some (.second expression)
  | _ => none

def mode? : ListenerCall → Option EventReadMode
  | read mode => some mode
  | _ => none

/-- The calls that select events. -/
def selections (calls : List ListenerCall) : List (SelectionKind × EventFilter) :=
  calls.filterMap selection?

/-- The end that was set last. -/
def lastEnd? (calls : List ListenerCall) : Option (OneOf (List ListenerCall) String) :=
  (calls.filterMap end?).getLast?

/-- The form that was set last. -/
def lastMode? (calls : List ListenerCall) : Option EventReadMode := (calls.filterMap mode?).getLast?

end ListenerCall

/-- The draft that is made by calls. -/
def ListenerDraft.ofCalls (calls : List ListenerCall) : ListenerDraft :=
  ListenerCall.applyAll calls {}

/-! ## What the calls say -/

/-- The selection by filters of one kind. Only the last counts where there can be only one. -/
def SelectionKind.select? : SelectionKind → List EventFilter → Option EventSelection
  | all, filters => some (.all filters)
  | any, filters => some (.any filters)
  | one, filters => filters.getLast?.map .one

namespace ListenerCall

/-- The filters of the longest run of selections of a kind at the end. -/
def lastRun (kind : SelectionKind) (history : List (SelectionKind × EventFilter)) :
    List EventFilter :=
  (history.rtakeWhile (·.1 = kind)).map (·.2)

/-- The last selection decides the kind. -/
def selected? (history : List (SelectionKind × EventFilter)) : Option EventSelection :=
  history.getLast?.bind fun last => last.1.select? (lastRun last.1 history)

/-- The calls select, say when to end, and say so of what ends them, to any depth, as the strategy
does. -/
inductive Describes : List ListenerCall → EventStrategy → Prop where
  | endless {calls : List ListenerCall} {s : EventSelection}
      (selected : selected? (selections calls) = some s) (ends : lastEnd? calls = none) :
      Describes calls (.endless s)
  | untilExpression {calls : List ListenerCall} {s : EventSelection} {expression : String}
      (selected : selected? (selections calls) = some s)
      (ends : lastEnd? calls = some (.second expression)) :
      Describes calls (.untilExpression s expression)
  | untilEvents {calls inner : List ListenerCall} {s : EventSelection} {events : EventStrategy}
      (selected : selected? (selections calls) = some s)
      (ends : lastEnd? calls = some (.first inner)) (described : Describes inner events) :
      Describes calls (.untilEvents s events)

/-- An end is set, but the last selection is not of any event. -/
def Misplaced (calls : List ListenerCall) : Prop :=
  (lastEnd? calls).isSome = true ∧ ∃ last ∈ (selections calls).getLast?, last.1 ≠ .any

/-- Nothing is selected, an end is set where there is none, or the listener that ends this one is
refused. -/
inductive Refused : List ListenerCall → Prop where
  | unselected {calls : List ListenerCall} (h : selections calls = []) : Refused calls
  | misplaced {calls : List ListenerCall} (h : Misplaced calls) : Refused calls
  | inner {calls inner : List ListenerCall} (h : lastEnd? calls = some (.first inner))
      (refused : Refused inner) : Refused calls

/-! ## The invariant -/

section

variable {history : List (SelectionKind × EventFilter)} {kind : SelectionKind}
  {filter : EventFilter} {calls : List ListenerCall} {c : ListenerCall}

theorem lastRun_concat (own : SelectionKind) :
    lastRun own (history ++ [(kind, filter)]) =
      if kind = own then lastRun own history ++ [filter] else [] := by
  unfold lastRun
  rw [List.rtakeWhile_concat]
  by_cases h : kind = own
  · simp [h]
  · simp [h]

theorem selected?_concat :
    selected? (history ++ [(kind, filter)]) = kind.select? (lastRun kind history ++ [filter]) := by
  unfold selected?
  rw [List.getLast?_concat, Option.bind_some, lastRun_concat, if_pos rfl]

theorem select?_one_concat (filters : List EventFilter) :
    SelectionKind.one.select? (filters ++ [filter]) = some (.one filter) := by
  rw [SelectionKind.select?, List.getLast?_concat, Option.map_some]

/-- One more selection joins those of its kind before it, and replaces others. -/
theorem add_selected? (u : Option (OneOf ListenerDraft String)) (mode : Option EventReadMode) :
    kind.add filter (.mk (selected? history) u mode) =
      .mk (selected? (history ++ [(kind, filter)])) u mode := by
  rw [selected?_concat]
  rcases List.eq_nil_or_concat history with rfl | ⟨before, ⟨last, f⟩, rfl⟩
  · cases kind <;> rfl
  rw [List.concat_eq_append, selected?_concat, lastRun_concat]
  -- Whether the last kind is the same shows in what the draft holds, unless that is one filter.
  cases kind with
  | all =>
    cases last with
    | all => rfl
    | any => rfl
    | one =>
      rw [select?_one_concat]
      rfl
  | any =>
    cases last with
    | all => rfl
    | any => rfl
    | one =>
      rw [select?_one_concat]
      rfl
  | one =>
    rw [select?_one_concat]
    rfl

theorem selections_concat :
    selections (calls ++ [c]) = selections calls ++ c.selection?.toList := by
  rw [selections, List.filterMap_append]
  cases h : c.selection? <;> simp [selections, h]

theorem selections_concat_of_none (h : c.selection? = none) :
    selections (calls ++ [c]) = selections calls := by
  rw [selections_concat, h, Option.toList_none, List.append_nil]

theorem lastEnd?_concat : lastEnd? (calls ++ [c]) = c.end?.or (lastEnd? calls) := by
  rw [lastEnd?, List.filterMap_append]
  cases h : c.end? <;> simp [lastEnd?, h]

theorem lastMode?_concat : lastMode? (calls ++ [c]) = c.mode?.or (lastMode? calls) := by
  rw [lastMode?, List.filterMap_append]
  cases h : c.mode? <;> simp [lastMode?, h]

theorem applyAll_concat (d : ListenerDraft) :
    applyAll (calls ++ [c]) d = apply c (applyAll calls d) := by
  induction calls generalizing d with
  | nil => rw [List.nil_append, applyAll, applyAll, applyAll]
  | cons b calls ih => rw [List.cons_append, applyAll, ih, applyAll]

/-- **What a draft holds is what the calls say.** -/
theorem ofCalls_eq (calls : List ListenerCall) :
    ListenerDraft.ofCalls calls =
      .mk (selected? (selections calls)) ((lastEnd? calls).map (·.mapFirst ListenerDraft.ofCalls))
        (lastMode? calls) := by
  induction calls using List.reverseRecOn with
  | nil =>
    rw [ListenerDraft.ofCalls, applyAll]
    rfl
  | append_singleton calls c ih =>
    rw [ListenerDraft.ofCalls, applyAll_concat, ← ListenerDraft.ofCalls, ih, lastEnd?_concat,
      lastMode?_concat]
    cases c with
    | select kind filter =>
      rw [apply, add_selected?, selections_concat]
      rfl
    | untilListener inner =>
      rw [apply, ← ListenerDraft.ofCalls, selections_concat_of_none rfl]
      rfl
    | untilExpression expression =>
      rw [apply, selections_concat_of_none rfl]
      rfl
    | read mode =>
      rw [apply, selections_concat_of_none rfl]
      rfl

end

/-! ## Building -/

section

variable {history : List (SelectionKind × EventFilter)} {calls inner : List ListenerCall}
  {s : EventSelection} {u : Option (OneOf EventStrategy String)} {e : EventStrategy}

/-- What is selected is selected by at least one filter. -/
theorem filtered_of_selected? (h : selected? history = some s) :
    ∀ filters ∈ s.filters?, 1 ≤ filters.length := by
  rcases List.eq_nil_or_concat history with rfl | ⟨before, ⟨kind, f⟩, rfl⟩
  · cases h
  rw [List.concat_eq_append, selected?_concat] at h
  cases kind with
  | all =>
    obtain rfl := Option.some.inj h
    simp [EventSelection.filters?]
  | any =>
    obtain rfl := Option.some.inj h
    simp [EventSelection.filters?]
  | one =>
    rw [select?_one_concat] at h
    obtain rfl := Option.some.inj h
    simp [EventSelection.filters?]

/-- Something is selected if a call selects. -/
theorem selected?_eq_none_iff : selected? history = none ↔ history = [] := by
  rcases List.eq_nil_or_concat history with rfl | ⟨before, ⟨kind, f⟩, rfl⟩
  · exact iff_of_true rfl rfl
  rw [List.concat_eq_append, selected?_concat]
  cases kind with
  | all => simp [SelectionKind.select?]
  | any => simp [SelectionKind.select?]
  | one => simp [select?_one_concat]

/-- Any event will do if the last selection says so. -/
theorem any_iff_of_selected? (h : selected? history = some s) :
    (∃ filters, s = .any filters) ↔ ¬∃ last ∈ history.getLast?, last.1 ≠ .any := by
  rcases List.eq_nil_or_concat history with rfl | ⟨before, ⟨kind, f⟩, rfl⟩
  · cases h
  rw [List.concat_eq_append, selected?_concat] at h
  rw [List.concat_eq_append, List.getLast?_concat]
  cases kind with
  | all =>
    obtain rfl := Option.some.inj h
    simp
  | any =>
    obtain rfl := Option.some.inj h
    simp
  | one =>
    rw [select?_one_concat] at h
    obtain rfl := Option.some.inj h
    simp

theorem checked_eq_ok (hs : ∀ filters ∈ s.filters?, 1 ≤ filters.length) :
    ListenerDraft.checked s u = .ok e ↔
      EventStrategy.make s u = e ∧ (u.isSome = true → ∃ filters, s = .any filters) := by
  have hm : (EventStrategy.make s u).selection = s ∧ (EventStrategy.make s u).until? = u := by
    obtain _ | v | expression := u <;> exact ⟨rfl, rfl⟩
  have hw : (EventStrategy.make s u).WellSized ↔
      (u.isSome = true → ∃ filters, s = .any filters) := by
    rw [EventStrategy.wellSized_iff, hm.1, hm.2]
    exact and_iff_right hs
  have hc : (EventStrategy.make s u).check "to" = .ok () ↔ (EventStrategy.make s u).WellSized :=
    EventStrategy.check_eq_ok
  rw [ListenerDraft.checked, ← hw, ← hc, except_bind_eq_ok]
  constructor
  · rintro ⟨_, hc, he⟩
    exact ⟨Except.ok.inj he, hc⟩
  · rintro ⟨rfl, hc⟩
    exact ⟨(), hc, rfl⟩

/-- The listener that ends another one is built first. -/
theorem buildStrategy_ofCalls (h : selected? (selections calls) = some s) :
    (ListenerDraft.ofCalls calls).buildStrategy =
      match lastEnd? calls with
      | none => ListenerDraft.checked s none
      | some (.second expression) => ListenerDraft.checked s (some (.second expression))
      | some (.first inner) =>
        (ListenerDraft.ofCalls inner).buildStrategy.mapError (.within "until") >>= fun events =>
          ListenerDraft.checked s (some (.first events)) := by
  rw [ofCalls_eq, h]
  cases lastEnd? calls with
  | none => rfl
  | some u => cases u <;> rfl

/-- Nothing is built where nothing is selected. -/
theorem buildStrategy_ofCalls_of_none (h : selected? (selections calls) = none) :
    (ListenerDraft.ofCalls calls).buildStrategy =
      .error (.missingField "EventConsumptionStrategyDefinition" "to") := by
  rw [ofCalls_eq, h]
  rfl

/-- The listener that ends another one is made by fewer calls. -/
theorem sizeOf_lt_of_lastEnd? (h : lastEnd? calls = some (.first inner)) :
    sizeOf inner < sizeOf calls := by
  obtain ⟨c, hc, hi⟩ := List.mem_filterMap.1 (List.mem_of_getLast? h)
  cases c with
  | untilListener nested =>
    obtain rfl : nested = inner := OneOf.first.inj (Option.some.inj hi)
    have hl := List.sizeOf_lt_of_mem hc
    simp only [untilListener.sizeOf_spec] at hl
    omega
  | select kind filter => cases hi
  | untilExpression expression => cases Option.some.inj hi
  | read mode => cases hi

/-- **What is built is what the calls say, to any depth.** -/
theorem describes_of_buildStrategy {calls : List ListenerCall} {e : EventStrategy}
    (h : (ListenerDraft.ofCalls calls).buildStrategy = .ok e) : Describes calls e := by
  cases hs : selected? (selections calls) with
  | none => cases h.symm.trans (buildStrategy_ofCalls_of_none hs)
  | some s =>
    have hf := filtered_of_selected? hs
    rw [buildStrategy_ofCalls hs] at h
    split at h
    · next hu =>
      obtain ⟨rfl, -⟩ := (checked_eq_ok hf).1 h
      exact .endless hs hu
    · next hu =>
      obtain ⟨rfl, -⟩ := (checked_eq_ok hf).1 h
      exact .untilExpression hs hu
    · next inner hu =>
      obtain ⟨events, he, h⟩ := except_bind_eq_ok.1 h
      obtain ⟨rfl, -⟩ := (checked_eq_ok hf).1 h
      have hlt := sizeOf_lt_of_lastEnd? hu
      exact .untilEvents hs hu (describes_of_buildStrategy (except_mapError_eq_ok.1 he))
termination_by sizeOf calls

/-- Building succeeds if something is selected, an end is where there may be one, and the listener
that ends this one is built. -/
theorem builds_ofCalls_iff :
    Builds (ListenerDraft.ofCalls calls).buildStrategy ↔
      selections calls ≠ [] ∧ ¬Misplaced calls ∧
        ∀ inner, lastEnd? calls = some (.first inner) →
          Builds (ListenerDraft.ofCalls inner).buildStrategy := by
  cases hs : selected? (selections calls) with
  | none =>
    rw [buildStrategy_ofCalls_of_none hs]
    exact iff_of_false (not_builds_error _) fun h => h.1 (selected?_eq_none_iff.1 hs)
  | some s =>
    have hne : selections calls ≠ [] := by
      rintro h
      cases hs.symm.trans (selected?_eq_none_iff.2 h)
    have hb (u : Option (OneOf EventStrategy String)) :
        Builds (ListenerDraft.checked s u) ↔
          ¬(u.isSome = true ∧ ∃ last ∈ (selections calls).getLast?, last.1 ≠ .any) := by
      rw [not_and, ← any_iff_of_selected? hs]
      simp [Builds, checked_eq_ok (filtered_of_selected? hs)]
    rw [buildStrategy_ofCalls hs, Misplaced]
    simp only [hne, ne_eq, not_false_eq_true, true_and]
    split
    · next hu => simp [hb, hu]
    · next hu => simp [hb, hu]
    · next inner hu =>
      simp only [hu, builds_bind, hb, except_mapError_eq_ok, Option.isSome_some, true_and,
        Option.some.injEq, OneOf.first.injEq, forall_eq']
      exact ⟨fun ⟨e, he, h⟩ => ⟨h, e, he⟩, fun ⟨h, e, he⟩ => ⟨e, he, h⟩⟩

theorem not_builds_of_refused (h : Refused calls) :
    ¬Builds (ListenerDraft.ofCalls calls).buildStrategy := by
  induction h with
  | unselected h => exact fun hb => (builds_ofCalls_iff.1 hb).1 h
  | misplaced h => exact fun hb => (builds_ofCalls_iff.1 hb).2.1 h
  | inner h _ ih => exact fun hb => ih ((builds_ofCalls_iff.1 hb).2.2 _ h)

theorem refused_of_not_builds {calls : List ListenerCall}
    (h : ¬Builds (ListenerDraft.ofCalls calls).buildStrategy) : Refused calls := by
  by_cases hs : selections calls = []
  · exact .unselected hs
  by_cases hm : Misplaced calls
  · exact .misplaced hm
  rw [builds_ofCalls_iff] at h
  simp only [ne_eq, hs, not_false_eq_true, hm, true_and, not_forall] at h
  obtain ⟨inner, hu, hi⟩ := h
  have hlt := sizeOf_lt_of_lastEnd? hu
  exact .inner hu (refused_of_not_builds hi)
termination_by sizeOf calls

/-- **A listener is built as its calls say.** Of the calls that select, which have to be one at
least, the last decides the kind, and the filters are those of the run at the end. An end and a form
are those that were set last. Building fails only for an end that is set where there is none, or if
the listener that ends this one is refused, at any depth. -/
theorem build_ofCalls {calls : List ListenerCall} (h : selections calls ≠ []) :
    (¬Builds (ListenerDraft.ofCalls calls).build ↔
        Misplaced calls ∨ ∃ inner, lastEnd? calls = some (.first inner) ∧ Refused inner) ∧
      ∀ l, (ListenerDraft.ofCalls calls).build = .ok l →
        Describes calls l.strategy ∧ l.mode = lastMode? calls ∧
          ∀ filters ∈ l.strategy.selection.filters?, filters ≠ [] := by
  constructor
  · rw [ListenerDraft.build, builds_map]
    constructor
    · intro hb
      cases refused_of_not_builds hb with
      | unselected hs => exact absurd hs h
      | misplaced hm => exact .inl hm
      | inner hu hi => exact .inr ⟨_, hu, hi⟩
    · rintro (hm | ⟨inner, hu, hi⟩)
      · exact not_builds_of_refused (.misplaced hm)
      · exact not_builds_of_refused (.inner hu hi)
  · intro l hl
    obtain ⟨e, he, rfl⟩ := except_map_eq_ok.1 hl
    have hd := describes_of_buildStrategy he
    refine ⟨hd, ?_, ?_⟩
    · rw [ofCalls_eq]
      rfl
    · have hs : selected? (selections calls) = some e.selection := by
        cases hd with
        | endless hs => exact hs
        | untilExpression hs => exact hs
        | untilEvents hs => exact hs
      intro filters hm
      exact List.length_pos_iff.1 (filtered_of_selected? hs filters hm)

/-- The first filter is replaced by two of another kind, and the first end by a listener. -/
def patient : List ListenerCall :=
  [.read .data, .select .all {}, .select .any { correlations := ⟨[("k", { source := "a" })]⟩ },
    .untilExpression "${ false }", .untilListener [.select .any {}, .select .one {}],
    .select .any {}, .read .raw]

theorem build_ofCalls_patient :
    Builds (ListenerDraft.ofCalls patient).build ∧ selections patient ≠ [] ∧
      (¬Builds (ListenerDraft.ofCalls patient).build ↔
        Misplaced patient ∨
          ∃ inner, lastEnd? patient = some (.first inner) ∧ Refused inner) ∧
      ∀ l, (ListenerDraft.ofCalls patient).build = .ok l →
        Describes patient l.strategy ∧ l.mode = lastMode? patient ∧
          ∀ filters ∈ l.strategy.selection.filters?, filters ≠ [] :=
  ⟨⟨{ strategy := .untilEvents
        (.any [{ correlations := ⟨[("k", { source := "a" })]⟩ }, {}]) (.endless (.one {}))
      mode := some .raw }, rfl⟩,
    nofun, build_ofCalls nofun⟩

end

end ListenerCall

end WorkflowDsl
