import WorkflowDsl.Model.Event
import WorkflowDsl.Text.Blank

/-!
# Events and listeners in the making

An event is its own draft. A `ListenerDraft` collects filters: one more filter of the same kind is
added to those there are, and a filter of another kind replaces them.
-/

namespace WorkflowDsl

/-! ## Events -/

namespace Event

/-- Writes an attribute. -/
def withAttribute (e : Event) (name : String) (value : Node) : Event :=
  { e with attributes := e.attributes.insert name value }

/-- An event has a type that is not blank. -/
def build (e : Event) : Except DefinitionError Event :=
  if e.type?.all Text.isBlankText then .error (.missingField "EventDefinition" "with.type")
  else .ok e

end Event

structure EventFilterDraft where
  attributes : OrderedMap Node := {}
  correlations : OrderedMap Correlation := {}
deriving Repr

namespace EventFilterDraft

def withAttribute (d : EventFilterDraft) (name : String) (value : Node) : EventFilterDraft :=
  { d with attributes := d.attributes.insert name value }

def withCorrelation (d : EventFilterDraft) (key : String) (c : Correlation) : EventFilterDraft :=
  { d with correlations := d.correlations.insert key c }

/-- The filter. One without attributes does not mention them. -/
def build (d : EventFilterDraft) : EventFilter where
  attributes := if d.attributes.isEmpty then none else some d.attributes
  correlations := d.correlations

end EventFilterDraft

/-! ## Listeners -/

inductive ListenerDraft where
  | mk (selection : Option EventSelection) (until_ : Option (OneOf ListenerDraft String))
      (mode : Option EventReadMode)

namespace ListenerDraft

def empty : ListenerDraft := mk none none none

instance : EmptyCollection ListenerDraft := ⟨empty⟩

instance : Inhabited ListenerDraft := ⟨empty⟩

/-- Changes what is selected. -/
def mapSelection (f : Option EventSelection → EventSelection) : ListenerDraft → ListenerDraft
  | mk selection until_ mode => mk (some (f selection)) until_ mode

/-- Consumes events that satisfy this filter and the others added. -/
def all (filter : EventFilter) : ListenerDraft → ListenerDraft :=
  mapSelection fun
    | some (.all filters) => .all (filters ++ [filter])
    | _ => .all [filter]

/-- Consumes events that satisfy this filter or another one added. -/
def any (filter : EventFilter) : ListenerDraft → ListenerDraft :=
  mapSelection fun
    | some (.any filters) => .any (filters ++ [filter])
    | _ => .any [filter]

/-- Consumes one event that satisfies the filter. -/
def one (filter : EventFilter) : ListenerDraft → ListenerDraft :=
  mapSelection fun _ => .one filter

/-- Consumes events until another listener is satisfied. -/
def untilListener : ListenerDraft → ListenerDraft → ListenerDraft
  | mk selection _ mode, nested => mk selection (some (.first nested)) mode

/-- Consumes events until an expression holds. -/
def untilExpression (expression : String) : ListenerDraft → ListenerDraft
  | mk selection _ mode => mk selection (some (.second expression)) mode

def read (mode : EventReadMode) : ListenerDraft → ListenerDraft
  | mk selection until_ _ => mk selection until_ (some mode)

def mode? : ListenerDraft → Option EventReadMode
  | mk _ _ mode => mode

/-- The strategy of a selection, if it passes the check of strategies. -/
def checked (selection : EventSelection) (until_ : Option (OneOf EventStrategy String)) :
    Except DefinitionError EventStrategy := do
  let strategy := EventStrategy.make selection until_
  strategy.check "to"
  .ok strategy

def buildStrategy : ListenerDraft → Except DefinitionError EventStrategy
  | mk none _ _ => .error (.missingField "EventConsumptionStrategyDefinition" "to")
  | mk (some selection) none _ => checked selection none
  | mk (some selection) (some (.second expression)) _ =>
    checked selection (some (.second expression))
  | mk (some selection) (some (.first nested)) _ => do
    let events ← nested.buildStrategy.mapError (.within "until")
    checked selection (some (.first events))

def build (d : ListenerDraft) : Except DefinitionError Listener :=
  d.buildStrategy.map fun strategy => { strategy, mode := d.mode? }

end ListenerDraft

end WorkflowDsl
