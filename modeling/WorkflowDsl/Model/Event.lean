import WorkflowDsl.Codec.Collection
import WorkflowDsl.Codec.Keyed
import WorkflowDsl.Codec.Record
import WorkflowDsl.Model.DataModel

/-!
# Events

Events are emitted with attributes and consumed by a strategy: all of some filters, any of them, or
one. A strategy may go on until an expression holds or until another strategy is satisfied, which
may itself have such an end.
-/

namespace WorkflowDsl

/-- Attributes of an event. -/
structure Event where
  attributes : OrderedMap Node := {}
deriving BEq, Repr

namespace Event

def codec : Codec Event :=
  .record "EventDefinition" Event.mk <|
    .more (.defaulted "with" (.map .node) {} (·.attributes)) .done

def type? (e : Event) : Option String := (e.attributes.get? "type").bind Node.string?

def source? (e : Event) : Option String := (e.attributes.get? "source").bind Node.string?

end Event

/-- An emitted event. -/
structure Emission where
  event : Event := {}
deriving BEq, Repr

def Emission.codec : Codec Emission :=
  .record "EventEmissionDefinition" Emission.mk <|
    .more (.required "event" Event.codec (·.event)) .done

/-- Where a key of a correlation is found, and what it should be. -/
structure Correlation where
  source : String
  expectation : Option String := none
deriving DecidableEq, Repr

def Correlation.codec : Codec Correlation :=
  .record "CorrelationKeyDefinition" Correlation.mk <|
    .more (.required "from" .string (·.source)) <|
    .more (.optional "expect" .string (·.expectation)) .done

structure EventFilter where
  attributes : Option (OrderedMap Node) := none
  correlations : OrderedMap Correlation := {}
deriving BEq, Repr

def EventFilter.codec : Codec EventFilter :=
  .record "EventFilterDefinition" EventFilter.mk <|
    .more (.optional "with" (.map .node) (·.attributes)) <|
    .more (.omitted "correlate" (.map Correlation.codec) {} OrderedMap.isEmpty
      (·.correlations)) .done

/-- The events that satisfy a strategy. -/
inductive EventSelection where
  | all (filters : List EventFilter)
  | any (filters : List EventFilter)
  | one (filter : EventFilter)
deriving BEq, Repr

namespace EventSelection

def key : EventSelection → String
  | all _ => "all"
  | any _ => "any"
  | one _ => "one"

/-- The filters, if there may be several. -/
def filters? : EventSelection → Option (List EventFilter)
  | all fs | any fs => some fs
  | one _ => none

def toNode : EventSelection → Node
  | all fs | any fs => (Codec.list EventFilter.codec).write fs
  | one f => EventFilter.codec.write f

/-- Reads the selection that stands under a key. -/
def ofNode (key : String) (n : Node) : Except DefinitionError EventSelection :=
  if key == "all" then ((Codec.list EventFilter.codec).decode n).map all
  else if key == "any" then ((Codec.list EventFilter.codec).decode n).map any
  else (EventFilter.codec.decode n).map one

end EventSelection

/-- A selection, and when to stop consuming. -/
inductive EventStrategy where
  | endless (selection : EventSelection)
  | untilExpression (selection : EventSelection) (expression : String)
  | untilEvents (selection : EventSelection) (events : EventStrategy)
deriving Repr

namespace EventStrategy

def selection : EventStrategy → EventSelection
  | endless s | untilExpression s _ | untilEvents s _ => s

/-- What ends the consumption. -/
def until? : EventStrategy → Option (OneOf EventStrategy String)
  | endless _ => none
  | untilExpression _ expression => some (.second expression)
  | untilEvents _ events => some (.first events)

def make (selection : EventSelection) : Option (OneOf EventStrategy String) → EventStrategy
  | none => endless selection
  | some (.second expression) => untilExpression selection expression
  | some (.first events) => untilEvents selection events

def equal : EventStrategy → EventStrategy → Bool
  | endless s, endless t => s == t
  | untilExpression s e, untilExpression t f => s == t && e == f
  | untilEvents s e, untilEvents t f => s == t && equal e f
  | _, _ => false

instance : BEq EventStrategy := ⟨equal⟩

/-- The keys of which a strategy has exactly one. -/
def kindKeys : List String := ["all", "any", "one"]

def toNode : EventStrategy → Node
  | endless s => .mapping [(s.key, s.toNode)]
  | untilExpression s expression => .mapping [(s.key, s.toNode), ("until", .string expression)]
  | untilEvents s events => .mapping [(s.key, s.toNode), ("until", events.toNode)]

/-- The codec of strategies that are read by `read`. -/
def codecBy (read : Node → Except DefinitionError EventStrategy) : Codec EventStrategy :=
  .ofDefinition "EventConsumptionStrategyDefinition" read toNode

/-- Reads a strategy from a node of less than the given depth. -/
def ofNodeWithin : Nat → Node → Except DefinitionError EventStrategy
  | 0, n => .error (.shapeMismatch "EventConsumptionStrategyDefinition" "mapping" n.kind.text)
  | depth + 1, n => do
    let es ← n.toObject "EventConsumptionStrategyDefinition"
    let key ← es.singleKind "event consumption strategy" kindKeys
    let selection ← EventSelection.ofNode key ((es.get? key).getD .null)
    match es.get? "until" with
    | none => .ok (endless selection)
    | some u =>
      let nested := (codecBy (ofNodeWithin depth)).named "Box<EventConsumptionStrategyDefinition>"
      (OneOf.ofNode nested .string u).map fun u => make selection (some u)

def ofNode (n : Node) : Except DefinitionError EventStrategy := ofNodeWithin (n.depth + 1) n

def codec : Codec EventStrategy := codecBy ofNode

/-- Several filters are at least one, and only a strategy that takes any event has an end. -/
def check (field : String) (s : EventStrategy) : Check :=
  if s.selection.filters?.any List.isEmpty then
    .error (.cardinality s!"{field}.{s.selection.key}" 1 0)
  else if s.selection.key != "any" && s.until?.isSome then
    .error (.mutuallyExclusive field ["until", "all", "one"])
  else .ok ()

end EventStrategy

/-- The form in which a consumed event is read. -/
inductive EventReadMode where
  | data
  | envelope
  | raw
deriving DecidableEq, Repr

def EventReadMode.all : List EventReadMode := [data, envelope, raw]

def EventReadMode.text : EventReadMode → String
  | data => "data"
  | envelope => "envelope"
  | raw => "raw"

def EventReadMode.codec : Codec EventReadMode :=
  .choice "EventReadMode" EventReadMode.all EventReadMode.text

structure Listener where
  strategy : EventStrategy
  mode : Option EventReadMode := none
deriving BEq, Repr

def Listener.codec : Codec Listener :=
  .record "ListenerDefinition" Listener.mk <|
    .more (.required "to" EventStrategy.codec (·.strategy)) <|
    .more (.optional "read" EventReadMode.codec (·.mode)) .done

end WorkflowDsl
