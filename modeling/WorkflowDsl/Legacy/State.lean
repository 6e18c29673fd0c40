import WorkflowDsl.Codec.Keyed
import WorkflowDsl.Legacy.Action
import WorkflowDsl.Legacy.Declaration
import WorkflowDsl.Legacy.Transition

/-!
# States

A state names its type. Beside the fields that every state may have it holds those of its type, and
entries under other keys are kept. A state of a type that the language does not define is kept as
it is written.
-/

namespace WorkflowDsl.Legacy

inductive StateType where
  | callback
  | sleep
  | event
  | forEach
  | inject
  | operation
  | parallel
  | switch
deriving DecidableEq, Repr

namespace StateType

def all : List StateType :=
  [callback, sleep, event, forEach, inject, operation, parallel, switch]

def text : StateType → String
  | callback => "callback"
  | sleep => "sleep"
  | event => "event"
  | forEach => "foreach"
  | inject => "inject"
  | operation => "operation"
  | parallel => "parallel"
  | switch => "switch"

/-- The type with a name. Loops have two. -/
def ofText? (s : String) : Option StateType :=
  if s == "forEach" then some forEach else all.find? (·.text == s)

/-- The keys that belong to the type. -/
def ownedKeys : StateType → List String
  | callback => ["action", "eventRef", "timeouts", "eventDataFilter"]
  | sleep => ["duration", "timeouts"]
  | event => ["exclusive", "onEvents", "timeouts"]
  | forEach =>
    ["inputCollection", "outputCollection", "iterationParam", "batchSize", "actions", "mode",
      "timeouts"]
  | inject => ["data", "timeouts"]
  | operation => ["actionMode", "actions", "timeouts"]
  | parallel => ["branches", "completionType", "numCompleted", "timeouts"]
  | switch => ["dataConditions", "eventConditions", "defaultCondition", "timeouts"]

end StateType

/-! ## States by type -/

/-- Performs an action and waits for an event. -/
structure CallbackState where
  action : Action
  event : String
  timeouts : Option Timeouts := none
  dataFilter : Option EventDataFilter := none
deriving BEq, Repr

def CallbackState.codec : Codec CallbackState :=
  .record "CallbackStateDefinition" CallbackState.mk <|
    .more (.required "action" Action.codec (·.action)) <|
    .more (.required "eventRef" .string (·.event)) <|
    .more (.optional "timeouts" Timeouts.codec (·.timeouts)) <|
    .more (.optional "eventDataFilter" EventDataFilter.codec (·.dataFilter)) .done

structure SleepState where
  duration : String
  timeouts : Option Timeouts := none
deriving DecidableEq, Repr

def SleepState.codec : Codec SleepState :=
  .record "SleepStateDefinition" SleepState.mk <|
    .more (.required "duration" .string (·.duration)) <|
    .more (.optional "timeouts" Timeouts.codec (·.timeouts)) .done

/-- How the actions of a state are performed. -/
inductive ActionMode where
  | sequential
  | parallel
deriving DecidableEq, Repr

namespace ActionMode

def all : List ActionMode := [sequential, parallel]

def text : ActionMode → String
  | sequential => "sequential"
  | parallel => "parallel"

def ofText? (s : String) : Option ActionMode := all.find? (·.text == s)

def codec : Codec ActionMode := .choice "ActionMode" all text

end ActionMode

/-- Actions for some events. -/
structure OnEvents where
  events : List String
  mode : Option ActionMode := none
  actions : List Action := []
  dataFilter : Option EventDataFilter := none
deriving BEq, Repr

def OnEvents.codec : Codec OnEvents :=
  .record "OnEventsDefinition" OnEvents.mk <|
    .more (.required "eventRefs" (.list .string) (·.events)) <|
    .more (.optional "actionMode" ActionMode.codec (·.mode)) <|
    .more (.omitted "actions" (.list Action.codec) [] List.isEmpty (·.actions)) <|
    .more (.optional "eventDataFilter" EventDataFilter.codec (·.dataFilter)) .done

/-- Waits for one of the events, or for all of them if it is not exclusive. -/
structure EventState where
  exclusive : Bool := true
  onEvents : List OnEvents
  timeouts : Option Timeouts := none
deriving BEq, Repr

namespace EventState

def codec : Codec EventState :=
  .record "EventStateDefinition" EventState.mk <|
    .more (.omitted "exclusive" .bool true id (·.exclusive)) <|
    .more (.required "onEvents" (.list OnEvents.codec) (·.onEvents)) <|
    .more (.optional "timeouts" Timeouts.codec (·.timeouts)) .done

/-- The names of all events that the state waits for. -/
def events (s : EventState) : List String := s.onEvents.flatMap (·.events)

end EventState

/-- How the iterations of a loop are carried out. -/
inductive IterationMode where
  | parallel
  | sequential
deriving DecidableEq, Repr

def IterationMode.all : List IterationMode := [parallel, sequential]

def IterationMode.text : IterationMode → String
  | parallel => "parallel"
  | sequential => "sequential"

def IterationMode.codec : Codec IterationMode :=
  .choice "ForEachMode" IterationMode.all IterationMode.text

structure ForEachState where
  inputCollection : String
  outputCollection : Option String := none
  iterationParam : Option String := none
  batchSize : Option CountOrText := none
  actions : List Action := []
  mode : Option IterationMode := none
  timeouts : Option Timeouts := none
deriving BEq, Repr

namespace ForEachState

def codec : Codec ForEachState :=
  .record "ForEachStateDefinition" ForEachState.mk <|
    .more (.required "inputCollection" .string (·.inputCollection)) <|
    .more (.optional "outputCollection" .string (·.outputCollection)) <|
    .more (.optional "iterationParam" .string (·.iterationParam)) <|
    .more (.optional "batchSize" CountOrText.codec (·.batchSize)) <|
    .more (.omitted "actions" (.list Action.codec) [] List.isEmpty (·.actions)) <|
    .more (.optional "mode" IterationMode.codec (·.mode)) <|
    .more (.optional "timeouts" Timeouts.codec (·.timeouts)) .done

/-- The mode; parallel unless given. -/
def iterationMode (s : ForEachState) : IterationMode := s.mode.getD .parallel

end ForEachState

structure InjectState where
  data : OrderedMap Node
  timeouts : Option Timeouts := none
deriving BEq, Repr

def InjectState.codec : Codec InjectState :=
  .record "InjectStateDefinition" InjectState.mk <|
    .more (.required "data" .object (·.data)) <|
    .more (.optional "timeouts" Timeouts.codec (·.timeouts)) .done

structure OperationState where
  mode : Option ActionMode := none
  actions : List Action := []
  timeouts : Option Timeouts := none
deriving BEq, Repr

namespace OperationState

def codec : Codec OperationState :=
  .record "OperationStateDefinition" OperationState.mk <|
    .more (.optional "actionMode" ActionMode.codec (·.mode)) <|
    .more (.omitted "actions" (.list Action.codec) [] List.isEmpty (·.actions)) <|
    .more (.optional "timeouts" Timeouts.codec (·.timeouts)) .done

/-- The mode; sequential unless given. -/
def actionMode (s : OperationState) : ActionMode := s.mode.getD .sequential

end OperationState

/-- When a parallel state is complete. -/
inductive CompletionType where
  | allOf
  | atLeast
deriving DecidableEq, Repr

def CompletionType.all : List CompletionType := [allOf, atLeast]

def CompletionType.text : CompletionType → String
  | allOf => "allOf"
  | atLeast => "atLeast"

def CompletionType.codec : Codec CompletionType :=
  .choice "CompletionType" CompletionType.all CompletionType.text

structure Branch where
  name : String
  actions : List Action
  timeouts : Option Timeouts := none
deriving BEq, Repr

def Branch.codec : Codec Branch :=
  .record "BranchDefinition" Branch.mk <|
    .more (.required "name" .string (·.name)) <|
    .more (.required "actions" (.list Action.codec) (·.actions)) <|
    .more (.optional "timeouts" Timeouts.codec (·.timeouts)) .done

structure ParallelState where
  branches : List Branch
  completion : Option CompletionType := none
  completedCount : Option CountOrText := none
  timeouts : Option Timeouts := none
deriving BEq, Repr

namespace ParallelState

def codec : Codec ParallelState :=
  .record "ParallelStateDefinition" ParallelState.mk <|
    .more (.required "branches" (.list Branch.codec) (·.branches)) <|
    .more (.optional "completionType" CompletionType.codec (·.completion)) <|
    .more (.optional "numCompleted" CountOrText.codec (·.completedCount)) <|
    .more (.optional "timeouts" Timeouts.codec (·.timeouts)) .done

/-- The completion; of all branches unless given. -/
def completionType (s : ParallelState) : CompletionType := s.completion.getD .allOf

end ParallelState

/-! ## Switches -/

/-- A case that is taken when a condition on the data holds. -/
structure DataCase where
  name : Option String := none
  condition : String
  transition : Option Transition := none
  end_ : Option End := none
  metadata : OrderedMap String := {}
deriving BEq, Repr

def DataCase.codec : Codec DataCase :=
  .record "DataCaseDefinition" DataCase.mk <|
    .more (.optional "name" .string (·.name)) <|
    .more (.required "condition" .string (·.condition)) <|
    .more (.optional "transition" Transition.codec (·.transition)) <|
    .more (.optional "end" End.codec (·.end_)) <|
    .more (.omitted "metadata" (.map .string) {} OrderedMap.isEmpty (·.metadata)) .done

/-- A case that is taken when an event arrives. -/
structure EventCase where
  name : Option String := none
  event : String
  transition : Option Transition := none
  end_ : Option End := none
  dataFilter : Option EventDataFilter := none
  metadata : OrderedMap String := {}
deriving BEq, Repr

def EventCase.codec : Codec EventCase :=
  .record "EventCaseDefinition" EventCase.mk <|
    .more (.optional "name" .string (·.name)) <|
    .more (.required "eventRef" .string (·.event)) <|
    .more (.optional "transition" Transition.codec (·.transition)) <|
    .more (.optional "end" End.codec (·.end_)) <|
    .more (.optional "eventDataFilter" EventDataFilter.codec (·.dataFilter)) <|
    .more (.omitted "metadata" (.map .string) {} OrderedMap.isEmpty (·.metadata)) .done

inductive SwitchCase where
  | data (case : DataCase)
  | event (case : EventCase)
deriving BEq, Repr

namespace SwitchCase

def name? : SwitchCase → Option String
  | data c => c.name
  | event c => c.name

def transition? : SwitchCase → Option Transition
  | data c => c.transition
  | event c => c.transition

def end? : SwitchCase → Option End
  | data c => c.end_
  | event c => c.end_

/-- The keys of which a case has exactly one. -/
def kindKeys : List String := ["condition", "eventRef"]

def ofNode (n : Node) : Except DefinitionError SwitchCase := do
  let es ← n.toObject "SwitchCaseDefinition"
  let key ← es.singleKind "switch case" kindKeys
  if key == "condition" then (DataCase.codec.decode n).map data
  else (EventCase.codec.decode n).map event

def toNode : SwitchCase → Node
  | data c => DataCase.codec.write c
  | event c => EventCase.codec.write c

end SwitchCase

/-- What follows when no case is taken. -/
structure DefaultCondition where
  transition : Option Transition := none
  end_ : Option End := none
deriving BEq, Repr

def DefaultCondition.codec : Codec DefaultCondition :=
  .record "DefaultConditionDefinition" DefaultCondition.mk <|
    .more (.optional "transition" Transition.codec (·.transition)) <|
    .more (.optional "end" End.codec (·.end_)) .done

structure SwitchState where
  dataCases : List DataCase := []
  eventCases : List EventCase := []
  default : Option DefaultCondition := none
  timeouts : Option Timeouts := none
deriving BEq, Repr

namespace SwitchState

def codec : Codec SwitchState :=
  .record "SwitchStateDefinition" SwitchState.mk <|
    .more (.omitted "dataConditions" (.list DataCase.codec) [] List.isEmpty (·.dataCases)) <|
    .more (.omitted "eventConditions" (.list EventCase.codec) [] List.isEmpty (·.eventCases)) <|
    .more (.optional "defaultCondition" DefaultCondition.codec (·.default)) <|
    .more (.optional "timeouts" Timeouts.codec (·.timeouts)) .done

/-- Whether the cases wait for events. -/
def isEventBased (s : SwitchState) : Bool := !s.eventCases.isEmpty

/-- All cases, those on the data first. -/
def cases (s : SwitchState) : List SwitchCase :=
  s.dataCases.map .data ++ s.eventCases.map .event

/-- The switch with the given cases. -/
def ofCases (cs : List SwitchCase) : SwitchState where
  dataCases := cs.filterMap fun
    | .data c => some c
    | .event _ => none
  eventCases := cs.filterMap fun
    | .data _ => none
    | .event c => some c

/-- A switch has cases of exactly one kind. -/
def check (field : String) (s : SwitchState) : Check :=
  if s.dataCases.isEmpty && s.eventCases.isEmpty then
    .error (.cardinality s!"{field}.dataConditions" 1 0)
  else if !s.dataCases.isEmpty && !s.eventCases.isEmpty then
    .error (.mutuallyExclusive field ["dataConditions", "eventConditions"])
  else .ok ()

end SwitchState

/-! ## Kinds of states -/

inductive StateKind where
  | callback (state : CallbackState)
  | sleep (state : SleepState)
  | event (state : EventState)
  | forEach (state : ForEachState)
  | inject (state : InjectState)
  | operation (state : OperationState)
  | parallel (state : ParallelState)
  | switch (state : SwitchState)
  | extension (type : String) (properties : OrderedMap Node)
deriving BEq, Repr

namespace StateKind

def type? : StateKind → Option StateType
  | callback _ => some .callback
  | sleep _ => some .sleep
  | event _ => some .event
  | forEach _ => some .forEach
  | inject _ => some .inject
  | operation _ => some .operation
  | parallel _ => some .parallel
  | switch _ => some .switch
  | extension _ _ => none

/-- What the state is called under `type`. -/
def typeName : StateKind → String
  | extension type _ => type
  | kind => (kind.type?.map StateType.text).getD ""

/-- All actions of the state, in the order declared. -/
def actions : StateKind → List Action
  | callback s => [s.action]
  | event s => s.onEvents.flatMap (·.actions)
  | forEach s => s.actions
  | operation s => s.actions
  | parallel s => s.branches.flatMap (·.actions)
  | _ => []

/-- Reads the state of a type from the entries that belong to it. -/
def read (type : StateType) (owned : Object) : Except ConversionError StateKind :=
  let n := Node.mapping owned
  match type with
  | .callback => (CallbackState.codec.read n).map callback
  | .sleep => (SleepState.codec.read n).map sleep
  | .event => (EventState.codec.read n).map event
  | .forEach => (ForEachState.codec.read n).map forEach
  | .inject => (InjectState.codec.read n).map inject
  | .operation => (OperationState.codec.read n).map operation
  | .parallel => (ParallelState.codec.read n).map parallel
  | .switch => (SwitchState.codec.read n).map switch

/-- Reads the state of a type; a failure names the type. -/
def ofObject (type : StateType) (owned : Object) : Except DefinitionError StateKind :=
  (read type owned).mapError fun e => .serialization s!"{type.text} state: {e.message}"

def toNode : StateKind → Node
  | callback s => CallbackState.codec.write s
  | sleep s => SleepState.codec.write s
  | event s => EventState.codec.write s
  | forEach s => ForEachState.codec.write s
  | inject s => InjectState.codec.write s
  | operation s => OperationState.codec.write s
  | parallel s => ParallelState.codec.write s
  | switch s => SwitchState.codec.write s
  | extension _ properties => .mapping properties.entries

end StateKind

/-- The fields that every state may have. -/
structure StateFields where
  id : Option String := none
  name : String := ""
  dataFilter : Option StateDataFilter := none
  onErrors : List ErrorHandler := []
  transition : Option Transition := none
  end_ : Option End := none
  compensatedBy : Option String := none
  usedForCompensation : Bool := false
  metadata : OrderedMap String := {}
deriving BEq, Repr

namespace StateFields

def codec : Codec StateFields :=
  .record "StateDefinitionFields" StateFields.mk <|
    .more (.optional "id" .string (·.id)) <|
    .more (.defaulted "name" .string "" (·.name)) <|
    .more (.optional "stateDataFilter" StateDataFilter.codec (·.dataFilter)) <|
    .more (.omitted "onErrors" (.list ErrorHandler.codec) [] List.isEmpty (·.onErrors)) <|
    .more (.optional "transition" Transition.codec (·.transition)) <|
    .more (.optional "end" End.codec (·.end_)) <|
    .more (.optional "compensatedBy" .string (·.compensatedBy)) <|
    .more (.omitted "usedForCompensation" .bool false (!·) (·.usedForCompensation)) <|
    .more (.omitted "metadata" (.map .string) {} OrderedMap.isEmpty (·.metadata)) .done

/-- The keys of the common fields. -/
def keys : List String :=
  ["id", "name", "stateDataFilter", "onErrors", "transition", "end", "compensatedBy",
    "usedForCompensation", "metadata"]

end StateFields

structure State where
  fields : StateFields
  kind : StateKind
  /-- The entries under keys that belong neither to the type nor to the common fields. -/
  extra : OrderedMap Node := {}
deriving BEq, Repr

namespace State

def name (s : State) : String := s.fields.name

/-- A state with nothing but a name and a kind. -/
def ofKind (name : String) (kind : StateKind) : State := { fields := { name }, kind }

/-- The state that a transition leads to. -/
def next? (s : State) : Option String := s.fields.transition.map Transition.target

def isEnd (s : State) : Bool := s.fields.end_.any End.holds

/-- The name of the type that a mapping gives. -/
def readType (es : Object) : Except DefinitionError String :=
  match es.get? "type" with
  | some (.string type) => .ok type
  | some n => .error (.invalidFormat "type" (Json.compact n) "must be a string")
  | none => .error (.missingField "StateDefinition" "type")

/-- Reads a state. The last entry takes the place of the type before the others are told apart. -/
def ofNode (n : Node) : Except DefinitionError State := do
  let es ← n.toObject "StateDefinition"
  let type ← readType es
  let es := es.swapErase "type"
  if !es.hasKey "name" then .error (.missingField "StateDefinition" "name")
  let (common, rest) := es.splitKeys StateFields.keys
  let fields ← StateFields.codec.decode (.mapping common)
  match StateType.ofText? type with
  | some t => do
    let (owned, extra) := rest.splitKeys t.ownedKeys
    let kind ← StateKind.ofObject t owned
    .ok { fields, kind, extra := ⟨extra⟩ }
  | none => .ok { fields, kind := .extension type ⟨rest⟩ }

/-- The type, then the common fields, the fields of the type, and the other entries. -/
def toNode (s : State) : Node :=
  let entries (n : Node) := n.entries?.getD []
  let es : Object := [("type", .string s.kind.typeName)]
  .mapping (((es.merge (entries (StateFields.codec.write s.fields))).merge
    (entries s.kind.toNode)).merge s.extra.entries)

def codec : Codec State := .ofDefinition "StateDefinition" ofNode toNode

end State

end WorkflowDsl.Legacy
