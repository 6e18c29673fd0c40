import WorkflowDsl.Codec.Collection
import WorkflowDsl.Codec.Record

/-!
# Transitions and ends

A state is followed by another one or ends the workflow. Either may be written in short, as the name
of the next state or as a truth value, or with the events that it produces.
-/

namespace WorkflowDsl.Legacy

/-- An event that is produced on the way to the next state or at the end. -/
structure ProducedEvent where
  event : String
  data : Option Node := none
  contextAttributes : OrderedMap String := {}
deriving BEq, Repr

def ProducedEvent.codec : Codec ProducedEvent :=
  .record "ProduceEventDefinition" ProducedEvent.mk <|
    .more (.required "eventRef" .string (·.event)) <|
    .more (.optional "data" .node (·.data)) <|
    .more (.omitted "contextAttributes" (.map .string) {} OrderedMap.isEmpty
      (·.contextAttributes)) .done

structure TransitionProperties where
  nextState : String
  produceEvents : List ProducedEvent := []
  compensate : Bool := false
deriving BEq, Repr

def TransitionProperties.codec : Codec TransitionProperties :=
  .record "TransitionDefinition" TransitionProperties.mk <|
    .more (.required "nextState" .string (·.nextState)) <|
    .more (.omitted "produceEvents" (.list ProducedEvent.codec) [] List.isEmpty
      (·.produceEvents)) <|
    .more (.omitted "compensate" .bool false (!·) (·.compensate)) .done

/-- A transition with its properties, or the name of the next state. -/
abbrev Transition := OneOf TransitionProperties String

namespace Transition

def codec : Codec Transition := .oneOf TransitionProperties.codec .string

def target : Transition → String
  | .first t => t.nextState
  | .second name => name

end Transition

/-- The workflow that goes on after this one. -/
structure Continuation where
  workflowId : String
  version : Option String := none
  data : Option Node := none
  timeout : Option String := none
deriving BEq, Repr

def Continuation.codec : Codec Continuation :=
  .record "ContinueAsDefinition" Continuation.mk <|
    .more (.required "workflowId" .string (·.workflowId)) <|
    .more (.optional "version" .string (·.version)) <|
    .more (.optional "data" .node (·.data)) <|
    .more (.optional "workflowExecTimeout" .string (·.timeout)) .done

structure EndProperties where
  terminate : Bool := false
  produceEvents : List ProducedEvent := []
  compensate : Bool := false
  continueAs : Option (OneOf Continuation String) := none
deriving BEq, Repr

def EndProperties.codec : Codec EndProperties :=
  .record "EndDefinition" EndProperties.mk <|
    .more (.omitted "terminate" .bool false (!·) (·.terminate)) <|
    .more (.omitted "produceEvents" (.list ProducedEvent.codec) [] List.isEmpty
      (·.produceEvents)) <|
    .more (.omitted "compensate" .bool false (!·) (·.compensate)) <|
    .more (.optional "continueAs" (.oneOf Continuation.codec .string) (·.continueAs)) .done

/-- An end with its properties, or whether there is one. -/
abbrev End := OneOf EndProperties Bool

namespace End

def codec : Codec End := .oneOf EndProperties.codec .bool

/-- Whether the workflow ends. -/
def holds : End → Bool
  | .first _ => true
  | .second b => b

end End

/-- What follows when an error occurs in a state. -/
structure ErrorHandler where
  error : Option String := none
  errors : List String := []
  transition : Option Transition := none
  end_ : Option End := none
deriving BEq, Repr

def ErrorHandler.codec : Codec ErrorHandler :=
  .record "ErrorHandlerDefinition" ErrorHandler.mk <|
    .more (.optional "errorRef" .string (·.error)) <|
    .more (.omitted "errorRefs" (.list .string) [] List.isEmpty (·.errors)) <|
    .more (.optional "transition" Transition.codec (·.transition)) <|
    .more (.optional "end" End.codec (·.end_)) .done

end WorkflowDsl.Legacy
