import WorkflowDsl.Codec.Collection
import WorkflowDsl.Codec.Record

/-!
# Actions and filters

An action of a state calls a function, triggers an event or runs another workflow. Filters say which
data goes into it and where its results go.
-/

namespace WorkflowDsl.Legacy

/-! ## Filters -/

/-- Expressions on the data of a state before and after it. -/
structure StateDataFilter where
  input : Option String := none
  output : Option String := none
deriving DecidableEq, Repr

def StateDataFilter.codec : Codec StateDataFilter :=
  .record "StateDataFilterDefinition" StateDataFilter.mk <|
    .more (.optional "input" .string (·.input)) <|
    .more (.optional "output" .string (·.output)) .done

structure EventDataFilter where
  useData : Bool := true
  data : Option String := none
  toStateData : Option String := none
deriving DecidableEq, Repr

def EventDataFilter.codec : Codec EventDataFilter :=
  .record "EventDataFilterDefinition" EventDataFilter.mk <|
    .more (.omitted "useData" .bool true id (·.useData)) <|
    .more (.optional "data" .string (·.data)) <|
    .more (.optional "toStateData" .string (·.toStateData)) .done

structure ActionDataFilter where
  fromStateData : Option String := none
  useResults : Bool := true
  results : Option String := none
  toStateData : Option String := none
deriving DecidableEq, Repr

def ActionDataFilter.codec : Codec ActionDataFilter :=
  .record "ActionDataFilterDefinition" ActionDataFilter.mk <|
    .more (.optional "fromStateData" .string (·.fromStateData)) <|
    .more (.omitted "useResults" .bool true id (·.useResults)) <|
    .more (.optional "results" .string (·.results)) <|
    .more (.optional "toStateData" .string (·.toStateData)) .done

/-! ## References of actions -/

/-- Whether an action waits for what it invokes. -/
inductive InvocationMode where
  | sync
  | async
deriving DecidableEq, Repr

namespace InvocationMode

def all : List InvocationMode := [sync, async]

def text : InvocationMode → String
  | sync => "sync"
  | async => "async"

def ofText? (s : String) : Option InvocationMode := all.find? (·.text == s)

def codec : Codec InvocationMode := .choice "InvocationMode" all text

end InvocationMode

structure FunctionReference where
  name : String
  arguments : Option Node := none
  selectionSet : Option String := none
  invoke : Option InvocationMode := none
deriving BEq, Repr

def FunctionReference.codec : Codec FunctionReference :=
  .record "FunctionReferenceDefinition" FunctionReference.mk <|
    .more (.required "refName" .string (·.name)) <|
    .more (.optional "arguments" .node (·.arguments)) <|
    .more (.optional "selectionSet" .string (·.selectionSet)) <|
    .more (.optional "invoke" InvocationMode.codec (·.invoke)) .done

structure EventReference where
  produced : String
  consumed : Option String := none
  consumeTimeout : Option String := none
  data : Option Node := none
  contextAttributes : OrderedMap String := {}
  invoke : Option InvocationMode := none
deriving BEq, Repr

def EventReference.codec : Codec EventReference :=
  .record "EventReferenceDefinition" EventReference.mk <|
    .more (.required "produceEventRef" .string (·.produced)) <|
    .more (.optional "consumeEventRef" .string (·.consumed)) <|
    .more (.optional "consumeEventTimeout" .string (·.consumeTimeout)) <|
    .more (.optional "data" .node (·.data)) <|
    .more (.omitted "contextAttributes" (.map .string) {} OrderedMap.isEmpty
      (·.contextAttributes)) <|
    .more (.optional "invoke" InvocationMode.codec (·.invoke)) .done

/-- What becomes of a subordinate workflow when its parent completes. -/
inductive ParentCompletion where
  | terminate
  | continue_
deriving DecidableEq, Repr

def ParentCompletion.all : List ParentCompletion := [terminate, continue_]

def ParentCompletion.text : ParentCompletion → String
  | terminate => "terminate"
  | continue_ => "continue"

def ParentCompletion.codec : Codec ParentCompletion :=
  .choice "ParentCompletionBehavior" ParentCompletion.all ParentCompletion.text

structure SubflowReference where
  workflowId : String
  version : Option String := none
  invoke : Option InvocationMode := none
  onParentComplete : Option ParentCompletion := none
deriving DecidableEq, Repr

def SubflowReference.codec : Codec SubflowReference :=
  .record "SubflowReferenceDefinition" SubflowReference.mk <|
    .more (.required "workflowId" .string (·.workflowId)) <|
    .more (.optional "version" .string (·.version)) <|
    .more (.optional "invoke" InvocationMode.codec (·.invoke)) <|
    .more (.optional "onParentComplete" ParentCompletion.codec (·.onParentComplete)) .done

/-- Pauses around an action. -/
structure Sleep where
  before : Option String := none
  after : Option String := none
deriving DecidableEq, Repr

def Sleep.codec : Codec Sleep :=
  .record "SleepDefinition" Sleep.mk <|
    .more (.optional "before" .string (·.before)) <|
    .more (.optional "after" .string (·.after)) .done

/-! ## Actions -/

inductive ActionType where
  | function
  | trigger
  | subflow
deriving DecidableEq, Repr

def ActionType.text : ActionType → String
  | function => "function"
  | trigger => "trigger"
  | subflow => "subflow"

structure Action where
  id : Option String := none
  name : Option String := none
  function : Option (OneOf FunctionReference String) := none
  event : Option EventReference := none
  subflow : Option (OneOf SubflowReference String) := none
  sleep : Option Sleep := none
  retry : Option String := none
  retryableErrors : List String := []
  nonRetryableErrors : List String := []
  dataFilter : Option ActionDataFilter := none
  condition : Option String := none
deriving BEq, Repr

namespace Action

def codec : Codec Action :=
  .record "ActionDefinition" Action.mk <|
    .more (.optional "id" .string (·.id)) <|
    .more (.optional "name" .string (·.name)) <|
    .more (.optional "functionRef" (.oneOf FunctionReference.codec .string) (·.function)) <|
    .more (.optional "eventRef" EventReference.codec (·.event)) <|
    .more (.optional "subFlowRef" (.oneOf SubflowReference.codec .string) (·.subflow)) <|
    .more (.optional "sleep" Sleep.codec (·.sleep)) <|
    .more (.optional "retryRef" .string (·.retry)) <|
    .more (.omitted "retryableErrors" (.list .string) [] List.isEmpty (·.retryableErrors)) <|
    .more (.omitted "nonRetryableErrors" (.list .string) [] List.isEmpty
      (·.nonRetryableErrors)) <|
    .more (.optional "actionDataFilter" ActionDataFilter.codec (·.dataFilter)) <|
    .more (.optional "condition" .string (·.condition)) .done

/-- The action that calls a function. -/
def ofFunction (name : String) : Action := { function := some (.second name) }

/-- What the action does, if anything. -/
def type? (a : Action) : Option ActionType :=
  if a.function.isSome then some .function
  else if a.event.isSome then some .trigger
  else if a.subflow.isSome then some .subflow
  else none

def functionName? (a : Action) : Option String :=
  a.function.map (OneOf.either (·.name) fun name => name)

end Action

end WorkflowDsl.Legacy
