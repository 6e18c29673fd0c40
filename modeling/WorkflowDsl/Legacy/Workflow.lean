import WorkflowDsl.Legacy.State

/-!
# Legacy workflows

A legacy workflow is a graph of states. Most of its collections may be given by a URI instead. A
valid workflow has states with distinct names, and whatever names a state or a declared function
names one that exists.
-/

namespace WorkflowDsl.Legacy

/-- A part of the document, or the URI where it is found. -/
abbrev Referenceable (α : Type) := OneOf α String

structure Workflow where
  id : Option String := none
  key : Option String := none
  name : String := ""
  description : Option String := none
  version : Option String := none
  specVersion : String := "0.8"
  start : Option Start := none
  expressionLanguage : String := "jq"
  annotations : List String := []
  inputSchema : Option (Referenceable InputSchema) := none
  secrets : Option (Referenceable (List String)) := none
  constants : Option (Referenceable (OrderedMap Node)) := none
  timeouts : Option (Referenceable Timeouts) := none
  errors : Option (Referenceable (List Error)) := none
  keepActive : Bool := false
  autoRetries : Bool := false
  metadata : OrderedMap String := {}
  events : Option (Referenceable (List Event)) := none
  functions : Option (Referenceable (List Function)) := none
  retries : Option (Referenceable (List Retry)) := none
  auth : Option (Referenceable (List Authentication)) := none
  states : List State := []
  extra : OrderedMap Node := {}
deriving BEq

namespace Workflow

/-- A field that may be given by a URI. -/
def referenceable {α : Type} (key : String) (c : Codec α)
    (get : Workflow → Option (Referenceable α)) : Field Workflow (Option (Referenceable α)) :=
  .optional key (.oneOf c .string) get

def codec : Codec Workflow :=
  .openRecord "LegacyWorkflowDefinition" Workflow.mk
    (.more (.optional "id" .string (·.id)) <|
      .more (.optional "key" .string (·.key)) <|
      .more (.defaulted "name" .string "" (·.name)) <|
      .more (.optional "description" .string (·.description)) <|
      .more (.optional "version" .string (·.version)) <|
      .more (.defaulted "specVersion" .string "0.8" (·.specVersion)) <|
      .more (.optional "start" Start.codec (·.start)) <|
      .more (.defaulted "expressionLang" .string "jq" (·.expressionLanguage)) <|
      .more (.omitted "annotations" (.list .string) [] List.isEmpty (·.annotations)) <|
      .more (referenceable "dataInputSchema" InputSchema.codec (·.inputSchema)) <|
      .more (referenceable "secrets" (.list .string) (·.secrets)) <|
      .more (referenceable "constants" .object (·.constants)) <|
      .more (referenceable "timeouts" Timeouts.codec (·.timeouts)) <|
      .more (referenceable "errors" (.list Error.codec) (·.errors)) <|
      .more (.omitted "keepActive" .bool false (!·) (·.keepActive)) <|
      .more (.omitted "autoRetries" .bool false (!·) (·.autoRetries)) <|
      .more (.omitted "metadata" (.map .string) {} OrderedMap.isEmpty (·.metadata)) <|
      .more (referenceable "events" (.list Event.codec) (·.events)) <|
      .more (referenceable "functions" (.list Function.codec) (·.functions)) <|
      .more (referenceable "retries" (.list Retry.codec) (·.retries)) <|
      .more (referenceable "auth" (.list Authentication.codec) (·.auth)) <|
      .more (.defaulted "states" (.list State.codec) [] (·.states)) .done)
    (·.extra)

def state? (w : Workflow) (name : String) : Option State := w.states.find? (·.name == name)

/-- The state that the workflow starts with: the one declared, or else the first. -/
def startState? (w : Workflow) : Option String :=
  match w.start with
  | some s => some s.state
  | none => w.states.head?.map State.name

def inlineFunctions? (w : Workflow) : Option (List Function) := w.functions.bind OneOf.first?

def inlineEvents? (w : Workflow) : Option (List Event) := w.events.bind OneOf.first?

/-! ## Validation -/

/-- The first name that has occurred before. -/
def firstDuplicate? : List String → List String → Option String
  | _, [] => none
  | seen, name :: rest =>
    if seen.contains name then some name else firstDuplicate? (name :: seen) rest

/-- The name has to be that of a state. -/
def checkState (w : Workflow) (field name : String) : Check :=
  if (w.state? name).isSome then .ok () else .error (.invalidFormat field name "unknown state")

def checkTarget (w : Workflow) (field : String) (t : Option Transition) : Check :=
  t.forM fun t => w.checkState field t.target

/-- Checks the cases of a switch state and where they lead to. -/
def checkSwitch (w : Workflow) (state : State) (s : SwitchState) : Check := do
  (s.check "switch").mapError fun
    | .mutuallyExclusive _ fields => .mutuallyExclusive state.name fields
    | .cardinality _ min actual => .cardinality "dataConditions" min actual
    | e => e
  s.cases.forM fun c => w.checkTarget "conditions.transition" c.transition?
  s.default.forM fun d => w.checkTarget "defaultCondition.transition" d.transition

/-- Functions called by actions have to be declared, if the declarations are in the document. -/
def checkActions (w : Workflow) (state : State) : Check :=
  w.inlineFunctions?.forM fun functions =>
    (state.kind.actions.filterMap Action.functionName?).forM fun name =>
      if functions.any (·.name == name) then .ok ()
      else .error (.invalidFormat "actions.functionRef" name "unknown function")

/-- Checks where a state leads to. -/
def checkStateDefinition (w : Workflow) (state : State) : Check := do
  let fields := state.fields
  if fields.transition.isSome && fields.end_.isSome then
    .error (.mutuallyExclusive state.name ["transition", "end"])
  w.checkTarget "transition" fields.transition
  fields.onErrors.forM fun h => w.checkTarget "onErrors.transition" h.transition
  fields.compensatedBy.forM (w.checkState "compensatedBy")
  match state.kind with
  | .switch s => w.checkSwitch state s
  | _ => .ok ()
  w.checkActions state

/-- Finds the first violation of a document. -/
def check (w : Workflow) : Check := do
  if Text.isBlankText w.name then .error (.missingField "LegacyWorkflowDefinition" "name")
  if w.states.isEmpty then .error (.cardinality "states" 1 0)
  (firstDuplicate? [] (w.states.map State.name)).forM fun name =>
    .error (.invalidFormat s!"states.{name}" name "duplicate state name")
  w.start.forM fun s => w.checkState "start" s.state
  w.states.forM fun state =>
    (w.checkStateDefinition state).mapError (.within s!"states.{state.name}")

end Workflow

end WorkflowDsl.Legacy
