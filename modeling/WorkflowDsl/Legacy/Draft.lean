import WorkflowDsl.Legacy.Workflow

/-!
# Legacy workflows in the making

A state is its own draft. A draft of a document holds the states apart: they are built together with
it, and a built document is valid.
-/

namespace WorkflowDsl.Legacy

namespace State

/-- Changes the common fields. -/
def mapFields (f : StateFields → StateFields) (s : State) : State :=
  { s with fields := f s.fields }

def withTransition (s : State) (next : String) : State :=
  s.mapFields fun fields => { fields with transition := some (.second next) }

/-- Ends the workflow. -/
def withEnd (s : State) : State :=
  s.mapFields fun fields => { fields with end_ := some (.second true) }

/-- Ends the workflow at once, with all that still runs. -/
def withTermination (s : State) : State :=
  s.mapFields fun fields => { fields with end_ := some (.first { terminate := true }) }

def withErrorHandler (s : State) (error next : String) : State :=
  let handler : ErrorHandler := { error := some error, transition := some (.second next) }
  s.mapFields fun fields => { fields with onErrors := fields.onErrors ++ [handler] }

def withMetadata (s : State) (key value : String) : State :=
  s.mapFields fun fields => { fields with metadata := fields.metadata.insert key value }

/-- A state has a name, and either goes on or ends. -/
def build (s : State) : Except DefinitionError State :=
  if Text.isBlankText s.name then .error (.missingField "StateDefinition" "name")
  else if s.fields.transition.isSome && s.fields.end_.isSome then
    .error (.mutuallyExclusive "StateDefinition" ["transition", "end"])
  else .ok s

end State

/-- Adds to a part of the document. A URI given in its place is dropped. -/
def Referenceable.push {α : Type} (part : Option (Referenceable (List α))) (a : α) :
    Option (Referenceable (List α)) :=
  match part with
  | some (.first as) => some (.first (as ++ [a]))
  | _ => some (.first [a])

structure WorkflowDraft where
  workflow : Workflow
  states : List State := []

namespace WorkflowDraft

def ofName (id name : String) : WorkflowDraft := { workflow := { id := some id, name } }

/-- Changes the document. -/
def mapWorkflow (f : Workflow → Workflow) (d : WorkflowDraft) : WorkflowDraft :=
  { d with workflow := f d.workflow }

/-- Adds a constant, unless the constants are given by a URI. -/
def withConstant (d : WorkflowDraft) (name : String) (value : Node) : WorkflowDraft :=
  d.mapWorkflow fun w =>
    match w.constants with
    | some (.second _) => w
    | some (.first constants) => { w with constants := some (.first (constants.insert name value)) }
    | none => { w with constants := some (.first (OrderedMap.empty.insert name value)) }

def withFunction (d : WorkflowDraft) (f : Function) : WorkflowDraft :=
  d.mapWorkflow fun w => { w with functions := Referenceable.push w.functions f }

def withEvent (d : WorkflowDraft) (e : Event) : WorkflowDraft :=
  d.mapWorkflow fun w => { w with events := Referenceable.push w.events e }

def withRetry (d : WorkflowDraft) (r : Retry) : WorkflowDraft :=
  d.mapWorkflow fun w => { w with retries := Referenceable.push w.retries r }

def withState (d : WorkflowDraft) (s : State) : WorkflowDraft :=
  { d with states := d.states ++ [s] }

/-- Builds states one after another. Errors name the place of the state. -/
def buildStates : Nat → List State → Except DefinitionError (List State)
  | _, [] => .ok []
  | index, s :: rest => do
    let s ← s.build.mapError (.within ("states[" ++ toString index ++ "]"))
    let rest ← buildStates (index + 1) rest
    .ok (s :: rest)

/-- Builds the document and validates it. -/
def build (d : WorkflowDraft) : Except DefinitionError Workflow := do
  let states ← buildStates 0 d.states
  let workflow := { d.workflow with states := d.workflow.states ++ states }
  workflow.check
  .ok workflow

end WorkflowDraft

end WorkflowDsl.Legacy
