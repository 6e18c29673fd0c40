import WorkflowDsl.Draft.Script.Task
import WorkflowDsl.Draft.Workflow
import WorkflowDsl.Legacy.Draft

/-!
# Scripts of documents
-/

namespace WorkflowDsl.Script

def componentsStep : Step ComponentsDraft
  | d, "authentication", [k, v] => do
    let a ← run authenticationStep {} v
    .ok { d with authentications := d.authentications ++ [(textOf k, a)] }
  | d, "catalog", [k, v] =>
    .ok { d with catalogs := d.catalogs ++ [(textOf k, { endpoint := .second (textOf v) })] }
  | d, "error", [k, v] => do
    let p ← run problemStep {} v
    .ok { d with problems := d.problems ++ [(textOf k, p)] }
  | d, "extension", [k, v] => do
    let e ← Extension.codec.decode v
    .ok { d with extensions := d.extensions ++ [(textOf k, e)] }
  | d, "function", [k, v] => do
    let t ← taskOf v
    .ok { d with functions := d.functions ++ [(textOf k, t)] }
  | d, "retry", [k, v] => do
    let p ← run retryStep {} v
    .ok { d with retries := d.retries ++ [(textOf k, p)] }
  | d, "secret", [v] => .ok { d with secrets := d.secrets ++ [textOf v] }
  | d, "timeout", [k, v] => do
    let t ← run timeoutStep {} v
    .ok { d with timeouts := d.timeouts ++ [(textOf k, t)] }
  | d, _, _ => .ok d

def workflowStep : Step WorkflowDraft
  | d, "dsl", [v] => d.withDsl (textOf v)
  | d, "namespace", [v] => d.withWorkspace (textOf v)
  | d, "name", [v] => d.withName (textOf v)
  | d, "version", [v] => d.withVersion (textOf v)
  | d, "title", [v] => .ok { d with title := some (textOf v) }
  | d, "summary", [v] => .ok { d with summary := some (textOf v) }
  | d, "tag", [k, v] => .ok { d with tags := d.tags.insert (textOf k) (textOf v) }
  | d, "metadata", [k, v] => .ok { d with metadata := d.metadata.insert (textOf k) v }
  | d, "input", [v] => (InputModel.codec.decode v).map fun m => { d with input := some m }
  | d, "output", [v] => (OutputModel.codec.decode v).map fun m => { d with output := some m }
  | d, "timeout", [v] =>
    (Timeout.codec.decode v).map fun t => { d with timeout := some (.first t) }
  | d, "timeout_reference", [v] => .ok { d with timeout := some (.second (textOf v)) }
  | d, "schedule", [v] => (Schedule.codec.decode v).map fun s => { d with schedule := some s }
  | d, "use", [v] => do
    let components ← run componentsStep (d.components.getD {}) v
    .ok { d with components := some components }
  | d, name, args => (taskListStep taskOf d.tasks name args).map fun tasks => { d with tasks }

def stateStep : Step Legacy.State
  | s, "transition", [v] => .ok (s.withTransition (textOf v))
  | s, "end", _ => .ok s.withEnd
  | s, "terminate", _ => .ok s.withTermination
  | s, "on_error", [e, n] => .ok (s.withErrorHandler (textOf e) (textOf n))
  | s, "metadata", [k, v] => .ok (s.withMetadata (textOf k) (textOf v))
  | s, _, _ => .ok s

/-- A state of the kind of a whole node, under another name. -/
def stateOf (name : String) (n : Node) : Except DefinitionError Legacy.State :=
  (Legacy.State.ofNode n).map fun s => .ofKind name s.kind

def legacyStep : Step Legacy.WorkflowDraft
  | d, "version", [v] => .ok (d.mapWorkflow fun w => { w with version := some (textOf v) })
  | d, "description", [v] => .ok (d.mapWorkflow fun w => { w with description := some (textOf v) })
  | d, "start", [v] => .ok (d.mapWorkflow fun w => { w with start := some (.second (textOf v)) })
  | d, "keep_active", [v] => .ok (d.mapWorkflow fun w => { w with keepActive := isTrue v })
  | d, "constant", [k, v] => .ok (d.withConstant (textOf k) v)
  | d, "function", [v] => (Legacy.Function.codec.decode v).map d.withFunction
  | d, "event", [v] => (Legacy.Event.codec.decode v).map d.withEvent
  | d, "retry", [v] => (Legacy.Retry.codec.decode v).map d.withRetry
  | d, "state", [k, n, v] => do
    let s ← stateOf (textOf k) n
    let s ← run stateStep s v
    .ok (d.withState s)
  | d, _, _ => .ok d

/-! ## Kinds of drafts -/

/-- A kind of draft: how it starts, what its steps do, and what it is built and written as. -/
structure Maker where
  draft : Type
  start : draft
  step : Step draft
  build : draft → Except DefinitionError Node

namespace Maker

def of {σ α : Type} (start : σ) (step : Step σ) (build : σ → Except DefinitionError α)
    (codec : Codec α) : Maker :=
  ⟨σ, start, step, fun s => (build s).map codec.write⟩

/-- What is built before the first step and after each. -/
def outcomes (m : Maker) (script : Node) : List (Except DefinitionError Node) :=
  Script.outcomes m.step m.build (.ok m.start) (items script)

def task (kind function : String) : Maker :=
  .of (.ofKind (emptyKind kind function)) taskStep TaskDraft.build Task.codec

/-- The catcher of a try task, built with the tasks inside. -/
def buildCatcher (d : CatcherDraft TaskDraft) : Except DefinitionError (Catcher Task) :=
  CatcherDraft.build (TaskDraft.buildHandler d)

def state (name : String) (whole : Node) : Except DefinitionError Maker :=
  (stateOf name whole).map fun s => .of s stateStep Legacy.State.build Legacy.State.codec

def legacyWorkflow (id name : String) : Maker :=
  .of (.ofName id name) legacyStep Legacy.WorkflowDraft.build Legacy.Workflow.codec

/-- The kinds of drafts other than tasks, by name. -/
def all : List (String × Maker) :=
  [("basic", .of {} credentialsStep Credentials.build Credentials.codec),
    ("digest", .of {} credentialsStep Credentials.buildDigest Credentials.codec),
    ("bearer", .of {} bearerStep BearerToken.build BearerToken.codec),
    ("oauth2", .of {} oauth2Step OAuth2.build OAuth2.codec),
    ("oidc", .of {} oauth2Step OAuth2.build OAuth2.codec),
    ("authentication",
      .of {} authenticationStep AuthenticationDraft.build Authentication.codec),
    ("endpoint", .of {} endpointStep EndpointDraft.build EndpointProperties.codec),
    ("resource", .of {} resourceStep ResourceDraft.build ExternalResource.codec),
    ("schema", .of {} schemaStep SchemaDraft.build Schema.codec),
    ("error", .of {} problemStep ProblemDraft.build Problem.codec),
    ("timeout", .of {} timeoutStep TimeoutDraft.build Timeout.codec),
    ("retry", .of {} retryStep RetryPolicy.build RetryPolicy.codec),
    ("catcher", .of {} (catcherStep taskOf) buildCatcher (Catcher.codec Task.codec)),
    ("event", .of {} eventStep Event.build Event.codec),
    ("event_filter", .of {} eventFilterStep (fun d => .ok d.build) EventFilter.codec),
    ("listener", .of {} listenerStep ListenerDraft.build Listener.codec),
    ("case", .of {} caseStep SwitchCaseDraft.build SwitchCase.codec),
    ("container",
      .of { image := "" } containerStep ContainerProcess.build ContainerProcess.codec),
    ("script", .of {} scriptStep ScriptDraft.build ScriptProcess.codec),
    ("shell", .of { command := "" } shellStep ShellProcess.build ShellProcess.codec),
    ("sub_workflow",
      .of .draft workflowProcessStep WorkflowProcess.build WorkflowProcess.codec),
    ("components", .of {} componentsStep ComponentsDraft.build Components.codec),
    ("workflow", .of {} workflowStep WorkflowDraft.build Workflow.codec)]

/-- The kind of a name: one of the kinds above, or else a kind of tasks. -/
def ofName (name function : String) : Maker := (all.lookup name).getD (task name function)

end Maker

end WorkflowDsl.Script
