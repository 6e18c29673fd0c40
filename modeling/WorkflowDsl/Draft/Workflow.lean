import WorkflowDsl.Draft.Task
import WorkflowDsl.Model.Validation

/-!
# Workflows in the making

Drafts of the components and of the document. The names and versions of a document are checked as
they are set, all else when it is built; a built document is valid.
-/

namespace WorkflowDsl

structure ComponentsDraft where
  authentications : List (String × AuthenticationDraft) := []
  catalogs : List (String × Catalog) := []
  problems : List (String × ProblemDraft) := []
  extensions : List (String × Extension) := []
  functions : List (String × TaskDraft) := []
  retries : List (String × RetryPolicy) := []
  secrets : List String := []
  timeouts : List (String × TimeoutDraft) := []

/-- Builds the collections one after another. -/
def ComponentsDraft.build (d : ComponentsDraft) : Except DefinitionError Components := do
  let authentications ←
    buildNamed "use.authentications" AuthenticationDraft.build d.authentications
  let problems ← buildNamed "use.errors" ProblemDraft.build d.problems
  let functions ← TaskDraft.buildList "use.functions" d.functions
  let retries ← buildNamed "use.retries" RetryPolicy.build d.retries
  let timeouts ← buildNamed "use.timeouts" TimeoutDraft.build d.timeouts
  .ok
    { authentications := .ofList authentications
      catalogs := .ofList d.catalogs
      problems := .ofList problems
      extensions := .ofList d.extensions
      functions := .ofList functions.entries
      retries := .ofList retries
      secrets := d.secrets
      timeouts := .ofList timeouts }

structure WorkflowDraft where
  dsl : String := "1.0.0"
  workspace : String := "default"
  name : Option String := none
  version : Option String := none
  title : Option String := none
  summary : Option String := none
  tags : OrderedMap String := {}
  metadata : OrderedMap Node := {}
  input : Option InputModel := none
  output : Option OutputModel := none
  timeout : Option TimeoutReference := none
  schedule : Option Schedule := none
  components : Option ComponentsDraft := none
  tasks : List (String × TaskDraft) := []

namespace WorkflowDraft

/-! ## Checked setters -/

def withDsl (d : WorkflowDraft) (dsl : String) : Except DefinitionError WorkflowDraft := do
  Format.checkVersion "document.dsl" dsl
  .ok { d with dsl }

def withWorkspace (d : WorkflowDraft) (workspace : String) :
    Except DefinitionError WorkflowDraft := do
  Format.checkName "document.namespace" workspace
  .ok { d with workspace }

def withName (d : WorkflowDraft) (name : String) : Except DefinitionError WorkflowDraft := do
  Format.checkName "document.name" name
  .ok { d with name := some name }

def withVersion (d : WorkflowDraft) (version : String) : Except DefinitionError WorkflowDraft := do
  Format.checkVersion "document.version" version
  .ok { d with version := some version }

/-! ## Building -/

/-- The section that says what the document is. -/
def info (d : WorkflowDraft) (name version : String) : DocumentInfo where
  dsl := d.dsl
  workspace := d.workspace
  name
  version
  title := d.title
  summary := d.summary
  tags := d.tags
  metadata := d.metadata

/-- Builds the document and validates it. Components are left out when there are none. -/
def build (d : WorkflowDraft) : Except DefinitionError Workflow :=
  match d.name, d.version with
  | none, _ => .error (.missingField "WorkflowDefinition" "document.name")
  | some _, none => .error (.missingField "WorkflowDefinition" "document.version")
  | some name, some version => do
    if d.tasks.isEmpty then .error (.cardinality "do" 1 0)
    let components ← d.components.mapM ComponentsDraft.build
    let tasks ← TaskDraft.buildList "do" d.tasks
    let workflow : Workflow :=
      { info := d.info name version
        input := d.input
        components := components.filter fun c => !c.isEmpty
        tasks
        timeout := d.timeout
        output := d.output
        schedule := d.schedule }
    workflow.check
    .ok workflow

end WorkflowDraft

end WorkflowDsl
