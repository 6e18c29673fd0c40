import WorkflowDsl.Model.Component

/-!
# Workflows

A `Workflow` is a document of the task based language: what it is called, its tasks, and the
components that they refer to. Entries under unknown keys are kept.
-/

namespace WorkflowDsl

/-- The section of a document that says what it is. -/
structure DocumentInfo where
  dsl : String := "1.0.0"
  workspace : String := "default"
  name : String
  version : String
  title : Option String := none
  summary : Option String := none
  tags : OrderedMap String := {}
  metadata : OrderedMap Node := {}
deriving BEq, Repr

def DocumentInfo.codec : Codec DocumentInfo :=
  .record "WorkflowDefinitionMetadata" DocumentInfo.mk <|
    .more (.defaulted "dsl" .string "1.0.0" (·.dsl)) <|
    .more (.defaulted "namespace" .string "default" (·.workspace)) <|
    .more (.required "name" .string (·.name)) <|
    .more (.required "version" .string (·.version)) <|
    .more (.optional "title" .string (·.title)) <|
    .more (.optional "summary" .string (·.summary)) <|
    .more (.omitted "tags" (.map .string) {} OrderedMap.isEmpty (·.tags)) <|
    .more (.omitted "metadata" (.map .node) {} OrderedMap.isEmpty (·.metadata)) .done

/-- What starts a workflow. -/
structure Schedule where
  every : Option Duration := none
  cron : Option String := none
  after : Option Duration := none
  events : Option EventStrategy := none
deriving BEq, Repr

def Schedule.codec : Codec Schedule :=
  .record "WorkflowScheduleDefinition" Schedule.mk <|
    .more (.optional "every" Duration.codec (·.every)) <|
    .more (.optional "cron" .string (·.cron)) <|
    .more (.optional "after" Duration.codec (·.after)) <|
    .more (.optional "on" EventStrategy.codec (·.events)) .done

structure Workflow where
  info : DocumentInfo
  input : Option InputModel := none
  components : Option Components := none
  tasks : NamedMap Task
  timeout : Option TimeoutReference := none
  output : Option OutputModel := none
  schedule : Option Schedule := none
  extra : OrderedMap Node := {}
deriving BEq

namespace Workflow

def codec : Codec Workflow :=
  .openRecord "WorkflowDefinition" Workflow.mk
    (.more (.required "document" DocumentInfo.codec (·.info)) <|
      .more (.optional "input" InputModel.codec (·.input)) <|
      .more (.optional "use" Components.codec (·.components)) <|
      .more (.required "do" (.namedMap Task.codec) (·.tasks)) <|
      .more (.optional "timeout" TimeoutReference.codec (·.timeout)) <|
      .more (.optional "output" OutputModel.codec (·.output)) <|
      .more (.optional "schedule" Schedule.codec (·.schedule)) .done)
    (·.extra)

/-- A task of the topmost list. -/
def task? (w : Workflow) (name : String) : Option Task := w.tasks.get? name

/-- All tasks, each with its path, depth first. -/
def walk (w : Workflow) : List (String × Task) := w.tasks.walk "do"

end Workflow

end WorkflowDsl
