import WorkflowDsl.Draft.Resource
import WorkflowDsl.Model.Process

/-!
# Processes in the making
-/

namespace WorkflowDsl

/-- A container has an image, and one that is removed eventually says after which time. -/
def ContainerProcess.build (p : ContainerProcess) : Except DefinitionError ContainerProcess :=
  if Text.isBlankText p.image then .error (.missingField "ContainerProcessDefinition" "image")
  else
    match p.lifetime with
    | some { cleanup := .eventually, after := none } =>
      .error (.missingField "ContainerLifetimeDefinition" "lifetime.after")
    | some { after := some after, .. } => do
      after.check "lifetime.after"
      .ok p
    | _ => .ok p

structure ScriptDraft where
  language : Option String := none
  code : Option String := none
  source : Option ResourceDraft := none
  arguments : OrderedMap Node := {}
  environment : OrderedMap String := {}
deriving Repr

namespace ScriptDraft

/-- The script has code or a source, but not both. -/
def buildSource (d : ScriptDraft) : Except DefinitionError (Option ExternalResource) :=
  match d.code, d.source with
  | some _, some _ => .error (.mutuallyExclusive "ScriptProcessDefinition" ["code", "source"])
  | none, none => .error (.missingField "ScriptProcessDefinition" "code")
  | none, some source => (source.build.map some).mapError (.within "source")
  | some _, none => .ok none

def build (d : ScriptDraft) : Except DefinitionError ScriptProcess :=
  match d.language.filter (!Text.isBlankText ·) with
  | none => .error (.missingField "ScriptProcessDefinition" "language")
  | some language =>
    d.buildSource.map fun source =>
      { language, code := d.code, source, arguments := d.arguments, environment := d.environment }

end ScriptDraft

def ShellProcess.build (p : ShellProcess) : Except DefinitionError ShellProcess :=
  if Text.isBlankText p.command then .error (.missingField "ShellProcessDefinition" "command")
  else .ok p

/-- The start of a draft of a subordinate workflow. -/
def WorkflowProcess.draft : WorkflowProcess :=
  { workspace := "default", name := "", version := "" }

def WorkflowProcess.build (p : WorkflowProcess) : Except DefinitionError WorkflowProcess := do
  if p.name.isEmpty then .error (.missingField "WorkflowProcessDefinition" "name")
  if p.version.isEmpty then .error (.missingField "WorkflowProcessDefinition" "version")
  Format.checkName "namespace" p.workspace
  Format.checkName "name" p.name
  Format.checkVersion "version" p.version
  .ok p

inductive ProcessDraft where
  | container (process : ContainerProcess)
  | script (draft : ScriptDraft)
  | shell (process : ShellProcess)
  | workflow (process : WorkflowProcess)
deriving Repr

/-- Builds a process. Errors name its kind. -/
def ProcessDraft.build : ProcessDraft → Except DefinitionError Process
  | container p => (p.build.map .container).mapError (.within "run.container")
  | script d => (d.build.map .script).mapError (.within "run.script")
  | shell p => (p.build.map .shell).mapError (.within "run.shell")
  | workflow p => (p.build.map .workflow).mapError (.within "run.workflow")

end WorkflowDsl
