import WorkflowDsl.Codec.Keyed
import WorkflowDsl.Duration
import WorkflowDsl.Format.Name
import WorkflowDsl.Format.SemVer
import WorkflowDsl.Model.Resource

/-!
# Processes

A task may run a container, a script, a command of a shell or another workflow. The key of the
process tells which; beside it stand whether the task waits for the process and what it returns.
-/

namespace WorkflowDsl

inductive ProcessReturn where
  | stdout
  | stderr
  | code
  | all_
  | none_
deriving DecidableEq, Repr

namespace ProcessReturn

def all : List ProcessReturn := [stdout, stderr, code, all_, none_]

def text : ProcessReturn → String
  | stdout => "stdout"
  | stderr => "stderr"
  | code => "code"
  | all_ => "all"
  | none_ => "none"

def ofText? (s : String) : Option ProcessReturn := all.find? (·.text == s)

def codec : Codec ProcessReturn := .choice "ProcessReturnType" all text

end ProcessReturn

/-- What becomes of a container after its process. -/
inductive Cleanup where
  | always
  | never
  | eventually
deriving DecidableEq, Repr

def Cleanup.all : List Cleanup := [always, never, eventually]

def Cleanup.text : Cleanup → String
  | always => "always"
  | never => "never"
  | eventually => "eventually"

def Cleanup.codec : Codec Cleanup := .choice "ContainerCleanupPolicy" Cleanup.all Cleanup.text

structure ContainerLifetime where
  cleanup : Cleanup
  after : Option Duration := none
deriving DecidableEq, Repr

def ContainerLifetime.codec : Codec ContainerLifetime :=
  .record "ContainerLifetimeDefinition" ContainerLifetime.mk <|
    .more (.required "cleanup" Cleanup.codec (·.cleanup)) <|
    .more (.optional "after" Duration.codec (·.after)) .done

structure ContainerProcess where
  image : String
  name : Option String := none
  command : Option String := none
  ports : OrderedMap Node := {}
  volumes : OrderedMap Node := {}
  environment : OrderedMap String := {}
  lifetime : Option ContainerLifetime := none
deriving BEq, Repr

def ContainerProcess.codec : Codec ContainerProcess :=
  .record "ContainerProcessDefinition" ContainerProcess.mk <|
    .more (.required "image" .string (·.image)) <|
    .more (.optional "name" .string (·.name)) <|
    .more (.optional "command" .string (·.command)) <|
    .more (.omitted "ports" (.map .node) {} OrderedMap.isEmpty (·.ports)) <|
    .more (.omitted "volumes" (.map .node) {} OrderedMap.isEmpty (·.volumes)) <|
    .more (.omitted "environment" (.map .string) {} OrderedMap.isEmpty (·.environment)) <|
    .more (.optional "lifetime" ContainerLifetime.codec (·.lifetime)) .done

/-- A script in the document (`code`) or outside of it (`source`). -/
structure ScriptProcess where
  language : String
  code : Option String := none
  source : Option ExternalResource := none
  arguments : OrderedMap Node := {}
  environment : OrderedMap String := {}
deriving BEq, Repr

def ScriptProcess.codec : Codec ScriptProcess :=
  .record "ScriptProcessDefinition" ScriptProcess.mk <|
    .more (.required "language" .string (·.language)) <|
    .more (.optional "code" .string (·.code)) <|
    .more (.optional "source" ExternalResource.codec (·.source)) <|
    .more (.omitted "arguments" (.map .node) {} OrderedMap.isEmpty (·.arguments)) <|
    .more (.omitted "environment" (.map .string) {} OrderedMap.isEmpty (·.environment)) .done

structure ShellProcess where
  command : String
  arguments : OrderedMap Node := {}
  environment : OrderedMap String := {}
deriving BEq, Repr

def ShellProcess.codec : Codec ShellProcess :=
  .record "ShellProcessDefinition" ShellProcess.mk <|
    .more (.required "command" .string (·.command)) <|
    .more (.omitted "arguments" (.map .node) {} OrderedMap.isEmpty (·.arguments)) <|
    .more (.omitted "environment" (.map .string) {} OrderedMap.isEmpty (·.environment)) .done

/-- Another workflow. -/
structure WorkflowProcess where
  workspace : String
  name : String
  version : String
  input : Option Node := none
deriving BEq, Repr

def WorkflowProcess.codec : Codec WorkflowProcess :=
  .record "WorkflowProcessDefinition" WorkflowProcess.mk <|
    .more (.required "namespace" .string (·.workspace)) <|
    .more (.required "name" .string (·.name)) <|
    .more (.required "version" .string (·.version)) <|
    .more (.optional "input" .node (·.input)) .done

inductive Process where
  | container (process : ContainerProcess)
  | script (process : ScriptProcess)
  | shell (process : ShellProcess)
  | workflow (process : WorkflowProcess)
deriving BEq, Repr

namespace Process

def kindKeys : List String := ["container", "script", "shell", "workflow"]

def key : Process → String
  | container _ => "container"
  | script _ => "script"
  | shell _ => "shell"
  | workflow _ => "workflow"

def toNode : Process → Node
  | container p => ContainerProcess.codec.write p
  | script p => ScriptProcess.codec.write p
  | shell p => ShellProcess.codec.write p
  | workflow p => WorkflowProcess.codec.write p

/-- Reads the process that stands under a key. -/
def ofNode (key : String) (n : Node) : Except DefinitionError Process :=
  if key == "container" then (ContainerProcess.codec.decodeObject key n).map container
  else if key == "script" then (ScriptProcess.codec.decodeObject key n).map script
  else if key == "shell" then (ShellProcess.codec.decodeObject key n).map shell
  else (WorkflowProcess.codec.decodeObject key n).map workflow

def check (field : String) : Process → Check
  | container p =>
    if Text.isBlankText p.image then .error (.missingField s!"{field}.container" "image")
    else .ok ()
  | script p =>
    let field := s!"{field}.script"
    if Text.isBlankText p.language then .error (.missingField field "language")
    else
      match p.code, p.source with
      | some _, some _ => .error (.mutuallyExclusive field ["code", "source"])
      | none, none => .error (.missingField field "code")
      | none, some source => source.endpoint.check s!"{field}.source.endpoint"
      | some _, none => .ok ()
  | shell p =>
    if Text.isBlankText p.command then .error (.missingField s!"{field}.shell" "command")
    else .ok ()
  | workflow p => do
    let field := s!"{field}.workflow"
    Format.checkName s!"{field}.namespace" p.workspace
    Format.checkName s!"{field}.name" p.name
    Format.checkVersion s!"{field}.version" p.version

end Process

/-- How a process is run. -/
structure RunOptions where
  awaits : Option Bool := none
  returns : Option ProcessReturn := none
deriving DecidableEq, Repr

def RunOptions.codec : Codec RunOptions :=
  .record "ProcessOptions" RunOptions.mk <|
    .more (.optional "await" .bool (·.awaits)) <|
    .more (.optional "return" ProcessReturn.codec (·.returns)) .done

/-- A process and how it is run. -/
structure Run where
  process : Process
  options : RunOptions := {}
deriving BEq, Repr

namespace Run

def ofNode (n : Node) : Except DefinitionError Run := do
  let es ← n.toObject "ProcessTypeDefinition"
  let key ← es.singleKind "process" Process.kindKeys
  let process ← Process.ofNode key ((es.get? key).getD .null)
  let options ← RunOptions.codec.decode (.mapping (es.splitKeys [key]).2)
  .ok { process, options }

def toNode (r : Run) : Node :=
  .mapping
    ((r.process.key, r.process.toNode) :: (RunOptions.codec.write r.options).entries?.getD [])

def codec : Codec Run := .ofDefinition "ProcessTypeDefinition" ofNode toNode

end Run

end WorkflowDsl
