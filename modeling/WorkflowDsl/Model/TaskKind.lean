import WorkflowDsl.Model.Call
import WorkflowDsl.Model.Event
import WorkflowDsl.Model.Flow
import WorkflowDsl.Model.Problem
import WorkflowDsl.Model.Process
import WorkflowDsl.Model.Retry

/-!
# Kinds of tasks

`TaskKind τ` is what a task does, where `τ` stands for the tasks inside of it. Everything that is
known of a kind without looking into those tasks is stated here: its keys, its reader and writer,
and how to change or compare the tasks inside.
-/

namespace WorkflowDsl

/-! ## Types of tasks -/

/-- The kinds of tasks that the language defines. -/
inductive TaskType where
  | call
  | do_
  | emit
  | for_
  | fork
  | listen
  | raise
  | run
  | set
  | switch
  | try_
  | wait
deriving DecidableEq, Repr

namespace TaskType

def all : List TaskType :=
  [call, do_, emit, for_, fork, listen, raise, run, set, switch, try_, wait]

/-- The key that selects the kind. -/
def key : TaskType → String
  | call => "call"
  | do_ => "do"
  | emit => "emit"
  | for_ => "for"
  | fork => "fork"
  | listen => "listen"
  | raise => "raise"
  | run => "run"
  | set => "set"
  | switch => "switch"
  | try_ => "try"
  | wait => "wait"

/-- All keys that belong to the kind. -/
def ownedKeys : TaskType → List String
  | call => ["call", "with", "await"]
  | for_ => ["for", "while", "do"]
  | listen => ["listen", "foreach"]
  | try_ => ["try", "catch"]
  | type => [type.key]

def ofText? (s : String) : Option TaskType := all.find? (·.key == s)

end TaskType

/-! ## Parts of kinds -/

/-- What a loop goes over. -/
structure Loop where
  each : String := "item"
  collection : String
  index : Option String := none
deriving DecidableEq, Repr

def Loop.codec : Codec Loop :=
  .record "ForLoopDefinition" Loop.mk <|
    .more (.defaulted "each" .string "item" (·.each)) <|
    .more (.required "in" .string (·.collection)) <|
    .more (.optional "at" .string (·.index)) .done

/-- A case of a switch. One without a condition is the default. -/
structure SwitchCase where
  condition : Option String := none
  next : FlowDirective
deriving DecidableEq, Repr

namespace SwitchCase

def codec : Codec SwitchCase :=
  .record "SwitchCaseDefinition" SwitchCase.mk <|
    .more (.optional "when" .string (·.condition)) <|
    .more (.required "then" FlowDirective.codec (·.next)) .done

def isDefault (c : SwitchCase) : Bool := c.condition.isNone

end SwitchCase

/-- The name of the first default case. -/
def defaultCase? (cases : NamedMap SwitchCase) : Option String :=
  (cases.entries.find? (·.2.isDefault)).map (·.1)

/-- A problem, or the name of one that the document declares. -/
abbrev ProblemReference := OneOf Problem String

def ProblemReference.codec : Codec ProblemReference := .oneOf Problem.codec .string

/-- A retry policy, or the name of one that the document declares. -/
abbrev RetryReference := OneOf RetryPolicy String

def RetryReference.codec : Codec RetryReference := .oneOf RetryPolicy.codec .string

section

variable {τ σ : Type}

/-- Tasks for each item of a collection. -/
structure ForTask (τ : Type) where
  loop : Loop
  condition : Option String := none
  tasks : NamedMap τ
deriving BEq

def ForTask.codec (task : Codec τ) : Codec (ForTask τ) :=
  .record "ForTaskDefinition" ForTask.mk <|
    .more (.required "for" Loop.codec (·.loop)) <|
    .more (.optional "while" .string (·.condition)) <|
    .more (.required "do" (.namedMap task) (·.tasks)) .done

/-- Tasks that run at the same time. If they compete, the first to complete ends the others. -/
structure Branching (τ : Type) where
  branches : NamedMap τ
  compete : Bool := false

def Branching.codec (task : Codec τ) : Codec (Branching τ) :=
  .record "BranchingDefinition" Branching.mk <|
    .more (.required "branches" (.namedMap task) (·.branches)) <|
    .more (.omitted "compete" .bool false (!·) (·.compete)) .done

/-- What is done for each consumed event. -/
structure Subscription (τ : Type) where
  item : Option String := none
  index : Option String := none
  tasks : NamedMap τ := {}
  output : Option OutputModel := none
  export_ : Option ExportModel := none
deriving BEq

def Subscription.codec (task : Codec τ) : Codec (Subscription τ) :=
  .record "SubscriptionIteratorDefinition" Subscription.mk <|
    .more (.optional "item" .string (·.item)) <|
    .more (.optional "at" .string (·.index)) <|
    .more (.omitted "do" (.namedMap task) {} NamedMap.isEmpty (·.tasks)) <|
    .more (.optional "output" OutputModel.codec (·.output)) <|
    .more (.optional "export" ExportModel.codec (·.export_)) .done

structure ListenTask (τ : Type) where
  listener : Listener
  subscription : Option (Subscription τ) := none

def ListenTask.codec (task : Codec τ) : Codec (ListenTask τ) :=
  .record "ListenTaskDefinition" ListenTask.mk <|
    .more (.required "listen" Listener.codec (·.listener)) <|
    .more (.optional "foreach" (Subscription.codec task) (·.subscription)) .done

/-- What is done about a problem. -/
structure Catcher (τ : Type) where
  filter : Option ProblemFilter := none
  variable_ : Option String := none
  condition : Option String := none
  exception : Option String := none
  retry : Option RetryReference := none
  tasks : NamedMap τ := {}
deriving BEq

def Catcher.codec (task : Codec τ) : Codec (Catcher τ) :=
  .record "ErrorCatcherDefinition" Catcher.mk <|
    .more (.optional "errors" ProblemFilter.codec (·.filter)) <|
    .more (.optional "as" .string (·.variable_)) <|
    .more (.optional "when" .string (·.condition)) <|
    .more (.optional "exceptWhen" .string (·.exception)) <|
    .more (.optional "retry" RetryReference.codec (·.retry)) <|
    .more (.omitted "do" (.namedMap task) {} NamedMap.isEmpty (·.tasks)) .done

/-- Whether a problem is caught. -/
def Catcher.catches (c : Catcher τ) (p : Problem) : Bool := c.filter.all (·.accepts p)

structure TryTask (τ : Type) where
  tasks : NamedMap τ
  catcher : Catcher τ

def TryTask.codec (task : Codec τ) : Codec (TryTask τ) :=
  .record "TryTaskDefinition" TryTask.mk <|
    .more (.required "try" (.namedMap task) (·.tasks)) <|
    .more (.required "catch" (Catcher.codec task) (·.catcher)) .done

/-! ## Kinds -/

/-- What a task does. A kind that the language does not define is kept as it is written. -/
inductive TaskKind (τ : Type) where
  | call (call : Call)
  | do_ (tasks : NamedMap τ)
  | emit (emission : Emission)
  | for_ (task : ForTask τ)
  | fork (branching : Branching τ)
  | listen (task : ListenTask τ)
  | raise (problem : ProblemReference)
  | run (run : Run)
  | set (values : OrderedMap Node)
  | switch (cases : NamedMap SwitchCase)
  | try_ (task : TryTask τ)
  | wait (duration : Duration)
  | extension (key : String) (definition : Node)

namespace TaskKind

def type? : TaskKind τ → Option TaskType
  | call _ => some .call
  | do_ _ => some .do_
  | emit _ => some .emit
  | for_ _ => some .for_
  | fork _ => some .fork
  | listen _ => some .listen
  | raise _ => some .raise
  | run _ => some .run
  | set _ => some .set
  | switch _ => some .switch
  | try_ _ => some .try_
  | wait _ => some .wait
  | extension _ _ => none

/-- The key that selects the kind. -/
def name : TaskKind τ → String
  | extension key _ => key
  | kind => (kind.type?.map TaskType.key).getD ""

/-- The tasks directly inside, with the path of keys under which they stand. -/
def nested? : TaskKind τ → Option (String × NamedMap τ)
  | do_ tasks => some ("do", tasks)
  | for_ t => some ("do", t.tasks)
  | fork b => some ("fork.branches", b.branches)
  | try_ t => some ("try", t.tasks)
  | _ => none

/-! ## Reading and writing -/

/-- A mapping with one field. -/
def single {α : Type} (definition key : String) (c : Codec α) : Codec α :=
  .record definition id <| .more (.required key c id) .done

def doCodec (task : Codec τ) : Codec (NamedMap τ) := single "DoTaskDefinition" "do" (.namedMap task)

def emitCodec : Codec Emission := single "EmitTaskDefinition" "emit" Emission.codec

def forkCodec (task : Codec τ) : Codec (Branching τ) :=
  single "ForkTaskDefinition" "fork" (Branching.codec task)

def raiseCodec : Codec ProblemReference :=
  single "RaiseTaskDefinition" "raise"
    (single "RaiseErrorDefinition" "error" ProblemReference.codec)

def runCodec : Codec Run := single "RunTaskDefinition" "run" Run.codec

def setCodec : Codec (OrderedMap Node) := single "SetTaskDefinition" "set" (.map .node)

def switchCodec : Codec (NamedMap SwitchCase) :=
  single "SwitchTaskDefinition" "switch" (.namedMap SwitchCase.codec)

def waitCodec : Codec Duration := single "WaitTaskDefinition" "wait" Duration.codec

/-- Reads the kind of a type from the entries that belong to it. -/
def ofObject (task : Codec τ) (type : TaskType) (owned : Object) :
    Except DefinitionError (TaskKind τ) :=
  let n := Node.mapping owned
  match type with
  | .call => (Call.codec.decode n).map call
  | .do_ => ((doCodec task).decode n).map do_
  | .emit => (emitCodec.decode n).map emit
  | .for_ => ((ForTask.codec task).decode n).map for_
  | .fork => ((forkCodec task).decode n).map fork
  | .listen => ((ListenTask.codec task).decode n).map listen
  | .raise => (raiseCodec.decode n).map raise
  | .run => (runCodec.decode n).map run
  | .set => (setCodec.decode n).map set
  | .switch => (switchCodec.decode n).map switch
  | .try_ => ((TryTask.codec task).decode n).map try_
  | .wait => (waitCodec.decode n).map wait

def toNode (task : Codec τ) : TaskKind τ → Node
  | call c => Call.codec.write c
  | do_ tasks => (doCodec task).write tasks
  | emit e => emitCodec.write e
  | for_ t => (ForTask.codec task).write t
  | fork b => (forkCodec task).write b
  | listen t => (ListenTask.codec task).write t
  | raise p => raiseCodec.write p
  | run r => runCodec.write r
  | set values => setCodec.write values
  | switch cases => switchCodec.write cases
  | try_ t => (TryTask.codec task).write t
  | wait d => waitCodec.write d
  | extension key definition => .mapping [(key, definition)]

/-! ## Comparing -/

/-- Equality by a relation between the tasks inside. -/
def equalBy (r : τ → σ → Bool) : TaskKind τ → TaskKind σ → Bool
  | call c, call d => c == d
  | do_ s, do_ t => s.equalBy r t
  | emit e, emit f => e == f
  | for_ s, for_ t => s.loop == t.loop && s.condition == t.condition && s.tasks.equalBy r t.tasks
  | fork b, fork c => b.branches.equalBy r c.branches && b.compete == c.compete
  | listen s, listen t =>
    s.listener == t.listener
      && match s.subscription, t.subscription with
        | none, none => true
        | some a, some b =>
          a.item == b.item && a.index == b.index && a.tasks.equalBy r b.tasks
            && a.output == b.output && a.export_ == b.export_
        | _, _ => false
  | raise p, raise q => p == q
  | run a, run b => a == b
  | set a, set b => a == b
  | switch a, switch b => a == b
  | try_ s, try_ t =>
    s.tasks.equalBy r t.tasks && s.catcher.filter == t.catcher.filter
      && s.catcher.variable_ == t.catcher.variable_
      && s.catcher.condition == t.catcher.condition
      && s.catcher.exception == t.catcher.exception && s.catcher.retry == t.catcher.retry
      && s.catcher.tasks.equalBy r t.catcher.tasks
  | wait d, wait e => d == e
  | extension k m, extension l n => k == l && m == n
  | _, _ => false

end TaskKind

end

end WorkflowDsl
