import WorkflowDsl.Draft.Event
import WorkflowDsl.Draft.Problem
import WorkflowDsl.Draft.Process
import WorkflowDsl.Model.Task

/-!
# Tasks in the making

A `TaskDraft` is a finished task, or a kind in the making with the common fields. Lists of drafts
may use a name several times: the built list has it once, at its first place and with its last
task, but every draft has to build.

`TaskDraft.build` finds the first error in the order of the drafts. The fields that errors name
carry the keys and names of all enclosing tasks.
-/

namespace WorkflowDsl

/-- Builds named drafts one after another. Errors name the draft below `path`. -/
def buildNamed {α β : Type} (path : String) (build : α → Except DefinitionError β)
    (drafts : List (String × α)) : Except DefinitionError (List (String × β)) :=
  drafts.mapM fun (name, d) =>
    ((build d).map fun b => (name, b)).mapError (.within s!"{path}.{name}")

/-! ## Kinds -/

section

variable {τ : Type}

structure SwitchCaseDraft where
  condition : Option String := none
  next : Option FlowDirective := none
deriving DecidableEq, Repr

def SwitchCaseDraft.build (d : SwitchCaseDraft) : Except DefinitionError SwitchCase :=
  match d.next with
  | none => .error (.missingField "SwitchCaseDefinition" "then")
  | some next => .ok { condition := d.condition, next }

structure SubscriptionDraft (τ : Type) where
  item : Option String := none
  index : Option String := none
  tasks : List (String × τ) := []

structure CatcherDraft (τ : Type) where
  properties : Option ProblemProperties := none
  variable_ : Option String := none
  condition : Option String := none
  exception : Option String := none
  retry : Option (OneOf RetryPolicy String) := none
  tasks : List (String × τ) := []

namespace CatcherDraft

/-- Catches problems of a type, given as a template. -/
def withType (d : CatcherDraft τ) (type : String) : CatcherDraft τ :=
  { d with properties := some { d.properties.getD {} with type := some type } }

def withStatus (d : CatcherDraft τ) (status : UInt16) : CatcherDraft τ :=
  { d with properties := some { d.properties.getD {} with status := some status } }

end CatcherDraft

/-- A kind in the making, where `τ` stands for the drafts of the tasks inside. -/
inductive KindDraft (τ : Type) where
  | call (call : Call)
  | do_ (tasks : List (String × τ))
  /-- Tasks that run in sequence or at the same time; at least two. -/
  | composite (mode : Option ExecutionMode) (tasks : List (String × τ)) (compete : Bool)
  | emit (event : Event)
  | for_ (each collection index condition : Option String) (tasks : List (String × τ))
  | fork (branches : List (String × τ)) (compete : Bool)
  | listen (listener : Option ListenerDraft) (subscription : Option (SubscriptionDraft τ))
  | raise (problem : Option (OneOf ProblemDraft String))
  | run (process : Option ProcessDraft) (options : RunOptions)
  | set (values : OrderedMap Node)
  | switch (cases : List (String × SwitchCaseDraft))
  | try_ (tasks : List (String × τ)) (catcher : Option (CatcherDraft τ))
  | wait (duration : Option Duration)

end

/-! ## Building kinds -/

/-- A task inside of another one that has been built, or the error for which it could not be. -/
abbrev Built := Except DefinitionError Task

/-- The built tasks of a list, or the first error. -/
def collectTasks (path : String) (tasks : List (String × Built)) :
    Except DefinitionError (NamedMap Task) :=
  (buildNamed path id tasks).map .ofList

/-- A list of at least two tasks. -/
def collectSeveral (path : String) (tasks : List (String × Built)) :
    Except DefinitionError (NamedMap Task) := do
  let tasks ← collectTasks path tasks
  if tasks.size < 2 then .error (.cardinality path 2 tasks.size)
  .ok tasks

/-- Refuses a list without tasks. -/
def requireTasks (path : String) (tasks : List (String × Built)) : Check :=
  if tasks.isEmpty then .error (.cardinality path 1 0) else .ok ()

/-- A call names a function, and the arguments of a function of the language have their type. -/
def Call.build (c : Call) : Except DefinitionError Call := do
  if Text.isBlankText c.function then .error (.missingField "CallTaskDefinition" "call")
  let _ ← c.http?
  let _ ← c.grpc?
  let _ ← c.openApi?
  let _ ← c.asyncApi?
  .ok c

/-- At most one case of a switch is the default. -/
def buildCases (cases : List (String × SwitchCaseDraft)) :
    Except DefinitionError (NamedMap SwitchCase) := do
  if cases.isEmpty then .error (.cardinality "switch" 1 0)
  let cases := NamedMap.ofList (← buildNamed "switch" SwitchCaseDraft.build cases)
  match cases.entries.filter (·.2.isDefault) with
  | _ :: (name, _) :: _ => .error (.invalidFormat "switch" name "only one case may omit 'when'")
  | _ => .ok cases

/-- The problem that a task raises, or the name of a declared one. -/
def buildRaise : Option (OneOf ProblemDraft String) → Except DefinitionError ProblemReference
  | none => .error (.missingField "RaiseTaskDefinition" "raise.error")
  | some (.first draft) => do
    let problem ← draft.complete.mapError (.within "raise.error")
    problem.check "raise.error"
    .ok (.first problem)
  | some (.second name) =>
    if Text.isBlankText name then .error (.missingField "RaiseTaskDefinition" "raise.error")
    else .ok (.second name)

def buildRetry : Option (OneOf RetryPolicy String) →
    Except DefinitionError (Option RetryReference)
  | none => .ok none
  | some (.first policy) => policy.build.map fun policy => some (.first policy)
  | some (.second name) => .ok (some (.second name))

def CatcherDraft.build (d : CatcherDraft Built) : Except DefinitionError (Catcher Task) := do
  let retry ← buildRetry d.retry
  let tasks ← collectTasks "do" d.tasks
  .ok
    { filter := d.properties.map fun properties => { properties := some properties }
      variable_ := d.variable_
      condition := d.condition
      exception := d.exception
      retry
      tasks }

def SubscriptionDraft.build (d : SubscriptionDraft Built) :
    Except DefinitionError (Subscription Task) :=
  (collectTasks "foreach.do" d.tasks).map fun tasks => { item := d.item, index := d.index, tasks }

/-- Builds a kind from the results of the tasks inside. -/
def KindDraft.build : KindDraft Built → Except DefinitionError (TaskKind Task)
  | call c => c.build.map .call
  | do_ tasks => do
    requireTasks "do" tasks
    (collectTasks "do" tasks).map .do_
  | composite none _ _ => .error (.missingField "CompositeTaskDefinition" "execute")
  | composite (some .sequential) tasks _ => (collectSeveral "do" tasks).map .do_
  | composite (some .concurrent) tasks compete =>
    (collectSeveral "fork.branches" tasks).map fun branches => .fork { branches, compete }
  | emit e => (e.build.map fun event => .emit { event }).mapError (.within "emit.event")
  | for_ _ none _ _ _ => .error (.missingField "ForTaskDefinition" "for.in")
  | for_ each (some collection) index condition tasks => do
    requireTasks "do" tasks
    let tasks ← collectTasks "do" tasks
    .ok (.for_ { loop := { each := each.getD "item", collection, index }, condition, tasks })
  | fork branches compete =>
    (collectSeveral "fork.branches" branches).map fun branches => .fork { branches, compete }
  | listen none _ => .error (.missingField "ListenTaskDefinition" "listen.to")
  | listen (some listener) subscription => do
    let listener ← listener.build.mapError (.within "listen")
    let subscription ← subscription.mapM SubscriptionDraft.build
    .ok (.listen { listener, subscription })
  | raise problem => (buildRaise problem).map .raise
  | run none _ => .error (.missingField "RunTaskDefinition" "run")
  | run (some process) options => process.build.map fun process => .run { process, options }
  | set values =>
    if values.isEmpty then .error (.cardinality "set" 1 0) else .ok (.set values)
  | switch cases => (buildCases cases).map .switch
  | try_ tasks none => do
    requireTasks "try" tasks
    .error (.missingField "TryTaskDefinition" "catch")
  | try_ tasks (some catcher) => do
    requireTasks "try" tasks
    let tasks ← collectTasks "try" tasks
    let catcher ← catcher.build.mapError (.within "catch")
    .ok (.try_ { tasks, catcher })
  | wait none => .error (.missingField "WaitTaskDefinition" "wait")
  | wait (some duration) => do
    duration.check "wait"
    .ok (.wait duration)

/-! ## Tasks -/

inductive TaskDraft where
  | pending (fields : TaskFields) (kind : KindDraft TaskDraft)
  | finished (task : Task)

namespace TaskDraft

/-- A draft of a kind, without common fields. -/
def ofKind (kind : KindDraft TaskDraft) : TaskDraft := pending {} kind

mutual

def build : TaskDraft → Built
  | finished t => .ok t
  | pending fields kind => (buildInside kind).build.map fun kind => .mk fields kind {}

/-- Builds the tasks inside of a kind. -/
def buildInside : KindDraft TaskDraft → KindDraft Built
  | .call c => .call c
  | .do_ tasks => .do_ (buildEach tasks)
  | .composite mode tasks compete => .composite mode (buildEach tasks) compete
  | .emit e => .emit e
  | .for_ each collection index condition tasks =>
    .for_ each collection index condition (buildEach tasks)
  | .fork branches compete => .fork (buildEach branches) compete
  | .listen listener subscription => .listen listener (buildSubscription subscription)
  | .raise problem => .raise problem
  | .run process options => .run process options
  | .set values => .set values
  | .switch cases => .switch cases
  | .try_ tasks catcher => .try_ (buildEach tasks) (buildCatcher catcher)
  | .wait duration => .wait duration

def buildEach : List (String × TaskDraft) → List (String × Built)
  | [] => []
  | e :: es => buildEntry e :: buildEach es

def buildEntry : String × TaskDraft → String × Built
  | (name, d) => (name, build d)

def buildSubscription : Option (SubscriptionDraft TaskDraft) → Option (SubscriptionDraft Built)
  | none => none
  | some s => some (buildSubscriber s)

def buildSubscriber : SubscriptionDraft TaskDraft → SubscriptionDraft Built
  | ⟨item, index, tasks⟩ => ⟨item, index, buildEach tasks⟩

def buildCatcher : Option (CatcherDraft TaskDraft) → Option (CatcherDraft Built)
  | none => none
  | some c => some (buildHandler c)

def buildHandler : CatcherDraft TaskDraft → CatcherDraft Built
  | ⟨properties, variable_, condition, exception, retry, tasks⟩ =>
    ⟨properties, variable_, condition, exception, retry, buildEach tasks⟩

end

/-- Builds the tasks of a list that stands under `path`. -/
def buildList (path : String) (tasks : List (String × TaskDraft)) :
    Except DefinitionError (NamedMap Task) :=
  collectTasks path (buildEach tasks)

end TaskDraft

end WorkflowDsl
