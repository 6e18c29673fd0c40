import WorkflowDsl.Model.TaskKind

/-!
# Tasks

A task has a kind, the fields that every task may have, and entries under keys that are neither. Its
kind is that whose key its mapping has; `do` counts only beside no `for`, which has a `do` of its
own. A mapping without such a key but with exactly one other key is a task of a kind that the
language does not define.

`Task.para` is recursion over a task and the tasks inside of it: writing, comparing and walking a
task are stated by it.
-/

namespace WorkflowDsl

/-- The fields that every task may have. -/
structure TaskFields where
  condition : Option String := none
  input : Option InputModel := none
  output : Option OutputModel := none
  export_ : Option ExportModel := none
  timeout : Option TimeoutReference := none
  next : Option FlowDirective := none
  metadata : OrderedMap Node := {}
deriving BEq, Repr

namespace TaskFields

def codec : Codec TaskFields :=
  .record "TaskDefinitionFields" TaskFields.mk <|
    .more (.optional "if" .string (·.condition)) <|
    .more (.optional "input" InputModel.codec (·.input)) <|
    .more (.optional "output" OutputModel.codec (·.output)) <|
    .more (.optional "export" ExportModel.codec (·.export_)) <|
    .more (.optional "timeout" TimeoutReference.codec (·.timeout)) <|
    .more (.optional "then" FlowDirective.codec (·.next)) <|
    .more (.omitted "metadata" (.map .node) {} OrderedMap.isEmpty (·.metadata)) .done

/-- The keys of the common fields. -/
def keys : List String := ["if", "input", "output", "export", "timeout", "then", "metadata"]

end TaskFields

/-- A task of a workflow. -/
inductive Task where
  | mk (fields : TaskFields) (kind : TaskKind Task) (extra : OrderedMap Node)

/-- How the tasks inside a task are run. -/
inductive ExecutionMode where
  | sequential
  | concurrent
deriving DecidableEq, Repr

def ExecutionMode.text : ExecutionMode → String
  | sequential => "sequential"
  | concurrent => "concurrent"

namespace Task

def fields : Task → TaskFields
  | mk fields _ _ => fields

def kind : Task → TaskKind Task
  | mk _ kind _ => kind

/-- The entries under keys that belong neither to the kind nor to the common fields. -/
def extra : Task → OrderedMap Node
  | mk _ _ extra => extra

/-- A task with nothing but a kind. -/
def ofKind (kind : TaskKind Task) : Task := mk {} kind {}

def withFields (fields : TaskFields) : Task → Task
  | mk _ kind extra => mk fields kind extra

def kindName (t : Task) : String := t.kind.name

def type? (t : Task) : Option TaskType := t.kind.type?

def mode? (t : Task) : Option ExecutionMode :=
  match t.kind with
  | .do_ _ => some .sequential
  | .fork _ => some .concurrent
  | _ => none

/-! ## Recursion -/

mutual

/-- Recursion over a task. `step` takes the task, and its kind with the results of the tasks
inside. -/
def para {β : Type} (step : Task → TaskKind β → β) : Task → β
  | mk fields kind extra => step (mk fields kind extra) (paraKind step kind)

def paraKind {β : Type} (step : Task → TaskKind β → β) : TaskKind Task → TaskKind β
  | .call c => .call c
  | .do_ tasks => .do_ (paraMap step tasks)
  | .emit e => .emit e
  | .for_ t => .for_ (paraFor step t)
  | .fork b => .fork (paraBranching step b)
  | .listen t => .listen (paraListen step t)
  | .raise p => .raise p
  | .run r => .run r
  | .set values => .set values
  | .switch cases => .switch cases
  | .try_ t => .try_ (paraTry step t)
  | .wait d => .wait d
  | .extension key definition => .extension key definition

def paraMap {β : Type} (step : Task → TaskKind β → β) : NamedMap Task → NamedMap β
  | ⟨entries⟩ => ⟨paraEntries step entries⟩

def paraEntries {β : Type} (step : Task → TaskKind β → β) :
    List (String × Task) → List (String × β)
  | [] => []
  | e :: es => paraEntry step e :: paraEntries step es

def paraEntry {β : Type} (step : Task → TaskKind β → β) : String × Task → String × β
  | (name, t) => (name, para step t)

def paraFor {β : Type} (step : Task → TaskKind β → β) : ForTask Task → ForTask β
  | ⟨loop, condition, tasks⟩ => ⟨loop, condition, paraMap step tasks⟩

def paraBranching {β : Type} (step : Task → TaskKind β → β) : Branching Task → Branching β
  | ⟨branches, compete⟩ => ⟨paraMap step branches, compete⟩

def paraListen {β : Type} (step : Task → TaskKind β → β) : ListenTask Task → ListenTask β
  | ⟨listener, subscription⟩ => ⟨listener, paraOption step subscription⟩

def paraOption {β : Type} (step : Task → TaskKind β → β) :
    Option (Subscription Task) → Option (Subscription β)
  | none => none
  | some s => some (paraSubscription step s)

def paraSubscription {β : Type} (step : Task → TaskKind β → β) :
    Subscription Task → Subscription β
  | ⟨item, index, tasks, output, export_⟩ => ⟨item, index, paraMap step tasks, output, export_⟩

def paraTry {β : Type} (step : Task → TaskKind β → β) : TryTask Task → TryTask β
  | ⟨tasks, catcher⟩ => ⟨paraMap step tasks, paraCatcher step catcher⟩

def paraCatcher {β : Type} (step : Task → TaskKind β → β) : Catcher Task → Catcher β
  | ⟨filter, variable_, condition, exception, retry, tasks⟩ =>
    ⟨filter, variable_, condition, exception, retry, paraMap step tasks⟩

end

/-! ## Comparing -/

/-- Equality of tasks, with that of nodes up to the order of keys. -/
def equal : Task → Task → Bool :=
  para fun t kind u =>
    t.fields == u.fields && kind.equalBy (fun p v => p v) u.kind && t.extra == u.extra

instance : BEq Task := ⟨equal⟩

/-! ## Writing -/

/-- The entries of the kind, then of the common fields, then the others. -/
def assemble (fields : TaskFields) (kind : Node) (extra : OrderedMap Node) : Object :=
  let common := (TaskFields.codec.write fields).entries?.getD []
  Entries.merge (Entries.merge (kind.entries?.getD []) common) extra.entries

def toNode : Task → Node :=
  para fun t kind => .mapping (assemble t.fields (kind.toNode .node) t.extra)

/-! ## Reading -/

/-- The type whose key a mapping has, if any. -/
def discriminate (es : Object) : Except DefinitionError (Option TaskType) :=
  let present := TaskType.all.filter fun type => es.hasKey type.key
  let present := if present.contains .for_ then present.filter (· != .do_) else present
  match present with
  | [] => .ok none
  | [type] => .ok (some type)
  | types => .error (.ambiguousKind "task" (types.map TaskType.key))

/-- The kind of a task that has no key of the language. -/
def extensionKind : Object → Except DefinitionError (TaskKind Task)
  | [(key, definition)] => .ok (.extension key definition)
  | es => .error (.ambiguousKind "task" es.keys)

/-- The codec of tasks that are read by `read`. -/
def codecBy (read : Node → Except DefinitionError Task) : Codec Task :=
  .ofDefinition "TaskDefinition" read toNode

/-- Reads a task whose inner tasks are read by `read`. -/
def ofNodeBy (read : Node → Except DefinitionError Task) (n : Node) :
    Except DefinitionError Task := do
  let es ← n.toObject "TaskDefinition"
  let type ← discriminate es
  let (common, rest) := es.splitKeys TaskFields.keys
  let fields ← TaskFields.codec.decode (.mapping common)
  match type with
  | some type => do
    let (owned, extra) := rest.splitKeys type.ownedKeys
    let kind ← TaskKind.ofObject (codecBy read) type owned
    .ok (mk fields kind ⟨extra⟩)
  | none => do
    let kind ← extensionKind rest
    .ok (mk fields kind {})

/-- Reads a task from a node of less than the given depth. -/
def ofNodeWithin : Nat → Node → Except DefinitionError Task
  | 0, n => .error (.shapeMismatch "TaskDefinition" "mapping" n.kind.text)
  | depth + 1, n => ofNodeBy (ofNodeWithin depth) n

def ofNode (n : Node) : Except DefinitionError Task := ofNodeWithin (n.depth + 1) n

def codec : Codec Task := codecBy ofNode

/-! ## Walking -/

/-- The task and all tasks inside of it, each with its path, depth first. -/
def walk : Task → String → List (String × Task) :=
  para fun t kind path =>
    (path, t) ::
      match kind.nested? with
      | some (key, tasks) =>
        tasks.entries.flatMap fun (name, walk) => walk s!"{path}.{key}.{name}"
      | none => []

end Task

/-- All tasks of a list that stands under `path`, each with its path, depth first. -/
def NamedMap.walk (path : String) (tasks : NamedMap Task) : List (String × Task) :=
  tasks.entries.flatMap fun (name, t) => t.walk s!"{path}.{name}"

end WorkflowDsl
