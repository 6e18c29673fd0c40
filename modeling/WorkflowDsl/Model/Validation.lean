import WorkflowDsl.Model.Workflow

/-!
# Validation

Reading a document is lenient; `Workflow.check` finds what is wrong with it, the first violation
first. Every violation names the place by the path of keys and names from the root.
-/

namespace WorkflowDsl

/-- The collections of components that are referred to by name. -/
inductive ComponentKind where
  | authentication
  | problem
  | retry
  | timeout
deriving DecidableEq, Repr

namespace ComponentKind

/-- The key of the collection. -/
def key : ComponentKind → String
  | authentication => "authentications"
  | problem => "errors"
  | retry => "retries"
  | timeout => "timeouts"

/-- Whether a component of the kind is declared. -/
def declares (components : Option Components) (kind : ComponentKind) (name : String) : Bool :=
  components.any fun c =>
    match kind with
    | authentication => c.authentications.contains name
    | problem => c.problems.contains name
    | retry => c.retries.contains name
    | timeout => c.timeouts.contains name

end ComponentKind

/-- A reference has to name a declared component. -/
def checkReference (components : Option Components) (kind : ComponentKind) (field name : String) :
    Check :=
  if kind.declares components name then .ok ()
  else .error (.invalidFormat field name s!"must reference an entry of use.{kind.key}")

section

variable (components : Option Components)

def AuthenticationReference.check (field : String) : AuthenticationReference → Check
  | .first policy => policy.check field
  | .second name => checkReference components .authentication field name

def TimeoutReference.check (field : String) : TimeoutReference → Check
  | .first timeout => timeout.check field
  | .second name => checkReference components .timeout field name

def ProblemReference.check (field : String) : ProblemReference → Check
  | .first problem => problem.check field
  | .second name => checkReference components .problem field name

def RetryReference.check (field : String) : RetryReference → Check
  | .first policy => policy.check field
  | .second name => checkReference components .retry field name

/-- Checks an endpoint and its policy. -/
def Endpoint.checkAll (field : String) (e : Endpoint) : Check := do
  e.check field
  e.authentication?.forM (AuthenticationReference.check components s!"{field}.authentication")

/-! ## Calls -/

/-- Checks the endpoints and policies among the arguments of a call. -/
def Call.check (field : String) (c : Call) : Check := do
  let endpoint := fun (key : String) (e : Endpoint) =>
    e.checkAll components s!"{field}.with.{key}endpoint"
  let policy := fun (key : String) (a : Option AuthenticationReference) =>
    a.forM (AuthenticationReference.check components s!"{field}.with.{key}authentication")
  if Text.isBlankText c.function then .error (.missingField field "call")
  (← c.http?).forM fun a => endpoint "" a.endpoint
  (← c.grpc?).forM fun a => do
    endpoint "proto." a.proto.endpoint
    policy "service." a.service.authentication
  (← c.openApi?).forM fun a => do
    endpoint "document." a.document.endpoint
    policy "" a.authentication
  (← c.asyncApi?).forM fun a => endpoint "document." a.document.endpoint

/-! ## Tasks -/

/-- A check of a task, given its path and the names of the tasks of its list. -/
abbrev TaskCheck := String → List String → Check

/-- Checks the tasks of a list one after another. A list has at least one task. -/
def checkList (path : String) (tasks : NamedMap TaskCheck) : Check :=
  if tasks.isEmpty then .error (.cardinality path 1 0)
  else tasks.entries.forM fun (name, check) => check s!"{path}.{name}" tasks.names

/-- Checks the tasks of a list that may be empty. -/
def checkOptionalList (path : String) (tasks : NamedMap TaskCheck) : Check :=
  if tasks.isEmpty then .ok () else checkList path tasks

/-- A switch has cases, at most one default, and jumps to tasks of its list. -/
def checkSwitch (path : String) (siblings : List String) (cases : NamedMap SwitchCase) : Check :=
  if cases.isEmpty then .error (.cardinality path 1 0)
  else
    match cases.entries.filter (·.2.isDefault) with
    | _ :: (name, _) :: _ => .error (.invalidFormat path name "only one case may omit 'when'")
    | _ => cases.entries.forM fun (name, c) => c.next.check s!"{path}.{name}.then" siblings

/-- Checks the common fields of a task. -/
def TaskFields.check (f : TaskFields) : TaskCheck := fun path siblings => do
  f.next.forM (FlowDirective.check s!"{path}.then" siblings)
  f.timeout.forM (TimeoutReference.check components s!"{path}.timeout")
  checkSchema s!"{path}.input" (f.input.bind (·.schema))
  checkSchema s!"{path}.output" (f.output.bind (·.schema))
  checkSchema s!"{path}.export" (f.export_.bind (·.schema))

/-- Checks a kind, given the checks of the tasks inside. -/
def TaskKind.check : TaskKind TaskCheck → TaskCheck
  | call c, path, _ => c.check components s!"{path}.call"
  | do_ tasks, path, _ => checkList s!"{path}.do" tasks
  | emit e, path, _ =>
    if e.event.attributes.isEmpty then .error (.cardinality s!"{path}.emit.event.with" 1 0)
    else .ok ()
  | for_ t, path, _ =>
    if Text.isBlankText t.loop.collection then .error (.missingField s!"{path}.for" "in")
    else checkList s!"{path}.do" t.tasks
  | fork b, path, _ =>
    if b.branches.size < 2 then
      .error (.cardinality s!"{path}.fork.branches" 2 b.branches.size)
    else checkList s!"{path}.fork.branches" b.branches
  | listen t, path, _ => do
    t.listener.strategy.check s!"{path}.listen.to"
    t.subscription.forM fun s => checkOptionalList s!"{path}.foreach.do" s.tasks
  | raise p, path, _ => ProblemReference.check components s!"{path}.raise.error" p
  | run r, path, _ => r.process.check s!"{path}.run"
  | set values, path, _ =>
    if values.isEmpty then .error (.cardinality s!"{path}.set" 1 0) else .ok ()
  | switch cases, path, siblings => checkSwitch s!"{path}.switch" siblings cases
  | try_ t, path, _ => do
    checkList s!"{path}.try" t.tasks
    t.catcher.retry.forM (RetryReference.check components s!"{path}.catch.retry")
    checkOptionalList s!"{path}.catch.do" t.catcher.tasks
  | wait d, path, _ => d.check s!"{path}.wait"
  | extension _ _, _, _ => .ok ()

/-- Checks a task and the tasks inside of it. -/
def Task.check : Task → TaskCheck :=
  Task.para fun t kind path siblings => do
    t.fields.check components path siblings
    kind.check components path siblings

/-- Checks the tasks of a list. -/
def checkTasks (path : String) (tasks : NamedMap Task) : Check :=
  checkList path (tasks.map (Task.check components))

end

/-! ## Documents -/

/-- Tasks of an extension stand before or after the extended ones. -/
def Extension.check (components : Option Components) (path : String) (e : Extension) : Check := do
  if e.before.isEmpty && e.after.isEmpty then .error (.missingField path "before")
  checkOptionalList s!"{path}.before" (e.before.map (Task.check components))
  checkOptionalList s!"{path}.after" (e.after.map (Task.check components))

def Components.check (c : Components) : Check := do
  c.authentications.entries.forM fun (name, a) => a.check s!"use.authentications.{name}"
  c.catalogs.entries.forM fun (name, catalog) =>
    catalog.endpoint.checkAll (some c) s!"use.catalogs.{name}.endpoint"
  c.problems.entries.forM fun (name, p) => p.check s!"use.errors.{name}"
  c.extensions.entries.forM fun (name, e) => e.check (some c) s!"use.extensions.{name}"
  c.functions.entries.forM fun (name, t) => t.check (some c) s!"use.functions.{name}" []
  c.retries.entries.forM fun (name, r) => r.check s!"use.retries.{name}"
  c.timeouts.entries.forM fun (name, t) => t.check s!"use.timeouts.{name}"

def Schedule.check (s : Schedule) : Check := do
  s.every.forM (Duration.check "schedule.every")
  s.after.forM (Duration.check "schedule.after")
  s.events.forM (EventStrategy.check "schedule.on")

def DocumentInfo.check (d : DocumentInfo) : Check := do
  Format.checkName "document.name" d.name
  Format.checkName "document.namespace" d.workspace
  Format.checkVersion "document.version" d.version
  Format.checkVersion "document.dsl" d.dsl

/-- Finds the first violation of a document. -/
def Workflow.check (w : Workflow) : Check := do
  w.info.check
  checkSchema "input" (w.input.bind (·.schema))
  checkSchema "output" (w.output.bind (·.schema))
  w.timeout.forM (TimeoutReference.check w.components "timeout")
  w.schedule.forM Schedule.check
  w.components.forM Components.check
  checkTasks w.components "do" w.tasks

end WorkflowDsl
