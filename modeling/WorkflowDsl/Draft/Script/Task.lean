import WorkflowDsl.Draft.Script.Part

/-!
# Scripts of tasks

A task inside of another one is given by a mapping: `definition` holds a finished task; otherwise
`kind` names the kind, `arg` the function of a call, and `steps` is the script.
-/

namespace WorkflowDsl.Script

/-- A step of the common fields. -/
def fieldsStep? (f : TaskFields) (name : String) (args : List Node) :
    Option (Except DefinitionError TaskFields) :=
  match name, args with
  | "if", [v] => some (.ok { f with condition := some (textOf v) })
  | "with_input", [v] =>
    some ((InputModel.codec.decode v).map fun m => { f with input := some m })
  | "with_output", [v] =>
    some ((OutputModel.codec.decode v).map fun m => { f with output := some m })
  | "with_export", [v] =>
    some ((ExportModel.codec.decode v).map fun m => { f with export_ := some m })
  | "with_timeout", [v] =>
    some ((Timeout.codec.decode v).map fun t => { f with timeout := some (.first t) })
  | "with_timeout_reference", [v] => some (.ok { f with timeout := some (.second (textOf v)) })
  | "then", [v] => some (.ok { f with next := some (.ofText (textOf v)) })
  | "with_metadata", [k, v] => some (.ok { f with metadata := f.metadata.insert (textOf k) v })
  | _, _ => none

/-- The draft of a kind before its first step. -/
def emptyKind (kind function : String) : KindDraft TaskDraft :=
  match kind with
  | "call" => .call { function }
  | "do" => .do_ []
  | "composite" => .composite none [] false
  | "emit" => .emit {}
  | "for" => .for_ none none none none []
  | "fork" => .fork [] false
  | "listen" => .listen none none
  | "raise" => .raise none
  | "run" => .run none {}
  | "set" => .set {}
  | "switch" => .switch []
  | "try" => .try_ [] none
  | _ => .wait none

section

variable (nested : Node → Except DefinitionError TaskDraft)

def taskListStep : Step (List (String × TaskDraft))
  | ts, "do", [k, v] => (nested v).map fun t => ts ++ [(textOf k, t)]
  | ts, "task", [k, v] => (Task.ofNode v).map fun t => ts ++ [(textOf k, .finished t)]
  | ts, _, _ => .ok ts

def catcherStep : Step (CatcherDraft TaskDraft)
  | d, "errors_of_type", [v] => .ok (d.withType (textOf v))
  | d, "errors_with_status", [v] => .ok (d.withStatus (.ofNat (natOf v)))
  | d, "as", [v] => .ok { d with variable_ := some (textOf v) }
  | d, "when", [v] => .ok { d with condition := some (textOf v) }
  | d, "except_when", [v] => .ok { d with exception := some (textOf v) }
  | d, "retry", [v] =>
    (run retryStep {} v).map fun p => { d with retry := some (.first p) }
  | d, "retry_reference", [v] => .ok { d with retry := some (.second (textOf v)) }
  | d, "do", [k, v] => (nested v).map fun t => { d with tasks := d.tasks ++ [(textOf k, t)] }
  | d, _, _ => .ok d

/-- A step of a kind. -/
def kindStep : Step (KindDraft TaskDraft)
  | .call c, "with", [k, v] => .ok (.call (c.withArgument (textOf k) v))
  | .call c, "with_arguments", [v] =>
    .ok (.call ((v.entries?.getD []).foldl (fun c (k, v) => c.withArgument k v) c))
  | .call c, "await", [v] => .ok (.call { c with awaits := some (isTrue v) })
  | .do_ ts, "do", [k, v] => (nested v).map fun t => .do_ (ts ++ [(textOf k, t)])
  | .composite _ ts compete, "sequentially", [v] =>
    (run (taskListStep nested) ts v).map fun ts => .composite (some .sequential) ts compete
  | .composite _ ts compete, "concurrently", [v] =>
    (run (taskListStep nested) ts v).map fun ts => .composite (some .concurrent) ts compete
  | .composite mode ts _, "compete", [v] => .ok (.composite mode ts (isTrue v))
  | .emit e, "event", [v] => (run eventStep e v).map .emit
  | .for_ _ i a w ts, "each", [v] => .ok (.for_ (some (textOf v)) i a w ts)
  | .for_ e _ a w ts, "in", [v] => .ok (.for_ e (some (textOf v)) a w ts)
  | .for_ e i _ w ts, "at", [v] => .ok (.for_ e i (some (textOf v)) w ts)
  | .for_ e i a _ ts, "while", [v] => .ok (.for_ e i a (some (textOf v)) ts)
  | .for_ e i a w ts, "do", [k, v] =>
    (nested v).map fun t => .for_ e i a w (ts ++ [(textOf k, t)])
  | .fork bs c, "branch", [k, v] => (nested v).map fun t => .fork (bs ++ [(textOf k, t)]) c
  | .fork bs _, "compete", [v] => .ok (.fork bs (isTrue v))
  | .listen l s, "to", [v] =>
    (run listenerStep (l.getD {}) v).map fun l => .listen (some l) s
  | .listen l s, "foreach", [i, k, v] => do
    let t ← nested v
    let s := s.getD {}
    .ok (.listen l (some { s with item := some (textOf i), tasks := s.tasks ++ [(textOf k, t)] }))
  | .listen l s, "foreach_at", [v] =>
    let s := s.getD {}
    .ok (.listen l (some { s with index := some (textOf v) }))
  | .raise _, "error", [v] => (run problemStep {} v).map fun p => .raise (some (.first p))
  | .raise _, "error_reference", [v] => .ok (.raise (some (.second (textOf v))))
  | .run _ o, "container", [v] =>
    (run containerStep { image := "" } v).map fun p => .run (some (.container p)) o
  | .run _ o, "script", [v] =>
    (run scriptStep {} v).map fun p => .run (some (.script p)) o
  | .run _ o, "shell", [v] =>
    (run shellStep { command := "" } v).map fun p => .run (some (.shell p)) o
  | .run _ o, "workflow", [v] =>
    (run workflowProcessStep .draft v).map fun p => .run (some (.workflow p)) o
  | .run p o, "await", [v] => .ok (.run p { o with awaits := some (isTrue v) })
  | .run p o, "return", [v] =>
    (ProcessReturn.codec.decode v).map fun t => .run p { o with returns := some t }
  | .set vs, "set", [k, v] => .ok (.set (vs.insert (textOf k) v))
  | .switch cs, "case", [k, v] =>
    (run caseStep {} v).map fun c => .switch (cs ++ [(textOf k, c)])
  | .try_ ts c, "do", [k, v] => (nested v).map fun t => .try_ (ts ++ [(textOf k, t)]) c
  | .try_ ts c, "catch", [v] =>
    (run (catcherStep nested) (c.getD {}) v).map fun c => .try_ ts (some c)
  | .wait _, "duration", [v] => (durationOf v).map fun d => .wait (some d)
  | kind, _, _ => .ok kind

/-- A step of a task: of the common fields, or else of its kind. -/
def taskStepBy : Step TaskDraft
  | .finished t, _, _ => .ok (.finished t)
  | .pending fields kind, name, args =>
    match fieldsStep? fields name args with
    | some fields => fields.map fun fields => .pending fields kind
    | none => (kindStep nested kind name args).map fun kind => .pending fields kind

end

/-- The task that a mapping of less than the given depth stands for. -/
def taskWithin : Nat → Node → Except DefinitionError TaskDraft
  | 0, _ => .ok (.ofKind (.set {}))
  | depth + 1, n =>
    match n.get? "definition" with
    | some definition => (Task.ofNode definition).map .finished
    | none =>
      let argument (key : String) : Node := (n.get? key).getD .null
      let kind := emptyKind (textOf (argument "kind")) (textOf (argument "arg"))
      run (taskStepBy (taskWithin depth)) (.ofKind kind) (argument "steps")

def taskOf (n : Node) : Except DefinitionError TaskDraft := taskWithin (n.depth + 1) n

def taskStep : Step TaskDraft := taskStepBy taskOf

end WorkflowDsl.Script
