import WorkflowDsl.Document.Pointer
import WorkflowDsl.Reader.Reference

/-!
# Where a workflow document refers to others

`resourcePositions` lists the external resources of a workflow document: the schemas of data models,
the documents of `openapi` and `asyncapi` calls, the protocol of `grpc` calls, and the sources of
scripts. They are looked for in the tasks of the document alone, so what a task carries as its
payload is never inspected. `rebaseResources` replaces the relative URIs at these positions.
-/

namespace WorkflowDsl

/-- An external resource of a document: the mapping that holds its `endpoint`. -/
structure ResourcePosition where
  pointer : Pointer
  /-- The resource is the schema of a data model. -/
  isSchema : Bool
deriving DecidableEq, Repr

namespace ResourcePosition

/-- The node that keys lead to from a node at `path`, if it is a resource. -/
def within (path : Pointer) (n : Node) (isSchema : Bool) (keys : Pointer) :
    Option ResourcePosition :=
  if ((n.at? keys).bind (·.get? "endpoint")).isSome then some ⟨path ++ keys, isSchema⟩ else none

/-- The schemas of the data models that belong to a document or task. -/
def ofDataModels (path : Pointer) (n : Node) : List ResourcePosition :=
  ["input", "output", "export"].filterMap fun key => within path n true [key, "schema", "resource"]

/-- The argument of a function that is a resource. -/
def callArgument? (function : String) : Option String :=
  if function == "openapi" || function == "asyncapi" then some "document"
  else if function == "grpc" then some "proto"
  else none

/-- The resource that a call needs to know its function. -/
def ofCall (path : Pointer) (n : Node) : Option ResourcePosition := do
  let key ← callArgument? (← (← n.get? "call").string?)
  within path n false ["with", key]

def ofScript (path : Pointer) (n : Node) : Option ResourcePosition :=
  within path n false ["run", "script", "source"]

/-- The positions in the values of a mapping. -/
def ofEntries (inTask : Pointer → Node → List ResourcePosition) (path : Pointer) :
    Option Node → List ResourcePosition
  | some (.mapping es) => es.flatMap fun (name, n) => inTask (path ++ [name]) n
  | _ => []

/-- The positions in a list of named tasks. -/
def ofTaskList (inTask : Pointer → Node → List ResourcePosition) (path : Pointer) :
    Option Node → List ResourcePosition
  | some (.sequence ns) =>
    ns.zipIdx.flatMap fun (n, i) => ofEntries inTask (path ++ [toString i]) (some n)
  | _ => []

/-- Where a task has lists of tasks. -/
def taskLists : List Pointer :=
  [["do"], ["try"], ["fork", "branches"], ["catch", "do"], ["foreach", "do"]]

/-- The positions in a task, down to a depth. -/
def ofTask : Nat → Pointer → Node → List ResourcePosition
  | depth + 1, path, n@(.mapping _) =>
    ofDataModels path n ++ (ofCall path n).toList ++ (ofScript path n).toList
      ++ taskLists.flatMap fun keys => ofTaskList (ofTask depth) (path ++ keys) (n.at? keys)
  | _, _, _ => []

/-- The positions in the tasks of an extension. -/
def ofExtension (inTask : Pointer → Node → List ResourcePosition) (path : Pointer) (n : Node) :
    List ResourcePosition :=
  ["before", "after"].flatMap fun key => ofTaskList inTask (path ++ [key]) (n.get? key)

end ResourcePosition

open ResourcePosition in
/-- The external resources of a workflow document. -/
def resourcePositions (n : Node) : List ResourcePosition :=
  let inTask := ofTask (n.depth + 1)
  ofDataModels [] n
    ++ ofEntries inTask ["use", "functions"] (n.at? ["use", "functions"])
    ++ ofTaskList (ofExtension inTask) ["use", "extensions"] (n.at? ["use", "extensions"])
    ++ ofTaskList inTask ["do"] (n.get? "do")

/-- The URI of a resource, given as its endpoint or inside of it. -/
def resourceUri? (n : Node) : Option String := do
  match ← n.get? "endpoint" with
  | .string s => some s
  | endpoint => (← endpoint.get? "uri").string?

def Node.modifyText (f : String → String) : Node → Node
  | .string s => .string (f s)
  | n => n

/-- Replaces the URI of a resource. -/
def rebaseResource (f : String → String) (n : Node) : Node :=
  n.modifyAt (fun endpoint =>
    match endpoint with
    | .mapping _ => endpoint.modifyAt (Node.modifyText f) ["uri"]
    | _ => endpoint.modifyText f) ["endpoint"]

/-- Replaces the relative URIs of the resources of a workflow document. -/
def rebaseResources (rebase : String → Option String) (n : Node) : Node :=
  (resourcePositions n).foldl
    (fun n p => n.modifyAt (rebaseResource (rebaseReference rebase)) p.pointer) n

/-! ## Legacy documents -/

/-- The fields of a legacy document that may be the URI of another one. -/
def legacyReferenceFields : List String :=
  ["dataInputSchema", "secrets", "constants", "timeouts", "errors", "events", "functions",
    "retries", "auth"]

/-- Replaces the relative URIs of a legacy document, also the one of an input schema. -/
def rebaseLegacyReferences (rebase : String → Option String) (n : Node) : Node :=
  legacyReferenceFields.foldl (fun n field =>
    n.modifyAt (fun value =>
      match value with
      | .mapping _ =>
        if field == "dataInputSchema" then
          value.modifyAt (Node.modifyText (rebaseReference rebase)) ["schema"]
        else value
      | _ => value.modifyText (rebaseReference rebase)) [field]) n

end WorkflowDsl
