import WorkflowDsl.Document.Json.Printer
import WorkflowDsl.Document.Pointer
import WorkflowDsl.Reader.Error

/-!
# Schemas of documents

A `JsonSchema` says which document trees are allowed: by their type, by the properties that a
mapping needs and the schemas of their values, and by the least number of items of a sequence.
`violations` lists what in a document is not allowed, in the order of the schema.
-/

namespace WorkflowDsl

/-- The types of nodes that a schema tells apart. -/
inductive JsonType where
  | array
  | boolean
  | integer
  | null
  | number
  | object
  | string
deriving DecidableEq, Repr

namespace JsonType

/-- All types, by name. -/
def all : List JsonType := [array, boolean, integer, null, number, object, string]

def text : JsonType → String
  | array => "array"
  | boolean => "boolean"
  | integer => "integer"
  | null => "null"
  | number => "number"
  | object => "object"
  | string => "string"

def ofText? (s : String) : Option JsonType := all.find? (·.text == s)

/-- Whether a node is of a type. A number without a fraction is an integer. -/
def holds : JsonType → Node → Bool
  | array, .sequence _ => true
  | boolean, .bool _ => true
  | integer, .number (.int _) => true
  | integer, .number (.float x) => x.toInt?.isSome
  | null, .null => true
  | number, .number _ => true
  | object, .mapping _ => true
  | string, .string _ => true
  | _, _ => false

end JsonType

/-- What documents have to be like. -/
inductive JsonSchema where
  /-- Nothing is allowed. -/
  | never
  /-- Nodes of one of the types. -/
  | type (types : List JsonType)
  /-- Mappings have these keys. -/
  | required (names : List String)
  /-- The values under some keys of mappings have schemas. -/
  | properties (schemas : List (String × JsonSchema))
  /-- Sequences have so many items or more. -/
  | minItems (limit : Nat)
  /-- Every one of the schemas. -/
  | all (schemas : List JsonSchema)
deriving Repr

/-! ## Violations -/

/-- Why a node is not allowed. -/
inductive SchemaViolation.Cause where
  | never
  | type (types : List JsonType)
  | missing (name : String)
  | fewItems (limit : Nat)
deriving DecidableEq, Repr

/-- A node of a document that is not allowed. -/
structure SchemaViolation where
  pointer : Pointer
  found : Node
  cause : SchemaViolation.Cause
deriving Repr

/-- What is said about a violation. -/
def SchemaViolation.message (v : SchemaViolation) : String :=
  let found := Json.compact v.found
  match v.cause with
  | .never => s!"False schema does not allow {found}"
  | .type [t] => s!"{found} is not of type \"{t.text}\""
  | .type ts =>
    s!"{found} is not of types " ++ ", ".intercalate (ts.map fun t => s!"\"{t.text}\"")
  | .missing name => s!"{Json.compact (.string name)} is a required property"
  | .fewItems limit => s!"{found} has less than {limit} item" ++ if limit == 1 then "" else "s"

def SchemaViolation.text (v : SchemaViolation) : String :=
  s!"Path: {v.pointer.text}, Message: {v.message}"

namespace JsonSchema

mutual

/-- What is not allowed in a node at a position. -/
def violationsAt (p : Pointer) (n : Node) : JsonSchema → List SchemaViolation
  | never => [⟨p, n, .never⟩]
  | type types => if types.any (·.holds n) then [] else [⟨p, n, .type types⟩]
  | required names =>
    match n with
    | .mapping es =>
      (names.filter fun name => !Entries.hasKey es name).map fun name => ⟨p, n, .missing name⟩
    | _ => []
  | properties schemas => violationsInEntries p n schemas
  | minItems limit =>
    match n with
    | .sequence ns => if ns.length < limit then [⟨p, n, .fewItems limit⟩] else []
    | _ => []
  | all schemas => violationsOfAll p n schemas

/-- What is not allowed in the values of a mapping. -/
def violationsInEntries (p : Pointer) (n : Node) : List (String × JsonSchema) → List SchemaViolation
  | [] => []
  | (key, schema) :: rest =>
    (match n.get? key with
      | some value => violationsAt (p ++ [key]) value schema
      | none => []) ++ violationsInEntries p n rest

def violationsOfAll (p : Pointer) (n : Node) : List JsonSchema → List SchemaViolation
  | [] => []
  | schema :: rest => violationsAt p n schema ++ violationsOfAll p n rest

end

/-- What is not allowed in a document. -/
def violations (schema : JsonSchema) (document : Node) : List SchemaViolation :=
  schema.violationsAt [] document

/-- Refuses a document in which something is not allowed. -/
def check (schema : JsonSchema) (document : Node) : Except ReadError Unit :=
  match schema.violations document with
  | [] => .ok ()
  | vs => .error (.schemaViolations (vs.map SchemaViolation.text))

/-! ## Reading -/

/-- A list of distinct strings. -/
def names? : Node → Option (List String)
  | .sequence ns => do
    let names ← ns.mapM Node.string?
    if names.Nodup then some names else none
  | _ => none

/-- The types that a schema names, one or several, in the order of their names. -/
def types? : Node → Option (List JsonType)
  | .string s => (JsonType.ofText? s).map ([·])
  | n => do
    let types ← (← names? n).mapM JsonType.ofText?
    if types.isEmpty then none else some (JsonType.all.filter types.contains)

/-- A number of items: no fraction, and no sign. It is at most what 64 bits hold. -/
def limit? : Node → Option Nat
  | .number (.int i) => if 0 ≤ i then some i.toNat else none
  | .number (.float x) => do
    let i ← x.toInt?
    if 0 ≤ i then some (min i.toNat (UInt64.size - 1)) else none
  | _ => none

mutual

/-- The schema that a node describes: a truth value or a mapping of keywords. -/
def ofNode? : Node → Option JsonSchema
  | .bool true => some (all [])
  | .bool false => some never
  | .mapping es => (ofKeywords? es).map all
  | _ => none

/-- The schemas of keywords. Those that are not known allow everything. -/
def ofKeywords? : List (String × Node) → Option (List JsonSchema)
  | [] => some []
  | (key, n) :: rest => do
    let schema ←
      if key == "type" then (types? n).map fun ts => [type ts]
      else if key == "required" then (names? n).map fun names => [required names]
      else if key == "properties" then (propertiesOf? n).map fun schemas => [properties schemas]
      else if key == "minItems" then (limit? n).map fun limit => [minItems limit]
      else some []
    return schema ++ (← ofKeywords? rest)

/-- The schemas under the keys of a mapping. -/
def propertiesOf? : Node → Option (List (String × JsonSchema))
  | .mapping es => ofEntries? es
  | _ => none

def ofEntries? : List (String × Node) → Option (List (String × JsonSchema))
  | [] => some []
  | (key, n) :: rest => do
    return (key, ← ofNode? n) :: (← ofEntries? rest)

end

def ofNode (n : Node) : Except ReadError JsonSchema :=
  match ofNode? n with
  | some schema => .ok schema
  | none => .error .invalidSchema

/-- The schema that a text describes. -/
def ofText (s : String) : Except ReadError JsonSchema := do
  ofNode (← readDetected s)

end JsonSchema

end WorkflowDsl
