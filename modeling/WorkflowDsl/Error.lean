/-!
# What can be wrong with a definition

`DefinitionError` is the cause for which a definition is refused: while it is converted from a
document tree, built, or validated. `DefinitionError.message` gives its text, and
`DefinitionError.within` moves the field that it names below a parent field.
-/

namespace WorkflowDsl

/-- The families of definition errors. -/
inductive ErrorKind where
  | missingField
  | invalidFormat
  | cardinality
  | mutuallyExclusive
  | ambiguousUnion
  | ambiguousKind
  | shapeMismatch
  | serialization
deriving DecidableEq, Repr

namespace ErrorKind

def all : List ErrorKind :=
  [missingField, invalidFormat, cardinality, mutuallyExclusive, ambiguousUnion, ambiguousKind,
    shapeMismatch, serialization]

def text : ErrorKind → String
  | missingField => "missing-field"
  | invalidFormat => "invalid-format"
  | cardinality => "cardinality"
  | mutuallyExclusive => "mutually-exclusive"
  | ambiguousUnion => "ambiguous-union"
  | ambiguousKind => "ambiguous-kind"
  | shapeMismatch => "shape-mismatch"
  | serialization => "serialization"

def ofText? (s : String) : Option ErrorKind := all.find? (·.text == s)

end ErrorKind

/-- The cause for which a definition is refused. -/
inductive DefinitionError where
  /-- A required field is absent or blank. -/
  | missingField (definition field : String)
  /-- The text of a field breaks the rule that `reason` states. -/
  | invalidFormat (field value reason : String)
  /-- A collection holds fewer than `min` entries. -/
  | cardinality (field : String) (min actual : Nat)
  /-- Fields of which at most one may be given. -/
  | mutuallyExclusive (definition : String) (fields : List String)
  /-- A value that is none of the alternatives of a union. -/
  | ambiguousUnion (expected found detail : String)
  /-- A mapping without exactly one of the keys that select its kind. -/
  | ambiguousKind (family : String) (keys : List String)
  /-- A node of another shape than the definition has. -/
  | shapeMismatch (definition expected found : String)
  /-- A node that could not be converted. -/
  | serialization (detail : String)
deriving DecidableEq, Repr

namespace DefinitionError

def kind : DefinitionError → ErrorKind
  | missingField .. => .missingField
  | invalidFormat .. => .invalidFormat
  | cardinality .. => .cardinality
  | mutuallyExclusive .. => .mutuallyExclusive
  | ambiguousUnion .. => .ambiguousUnion
  | ambiguousKind .. => .ambiguousKind
  | shapeMismatch .. => .shapeMismatch
  | serialization .. => .serialization

def message : DefinitionError → String
  | missingField definition field => s!"MissingField: '{field}' is required by {definition}"
  | invalidFormat field value reason => s!"InvalidFormat: {field}='{value}' ({reason})"
  | cardinality field min actual =>
    s!"Cardinality: '{field}' requires at least {min} entries, found {actual}"
  | mutuallyExclusive definition fields =>
    "MutuallyExclusive: " ++ definition ++ " accepts only one of [" ++ ", ".intercalate fields
      ++ "]"
  | ambiguousUnion expected found detail =>
    s!"AmbiguousUnion: {found} value matches none of {expected}: {detail}"
  | ambiguousKind family keys =>
    "AmbiguousKind: " ++ family ++ " must declare exactly one of its kind keys, found ["
      ++ ", ".intercalate keys ++ "]"
  | shapeMismatch definition expected found =>
    s!"ShapeMismatch: {definition} expects {expected}, found {found}"
  | serialization detail => s!"Serialization({detail})"

/-- Places the field that the error names below `parent`. Errors that name no field stay. -/
def within (parent : String) : DefinitionError → DefinitionError
  | missingField definition field => missingField definition s!"{parent}.{field}"
  | invalidFormat field value reason => invalidFormat s!"{parent}.{field}" value reason
  | cardinality field min actual => cardinality s!"{parent}.{field}" min actual
  | e => e

end DefinitionError

/-- The outcome of a check: nothing, or the first violation. -/
abbrev Check := Except DefinitionError Unit

end WorkflowDsl
