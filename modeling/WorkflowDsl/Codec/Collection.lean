import WorkflowDsl.Codec.Basic
import WorkflowDsl.Collection.NamedMap
import WorkflowDsl.Collection.OneOf
import WorkflowDsl.Collection.OrderedMap

/-!
# Lists, maps and unions

A list is written as a sequence, a map as a mapping, and a named map as a sequence of mappings
with one entry each. A value of a union is written as it is; reading tries the first alternative
and then the second, and reports both failures when neither fits.
-/

namespace WorkflowDsl

namespace Codec

variable {α β : Type}

def list (c : Codec α) : Codec (List α) where
  name := s!"EquatableList<{c.name}>"
  read
    | .sequence items => items.mapM c.read
    | n => .error (mismatch n "a sequence")
  write as := .sequence (as.map c.write)

/-- Converts the values of entries, in order. -/
def readEntries (c : Codec α) : Object → Except ConversionError (Entries α)
  | [] => .ok []
  | (k, n) :: es => do
    let a ← c.read n
    let rest ← readEntries c es
    .ok ((k, a) :: rest)

def map (c : Codec α) : Codec (OrderedMap α) where
  name := s!"EquatableMap<String, {c.name}>"
  read
    | .mapping es => (readEntries c es).map .mk
    | n => .error (mismatch n "a map")
  write m := .mapping (m.entries.mapValues c.write)

/-- A mapping with any values. -/
def object : Codec (OrderedMap Node) := (map node).named "Map<String, Value>"

/-- Reads an item of a named map: a mapping with one entry. -/
def readNamed (c : Codec α) : Node → Except ConversionError (String × α)
  | .mapping [] => .error (.invalidLength 0 expected)
  | .mapping ((name, n) :: rest) => do
    let a ← c.read n
    if rest.isEmpty then .ok (name, a) else .error (.crowdedItem name)
  | n => .error (mismatch n expected)
where
  /-- What an item should be. -/
  expected : String := "a mapping with exactly one named entry"

def namedMap (c : Codec α) : Codec (NamedMap α) where
  name := s!"NamedMap<{c.name}>"
  read
    | .sequence items => (items.mapM (readNamed c)).map .ofList
    | n => .error (mismatch n "a sequence of single-entry mappings")
  write m := .sequence (m.entries.map fun (name, a) => .mapping [(name, c.write a)])

end Codec

/-- Reads a value of the first alternative, or else of the second. -/
def OneOf.ofNode {α β : Type} (a : Codec α) (b : Codec β) (n : Node) :
    Except DefinitionError (OneOf α β) :=
  match a.read n with
  | .ok x => .ok (.first x)
  | .error e =>
    match b.read n with
    | .ok y => .ok (.second y)
    | .error f =>
      .error (.ambiguousUnion s!"{a.name} | {b.name}" n.kind.text
        (e.message ++ "; " ++ f.message))

/-- A value of one of two types. -/
def Codec.oneOf {α β : Type} (a : Codec α) (b : Codec β) : Codec (OneOf α β) :=
  .ofDefinition s!"OneOf<{a.name}, {b.name}>" (OneOf.ofNode a b) (OneOf.either a.write b.write)

end WorkflowDsl
