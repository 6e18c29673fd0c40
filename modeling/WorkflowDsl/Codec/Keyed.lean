import WorkflowDsl.Codec.Basic

/-!
# Mappings that name their kind

Some definitions are mappings in which the presence of one key among several tells of which kind the
definition is. `Entries.singleKind` finds that key, whatever the values.
-/

namespace WorkflowDsl

/-- The entries of a mapping that is to hold the named definition. -/
def Node.toObject (definition : String) : Node → Except DefinitionError Object
  | .mapping es => .ok es
  | n => .error (.shapeMismatch definition Node.Kind.mapping.text n.kind.text)

/-- The one candidate that is a key. If there is none, all keys are reported, and if there are
several, those. -/
def Entries.singleKind {α : Type} (es : Entries α) (family : String) (candidates : List String) :
    Except DefinitionError String :=
  match es.presentKeys candidates with
  | [key] => .ok key
  | [] => .error (.ambiguousKind family es.keys)
  | keys => .error (.ambiguousKind family keys)

/-- Reads a definition from a node that has to be a mapping. `key` is what the mapping is called in
the refusal of another node. -/
def Codec.decodeObject {α : Type} (c : Codec α) (key : String) (n : Node) :
    Except DefinitionError α := do
  let es ← n.toObject key
  c.decode (.mapping es)

end WorkflowDsl
