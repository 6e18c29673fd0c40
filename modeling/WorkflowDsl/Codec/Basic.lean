import WorkflowDsl.Document.Node
import WorkflowDsl.Error
import WorkflowDsl.Text.Quoted

/-!
# Conversion between document trees and values

A `Codec α` reads values of `α` from document trees and writes them. Reading fails with a
`ConversionError`, the cause of which is found on the way through the tree; a definition that has
rules of its own fails with a `DefinitionError`, and that error stands for itself inside the
conversion of an enclosing value.
-/

namespace WorkflowDsl

/-- The cause for which a node cannot be converted. -/
inductive ConversionError where
  | missingField (name : String)
  | invalidType (found expected : String)
  | invalidValue (found expected : String)
  | invalidLength (length : Nat) (expected : String)
  | unknownVariant (name : String) (known : List String)
  /-- A value that fits no alternative of an untagged union. -/
  | noAlternative (union : String)
  /-- An item of a named map with more than one entry, of which the first is named. -/
  | crowdedItem (name : String)
  | definition (cause : DefinitionError)
deriving DecidableEq, Repr

namespace ConversionError

/-- A list of names from which one was expected. -/
def choiceText (names : List String) : String :=
  match names.map fun name => "`" ++ name ++ "`" with
  | [] => "there are no variants"
  | [a] => "expected " ++ a
  | [a, b] => "expected " ++ a ++ " or " ++ b
  | quoted => "expected one of " ++ ", ".intercalate quoted

def message : ConversionError → String
  | missingField name => "missing field `" ++ name ++ "`"
  | invalidType found expected => s!"invalid type: {found}, expected {expected}"
  | invalidValue found expected => s!"invalid value: {found}, expected {expected}"
  | invalidLength length expected => s!"invalid length {length}, expected {expected}"
  | unknownVariant name known => "unknown variant `" ++ name ++ "`, " ++ choiceText known
  | noAlternative union => s!"data did not match any variant of untagged enum {union}"
  | crowdedItem name => s!"entry '{name}' must be a mapping with exactly one named entry"
  | definition cause => cause.message

end ConversionError

/-- How a node is called in messages about its type. -/
def Node.describe : Node → String
  | .null => "null"
  | .bool b => "boolean `" ++ (if b then "true" else "false") ++ "`"
  | .number (.int n) => "integer `" ++ toString n ++ "`"
  | .number (.float x) => "floating point `" ++ x.text ++ "`"
  | .string s => "string " ++ Text.quoted s
  | .sequence _ => "sequence"
  | .mapping _ => "map"

/-- Reads and writes the values of a type. `name` is the type in messages about unions. -/
structure Codec (α : Type) where
  name : String
  read : Node → Except ConversionError α
  write : α → Node

namespace Codec

variable {α : Type}

/-- The refusal of a node that has not the expected type. -/
def mismatch (found : Node) (expected : String) : ConversionError :=
  .invalidType found.describe expected

/-- Reads a definition from a node. -/
def decode (c : Codec α) (n : Node) : Except DefinitionError α :=
  (c.read n).mapError fun e => .serialization e.message

/-- A codec of a definition that has rules of its own. -/
def ofDefinition (name : String) (read : Node → Except DefinitionError α) (write : α → Node) :
    Codec α where
  name
  read n := (read n).mapError .definition
  write

/-- Any node, as it is. -/
def node : Codec Node := ⟨"Value", .ok, id⟩

def string : Codec String where
  name := "String"
  read
    | .string s => .ok s
    | n => .error (mismatch n "a string")
  write := .string

def bool : Codec Bool where
  name := "bool"
  read
    | .bool b => .ok b
    | n => .error (mismatch n "a boolean")
  write := .bool

/-- A floating point number. An integer stands for the nearest one. -/
def float : Codec Binary64 where
  name := "f64"
  read
    | .number x => .ok x.toBinary64
    | n => .error (mismatch n "f64")
  write x := .number (.float x)

/-- The integers of a range. -/
def integer (name : String) (least greatest : Int) : Codec Int where
  name
  read
    | n@(.number (.int i)) =>
      if least ≤ i && i ≤ greatest then .ok i else .error (.invalidValue n.describe name)
    | n => .error (mismatch n name)
  write i := .number (.int i)

/-- Changes the type of the values. -/
def imap {β : Type} (make : α → β) (get : β → α) (c : Codec α) : Codec β where
  name := c.name
  read n := (c.read n).map make
  write b := c.write (get b)

def uint16 : Codec UInt16 :=
  (integer "u16" 0 0xFFFF).imap (fun i => .ofNat i.toNat) (fun w => (w.toNat : Int))

def uint32 : Codec UInt32 :=
  (integer "u32" 0 0xFFFFFFFF).imap (fun i => .ofNat i.toNat) (fun w => (w.toNat : Int))

def uint64 : Codec UInt64 :=
  (integer "u64" 0 0xFFFFFFFFFFFFFFFF).imap (fun i => .ofNat i.toNat) (fun w => (w.toNat : Int))

def int64 : Codec Int64 :=
  (integer "i64" (-0x8000000000000000) 0x7FFFFFFFFFFFFFFF).imap .ofInt (fun w => w.toInt)

/-- A value or null for none. -/
def option (c : Codec α) : Codec (Option α) where
  name := s!"Option<{c.name}>"
  read
    | .null => .ok none
    | n => (c.read n).map some
  write
    | none => .null
    | some a => c.write a

/-- The same values under another name. -/
def named (name : String) (c : Codec α) : Codec α := { c with name }

/-- A choice among names. A name may also be the only key of a mapping, over null. -/
def choice (name : String) (all : List α) (text : α → String) : Codec α where
  name
  read
    | .string s => find s
    | .mapping [(key, value)] => do
      let a ← find key
      match value with
      | .null => .ok a
      | n => .error (mismatch n "unit")
    | .mapping _ => .error (.invalidValue "map" "map with a single key")
    | n => .error (mismatch n "string or map")
  write a := .string (text a)
where
  /-- The value of a name. -/
  find (s : String) : Except ConversionError α :=
    match all.find? (text · == s) with
    | some a => .ok a
    | none => .error (.unknownVariant s (all.map text))

end Codec

end WorkflowDsl
