import WorkflowDsl.Numeric.Binary64
import WorkflowDsl.Collection.Entries

/-!
# Document trees

A `Node` is what a JSON or YAML text denotes: a scalar, a sequence, or a mapping whose entries keep
the order in which they were written. Two mappings are equal (`==`) when they have the same entries
in any order.
-/

namespace WorkflowDsl

/-- A number of a document. An integer literal of at most 64 bits stays an integer. -/
inductive Number where
  | int (value : Int)
  | float (value : Binary64)
deriving DecidableEq, Repr

namespace Number

/-- Equal as numbers of the same kind: `1` and `1.0` differ. -/
def equal : Number → Number → Bool
  | int m, int n => m == n
  | float x, float y => x.equal y
  | _, _ => false

def text : Number → String
  | int n => toString n
  | float x => x.text

/-- The nearest floating point number. -/
def toBinary64 : Number → Binary64
  | int n => .ofInt n
  | float x => x

end Number

/-- A document tree. -/
inductive Node where
  | null
  | bool (value : Bool)
  | number (value : Number)
  | string (value : String)
  | sequence (items : List Node)
  | mapping (entries : List (String × Node))
deriving Repr, Inhabited

/-- The entries of a mapping, in the order written. -/
abbrev Object := Entries Node

namespace Node

/-- What the shape of a node is called in messages about shapes. -/
inductive Kind where
  | null | scalar | mapping | sequence
deriving DecidableEq, Repr

def Kind.text : Kind → String
  | .null => "null"
  | .scalar => "scalar"
  | .mapping => "mapping"
  | .sequence => "sequence"

def kind : Node → Kind
  | null => .null
  | bool _ | number _ | string _ => .scalar
  | sequence _ => .sequence
  | mapping _ => .mapping

mutual

/-- Equality up to the order of the entries of mappings. -/
def equal : Node → Node → Bool
  | null, null => true
  | bool a, bool b => a == b
  | number a, number b => a.equal b
  | string a, string b => a == b
  | sequence as, sequence bs => equalItems as bs
  | mapping as, mapping bs => as.length == bs.length && equalEntries as bs
  | _, _ => false

def equalItems : List Node → List Node → Bool
  | [], [] => true
  | a :: as, b :: bs => equal a b && equalItems as bs
  | _, _ => false

/-- Every entry of the first list has an equal one under its key in the second. -/
def equalEntries : List (String × Node) → List (String × Node) → Bool
  | [], _ => true
  | (k, a) :: as, bs =>
    (match bs.lookup k with
      | some b => equal a b
      | none => false) && equalEntries as bs

end

instance : BEq Node := ⟨equal⟩

mutual

/-- The number of nested levels of a node; a scalar has none. -/
def depth : Node → Nat
  | sequence items => depthItems items + 1
  | mapping entries => depthEntries entries + 1
  | _ => 0

def depthItems : List Node → Nat
  | [] => 0
  | n :: ns => max n.depth (depthItems ns)

def depthEntries : List (String × Node) → Nat
  | [] => 0
  | (_, n) :: es => max n.depth (depthEntries es)

end

/-- The entries of a mapping; none for any other node. -/
def entries? : Node → Option Object
  | mapping es => some es
  | _ => none

/-- The value under `key` in a mapping. -/
def get? (n : Node) (key : String) : Option Node :=
  n.entries?.bind (·.lookup key)

/-- The text of a string node. -/
def string? : Node → Option String
  | string s => some s
  | _ => none

def ofNat (n : Nat) : Node := number (.int n)

def isNull : Node → Bool
  | null => true
  | _ => false

end Node

end WorkflowDsl
