import WorkflowDsl.Document.Node

/-!
# Pointers into document trees

A `Pointer` lists the keys and indices on the way from the root of a tree to a node. Its text has a
slash in front of each of them, with `~1` for a slash and `~0` for a tilde inside a key.
-/

namespace WorkflowDsl

/-- The keys and indices on the way to a node, from the root on. -/
abbrev Pointer := List String

namespace Pointer

def escape : List Char → List Char
  | [] => []
  | c :: cs =>
    if c == '~' then '~' :: '0' :: escape cs
    else if c == '/' then '~' :: '1' :: escape cs
    else c :: escape cs

def unescape : List Char → List Char
  | '~' :: '0' :: cs => '~' :: unescape cs
  | '~' :: '1' :: cs => '/' :: unescape cs
  | c :: cs => c :: unescape cs
  | [] => []

def text (p : Pointer) : String :=
  String.join (p.map fun key => "/" ++ String.ofList (escape key.toList))

/-- The parts of a text between slashes, the first of which is still being read. -/
def parts : List Char → List Char → List (List Char)
  | read, [] => [read.reverse]
  | read, c :: cs => if c == '/' then read.reverse :: parts [] cs else parts (c :: read) cs

/-- The pointer with a text: the empty text, or one that starts with a slash. -/
def ofText? (s : String) : Option Pointer :=
  match s.toList with
  | [] => some []
  | '/' :: cs => some ((parts [] cs).map fun part => String.ofList (unescape part))
  | _ => none

/-- The number that a key denotes as an index, written without superfluous zeros. -/
def index? (key : String) : Option Nat :=
  match key.toList with
  | ['0'] => some 0
  | '0' :: _ => none
  | cs =>
    if !cs.isEmpty && cs.all Char.isDigit then
      some (cs.foldl (fun n c => n * 10 + (c.toNat - 48)) 0)
    else none

end Pointer

namespace Node

/-- The node under a key of a mapping, or at an index of a sequence. -/
def child? (n : Node) (key : String) : Option Node :=
  match n with
  | mapping es => es.lookup key
  | sequence ns => (Pointer.index? key).bind (ns[·]?)
  | _ => none

/-- The node that a pointer leads to. -/
def at? : Pointer → Node → Option Node
  | [], n => some n
  | key :: p, n => (n.child? key).bind (at? p)

/-- Changes the value under a key. -/
def modifyEntry (f : Node → Node) (key : String) : List (String × Node) → List (String × Node)
  | [] => []
  | (k, v) :: es => if k == key then (k, f v) :: es else (k, v) :: modifyEntry f key es

/-- Changes the node that a pointer leads to, if there is one. -/
def modifyAt (f : Node → Node) : Pointer → Node → Node
  | [], n => f n
  | key :: p, mapping es => mapping (modifyEntry (modifyAt f p) key es)
  | key :: p, n@(sequence ns) =>
    match Pointer.index? key with
    | some i => sequence (ns.modify i (modifyAt f p))
    | none => n
  | _ :: _, n => n

end Node

end WorkflowDsl
