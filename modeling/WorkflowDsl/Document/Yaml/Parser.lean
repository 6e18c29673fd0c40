import WorkflowDsl.Document.Yaml.Plain
import WorkflowDsl.Document.Yaml.Token.Scanner
import WorkflowDsl.Document.Yaml.Tree

/-!
# Reading YAML

`parse?` reads a text as one node. Plain scalars mean what their spelling says, other scalars are
texts. Tags of the standard types are followed; tags that start with an exclamation mark are
refused. Keys are texts whatever their spelling, and a repeated key keeps its first place and its
last value.

At most 128 collections stand inside each other, also behind aliases, and aliases may be followed no
more than a hundred times for each part of the text.
-/

namespace WorkflowDsl.Yaml

/-- The text of a standard tag. -/
def standardTag (name : String) : String := "tag:yaml.org,2002:" ++ name

/-- The node of a scalar. -/
def scalarNode? (tag : Option String) (plain : Bool) (text : String) : Option Node :=
  match tag with
  | none => if plain then Plain.node? text else some (.string text)
  | some tag =>
    if tag.startsWith "!" then none
    else if tag == standardTag "bool" then (Plain.bool? text).map .bool
    else if tag == standardTag "int" then
      match (Plain.integer? text).bind Plain.ofInteger? with
      | some (.integer n) => some (.number (.int n))
      | _ => none
    else if tag == standardTag "float" then (Plain.float? text).map Plain.floatNode
    else if tag == standardTag "null" then if Plain.isNull text then some .null else none
    else some (.string text)

/-- Collections with a tag of this kind are refused. -/
def isLocalTag (tag : Option String) : Bool := tag.any (·.startsWith "!")

/-- What aliases refer to, and how often they may be followed. -/
structure Anchors where
  nodes : List (Nat × Tree)
  limit : Nat

/-- Follows an alias. The state counts the aliases followed. -/
def Anchors.follow (anchors : Anchors) : Tree → StateT Nat Option Tree
  | .reference a => do
    modify (· + 1)
    if anchors.limit < (← get) then failure
    match anchors.nodes.findRev? (·.1 == a) with
    | some (_, t) => return t
    | none => failure
  | t => return t

/-- The text of a key. -/
def keyText (anchors : Anchors) (t : Tree) : StateT Nat Option String := do
  match ← anchors.follow t with
  | .scalar _ _ text => return text
  | _ => failure

/-- The node of a tree in which at most `depth` collections stand inside each other. -/
def treeNode (anchors : Anchors) : Nat → Tree → StateT Nat Option Node
  | 0, t => do
    match ← anchors.follow t with
    | .scalar p plain text => liftM (scalarNode? p.tag plain text)
    | _ => failure
  | depth + 1, t => do
    match ← anchors.follow t with
    | .scalar p plain text => liftM (scalarNode? p.tag plain text)
    | .reference _ => failure
    | .sequence p items =>
      if isLocalTag p.tag then failure else return .sequence (← items.mapM (treeNode anchors depth))
    | .mapping p entries =>
      if isLocalTag p.tag then failure
      else do
        let es ← entries.mapM fun (k, v) => do
          return (← keyText anchors k, ← treeNode anchors depth v)
        return .mapping (Entries.ofList es)

def Tree.node? (t : Tree) : Option Node :=
  ((treeNode ⟨t.anchored, 100 * t.size⟩ 128 t).run 0).map (·.1)

/-- The node that a text holds, if it is a YAML text. A text without any node is null. -/
def parse? (text : String) : Option Node := do
  match ← Tree.ofTokens? (← tokens? text) with
  | none => some .null
  | some t => t.node?

end WorkflowDsl.Yaml
