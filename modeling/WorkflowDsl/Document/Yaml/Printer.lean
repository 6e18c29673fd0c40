import WorkflowDsl.Document.Yaml.Plain
import WorkflowDsl.Document.Yaml.Scalar
import WorkflowDsl.Document.Yaml.Tree

/-!
# Writing YAML

`Tree.ofNode` gives a node the form in which it reads back, and `Tree.render` writes a tree in
blocks, two blanks a level. The items of a sequence under a key stand below the key; the first line
of a collection inside a sequence stands behind the dash. Empty collections are written in flow
style.
-/

namespace WorkflowDsl.Yaml

/-- Whether a text is still a text when it is written plain. -/
def isPlainText (s : String) : Bool :=
  Plain.ofText s == .text && !Plain.hasLeadingZero s && !s.toList.contains '\n'

namespace Tree

def ofString (s : String) : Tree := scalar {} (isPlainText s) s

def ofNumber : Number → Tree
  | .int n => scalar {} true (toString n)
  | .float x => scalar {} true x.bareText

mutual

/-- The tree of a node. -/
def ofNode : Node → Tree
  | .null => scalar {} true "null"
  | .bool b => scalar {} true (if b then "true" else "false")
  | .number n => ofNumber n
  | .string s => ofString s
  | .sequence items => sequence {} (ofItems items)
  | .mapping entries => mapping {} (ofEntries entries)

def ofItems : List Node → List Tree
  | [] => []
  | n :: ns => ofNode n :: ofItems ns

def ofEntries : List (String × Node) → List (Tree × Tree)
  | [] => []
  | (k, n) :: es => (ofString k, ofNode n) :: ofEntries es

end

/-! ## Editing -/

/-- Whether a tree is the scalar with this text. -/
def isText (t : Tree) (s : String) : Bool :=
  match t with
  | scalar _ _ text => text == s
  | _ => false

/-- Changes the values of a mapping by their keys. -/
def mapValues (f : Tree → Tree → Tree) : Tree → Tree
  | mapping p es => mapping p (es.map fun (k, v) => (k, f k v))
  | t => t

/-- Changes the value under a key. -/
def modifyKey (key : String) (f : Tree → Tree) : Tree → Tree :=
  mapValues fun k v => if k.isText key then f v else v

def withTag (tag : String) : Tree → Tree
  | scalar p plain text => scalar { p with tag := some tag } plain text
  | sequence p items => sequence { p with tag := some tag } items
  | mapping p entries => mapping { p with tag := some tag } entries
  | reference a => reference a

/-- Writes the only key of a mapping as a tag of its value. -/
def keyAsTag : Tree → Tree
  | mapping _ [(scalar _ _ key, v)] => v.withTag ("!" ++ key)
  | t => t

/-! ## Text -/

/-- A tag as it stands in a text. -/
def tagText (tag : String) : String :=
  if tag.startsWith "!" then tag else "!<" ++ tag ++ ">"

/-- What stands in front of a node, each behind a blank. -/
def propertiesText (p : Properties) : String :=
  (p.anchor.map fun a => " &" ++ toString a).getD "" ++ (p.tag.map (" " ++ tagText ·)).getD ""

/-- Ends the line that is being written, if there is one. -/
def endLine (out : String) : String :=
  if out.isEmpty || out.back?.any isBreak then out else out.push '\n'

def startLine (indent : Nat) (out : String) : String := (endLine out).pushn ' ' indent

/-- A key on one line of at most 128 bytes needs no indicator in front of it. -/
def isSimpleKey : Tree → Bool
  | scalar p _ text =>
    !(text.toList.any isAnyBreak) && (propertiesText p).utf8ByteSize + text.utf8ByteSize ≤ 128
  | reference _ => true
  | _ => false

/-- The text of a simple key. -/
def simpleKeyText : Tree → String
  | scalar p plain text => propertiesText p ++ scalarText true plain 0 text
  | reference a => "*" ++ toString a ++ " "
  | _ => ""

/-- Puts a blank in front of a text, unless it is empty. -/
def spaced (s : String) : String := if s.isEmpty then s else " " ++ s

mutual

/-- Writes a node behind an indicator of a block at `indent`. In a mapping, `inMapping`, sequences
need no indentation; `inline` says that a block may start on the line of the indicator. -/
def renderNode (inMapping inline : Bool) (indent : Nat) (out : String) : Tree → String
  | scalar p plain text =>
    out ++ propertiesText p ++ spaced (scalarText false plain (indent + 2) text)
  | reference a => out ++ " *" ++ toString a
  | sequence p [] => out ++ propertiesText p ++ " []"
  | mapping p [] => out ++ propertiesText p ++ " \x7b\x7d"
  | sequence p (t :: ts) =>
    let inline := inline && (propertiesText p).isEmpty
    renderItems inline (if inMapping && !inline then indent else indent + 2)
      (out ++ propertiesText p) (t :: ts)
  | mapping p (e :: es) =>
    renderEntries (inline && (propertiesText p).isEmpty) (indent + 2) (out ++ propertiesText p)
      (e :: es)

def renderItems (inline : Bool) (indent : Nat) (out : String) : List Tree → String
  | [] => out
  | t :: ts =>
    let out := if inline then out ++ " " else startLine indent out
    renderItems false indent (renderNode false true indent (out ++ "-") t) ts

def renderEntries (inline : Bool) (indent : Nat) (out : String) : List (Tree × Tree) → String
  | [] => out
  | (k, v) :: es =>
    let out := if inline then out ++ " " else startLine indent out
    let out :=
      if isSimpleKey k then renderNode true false indent (out ++ simpleKeyText k ++ ":") v
      else
        let out := renderNode true true indent (out ++ "?") k
        renderNode true true indent (startLine indent out ++ ":") v
    renderEntries false indent out es

end

/-- The text of a document. -/
def render : Tree → String
  | sequence p (t :: ts) => endLine (renderItems false 0 (propertiesText p) (t :: ts))
  | mapping p (e :: es) => endLine (renderEntries false 0 (propertiesText p) (e :: es))
  | t => endLine (String.ofList ((renderNode false false 0 "" t).toList.drop 1))

end Tree

/-- Writes a node. -/
def print (n : Node) : String := (Tree.ofNode n).render

end WorkflowDsl.Yaml
