import WorkflowDsl.Document.Yaml.Token

/-!
# Trees of YAML

A `Tree` is the structure of a document before its scalars are given a meaning. A node may carry a
tag, and an anchor by which aliases refer to it. `Tree.ofTokens?` builds the tree of a text with at
most one document.
-/

namespace WorkflowDsl.Yaml

/-- What is written in front of a node. Anchors are numbers. -/
structure Properties where
  anchor : Option Nat := none
  tag : Option String := none
deriving DecidableEq, Repr

inductive Tree where
  | scalar (properties : Properties) (plain : Bool) (text : String)
  | sequence (properties : Properties) (items : List Tree)
  | mapping (properties : Properties) (entries : List (Tree × Tree))
  | reference (anchor : Nat)
deriving Repr

namespace Tree

mutual

/-- The number of beginnings and ends of collections, scalars and aliases. -/
def size : Tree → Nat
  | scalar .. => 1
  | reference _ => 1
  | sequence _ items => sizeItems items + 2
  | mapping _ entries => sizeEntries entries + 2

def sizeItems : List Tree → Nat
  | [] => 0
  | t :: ts => t.size + sizeItems ts

def sizeEntries : List (Tree × Tree) → Nat
  | [] => 0
  | (k, v) :: es => k.size + v.size + sizeEntries es

end

mutual

/-- The nodes with an anchor, in the order written. -/
def anchored : Tree → List (Nat × Tree)
  | t@(scalar p ..) => (p.anchor.map (·, t)).toList
  | reference _ => []
  | t@(sequence p items) => (p.anchor.map (·, t)).toList ++ anchoredItems items
  | t@(mapping p entries) => (p.anchor.map (·, t)).toList ++ anchoredEntries entries

def anchoredItems : List Tree → List (Nat × Tree)
  | [] => []
  | t :: ts => t.anchored ++ anchoredItems ts

def anchoredEntries : List (Tree × Tree) → List (Nat × Tree)
  | [] => []
  | (k, v) :: es => k.anchored ++ v.anchored ++ anchoredEntries es

end

/-! ## From tokens -/

/-- How far the tokens of a document have been read. -/
structure Progress where
  tokens : List Token
  /-- The prefixes of tags by their handles. -/
  handles : List (String × String) := []
  /-- The anchors met so far, each name with the number of its last use. -/
  anchors : List (String × Nat) := []

abbrev Reading := StateT Progress Option

def peek : Reading Token := do return (← get).tokens.head?.getD .streamEnd

def skip : Reading Unit := modify fun p => { p with tokens := p.tokens.drop 1 }

/-- Numbers an anchor by how many names are known before it. -/
def numberAnchor (name : String) : Reading Nat := do
  let known := (← get).anchors
  let number := known.length
  modify fun p => { p with anchors := (name, number) :: known.filter (·.1 != name) }
  return number

/-- The tag that a handle and a suffix stand for. -/
def resolveTag (handle suffix : String) : Reading String := do
  if handle.isEmpty then return suffix
  match (← get).handles.lookup handle with
  | some start => return start ++ suffix
  | none => failure

def anchor? : Reading (Option Nat) := do
  match ← peek with
  | .anchor name => skip; return some (← numberAnchor name)
  | _ => return none

def tag? : Reading (Option String) := do
  match ← peek with
  | .tag handle suffix => skip; return some (← resolveTag handle suffix)
  | _ => return none

/-- An anchor and a tag in any order. -/
def properties : Reading Properties := do
  match ← anchor? with
  | some a => return ⟨some a, ← tag?⟩
  | none =>
    let tag ← tag?
    if tag.isNone then return {} else return ⟨← anchor?, tag⟩

/-- A node without any text. -/
def empty : Tree := scalar {} true ""

/-- The tag of a scalar that is an exclamation mark says nothing. -/
def scalarOf (p : Properties) (plain : Bool) (text : String) : Tree :=
  scalar { p with tag := p.tag.filter (· != "!") } plain text

/-- The empty node that an anchor or a tag stands for. -/
def emptyWith (p : Properties) : Reading Tree :=
  if p.anchor.isSome || p.tag.isSome then return scalar p true "" else failure

mutual

/-- A node. Blocks may only stand outside of flow collections (`block`), and the items of a block
sequence without indentation only in a block mapping (`indentless`). -/
def node (block indentless : Bool) : Nat → Reading Tree
  | 0 => failure
  | fuel + 1 => do
    match ← peek with
    | .reference name =>
      skip
      match (← get).anchors.lookup name with
      | some a => return reference a
      | none => failure
    | _ =>
      let p ← properties
      match ← peek with
      | .scalar plain text => skip; return scalarOf p plain text
      | .flowSequenceStart => skip; return sequence p (← flowItems true fuel)
      | .flowMappingStart => skip; return mapping p (← flowEntries true fuel)
      | .blockSequenceStart =>
        if block then do skip; return sequence p (← blockItems fuel) else emptyWith p
      | .blockMappingStart =>
        if block then do skip; return mapping p (← blockEntries fuel) else emptyWith p
      | .blockEntry =>
        if indentless then return sequence p (← indentlessItems fuel) else emptyWith p
      | _ => emptyWith p

/-- The node behind an indicator of a block; an empty one if a token of the list comes next. -/
def blockNode (indentless : Bool) (stops : List Token) : Nat → Reading Tree
  | 0 => failure
  | fuel + 1 => do
    if stops.contains (← peek) then return empty else node true indentless fuel

def blockItems : Nat → Reading (List Tree)
  | 0 => failure
  | fuel + 1 => do
    match ← peek with
    | .blockEntry =>
      skip
      let t ← blockNode false [.blockEntry, .blockEnd] fuel
      return t :: (← blockItems fuel)
    | .blockEnd => skip; return []
    | _ => failure

def indentlessItems : Nat → Reading (List Tree)
  | 0 => failure
  | fuel + 1 => do
    match ← peek with
    | .blockEntry =>
      skip
      let t ← blockNode false [.blockEntry, .key, .value, .blockEnd] fuel
      return t :: (← indentlessItems fuel)
    | _ => return []

def blockEntries : Nat → Reading (List (Tree × Tree))
  | 0 => failure
  | fuel + 1 => do
    match ← peek with
    | .key =>
      skip
      let k ← blockNode true [.key, .value, .blockEnd] fuel
      match ← peek with
      | .value =>
        skip
        let v ← blockNode true [.key, .value, .blockEnd] fuel
        return (k, v) :: (← blockEntries fuel)
      | _ => return (k, empty) :: (← blockEntries fuel)
    | .blockEnd => skip; return []
    | _ => failure

/-- The node in a flow collection; an empty one if a token of the list comes next. -/
def flowNode (stops : List Token) : Nat → Reading Tree
  | 0 => failure
  | fuel + 1 => do
    if stops.contains (← peek) then return empty else node false false fuel

/-- The value behind a key in a flow collection, empty if there is no colon. -/
def flowValue (ending : Token) : Nat → Reading Tree
  | 0 => failure
  | fuel + 1 => do
    match ← peek with
    | .value => skip; flowNode [.flowEntry, ending] fuel
    | _ => return empty

/-- The key of a pair in a flow sequence. An empty key takes the token behind it. -/
def pairKey : Nat → Reading Tree
  | 0 => failure
  | fuel + 1 => do
    if [Token.value, .flowEntry, .flowSequenceEnd].contains (← peek) then do skip; return empty
    else node false false fuel

/-- The items of a flow sequence, to behind its end. A key makes an item a mapping of one entry. -/
def flowItems (first : Bool) : Nat → Reading (List Tree)
  | 0 => failure
  | fuel + 1 => do
    if (← peek) == .flowSequenceEnd then do skip; return []
    else
      if !first then if (← peek) == .flowEntry then skip else failure
      match ← peek with
      | .key =>
        skip
        let k ← pairKey fuel
        let v ← flowValue .flowSequenceEnd fuel
        return mapping {} [(k, v)] :: (← flowItems false fuel)
      | .flowSequenceEnd => skip; return []
      | _ =>
        let t ← node false false fuel
        return t :: (← flowItems false fuel)

/-- The entries of a flow mapping, to behind its end. -/
def flowEntries (first : Bool) : Nat → Reading (List (Tree × Tree))
  | 0 => failure
  | fuel + 1 => do
    if (← peek) == .flowMappingEnd then do skip; return []
    else
      if !first then if (← peek) == .flowEntry then skip else failure
      match ← peek with
      | .key =>
        skip
        let k ← flowNode [.value, .flowEntry, .flowMappingEnd] fuel
        let v ← flowValue .flowMappingEnd fuel
        return (k, v) :: (← flowEntries false fuel)
      | .flowMappingEnd => skip; return []
      | _ =>
        let k ← node false false fuel
        return (k, empty) :: (← flowEntries false fuel)

end

/-! ## Documents -/

/-- The handles that need no directive. -/
def standardHandles : List (String × String) := [("!", "!"), ("!!", "tag:yaml.org,2002:")]

/-- Reads the directives of a document, of which at most one may give a version, 1.1 or 1.2. -/
def directives : Nat → Bool → Reading Unit
  | 0, _ => failure
  | fuel + 1, versioned => do
    match ← peek with
    | .versionDirective major minor =>
      if versioned || major != 1 || (minor != 1 && minor != 2) then failure
      else do skip; directives fuel true
    | .tagDirective handle start =>
      if ((← get).handles.lookup handle).isSome then failure
      else do
        skip
        modify fun p => { p with handles := (handle, start) :: p.handles }
        directives fuel versioned
    | _ => modify fun p => { p with handles := p.handles ++ standardHandles }

/-- Skips the markers of the end of a document. -/
def skipDocumentEnds : Nat → Reading Unit
  | 0 => return
  | fuel + 1 => do
    match ← peek with
    | .documentEnd => skip; skipDocumentEnds fuel
    | _ => return

/-- The root of a document that has a marker in front of it. -/
def markedRoot (fuel : Nat) : Reading Tree := do
  match ← peek with
  | .documentStart =>
    skip
    match ← peek with
    | .versionDirective .. | .tagDirective .. | .documentStart | .documentEnd | .streamEnd =>
      return empty
    | _ => node true false fuel
  | _ => failure

/-- The only document of a text; none if the text has no node. -/
def document (fuel : Nat) : Reading (Option Tree) := do
  match ← peek with
  | .streamEnd => return none
  | first =>
    directives fuel false
    let root ←
      match first with
      | .versionDirective .. | .tagDirective .. | .documentStart => markedRoot fuel
      | _ => node true false fuel
    skipDocumentEnds fuel
    match ← peek with
    | .streamEnd => return some root
    | _ => failure

/-- The tree of a text of one document; none inside if the text has no node. -/
def ofTokens? (tokens : Array Token) : Option (Option Tree) :=
  ((document (4 * tokens.size + 8)).run { tokens := tokens.toList }).map (·.1)

end Tree

end WorkflowDsl.Yaml
