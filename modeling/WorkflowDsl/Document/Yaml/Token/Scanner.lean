import WorkflowDsl.Document.Yaml.Token.Scalar
import WorkflowDsl.Document.Yaml.Token.Tag

/-!
# Cutting a text into tokens

The scanner keeps the columns of the blocks around its place. A node may turn out to be a key only
when a colon follows it on the same line; the scanner remembers where such a node starts, one for
each level of flow collections, and puts the token of the key in front of it afterwards.
-/

namespace WorkflowDsl.Yaml

/-- A node that may turn out to be a key. -/
structure PossibleKey where
  /-- The number of tokens in front of it. -/
  position : Nat
  index : Nat
  line : Nat
  column : Nat
  /-- The node stands where a block mapping has its keys. -/
  required : Bool

/-- How far a text has been cut into tokens. -/
structure Scanner where
  cursor : Cursor
  tokens : Array Token := #[]
  /-- The column of the innermost block; less than zero outside of blocks. -/
  indent : Int := -1
  outerIndents : List Int := []
  /-- The possible key on the innermost level. -/
  key : Option PossibleKey := none
  /-- The possible keys on the outer levels, one for each flow collection around the place. -/
  outerKeys : List (Option PossibleKey) := []
  keyAllowed : Bool := true

namespace Scanner

def inFlow (s : Scanner) : Bool := !s.outerKeys.isEmpty

def push (s : Scanner) (t : Token) : Scanner := { s with tokens := s.tokens.push t }

/-- Adds a token of one character. -/
def pushOne (s : Scanner) (t : Token) : Scanner := { s.push t with cursor := s.cursor.next }

/-- Gives a possible key up, unless it has to be one. -/
def dropKey? (s : Scanner) : Option Scanner :=
  if s.key.any (·.required) then none else some { s with key := none }

/-- Remembers that a key may start here. -/
def markKey? (s : Scanner) : Option Scanner := do
  if !s.keyAllowed then return s
  let marked ← s.dropKey?
  let c := s.cursor
  return { marked with
    key := some ⟨s.tokens.size, c.index, c.line, c.column, !s.inFlow && s.indent == c.column⟩ }

/-- A key ends on the line where it starts, within 1024 characters. -/
def isStale (c : Cursor) (k : PossibleKey) : Bool := k.line < c.line || k.index + 1024 < c.index

/-- Gives up the possible keys that are too far back. -/
def dropStaleKeys? (s : Scanner) : Option Scanner :=
  let stale (k : Option PossibleKey) : Bool := k.any (isStale s.cursor)
  let keep (k : Option PossibleKey) : Option PossibleKey := if stale k then none else k
  if (s.key :: s.outerKeys).any fun k => stale k && k.any (·.required) then none
  else some { s with key := keep s.key, outerKeys := s.outerKeys.map keep }

/-- Opens a block at a column right of the innermost one, with its token at a position. -/
def openBlock (s : Scanner) (column position : Nat) (t : Token) : Scanner :=
  if s.inFlow || (column : Int) ≤ s.indent then s
  else
    { s with
      tokens := s.tokens.insertIdxIfInBounds position t
      indent := column
      outerIndents := s.indent :: s.outerIndents }

/-- Opens a block here. -/
def openBlockHere (s : Scanner) (t : Token) : Scanner :=
  s.openBlock s.cursor.column s.tokens.size t

/-- Closes the blocks right of a column, innermost first. -/
def closeBlocks : List Int → Int → Scanner → Scanner
  | outer, column, s =>
    if s.indent ≤ column then { s with outerIndents := outer }
    else
      match outer with
      | [] => { s.push .blockEnd with indent := -1, outerIndents := [] }
      | i :: outer => closeBlocks outer column { s.push .blockEnd with indent := i }

/-- Closes the blocks right of a column. Flow collections have no blocks in them. -/
def closeBlocksTo (s : Scanner) (column : Int) : Scanner :=
  if s.inFlow then s else closeBlocks s.outerIndents column s

/-! ## One token -/

/-- Passes blanks, comments and line breaks. Outside of flow collections a new line may start a key,
and no tab may stand where a key may start. -/
def skipGap : Nat → Scanner → Scanner
  | 0, s => s
  | fuel + 1, s =>
    let c := s.cursor
    let c := if c.column == 0 && c.sees '\uFEFF' then c.next else c
    let c := c.skipWhile fun x => x == ' ' || ((s.inFlow || !s.keyAllowed) && x == '\t')
    let c := c.skipComment
    if c.head?.any isBreak then
      skipGap fuel { s with cursor := c.next, keyAllowed := !s.inFlow || s.keyAllowed }
    else { s with cursor := c }

/-- The end of the text closes all blocks. -/
def finish? (s : Scanner) : Option Scanner := do
  let s ← (s.closeBlocksTo (-1)).dropKey?
  return { s.push .streamEnd with keyAllowed := false }

/-- A token at the start of a line that closes all blocks. -/
def topLevel? (s : Scanner) (token : Cursor → Option (Token × Cursor)) : Option Scanner := do
  let s ← (s.closeBlocksTo (-1)).dropKey?
  let (t, c) ← token s.cursor
  return { s.push t with cursor := c, keyAllowed := false }

def openFlow? (s : Scanner) (t : Token) : Option Scanner := do
  let s ← s.markKey?
  return { s.pushOne t with key := none, outerKeys := s.key :: s.outerKeys, keyAllowed := true }

def closeFlow? (s : Scanner) (t : Token) : Option Scanner := do
  let s ← s.dropKey?
  let s :=
    match s.outerKeys with
    | [] => s
    | k :: outer => { s with key := k, outerKeys := outer }
  return { s.pushOne t with keyAllowed := false }

def flowEntry? (s : Scanner) : Option Scanner := do
  let s ← s.dropKey?
  return { s.pushOne .flowEntry with keyAllowed := true }

def blockEntry? (s : Scanner) : Option Scanner := do
  if !s.inFlow && !s.keyAllowed then none
  else
    let s ← (s.openBlockHere .blockSequenceStart).dropKey?
    return { s.pushOne .blockEntry with keyAllowed := true }

def explicitKey? (s : Scanner) : Option Scanner := do
  if !s.inFlow && !s.keyAllowed then none
  else
    let s ← (s.openBlockHere .blockMappingStart).dropKey?
    return { s.pushOne .key with keyAllowed := !s.inFlow }

/-- A colon makes a key of the node in front of it, if that may be one. -/
def value? (s : Scanner) : Option Scanner :=
  match s.key with
  | some k =>
    let s := { s with tokens := s.tokens.insertIdxIfInBounds k.position .key }
    let s := s.openBlock k.column k.position .blockMappingStart
    some { s.pushOne .value with key := none, keyAllowed := false }
  | none =>
    if !s.inFlow && !s.keyAllowed then none
    else some { (s.openBlockHere .blockMappingStart).pushOne .value with keyAllowed := !s.inFlow }

/-- A token that belongs to a node, which may be a key. -/
def nodePart? (s : Scanner) (token : Cursor → Option (Token × Cursor)) : Option Scanner := do
  let s ← s.markKey?
  let (t, c) ← token s.cursor
  return { s.push t with cursor := c, keyAllowed := false }

def quotedScalar? (s : Scanner) : Option Scanner :=
  s.nodePart? fun c => (quoted? c).map fun (text, c) => (.scalar false text, c)

def plainScalar? (s : Scanner) : Option Scanner := do
  let s ← s.markKey?
  let (text, broken, c) ← plain? s.inFlow (s.indent + 1).toNat s.cursor
  return { s.push (.scalar true text) with cursor := c, keyAllowed := broken }

def blockScalar? (s : Scanner) : Option Scanner := do
  let s ← s.dropKey?
  let (text, c) ← block? s.indent s.cursor
  return { s.push (.scalar false text) with cursor := c, keyAllowed := true }

/-- The characters that start a token of their own. -/
def isIndicator (c : Char) : Bool :=
  ['-', '?', ':', ',', '[', ']', '\x7b', '\x7d', '#', '&', '*', '!', '|', '>', '\'', '"', '%', '@',
    '\x60'].contains c

/-- Whether a plain scalar may start with this character, given what follows it. -/
def startsPlain (inFlow : Bool) (c : Char) (cs : List Char) : Bool :=
  !(isSpace c || isIndicator c) || (c == '-' && !cs.head?.any isSpace)
    || (!inFlow && (c == '?' || c == ':') && !atGap cs)

/-- Adds the token that starts with a character. -/
def token? (s : Scanner) (x : Char) (xs : List Char) : Option Scanner :=
  let c := s.cursor
  let marker (t : Token) : Option Scanner := s.topLevel? fun c => some (t, c.skip 3)
  if c.column == 0 && x == '%' then s.topLevel? directive?
  else if c.column == 0 && atMarker '-' c.rest then marker .documentStart
  else if c.column == 0 && atMarker '.' c.rest then marker .documentEnd
  else if x == '[' then s.openFlow? .flowSequenceStart
  else if x == '\x7b' then s.openFlow? .flowMappingStart
  else if x == ']' then s.closeFlow? .flowSequenceEnd
  else if x == '\x7d' then s.closeFlow? .flowMappingEnd
  else if x == ',' then s.flowEntry?
  else if x == '-' && atGap xs then s.blockEntry?
  else if x == '?' && (s.inFlow || atGap xs) then s.explicitKey?
  else if x == ':' && (s.inFlow || atGap xs) then s.value?
  else if x == '*' then
    s.nodePart? fun c => (anchorName? c.next).map fun (name, c) => (.reference name, c)
  else if x == '&' then
    s.nodePart? fun c => (anchorName? c.next).map fun (name, c) => (.anchor name, c)
  else if x == '!' then s.nodePart? (tag? s.inFlow)
  else if (x == '|' || x == '>') && !s.inFlow then s.blockScalar?
  else if x == '\'' || x == '"' then s.quotedScalar?
  else if startsPlain s.inFlow x xs then s.plainScalar?
  else none

/-- Adds tokens up to the end of the text. -/
def run? : Nat → Scanner → Option (Array Token)
  | 0, _ => none
  | fuel + 1, s => do
    let s ← (skipGap (s.cursor.rest.length + 1) s).dropStaleKeys?
    let s := s.closeBlocksTo s.cursor.column
    match s.cursor.rest with
    | [] => (s.finish?).map (·.tokens)
    | x :: xs => run? fuel (← s.token? x xs)

end Scanner

/-- The tokens of a text, if it can be cut into tokens. -/
def tokens? (text : String) : Option (Array Token) :=
  if text.toList.all isAllowed then
    let cs := unifyBreaks text.toList
    Scanner.run? (cs.length + 1) { cursor := { rest := cs } }
  else none

end WorkflowDsl.Yaml
