import WorkflowDsl.Document.Json.Printer
import WorkflowDsl.Document.Yaml.Token

/-!
# Writing scalars

A scalar is written plain, between quotes, or as a literal block. `ScalarShape.of` looks for what
stands in the way of each, and `scalarStyle` chooses: plain or single quotes as asked for, a literal
block for a text with line feeds, and double quotes, which take any text, where these cannot be
used.
-/

namespace WorkflowDsl.Yaml

/-- Line breaks of any kind; carriage returns and next lines among them are written as escapes. -/
def isAnyBreak (c : Char) : Bool := isBreak c || c == '\r' || c == '\u0085'

/-- Whether a blank, a line break, a null character or the end comes next. -/
def beforeGap : List Char → Bool
  | [] => true
  | c :: _ => isSpace c || isAnyBreak c || c == '\x00'

/-- The characters that are written as they are. -/
def isPrintable (c : Char) : Bool :=
  let n := c.toNat
  n == 10 || (0x20 ≤ n && n ≤ 0x7E) || (0xA0 ≤ n && n ≤ 0xFFFD && n != 0xFEFF) || 0x10000 ≤ n

/-- Whether a plain scalar cannot start with this character, given what follows it. -/
def startsIndicator (c : Char) (cs : List Char) : Bool :=
  ['#', ',', '[', ']', '\x7b', '\x7d', '&', '*', '!', '|', '>', '\'', '"', '%', '@',
    '\x60'].contains c
    || ((c == '?' || c == ':' || c == '-') && beforeGap cs)

/-- Whether a colon ends a word, or a hash sign starts one, behind the first character. -/
def hasInnerIndicator : Char → List Char → Bool
  | _, [] => false
  | before, c :: cs =>
    (c == ':' && beforeGap cs) || (c == '#' && beforeGap [before]) || hasInnerIndicator c cs

/-- Whether a plain scalar with these characters would be cut or taken for something else. -/
def hasIndicator : List Char → Bool
  | [] => false
  | c :: cs =>
    startsIndicator c cs || hasInnerIndicator c cs
      || ['-', '-', '-'].isPrefixOf (c :: cs) || ['.', '.', '.'].isPrefixOf (c :: cs)

/-- Whether a character of one kind comes directly before one of another. -/
def hasPair (p q : Char → Bool) : List Char → Bool
  | [] => false
  | c :: cs => (p c && cs.head?.any q) || hasPair p q cs

/-- Which ways of writing a text are possible. -/
structure ScalarShape where
  multiline : Bool
  plainAllowed : Bool
  singleQuotedAllowed : Bool
  literalAllowed : Bool
deriving DecidableEq, Repr

def ScalarShape.of (cs : List Char) : ScalarShape :=
  if cs.isEmpty then ⟨false, true, true, false⟩
  else
    let isBlank (c : Char) : Bool := c == ' '
    let isEdge (c : Option Char) : Bool := c.any fun c => isBlank c || isAnyBreak c
    let multiline := cs.any isAnyBreak
    let breakThenBlank := hasPair isAnyBreak isBlank cs
    let opaqueText := hasPair isBlank isAnyBreak cs || cs.any (!isPrintable ·)
    { multiline
      plainAllowed := !(isEdge cs.head? || isEdge cs.getLast? || multiline || opaqueText
        || hasIndicator cs)
      singleQuotedAllowed := !(breakThenBlank || opaqueText)
      literalAllowed := !(cs.getLast?.any isBlank || opaqueText) }

/-- The ways of writing a scalar. -/
inductive ScalarStyle where
  | plain
  | singleQuoted
  | doubleQuoted
  | literal
deriving DecidableEq, Repr

/-- Chooses a style. A simple key stands on one line and is not empty without quotes. -/
def scalarStyle (simpleKey plain : Bool) (cs : List Char) : ScalarStyle :=
  let shape := ScalarShape.of cs
  if simpleKey && shape.multiline then .doubleQuoted
  else if !plain && cs.contains '\n' then
    if shape.literalAllowed && !simpleKey then .literal else .doubleQuoted
  else if plain && shape.plainAllowed && !(simpleKey && cs.isEmpty) then .plain
  else if shape.singleQuotedAllowed then .singleQuoted
  else .doubleQuoted

/-! ## The text of a style -/

def blanks (n : Nat) : List Char := List.replicate n ' '

/-- Text between single quotes. The first of several line feeds is written twice, and the line
behind breaks is indented. -/
def singleQuotedText (indent : Nat) : Bool → List Char → List Char
  | afterBreak, [] => if afterBreak then blanks indent else []
  | afterBreak, c :: cs =>
    if c == ' ' then c :: singleQuotedText indent afterBreak cs
    else if isAnyBreak c then
      (if !afterBreak && c == '\n' then ['\n'] else []) ++ c :: singleQuotedText indent true cs
    else
      (if afterBreak then blanks indent else []) ++ (if c == '\'' then ['\''] else [])
        ++ c :: singleQuotedText indent false cs

/-- Escapes of one letter. -/
def letterEscape? (c : Char) : Option Char :=
  [('\x00', '0'), ('\x07', 'a'), ('\x08', 'b'), ('\t', 't'), ('\n', 'n'), ('\x0b', 'v'),
    ('\x0c', 'f'), ('\r', 'r'), ('\x1b', 'e'), ('"', '"'), ('\\', '\\'), ('\u0085', 'N'),
    ('\u00a0', '_'), ('\u2028', 'L'), ('\u2029', 'P')].lookup c

/-- An escape with two, four or eight upper case digits. -/
def numericEscape (c : Char) : List Char :=
  let n := c.toNat
  let (mark, width) := if n ≤ 0xFF then ('x', 2) else if n ≤ 0xFFFF then ('u', 4) else ('U', 8)
  mark :: (Json.hexText width n).toList.map Char.toUpper

/-- A character between double quotes. -/
def doubleQuotedChar (c : Char) : List Char :=
  if !isPrintable c || isBreak c || c == '"' || c == '\\' then
    '\\' :: ((letterEscape? c).map fun l => [l]).getD (numericEscape c)
  else [c]

/-- The indicators of a literal block: its indentation where the first line starts with a blank or
is empty, and what becomes of its last line breaks. -/
def literalHeader (cs : List Char) : List Char :=
  let indentation := if cs.head?.any fun c => c == ' ' || isBreak c then ['2'] else []
  let chomping :=
    match cs.reverse with
    | [] => ['-']
    | [c] => if isBreak c then ['+'] else ['-']
    | c :: d :: _ => if !isBreak c then ['-'] else if isBreak d then ['+'] else []
  '|' :: (indentation ++ chomping)

/-- The lines of a literal block. Empty lines are not indented. -/
def literalLines (indent : Nat) : Bool → List Char → List Char
  | _, [] => []
  | afterBreak, c :: cs =>
    if isBreak c then c :: literalLines indent true cs
    else (if afterBreak then blanks indent else []) ++ c :: literalLines indent false cs

/-- The text of a scalar whose further lines are indented. -/
def scalarText (simpleKey plain : Bool) (indent : Nat) (text : String) : String :=
  let cs := text.toList
  match scalarStyle simpleKey plain cs with
  | .plain => text
  | .singleQuoted => String.ofList ('\'' :: singleQuotedText indent false cs ++ ['\''])
  | .doubleQuoted => String.ofList ('"' :: cs.flatMap doubleQuotedChar ++ ['"'])
  | .literal => String.ofList (literalHeader cs ++ '\n' :: literalLines indent true cs)

end WorkflowDsl.Yaml
