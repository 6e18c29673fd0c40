import WorkflowDsl.Document.Yaml.Token

/-!
# Scalars in a text

A scalar is plain, quoted or a block. Between the words of plain and quoted scalars a single line
break counts as a blank, and of several line breaks the first is dropped. The lines of a block
scalar keep their breaks, or fold in the same way if the block is introduced by `>`.
-/

namespace WorkflowDsl.Yaml

/-- What blanks and line breaks between two words come to. Blanks around line breaks do not count;
`escaped` says that a backslash already took the first line break. -/
def foldGap (escaped : Bool) (gap : List Char) : List Char :=
  let breaks := gap.filter isBreak
  if escaped then breaks
  else
    match breaks with
    | [] => gap
    | b :: more => if b != '\n' then b :: more else if more.isEmpty then [' '] else more

/-! ## Quoted scalars -/

/-- The number of hexadecimal digits after the letter of an escape. -/
def escapeWidth? (c : Char) : Option Nat :=
  if c == 'x' then some 2 else if c == 'u' then some 4 else if c == 'U' then some 8 else none

def shortEscape? (c : Char) : Option Char :=
  [('0', '\x00'), ('a', '\x07'), ('b', '\x08'), ('t', '\t'), ('\t', '\t'), ('n', '\n'),
    ('v', '\x0b'), ('f', '\x0c'), ('r', '\r'), ('e', '\x1b'), (' ', ' '), ('"', '"'), ('/', '/'),
    ('\\', '\\'), ('N', '\u0085'), ('_', '\u00a0'), ('L', '\u2028'), ('P', '\u2029')].lookup c

def hexDigitValue? (c : Char) : Option Nat :=
  if c.isDigit then some (c.toNat - 48)
  else if 'a' ≤ c && c ≤ 'f' then some (c.toNat - 87)
  else if 'A' ≤ c && c ≤ 'F' then some (c.toNat - 55)
  else none

/-- The number that digits denote, if there are as many as wanted. -/
def hexNumber? (width : Nat) (cs : List Char) : Option Nat :=
  if cs.length < width then none
  else ((cs.take width).mapM hexDigitValue?).map (·.foldl (fun n d => n * 16 + d) 0)

/-- The character of an escape, given what follows its backslash, and the length of the escape
without the backslash. -/
def escape? : List Char → Option (Char × Nat)
  | [] => none
  | c :: cs =>
    match escapeWidth? c with
    | none => (shortEscape? c).map (·, 1)
    | some width => do
      let n ← hexNumber? width cs
      if (0xD800 ≤ n && n ≤ 0xDFFF) || 0x10FFFF < n then none
      else some (Char.ofNat n, width + 1)

/-- Reads on to a blank, a line break or the closing quote. Returns the characters read, in front of
those read before and in reverse, and whether a backslash took a line break. -/
def quotedWord? (double : Bool) : Nat → List Char → Cursor → Option (List Char × Bool × Cursor)
  | 0, _, _ => none
  | fuel + 1, read, c =>
    match c.rest with
    | [] => some (read, false, c)
    | x :: cs =>
      if isSpace x || isBreak x then some (read, false, c)
      else if !double && x == '\'' then
        if cs.head? == some '\'' then quotedWord? double fuel ('\'' :: read) (c.skip 2)
        else some (read, false, c)
      else if double && x == '"' then some (read, false, c)
      else if double && x == '\\' then
        if cs.head?.any isBreak then some (read, true, c.skip 2)
        else do
          let (y, length) ← escape? cs
          quotedWord? double fuel (y :: read) (c.skip (length + 1))
      else quotedWord? double fuel (x :: read) c.next

/-- Reads a quoted scalar behind its opening quote. -/
def quotedTail? (double : Bool) : Nat → List Char → Cursor → Option (String × Cursor)
  | 0, _, _ => none
  | fuel + 1, read, c =>
    if c.atDocumentMarker || c.rest.isEmpty then none
    else do
      let (read, escaped, c) ← quotedWord? double (c.rest.length + 1) read c
      if c.sees (if double then '"' else '\'') then some (String.ofList read.reverse, c.next)
      else
        let gap := c.rest.takeWhile fun x => isSpace x || isBreak x
        quotedTail? double fuel ((foldGap escaped gap).reverse ++ read) (c.skip gap.length)

/-- The quoted scalar at a place. -/
def quoted? (c : Cursor) : Option (String × Cursor) :=
  quotedTail? (c.sees '"') (c.rest.length + 1) [] c.next

/-! ## Plain scalars -/

/-- The indicators of flow collections. -/
def isFlowIndicator (c : Char) : Bool := [',', '[', ']', '\x7b', '\x7d'].contains c

/-- A word of a plain scalar. In flow collections no indicator may follow a colon directly. -/
def plainWord? (inFlow : Bool) : List Char → Option (List Char)
  | [] => some []
  | c :: cs =>
    if isSpace c || isBreak c then some []
    else if inFlow && c == ':' && cs.head?.any (fun x => isFlowIndicator x || x == '?') then none
    else if c == ':' && atGap cs then some []
    else if inFlow && isFlowIndicator c then some []
    else (plainWord? inFlow cs).map (c :: ·)

/-- Whether a tab stands left of the column `indent` in a text that starts at `column`. -/
def hasTabLeftOf (indent : Nat) : Nat → List Char → Bool
  | _, [] => false
  | column, c :: cs =>
    if isBreak c then hasTabLeftOf indent 0 cs
    else (c == '\t' && column < indent) || hasTabLeftOf indent (column + 1) cs

/-- Reads words of a plain scalar whose further lines stand at `indent` or right of it. `gap` is
what stands before the next word. Also says whether line breaks come behind the scalar. -/
def plainTail? (inFlow : Bool) (indent : Nat) :
    Nat → List Char → List Char → Cursor → Option (String × Bool × Cursor)
  | 0, _, _, _ => none
  | fuel + 1, read, gap, c =>
    let done : Option (String × Bool × Cursor) :=
      some (String.ofList read.reverse, gap.any isBreak, c)
    if c.atDocumentMarker || c.sees '#' then done
    else do
      let word ← plainWord? inFlow c.rest
      if word.isEmpty then done
      else
        let read := word.reverse ++ (foldGap false gap).reverse ++ read
        let c := c.skip word.length
        let gap := c.rest.takeWhile fun x => isSpace x || isBreak x
        if hasTabLeftOf indent 0 (gap.dropWhile isSpace) then none
        else
          let c := c.skip gap.length
          if gap.isEmpty || (!inFlow && c.column < indent) then
            some (String.ofList read.reverse, gap.any isBreak, c)
          else plainTail? inFlow indent fuel read gap c

/-- The plain scalar at a place, and whether line breaks come behind it. -/
def plain? (inFlow : Bool) (indent : Nat) (c : Cursor) : Option (String × Bool × Cursor) :=
  plainTail? inFlow indent (c.rest.length + 1) [] [] c

/-! ## Block scalars -/

/-- What becomes of the line breaks at the end of a block scalar. -/
inductive Chomping where
  | strip | clip | keep
deriving DecidableEq, Repr

def chomping? (c : Char) : Option Chomping :=
  if c == '-' then some .strip else if c == '+' then some .keep else none

/-- The indicators in front of a block scalar: chomping and an indentation other than zero, in any
order, then the end of the line. -/
def blockHeader? (c : Cursor) : Option (Chomping × Option Nat × Cursor) :=
  let first := c.head?.bind chomping?
  let c := if first.isSome then c.next else c
  let digit := c.head?.bind fun x => if x.isDigit then some (x.toNat - 48) else none
  let c := if digit.isSome then c.next else c
  let last := if first.isSome || digit.isNone then none else c.head?.bind chomping?
  let c := if last.isSome then c.next else c
  if digit == some 0 then none
  else c.endLine?.map fun c => ((first.orElse fun _ => last).getD .clip, digit, c)

/-- Passes empty lines and the indentation of the next line. Returns the breaks in front of those
passed before and in reverse, and the widest indentation. An `indent` of zero is not known yet. -/
def emptyLines? (indent : Nat) :
    Nat → Nat → List Char → Cursor → Option (List Char × Nat × Cursor)
  | 0, _, _, _ => none
  | fuel + 1, widest, breaks, c =>
    let spaces := (c.rest.takeWhile (· == ' ')).length
    let c := c.skip (if indent == 0 then spaces else min spaces (indent - c.column))
    let widest := max widest c.column
    match c.rest with
    | [] => some (breaks, widest, c)
    | x :: _ =>
      if x == '\t' && (indent == 0 || c.column < indent) then none
      else if isBreak x then emptyLines? indent fuel widest (x :: breaks) c.next
      else some (breaks, widest, c)

/-- The lines of a block scalar: its text in reverse, the break of its last line, and the breaks of
the empty lines behind, in reverse. `afterBlank` says that the line before starts with a blank. -/
def blockLines? (literal : Bool) (indent : Nat) :
    Nat → List Char → List Char → List Char → Bool → Cursor →
      Option (List Char × List Char × List Char × Cursor)
  | 0, _, _, _, _, _ => none
  | fuel + 1, read, lineBreak, breaks, afterBlank, c =>
    if c.rest.isEmpty || c.column != indent then some (read, lineBreak, breaks, c)
    else do
      let startsBlank := c.head?.any isSpace
      let folds := !literal && lineBreak == ['\n'] && !afterBlank && !startsBlank
      let joint :=
        if !folds then breaks ++ lineBreak else if breaks.isEmpty then [' '] else breaks
      let line := c.rest.takeWhile (!isBreak ·)
      let c := c.skip line.length
      let lineBreak := c.head?.toList
      let (breaks, _, c) ← emptyLines? indent (c.rest.length + 1) 0 [] c.next
      blockLines? literal indent fuel (line.reverse ++ joint ++ read) lineBreak breaks startsBlank c

/-- The block scalar at a place, inside a block that stands at column `outer`. -/
def block? (outer : Int) (c : Cursor) : Option (String × Cursor) := do
  let literal := c.sees '|'
  let (chomping, increment, c) ← blockHeader? c.next
  let given := (increment.map fun n => n + outer.toNat).getD 0
  let (breaks, widest, c) ← emptyLines? given (c.rest.length + 1) 0 [] c
  let indent := if given == 0 then max widest (max (outer + 1).toNat 1) else given
  let (read, lineBreak, breaks, c) ←
    blockLines? literal indent (c.rest.length + 1) [] [] breaks false c
  let tail :=
    match chomping with
    | .strip => []
    | .clip => lineBreak
    | .keep => breaks ++ lineBreak
  some (String.ofList (tail ++ read).reverse, c)

end WorkflowDsl.Yaml
