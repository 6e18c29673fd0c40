import WorkflowDsl.Document.Yaml.Token

/-!
# Tags, anchors and directives in a text

A tag is written with a handle and a suffix, or between angle brackets. Percent signs in it stand
for the bytes of a character.
-/

namespace WorkflowDsl.Yaml

/-- The characters of a tag, besides those of words and percent signs. -/
def isTagChar (c : Char) : Bool :=
  [';', '/', '?', ':', '@', '&', '=', '+', '$', '.', '!', '~', '*', '\'', '(', ')'].contains c

/-- The byte that a percent sign and two digits denote. -/
def percentByte? : List Char → Option Nat
  | '%' :: a :: b :: _ => do
    let a ← if isHex a then some a else none
    let b ← if isHex b then some b else none
    some (value a * 16 + value b)
  | _ => none
where
  isHex (c : Char) : Bool := c.isDigit || ('a' ≤ c && c ≤ 'f') || ('A' ≤ c && c ≤ 'F')
  value (c : Char) : Nat :=
    if c.isDigit then c.toNat - 48 else if c.isLower then c.toNat - 87 else c.toNat - 55

/-- The number of bytes of a character by its first byte, and the bits that the byte adds. -/
def leadByte? (b : Nat) : Option (Nat × Nat) :=
  if b < 0x80 then some (1, b)
  else if 0xC0 ≤ b && b < 0xE0 then some (2, b - 0xC0)
  else if 0xE0 ≤ b && b < 0xF0 then some (3, b - 0xE0)
  else if 0xF0 ≤ b && b < 0xF8 then some (4, b - 0xF0)
  else none

/-- Adds the bits of further bytes of a character. -/
def furtherBytes? : Nat → Nat → List Char → Option Nat
  | 0, value, _ => some value
  | n + 1, value, cs => do
    let b ← percentByte? cs
    if 0x80 ≤ b && b < 0xC0 then furtherBytes? n (value * 64 + (b - 0x80)) (cs.drop 3) else none

/-- A character written as bytes, and the length of its writing. -/
def percentChar? (cs : List Char) : Option (Char × Nat) := do
  let (count, bits) ← leadByte? (← percentByte? cs)
  let value ← furtherBytes? (count - 1) bits (cs.drop 3)
  some (Char.ofNat value, 3 * count)

/-- The characters of a tag from a place on, in front of those read before and in reverse. Some flow
indicators may stand between angle brackets and in prefixes. -/
def tagChars? (verbatim : Bool) : Nat → List Char → Cursor → Option (List Char × Cursor)
  | 0, _, _ => none
  | fuel + 1, read, c =>
    match c.rest with
    | [] => some (read, c)
    | x :: _ =>
      if x == '%' then do
        let (y, length) ← percentChar? c.rest
        tagChars? verbatim fuel (y :: read) (c.skip length)
      else if isWordChar x || isTagChar x || (verbatim && (x == ',' || x == '[' || x == ']')) then
        tagChars? verbatim fuel (x :: read) c.next
      else some (read, c)

/-- The characters of a tag or a prefix, of which `start` has been read. It is not empty. -/
def tagText? (verbatim : Bool) (start : List Char) (c : Cursor) : Option (String × Cursor) := do
  let (read, c) ← tagChars? verbatim (c.rest.length + 1) start.reverse c
  some (String.ofList read.reverse, c)

/-- A handle: an exclamation mark, a word, and maybe another exclamation mark. -/
def tagHandle? (c : Cursor) : Option (List Char × Cursor) :=
  if !c.sees '!' then none
  else
    let word := '!' :: c.next.rest.takeWhile isWordChar
    let c := c.skip word.length
    if c.sees '!' then some (word ++ ['!'], c.next) else some (word, c)

/-- Whether a handle is one that a suffix follows, other than the single exclamation mark. -/
def isNamedHandle (handle : List Char) : Bool :=
  2 ≤ handle.length && handle.getLast? == some '!'

/-- The tag at a place. The tag that is a single exclamation mark has no handle. -/
def tag? (inFlow : Bool) (c : Cursor) : Option (Token × Cursor) := do
  let (token, c) ←
    if c.next.sees '<' then do
      let (text, c) ← tagText? true [] (c.skip 2)
      if text.isEmpty || !c.sees '>' then none else some (Token.tag "" text, c.next)
    else do
      let (handle, c) ← tagHandle? c
      if isNamedHandle handle then do
        let (suffix, c) ← tagText? false [] c
        if suffix.isEmpty then none else some (Token.tag (String.ofList handle) suffix, c)
      else do
        let (suffix, c) ← tagText? false (handle.drop 1) c
        some (if suffix.isEmpty then (Token.tag "" "!", c) else (Token.tag "!" suffix, c))
  if atGap c.rest || (inFlow && c.sees ',') then some (token, c) else none

/-- The name of an anchor behind its indicator. -/
def anchorName? (c : Cursor) : Option (String × Cursor) :=
  let word := c.rest.takeWhile isWordChar
  let c := c.skip word.length
  let ends := atGap c.rest || c.head?.any ['?', ':', ',', ']', '\x7d', '%', '@', '\x60'].contains
  if word.isEmpty || !ends then none else some (String.ofList word, c)

/-! ## Directives -/

/-- A number of at most nine digits. -/
def versionNumber? (c : Cursor) : Option (Nat × Cursor) :=
  let digits := c.rest.takeWhile Char.isDigit
  if digits.isEmpty || 9 < digits.length then none
  else some (digits.foldl (fun n x => n * 10 + (x.toNat - 48)) 0, c.skip digits.length)

def versionDirective? (c : Cursor) : Option (Token × Cursor) := do
  let (major, c) ← versionNumber? (c.skipWhile isSpace)
  if !c.sees '.' then none
  else
    let (minor, c) ← versionNumber? c.next
    some (.versionDirective major minor, c)

def tagDirective? (c : Cursor) : Option (Token × Cursor) := do
  let (handle, c) ← tagHandle? (c.skipWhile isSpace)
  if handle != ['!'] && !isNamedHandle handle then none
  else if !c.head?.any isSpace then none
  else
    let (start, c) ← tagText? true [] (c.skipWhile isSpace)
    if start.isEmpty || !atGap c.rest then none
    else some (.tagDirective (String.ofList handle) start, c)

/-- The directive at a place, with its line. -/
def directive? (c : Cursor) : Option (Token × Cursor) := do
  let word := c.next.rest.takeWhile isWordChar
  let c := c.skip (word.length + 1)
  if !atGap c.rest then none
  else
    let (token, c) ←
      if word == "YAML".toList then versionDirective? c
      else if word == "TAG".toList then tagDirective? c
      else none
    (c.endLine?).map (token, ·)

end WorkflowDsl.Yaml
