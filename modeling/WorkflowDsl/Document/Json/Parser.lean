import WorkflowDsl.Document.Node

/-!
# Reading JSON

`parse?` reads a text as one JSON value with blanks around it. A repeated key of a mapping keeps
its first place and its last value. At most 127 sequences and mappings stand inside each other.

A number without fraction and exponent that fits 64 bits, signed or not, is an integer. Any other
number takes up to 64 bits of leading digits as its significand, drops the rest, and scales it by a
power of ten in floating point; a number too large for that is refused.
-/

namespace WorkflowDsl.Json

/-- Blanks between the tokens of a text. -/
def isBlank (c : Char) : Bool := c == ' ' || c == '\n' || c == '\t' || c == '\r'

def skipBlanks (cs : List Char) : List Char := cs.dropWhile isBlank

def hexValue? (c : Char) : Option Nat :=
  if c.isDigit then some (c.toNat - 48)
  else if 'a' ≤ c && c ≤ 'f' then some (c.toNat - 87)
  else if 'A' ≤ c && c ≤ 'F' then some (c.toNat - 55)
  else none

/-- The number that four hexadecimal digits denote, and what follows them. -/
def hexQuad? : List Char → Option (Nat × List Char)
  | a :: b :: c :: d :: rest => do
    let a ← hexValue? a
    let b ← hexValue? b
    let c ← hexValue? c
    let d ← hexValue? d
    some (((a * 16 + b) * 16 + c) * 16 + d, rest)
  | _ => none

/-- The character of an escape, given what follows its backslash. Two units of a surrogate pair
make one character; a surrogate on its own is refused. -/
def escaped? : List Char → Option (Char × List Char)
  | '"' :: rest => some ('"', rest)
  | '\\' :: rest => some ('\\', rest)
  | '/' :: rest => some ('/', rest)
  | 'b' :: rest => some ('\x08', rest)
  | 'f' :: rest => some ('\x0c', rest)
  | 'n' :: rest => some ('\n', rest)
  | 'r' :: rest => some ('\r', rest)
  | 't' :: rest => some ('\t', rest)
  | 'u' :: rest => do
    let (unit, rest) ← hexQuad? rest
    if 0xDC00 ≤ unit && unit ≤ 0xDFFF then none
    else if 0xD800 ≤ unit && unit ≤ 0xDBFF then
      match rest with
      | '\\' :: 'u' :: rest => do
        let (low, rest) ← hexQuad? rest
        if 0xDC00 ≤ low && low ≤ 0xDFFF then
          some (Char.ofNat (0x10000 + (unit - 0xD800) * 0x400 + (low - 0xDC00)), rest)
        else none
      | _ => none
    else some (Char.ofNat unit, rest)
  | _ => none

/-- The rest of a string whose opening quote has been read, and what follows its closing quote. -/
def stringTail? : Nat → List Char → List Char → Option (String × List Char)
  | 0, _, _ => none
  | _ + 1, _, [] => none
  | fuel + 1, read, c :: rest =>
    if c == '"' then some (String.ofList read.reverse, rest)
    else if c == '\\' then do
      let (c, rest) ← escaped? rest
      stringTail? fuel (c :: read) rest
    else if c.toNat < 32 then none
    else stringTail? fuel (c :: read) rest

/-- The greatest natural number of 64 bits. -/
def maxSignificand : Nat := UInt64.size - 1

/-- Reads digits into the significand as long as it stays within 64 bits. Returns it, the number
of digits read, and the rest. -/
def significand : Nat → Nat → List Char → Nat × Nat × List Char
  | value, count, c :: rest =>
    if c.isDigit && value * 10 + (c.toNat - 48) ≤ maxSignificand then
      significand (value * 10 + (c.toNat - 48)) (count + 1) rest
    else (value, count, c :: rest)
  | value, count, [] => (value, count, [])

/-- The power of ten nearest to `10 ^ n`. -/
def powerOfTen (n : Nat) : Float := Float.ofScientific 1 false n

/-- Scales a significand by a power of ten, in steps of at most `10 ^ 308`. -/
def scaled? : Nat → Float → Int → Option Float
  | 0, _, _ => none
  | fuel + 1, f, exponent =>
    if exponent.natAbs ≤ 308 then
      if 0 ≤ exponent then
        let product := f * powerOfTen exponent.natAbs
        if product.isInf then none else some product
      else some (f / powerOfTen exponent.natAbs)
    else if f == 0 then some f
    else if 0 ≤ exponent then none
    else scaled? fuel (f / powerOfTen 308) (exponent + 308)

/-- The number with the given sign, significand and decimal exponent. -/
def float? (negative : Bool) (value : Nat) (exponent : Int) : Option Number := do
  let magnitude ← scaled? 5 (Float.ofScientific value false 0) (max exponent (-2000))
  some (.float (.ofFloat (if negative then -magnitude else magnitude)))

/-- The exponent part after its mark, for a number that already has a decimal exponent. -/
def exponentTail? (negative : Bool) (value : Nat) (start : Int) (cs : List Char) :
    Option (Number × List Char) := do
  let (down, cs) := match cs with
    | '+' :: rest => (false, rest)
    | '-' :: rest => (true, rest)
    | _ => (false, cs)
  let digits := cs.takeWhile Char.isDigit
  let rest := cs.dropWhile Char.isDigit
  if digits.isEmpty then none
  else
    let shift : Nat := digits.foldl (fun n c => n * 10 + (c.toNat - 48)) 0
    if shift ≤ 2147483647 then
      let n ← float? negative value (if down then start - shift else start + shift)
      some (n, rest)
    else if value != 0 && !down then none
    else some (.float (.ofFloat (if negative then -0.0 else 0.0)), rest)

/-- What may follow the digits of a number whose value is a floating point number. -/
def floatTail? (negative : Bool) (value : Nat) (exponent : Int) (cs : List Char) :
    Option (Number × List Char) :=
  match cs with
  | c :: rest =>
    if c == 'e' || c == 'E' then exponentTail? negative value exponent rest
    else (float? negative value exponent).map (·, c :: rest)
  | [] => (float? negative value exponent).map (·, [])

/-- The digits after a decimal point; digits beyond the significand's 64 bits are dropped. -/
def fractionTail? (negative : Bool) (value : Nat) (exponent : Int) (cs : List Char) :
    Option (Number × List Char) :=
  if !(cs.head?.any Char.isDigit) then none
  else
    let (value, count, rest) := significand value 0 cs
    floatTail? negative value (exponent - count) (rest.dropWhile Char.isDigit)

/-- An integer of 64 bits, signed or not; any other one, and minus zero, is a float. -/
def integer (negative : Bool) (value : Nat) : Number :=
  if !negative then .int value
  else if value == 0 || 0x8000000000000000 < value then
    .float (.ofFloat (-(Float.ofScientific value false 0)))
  else .int (-value)

/-- A number after its sign. -/
def unsigned? (negative : Bool) (cs : List Char) : Option (Number × List Char) :=
  let (value, count, rest) := significand 0 0 cs
  if count == 0 || (cs.head? == some '0' && 1 < count) then none
  else
    -- digits that do not fit the significand only scale it
    let dropped := (rest.takeWhile Char.isDigit).length
    let rest := rest.dropWhile Char.isDigit
    match rest with
    | '.' :: tail => fractionTail? negative value dropped tail
    | c :: tail =>
      if c == 'e' || c == 'E' then exponentTail? negative value dropped tail
      else if 0 < dropped then (float? negative value dropped).map (·, c :: tail)
      else some (integer negative value, c :: tail)
    | [] =>
      if 0 < dropped then (float? negative value dropped).map (·, [])
      else some (integer negative value, [])

/-- The rest of a text that starts with the given word. -/
def word? (word : List Char) (cs : List Char) : Option (List Char) :=
  if word.isPrefixOf cs then some (cs.drop word.length) else none

mutual

/-- One value, and what follows it. `levels` bounds the nesting, `fuel` the steps. -/
def value? (levels : Nat) : Nat → List Char → Option (Node × List Char)
  | 0, _ => none
  | fuel + 1, cs =>
    match skipBlanks cs with
    | 'n' :: rest => (word? ['u', 'l', 'l'] rest).map (.null, ·)
    | 't' :: rest => (word? ['r', 'u', 'e'] rest).map (.bool true, ·)
    | 'f' :: rest => (word? ['a', 'l', 's', 'e'] rest).map (.bool false, ·)
    | '"' :: rest => (stringTail? fuel [] rest).map fun (s, rest) => (.string s, rest)
    | '[' :: rest =>
      if levels ≤ 1 then none
      else match skipBlanks rest with
        | ']' :: rest => some (.sequence [], rest)
        | _ => (items? (levels - 1) fuel rest).map fun (ns, rest) => (.sequence ns, rest)
    | '\x7b' :: rest =>
      if levels ≤ 1 then none
      else match skipBlanks rest with
        | '\x7d' :: rest => some (.mapping [], rest)
        | _ => (entries? (levels - 1) fuel rest).map fun (es, rest) =>
          (.mapping (Entries.ofList es), rest)
    | '-' :: rest => (unsigned? true rest).map fun (n, rest) => (.number n, rest)
    | rest => (unsigned? false rest).map fun (n, rest) => (.number n, rest)

/-- The items of a sequence, to behind its closing bracket. -/
def items? (levels : Nat) : Nat → List Char → Option (List Node × List Char)
  | 0, _ => none
  | fuel + 1, cs => do
    let (n, rest) ← value? levels fuel cs
    match skipBlanks rest with
    | ']' :: rest => some ([n], rest)
    | ',' :: rest =>
      let (ns, rest) ← items? levels fuel rest
      some (n :: ns, rest)
    | _ => none

/-- The entries of a mapping as they stand, to behind its closing brace. -/
def entries? (levels : Nat) : Nat → List Char → Option (List (String × Node) × List Char)
  | 0, _ => none
  | fuel + 1, cs =>
    match skipBlanks cs with
    | '"' :: rest => do
      let (key, rest) ← stringTail? fuel [] rest
      match skipBlanks rest with
      | ':' :: rest =>
        let (n, rest) ← value? levels fuel rest
        match skipBlanks rest with
        | '\x7d' :: rest => some ([(key, n)], rest)
        | ',' :: rest =>
          let (es, rest) ← entries? levels fuel rest
          some ((key, n) :: es, rest)
        | _ => none
      | _ => none
    | _ => none

end

/-- The value that a text holds, if it is a JSON text. -/
def parse? (text : String) : Option Node := do
  let cs := text.toList
  let (n, rest) ← value? 128 (2 * cs.length + 2) cs
  if (skipBlanks rest).isEmpty then some n else none

end WorkflowDsl.Json
