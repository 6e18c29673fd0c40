import WorkflowDsl.Document.Node

/-!
# Plain scalars

A plain scalar of a YAML text means a null, a boolean, a number or a text by its spelling alone.
`Plain.ofText` reads the spelling. Integers are written in decimal, or after `0x`, `0o` and `0b` in
the bases sixteen, eight and two; a decimal that starts with a superfluous zero is a text.
-/

namespace WorkflowDsl.Yaml

/-- What a plain scalar means. -/
inductive Plain where
  | null
  | bool (value : Bool)
  /-- An integer of 64 bits, signed or not. -/
  | integer (value : Int)
  /-- An integer beyond 64 bits but of at most 128 bits. -/
  | wideInteger
  | float (value : Binary64)
  | text
deriving DecidableEq, Repr

namespace Plain

def isNull (s : String) : Bool := ["null", "Null", "NULL", "~"].contains s

def bool? (s : String) : Option Bool :=
  if ["true", "True", "TRUE"].contains s then some true
  else if ["false", "False", "FALSE"].contains s then some false
  else none

/-- The rest of a text without one sign in front. -/
def withoutSign : List Char → List Char
  | '+' :: cs => cs
  | '-' :: cs => cs
  | cs => cs

/-- Several digits of which the first is a zero, after an optional sign. -/
def hasLeadingZero (s : String) : Bool :=
  match withoutSign s.toList with
  | '0' :: c :: cs => (c :: cs).all Char.isDigit
  | _ => false

def digitValue (c : Char) : Nat :=
  if c.isDigit then c.toNat - 48 else if c.isLower then c.toNat - 87 else c.toNat - 55

def isDigitOf (base : Nat) (c : Char) : Bool :=
  (c.isDigit || ('a' ≤ c && c ≤ 'f') || ('A' ≤ c && c ≤ 'F')) && digitValue c < base

/-- The natural number that digits of a base denote. -/
def natural? (base : Nat) (cs : List Char) : Option Nat :=
  if !cs.isEmpty && cs.all (isDigitOf base) then
    some (cs.foldl (fun n c => n * base + digitValue c) 0)
  else none

/-- The base that a mark in front of digits selects, and the digits. -/
def based : List Char → Nat × List Char
  | '0' :: 'x' :: cs => (16, cs)
  | '0' :: 'o' :: cs => (8, cs)
  | '0' :: 'b' :: cs => (2, cs)
  | cs => (10, cs)

/-- The integer that a text spells. -/
def integer? (s : String) : Option Int :=
  let magnitude (cs : List Char) : Option Nat := natural? (based cs).1 (based cs).2
  if hasLeadingZero s then none
  else
    match s.toList with
    | '-' :: cs => (magnitude cs).map fun n => -(n : Int)
    | '+' :: cs => (magnitude cs).map Int.ofNat
    | cs => (magnitude cs).map Int.ofNat

/-- Digits, at most one point among them, and their exponent. -/
def mantissa? (cs : List Char) : Option Decimal :=
  let whole := cs.takeWhile Char.isDigit
  match cs.dropWhile Char.isDigit with
  | [] => (natural? 10 whole).map (⟨·, 0⟩)
  | '.' :: fraction =>
    if fraction.all Char.isDigit then
      (natural? 10 (whole ++ fraction)).map (⟨·, -(fraction.length : Int)⟩)
    else none
  | _ => none

def isExponentMark (c : Char) : Bool := c == 'e' || c == 'E'

/-- The exponent after its mark; none stands for zero. -/
def exponent? : List Char → Option Int
  | [] => some 0
  | _ :: '-' :: cs => (natural? 10 cs).map fun n => -(n : Int)
  | _ :: cs => (natural? 10 (if cs.head? == some '+' then cs.drop 1 else cs)).map Int.ofNat

/-- The finite number that a decimal without sign spells. -/
def decimal? (cs : List Char) : Option Float := do
  let m ← mantissa? (cs.takeWhile (!isExponentMark ·))
  let e ← exponent? (cs.dropWhile (!isExponentMark ·))
  -- the value is below `10 ^ point`, and not below `10 ^ (point - 1)` unless it is zero
  let point : Int := (toString m.digits).length + m.exponent + e
  if m.digits == 0 || point < -400 then some 0
  else if 400 < point then none
  else
    let f := (Binary64.ofDecimal ⟨m.digits, m.exponent + e⟩).toFloat
    if f.isInf then none else some f

/-- The floating point number that a text spells. One too large for it spells none. -/
def float? (s : String) : Option Binary64 :=
  if [".inf", ".Inf", ".INF", "+.inf", "+.Inf", "+.INF"].contains s then
    some (.ofFloat (1.0 / 0.0))
  else if ["-.inf", "-.Inf", "-.INF"].contains s then some (.ofFloat (-1.0 / 0.0))
  else if [".nan", ".NaN", ".NAN"].contains s then some (.ofFloat (0.0 / 0.0))
  else
    match s.toList with
    | '-' :: cs => (decimal? cs).map fun f => .ofFloat (-f)
    | '+' :: cs => (decimal? cs).map .ofFloat
    | cs => (decimal? cs).map .ofFloat

/-- The meaning of an integer: one of more than 128 bits has none. -/
def ofInteger? (n : Int) : Option Plain :=
  if -0x8000000000000000 ≤ n && n ≤ 0xFFFFFFFFFFFFFFFF then some (integer n)
  else if -0x80000000000000000000000000000000 ≤ n && n ≤ 0xFFFFFFFFFFFFFFFFFFFFFFFFFFFFFFFF then
    some wideInteger
  else none

def number? (s : String) : Option Plain :=
  match (integer? s).bind ofInteger? with
  | some n => some n
  | none => if hasLeadingZero s then none else (float? s).map float

/-- What a plain scalar with this spelling means. -/
def ofText (s : String) : Plain :=
  if s.isEmpty || isNull s then null
  else
    match bool? s with
    | some b => bool b
    | none => (number? s).getD text

/-- The node of a floating point number; there is none for infinity and for no number at all. -/
def floatNode (x : Binary64) : Node := if x.isFinite then .number (.float x) else .null

/-- The node that a plain scalar stands for. Integers beyond 64 bits have no node. -/
def node? (s : String) : Option Node :=
  match ofText s with
  | null => some .null
  | bool b => some (.bool b)
  | integer n => some (.number (.int n))
  | wideInteger => none
  | float x => some (floatNode x)
  | text => some (.string s)

end Plain

end WorkflowDsl.Yaml
