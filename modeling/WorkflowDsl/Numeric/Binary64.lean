/-!
# 64-bit binary floating point numbers

A document number that is no integer is a `Binary64`, held by its bits. This file reads one from a
decimal and writes one as the shortest decimal that reads back to it.

`shortest` works in exact natural arithmetic: for one digit, two digits, … it looks at the two
points of that decimal grid next to the value and takes the first that lies among the reals which
round to the value.
-/

namespace WorkflowDsl

/-- A 64-bit binary floating point number, given by its bits. -/
structure Binary64 where
  bits : UInt64
deriving DecidableEq, Repr, Inhabited

/-- The number `digits * 10 ^ exponent`. -/
structure Decimal where
  digits : Nat
  exponent : Int
deriving DecidableEq, Repr

namespace Binary64

/-- The machine number with these bits. -/
def toFloat (x : Binary64) : Float := Float.ofBits x.bits

/-- The bits of a machine number. -/
def ofFloat (x : Float) : Binary64 := ⟨x.toBits⟩

/-- Whether the number is negative; the zero with a sign bit counts. -/
def isNegative (x : Binary64) : Bool := x.bits >>> 63 == 1

/-- Neither infinite nor undefined. -/
def isFinite (x : Binary64) : Bool := (x.bits >>> 52) &&& 0x7FF != 0x7FF

/-- Equal as numbers: the two zeros are equal. -/
def equal (x y : Binary64) : Bool := x == y || (x.bits <<< 1 == 0 && y.bits <<< 1 == 0)

/-- The integer nearest to `n` among the floating point numbers; a tie goes to the even one. -/
def ofInt (n : Int) : Binary64 :=
  let magnitude := Float.ofScientific n.natAbs false 0
  ofFloat (if n < 0 then -magnitude else magnitude)

/-- The number nearest to `digits * 10 ^ exponent`; infinite when that is too large. -/
def ofDecimal (d : Decimal) : Binary64 :=
  ofFloat (Float.ofScientific d.digits (d.exponent < 0) d.exponent.natAbs)

/-- The integer that the number is, if it is one. -/
def toInt? (x : Binary64) : Option Int :=
  let exponent := ((x.bits >>> 52) &&& 0x7FF).toNat
  let fraction := (x.bits &&& 0xFFFFFFFFFFFFF).toNat
  if exponent == 0x7FF then none
  else
    let mantissa := if exponent == 0 then fraction else 0x10000000000000 + fraction
    let scale : Int := if exponent == 0 then -1074 else (exponent : Int) - 1075
    let sign : Int := if x.isNegative then -1 else 1
    if 0 ≤ scale then some (sign * (mantissa * Nat.pow 2 scale.toNat : Nat))
    else if mantissa % Nat.pow 2 (-scale).toNat == 0 then
      some (sign * (mantissa / Nat.pow 2 (-scale).toNat : Nat))
    else none

/-- The reals that round to a positive number, as fractions over one denominator. -/
structure Interval where
  low : Nat
  value : Nat
  high : Nat
  denominator : Nat
  /-- The end points round to the number too. -/
  closed : Bool

/-- The rounding interval of the magnitude of a finite number other than zero. -/
def interval (x : Binary64) : Interval :=
  let exponent := ((x.bits >>> 52) &&& 0x7FF).toNat
  let fraction := (x.bits &&& 0xFFFFFFFFFFFFF).toNat
  let mantissa := if exponent == 0 then fraction else 0x10000000000000 + fraction
  -- the magnitude is `4 * mantissa * 2 ^ scale`; the quarter makes room for both half gaps
  let scale : Int := if exponent == 0 then -1076 else (exponent : Int) - 1077
  let factor := Nat.pow 2 scale.toNat
  let gapBelow := if fraction == 0 && 1 < exponent then 1 else 2
  { low := (4 * mantissa - gapBelow) * factor
    value := 4 * mantissa * factor
    high := (4 * mantissa + 2) * factor
    denominator := Nat.pow 2 (-scale).toNat
    closed := mantissa % 2 == 0 }

namespace Interval

/-- The least `k` with `value / denominator < 10 ^ k`. -/
def magnitude (i : Interval) : Int :=
  let estimate := ((i.value.log2 : Int) - i.denominator.log2) * 30103 / 100000
  let below (k : Int) : Bool :=
    i.value * Nat.pow 10 (-k).toNat < Nat.pow 10 k.toNat * i.denominator
  (([-1, 0, 1, 2] : List Int).map (estimate + ·)).find? below |>.getD (estimate + 3)

/-- The multiple of `10 ^ exponent` nearest to the value that lies in the interval. -/
def onGrid? (i : Interval) (exponent : Int) : Option Decimal :=
  let up := Nat.pow 10 (-exponent).toNat
  let unit := i.denominator * Nat.pow 10 exponent.toNat
  let value := i.value * up
  let inside (n : Nat) : Bool :=
    if i.closed then i.low * up ≤ n * unit && n * unit ≤ i.high * up
    else i.low * up < n * unit && n * unit < i.high * up
  let n := value / unit
  let rest := value % unit
  match inside n, inside (n + 1) with
  | true, true =>
    if 2 * rest < unit || (2 * rest == unit && n % 2 == 0) then some ⟨n, exponent⟩
    else some ⟨n + 1, exponent⟩
  | true, false => some ⟨n, exponent⟩
  | false, true => some ⟨n + 1, exponent⟩
  | false, false => none

end Interval

/-- Moves trailing zeros of the digits into the exponent. -/
def stripZeros : Nat → Decimal → Decimal
  | 0, d => d
  | fuel + 1, d =>
    if d.digits != 0 && d.digits % 10 == 0 then stripZeros fuel ⟨d.digits / 10, d.exponent + 1⟩
    else d

/-- The decimal with the fewest digits that rounds to the magnitude of a finite number. -/
def shortest (x : Binary64) : Decimal :=
  if x.bits <<< 1 == 0 then ⟨0, 0⟩
  else
    let i := x.interval
    let k := i.magnitude
    let found := (List.range 17).findSome? fun (n : Nat) => i.onGrid? (k - n - 1)
    stripZeros 20 (found.getD ⟨i.value / i.denominator, 0⟩)

/-- A decimal in positional notation from 10⁻⁵ up to 10¹⁶, with an exponent elsewhere. An integral
positional number keeps `.0`. `plus` is the sign of exponents that are not negative. -/
def Decimal.text (plus : String) (d : Decimal) : String :=
  let digits := toString d.digits
  let zeros (n : Int) : String := "".pushn '0' n.toNat
  -- the place of the point, counted from the first digit
  let point : Int := digits.length + d.exponent
  if 0 ≤ d.exponent && point ≤ 16 then digits ++ zeros d.exponent ++ ".0"
  else if 0 < point && point ≤ 16 then
    String.ofList (digits.toList.take point.toNat) ++ "." ++
      String.ofList (digits.toList.drop point.toNat)
  else if -5 < point && point ≤ 0 then "0." ++ zeros (-point) ++ digits
  else
    let head := String.ofList (digits.toList.take 1)
    let tail := String.ofList (digits.toList.drop 1)
    head ++ (if tail.isEmpty then "" else "." ++ tail) ++ "e" ++ (if 0 < point then plus else "")
      ++ toString (point - 1)

/-- The shortest decimal that reads back to a finite number. -/
def textWith (plus : String) (x : Binary64) : String :=
  (if x.isNegative then "-" else "") ++ Decimal.text plus x.shortest

/-- The shortest decimal, with a sign in every exponent. -/
def text (x : Binary64) : String := x.textWith "+"

/-- The shortest decimal, with a sign in negative exponents only. -/
def bareText (x : Binary64) : String := x.textWith ""

end Binary64

end WorkflowDsl
