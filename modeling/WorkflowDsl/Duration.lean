import WorkflowDsl.Codec.Record
import WorkflowDsl.Format.Period

/-!
# Durations

A `Duration` is given by its components or by a text. `Duration.toMillis?` is its length in
milliseconds, at most the greatest number of 64 bits; the length of a runtime expression is not
known. `Duration.ofMillis` splits a length into components.
-/

namespace WorkflowDsl

/-- The components of a duration, each of which may be left out. -/
structure Duration.Parts where
  days : Option UInt64
  hours : Option UInt64
  minutes : Option UInt64
  seconds : Option UInt64
  milliseconds : Option UInt64
deriving DecidableEq, Repr

inductive Duration where
  | parts (value : Duration.Parts)
  | text (value : String)
deriving DecidableEq, Repr

namespace Duration

/-- The greatest length. -/
def maxMillis : Nat := UInt64.size - 1

def isText : Duration → Bool
  | text _ => true
  | parts _ => false

def nonZero (n : Nat) : Option UInt64 := if n == 0 then none else some (.ofNat n)

/-- Splits a length into days, hours, minutes, seconds and the rest. Components of zero are left
out, but for the milliseconds of a duration of no length. -/
def ofMillis (length : UInt64) : Duration :=
  let ms := length.toNat
  let s := ms / 1000
  let m := s / 60
  let h := m / 60
  parts
    { days := nonZero (h / 24)
      hours := nonZero (h % 24)
      minutes := nonZero (m % 60)
      seconds := nonZero (s % 60)
      milliseconds := if ms == 0 then some 0 else nonZero (ms % 1000) }

/-- The length of so many seconds and nanoseconds. -/
def ofSeconds (seconds nanoseconds : Nat) : Duration :=
  ofMillis (.ofNat (min (seconds * 1000 + nanoseconds / 1000000) maxMillis))

/-- The product, or the greatest length when it is more. -/
def saturatingMul (a b : Nat) : Nat := min (a * b) maxMillis

/-- The sum, or the greatest length when it is more. -/
def saturatingAdd (a b : Nat) : Nat := min (a + b) maxMillis

/-- The length of components. -/
def Parts.toMillis (p : Parts) : Nat :=
  [(p.days, 86400000), (p.hours, 3600000), (p.minutes, 60000), (p.seconds, 1000),
    (p.milliseconds, 1)].foldl (fun total (part, unit) =>
      match part with
      | some n => saturatingAdd total (saturatingMul n.toNat unit)
      | none => total) 0

/-- The numbers of a text, each with the character behind it. A number is made of ASCII digits and
dots; other characters between numbers are passed over. -/
def marked : List Char → List Char → List (String × Char)
  | _, [] => []
  | number, c :: rest =>
    if c.isDigit || c == '.' then marked (number ++ [c]) rest
    else if number.isEmpty then marked [] rest
    else (String.ofList number, c) :: marked [] rest

/-- The value of a number; one with more than one dot, or without a digit, is zero. -/
def numberValue (s : String) : Binary64 :=
  let (whole, fraction) :=
    (s.toList.takeWhile (· != '.'), (s.toList.dropWhile (· != '.')).drop 1)
  if (whole ++ fraction).isEmpty || !fraction.all Char.isDigit then .ofInt 0
  else
    let digits := (whole ++ fraction).foldl (fun n c => n * 10 + (c.toNat - 48)) 0
    .ofDecimal ⟨digits, -(fraction.length : Int)⟩

/-- A day in milliseconds. -/
def day : Float := 86400000

def dateUnit : Char → Float
  | 'Y' => 365.25 * day
  | 'M' => 30.44 * day
  | 'W' => 7 * day
  | 'D' => day
  | _ => 0

def timeUnit : Char → Float
  | 'H' => 3600000
  | 'M' => 60000
  | 'S' => 1000
  | _ => 0

/-- The sum of the numbers of a text, each in the unit of the character behind it. -/
def sum (unit : Char → Float) (cs : List Char) : Float :=
  (marked [] cs).foldl (fun total (number, c) => total + (numberValue number).toFloat * unit c) 0

/-- The length of a text. What stands before the first `T` counts in years to days, what stands
behind it in hours to seconds; years and months have a mean length. -/
def textMillis (s : String) : UInt64 :=
  let cs := s.toList
  let date := cs.takeWhile (· != 'T')
  let time := (cs.dropWhile (· != 'T')).drop 1
  let date := if date.head? == some 'P' then date.drop 1 else date
  (sum dateUnit date + sum timeUnit time).toUInt64

def toMillis? : Duration → Option Nat
  | parts p => some p.toMillis
  | text s => if Format.isRuntimeExpression s then none else some (textMillis s).toNat

def check (field : String) : Duration → Check
  | parts _ => .ok ()
  | text s => Format.checkPeriod field s

def Parts.codec : Codec Parts :=
  .record "Duration" Parts.mk <|
    .more (.optional "days" .uint64 (·.days)) <|
    .more (.optional "hours" .uint64 (·.hours)) <|
    .more (.optional "minutes" .uint64 (·.minutes)) <|
    .more (.optional "seconds" .uint64 (·.seconds)) <|
    .more (.optional "milliseconds" .uint64 (·.milliseconds)) .done

def codec : Codec Duration where
  name := "Duration"
  read
    | .string s => .ok (text s)
    | .mapping es =>
      match Parts.codec.read (.mapping es) with
      | .ok p => .ok (parts p)
      | .error _ => .error (.noAlternative "Duration")
    | _ => .error (.noAlternative "Duration")
  write
    | parts p => Parts.codec.write p
    | text s => .string s

end Duration

end WorkflowDsl
