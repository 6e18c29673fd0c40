/-!
# Punycode

A label of a domain name with characters outside ASCII is written in ASCII: its ASCII characters,
a hyphen, and then for every other character, in ascending order of code points, how far it stands
from the one before, as a number whose digits have thresholds that adapt to the numbers so far.
-/

namespace WorkflowDsl.Url.Punycode

/-- The letters `a` to `z`, then the digits. -/
def digit (n : Nat) : Char := if n < 26 then .ofNat (97 + n) else .ofNat (22 + n)

def digitValue? (c : Char) : Option Nat :=
  if c.isLower then some (c.toNat - 97)
  else if c.isUpper then some (c.toNat - 65)
  else if c.isDigit then some (c.toNat - 22)
  else none

/-- Divides a distance by 35 until it is small. Returns what is left and 36 for each division. -/
def damped : Nat → Nat → Nat → Nat × Nat
  | 0, delta, k => (delta, k)
  | fuel + 1, delta, k => if 455 < delta then damped fuel (delta / 35) (k + 36) else (delta, k)

/-- The bias after a distance, given how many characters stand so far. -/
def adapt (delta count : Nat) (isFirst : Bool) : Nat :=
  let delta := if isFirst then delta / 700 else delta / 2
  let (delta, k) := damped delta (delta + delta / count) 0
  k + 36 * delta / (delta + 38)

/-- The least value that ends a number at the digit of weight `k`. -/
def threshold (k bias : Nat) : Nat :=
  if k ≤ bias then 1 else if bias + 26 ≤ k then 26 else k - bias

/-- The digits of a distance. -/
def distance : Nat → Nat → Nat → Nat → List Char
  | 0, _, _, _ => []
  | fuel + 1, q, k, bias =>
    let t := threshold k bias
    if q < t then [digit q]
    else digit (t + (q - t) % (36 - t)) :: distance fuel ((q - t) / (36 - t)) (k + 36) bias

/-- The state of an encoder between two characters. -/
structure State where
  /-- Steps since the character before. -/
  delta : Nat
  bias : Nat
  /-- Characters handled. -/
  count : Nat
  output : List Char

/-- Encodes every occurrence of the code point `n` in a label. -/
def encodePoint (label : List Nat) (basic n : Nat) (s : State) : State :=
  label.foldl (fun s c =>
    if c < n then { s with delta := s.delta + 1 }
    else if c == n then
      { delta := 0
        bias := adapt s.delta (s.count + 1) (s.count == basic)
        count := s.count + 1
        output := s.output ++ distance (s.delta + 1) s.delta 36 s.bias }
    else s) s

/-- Goes through the code points of a label in ascending order. `last` is the first one that has not
been passed. -/
def encodePoints (label : List Nat) (basic : Nat) : List Nat → Nat → State → State
  | [], _, s => s
  | n :: rest, last, s =>
    let s := { s with delta := s.delta + (n - last) * (s.count + 1) }
    let s := encodePoint label basic n s
    encodePoints label basic rest (n + 1) { s with delta := s.delta + 1 }

def encode (label : List Char) : List Char :=
  let basic := label.filter (·.toNat < 128)
  let others := (label.filter (128 ≤ ·.toNat)).map Char.toNat
  let ascending := (others.mergeSort (· ≤ ·)).eraseDups
  let start := if basic.isEmpty then [] else basic ++ ['-']
  (encodePoints (label.map Char.toNat) basic.length ascending 128
    ⟨0, 72, basic.length, start⟩).output

/-- Reads a distance. Returns it and the rest. -/
def distance? : List Char → Nat → Nat → Nat → Nat → Option (Nat × List Char)
  | [], _, _, _, _ => none
  | c :: rest, weight, k, bias, sum => do
    let value ← digitValue? c
    let sum := sum + value * weight
    let t := threshold k bias
    if value < t then some (sum, rest) else distance? rest (weight * (36 - t)) (k + 36) bias sum

/-- Inserts the characters whose distances the text gives into a label. `n` is the code point and
`i` the place from which the next distance counts. -/
def insertPoints : Nat → List Char → Nat → Nat → Nat → List Char → Option (List Char)
  | _, [], _, _, _, label => some label
  | 0, _, _, _, _, _ => none
  | fuel + 1, text, n, i, bias, label => do
    let (delta, rest) ← distance? text 1 36 bias 0
    let count := label.length + 1
    let n := n + (i + delta) / count
    let place := (i + delta) % count
    if h : n.isValidChar then
      insertPoints fuel rest n (place + 1) (adapt delta count (i == 0))
        (label.take place ++ Char.ofNatAux n h :: label.drop place)
    else none

/-- The label that a text encodes. -/
def decode? (text : List Char) : Option (List Char) :=
  let tail := (text.reverse.takeWhile (· != '-')).reverse
  let basic := text.take (text.length - tail.length - 1)
  insertPoints text.length tail 128 0 72 basic

end WorkflowDsl.Url.Punycode
