import WorkflowDsl.Text.Blank
import WorkflowDsl.Text.Quoted
import WorkflowDsl.Url.Host
import WorkflowDsl.Url.Punycode

/-!
# Domain names

A domain name is written in ASCII and in lower case. Letters are folded to lower case first, in the
Latin, Greek, Cyrillic and Armenian scripts and in their full width forms; characters that show
nothing are taken out, and other full stops become dots. A label with characters outside ASCII is
then written as `xn--` and its Punycode. A name with a blank, or with a character that has a meaning
in URLs, is refused.
-/

namespace WorkflowDsl.Url

/-- Whether a character of ASCII cannot stand in a domain name. -/
def isDenied (c : Char) : Bool :=
  c.toNat ≤ 32 || c.toNat == 127
    || ['%', '#', '/', ':', '<', '>', '?', '@', '[', '\\', ']', '^', '|'].contains c

/-- Characters that are left out of domain names. -/
def isIgnored (c : Char) : Bool :=
  let n := c.toNat
  n == 0xAD || n == 0x34F || n == 0x200B || n == 0x2060 || n == 0x2064 || n == 0xFEFF
    || (0x180B ≤ n && n ≤ 0x180D) || (0xFE00 ≤ n && n ≤ 0xFE0F)

/-- The ranges whose letters stand a fixed number of places before their lower case forms. -/
def shiftedRanges : List (Nat × Nat × Nat) :=
  [(0x41, 0x5A, 32), (0xC0, 0xD6, 32), (0xD8, 0xDE, 32), (0x388, 0x38A, 37), (0x391, 0x3A1, 32),
    (0x3A3, 0x3AB, 32), (0x400, 0x40F, 80), (0x410, 0x42F, 32), (0x531, 0x556, 48)]

/-- The ranges in which a capital stands before its lower case form. The number is the remainder of
the capitals when divided by two. -/
def pairedRanges : List (Nat × Nat × Nat) :=
  [(0x100, 0x12F, 0), (0x132, 0x137, 0), (0x139, 0x148, 1), (0x14A, 0x177, 0), (0x179, 0x17E, 1),
    (0x1CD, 0x1DC, 1), (0x1DE, 0x1EF, 0), (0x1F8, 0x21F, 0), (0x222, 0x233, 0), (0x3D8, 0x3EF, 0),
    (0x460, 0x481, 0), (0x48A, 0x4BF, 0), (0x4C1, 0x4CE, 1), (0x4D0, 0x52F, 0), (0x1E00, 0x1E95, 0),
    (0x1EA0, 0x1EFF, 0)]

/-- The lower case form of a letter. -/
def foldCase (c : Char) : Char :=
  let n := c.toNat
  match shiftedRanges.find? fun (first, last, _) => first ≤ n && n ≤ last with
  | some (_, _, shift) => .ofNat (n + shift)
  | none =>
    if n == 0x178 then 'ÿ' else if n == 0x386 then 'ά' else if n == 0x38C then 'ό'
    else if n == 0x38E || n == 0x38F then .ofNat (n + 63)
    else if pairedRanges.any fun (first, last, r) => first ≤ n && n ≤ last && n % 2 == r then
      .ofNat (n + 1)
    else c

/-- A character as it counts in a domain name. -/
def domainChar (c : Char) : List Char :=
  let n := c.toNat
  if isIgnored c then []
  else if n == 0x3002 || n == 0xFF61 then ['.']
  else if 0xFF01 ≤ n && n ≤ 0xFF5E then [foldCase (.ofNat (n - 0xFEE0))]
  else [foldCase c]

/-- Whether a character can stand in a label. -/
def isLabelCharacter (c : Char) : Bool :=
  if c.toNat < 128 then !isDenied c
  else !Text.isBlank c && (!Text.isHidden c || 0x300 ≤ c.toNat && c.toNat < 0xD800)

/-- A label in ASCII. One that is encoded already has to be the encoding of a label. -/
def labelToAscii? (label : List Char) : Option (List Char) :=
  match label with
  | 'x' :: 'n' :: '-' :: '-' :: code =>
    match Punycode.decode? code with
    | some decoded =>
      if label.all (·.toNat < 128) && decoded.any (128 ≤ ·.toNat)
          && decoded.all (fun c => isLabelCharacter c && domainChar c == [c])
          && Punycode.encode decoded == code then some label
      else none
    | none => none
  | _ =>
    if !label.all isLabelCharacter then none
    else if label.all (·.toNat < 128) then some label
    else some (['x', 'n', '-', '-'] ++ Punycode.encode label)

/-- A domain name in ASCII. -/
def domainToAscii? (cs : List Char) : Option (List Char) :=
  ((splitAt (· == '.') (cs.flatMap domainChar)).mapM labelToAscii?).map (['.'].intercalate ·)

end WorkflowDsl.Url
