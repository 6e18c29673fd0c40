import WorkflowDsl.Document.Json.Printer

/-!
# Percent encoding

A byte is percent encoded as `%` and two upper case hexadecimal digits. Which characters of ASCII
are encoded depends on the part of the URL; controls and all other characters always are, byte by
byte in UTF-8.
-/

namespace WorkflowDsl.Url

/-- A set of printable ASCII characters that are encoded in a part of a URL. -/
abbrev EncodeSet := List Char

/-- Nothing but what is always encoded. -/
def opaqueSet : EncodeSet := []

def fragmentSet : EncodeSet := [' ', '"', '<', '>', '\x60']

def querySet : EncodeSet := [' ', '"', '#', '<', '>']

def specialQuerySet : EncodeSet := '\'' :: querySet

def pathSet : EncodeSet := ['#', '?', '\x7b', '\x7d'] ++ fragmentSet

def userInfoSet : EncodeSet := ['/', ':', ';', '=', '@', '[', '\\', ']', '^', '|'] ++ pathSet

/-- The characters encoded in the names of files. -/
def fileNameSet : EncodeSet := ['/', '%', '\\'] ++ pathSet

def hexByte (b : UInt8) : List Char :=
  [Json.hexDigit (b.toNat / 16), Json.hexDigit (b.toNat % 16)].map Char.toUpper

def encodeByte (b : UInt8) : List Char := '%' :: hexByte b

/-- A character as it stands in a part of a URL. -/
def encodeChar (set : EncodeSet) (c : Char) : List Char :=
  if c.toNat < 32 || 127 ≤ c.toNat || set.contains c then
    (String.singleton c).toUTF8.toList.flatMap encodeByte
  else [c]

def encode (set : EncodeSet) (cs : List Char) : String :=
  String.ofList (cs.flatMap (encodeChar set))

def isHexDigit (c : Char) : Bool :=
  c.isDigit || ('a' ≤ c && c ≤ 'f') || ('A' ≤ c && c ≤ 'F')

def hexDigitValue (c : Char) : Nat :=
  if c.isDigit then c.toNat - 48 else c.toLower.toNat - 87

/-- The bytes that a text stands for. A `%` without two digits behind it stands for itself. -/
def decodeBytes : List Char → List UInt8
  | '%' :: a :: b :: rest =>
    if isHexDigit a && isHexDigit b then
      .ofNat (hexDigitValue a * 16 + hexDigitValue b) :: decodeBytes rest
    else 37 :: decodeBytes (a :: b :: rest)
  | c :: rest => (String.singleton c).toUTF8.toList ++ decodeBytes rest
  | [] => []

/-- The text that an encoded text stands for, if its bytes are UTF-8. -/
def decode? (cs : List Char) : Option String := String.fromUTF8? ⟨(decodeBytes cs).toArray⟩

end WorkflowDsl.Url
