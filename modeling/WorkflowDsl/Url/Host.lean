import WorkflowDsl.Document.Json.Printer

/-!
# Hosts

A host is a domain name or an address. Addresses of version 4 have 32 bits and are read from up to
four numbers, decimal, octal or hexadecimal, of which the last fills all bytes that are left.
Addresses of version 6 have 128 bits and are written in eight pieces, of which the longest run of
zeros is left out.
-/

namespace WorkflowDsl.Url

inductive Host where
  | domain (name : String)
  | ipv4 (address : BitVec 32)
  | ipv6 (address : BitVec 128)
deriving DecidableEq, Repr

/-- The parts of a text between the characters for which `isMark` holds. -/
def splitAt (isMark : Char → Bool) : List Char → List (List Char)
  | [] => [[]]
  | c :: rest =>
    if isMark c then [] :: splitAt isMark rest
    else
      match splitAt isMark rest with
      | part :: parts => (c :: part) :: parts
      | [] => [[c]]

/-- The value of a digit below 36; letters are digits from ten on. -/
def digitValue? (c : Char) : Option Nat :=
  if c.isDigit then some (c.toNat - 48)
  else if c.isLower then some (c.toNat - 87)
  else if c.isUpper then some (c.toNat - 55)
  else none

/-- The number that digits of a base denote; no digits denote zero. -/
def number? (base : Nat) (cs : List Char) : Option Nat :=
  cs.foldl (fun value c => do
    let value ← value
    let d ← digitValue? c
    if d < base then some (value * base + d) else none) (some 0)

namespace Ipv4

/-- A number of an address. `0x` marks hexadecimal and a leading zero octal numbers. -/
def part? : List Char → Option Nat
  | [] => none
  | ['0'] => some 0
  | '0' :: c :: rest => if c == 'x' || c == 'X' then number? 16 rest else number? 8 (c :: rest)
  | cs => number? 10 cs

/-- The parts of a host between dots, but for an empty last one. -/
def parts (cs : List Char) : List (List Char) :=
  let parts := splitAt (· == '.') cs
  if 1 < parts.length && parts.getLast? == some [] then parts.dropLast else parts

/-- Whether a host is to be read as an address: its last part is a number. -/
def endsInNumber (cs : List Char) : Bool :=
  (parts cs).getLast?.any fun last =>
    (!last.isEmpty && last.all Char.isDigit) || (part? last).isSome

/-- The address that up to four numbers denote. All but the last are bytes. -/
def ofParts? (ns : List Nat) : Option (BitVec 32) := do
  let last ← ns.getLast?
  let bytes := ns.dropLast
  if 3 < bytes.length || bytes.any (255 < ·) || Nat.pow 256 (4 - bytes.length) ≤ last then none
  else
    let value := bytes.foldl (fun value b => value * 256 + b) 0
    some (.ofNat 32 (value * Nat.pow 256 (4 - bytes.length) + last))

def parse? (cs : List Char) : Option (BitVec 32) := (parts cs).mapM part? >>= ofParts?

/-- The bytes of an address. -/
def bytes (a : BitVec 32) : List Nat := [24, 16, 8, 0].map fun shift => (a.toNat >>> shift) % 256

def text (a : BitVec 32) : String := ".".intercalate ((bytes a).map toString)

end Ipv4

namespace Ipv6

/-- Takes up to four hexadecimal digits off a text. Returns their value and the rest. -/
def piece (cs : List Char) : Option Nat × List Char :=
  let digits := (cs.take 4).takeWhile fun c => (digitValue? c).any (· < 16)
  (if digits.isEmpty then none else number? 16 digits, cs.drop digits.length)

/-- A byte in decimal without leading zeros. -/
def byte? (cs : List Char) : Option Nat := do
  let n ← number? 10 cs
  if cs.isEmpty || 255 < n || (1 < cs.length && cs.head? == some '0') then none else some n

/-- The two pieces that an address of version 4 at the end makes. -/
def tail? (cs : List Char) : Option (List Nat) :=
  match (splitAt (· == '.') cs).mapM byte? with
  | some [a, b, c, d] => some [a * 256 + b, c * 256 + d]
  | _ => none

/-- Reads the pieces of a text. Returns them, and before how many of them the gap of zeros stands.
`read` holds those read so far. -/
def pieces? : Nat → List Nat → Option Nat → List Char → Option (List Nat × Option Nat)
  | 0, _, _, _ => none
  | _ + 1, read, gap, [] => some (read, gap)
  | fuel + 1, read, gap, ':' :: rest =>
    if read.length == 8 || gap.isSome then none
    else pieces? fuel read (some read.length) rest
  | fuel + 1, read, gap, cs =>
    if read.length == 8 then none
    else
      match piece cs with
      | (some n, []) => some (read ++ [n], gap)
      | (some n, ':' :: rest) => if rest.isEmpty then none else pieces? fuel (read ++ [n]) gap rest
      | (some _, '.' :: _) =>
        if 6 < read.length then none else (tail? cs).map fun last => (read ++ last, gap)
      | _ => none

/-- Fills the gap with zeros. -/
def fill? : List Nat × Option Nat → Option (List Nat)
  | (ps, none) => if ps.length == 8 then some ps else none
  | (ps, some i) =>
    if 7 < ps.length then none
    else some (ps.take i ++ List.replicate (8 - ps.length) 0 ++ ps.drop i)

def ofPieces (ps : List Nat) : BitVec 128 := .ofNat 128 (ps.foldl (fun v p => v * 65536 + p) 0)

/-- Reads an address. Only a gap may start with a colon. -/
def parse? (cs : List Char) : Option (BitVec 128) :=
  let pieces :=
    match cs with
    | ':' :: ':' :: rest => pieces? (cs.length + 1) [] (some 0) rest
    | ':' :: _ => none
    | _ => pieces? (cs.length + 1) [] none cs
  (pieces >>= fill?).map ofPieces

def pieces (a : BitVec 128) : List Nat :=
  [112, 96, 80, 64, 48, 32, 16, 0].map fun shift => (a.toNat >>> shift) % 65536

/-- The runs of zeros of a list, as first place and length. -/
def zeroRuns : Nat → List Nat → List (Nat × Nat)
  | _, [] => []
  | i, p :: ps =>
    match zeroRuns (i + 1) ps with
    | (first, length) :: runs =>
      if p != 0 then (first, length) :: runs
      else if first == i + 1 then (i, length + 1) :: runs
      else (i, 1) :: (first, length) :: runs
    | [] => if p == 0 then [(i, 1)] else []

/-- The first of the longest runs of at least two zeros. -/
def longestRun? (ps : List Nat) : Option (Nat × Nat) :=
  (zeroRuns 0 ps).foldl (fun best run =>
    if best.all (fun b => b.2 < run.2) && 1 < run.2 then some run else best) none

def text (a : BitVec 128) : String :=
  let ps := pieces a
  let join (ps : List Nat) := ":".intercalate (ps.map (Json.hexText 1))
  match longestRun? ps with
  | some (first, length) => join (ps.take first) ++ "::" ++ join (ps.drop (first + length))
  | none => join ps

end Ipv6

def Host.text : Host → String
  | domain name => name
  | ipv4 a => Ipv4.text a
  | ipv6 a => "[" ++ Ipv6.text a ++ "]"

/-! ## Hosts that are not public -/

/-- Whether an address starts with the same bits as `block`. -/
def inBlock {width : Nat} (block : BitVec width) (bits : Nat) (a : BitVec width) : Bool :=
  a >>> (width - bits) == block >>> (width - bits)

/-- The unspecified, loopback, private, link-local and broadcast addresses of version 4. -/
def isRestrictedIpv4 (a : BitVec 32) : Bool :=
  a == 0 || inBlock 0x7F000000#32 8 a || inBlock 0x0A000000#32 8 a || inBlock 0xAC100000#32 12 a
    || inBlock 0xC0A80000#32 16 a || inBlock 0xA9FE0000#32 16 a || a == 0xFFFFFFFF#32

/-- The address of version 4 that an address of version 6 stands for. -/
def mappedIpv4? (a : BitVec 128) : Option (BitVec 32) :=
  if inBlock (0xFFFF#128 <<< 32) 96 a then some (a.setWidth 32) else none

/-- The unspecified and loopback addresses, those that stand for a restricted address of version 4,
and link-local and unique local ones. -/
def isRestrictedIpv6 (a : BitVec 128) : Bool :=
  a == 0 || a == 1
    || match mappedIpv4? a with
      | some v4 => isRestrictedIpv4 v4
      | none => inBlock (0xFE80#128 <<< 112) 10 a || inBlock (0xFC00#128 <<< 112) 7 a

/-- The local host and names below the domains of local networks. -/
def isRestrictedDomain (name : String) : Bool :=
  let name := name.map Char.toLower
  name == "localhost" || [".localhost", ".local", ".internal"].any (name.endsWith ·)

def Host.isRestricted : Host → Bool
  | domain name => isRestrictedDomain name
  | ipv4 a => isRestrictedIpv4 a
  | ipv6 a => isRestrictedIpv6 a

end WorkflowDsl.Url
