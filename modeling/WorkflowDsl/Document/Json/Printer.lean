import WorkflowDsl.Document.Node

/-!
# Writing JSON

`compact` writes a node without any blanks, `pretty` with one entry a line and two blanks a level.
Strings keep every character as it is but for quotes, backslashes and control characters.
-/

namespace WorkflowDsl.Json

/-- The digits of a number below 16. -/
def hexDigit (n : Nat) : Char :=
  if n < 10 then Char.ofNat (48 + n) else Char.ofNat (87 + n)

/-- Lower case hexadecimal digits, at least `width` of them. -/
def hexText (width n : Nat) : String :=
  let digits := (Nat.toDigits 16 n)
  String.ofList (List.replicate (width - digits.length) '0' ++ digits)

/-- A character as it stands inside a JSON string. -/
def escapeChar (c : Char) : String :=
  match c with
  | '"' => "\\\""
  | '\\' => "\\\\"
  | '\n' => "\\n"
  | '\t' => "\\t"
  | '\r' => "\\r"
  | '\x08' => "\\b"
  | '\x0c' => "\\f"
  | c => if c.toNat < 32 then "\\u" ++ hexText 4 c.toNat else c.toString

def quote (s : String) : String :=
  "\"" ++ s.foldl (fun acc c => acc ++ escapeChar c) "" ++ "\""

mutual

def compact : Node → String
  | .null => "null"
  | .bool b => if b then "true" else "false"
  | .number n => n.text
  | .string s => quote s
  | .sequence items => "[" ++ compactItems items ++ "]"
  | .mapping entries => "\x7b" ++ compactEntries entries ++ "\x7d"

def compactItems : List Node → String
  | [] => ""
  | [n] => compact n
  | n :: ns => compact n ++ "," ++ compactItems ns

def compactEntries : List (String × Node) → String
  | [] => ""
  | [(k, n)] => quote k ++ ":" ++ compact n
  | (k, n) :: es => quote k ++ ":" ++ compact n ++ "," ++ compactEntries es

end

/-- A line break and the blanks of a nesting level. -/
def newline (level : Nat) : String := "".pushn ' ' (2 * level) |> ("\n" ++ ·)

mutual

/-- Writes a node that stands on the given nesting level. -/
def prettyAt (level : Nat) : Node → String
  | .sequence [] => "[]"
  | .sequence items => "[" ++ prettyItems (level + 1) items ++ newline level ++ "]"
  | .mapping [] => "\x7b\x7d"
  | .mapping entries => "\x7b" ++ prettyEntries (level + 1) entries ++ newline level ++ "\x7d"
  | .null => "null"
  | .bool b => if b then "true" else "false"
  | .number n => n.text
  | .string s => quote s

def prettyItems (level : Nat) : List Node → String
  | [] => ""
  | [n] => newline level ++ prettyAt level n
  | n :: ns => newline level ++ prettyAt level n ++ "," ++ prettyItems level ns

def prettyEntries (level : Nat) : List (String × Node) → String
  | [] => ""
  | [(k, n)] => newline level ++ quote k ++ ": " ++ prettyAt level n
  | (k, n) :: es =>
    newline level ++ quote k ++ ": " ++ prettyAt level n ++ "," ++ prettyEntries level es

end

def pretty (n : Node) : String := prettyAt 0 n

end WorkflowDsl.Json
