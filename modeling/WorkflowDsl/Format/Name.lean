import WorkflowDsl.Error

/-!
# Names

A name of a document is a label as in host names: ASCII letters, digits and hyphens, at most 63
characters, and neither the first nor the last is a hyphen.
-/

namespace WorkflowDsl.Format

/-- A letter, digit or hyphen of ASCII. -/
def isLabelChar (c : Char) : Bool := c.isAlphanum || c == '-'

/-- A label: a letter or digit, and then at most 61 characters before another letter or digit. -/
def isLabel : List Char → Bool
  | [] => false
  | [c] => c.isAlphanum
  | c :: rest =>
    c.isAlphanum && rest.length ≤ 62 && rest.dropLast.all isLabelChar
      && rest.getLast?.any Char.isAlphanum

def checkName (field value : String) : Check :=
  if isLabel value.toList then .ok ()
  else .error (.invalidFormat field value "must be a RFC1123 label")

end WorkflowDsl.Format
