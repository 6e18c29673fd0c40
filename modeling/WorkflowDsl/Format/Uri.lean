import WorkflowDsl.Error
import WorkflowDsl.Text.Blank
import WorkflowDsl.Url.Parser

/-!
# URIs of definitions

A URI is absolute; a URI reference may be relative, and may be a template with names in braces.
Neither may be empty or hold blanks or control characters.
-/

namespace WorkflowDsl.Format

/-- Empty, or with a blank or a control character. -/
def isBrokenUri (s : String) : Bool :=
  s.isEmpty || s.toList.any fun c => Text.isBlank c || Text.isControl c

def isAbsoluteUri (s : String) : Bool :=
  match Url.parse s with
  | .ok _ => true
  | .error _ => false

/-- Reads an absolute URI. -/
def readUri (field value : String) : Except DefinitionError Url :=
  if isBrokenUri value then .error (.invalidFormat field value "must be a well-formed URI")
  else
    (Url.parse value).mapError fun e =>
      .invalidFormat field value ("must be an absolute URI: " ++ e.message)

def checkUri (field value : String) : Check := (readUri field value).map fun _ => ()

def checkUriReference (field value : String) : Check :=
  if isBrokenUri value then
    .error (.invalidFormat field value "must be a well-formed URI reference")
  else
    match Url.parse value with
    | .ok _ | .error .relativeWithoutBase => .ok ()
    | .error e =>
      .error (.invalidFormat field value ("must be a well-formed URI reference: " ++ e.message))

end WorkflowDsl.Format
