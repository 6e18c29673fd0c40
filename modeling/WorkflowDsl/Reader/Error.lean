import WorkflowDsl.Document.Format
import WorkflowDsl.Error
import WorkflowDsl.Codec.Basic

/-!
# What can go wrong while a document is read

`ReadError` is the cause for which a document cannot be read, fetched or resolved.
-/

namespace WorkflowDsl

/-- The families of read errors. -/
inductive ReadError.Kind where
  | definition
  | json
  | yaml
  | io
  | invalidUri
  | unsupportedScheme
  | restrictedAddress
  | tooLarge
  | fetch
  | schemaValidation
  | cancelled
deriving DecidableEq, Repr

def ReadError.Kind.text : ReadError.Kind → String
  | definition => "definition"
  | json => "json"
  | yaml => "yaml"
  | io => "io"
  | invalidUri => "invalid-uri"
  | unsupportedScheme => "unsupported-scheme"
  | restrictedAddress => "restricted-address"
  | tooLarge => "too-large"
  | fetch => "fetch"
  | schemaValidation => "schema-validation"
  | cancelled => "cancelled"

/-- The cause for which a document cannot be read. -/
inductive ReadError where
  | definition (cause : DefinitionError)
  /-- A text that does not follow its format. -/
  | malformed (format : DocumentFormat)
  /-- A document that does not convert to a workflow. -/
  | conversion (cause : ConversionError)
  /-- A file that is absent or no text. -/
  | unreadable
  | invalidUri (uri reason : String)
  | unsupportedScheme (scheme uri : String)
  | restrictedAddress (uri : String)
  | tooLarge (uri : String) (max : Nat)
  | fetch (uri reason : String)
  | schemaViolations (violations : List String)
  /-- A schema that is none. -/
  | invalidSchema
  | cancelled
deriving DecidableEq, Repr

namespace ReadError

def kind : ReadError → Kind
  | definition _ => .definition
  | malformed .json => .json
  | malformed .yaml => .yaml
  | conversion _ => .json
  | unreadable => .io
  | invalidUri .. => .invalidUri
  | unsupportedScheme .. => .unsupportedScheme
  | restrictedAddress _ => .restrictedAddress
  | tooLarge .. => .tooLarge
  | fetch .. => .fetch
  | schemaViolations _ | invalidSchema => .schemaValidation
  | cancelled => .cancelled

/-- What is said about an error. There is nothing to say but the kind about texts that do not follow
their format, about files that cannot be read or are too large, and about schemas that are none. -/
def message? : ReadError → Option String
  | definition cause => some s!"Definition({cause.message})"
  | conversion cause => some s!"Json({cause.message})"
  | malformed _ | unreadable | tooLarge .. | invalidSchema => none
  | invalidUri uri reason => some s!"InvalidUri: '{uri}' ({reason})"
  | unsupportedScheme scheme uri =>
    some s!"UnsupportedScheme: '{scheme}' in {uri}, supported schemes: file, http, https"
  | restrictedAddress uri =>
    some s!"RestrictedAddress: {uri} points to localhost, a private address or a metadata service"
  | fetch uri reason => some s!"Fetch: {uri} ({reason})"
  | schemaViolations violations =>
    some ("SchemaValidation: " ++ "; ".intercalate violations)
  | cancelled => some "Cancelled: reference resolution was cancelled"

end ReadError

/-- The node that a text holds. -/
def DocumentFormat.read (format : DocumentFormat) (text : String) : Except ReadError Node :=
  match format.parse? text with
  | some n => .ok n
  | none => .error (.malformed format)

/-- The node that a text holds in the format that it seems to have. -/
def readDetected (text : String) : Except ReadError Node := (DocumentFormat.detect text).read text

end WorkflowDsl
