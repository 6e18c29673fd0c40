import WorkflowDsl.Reader.Error
import WorkflowDsl.Reader.Settings
import WorkflowDsl.Url.FilePath
import WorkflowDsl.Url.Parser

/-!
# References to other documents

A reference is the text by which a document names another one: a URL, a text relative to the base of
the document, or an absolute file path if there is no base.
-/

namespace WorkflowDsl

/-- Whether a text starts with the letter of a drive, a colon and a slash of either kind. -/
def isDrivePath (s : String) : Bool :=
  match s.toList with
  | a :: ':' :: b :: _ => a.isAlpha && (b == '/' || b == '\\')
  | _ => false

/-- The URL that a reference means by itself. The path of a drive means none. -/
def absoluteReference? (reference : String) : Option Url :=
  if isDrivePath reference then none else (Url.parse reference).toOption

/-- The URL that a reference means in a document with the given base. -/
def resolveReference (base : Option Url) (reference : String) : Except ReadError Url :=
  match absoluteReference? reference, base with
  | some u, _ => .ok u
  | none, some b => (b.join reference).mapError fun e => .invalidUri reference e.message
  | none, none =>
    match Url.ofFilePath? reference with
    | some u => .ok u
    | none => .error (.invalidUri reference "not an absolute file path")

/-- The URL of a directory. -/
def directoryUrl (path : String) : Except ReadError Url :=
  match Url.ofDirectoryPath? path with
  | some u => .ok u
  | none => .error (.invalidUri path "not an absolute directory path")

/-- Whether a text is a relative reference. Runtime expressions and templates are none. -/
def isRelativeReference (s : String) : Bool :=
  let trimmed := Text.trim s
  !trimmed.isEmpty && !trimmed.startsWith "$\x7b" && !trimmed.toList.contains '\x7b'
    && (Url.parse trimmed).toOption.isNone

/-- Joins a relative path to a directory. An absolute path stays. -/
def joinPath (directory path : String) : String :=
  if path.startsWith "/" || directory.isEmpty then path
  else if directory.endsWith "/" then directory ++ path
  else directory ++ "/" ++ path

namespace ReaderOptions

/-- What references are relative to: the base URI, or else the base directory. -/
def base (options : ReaderOptions) : Except ReadError (Option Url) :=
  match options.baseUri, options.baseDirectory with
  | some uri, _ => ((Url.parse uri).mapError fun e => .invalidUri uri e.message).map some
  | none, some path => (directoryUrl path).map some
  | none, none => .ok none

/-- What relative references are replaced by, if they are. A reference that cannot be joined to the
base stays. -/
def rebasing (options : ReaderOptions) : Except ReadError (Option (String → Option String)) :=
  match options.relativeUris with
  | .keep => .ok none
  | .toAbsolute =>
    options.base.map fun base => base.map fun b s => (b.join s).toOption.map Url.text
  | .toFilePath => .ok (options.baseDirectory.map fun d s => some (joinPath d s))

end ReaderOptions

/-- Replaces a text if it is a relative reference. -/
def rebaseReference (rebase : String → Option String) (s : String) : String :=
  if isRelativeReference s then (rebase s).getD s else s

end WorkflowDsl
