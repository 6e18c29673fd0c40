import WorkflowDsl.Reader.JsonSchema
import WorkflowDsl.Reader.Resolution

/-!
# Reading workflows

A `Reader` makes a workflow of a text in four steps: the text is parsed, its document is checked
against a schema if there is one, relative references in it are replaced as the options say, and
then it is converted. If the options ask for it, external documents are loaded at last.
-/

namespace WorkflowDsl

structure Reader where
  options : ReaderOptions := {}
  fetcher : Fetcher
  schema : Option JsonSchema := none
  /-- The number of fetches after which loading is cancelled. -/
  cancelAfter : Option Nat := none

namespace Reader

/-- The document in a text, if the schema allows it. -/
def document (r : Reader) (format : DocumentFormat) (text : String) : Except ReadError Node := do
  let n ← format.read text
  r.schema.forM (·.check n)
  return n

/-- Replaces the relative references of a document as the options say. -/
def rebased (r : Reader) (rebase : (String → Option String) → Node → Node) (n : Node) :
    Except ReadError Node := do
  return match ← r.options.rebasing with
    | some f => rebase f n
    | none => n

/-- What resolves the references of a document. -/
def resolver (r : Reader) : Except ReadError Resolver := do
  return { fetcher := r.fetcher, base := ← r.options.base, cancelAfter := r.cancelAfter }

/-- Reads a value of a type that has a codec, a way to replace its references, and one to resolve
them. -/
def readAs {α : Type} (codec : Codec α) (rebase : (String → Option String) → Node → Node)
    (resolve : Resolver → α → Resolution α) (r : Reader) (format : DocumentFormat) (text : String) :
    Resolution α := do
  let n ← .ofExcept (r.document format text)
  let n ← .ofExcept (r.rebased rebase n)
  let value ← .ofExcept ((codec.read n).mapError .conversion)
  if r.options.loadExternal then resolve (← .ofExcept r.resolver) value else pure value

/-- Reads a workflow. -/
def read : Reader → DocumentFormat → String → Resolution Workflow :=
  readAs Workflow.codec rebaseResources Resolver.resolveWorkflow

/-- Reads a legacy workflow. -/
def readLegacy : Reader → DocumentFormat → String → Resolution Legacy.Workflow :=
  readAs Legacy.Workflow.codec rebaseLegacyReferences Resolver.resolveLegacy

/-- Reads a workflow from a file, in the format that the name of the file says, or else in the one
that the text seems to have. -/
def readPath (r : Reader) (files : Files) (path : String) : Resolution Workflow := do
  match (files path.toUTF8.toList).bind String.fromUTF8? with
  | none => throw .unreadable
  | some text => r.read ((DocumentFormat.ofPath? path).getD (.detect text)) text

end Reader

end WorkflowDsl
