import WorkflowDsl.Legacy.Workflow
import WorkflowDsl.Model.Workflow
import WorkflowDsl.Reader.Fetch
import WorkflowDsl.Reader.Position

/-!
# Documents with their references resolved

A `Resolver` puts the documents that a workflow refers to in the place of the references. References
are loaded one after the other, in a fixed order, and the first that cannot be loaded ends the
resolution. A `Resolution` is such a run; it keeps a list of what was asked of the fetcher, also
when it fails.
-/

namespace WorkflowDsl

/-- A run that loads documents, with the URLs asked for so far. -/
abbrev Resolution (α : Type) := ExceptT ReadError (StateM (List Url)) α

/-- A run that asks for nothing. -/
def Resolution.ofExcept {α : Type} : Except ReadError α → Resolution α
  | .ok a => pure a
  | .error e => throw e

/-- The outcome of a run, and the URLs it asked for, in order. -/
def Resolution.outcome {α : Type} (r : Resolution α) : Except ReadError α × List Url :=
  StateT.run (ExceptT.run r) []

structure Resolver where
  fetcher : Fetcher
  /-- What relative references are relative to. -/
  base : Option Url := none
  /-- The number of fetches after which the run is cancelled. -/
  cancelAfter : Option Nat := none

namespace Resolver

/-- Whether the run is cancelled when so many documents have been fetched. -/
def isCancelled (r : Resolver) (fetched : Nat) : Bool := r.cancelAfter.any (· ≤ fetched)

/-- Fetches a document. -/
def fetch (r : Resolver) (u : Url) : Resolution String := do
  modify (· ++ [u])
  .ofExcept (r.fetcher u)

/-- The document that a reference means. -/
def load (r : Resolver) (reference : String) : Resolution Node := do
  if r.isCancelled (← get).length then throw .cancelled
  let u ← .ofExcept (resolveReference r.base reference)
  let text ← r.fetch u
  .ofExcept (readDetected text)

/-! ## Legacy workflows -/

/-- The part of a document that holds a field: its entry under the name of the field, or else the
whole document. -/
def fieldOf (field : String) (n : Node) : Node := (n.get? field).getD n

/-- The value of a field that a reference means. -/
def loadField {α : Type} (r : Resolver) (c : Codec α) (field reference : String) :
    Resolution α := do
  let n ← r.load reference
  .ofExcept ((c.read (fieldOf field n)).mapError fun e =>
    .fetch reference s!"{field}: {e.message}")

/-- Loads a field if it is given by a reference. -/
def resolveField {α : Type} (r : Resolver) (c : Codec α) (field : String) :
    Option (Legacy.Referenceable α) → Resolution (Option (Legacy.Referenceable α))
  | some (.second reference) => do return some (.first (← r.loadField c field reference))
  | value => pure value

/-- Loads the schema of the input if the schema, or what holds it, is given by a reference. -/
def resolveInputSchema (r : Resolver) :
    Option (Legacy.Referenceable Legacy.InputSchema) →
      Resolution (Option (Legacy.Referenceable Legacy.InputSchema))
  | some (.second reference) => do
    return some (.first { schema := .first (← r.loadField .object "schema" reference) })
  | some (.first { schema := .second reference, failOnErrors }) => do
    let schema ← r.loadField .object "schema" reference
    return some (.first { schema := .first schema, failOnErrors })
  | value => pure value

/-- Loads the parts of a legacy workflow that are given by references. -/
def resolveLegacy (r : Resolver) (w : Legacy.Workflow) : Resolution Legacy.Workflow := do
  let inputSchema ← r.resolveInputSchema w.inputSchema
  let secrets ← r.resolveField (.list .string) "secrets" w.secrets
  let constants ← r.resolveField .object "constants" w.constants
  let timeouts ← r.resolveField Legacy.Timeouts.codec "timeouts" w.timeouts
  let errors ← r.resolveField (.list Legacy.Error.codec) "errors" w.errors
  let events ← r.resolveField (.list Legacy.Event.codec) "events" w.events
  let functions ← r.resolveField (.list Legacy.Function.codec) "functions" w.functions
  let retries ← r.resolveField (.list Legacy.Retry.codec) "retries" w.retries
  let auth ← r.resolveField (.list Legacy.Authentication.codec) "auth" w.auth
  return { w with
    inputSchema, secrets, constants, timeouts, errors, events, functions, retries, auth }

/-! ## Workflows -/

/-- Puts a document in the place of the resource of a schema. -/
def inlineDocument (document : Node) : Node → Node
  | .mapping es => .mapping ((Entries.swapErase es "resource").insert "document" document)
  | n => n

/-- Loads the schema at a position and puts it in the place of its resource. -/
def resolveSchema (r : Resolver) (n : Node) (p : ResourcePosition) : Resolution Node :=
  match (n.at? p.pointer).bind resourceUri? with
  | none => pure n
  | some reference => do
    let document ← r.load reference
    return n.modifyAt (inlineDocument document) p.pointer.dropLast

/-- Loads the external schemas of a workflow, in the order of the document. -/
def resolveWorkflow (r : Resolver) (w : Workflow) : Resolution Workflow := do
  let n := Workflow.codec.write w
  let n ← ((resourcePositions n).filter (·.isSchema)).foldlM r.resolveSchema n
  .ofExcept ((Workflow.codec.read n).mapError .conversion)

end Resolver

end WorkflowDsl
