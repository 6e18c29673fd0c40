import WorkflowDsl.Document.Format
import WorkflowDsl.Document.Json.Printer
import WorkflowDsl.Document.Yaml.Printer
import WorkflowDsl.Legacy.Workflow
import WorkflowDsl.Model.Workflow

/-!
# Writing workflows

A workflow is written as indented JSON or as YAML. Both hold the same document, but for one thing:
in YAML the kind of backoff of a reusable retry policy is the tag of the backoff, and not a key
above it.
-/

namespace WorkflowDsl

namespace Yaml.Tree

/-- Writes the kinds of backoff of the reusable retry policies of a workflow as tags. -/
def tagBackoffs : Tree → Tree :=
  modifyKey "use" (modifyKey "retries" (mapValues fun _ => modifyKey "backoff" keyAsTag))

end Yaml.Tree

/-- The text of a workflow. -/
def Workflow.text (format : DocumentFormat) (w : Workflow) : String :=
  let n := codec.write w
  match format with
  | .json => Json.pretty n
  | .yaml => (Yaml.Tree.ofNode n).tagBackoffs.render

/-- The text of a legacy workflow. -/
def Legacy.Workflow.text (format : DocumentFormat) (w : Legacy.Workflow) : String :=
  let n := codec.write w
  match format with
  | .json => Json.pretty n
  | .yaml => Yaml.print n

end WorkflowDsl
