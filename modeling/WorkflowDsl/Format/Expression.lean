import WorkflowDsl.Text.Blank

/-!
# Runtime expressions

A text in place of a value that is known only when a workflow runs stands between `$` and a pair of
braces.
-/

namespace WorkflowDsl.Format

/-- A text that starts with `$` and an opening brace and ends with a closing one, but for blanks. -/
def isRuntimeExpression (s : String) : Bool :=
  match (Text.trim s).toList with
  | '$' :: '\x7b' :: rest => rest.getLast? == some '\x7d'
  | _ => false

end WorkflowDsl.Format
