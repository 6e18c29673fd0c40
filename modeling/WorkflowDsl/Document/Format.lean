import WorkflowDsl.Document.Json.Parser
import WorkflowDsl.Document.Yaml.Parser
import WorkflowDsl.Text.Blank

/-!
# Formats of documents

A document is written in JSON or in YAML. `DocumentFormat.detect` tells them apart by the first
character of a text that is no blank, `DocumentFormat.ofPath?` by the extension of a file name.
-/

namespace WorkflowDsl

inductive DocumentFormat where
  | json
  | yaml
deriving DecidableEq, Repr

namespace DocumentFormat

def all : List DocumentFormat := [json, yaml]

def text : DocumentFormat → String
  | json => "json"
  | yaml => "yaml"

def ofText? (s : String) : Option DocumentFormat := all.find? (·.text == s)

/-- The usual extension of the names of files. -/
def extension : DocumentFormat → String := text

/-- JSON if the first character other than a blank opens a mapping or a sequence, else YAML. -/
def detect (s : String) : DocumentFormat :=
  match s.toList.dropWhile Text.isBlank with
  | '\x7b' :: _ => json
  | '[' :: _ => json
  | _ => yaml

/-- The last name in a path, unless that stands for a parent directory. -/
def fileName? (path : String) : Option String :=
  let names := (path.splitOn "/").filter fun name => !name.isEmpty && name != "."
  names.getLast?.filter (· != "..")

/-- What follows the last dot of a file name, unless the name starts with that dot. -/
def extension? (path : String) : Option String := do
  match ((← fileName? path).splitOn ".").reverse with
  | [] | [_] | [_, ""] => none
  | last :: _ => some last

/-- The format that the extension of a path names, in any case. -/
def ofPath? (path : String) : Option DocumentFormat := do
  let e := (← extension? path).map Char.toLower
  if e == "json" then some json else if e == "yaml" || e == "yml" then some yaml else none

/-- The node that a text in the format holds. -/
def parse? : DocumentFormat → String → Option Node
  | json, s => Json.parse? s
  | yaml, s => Yaml.parse? s

end DocumentFormat

end WorkflowDsl
