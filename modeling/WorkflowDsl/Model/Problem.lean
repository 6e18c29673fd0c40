import WorkflowDsl.Codec.Record
import WorkflowDsl.Format.Uri

/-!
# Errors of workflows

A `Problem` is an error that a workflow raises or catches: a type URI, a status as in HTTP, and
texts. A `ProblemFilter` tells which problems are caught. Texts of a filter are templates: a name
in braces matches any text without line feeds.
-/

namespace WorkflowDsl

/-- The categories of problems that the language defines. -/
inductive ProblemType where
  | configuration
  | validation
  | expression
  | authentication
  | authorization
  | timeout
  | communication
  | runtime
deriving DecidableEq, Repr

namespace ProblemType

def all : List ProblemType :=
  [configuration, validation, expression, authentication, authorization, timeout, communication,
    runtime]

def text : ProblemType → String
  | configuration => "configuration"
  | validation => "validation"
  | expression => "expression"
  | authentication => "authentication"
  | authorization => "authorization"
  | timeout => "timeout"
  | communication => "communication"
  | runtime => "runtime"

def ofText? (s : String) : Option ProblemType := all.find? (·.text == s)

def baseUri : String := "https://serverlessworkflow.io/spec/1.0.0/errors/"

def uri (t : ProblemType) : String := baseUri ++ t.text

def ofUri? (uri : String) : Option ProblemType :=
  if uri.startsWith baseUri then ofText? (String.ofList (uri.toList.drop baseUri.length)) else none

def status : ProblemType → UInt16
  | configuration | validation | expression => 400
  | authentication => 401
  | authorization => 403
  | timeout => 408
  | communication | runtime => 500

end ProblemType

structure Problem where
  type : String
  status : UInt16
  title : Option String := none
  detail : Option String := none
  instance_ : Option String := none
deriving DecidableEq, Repr

namespace Problem

def codec : Codec Problem :=
  .record "ErrorDefinition" Problem.mk <|
    .more (.required "type" .string (·.type)) <|
    .more (.required "status" .uint16 (·.status)) <|
    .more (.optional "title" .string (·.title)) <|
    .more (.optional "detail" .string (·.detail)) <|
    .more (.optional "instance" .string (·.instance_)) .done

/-- The problem of a category. -/
def ofType (t : ProblemType) : Problem := { type := t.uri, status := t.status }

def type? (p : Problem) : Option ProblemType := ProblemType.ofUri? p.type

def text (p : Problem) : String :=
  p.type ++ " (" ++ toString p.status.toNat ++ "): " ++ p.title.getD "Unknown error"

def check (field : String) (p : Problem) : Check := do
  Format.checkUriReference s!"{field}.type" p.type
  if 100 ≤ p.status && p.status ≤ 599 then .ok ()
  else
    .error (.invalidFormat s!"{field}.status" (toString p.status.toNat)
      "must be a HTTP status code")

end Problem

/-! ## Templates -/

/-- The literal parts of a template, between the names in braces. An opening brace without a closing
one before the next opening brace is literal. -/
def templateParts (template : List Char) : List (List Char) :=
  pieces (Url.splitAt (· == '\x7b') template)
where
  /-- Joins the pieces between opening braces. -/
  pieces : List (List Char) → List (List Char)
    | [] => [[]]
    | first :: rest => rest.foldl add [first]
  /-- Appends a piece that an opening brace precedes. -/
  add (parts : List (List Char)) (piece : List Char) : List (List Char) :=
    match piece.dropWhile (· != '\x7d') with
    | _ :: literal => parts ++ [literal]
    | [] => parts.dropLast ++ [parts.getLast?.getD [] ++ '\x7b' :: piece]

/-- Whether a text is the given parts in order with any texts without line feeds between them. -/
def matchesParts : List (List Char) → List Char → Bool
  | [], cs => cs.isEmpty
  | [last], cs => last == cs
  | part :: rest, cs => part.isPrefixOf cs && skip rest (cs.drop part.length)
where
  /-- Passes over characters before the next part. -/
  skip (rest : List (List Char)) : List Char → Bool
    | [] => matchesParts rest []
    | c :: cs => matchesParts rest (c :: cs) || (c != '\n' && skip rest cs)

def matchesTemplate (template text : String) : Bool :=
  matchesParts (templateParts template.toList) text.toList

/-! ## Filters -/

/-- The properties that a caught problem has. -/
structure ProblemProperties where
  type : Option String := none
  status : Option UInt16 := none
  instance_ : Option String := none
  title : Option String := none
  detail : Option String := none
deriving DecidableEq, Repr

def ProblemProperties.codec : Codec ProblemProperties :=
  .record "ErrorFilterProperties" ProblemProperties.mk <|
    .more (.optional "type" .string (·.type)) <|
    .more (.optional "status" .uint16 (·.status)) <|
    .more (.optional "instance" .string (·.instance_)) <|
    .more (.optional "title" .string (·.title)) <|
    .more (.optional "detail" .string (·.detail)) .done

structure ProblemFilter where
  properties : Option ProblemProperties := none
deriving DecidableEq, Repr

namespace ProblemFilter

def codec : Codec ProblemFilter :=
  .record "ErrorFilterDefinition" ProblemFilter.mk <|
    .more (.optional "with" ProblemProperties.codec (·.properties)) .done

/-- Whether a text that may be absent matches a template that may be absent. -/
def matchesText (template text : Option String) : Bool :=
  template.all fun t => text.any (matchesTemplate t)

/-- Every property that is given matches that of the problem. -/
def accepts (f : ProblemFilter) (p : Problem) : Bool :=
  f.properties.all fun w =>
    w.status.all (· == p.status) && matchesText w.type (some p.type)
      && matchesText w.instance_ p.instance_ && matchesText w.title p.title
      && matchesText w.detail p.detail

end ProblemFilter

end WorkflowDsl
