import WorkflowDsl.Error
import WorkflowDsl.Format.Expression
import WorkflowDsl.Text.Digit

/-!
# Texts of durations

A duration is written with a designator behind each number: `P` and the years, months, weeks and
days, then `T` and the hours, minutes and seconds (`P1DT12H`). Each component may be left out, but
not all of them, and not all behind a `T`. A runtime expression may stand for a duration.
-/

namespace WorkflowDsl.Format

/-- Takes digits off the start of a text; none if there are no digits. -/
def digits? (cs : List Char) : Option (List Char) :=
  if cs.head?.any Text.isDecimalDigit then some (cs.dropWhile Text.isDecimalDigit) else none

/-- Takes digits, with a fraction or not, off the start of a text. -/
def decimal? (cs : List Char) : Option (List Char) :=
  (digits? cs).map fun rest =>
    match rest with
    | '.' :: fraction => (digits? fraction).getD rest
    | _ => rest

/-- Takes a number with the given designator off the start of a text, if it stands there. -/
def component (designator : Char) (cs : List Char) : List Char :=
  match decimal? cs with
  | some (c :: rest) => if c == designator then rest else cs
  | _ => cs

/-- Takes off the components with the given designators, each at most once and in that order. -/
def components (designators : List Char) (cs : List Char) : List Char :=
  designators.foldl (fun cs d => component d cs) cs

/-- The form of a duration, whether or not it has a component. -/
def isPeriodFrame : List Char → Bool
  | 'P' :: rest =>
    match components ['Y', 'M', 'W', 'D'] rest with
    | [] => true
    | 'T' :: time => (components ['H', 'M', 'S'] time).isEmpty
    | _ => false
  | _ => false

def isPeriod (cs : List Char) : Bool :=
  1 < cs.length && cs.getLast? != some 'T' && isPeriodFrame cs

def checkPeriod (field value : String) : Check :=
  if isRuntimeExpression value || isPeriod value.toList then .ok ()
  else .error (.invalidFormat field value "must be an ISO 8601 duration")

end WorkflowDsl.Format
