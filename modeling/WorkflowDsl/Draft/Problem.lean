import WorkflowDsl.Model.Problem
import WorkflowDsl.Model.Retry

/-!
# Problems, timeouts and retry policies in the making
-/

namespace WorkflowDsl

/-! ## Problems -/

structure ProblemDraft where
  type : Option String := none
  status : Option UInt16 := none
  title : Option String := none
  detail : Option String := none
  instance_ : Option String := none
deriving DecidableEq, Repr

namespace ProblemDraft

/-- Takes the type of a category, and its status if there is none yet. -/
def withType (d : ProblemDraft) (t : ProblemType) : ProblemDraft :=
  { d with type := some t.uri, status := d.status.or (some t.status) }

/-- The problem, if type and status are given. -/
def complete (d : ProblemDraft) : Except DefinitionError Problem :=
  match d.type, d.status with
  | none, _ => .error (.missingField "ErrorDefinition" "type")
  | some _, none => .error (.missingField "ErrorDefinition" "status")
  | some type, some status =>
    .ok { type, status, title := d.title, detail := d.detail, instance_ := d.instance_ }

def build (d : ProblemDraft) : Except DefinitionError Problem := do
  let problem ← d.complete
  problem.check "error"
  .ok problem

end ProblemDraft

/-! ## Timeouts -/

structure TimeoutDraft where
  after : Option Duration := none
deriving DecidableEq, Repr

def TimeoutDraft.build (d : TimeoutDraft) : Except DefinitionError Timeout :=
  match d.after with
  | none => .error (.missingField "TimeoutDefinition" "after")
  | some after => do
    after.check "after"
    .ok { after }

/-! ## Retry policies -/

namespace RetryPolicy

/-- The limit of a draft, which may not be there yet. -/
def draftLimit (p : RetryPolicy) : RetryLimit := p.limit.getD {}

/-- Changes the limit of each attempt. -/
def mapAttempt (f : AttemptLimit → AttemptLimit) (p : RetryPolicy) : RetryPolicy :=
  let limit := p.draftLimit
  { p with limit := some { limit with attempt := some (f (limit.attempt.getD {})) } }

def withMaxAttempts (p : RetryPolicy) (count : UInt32) : RetryPolicy :=
  p.mapAttempt fun a => { a with count := some count }

def withAttemptDuration (p : RetryPolicy) (duration : Duration) : RetryPolicy :=
  p.mapAttempt fun a => { a with duration := some duration }

def withMaxDuration (p : RetryPolicy) (duration : Duration) : RetryPolicy :=
  { p with limit := some { p.draftLimit with duration := some duration } }

/-- A policy that limits the attempts allows at least one. -/
def build (p : RetryPolicy) : Except DefinitionError RetryPolicy := do
  if p.maxAttempts? == some 0 then
    .error (.invalidFormat "retry.limit.attempt.count" "0" "at least one attempt is required")
  p.check "retry"
  .ok p

end RetryPolicy

end WorkflowDsl
