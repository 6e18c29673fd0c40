import WorkflowDsl.Codec.Collection
import WorkflowDsl.Duration

/-!
# Timeouts and retries

A timeout is a duration. A retry policy says when and how often a failed task is tried again, and
how long to wait between the attempts.
-/

namespace WorkflowDsl

structure Timeout where
  after : Duration
deriving DecidableEq, Repr

namespace Timeout

def codec : Codec Timeout :=
  .record "TimeoutDefinition" Timeout.mk <| .more (.required "after" Duration.codec (·.after)) .done

def check (field : String) (t : Timeout) : Check := t.after.check s!"{field}.after"

end Timeout

/-- A timeout, or the name of one that the document declares. -/
abbrev TimeoutReference := OneOf Timeout String

def TimeoutReference.codec : Codec TimeoutReference := .oneOf Timeout.codec .string

/-- How the delay grows from attempt to attempt. -/
inductive Backoff where
  | constant
  | exponential (factor : Option Binary64)
  | linear (increment : Option Duration)
deriving Repr

namespace Backoff

instance : BEq Backoff where
  beq
    | constant, constant => true
    | exponential none, exponential none => true
    | exponential (some x), exponential (some y) => x.equal y
    | linear d, linear e => d == e
    | _, _ => false

def factorCodec : Codec (Option Binary64) :=
  .record "ExponentialBackoffDefinition" id <| .more (.optional "factor" .float id) .done

def incrementCodec : Codec (Option Duration) :=
  .record "LinearBackoffDefinition" id <| .more (.optional "increment" Duration.codec id) .done

def constantCodec : Codec Unit := .record "ConstantBackoffDefinition" () .done

def names : List String := ["constant", "exponential", "linear"]

/-- Reads the properties of the named kind. -/
def ofProperties (name : String) (n : Node) : Except ConversionError Backoff :=
  if name == "constant" then (constantCodec.read n).map fun _ => constant
  else if name == "exponential" then (factorCodec.read n).map exponential
  else if name == "linear" then (incrementCodec.read n).map linear
  else .error (.unknownVariant name names)

def codec : Codec Backoff where
  name := "RetryBackoffDefinition"
  read
    | .mapping [(name, n)] => ofProperties name n
    | .mapping _ => .error (.invalidValue "map" "map with a single key")
    | .string name =>
      if names.contains name then .error (.invalidType "unit variant" "newtype variant")
      else .error (.unknownVariant name names)
    | n => .error (Codec.mismatch n "string or map")
  write
    | constant => .mapping [("constant", constantCodec.write ())]
    | exponential factor => .mapping [("exponential", factorCodec.write factor)]
    | linear increment => .mapping [("linear", incrementCodec.write increment)]

end Backoff

/-- The limits of the attempts. -/
structure AttemptLimit where
  count : Option UInt32 := none
  duration : Option Duration := none
deriving DecidableEq, Repr

def AttemptLimit.codec : Codec AttemptLimit :=
  .record "RetryAttemptLimitDefinition" AttemptLimit.mk <|
    .more (.optional "count" .uint32 (·.count)) <|
    .more (.optional "duration" Duration.codec (·.duration)) .done

structure RetryLimit where
  attempt : Option AttemptLimit := none
  duration : Option Duration := none
deriving DecidableEq, Repr

def RetryLimit.codec : Codec RetryLimit :=
  .record "RetryPolicyLimitDefinition" RetryLimit.mk <|
    .more (.optional "attempt" AttemptLimit.codec (·.attempt)) <|
    .more (.optional "duration" Duration.codec (·.duration)) .done

/-- The bounds of a random delay. -/
structure Jitter where
  least : Duration
  most : Duration
deriving DecidableEq, Repr

namespace Jitter

def codec : Codec Jitter :=
  .record "JitterDefinition" Jitter.mk <|
    .more (.required "from" Duration.codec (·.least)) <|
    .more (.required "to" Duration.codec (·.most)) .done

def check (field : String) (j : Jitter) : Check := do
  j.least.check s!"{field}.from"
  j.most.check s!"{field}.to"
  match j.least.toMillis?, j.most.toMillis? with
  | some low, some high =>
    if high < low then
      .error (.invalidFormat field s!"{low}ms..{high}ms" "'from' must not exceed 'to'")
    else .ok ()
  | _, _ => .ok ()

end Jitter

structure RetryPolicy where
  condition : Option String := none
  exception : Option String := none
  delay : Option Duration := none
  backoff : Option Backoff := none
  limit : Option RetryLimit := none
  jitter : Option Jitter := none
deriving BEq, Repr

namespace RetryPolicy

def codec : Codec RetryPolicy :=
  .record "RetryPolicyDefinition" RetryPolicy.mk <|
    .more (.optional "when" .string (·.condition)) <|
    .more (.optional "exceptWhen" .string (·.exception)) <|
    .more (.optional "delay" Duration.codec (·.delay)) <|
    .more (.optional "backoff" Backoff.codec (·.backoff)) <|
    .more (.optional "limit" RetryLimit.codec (·.limit)) <|
    .more (.optional "jitter" Jitter.codec (·.jitter)) .done

def maxAttempts? (p : RetryPolicy) : Option UInt32 :=
  p.limit.bind (·.attempt) |>.bind (·.count)

def check (field : String) (p : RetryPolicy) : Check := do
  p.delay.forM fun d => d.check s!"{field}.delay"
  p.jitter.forM fun j => j.check s!"{field}.jitter"

end RetryPolicy

end WorkflowDsl
