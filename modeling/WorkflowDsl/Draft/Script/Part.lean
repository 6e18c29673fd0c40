import WorkflowDsl.Draft.Script.Basic
import WorkflowDsl.Draft.Task

/-!
# Scripts of the parts of tasks and components

The steps of the drafts that hold no tasks.
-/

namespace WorkflowDsl.Script

def credentialsStep : Step Credentials
  | c, "username", [v] => .ok { c with username := some (textOf v) }
  | c, "password", [v] => .ok { c with password := some (textOf v) }
  | c, "use_secret", [v] => .ok { c with secret := some (textOf v) }
  | c, _, _ => .ok c

def bearerStep : Step BearerToken
  | b, "token", [v] => .ok { b with token := some (textOf v) }
  | b, "use_secret", [v] => .ok { b with secret := some (textOf v) }
  | b, _, _ => .ok b

def oauth2Step : Step OAuth2
  | o, "authority", [v] => .ok { o with authority := some (textOf v) }
  | o, "grant", [v] => do
    let grant ← OAuth2.GrantType.codec.decode v
    .ok { o with grant := some grant }
  | o, "client", id :: secret => .ok (o.withClient (textOf id) (secret.head?.bind Node.string?))
  | o, "client_assertion", [v] => .ok (o.withAssertion (textOf v))
  | o, "client_authentication", [v] => do
    let method ← OAuth2.ClientAuthentication.codec.decode v
    .ok (o.withClientAuthentication method)
  | o, "request_encoding", [v] => do
    let encoding ← OAuth2.Encoding.codec.decode v
    .ok { o with request := some { encoding } }
  | o, "scope", [v] => .ok { o with scopes := o.scopes ++ [textOf v] }
  | o, "audience", [v] => .ok { o with audiences := o.audiences ++ [textOf v] }
  | o, "issuer", [v] => .ok { o with issuers := o.issuers ++ [textOf v] }
  | o, "username", [v] => .ok { o with username := some (textOf v) }
  | o, "password", [v] => .ok { o with password := some (textOf v) }
  | o, "subject", [t, y] => .ok { o with subject := some { token := textOf t, type := textOf y } }
  | o, "actor", [t, y] => .ok { o with actor := some { token := textOf t, type := textOf y } }
  | o, "endpoints", [v] => do
    let endpoints ← OAuth2.Endpoints.codec.decode v
    .ok { o with endpoints }
  | o, "use_secret", [v] => .ok { o with secret := some (textOf v) }
  | o, _, _ => .ok o

def authenticationStep : Step AuthenticationDraft
  | _, "basic", [v] => (run credentialsStep {} v).map fun c => ⟨some (.basic c)⟩
  | _, "digest", [v] => (run credentialsStep {} v).map fun c => ⟨some (.digest c)⟩
  | _, "bearer", [v] => (run bearerStep {} v).map fun b => ⟨some (.bearer b)⟩
  | _, "oauth2", [v] => (run oauth2Step {} v).map fun o => ⟨some (.oauth2 o)⟩
  | _, "oidc", [v] => (run oauth2Step {} v).map fun o => ⟨some (.oidc o)⟩
  | _, "use_secret", [v] => .ok ⟨some (.secret (textOf v))⟩
  | d, _, _ => .ok d

def endpointStep : Step EndpointDraft
  | d, "uri", [v] => .ok { d with uri := some (textOf v) }
  | d, "with_authentication", [v] => do
    let policy ← run authenticationStep {} v
    .ok { d with authentication := some (.first policy) }
  | d, "use_authentication", [v] => .ok { d with authentication := some (.second (textOf v)) }
  | d, _, _ => .ok d

def resourceStep : Step ResourceDraft
  | d, "name", [v] => .ok { d with name := some (textOf v) }
  | d, "uri", [v] => .ok { d with endpoint := some (.second (textOf v)) }
  | d, "endpoint", [v] => do
    let endpoint ← run endpointStep {} v
    .ok { d with endpoint := some (.first endpoint) }
  | d, _, _ => .ok d

def schemaStep : Step SchemaDraft
  | d, "format", [v] => .ok { d with format := some (textOf v) }
  | d, "document", [v] => .ok { d with document := some v }
  | d, "resource", [v] => do
    let resource ← run resourceStep {} v
    .ok { d with resource := some resource }
  | d, _, _ => .ok d

def problemStep : Step ProblemDraft
  | d, "type", [v] => .ok { d with type := some (textOf v) }
  | d, "of", [v] => .ok ((ProblemType.ofText? (textOf v)).elim d d.withType)
  | d, "status", [v] => .ok { d with status := some (.ofNat (natOf v)) }
  | d, "title", [v] => .ok { d with title := some (textOf v) }
  | d, "detail", [v] => .ok { d with detail := some (textOf v) }
  | d, "instance", [v] => .ok { d with instance_ := some (textOf v) }
  | d, _, _ => .ok d

def timeoutStep : Step TimeoutDraft
  | _, "after", [v] => (durationOf v).map fun after => { after := some after }
  | d, _, _ => .ok d

def retryStep : Step RetryPolicy
  | p, "when", [v] => .ok { p with condition := some (textOf v) }
  | p, "except_when", [v] => .ok { p with exception := some (textOf v) }
  | p, "delay", [v] => (durationOf v).map fun d => { p with delay := some d }
  | p, "constant_backoff", _ => .ok { p with backoff := some .constant }
  | p, "exponential_backoff", args => do
    let factor ← (Codec.float.option).decode (args.head?.getD .null)
    .ok { p with backoff := some (.exponential factor) }
  | p, "linear_backoff", args => do
    let increment ← duration? args
    .ok { p with backoff := some (.linear increment) }
  | p, "max_attempts", [v] => .ok (p.withMaxAttempts (.ofNat (natOf v)))
  | p, "attempt_duration", [v] => (durationOf v).map p.withAttemptDuration
  | p, "max_duration", [v] => (durationOf v).map p.withMaxDuration
  | p, "jitter", [a, b] => do
    let least ← durationOf a
    let most ← durationOf b
    .ok { p with jitter := some { least, most } }
  | p, _, _ => .ok p

def eventStep : Step Event
  | e, "with", [k, v] => .ok (e.withAttribute (textOf k) v)
  | e, "type", [v] => .ok (e.withAttribute "type" v)
  | e, "source", [v] => .ok (e.withAttribute "source" v)
  | e, "data", [v] => .ok (e.withAttribute "data" v)
  | e, _, _ => .ok e

def eventFilterStep : Step EventFilterDraft
  | d, "with", [k, v] => .ok (d.withAttribute (textOf k) v)
  | d, "type", [v] => .ok (d.withAttribute "type" v)
  | d, "source", [v] => .ok (d.withAttribute "source" v)
  | d, "correlate", k :: f :: expect =>
    .ok (d.withCorrelation (textOf k)
      { source := textOf f, expectation := expect.head?.bind Node.string? })
  | d, _, _ => .ok d

def eventFilter (calls : Node) : Except DefinitionError EventFilter :=
  (run eventFilterStep {} calls).map (·.build)

/-- A step of a listener, of which `nested` runs the scripts of listeners inside. -/
def listenerStepBy (nested : Node → Except DefinitionError ListenerDraft) : Step ListenerDraft
  | d, "all", [v] => (eventFilter v).map d.all
  | d, "any", [v] => (eventFilter v).map d.any
  | d, "one", [v] => (eventFilter v).map d.one
  | d, "until", [v] => (nested v).map d.untilListener
  | d, "until_expression", [v] => .ok (d.untilExpression (textOf v))
  | d, "read", [v] => (EventReadMode.codec.decode v).map d.read
  | d, _, _ => .ok d

/-- The listener of a script of less than the given depth. -/
def listenerWithin : Nat → Node → Except DefinitionError ListenerDraft
  | 0, _ => .ok {}
  | depth + 1, script => run (listenerStepBy (listenerWithin depth)) {} script

def listenerStep : Step ListenerDraft :=
  listenerStepBy fun script => listenerWithin (script.depth + 1) script

def containerStep : Step ContainerProcess
  | p, "image", [v] => .ok { p with image := textOf v }
  | p, "name", [v] => .ok { p with name := some (textOf v) }
  | p, "command", [v] => .ok { p with command := some (textOf v) }
  | p, "port", [k, v] => .ok { p with ports := p.ports.insert (textOf k) v }
  | p, "volume", [k, v] => .ok { p with volumes := p.volumes.insert (textOf k) v }
  | p, "env", [k, v] => .ok { p with environment := p.environment.insert (textOf k) (textOf v) }
  | p, "cleanup", c :: after => do
    let cleanup ← Cleanup.codec.decode c
    let after ← duration? after
    .ok { p with lifetime := some { cleanup, after } }
  | p, _, _ => .ok p

def scriptStep : Step ScriptDraft
  | d, "language", [v] => .ok { d with language := some (textOf v) }
  | d, "code", [v] => .ok { d with code := some (textOf v) }
  | d, "source", [v] => do
    let source ← run resourceStep {} v
    .ok { d with source := some source }
  | d, "argument", [k, v] => .ok { d with arguments := d.arguments.insert (textOf k) v }
  | d, "env", [k, v] => .ok { d with environment := d.environment.insert (textOf k) (textOf v) }
  | d, _, _ => .ok d

def shellStep : Step ShellProcess
  | p, "command", [v] => .ok { p with command := textOf v }
  | p, "argument", [k, v] => .ok { p with arguments := p.arguments.insert (textOf k) v }
  | p, "env", [k, v] => .ok { p with environment := p.environment.insert (textOf k) (textOf v) }
  | p, _, _ => .ok p

def workflowProcessStep : Step WorkflowProcess
  | p, "namespace", [v] => .ok { p with workspace := textOf v }
  | p, "name", [v] => .ok { p with name := textOf v }
  | p, "version", [v] => .ok { p with version := textOf v }
  | p, "input", [v] => .ok { p with input := some v }
  | p, _, _ => .ok p

def caseStep : Step SwitchCaseDraft
  | d, "when", [v] => .ok { d with condition := some (textOf v) }
  | d, "then", [v] => .ok { d with next := some (.ofText (textOf v)) }
  | d, _, _ => .ok d

end WorkflowDsl.Script
