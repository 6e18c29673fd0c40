import WorkflowDsl.Codec.Collection
import WorkflowDsl.Codec.Keyed
import WorkflowDsl.Codec.Record
import WorkflowDsl.Document.Json.Printer
import WorkflowDsl.Text.Blank

/-!
# Declarations of legacy documents

Functions, events, retry strategies, errors, authentication entries and timeouts are declared once
and referred to by name from the states.
-/

namespace WorkflowDsl.Legacy

/-! ## Functions -/

inductive FunctionType where
  | rest
  | asyncapi
  | rpc
  | graphql
  | odata
  | expression
  | custom
deriving DecidableEq, Repr

namespace FunctionType

def all : List FunctionType := [rest, asyncapi, rpc, graphql, odata, expression, custom]

def text : FunctionType → String
  | rest => "rest"
  | asyncapi => "asyncapi"
  | rpc => "rpc"
  | graphql => "graphql"
  | odata => "odata"
  | expression => "expression"
  | custom => "custom"

def ofText? (s : String) : Option FunctionType := all.find? (·.text == s)

def codec : Codec FunctionType := .choice "FunctionType" all text

end FunctionType

structure Function where
  name : String
  operation : String
  type : FunctionType := .rest
  auth : Option String := none
  metadata : OrderedMap String := {}
deriving BEq, Repr

def Function.codec : Codec Function :=
  .record "FunctionDefinition" Function.mk <|
    .more (.required "name" .string (·.name)) <|
    .more (.required "operation" .string (·.operation)) <|
    .more (.defaulted "type" FunctionType.codec .rest (·.type)) <|
    .more (.optional "authRef" .string (·.auth)) <|
    .more (.omitted "metadata" (.map .string) {} OrderedMap.isEmpty (·.metadata)) .done

/-! ## Events -/

inductive EventKind where
  | consumed
  | produced
deriving DecidableEq, Repr

namespace EventKind

def all : List EventKind := [consumed, produced]

def text : EventKind → String
  | consumed => "consumed"
  | produced => "produced"

def ofText? (s : String) : Option EventKind := all.find? (·.text == s)

def codec : Codec EventKind := .choice "EventKind" all text

end EventKind

structure Correlation where
  attributeName : String
  attributeValue : Option String := none
deriving DecidableEq, Repr

def Correlation.codec : Codec Correlation :=
  .record "CorrelationDefinition" Correlation.mk <|
    .more (.required "contextAttributeName" .string (·.attributeName)) <|
    .more (.optional "contextAttributeValue" .string (·.attributeValue)) .done

structure Event where
  name : String
  source : Option String := none
  type : Option String := none
  kind : EventKind := .consumed
  correlation : List Correlation := []
  dataOnly : Bool := true
  metadata : OrderedMap String := {}
deriving BEq, Repr

def Event.codec : Codec Event :=
  .record "EventDefinition" Event.mk <|
    .more (.required "name" .string (·.name)) <|
    .more (.optional "source" .string (·.source)) <|
    .more (.optional "type" .string (·.type)) <|
    .more (.defaulted "kind" EventKind.codec .consumed (·.kind)) <|
    .more (.omitted "correlation" (.list Correlation.codec) [] List.isEmpty (·.correlation)) <|
    .more (.omitted "dataOnly" .bool true id (·.dataOnly)) <|
    .more (.omitted "metadata" (.map .string) {} OrderedMap.isEmpty (·.metadata)) .done

/-! ## Retries and errors -/

/-- A number, or a text that may denote one. -/
abbrev NumberOrText := OneOf Binary64 String

def NumberOrText.codec : Codec NumberOrText := .oneOf .float .string

/-- A count, or a text that may denote one. -/
abbrev CountOrText := OneOf UInt32 String

def CountOrText.codec : Codec CountOrText := .oneOf .uint32 .string

/-- The number of 32 bits that ASCII digits denote. A plus sign may stand before them. -/
def count? (s : String) : Option UInt32 :=
  let digits :=
    match s.toList with
    | '+' :: rest => rest
    | cs => cs
  if digits.isEmpty || !digits.all Char.isDigit then none
  else
    let n := digits.foldl (fun n c => n * 10 + (c.toNat - 48)) 0
    if n < UInt32.size then some (.ofNat n) else none

/-- A retry strategy that actions refer to. -/
structure Retry where
  name : String
  delay : Option String := none
  maxDelay : Option String := none
  increment : Option String := none
  multiplier : Option NumberOrText := none
  maxAttempts : Option CountOrText := none
  jitter : Option NumberOrText := none
deriving Repr

/-- Whether two optional numbers or texts are equal as numbers or texts. -/
def NumberOrText.equal : Option NumberOrText → Option NumberOrText → Bool
  | none, none => true
  | some (.first x), some (.first y) => x.equal y
  | some (.second s), some (.second t) => s == t
  | _, _ => false

namespace Retry

instance : BEq Retry where
  beq r s :=
    r.name == s.name && r.delay == s.delay && r.maxDelay == s.maxDelay
      && r.increment == s.increment && NumberOrText.equal r.multiplier s.multiplier
      && r.maxAttempts == s.maxAttempts && NumberOrText.equal r.jitter s.jitter

def codec : Codec Retry :=
  .record "RetryDefinition" Retry.mk <|
    .more (.required "name" .string (·.name)) <|
    .more (.optional "delay" .string (·.delay)) <|
    .more (.optional "maxDelay" .string (·.maxDelay)) <|
    .more (.optional "increment" .string (·.increment)) <|
    .more (.optional "multiplier" NumberOrText.codec (·.multiplier)) <|
    .more (.optional "maxAttempts" CountOrText.codec (·.maxAttempts)) <|
    .more (.optional "jitter" NumberOrText.codec (·.jitter)) .done

/-- The number of attempts, if it is one. -/
def maxAttempts? (r : Retry) : Option UInt32 :=
  r.maxAttempts.bind (OneOf.either some fun s => count? (Text.trim s))

end Retry

structure Error where
  name : String
  code : Option String := none
  description : Option String := none
deriving DecidableEq, Repr

def Error.codec : Codec Error :=
  .record "ErrorDefinition" Error.mk <|
    .more (.required "name" .string (·.name)) <|
    .more (.optional "code" .string (·.code)) <|
    .more (.optional "description" .string (·.description)) .done

/-! ## Timeouts -/

structure ExecutionTimeout where
  duration : String
  interrupt : Bool := false
  runBefore : Option String := none
deriving DecidableEq, Repr

def ExecutionTimeout.codec : Codec ExecutionTimeout :=
  .record "WorkflowExecTimeoutDefinition" ExecutionTimeout.mk <|
    .more (.required "duration" .string (·.duration)) <|
    .more (.omitted "interrupt" .bool false (!·) (·.interrupt)) <|
    .more (.optional "runBefore" .string (·.runBefore)) .done

structure Timeouts where
  workflow : Option (OneOf ExecutionTimeout String) := none
  state : Option String := none
  action : Option String := none
  branch : Option String := none
  event : Option String := none
deriving DecidableEq, Repr

def Timeouts.codec : Codec Timeouts :=
  .record "TimeoutsDefinition" Timeouts.mk <|
    .more (.optional "workflowExecTimeout" (.oneOf ExecutionTimeout.codec .string)
      (·.workflow)) <|
    .more (.optional "stateExecTimeout" .string (·.state)) <|
    .more (.optional "actionExecTimeout" .string (·.action)) <|
    .more (.optional "branchExecTimeout" .string (·.branch)) <|
    .more (.optional "eventTimeout" .string (·.event)) .done

/-! ## Start and input -/

structure Cron where
  expression : String
  validUntil : Option String := none
deriving DecidableEq, Repr

def Cron.codec : Codec Cron :=
  .record "CronDefinition" Cron.mk <|
    .more (.required "expression" .string (·.expression)) <|
    .more (.optional "validUntil" .string (·.validUntil)) .done

structure Schedule where
  interval : Option String := none
  cron : Option (OneOf Cron String) := none
  timezone : Option String := none
deriving DecidableEq, Repr

def Schedule.codec : Codec Schedule :=
  .record "ScheduleDefinition" Schedule.mk <|
    .more (.optional "interval" .string (·.interval)) <|
    .more (.optional "cron" (.oneOf Cron.codec .string) (·.cron)) <|
    .more (.optional "timezone" .string (·.timezone)) .done

structure StartProperties where
  stateName : String
  schedule : Option (OneOf Schedule String) := none
deriving DecidableEq, Repr

def StartProperties.codec : Codec StartProperties :=
  .record "StartDefinition" StartProperties.mk <|
    .more (.required "stateName" .string (·.stateName)) <|
    .more (.optional "schedule" (.oneOf Schedule.codec .string) (·.schedule)) .done

/-- The state to start with and when, or the state alone. -/
abbrev Start := OneOf StartProperties String

namespace Start

def codec : Codec Start := .oneOf StartProperties.codec .string

def state : Start → String
  | .first s => s.stateName
  | .second name => name

end Start

/-- The schema of the input, or where it is found. -/
structure InputSchema where
  schema : OneOf (OrderedMap Node) String
  failOnErrors : Bool := true
deriving BEq, Repr

def InputSchema.codec : Codec InputSchema :=
  .record "DataInputSchemaDefinition" InputSchema.mk <|
    .more (.required "schema" (.oneOf .object .string) (·.schema)) <|
    .more (.defaulted "failOnValidationErrors" .bool true (·.failOnErrors)) .done

/-! ## Authentication -/

inductive AuthenticationScheme where
  | basic
  | bearer
  | oauth2
deriving DecidableEq, Repr

namespace AuthenticationScheme

def all : List AuthenticationScheme := [basic, bearer, oauth2]

def text : AuthenticationScheme → String
  | basic => "basic"
  | bearer => "bearer"
  | oauth2 => "oauth2"

def ofText? (s : String) : Option AuthenticationScheme := all.find? (·.text == s)

end AuthenticationScheme

structure BasicProperties where
  username : String
  password : String
  metadata : OrderedMap String := {}
deriving BEq, Repr

def BasicProperties.codec : Codec BasicProperties :=
  .record "BasicPropertiesDefinition" BasicProperties.mk <|
    .more (.required "username" .string (·.username)) <|
    .more (.required "password" .string (·.password)) <|
    .more (.omitted "metadata" (.map .string) {} OrderedMap.isEmpty (·.metadata)) .done

structure BearerProperties where
  token : String
  metadata : OrderedMap String := {}
deriving BEq, Repr

def BearerProperties.codec : Codec BearerProperties :=
  .record "BearerPropertiesDefinition" BearerProperties.mk <|
    .more (.required "token" .string (·.token)) <|
    .more (.omitted "metadata" (.map .string) {} OrderedMap.isEmpty (·.metadata)) .done

inductive GrantType where
  | password
  | clientCredentials
  | tokenExchange
deriving DecidableEq, Repr

def GrantType.all : List GrantType := [password, clientCredentials, tokenExchange]

def GrantType.text : GrantType → String
  | password => "password"
  | clientCredentials => "client_credentials"
  | tokenExchange => "token_exchange"

def GrantType.codec : Codec GrantType := .choice "OAuth2GrantType" GrantType.all GrantType.text

structure OAuth2Properties where
  authority : Option String := none
  grantType : GrantType
  clientId : String
  clientSecret : Option String := none
  scopes : List String := []
  username : Option String := none
  password : Option String := none
  audiences : List String := []
  subjectToken : Option String := none
  requestedSubject : Option String := none
  requestedIssuer : Option String := none
  metadata : OrderedMap String := {}
deriving BEq, Repr

def OAuth2Properties.codec : Codec OAuth2Properties :=
  .record "OAuth2PropertiesDefinition" OAuth2Properties.mk <|
    .more (.optional "authority" .string (·.authority)) <|
    .more (.required "grantType" GrantType.codec (·.grantType)) <|
    .more (.required "clientId" .string (·.clientId)) <|
    .more (.optional "clientSecret" .string (·.clientSecret)) <|
    .more (.omitted "scopes" (.list .string) [] List.isEmpty (·.scopes)) <|
    .more (.optional "username" .string (·.username)) <|
    .more (.optional "password" .string (·.password)) <|
    .more (.omitted "audiences" (.list .string) [] List.isEmpty (·.audiences)) <|
    .more (.optional "subjectToken" .string (·.subjectToken)) <|
    .more (.optional "requestedSubject" .string (·.requestedSubject)) <|
    .more (.optional "requestedIssuer" .string (·.requestedIssuer)) <|
    .more (.omitted "metadata" (.map .string) {} OrderedMap.isEmpty (·.metadata)) .done

/-- The properties of an authentication entry, by its scheme. -/
inductive AuthenticationProperties where
  | basic (properties : BasicProperties)
  | bearer (properties : BearerProperties)
  | oauth2 (properties : OAuth2Properties)
deriving BEq, Repr

namespace AuthenticationProperties

def scheme : AuthenticationProperties → AuthenticationScheme
  | basic _ => .basic
  | bearer _ => .bearer
  | oauth2 _ => .oauth2

/-- Reads the properties of a scheme. -/
def ofNode (scheme : AuthenticationScheme) (n : Node) :
    Except DefinitionError AuthenticationProperties :=
  match scheme with
  | .basic => (BasicProperties.codec.decode n).map basic
  | .bearer => (BearerProperties.codec.decode n).map bearer
  | .oauth2 => (OAuth2Properties.codec.decode n).map oauth2

def toNode : AuthenticationProperties → Node
  | basic p => BasicProperties.codec.write p
  | bearer p => BearerProperties.codec.write p
  | oauth2 p => OAuth2Properties.codec.write p

end AuthenticationProperties

/-- A named authentication entry: its properties, or the secret that holds them. The scheme is
written only beside properties. -/
structure Authentication where
  name : String
  properties : OneOf AuthenticationProperties String
deriving BEq, Repr

namespace Authentication

def scheme? (a : Authentication) : Option AuthenticationScheme := a.properties.first?.map (·.scheme)

/-- Reads the scheme; basic unless another is given. -/
def readScheme : Option Node → Except DefinitionError AuthenticationScheme
  | none => .ok .basic
  | some (.string s) =>
    match AuthenticationScheme.ofText? s with
    | some scheme => .ok scheme
    | none => .error (.invalidFormat "scheme" s "unknown scheme")
  | some n => .error (.invalidFormat "scheme" (Json.compact n) "must be a string")

/-- Reads the properties, or the name of a secret. -/
def readProperties (scheme : AuthenticationScheme) :
    Option Node → Except DefinitionError (OneOf AuthenticationProperties String)
  | none => .error (.missingField "AuthenticationDefinition" "properties")
  | some (.string secret) => .ok (.second secret)
  | some n => do
    let es ← n.toObject "AuthenticationPropertiesDefinition"
    let properties ← (AuthenticationProperties.ofNode scheme (.mapping es)).mapError
      (.within "properties")
    .ok (.first properties)

def ofNode (n : Node) : Except DefinitionError Authentication := do
  let es ← n.toObject "AuthenticationDefinition"
  let name ←
    match es.get? "name" with
    | some (.string name) => .ok name
    | some n => .error (.invalidFormat "name" (Json.compact n) "must be a string")
    | none => .error (.missingField "AuthenticationDefinition" "name")
  let scheme ← readScheme (es.get? "scheme")
  let properties ← readProperties scheme (es.get? "properties")
  .ok { name, properties }

def toNode (a : Authentication) : Node :=
  match a.properties with
  | .first p =>
    .mapping [("name", .string a.name), ("scheme", .string p.scheme.text), ("properties", p.toNode)]
  | .second secret => .mapping [("name", .string a.name), ("properties", .string secret)]

def codec : Codec Authentication := .ofDefinition "AuthenticationDefinition" ofNode toNode

end Authentication

end WorkflowDsl.Legacy
