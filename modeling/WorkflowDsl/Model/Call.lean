import WorkflowDsl.Model.Resource

/-!
# Calls

A call names a function and holds its arguments as free-form values. The arguments of the four
functions `http`, `grpc`, `openapi` and `asyncapi` have types of their own, which give views of a
call.
-/

namespace WorkflowDsl

structure Call where
  function : String
  arguments : OrderedMap Node := {}
  awaits : Option Bool := none
deriving BEq, Repr

def Call.codec : Codec Call :=
  .record "CallTaskDefinition" Call.mk <|
    .more (.required "call" .string (·.function)) <|
    .more (.omitted "with" (.map .node) {} OrderedMap.isEmpty (·.arguments)) <|
    .more (.optional "await" .bool (·.awaits)) .done

/-! ## Arguments of the functions of the language -/

/-- What an HTTP call puts out. -/
inductive HttpOutput where
  | raw
  | content
  | response
deriving DecidableEq, Repr

namespace HttpOutput

def all : List HttpOutput := [raw, content, response]

def text : HttpOutput → String
  | raw => "raw"
  | content => "content"
  | response => "response"

def ofText? (s : String) : Option HttpOutput := all.find? (·.text == s)

def codec : Codec HttpOutput := .choice "HttpOutputFormat" all text

end HttpOutput

structure HttpArguments where
  method : String
  endpoint : Endpoint
  headers : Option Node := none
  body : Option Node := none
  query : Option Node := none
  output : Option HttpOutput := none
  redirect : Option Bool := none
deriving BEq, Repr

def HttpArguments.codec : Codec HttpArguments :=
  .record "HttpCallDefinition" HttpArguments.mk <|
    .more (.required "method" .string (·.method)) <|
    .more (.required "endpoint" Endpoint.codec (·.endpoint)) <|
    .more (.optional "headers" .node (·.headers)) <|
    .more (.optional "body" .node (·.body)) <|
    .more (.optional "query" .node (·.query)) <|
    .more (.optional "output" HttpOutput.codec (·.output)) <|
    .more (.optional "redirect" .bool (·.redirect)) .done

structure GrpcService where
  name : String
  host : String
  port : Option UInt16 := none
  authentication : Option AuthenticationReference := none
deriving DecidableEq, Repr

def GrpcService.codec : Codec GrpcService :=
  .record "GrpcServiceDefinition" GrpcService.mk <|
    .more (.required "name" .string (·.name)) <|
    .more (.required "host" .string (·.host)) <|
    .more (.optional "port" .uint16 (·.port)) <|
    .more (.optional "authentication" AuthenticationReference.codec (·.authentication)) .done

structure GrpcArguments where
  proto : ExternalResource
  service : GrpcService
  method : String
  arguments : OrderedMap Node := {}
deriving BEq, Repr

def GrpcArguments.codec : Codec GrpcArguments :=
  .record "GrpcCallDefinition" GrpcArguments.mk <|
    .more (.required "proto" ExternalResource.codec (·.proto)) <|
    .more (.required "service" GrpcService.codec (·.service)) <|
    .more (.required "method" .string (·.method)) <|
    .more (.omitted "arguments" (.map .node) {} OrderedMap.isEmpty (·.arguments)) .done

structure OpenApiArguments where
  document : ExternalResource
  operationId : String
  parameters : OrderedMap Node := {}
  authentication : Option AuthenticationReference := none
  output : Option HttpOutput := none
  redirect : Option Bool := none
deriving BEq, Repr

def OpenApiArguments.codec : Codec OpenApiArguments :=
  .record "OpenApiCallDefinition" OpenApiArguments.mk <|
    .more (.required "document" ExternalResource.codec (·.document)) <|
    .more (.required "operationId" .string (·.operationId)) <|
    .more (.omitted "parameters" (.map .node) {} OrderedMap.isEmpty (·.parameters)) <|
    .more (.optional "authentication" AuthenticationReference.codec (·.authentication)) <|
    .more (.optional "output" HttpOutput.codec (·.output)) <|
    .more (.optional "redirect" .bool (·.redirect)) .done

structure AsyncApiArguments where
  document : ExternalResource
  operation : Option String := none
  server : Option Node := none
  protocol : Option String := none
  message : Option Node := none
  subscription : Option Node := none
  authentication : Option AuthenticationReference := none
deriving BEq, Repr

def AsyncApiArguments.codec : Codec AsyncApiArguments :=
  .record "AsyncApiCallDefinition" AsyncApiArguments.mk <|
    .more (.required "document" ExternalResource.codec (·.document)) <|
    .more (.optional "operation" .string (·.operation)) <|
    .more (.optional "server" .node (·.server)) <|
    .more (.optional "protocol" .string (·.protocol)) <|
    .more (.optional "message" .node (·.message)) <|
    .more (.optional "subscription" .node (·.subscription)) <|
    .more (.optional "authentication" AuthenticationReference.codec (·.authentication)) .done

namespace Call

/-- The functions whose arguments have types of their own. -/
def builtins : List String := ["http", "grpc", "openapi", "asyncapi"]

def isBuiltin (c : Call) : Bool := builtins.contains c.function

/-- Adds an argument to a call. -/
def withArgument (c : Call) (name : String) (value : Node) : Call :=
  { c with arguments := c.arguments.insert name value }

/-- The call of a function with typed arguments. -/
def ofArguments {α : Type} (codec : Codec α) (function : String) (arguments : α) : Call :=
  { function, arguments := ⟨(codec.write arguments).entries?.getD []⟩ }

/-- The typed arguments, if the call is one of the function. -/
def arguments? {α : Type} (codec : Codec α) (function : String) (c : Call) :
    Except DefinitionError (Option α) :=
  if c.function == function then (codec.decode (.mapping c.arguments.entries)).map some
  else .ok none

def http? : Call → Except DefinitionError (Option HttpArguments) :=
  arguments? HttpArguments.codec "http"

def grpc? : Call → Except DefinitionError (Option GrpcArguments) :=
  arguments? GrpcArguments.codec "grpc"

def openApi? : Call → Except DefinitionError (Option OpenApiArguments) :=
  arguments? OpenApiArguments.codec "openapi"

def asyncApi? : Call → Except DefinitionError (Option AsyncApiArguments) :=
  arguments? AsyncApiArguments.codec "asyncapi"

end Call

end WorkflowDsl
