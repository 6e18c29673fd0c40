import WorkflowDsl.Model.Authentication

/-!
# Endpoints, external resources and schemas

An endpoint is a URI, with or without a policy to authenticate. An external resource is a document
at an endpoint, and a schema either stands in the document itself or is such a resource.
-/

namespace WorkflowDsl

/-- A URI with the policy to authenticate there. -/
structure EndpointProperties where
  uri : String
  authentication : Option AuthenticationReference := none
deriving DecidableEq, Repr

def EndpointProperties.codec : Codec EndpointProperties :=
  .record "EndpointDefinition" EndpointProperties.mk <|
    .more (.required "uri" .string (·.uri)) <|
    .more (.optional "authentication" AuthenticationReference.codec (·.authentication)) .done

/-- An endpoint with its properties, or a bare URI. -/
abbrev Endpoint := OneOf EndpointProperties String

namespace Endpoint

def codec : Codec Endpoint := .oneOf EndpointProperties.codec .string

def uri : Endpoint → String
  | .first properties => properties.uri
  | .second uri => uri

def authentication? (e : Endpoint) : Option AuthenticationReference :=
  e.first?.bind (·.authentication)

/-- The URI is a reference, absolute or not. -/
def check (field : String) (e : Endpoint) : Check := Format.checkUriReference s!"{field}.uri" e.uri

end Endpoint

/-- A document at an endpoint. -/
structure ExternalResource where
  name : Option String := none
  endpoint : Endpoint
deriving DecidableEq, Repr

namespace ExternalResource

def codec : Codec ExternalResource :=
  .record "ExternalResourceDefinition" ExternalResource.mk <|
    .more (.optional "name" .string (·.name)) <|
    .more (.required "endpoint" Endpoint.codec (·.endpoint)) .done

def ofUri (uri : String) : ExternalResource := { endpoint := .second uri }

def uri (r : ExternalResource) : String := r.endpoint.uri

end ExternalResource

/-- A schema in the document (`document`) or outside of it (`resource`). -/
structure Schema where
  format : String := "json"
  document : Option Node := none
  resource : Option ExternalResource := none
deriving BEq, Repr

namespace Schema

def codec : Codec Schema :=
  .record "SchemaDefinition" Schema.mk <|
    .more (.omitted "format" .string "json" (· == "json") (·.format)) <|
    .more (.optional "document" .node (·.document)) <|
    .more (.optional "resource" ExternalResource.codec (·.resource)) .done

/-- A schema has exactly one source. -/
def check (field : String) (s : Schema) : Check :=
  match s.document, s.resource with
  | some _, some _ => .error (.mutuallyExclusive field ["document", "resource"])
  | none, none => .error (.missingField field "document")
  | none, some r => r.endpoint.check s!"{field}.resource.endpoint"
  | some _, none => .ok ()

end Schema

end WorkflowDsl
