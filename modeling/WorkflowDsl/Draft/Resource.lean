import WorkflowDsl.Draft.Authentication
import WorkflowDsl.Model.Resource

/-!
# Endpoints, resources and schemas in the making
-/

namespace WorkflowDsl

structure EndpointDraft where
  uri : Option String := none
  authentication : Option (OneOf AuthenticationDraft String) := none
deriving Repr

namespace EndpointDraft

def buildAuthentication : Option (OneOf AuthenticationDraft String) →
    Except DefinitionError (Option AuthenticationReference)
  | none => .ok none
  | some (.first draft) =>
    (draft.build.map fun policy => some (.first policy)).mapError (.within "authentication")
  | some (.second name) => .ok (some (.second name))

/-- The URI is required, and not blank. -/
def build (d : EndpointDraft) : Except DefinitionError EndpointProperties :=
  match d.uri.filter (!Text.isBlankText ·) with
  | none => .error (.missingField "EndpointDefinition" "uri")
  | some uri => do
    let authentication ← buildAuthentication d.authentication
    Format.checkUriReference "uri" uri
    .ok { uri, authentication }

end EndpointDraft

structure ResourceDraft where
  name : Option String := none
  endpoint : Option (OneOf EndpointDraft String) := none
deriving Repr

namespace ResourceDraft

def buildEndpoint : OneOf EndpointDraft String → Except DefinitionError Endpoint
  | .first draft => (draft.build.map .first).mapError (.within "endpoint")
  | .second uri => do
    Endpoint.check "endpoint" (.second uri)
    .ok (.second uri)

def build (d : ResourceDraft) : Except DefinitionError ExternalResource :=
  match d.endpoint with
  | none => .error (.missingField "ExternalResourceDefinition" "endpoint")
  | some endpoint => (buildEndpoint endpoint).map fun endpoint => { name := d.name, endpoint }

end ResourceDraft

structure SchemaDraft where
  format : Option String := none
  document : Option Node := none
  resource : Option ResourceDraft := none
deriving Repr

/-- The format is `json` unless another is given. -/
def SchemaDraft.build (d : SchemaDraft) : Except DefinitionError Schema := do
  let resource ← d.resource.mapM fun r => r.build.mapError (.within "schema.resource")
  let schema := { format := d.format.getD "json", document := d.document, resource }
  Schema.check "schema" schema
  .ok schema

end WorkflowDsl
