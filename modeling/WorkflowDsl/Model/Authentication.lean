import WorkflowDsl.Codec.Collection
import WorkflowDsl.Codec.Keyed
import WorkflowDsl.Codec.Record
import WorkflowDsl.Format.Uri

/-!
# Authentication

An authentication policy names a scheme over its properties (`basic`, `bearer`, `digest`, `oauth2`
or `oidc`), or under `use` a secret that holds the credentials. A definition that needs a policy
has it inline or names one that the document declares.
-/

namespace WorkflowDsl

inductive AuthenticationScheme where
  | basic
  | bearer
  | digest
  | oauth2
  | oidc
deriving DecidableEq, Repr

namespace AuthenticationScheme

def all : List AuthenticationScheme := [basic, bearer, digest, oauth2, oidc]

def text : AuthenticationScheme → String
  | basic => "basic"
  | bearer => "bearer"
  | digest => "digest"
  | oauth2 => "oauth2"
  | oidc => "oidc"

def ofText? (s : String) : Option AuthenticationScheme := all.find? (·.text == s)

end AuthenticationScheme

/-! ## Properties of the schemes -/

/-- A user name and a password, or the secret that holds them. -/
structure Credentials where
  username : Option String := none
  password : Option String := none
  secret : Option String := none
deriving DecidableEq, Repr

namespace Credentials

def codec : Codec Credentials :=
  .record "BasicAuthenticationSchemeDefinition" Credentials.mk <|
    .more (.optional "username" .string (·.username)) <|
    .more (.optional "password" .string (·.password)) <|
    .more (.optional "use" .string (·.secret)) .done

def check (field : String) (c : Credentials) : Check :=
  if c.secret.isSome then
    if c.username.isSome || c.password.isSome then
      .error (.mutuallyExclusive field ["use", "username"])
    else .ok ()
  else if c.username.isNone then .error (.missingField field "username")
  else if c.password.isNone then .error (.missingField field "password")
  else .ok ()

end Credentials

/-- A token, or the secret that holds it. -/
structure BearerToken where
  token : Option String := none
  secret : Option String := none
deriving DecidableEq, Repr

namespace BearerToken

def codec : Codec BearerToken :=
  .record "BearerAuthenticationSchemeDefinition" BearerToken.mk <|
    .more (.optional "token" .string (·.token)) <|
    .more (.optional "use" .string (·.secret)) .done

def check (field : String) (b : BearerToken) : Check :=
  match b.token, b.secret with
  | some _, some _ => .error (.mutuallyExclusive field ["token", "use"])
  | none, none => .error (.missingField field "token")
  | _, _ => .ok ()

end BearerToken

namespace OAuth2

inductive GrantType where
  | authorizationCode
  | clientCredentials
  | password
  | refreshToken
  | tokenExchange
deriving DecidableEq, Repr

def GrantType.all : List GrantType :=
  [authorizationCode, clientCredentials, password, refreshToken, tokenExchange]

def GrantType.text : GrantType → String
  | authorizationCode => "authorization_code"
  | clientCredentials => "client_credentials"
  | password => "password"
  | refreshToken => "refresh_token"
  | tokenExchange => "urn:ietf:params:oauth:grant-type:token-exchange"

def GrantType.codec : Codec GrantType := .choice "OAuth2GrantType" GrantType.all GrantType.text

inductive ClientAuthentication where
  | clientSecretBasic
  | clientSecretPost
  | clientSecretJwt
  | privateKeyJwt
  | none
deriving DecidableEq, Repr

def ClientAuthentication.all : List ClientAuthentication :=
  [clientSecretBasic, clientSecretPost, clientSecretJwt, privateKeyJwt, none]

def ClientAuthentication.text : ClientAuthentication → String
  | clientSecretBasic => "client_secret_basic"
  | clientSecretPost => "client_secret_post"
  | clientSecretJwt => "client_secret_jwt"
  | privateKeyJwt => "private_key_jwt"
  | none => "none"

def ClientAuthentication.codec : Codec ClientAuthentication :=
  .choice "OAuth2ClientAuthenticationMethod" ClientAuthentication.all ClientAuthentication.text

structure Client where
  id : Option String := none
  secret : Option String := none
  assertion : Option String := none
  authentication : Option ClientAuthentication := none
deriving DecidableEq, Repr

def Client.codec : Codec Client :=
  .record "OAuth2ClientDefinition" Client.mk <|
    .more (.optional "id" .string (·.id)) <|
    .more (.optional "secret" .string (·.secret)) <|
    .more (.optional "assertion" .string (·.assertion)) <|
    .more (.optional "authentication" ClientAuthentication.codec (·.authentication)) .done

inductive Encoding where
  | form
  | json
deriving DecidableEq, Repr

def Encoding.all : List Encoding := [form, json]

def Encoding.text : Encoding → String
  | form => "application/x-www-form-urlencoded"
  | json => "application/json"

def Encoding.codec : Codec Encoding := .choice "OAuth2RequestEncoding" Encoding.all Encoding.text

/-- How the request for a token is encoded. -/
structure TokenRequest where
  encoding : Encoding := .form
deriving DecidableEq, Repr

def TokenRequest.codec : Codec TokenRequest :=
  .record "OAuth2TokenRequestDefinition" TokenRequest.mk <|
    .more (.defaulted "encoding" Encoding.codec .form (·.encoding)) .done

/-- A token of a subject or an actor. -/
structure Token where
  token : String
  type : String
deriving DecidableEq, Repr

def Token.codec : Codec Token :=
  .record "OAuth2TokenDefinition" Token.mk <|
    .more (.required "token" .string (·.token)) <|
    .more (.required "type" .string (·.type)) .done

/-- Paths of the endpoints of an authority. -/
structure Endpoints where
  token : String := "/oauth2/token"
  revocation : String := "/oauth2/revoke"
  introspection : String := "/oauth2/introspect"
deriving DecidableEq, Repr

def Endpoints.codec : Codec Endpoints :=
  .record "OAuth2AuthenticationEndpointsDefinition" Endpoints.mk <|
    .more (.defaulted "token" .string "/oauth2/token" (·.token)) <|
    .more (.defaulted "revocation" .string "/oauth2/revoke" (·.revocation)) <|
    .more (.defaulted "introspection" .string "/oauth2/introspect" (·.introspection)) .done

end OAuth2

/-- The properties of the schemes `oauth2` and `oidc`. Endpoints are written only when they differ
from the usual ones. -/
structure OAuth2 where
  authority : Option String := none
  grant : Option OAuth2.GrantType := none
  client : Option OAuth2.Client := none
  request : Option OAuth2.TokenRequest := none
  issuers : List String := []
  scopes : List String := []
  audiences : List String := []
  username : Option String := none
  password : Option String := none
  subject : Option OAuth2.Token := none
  actor : Option OAuth2.Token := none
  endpoints : OAuth2.Endpoints := {}
  secret : Option String := none
deriving DecidableEq, Repr

namespace OAuth2

def codec : Codec OAuth2 :=
  .record "OAuth2AuthenticationSchemeDefinition" OAuth2.mk <|
    .more (.optional "authority" .string (·.authority)) <|
    .more (.optional "grant" GrantType.codec (·.grant)) <|
    .more (.optional "client" Client.codec (·.client)) <|
    .more (.optional "request" TokenRequest.codec (·.request)) <|
    .more (.omitted "issuers" (.list .string) [] List.isEmpty (·.issuers)) <|
    .more (.omitted "scopes" (.list .string) [] List.isEmpty (·.scopes)) <|
    .more (.omitted "audiences" (.list .string) [] List.isEmpty (·.audiences)) <|
    .more (.optional "username" .string (·.username)) <|
    .more (.optional "password" .string (·.password)) <|
    .more (.optional "subject" Token.codec (·.subject)) <|
    .more (.optional "actor" Token.codec (·.actor)) <|
    .more (.omitted "endpoints" Endpoints.codec {} (· == {}) (·.endpoints)) <|
    .more (.optional "use" .string (·.secret)) .done

def check (field : String) (o : OAuth2) : Check :=
  if o.secret.isSome then .ok ()
  else
    match o.authority with
    | none => .error (.missingField field "authority")
    | some authority => do
      Format.checkUri s!"{field}.authority" authority
      match o.grant with
      | none => .error (.missingField field "grant")
      | some .password =>
        if o.username.isNone || o.password.isNone then .error (.missingField field "username")
        else .ok ()
      | some .tokenExchange =>
        if o.subject.isNone then .error (.missingField field "subject") else .ok ()
      | some _ => .ok ()

end OAuth2

/-! ## Policies -/

/-- A scheme with its properties, or the name of a secret. -/
inductive Authentication where
  | secret (name : String)
  | basic (properties : Credentials)
  | bearer (properties : BearerToken)
  | digest (properties : Credentials)
  | oauth2 (properties : OAuth2)
  | oidc (properties : OAuth2)
deriving DecidableEq, Repr

namespace Authentication

/-- The scheme of a policy that does not name a secret. -/
def scheme? : Authentication → Option AuthenticationScheme
  | secret _ => none
  | basic _ => some .basic
  | bearer _ => some .bearer
  | digest _ => some .digest
  | oauth2 _ => some .oauth2
  | oidc _ => some .oidc

/-- The secret that the policy, or its scheme, takes the credentials from. -/
def secret? : Authentication → Option String
  | secret name => some name
  | basic c | digest c => c.secret
  | bearer b => b.secret
  | oauth2 o | oidc o => o.secret

/-- The keys of which a policy has exactly one. -/
def kindKeys : List String := AuthenticationScheme.all.map (·.text) ++ ["use"]

def ofNode (n : Node) : Except DefinitionError Authentication := do
  let es ← n.toObject "AuthenticationPolicyDefinition"
  let key ← es.singleKind "authentication policy" kindKeys
  let body := (es.get? key).getD .null
  match AuthenticationScheme.ofText? key with
  | none =>
    match body with
    | .string name => .ok (secret name)
    | n => .error (.invalidFormat "use" (Json.compact n) "must be the name of a secret")
  | some .basic => (Credentials.codec.decodeObject key body).map basic
  | some .bearer => (BearerToken.codec.decodeObject key body).map bearer
  | some .digest => (Credentials.codec.decodeObject key body).map digest
  | some .oauth2 => (OAuth2.codec.decodeObject key body).map oauth2
  | some .oidc => (OAuth2.codec.decodeObject key body).map oidc

def toNode : Authentication → Node
  | secret name => .mapping [("use", .string name)]
  | basic c => .mapping [("basic", Credentials.codec.write c)]
  | bearer b => .mapping [("bearer", BearerToken.codec.write b)]
  | digest c => .mapping [("digest", Credentials.codec.write c)]
  | oauth2 o => .mapping [("oauth2", OAuth2.codec.write o)]
  | oidc o => .mapping [("oidc", OAuth2.codec.write o)]

def codec : Codec Authentication := .ofDefinition "AuthenticationPolicyDefinition" ofNode toNode

def check (field : String) : Authentication → Check
  | secret _ => .ok ()
  | basic c => c.check s!"{field}.basic"
  | digest c => c.check s!"{field}.digest"
  | bearer b => b.check s!"{field}.bearer"
  | oauth2 o => o.check s!"{field}.oauth2"
  | oidc o => o.check s!"{field}.oidc"

end Authentication

/-- A policy, or the name of one that the document declares. -/
abbrev AuthenticationReference := OneOf Authentication String

namespace AuthenticationReference

def codec : Codec AuthenticationReference := .oneOf Authentication.codec .string

end AuthenticationReference

end WorkflowDsl
