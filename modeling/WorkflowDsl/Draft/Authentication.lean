import WorkflowDsl.Model.Authentication
import WorkflowDsl.Text.Blank

/-!
# Authentication policies in the making

A draft is a definition of which parts may still be missing; it is changed freely, and checked when
it is built. The properties of a scheme are their own draft. A policy starts without a scheme, and
the scheme chosen last counts.
-/

namespace WorkflowDsl

/-- Builds the properties of the basic scheme. -/
def Credentials.build (c : Credentials) : Except DefinitionError Credentials := do
  c.check "BasicAuthenticationSchemeDefinition"
  .ok c

/-- Builds the properties of the digest scheme. -/
def Credentials.buildDigest (c : Credentials) : Except DefinitionError Credentials := do
  c.check "DigestAuthenticationSchemeDefinition"
  .ok c

def BearerToken.build (b : BearerToken) : Except DefinitionError BearerToken := do
  b.check "BearerAuthenticationSchemeDefinition"
  .ok b

namespace OAuth2

/-- The client of a draft, which may not be there yet. -/
def draftClient (o : OAuth2) : Client := o.client.getD {}

def withClient (o : OAuth2) (id : String) (secret : Option String) : OAuth2 :=
  { o with client := some { o.draftClient with id := some id, secret } }

def withAssertion (o : OAuth2) (assertion : String) : OAuth2 :=
  { o with client := some { o.draftClient with assertion := some assertion } }

def withClientAuthentication (o : OAuth2) (authentication : ClientAuthentication) : OAuth2 :=
  { o with client := some { o.draftClient with authentication := some authentication } }

/-- Builds the properties of the schemes `oauth2` and `oidc`. -/
def build (o : OAuth2) : Except DefinitionError OAuth2 := do
  if o.secret.isNone then
    o.authority.forM (Format.checkUri "authority")
  o.check "OAuth2AuthenticationSchemeDefinition"
  .ok o

end OAuth2

/-- Builds a policy. Errors name the scheme. -/
def Authentication.build : Authentication → Except DefinitionError Authentication
  | secret name =>
    if Text.isBlankText name then .error (.missingField "AuthenticationPolicyDefinition" "use")
    else .ok (secret name)
  | basic c => (c.build.map basic).mapError (.within "basic")
  | bearer b => (b.build.map bearer).mapError (.within "bearer")
  | digest c => (c.buildDigest.map digest).mapError (.within "digest")
  | oauth2 o => (o.build.map oauth2).mapError (.within "oauth2")
  | oidc o => (o.build.map oidc).mapError (.within "oidc")

structure AuthenticationDraft where
  policy : Option Authentication := none
deriving Repr

def AuthenticationDraft.build (d : AuthenticationDraft) : Except DefinitionError Authentication :=
  match d.policy with
  | some policy => policy.build
  | none => .error (.missingField "AuthenticationPolicyDefinition" "scheme")

end WorkflowDsl
