import WorkflowDsl.Url.Host

/-!
# URLs

A `Url` has a scheme, an authority, a path, a query and a fragment. The path of a URL that nothing
can be joined to is opaque; any other path is a list of segments, and its text has a slash before
each of them. `Url.text` writes a URL.
-/

namespace WorkflowDsl

namespace Url

/-- What stands behind the two slashes of a URL. There may be no host, as in `file:///`. -/
structure Authority where
  username : String := ""
  password : String := ""
  host : Option Host := none
  port : Option Nat := none
deriving DecidableEq, Repr

inductive Path where
  | opaque_ (text : String)
  | segments (list : List String)
deriving DecidableEq, Repr

def Path.text : Path → String
  | opaque_ s => s
  | segments ss => String.join (ss.map ("/" ++ ·))

def Authority.text (a : Authority) : String :=
  let password := if a.password.isEmpty then "" else ":" ++ a.password
  let user := a.username ++ password
  (if user.isEmpty then "" else user ++ "@") ++ (a.host.map Host.text).getD ""
    ++ (a.port.map fun n => ":" ++ toString n).getD ""

end Url

/-- A uniform resource locator. All its parts are held as they are written. -/
structure Url where
  scheme : String
  authority : Option Url.Authority
  path : Url.Path
  query : Option String := none
  fragment : Option String := none
deriving DecidableEq, Repr

namespace Url

/-- The cause for which a text is no URL. -/
inductive ParseError where
  | emptyHost
  | invalidDomainName
  | invalidDomainCharacter
  | invalidPort
  | invalidIpv4
  | invalidIpv6
  | relativeWithoutBase
  | relativeToOpaque
deriving DecidableEq, Repr

def ParseError.message : ParseError → String
  | emptyHost => "empty host"
  | invalidDomainName => "invalid international domain name"
  | invalidDomainCharacter => "invalid domain character"
  | invalidPort => "invalid port number"
  | invalidIpv4 => "invalid IPv4 address"
  | invalidIpv6 => "invalid IPv6 address"
  | relativeWithoutBase => "relative URL without a base"
  | relativeToOpaque => "relative URL with a cannot-be-a-base base"

/-- The families of schemes that are read differently. -/
inductive SchemeKind where
  | file
  | special
  | other
deriving DecidableEq, Repr

def schemeKind (scheme : String) : SchemeKind :=
  if scheme == "file" then .file
  else if ["http", "https", "ws", "wss", "ftp"].contains scheme then .special
  else .other

/-- The port that a scheme implies. -/
def defaultPort? (scheme : String) : Option Nat :=
  if scheme == "http" || scheme == "ws" then some 80
  else if scheme == "https" || scheme == "wss" then some 443
  else if scheme == "ftp" then some 21
  else none

def kind (u : Url) : SchemeKind := schemeKind u.scheme

def host? (u : Url) : Option Host := u.authority.bind (·.host)

/-- Nothing can be joined to the URL. -/
def isOpaque (u : Url) : Bool :=
  match u.path with
  | .opaque_ _ => true
  | .segments _ => false

/-- The segments of the path; none if it is opaque. -/
def segments (u : Url) : List String :=
  match u.path with
  | .opaque_ _ => []
  | .segments ss => ss

/-- The text of a URL. A path that starts with two slashes is kept apart from the scheme by a dot if
there is no authority. -/
def text (u : Url) : String :=
  let authority :=
    match u.authority with
    | some a => "//" ++ a.text
    | none =>
      match u.path with
      | .segments ("" :: _ :: _) => "/."
      | _ => ""
  u.scheme ++ ":" ++ authority ++ u.path.text
    ++ (u.query.map ("?" ++ ·)).getD "" ++ (u.fragment.map ("#" ++ ·)).getD ""

/-- The local host, private networks, and URLs without a host. -/
def isRestricted (u : Url) : Bool := u.host?.all Host.isRestricted

end Url

end WorkflowDsl
