import WorkflowDsl.Url.Basic
import WorkflowDsl.Url.Domain
import WorkflowDsl.Url.Percent

/-!
# Reading URLs

`Url.parse` reads a text as a URL on its own, `Url.join` against a base. Blanks and controls at the
ends are passed over, and tabs and line breaks everywhere. The schemes `http`, `https`, `ws`, `wss`,
`ftp` and `file` are special: they always have a host, but for `file`, and a path, and a backslash
is a slash in them.
-/

namespace WorkflowDsl.Url

/-! ## Paths -/

/-- A letter and a colon, or a bar in its place: the name of a drive. -/
def isDrive (segment : List Char) : Bool :=
  match segment with
  | [c, m] => c.isAlpha && (m == ':' || m == '|')
  | _ => false

def isNormalDrive (segment : String) : Bool :=
  isDrive segment.toList && segment.toList.getLast? == some ':'

/-- Takes the last segment off a path. The drive of a `file` URL stays. -/
def shorten (kind : SchemeKind) (path : List String) : List String :=
  match path with
  | [d] => if kind == .file && isNormalDrive d then path else []
  | _ => path.dropLast

/-- A segment in lower case, with its encoded dots decoded. -/
def dotForm : List Char → List Char
  | '%' :: '2' :: c :: rest =>
    if c == 'e' || c == 'E' then '.' :: dotForm rest else '%' :: '2' :: c :: dotForm rest
  | c :: rest => c :: dotForm rest
  | [] => []

/-- Appends a segment to a path. `isLast` holds if no slash follows. -/
def appendSegment (kind : SchemeKind) (path : List String) (segment : List Char) (isLast : Bool) :
    List String :=
  let ended (p : List String) := if isLast then p ++ [""] else p
  match dotForm segment with
  | ['.', '.'] => ended (shorten kind path)
  | ['.'] => ended path
  | _ =>
    if kind == .file && path.isEmpty && isDrive segment then
      path ++ [String.ofList (segment.take 1 ++ [':'])]
    else path ++ [encode pathSet segment]

/-- Appends the segments of a text to a path. -/
def appendSegments (kind : SchemeKind) : List String → List (List Char) → List String
  | path, [] => path
  | path, [segment] => appendSegment kind path segment true
  | path, segment :: rest => appendSegments kind (appendSegment kind path segment false) rest

def isSlash (kind : SchemeKind) (c : Char) : Bool := c == '/' || (kind != .other && c == '\\')

/-- Takes the empty segments off the start of a path, but for the last segment. -/
def dropEmpty : List String → List String
  | "" :: s :: rest => dropEmpty (s :: rest)
  | path => path

/-- Joins the path that a text gives to the segments before it. -/
def joinPath (kind : SchemeKind) (path : List String) (cs : List Char) : Path :=
  let path := appendSegments kind path (splitAt (isSlash kind) cs)
  .segments (if kind == .file then dropEmpty path else path)

/-! ## Queries and fragments -/

/-- Cuts a text before the first character for which `stop` holds. -/
def span (stop : Char → Bool) (cs : List Char) : List Char × List Char :=
  (cs.takeWhile (!stop ·), cs.dropWhile (!stop ·))

def isQueryOrFragment (c : Char) : Bool := c == '?' || c == '#'

/-- Reads what follows the path into a URL. -/
def withTail (u : Url) (cs : List Char) : Url :=
  let set := if u.kind == .other then querySet else specialQuerySet
  let (query, fragment) := span (· == '#') cs
  { u with
    query := query.head?.map fun _ => encode set query.tail
    fragment := fragment.head?.map fun _ => encode fragmentSet fragment.tail }

/-! ## Authorities -/

/-- The host that a text denotes in a special URL. -/
def specialHost (cs : List Char) : Except ParseError Host :=
  match cs with
  | '[' :: rest =>
    if rest.getLast? == some ']' then
      match Ipv6.parse? rest.dropLast with
      | some a => .ok (.ipv6 a)
      | none => .error .invalidIpv6
    else .error .invalidIpv6
  | _ =>
    match (decode? cs).bind (domainToAscii? ·.toList) with
    | none => .error .invalidDomainName
    | some [] => .error .emptyHost
    | some name =>
      if Ipv4.endsInNumber name then
        match Ipv4.parse? name with
        | some a => .ok (.ipv4 a)
        | none => .error .invalidIpv4
      else .ok (.domain (String.ofList name))

/-- Whether a character cannot stand in the host of a URL that is not special. -/
def isDeniedInHost (c : Char) : Bool :=
  ['\x00', '\t', '\n', '\r', ' ', '#', '/', ':', '<', '>', '?', '@', '[', '\\', ']', '^',
    '|'].contains c

/-- The host that a text denotes in a URL that is not special. -/
def otherHost (cs : List Char) : Except ParseError (Option Host) :=
  match cs with
  | '[' :: _ => (specialHost cs).map some
  | [] => .ok none
  | _ =>
    if cs.any isDeniedInHost then .error .invalidDomainCharacter
    else .ok (some (.domain (encode opaqueSet cs)))

/-- Cuts a text behind a host. A colon ends it unless it stands between brackets. -/
def spanHost (kind : SchemeKind) : Bool → List Char → List Char × List Char
  | _, [] => ([], [])
  | inside, c :: rest =>
    if isSlash kind c || isQueryOrFragment c || (c == ':' && !inside) then ([], c :: rest)
    else
      let (host, rest) := spanHost kind (if c == '[' then true else c != ']' && inside) rest
      (c :: host, rest)

/-- The port that digits denote, or none if it is that of the scheme, and what follows it. -/
def port (scheme : String) (cs : List Char) : Except ParseError (Option Nat × List Char) :=
  let (digits, rest) := span (!·.isDigit) cs
  let value := digits.foldl (fun n c => n * 10 + (c.toNat - 48)) 0
  if 65535 < value then .error .invalidPort
  else if rest.head?.all fun c => c == '/' || c == '\\' || isQueryOrFragment c then
    .ok (if digits.isEmpty || some value == defaultPort? scheme then none else some value, rest)
  else .error .invalidPort

/-- The last place of a character. -/
def lastIndex? (mark : Char) (cs : List Char) : Option Nat :=
  (cs.reverse.findIdx? (· == mark)).map fun i => cs.length - 1 - i

/-- Reads the user name and password before the last `@` of an authority. Returns them and what
follows. -/
def userInfo (kind : SchemeKind) (cs : List Char) :
    Except ParseError (String × String × List Char) :=
  let (authority, tail) := span (fun c => isSlash kind c || isQueryOrFragment c) cs
  match lastIndex? '@' authority with
  | none => .ok ("", "", cs)
  | some i =>
    let rest := authority.drop (i + 1) ++ tail
    if i == 0 then
      if rest.head?.any fun c => isSlash kind c || isQueryOrFragment c then .error .emptyHost
      else .ok ("", "", rest)
    else
      let (name, password) := span (· == ':') (authority.take i)
      .ok (encode userInfoSet name, encode userInfoSet password.tail, rest)

/-- The path that a text gives behind an authority. -/
def pathAfterAuthority (kind : SchemeKind) (cs : List Char) : Path :=
  match cs with
  | [] => .segments (if kind == .other then [] else [""])
  | c :: rest => joinPath kind [] (if isSlash kind c then rest else cs)

/-- Reads what follows the two slashes behind a scheme other than `file`. -/
def afterSlashes (scheme : String) (cs : List Char) : Except ParseError Url := do
  let kind := schemeKind scheme
  let (username, password, rest) ← userInfo kind cs
  let (hostText, rest) := spanHost kind false rest
  let host ←
    if kind == .special then
      if hostText.isEmpty then .error .emptyHost else (specialHost hostText).map some
    else otherHost hostText
  if host.isNone && rest.head? == some ':' then .error .emptyHost
  let (port, rest) ←
    match rest with
    | ':' :: digits => port scheme digits
    | _ => pure (none, rest)
  if host.isNone && !(username.isEmpty && password.isEmpty) then .error .emptyHost
  let (pathText, tail) := span isQueryOrFragment rest
  let path := pathAfterAuthority kind pathText
  .ok (withTail ⟨scheme, some ⟨username, password, host, port⟩, path, none, none⟩ tail)

/-! ## References -/

/-- The base with another fragment. -/
def withFragment (base : Url) (cs : List Char) : Url :=
  withTail { base with fragment := none } cs |> fun u => { u with query := base.query }

/-- Whether a text starts with the name of a drive and then ends or has a delimiter. -/
def startsWithDrive (cs : List Char) : Bool :=
  isDrive (cs.take 2) && (cs.drop 2).head?.all fun c => c == '/' || c == '\\' || isQueryOrFragment c

/-- Joins a relative path to the path of a base, behind all but its last segment. -/
def joinRelative (base : Url) (cs : List Char) : Url :=
  let (pathText, tail) := span isQueryOrFragment cs
  withTail { base with path := joinPath base.kind (shorten base.kind base.segments) pathText } tail

/-- Reads a reference that starts neither with a scheme nor, in a `file` URL, with a slash. -/
def resolveRest (base : Url) (cs : List Char) : Url :=
  match cs with
  | [] => { base with fragment := none }
  | '#' :: _ => withFragment base cs
  | '?' :: _ => withTail { base with query := none } cs
  | _ => joinRelative base cs

/-- A `file` URL with the given path behind some segments. -/
def fileUrl (host : Option Host) (start : List String) (cs : List Char) : Url :=
  let (pathText, tail) := span isQueryOrFragment cs
  let path := joinPath .file start pathText
  withTail ⟨"file", some { host }, path, none, none⟩ tail

/-- Reads what follows the two slashes of a `file` URL. The local host is the same as none, and so
is a host before a path that starts with a drive. -/
def fileAfterSlashes (cs : List Char) : Except ParseError Url := do
  let (hostText, rest) := span (fun c => isSlash .file c || isQueryOrFragment c) cs
  if isDrive hostText then .ok (fileUrl none [] cs)
  else
    let host ←
      if hostText.isEmpty then .ok none
      else (specialHost hostText).map fun h => if h == .domain "localhost" then none else some h
    let rest := if rest.head?.any (isSlash .file) then rest.tail else rest
    let u := fileUrl host [] rest
    let startsWithDrive := u.segments.head?.any isNormalDrive
    .ok (if startsWithDrive then { u with authority := some {} } else u)

/-- Reads a `file` URL behind its scheme, against a base that is one, too. -/
def file (base : Option Url) (cs : List Char) : Except ParseError Url :=
  match cs with
  | c :: rest =>
    if isSlash .file c then
      if rest.head?.any (isSlash .file) then fileAfterSlashes rest.tail
      else
        match base with
        | some b =>
          if startsWithDrive rest then .ok (fileUrl none [] rest)
          else
            match b.segments.head? with
            | some d =>
              if isNormalDrive d then .ok (fileUrl none [d] rest) else .ok (fileUrl b.host? [] rest)
            | none => .ok (fileUrl b.host? [] rest)
        | none => .ok (fileUrl none [] rest)
    else
      match base with
      | some b => .ok (if startsWithDrive cs then fileUrl none [] cs else resolveRest b cs)
      | none => .ok (fileUrl none [] cs)
  | [] => .ok (base.elim (fileUrl none [] []) (resolveRest · []))

/-- Reads a reference that has no scheme against a base that is no `file` URL. -/
def relative (base : Url) (cs : List Char) : Except ParseError Url :=
  match cs with
  | c :: rest =>
    if c == '/' || c == '\\' then
      match rest with
      | d :: _ =>
        if d == '/' || d == '\\' then
          match cs with
          | '/' :: '/' :: after => afterSlashes base.scheme after
          | _ => afterSlashes base.scheme (cs.dropWhile fun c => c == '/' || c == '\\')
        else .ok (rooted rest)
      | [] => .ok (rooted rest)
    else .ok (resolveRest base cs)
  | [] => .ok (resolveRest base cs)
where
  /-- The base with another path. -/
  rooted (rest : List Char) : Url :=
    let (pathText, tail) := span isQueryOrFragment rest
    withTail { base with path := joinPath base.kind [] pathText } tail

/-- Reads a URL that is neither special nor has an authority. -/
def withoutAuthority (scheme : String) (cs : List Char) : Url :=
  let (pathText, tail) := span isQueryOrFragment cs
  let path :=
    match pathText with
    | '/' :: rest => joinPath .other [] rest
    | _ => .opaque_ (encode opaqueSet pathText)
  withTail ⟨scheme, none, path, none, none⟩ tail

/-- The scheme before the first colon, in lower case, and what follows. -/
def scheme? (cs : List Char) : Option (String × List Char) :=
  let (name, rest) := span (· == ':') cs
  let isSchemeChar (c : Char) := c.isAlphanum || c == '+' || c == '-' || c == '.'
  if name.head?.any Char.isAlpha && name.all isSchemeChar && !rest.isEmpty then
    some (String.ofList (name.map Char.toLower), rest.tail)
  else none

/-- Reads what follows a scheme. -/
def withScheme (base : Option Url) (scheme : String) (cs : List Char) : Except ParseError Url :=
  match schemeKind scheme with
  | .file => file (base.filter (·.kind == .file)) cs
  | .special =>
    let (slashes, rest) := span (fun c => !(c == '/' || c == '\\')) cs
    match base with
    | some b =>
      if slashes.length < 2 && b.scheme == scheme then relative b cs else afterSlashes scheme rest
    | none => afterSlashes scheme rest
  | .other =>
    match cs with
    | '/' :: '/' :: rest => afterSlashes scheme rest
    | _ => .ok (withoutAuthority scheme cs)

def isTabOrLineBreak (c : Char) : Bool := c == '\t' || c == '\n' || c == '\r'

/-- The characters of a text that count. -/
def significant (s : String) : List Char :=
  let isEdge (c : Char) := c.toNat ≤ 32
  ((s.toList.dropWhile isEdge).reverse.dropWhile isEdge).reverse.filter (!isTabOrLineBreak ·)

/-- Reads a text as a URL, against a base if there is one. -/
def parseWith (base : Option Url) (s : String) : Except ParseError Url :=
  let cs := significant s
  match scheme? cs with
  | some (scheme, rest) => withScheme base scheme rest
  | none =>
    match base with
    | none => .error .relativeWithoutBase
    | some b =>
      if cs.head? == some '#' then .ok (withFragment b cs)
      else if b.isOpaque then .error .relativeToOpaque
      else if b.kind == .file then file base cs
      else relative b cs

def parse (s : String) : Except ParseError Url := parseWith none s

/-- Reads a reference against a base. -/
def join (base : Url) (s : String) : Except ParseError Url := parseWith (some base) s

end WorkflowDsl.Url
