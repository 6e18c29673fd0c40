import WorkflowDsl.Reader.Reference

/-!
# Fetching documents

A fetcher gives the text behind a URL. The local one reads files and refuses the network: hosts of
private networks because they are private, others because there is no client for them.
-/

namespace WorkflowDsl

abbrev Fetcher := Url → Except ReadError String

/-- Files by their paths, both byte by byte. -/
abbrev Files := List UInt8 → Option ByteArray

/-- Reads a file of at most the given size. -/
def fetchFile (files : Files) (settings : FetchSettings) (u : Url) : Except ReadError String :=
  match u.toFilePath? with
  | none => .error (.invalidUri u.text "not a local file path")
  | some path =>
    match files path with
    | none => .error .unreadable
    | some bytes =>
      if settings.maxSize < bytes.size then .error (.tooLarge u.text settings.maxSize)
      else
        match String.fromUTF8? bytes with
        | some s => .ok s
        | none => .error .unreadable

/-- Fetches files only. -/
def fetchLocal (files : Files) (settings : FetchSettings) : Fetcher := fun u =>
  if u.scheme == "file" then fetchFile files settings u
  else if u.scheme == "http" || u.scheme == "https" then
    if !settings.allowPrivateAddresses && u.isRestricted then .error (.restrictedAddress u.text)
    else .error (.fetch u.text "no http client configured (local only)")
  else .error (.unsupportedScheme u.scheme u.text)

/-- Fetches from a collection of texts. -/
def fetchFrom (texts : List (String × String)) : Fetcher := fun u =>
  match texts.lookup u.text with
  | some s => .ok s
  | none => .error (.fetch u.text "not found")

end WorkflowDsl
