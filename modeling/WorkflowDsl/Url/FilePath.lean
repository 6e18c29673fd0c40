import WorkflowDsl.Url.Basic
import WorkflowDsl.Url.Percent

/-!
# Files and URLs

The URL of an absolute file path has a segment for each name in the path. Empty names and single
dots are left out; the URL of a directory ends in a slash.
-/

namespace WorkflowDsl.Url

/-- The names in a path. -/
def pathNames (path : String) : List (List Char) :=
  (splitAt (· == '/') path.toList).filter fun name => !name.isEmpty && name != ['.']

/-- The URL of a file. Only absolute paths have one. -/
def ofFilePath? (path : String) : Option Url :=
  if path.startsWith "/" then
    let names := (pathNames path).map (encode fileNameSet)
    some ⟨"file", some {}, .segments (if names.isEmpty then [""] else names), none, none⟩
  else none

/-- The URL of a directory, to which the names in it can be joined. -/
def ofDirectoryPath? (path : String) : Option Url :=
  (ofFilePath? path).map fun u =>
    if u.segments.getLast? == some "" then u
    else { u with path := .segments (u.segments ++ [""]) }

/-- Whether a path ends in a letter and a colon or a bar, as the name of a drive does. -/
def endsInDrive (path : List UInt8) : Bool :=
  match path.reverse with
  | m :: c :: _ :: _ => (m == 58 || m == 124) && (Char.ofNat c.toNat).isAlpha
  | _ => false

/-- The path of the file that a URL denotes, if it is one of this host, byte by byte. A slash is put
behind the name of a drive. -/
def toFilePath? (u : Url) : Option (List UInt8) :=
  if u.isOpaque || !(u.host?.all (· == .domain "localhost")) then none
  else
    let path := (u.segments.map fun s => 47 :: decodeBytes s.toList).flatten
    some (if endsInDrive path then path ++ [47] else path)

end WorkflowDsl.Url
