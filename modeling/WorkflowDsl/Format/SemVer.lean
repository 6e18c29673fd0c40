import WorkflowDsl.Error
import WorkflowDsl.Format.Name
import WorkflowDsl.Text.Digit

/-!
# Semantic versions

A version has three numbers, then after a hyphen the identifiers of a pre-release, and then after a
plus sign those of a build. Digits of any script count in the numbers and at the start of the
identifiers of a pre-release, if the first digit of a number is one of ASCII.
-/

namespace WorkflowDsl.Format

/-- The part of a text before the first `mark`, and the part behind it, if there is a mark. -/
def cutAt (mark : Char) (cs : List Char) : List Char × Option (List Char) :=
  match cs.dropWhile (· != mark) with
  | [] => (cs, none)
  | _ :: rest => (cs.takeWhile (· != mark), some rest)

/-- The parts of a text between dots. -/
def dotted : List Char → List (List Char)
  | [] => [[]]
  | c :: rest =>
    if c == '.' then [] :: dotted rest
    else
      match dotted rest with
      | part :: parts => (c :: part) :: parts
      | [] => [[c]]

/-- A number without leading zeros. -/
def isVersionNumber : List Char → Bool
  | [] => false
  | c :: rest => if c == '0' then rest.isEmpty else c.isDigit && rest.all Text.isDecimalDigit

/-- An identifier with a letter or hyphen behind any leading digits. -/
def isWordIdentifier (cs : List Char) : Bool :=
  match cs.dropWhile Text.isDecimalDigit with
  | [] => false
  | c :: rest => (c.isAlpha || c == '-') && rest.all isLabelChar

def isPreRelease (cs : List Char) : Bool :=
  (dotted cs).all fun part => isVersionNumber part || isWordIdentifier part

def isBuild (cs : List Char) : Bool :=
  (dotted cs).all fun part => !part.isEmpty && part.all isLabelChar

def isVersion (cs : List Char) : Bool :=
  let (release, build) := cutAt '+' cs
  let (core, preRelease) := cutAt '-' release
  (dotted core).length == 3 && (dotted core).all isVersionNumber
    && preRelease.all isPreRelease && build.all isBuild

def checkVersion (field value : String) : Check :=
  if isVersion value.toList then .ok ()
  else .error (.invalidFormat field value "must be a semantic version (SemVer 2.0)")

end WorkflowDsl.Format
