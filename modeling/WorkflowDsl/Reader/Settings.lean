import WorkflowDsl.Codec.Basic

/-!
# Settings

Settings are read from the variables of an environment. The variables of one purpose share the start
of their names; what follows it names a setting, in upper or lower case. Variables that name none
are ignored, and settings that no variable gives have defaults.
-/

namespace WorkflowDsl

/-- The cause for which a variable cannot be read. -/
inductive SettingError where
  /-- A setting that two variables give. -/
  | duplicate (name : String)
  | badValue (reason value variable_ : String)
  | unknownName (cause : ConversionError)
deriving DecidableEq, Repr

def SettingError.message : SettingError → String
  | duplicate name => "duplicate field `" ++ name ++ "`"
  | badValue reason value variable_ =>
    s!"{reason} while parsing value '{value}' provided by {variable_}"
  | unknownName cause => cause.message

namespace Setting

/-- Reads the value of a variable into settings. -/
abbrev Reader (σ : Type) := String → String → σ → Except SettingError σ

def text {σ : Type} (set : String → σ → σ) : Reader σ := fun _ value s => .ok (set value s)

def bool {σ : Type} (set : Bool → σ → σ) : Reader σ := fun variable_ value s =>
  if value == "true" then .ok (set true s)
  else if value == "false" then .ok (set false s)
  else .error (.badValue "provided string was not `true` or `false`" value variable_)

/-- Adds a digit to a number of 64 bits. -/
def addDigit (n : Nat) (c : Char) : Except String Nat :=
  if !c.isDigit then .error "invalid digit found in string"
  else if UInt64.size ≤ n * 10 + (c.toNat - 48) then .error "number too large to fit in target type"
  else .ok (n * 10 + (c.toNat - 48))

/-- The number of 64 bits that a text spells, or the first thing wrong with it. -/
def readNatural (s : String) : Except String Nat :=
  match s.toList with
  | [] => .error "cannot parse integer from empty string"
  | ['+'] => .error "invalid digit found in string"
  | '+' :: cs => cs.foldlM addDigit 0
  | cs => cs.foldlM addDigit 0

def natural {σ : Type} (set : Nat → σ → σ) : Reader σ := fun variable_ value s =>
  match readNatural value with
  | .ok n => .ok (set n s)
  | .error reason => .error (.badValue reason value variable_)

/-- A choice among names. -/
def choice {σ α : Type} (all : List α) (name : α → String) (set : α → σ → σ) : Reader σ :=
  fun _ value s =>
    match all.find? (name · == value) with
    | some a => .ok (set a s)
    | none => .error (.unknownName (.unknownVariant value (all.map name)))

/-- The rest of a text behind every copy of a word in front of it. -/
def withoutStarts (word : List Char) : Nat → List Char → List Char
  | 0, cs => cs
  | fuel + 1, cs =>
    if word.isPrefixOf cs then withoutStarts word fuel (cs.drop word.length) else cs

/-- What follows the common start in the name of a variable. -/
def nameBehind? (start variable_ : String) : Option String :=
  if variable_.startsWith start then
    some (String.ofList (withoutStarts start.toList variable_.length variable_.toList))
  else none

/-- Reads the variables that share a start into settings, in order. -/
def load {σ : Type} (start : String) (settings : List (String × Reader σ)) :
    List String → List (String × String) → σ → Except SettingError σ
  | _, [], s => .ok s
  | seen, (variable_, value) :: rest, s =>
    match nameBehind? start variable_ with
    | none => load start settings seen rest s
    | some given =>
      let name := given.map Char.toLower
      match settings.lookup name with
      | none => load start settings seen rest s
      | some read =>
        if seen.contains name then .error (.duplicate name)
        else do load start settings (name :: seen) rest (← read given value s)

end Setting

/-! ## Reading documents -/

/-- What becomes of relative URIs of resources in a document that is read. -/
inductive RelativeUris where
  /-- They are resolved against the base of the document. -/
  | toAbsolute
  /-- They are joined to the base directory as paths. -/
  | toFilePath
  | keep
deriving DecidableEq, Repr

namespace RelativeUris

def all : List RelativeUris := [toAbsolute, toFilePath, keep]

def text : RelativeUris → String
  | toAbsolute => "convert_to_absolute"
  | toFilePath => "convert_to_relative_file_path"
  | keep => "none"

def ofText? (s : String) : Option RelativeUris := all.find? (·.text == s)

end RelativeUris

structure ReaderOptions where
  baseUri : Option String := none
  baseDirectory : Option String := none
  relativeUris : RelativeUris := .toAbsolute
  loadExternal : Bool := false
deriving DecidableEq, Repr

def ReaderOptions.load (vars : List (String × String)) : Except SettingError ReaderOptions :=
  Setting.load "WORKFLOW_READER_"
    [("base_uri", Setting.text fun v s => { s with baseUri := some v }),
      ("base_directory", Setting.text fun v s => { s with baseDirectory := some v }),
      ("relative_uri_resolution",
        Setting.choice RelativeUris.all RelativeUris.text fun v s => { s with relativeUris := v }),
      ("load_external_definitions", Setting.bool fun v s => { s with loadExternal := v })]
    [] vars {}

/-! ## Fetching -/

structure FetchSettings where
  /-- The greatest size of a document in bytes. -/
  maxSize : Nat := 10485760
  timeoutSeconds : Nat := 30
  allowPrivateAddresses : Bool := false
deriving DecidableEq, Repr

def FetchSettings.load (vars : List (String × String)) : Except SettingError FetchSettings :=
  Setting.load "WORKFLOW_FETCH_"
    [("max_size", Setting.natural fun v s => { s with maxSize := v }),
      ("timeout_sec", Setting.natural fun v s => { s with timeoutSeconds := v }),
      ("allow_private_addresses",
        Setting.bool fun v s => { s with allowPrivateAddresses := v })]
    [] vars {}

/-! ## Logging -/

inductive LogFormat where
  | plain
  | json
deriving DecidableEq, Repr

namespace LogFormat

def all : List LogFormat := [plain, json]

def text : LogFormat → String
  | plain => "plain"
  | json => "json"

end LogFormat

structure LogSettings where
  level : String := "info"
  format : LogFormat := .plain
  ansi : Bool := false
deriving DecidableEq, Repr

def LogSettings.load (vars : List (String × String)) : Except SettingError LogSettings :=
  Setting.load "LOG_"
    [("level", Setting.text fun v s => { s with level := v }),
      ("format", Setting.choice LogFormat.all LogFormat.text fun v s => { s with format := v }),
      ("ansi", Setting.bool fun v s => { s with ansi := v })]
    [] vars {}

/-- What is said when settings of a purpose cannot be read. -/
def SettingError.report (purpose : String) (e : SettingError) : String :=
  s!"failed to load {purpose} from env: {e.message}"

end WorkflowDsl
