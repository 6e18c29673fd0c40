/-!
# Lists of named entries

`Entries α` is a list of key and value pairs in the order in which they were written. `insert`
keeps each key once: a new key goes to the end, a known one keeps its place and takes the new
value.
-/

namespace WorkflowDsl

/-- Values under keys, in the order written. -/
abbrev Entries (α : Type) := List (String × α)

namespace Entries

variable {α : Type}

def keys (es : Entries α) : List String := es.map (·.1)

def values (es : Entries α) : List α := es.map (·.2)

/-- The value under a key. -/
def get? (es : Entries α) (key : String) : Option α := es.lookup key

/-- Whether some entry has the key. -/
def hasKey (es : Entries α) (key : String) : Bool := (es.lookup key).isSome

/-- Writes a value under a key: in place when the key is present, else at the end. -/
def insert : Entries α → String → α → Entries α
  | [], key, value => [(key, value)]
  | (k, v) :: rest, key, value =>
    if k == key then (k, value) :: rest else (k, v) :: insert rest key value

/-- Writes a value under a key as `insert` does, and gives the value that it takes the place of. -/
def exchange : Entries α → String → α → Option α × Entries α
  | [], key, value => (none, [(key, value)])
  | (k, v) :: rest, key, value =>
    if k == key then (some v, (k, value) :: rest)
    else
      let (previous, rest) := exchange rest key value
      (previous, (k, v) :: rest)

/-- Writes values over those of the entries, one after another. Entries behind the last value that is
written keep theirs. -/
def overwrite : Entries α → List α → Entries α
  | (k, _) :: rest, value :: values => (k, value) :: overwrite rest values
  | es, _ => es

/-- Writes every entry of `source` into `target`. -/
def merge (target source : Entries α) : Entries α :=
  source.foldl (fun es (k, v) => insert es k v) target

/-- Keeps of each key the first place and the last value. -/
def ofList (es : List (String × α)) : Entries α := merge [] es

/-- The entries whose key is listed, and the others. Both keep their order. -/
def splitKeys (es : Entries α) (keys : List String) : Entries α × Entries α :=
  es.partition fun (k, _) => keys.contains k

/-- The candidates that are keys, in the order of the candidates. -/
def presentKeys (es : Entries α) (candidates : List String) : List String :=
  candidates.filter es.hasKey

/-- Takes an entry out, and moves the last entry into its place. -/
def swapErase (es : Entries α) (key : String) : Entries α :=
  match es.findIdx? (·.1 == key), es.getLast? with
  | some i, some last => if i + 1 == es.length then es.dropLast else es.dropLast.set i last
  | _, _ => es

/-- The place of a key. -/
def position? (es : Entries α) (key : String) : Option Nat := es.findIdx? (·.1 == key)

def mapValues {β : Type} (f : α → β) (es : Entries α) : Entries β :=
  es.map fun (k, v) => (k, f v)

end Entries

end WorkflowDsl
