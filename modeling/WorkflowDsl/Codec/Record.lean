import WorkflowDsl.Codec.Basic
import WorkflowDsl.Collection.OrderedMap

/-!
# Records

A record is stated once, as the list of its fields (`Fields`); from it come a reader and a writer
(`Codec.record`). A record is written as a mapping with its fields in the order stated.

A mapping is read whatever the order of its entries, and unknown keys are passed over. Of several
faults the one whose entry stands first is reported; a missing field stands after all entries, in
the order stated. A record may also be read from the sequence of its fields.
-/

namespace WorkflowDsl

/-- A field of type `α` of a record `ρ`. -/
structure Field (ρ α : Type) where
  key : String
  codec : Codec α
  /-- The value of a field that is not there; a required field has none. -/
  absent : Option α
  /-- Values that are not written. -/
  skip : α → Bool
  get : ρ → α

namespace Field

variable {ρ α : Type}

def required (key : String) (codec : Codec α) (get : ρ → α) : Field ρ α :=
  ⟨key, codec, none, fun _ => false, get⟩

/-- A field whose absence, or null, is `none`. -/
def optional (key : String) (codec : Codec α) (get : ρ → Option α) : Field ρ (Option α) :=
  ⟨key, codec.option, some none, Option.isNone, get⟩

/-- A field with a value for its absence, which is written always. -/
def defaulted (key : String) (codec : Codec α) (absent : α) (get : ρ → α) : Field ρ α :=
  ⟨key, codec, some absent, fun _ => false, get⟩

/-- A field with a value for its absence, which is left out when `skip` holds. -/
def omitted (key : String) (codec : Codec α) (absent : α) (skip : α → Bool) (get : ρ → α) :
    Field ρ α :=
  ⟨key, codec, some absent, skip, get⟩

end Field

/-- The fields of a record `ρ`, where `β` is the type of a function that takes their values and
gives a `γ`. -/
inductive Fields (ρ γ : Type) : Type → Type 1 where
  | done : Fields ρ γ γ
  | more {α β : Type} (field : Field ρ α) (rest : Fields ρ γ β) : Fields ρ γ (α → β)

/-- A fault found while a mapping is read. `place` is that of the entry at fault. -/
structure Fault where
  place : Nat
  error : ConversionError

/-- The fault that stands first; of two at one place, the left. -/
def Fault.first (a b : Fault) : Fault := if b.place < a.place then b else a

/-- Reads a field from the entries of a mapping. -/
def Field.readEntry {ρ α : Type} (f : Field ρ α) (es : Object) : Except Fault α :=
  match es.get? f.key with
  | some n => (f.codec.read n).mapError fun e => ⟨(es.position? f.key).getD 0, e⟩
  | none =>
    match f.absent with
    | some a => .ok a
    | none => .error ⟨es.length, .missingField f.key⟩

namespace Fields

variable {ρ γ β : Type}

def keys : {β : Type} → Fields ρ γ β → List String
  | _, done => []
  | _, more f rest => f.key :: rest.keys

/-- Reads all fields from the entries of a mapping. -/
def readEntries (es : Object) : {β : Type} → Fields ρ γ β → Except Fault (β → γ)
  | _, done => .ok id
  | _, more f rest =>
    match f.readEntry es, rest.readEntries es with
    | .ok a, .ok k => .ok fun make => k (make a)
    | .error a, .ok _ => .error a
    | .ok _, .error b => .error b
    | .error a, .error b => .error (a.first b)

/-- Reads the fields from the items of a sequence, one after another. `index` counts those read,
and `shape` is what the sequence should be. -/
def readItems (shape : String) :
    Nat → List Node → {β : Type} → Fields ρ γ β → Except ConversionError (β → γ)
  | _, _, _, done => .ok id
  | index, n :: items, _, more f rest => do
    let a ← f.codec.read n
    let k ← rest.readItems shape (index + 1) items
    .ok fun make => k (make a)
  | index, [], _, more f rest =>
    match f.absent with
    | none => .error (.invalidLength index shape)
    | some a => do
      let k ← rest.readItems shape (index + 1) []
      .ok fun make => k (make a)

/-- The entries that the fields are written as. -/
def writeEntries (x : ρ) : {β : Type} → Fields ρ γ β → Object
  | _, done => []
  | _, more f rest =>
    if f.skip (f.get x) then rest.writeEntries x
    else (f.key, f.codec.write (f.get x)) :: rest.writeEntries x

end Fields

namespace Codec

variable {ρ β : Type}

/-- A record with the given fields. `make` takes their values. -/
def record (name : String) (make : β) (fields : Fields ρ ρ β) : Codec ρ where
  name
  read
    | .mapping es =>
      match fields.readEntries es with
      | .ok k => .ok (k make)
      | .error fault => .error fault.error
    | .sequence items => do
      let count := fields.keys.length
      let plural := if count == 1 then "element" else "elements"
      let k ← fields.readItems s!"struct {name} with {count} {plural}" 0 items
      if count < items.length then
        .error (.invalidLength items.length "fewer elements in array")
      else .ok (k make)
    | n => .error (mismatch n s!"struct {name}")
  write x := .mapping (fields.writeEntries x)

/-- A record that keeps the entries of unknown keys, and writes them behind its fields. It is read
from mappings only. -/
def openRecord (name : String) (make : β) (fields : Fields ρ (OrderedMap Node → ρ) β)
    (extra : ρ → OrderedMap Node) : Codec ρ where
  name
  read
    | .mapping es =>
      match fields.readEntries es with
      | .ok k => .ok (k make ⟨(Entries.splitKeys es fields.keys).2⟩)
      | .error fault => .error fault.error
    | n => .error (mismatch n s!"struct {name}")
  write x := .mapping (fields.writeEntries x ++ (extra x).entries)

/-- A record written as the value of its single field. -/
def transparent {α : Type} (make : α → ρ) (get : ρ → α) (c : Codec α) : Codec ρ :=
  c.imap make get

end Codec

end WorkflowDsl
