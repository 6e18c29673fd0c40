import WorkflowDsl.Collection.Entries

/-!
# Named maps

A `NamedMap` is a list of values under distinct names. Its order is that in which the values are
carried out, so two maps are equal only when their entries stand in the same order.
-/

namespace WorkflowDsl

/-- Values under distinct names, in order. -/
structure NamedMap (α : Type) where
  entries : List (String × α)
deriving BEq, Repr

namespace NamedMap

variable {α : Type}

def empty : NamedMap α := ⟨[]⟩

instance : EmptyCollection (NamedMap α) := ⟨empty⟩

instance : Inhabited (NamedMap α) := ⟨empty⟩

def isEmpty (m : NamedMap α) : Bool := m.entries.isEmpty

def size (m : NamedMap α) : Nat := m.entries.length

def names (m : NamedMap α) : List String := Entries.keys m.entries

def values (m : NamedMap α) : List α := Entries.values m.entries

def get? (m : NamedMap α) (name : String) : Option α := Entries.get? m.entries name

def contains (m : NamedMap α) (name : String) : Bool := Entries.hasKey m.entries name

/-- Writes a value under a name. A known name keeps its place. -/
def insert (m : NamedMap α) (name : String) (value : α) : NamedMap α :=
  ⟨Entries.insert m.entries name value⟩

/-- Writes a value under a name, and gives the value that it takes the place of. -/
def exchange (m : NamedMap α) (name : String) (value : α) : Option α × NamedMap α :=
  let (previous, entries) := Entries.exchange m.entries name value
  (previous, ⟨entries⟩)

/-- Writes values over those of the map, from the first place on. -/
def overwrite (m : NamedMap α) (values : List α) : NamedMap α :=
  ⟨Entries.overwrite m.entries values⟩

/-- Replaces the value under a known name. -/
def set (m : NamedMap α) (name : String) (value : α) : NamedMap α :=
  if m.contains name then m.insert name value else m

/-- The entry at a place. -/
def getIndex? (m : NamedMap α) (i : Nat) : Option (String × α) := m.entries[i]?

def position? (m : NamedMap α) (name : String) : Option Nat := Entries.position? m.entries name

def map {β : Type} (f : α → β) (m : NamedMap α) : NamedMap β := ⟨Entries.mapValues f m.entries⟩

/-- Inserts the entries one after another. -/
def ofList (es : List (String × α)) : NamedMap α := ⟨Entries.ofList es⟩

/-- Equality by a relation between the values. -/
def equalBy {β : Type} (r : α → β → Bool) (m : NamedMap α) (n : NamedMap β) : Bool :=
  m.size == n.size
    && (m.entries.zip n.entries).all fun ((k, a), (l, b)) => k == l && r a b

end NamedMap

end WorkflowDsl
