import WorkflowDsl.Collection.Entries

/-!
# Ordered maps

An `OrderedMap` keeps its entries in the order of their first insertion, but two maps are equal
(`==`) when they hold the same entries in any order.
-/

namespace WorkflowDsl

/-- Values under distinct keys. -/
structure OrderedMap (α : Type) where
  entries : Entries α
deriving Repr

namespace OrderedMap

variable {α : Type}

def empty : OrderedMap α := ⟨[]⟩

instance : EmptyCollection (OrderedMap α) := ⟨empty⟩

instance : Inhabited (OrderedMap α) := ⟨empty⟩

def isEmpty (m : OrderedMap α) : Bool := m.entries.isEmpty

def size (m : OrderedMap α) : Nat := m.entries.length

def keys (m : OrderedMap α) : List String := m.entries.keys

def get? (m : OrderedMap α) (key : String) : Option α := m.entries.get? key

def contains (m : OrderedMap α) (key : String) : Bool := m.entries.hasKey key

def insert (m : OrderedMap α) (key : String) (value : α) : OrderedMap α :=
  ⟨m.entries.insert key value⟩

def ofList (es : List (String × α)) : OrderedMap α := ⟨.ofList es⟩

def extend (m : OrderedMap α) (es : List (String × α)) : OrderedMap α := ⟨m.entries.merge es⟩

/-- As many entries on both sides, and every entry of the first in the second. -/
def equal [BEq α] (m n : OrderedMap α) : Bool :=
  m.size == n.size && m.entries.all fun (k, v) => (n.get? k).any (v == ·)

instance [BEq α] : BEq (OrderedMap α) := ⟨equal⟩

end OrderedMap

end WorkflowDsl
