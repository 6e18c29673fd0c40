import WorkflowDsl.Codec.Keyed
import WorkflowDsl.Proofs.Codec.Basic

/-!
# Reading mappings that name their kind
-/

namespace WorkflowDsl

theorem Node.toObject_eq_ok {definition : String} {n : Node} {es : Object} :
    n.toObject definition = .ok es ↔ n = .mapping es := by
  cases n <;> simp [toObject]

/-- A mapping is of a kind when that is the one candidate that it has. -/
theorem Entries.singleKind_eq_ok {α : Type} {es : Entries α} {family key : String}
    {candidates : List String} :
    es.singleKind family candidates = .ok key ↔ es.presentKeys candidates = [key] := by
  rw [singleKind]
  split
  · next k hk => simp [hk]
  · next hk => simp [hk]
  · next hk _ => exact iff_of_false nofun (hk key)

theorem Codec.decodeObject_eq_ok {α : Type} {c : Codec α} {key : String} {n : Node} {a : α} :
    c.decodeObject key n = .ok a ↔ ∃ es, n = .mapping es ∧ c.read n = .ok a := by
  rw [decodeObject, except_bind_eq_ok]
  simp only [Node.toObject_eq_ok, decode_eq_ok]
  constructor <;> rintro ⟨es, rfl, h⟩ <;> exact ⟨es, rfl, h⟩

/-- A value that is kept and written as a mapping is read back from where a mapping has to be. -/
theorem Codec.Keeps.decodeObject_write {α : Type} {c : Codec α} {a : α} (h : c.Keeps a)
    (key : String) {es : Object} (hw : c.write a = .mapping es) :
    c.decodeObject key (c.write a) = .ok a :=
  decodeObject_eq_ok.2 ⟨es, hw, h⟩

end WorkflowDsl
