import WorkflowDsl.Proofs.Codec.Collection

/-!
# Slots of unions

A value of a union is written without a word on its slot, so the slot has to be told from the form
of the content. Where neither alternative reads what the other writes (`Codec.Exclusive`), a value
is read back in its slot, as its content is read back by itself (`Codec.oneOf_readsBack_iff`).

A `UnionField` is a place of a record where such a value stands. `UnionField.KeepsSlot` says that
the record carries the slot: the value is written under the key of the field in the form of the
union, and read from there by the union.
-/

namespace WorkflowDsl

/-- Values in the same slot, with contents that are related. -/
inductive OneOf.Rel {α α' β β' : Type} (r : α → α' → Prop) (s : β → β' → Prop) :
    OneOf α β → OneOf α' β' → Prop where
  | first {x : α} {x' : α'} (h : r x x') : Rel r s (.first x) (.first x')
  | second {y : β} {y' : β'} (h : s y y') : Rel r s (.second y) (.second y')

namespace Codec

section Union

variable {α β : Type} {a : Codec α} {b : Codec β}

/-- Values of the type are written as mappings or sequences. -/
class WritesStructure (c : Codec α) : Prop where
  write_ne_null : ∀ x, c.write x ≠ .null
  kind_ne_scalar : ∀ x, (c.write x).kind ≠ .scalar

instance : WritesStructure (list a) := ⟨fun _ => nofun, fun _ => nofun⟩

instance : WritesStructure object := ⟨fun _ => nofun, fun _ => nofun⟩

instance (name : String) [h : WritesStructure a] : WritesStructure (a.named name) :=
  ⟨h.write_ne_null, h.kind_ne_scalar⟩

theorem WritesStructure.record {ρ γ : Type} {name : String} {make : γ} {fields : Fields ρ ρ γ} :
    WritesStructure (record name make fields) :=
  ⟨fun _ => nofun, fun _ => nofun⟩

/-- Neither alternative reads what the other writes, and null, which stands for no value, is written
for none. -/
class Exclusive (a : Codec α) (b : Codec β) : Prop extends Apart a b where
  second_read_ne_ok : ∀ x y, b.read (a.write x) ≠ .ok y
  write_ne_null : ∀ u, (oneOf a b).write u ≠ .null

/-- An alternative of structures is told from one of scalars. -/
theorem Exclusive.of_scalar [b.Lossless] [Apart a b] [h : WritesStructure a]
    (hb : ∀ {n y}, b.read n = .ok y → n.kind = .scalar) : Exclusive a b where
  second_read_ne_ok x _ hr := h.kind_ne_scalar x (hb hr)
  write_ne_null u := by
    cases u with
    | first x => exact h.write_ne_null x
    | second y => exact Lossless.write_ne_null (c := b) y

theorem kind_of_string_read {n : Node} {s : String} (h : string.read n = .ok s) :
    n.kind = .scalar := by
  cases n with
  | string => rfl
  | _ => cases h

theorem kind_of_bool_read {n : Node} {t : Bool} (h : bool.read n = .ok t) : n.kind = .scalar := by
  cases n with
  | bool => rfl
  | _ => cases h

instance [ReadsNoScalar a] [WritesStructure a] : Exclusive a string :=
  .of_scalar kind_of_string_read

instance [ReadsNoScalar a] [WritesStructure a] : Exclusive a bool :=
  .of_scalar kind_of_bool_read

instance : Exclusive float string where
  second_read_ne_ok _ _ := nofun
  write_ne_null u := by cases u <;> nofun

instance : Exclusive uint32 string where
  second_read_ne_ok _ _ := nofun
  write_ne_null u := by cases u <;> nofun

/-- **What is read back is in the same slot, and its content is read back as by itself.** -/
theorem oneOf_readsBack_iff [h : Exclusive a b] {u u' : OneOf α β} :
    (oneOf a b).ReadsBack u u' ↔ OneOf.Rel a.ReadsBack b.ReadsBack u u' := by
  constructor
  · intro hr
    cases u with
    | first x =>
      cases u' with
      | first x' => exact .first (oneOf_read_first.1 hr)
      | second y' => exact absurd (oneOf_read_second.1 hr).2 (h.second_read_ne_ok x y')
    | second y =>
      cases u' with
      | first x' => exact absurd (oneOf_read_first.1 hr) (h.read_write_ne_ok x' y)
      | second y' => exact .second (oneOf_read_second.1 hr).2
  · intro hr
    cases hr with
    | first hx => exact oneOf_read_first.2 hx
    | second hy => exact oneOf_read_second.2 ⟨fun x => h.read_write_ne_ok x _, hy⟩

/-- In either slot, a content that is read back by itself as a related one is read back so by the
union, in the same slot. -/
theorem exists_readsBack_rel_iff [Exclusive a b] (r : α → α → Prop) (s : β → β → Prop)
    (u : OneOf α β) :
    (∃ u', (oneOf a b).ReadsBack u u' ∧ OneOf.Rel r s u u') ↔
      u.either (fun x => ∃ x', a.ReadsBack x x' ∧ r x x') fun y =>
        ∃ y', b.ReadsBack y y' ∧ s y y' := by
  simp only [oneOf_readsBack_iff]
  constructor
  · rintro ⟨u', hr, he⟩
    cases hr with
    | first hx =>
      cases he with
      | first hr => exact ⟨_, hx, hr⟩
    | second hy =>
      cases he with
      | second hs => exact ⟨_, hy, hs⟩
  · intro h
    cases u with
    | first x =>
      obtain ⟨x', hx, hr⟩ := h
      exact ⟨.first x', .first hx, .first hr⟩
    | second y =>
      obtain ⟨y', hy, hs⟩ := h
      exact ⟨.second y', .second hy, .second hs⟩

end Union

end Codec

/-! ## Fields by their keys -/

namespace Fields

variable {ρ γ α : Type} {f : Field ρ α} {key : String}

/-- The field with a key. -/
def find? (key : String) : {β : Type} → Fields ρ γ β → Option ((α : Type) × Field ρ α)
  | _, done => none
  | _, more f rest => if f.key = key then some ⟨_, f⟩ else rest.find? key

/-- What holds of all fields holds of the one with a key. -/
theorem holds_find? {P : {α : Type} → Field ρ α → α → Prop} {x : ρ} :
    {β : Type} → {fields : Fields ρ γ β} → fields.find? key = some ⟨α, f⟩ →
      fields.Holds P (fields.project x) → P f (f.get x)
  | _, done, h, _ => nomatch h
  | _, more g rest, h, hp => by
    rw [find?] at h
    split at h
    · cases h
      exact hp.1
    · exact holds_find? h hp.2

end Fields

namespace Codec

variable {ρ α γ : Type} {f : Field ρ α} {make : γ} {name : String}

/-- What a codec writes has the field under its key, and the field is read from there. -/
structure HasField (c : Codec ρ) (f : Field ρ α) : Prop where
  write : ∀ {x v}, f.written? (f.get x) = some v →
    ∃ es, c.write x = .mapping es ∧ Entries.get? es f.key = some v
  read : ∀ {es x}, c.read (.mapping es) = .ok x → f.readEntry es = .ok (f.get x)

/-- A record has its fields. -/
theorem HasField.record {fields : Fields ρ ρ γ} (h : fields.Lawful make)
    (hf : fields.find? f.key = some ⟨α, f⟩) : (record name make fields).HasField f where
  write {x v} hv := by
    have hw := fields.holds_written? (x := x) h.nodup_keys fun _ _ => rfl
    exact ⟨_, rfl, (Fields.holds_find? hf hw).trans hv⟩
  read hr := Fields.holds_find? hf ((record_read_mapping h).1 hr)

/-- A record with further entries has its fields. They stand before the entries, so that is what is
found under their keys. -/
theorem HasField.openRecord {fields : Fields ρ (OrderedMap Node → ρ) γ}
    {extra : ρ → OrderedMap Node} (h : fields.OpenLawful make extra)
    (hf : fields.find? f.key = some ⟨α, f⟩) :
    (openRecord name make fields extra).HasField f where
  write {x v} hv := by
    have hw := fields.holds_written? (x := x) h.nodup_keys fun _ _ => rfl
    refine ⟨_, rfl, ?_⟩
    rw [Entries.get?_append, Fields.holds_find? hf hw, hv, Option.some_or]
  read hr := Fields.holds_find? hf ((openRecord_read_mapping h).1 hr).1

end Codec

/-! ## Places of unions -/

/-- A place where a value of one of two types stands in a record. -/
structure UnionField where
  Owner : Type
  First : Type
  Second : Type
  owner : Codec Owner
  key : String
  first : Codec First
  second : Codec Second
  /-- The value, if there is one. -/
  get : Owner → Option (OneOf First Second)

namespace UnionField

/-- The values of the place. -/
def union (f : UnionField) : Codec (OneOf f.First f.Second) := .oneOf f.first f.second

/-- **The value at a place keeps its slot when it is written and read.** -/
structure KeepsSlot (f : UnionField) : Prop where
  /-- The first alternative reads nothing that the second writes. -/
  first_refuses : ∀ x y, f.first.read (f.second.write y) ≠ .ok x
  /-- Nor does the second read what the first writes. -/
  second_refuses : ∀ x y, f.second.read (f.first.write x) ≠ .ok y
  /-- Whatever equality is for contents: what is read back as an equal content by itself is read
  back so by the union, in the same slot. -/
  survives_iff : ∀ (r : f.First → f.First → Prop) (s : f.Second → f.Second → Prop) u,
    (∃ u', f.union.ReadsBack u u' ∧ OneOf.Rel r s u u') ↔
      u.either (fun x => ∃ x', f.first.ReadsBack x x' ∧ r x x') fun y =>
        ∃ y', f.second.ReadsBack y y' ∧ s y y'
  /-- The record is written with the form of the union under the key. -/
  write : ∀ x u, f.get x = some u →
    ∃ es, f.owner.write x = .mapping es ∧ Entries.get? es f.key = some (f.union.write u)
  /-- What stands there is read as a value of the union, but for null. -/
  read : ∀ es x v, f.owner.read (.mapping es) = .ok x → Entries.get? es f.key = some v →
    v ≠ .null → ∃ u, f.get x = some u ∧ f.union.read v = .ok u
  /-- When the record is read back, the value is in the same slot, and its content is read back as
  by itself. -/
  readsBack : ∀ x x' u, f.get x = some u → f.owner.ReadsBack x x' →
    ∃ u', f.get x' = some u' ∧ OneOf.Rel f.first.ReadsBack f.second.ReadsBack u u'

namespace KeepsSlot

variable {ρ α β : Type} {c : Codec ρ} {key : String} {a : Codec α} {b : Codec β}

/-- It is enough that the form of the union is written to the record and read from it. -/
theorem of_write_read {get : ρ → Option (OneOf α β)} [h : Codec.Exclusive a b]
    (hw : ∀ x u, get x = some u →
      ∃ es, c.write x = .mapping es ∧ Entries.get? es key = some ((Codec.oneOf a b).write u))
    (hr : ∀ es x v, c.read (.mapping es) = .ok x → Entries.get? es key = some v → v ≠ .null →
      ∃ u, get x = some u ∧ (Codec.oneOf a b).read v = .ok u) :
    KeepsSlot ⟨ρ, α, β, c, key, a, b, get⟩ where
  first_refuses := h.read_write_ne_ok
  second_refuses := h.second_read_ne_ok
  survives_iff := Codec.exists_readsBack_rel_iff
  write := hw
  read := hr
  readsBack x x' u hu hb := by
    obtain ⟨es, hes, hv⟩ := hw x u hu
    have hb : c.read (c.write x) = .ok x' := hb
    rw [hes] at hb
    obtain ⟨u', hu', hr⟩ := hr es x' _ hb hv (h.write_ne_null u)
    exact ⟨u', hu', Codec.oneOf_readsBack_iff.1 hr⟩

theorem of_optional {get : ρ → Option (OneOf α β)} [Codec.Exclusive a b]
    (h : c.HasField (.optional key (.oneOf a b) get)) :
    KeepsSlot ⟨ρ, α, β, c, key, a, b, get⟩ := by
  apply of_write_read
  · intro x u hu
    apply h.write
    show (Field.optional key (.oneOf a b) get).written? (get x) = _
    rw [Field.optional_written?, hu]
    rfl
  · intro es x v hr hv hn
    have he := (Field.readEntry_of_get? hv).1 (h.read hr)
    have he : (Codec.oneOf a b).option.read v = .ok (get x) := he
    rw [Codec.option_read_of_ne_null hn] at he
    obtain ⟨u, hu, hx⟩ := except_map_eq_ok.1 he
    exact ⟨u, hx.symm, hu⟩

theorem of_required {get : ρ → OneOf α β} [Codec.Exclusive a b]
    (h : c.HasField (.required key (.oneOf a b) get)) :
    KeepsSlot ⟨ρ, α, β, c, key, a, b, fun x => some (get x)⟩ := by
  apply of_write_read
  · rintro x u ⟨⟩
    exact h.write rfl
  · intro es x v hr hv _
    exact ⟨get x, rfl, (Field.readEntry_of_get? hv).1 (h.read hr)⟩

end KeepsSlot

end UnionField

end WorkflowDsl
