import WorkflowDsl.Proofs.Codec.Record

/-!
# Values that are read back at all

A value that is not kept may still be read back, as another one: an optional node that is null comes
back as none. `Codec.Rereading` says that whatever is written is read as some value. A record is
rereading when its fields are (`Rereading.record`), and an optional value when the value is, even
where it may be written as null.
-/

namespace WorkflowDsl

namespace Codec

variable {α β : Type} {c : Codec α}

/-- Whatever is written is read as some value. -/
class Rereading (c : Codec α) : Prop where
  exists_readsBack : ∀ a, ∃ b, c.ReadsBack a b

theorem exists_readsBack (c : Codec α) [Rereading c] (a : α) : ∃ b, c.ReadsBack a b :=
  Rereading.exists_readsBack a

instance [Keeping c] : Rereading c := ⟨fun a => ⟨a, c.keeps a⟩⟩

instance {make : α → β} {get : β → α} [Rereading c] : Rereading (c.imap make get) where
  exists_readsBack y := by
    obtain ⟨a, ha⟩ := c.exists_readsBack (get y)
    exact ⟨make a, imap_readsBack_iff.2 ⟨a, ha, rfl⟩⟩

instance [Rereading c] : Rereading c.option where
  exists_readsBack
    | none => ⟨none, option_readsBack_none.2 rfl⟩
    | some a => by
      by_cases h : c.write a = .null
      · exact ⟨none, (option_readsBack_null h).2 rfl⟩
      · obtain ⟨b, hb⟩ := c.exists_readsBack a
        exact ⟨some b, (option_readsBack_some h).2 ⟨b, hb, rfl⟩⟩

end Codec

/-- A field that is read back whatever its value. -/
class Field.Rereading {ρ α : Type} (f : Field ρ α) : Prop where
  exists_readsBack : ∀ a, ∃ b, f.ReadsBack a b

namespace Field

variable {ρ α : Type} {f : Field ρ α} {key : String} {c : Codec α}

instance [f.Keeping] : f.Rereading := ⟨fun a => ⟨a, Keeping.keeps a⟩⟩

instance [c.Rereading] (get : ρ → Option α) : (optional key c get).Rereading where
  exists_readsBack x := by
    obtain ⟨y, hy⟩ := c.option.exists_readsBack x
    exact ⟨y, optional_readsBack_iff.2 hy⟩

end Field

/-- Fields that are read back from any record. -/
class Fields.Rereading {ρ γ β : Type} (fields : Fields ρ γ β) : Prop where
  exists_holds : ∀ x, ∃ vs, fields.Holds (fun f b => f.ReadsBack (f.get x) b) vs

namespace Fields

variable {ρ γ α β : Type}

instance : Rereading (done : Fields ρ γ γ) := ⟨fun _ => ⟨(), trivial⟩⟩

instance (f : Field ρ α) (rest : Fields ρ γ β) [hf : f.Rereading] [h : rest.Rereading] :
    Rereading (more f rest) where
  exists_holds x := by
    obtain ⟨b, hb⟩ := hf.exists_readsBack (f.get x)
    obtain ⟨vs, hvs⟩ := h.exists_holds x
    exact ⟨(b, vs), hb, hvs⟩

end Fields

/-- **A record is read back when its fields are**, as the record of what these are read back as. -/
theorem Codec.Rereading.record {ρ β : Type} {name : String} {make : β} {fields : Fields ρ ρ β}
    (h : fields.Lawful make) [hf : fields.Rereading] : Rereading (record name make fields) where
  exists_readsBack x := by
    obtain ⟨vs, hvs⟩ := hf.exists_holds x
    refine ⟨fields.construct make vs, (record_readsBack_iff h).2 ?_⟩
    rw [h.project_construct]
    exact hvs

end WorkflowDsl
