import WorkflowDsl.Proofs.Codec.Reordering

/-!
# Values read back as equal ones

Equality of maps looks up every key of one map in the other, so that a codec that loses the order of
a map reads back a value that is not the same, but equal (`Codec.RecoversBelow`). A record whose
fields are read back as equal values is so itself (`RecoversBelow.openRecord`).
-/

namespace WorkflowDsl

/-! ## Codecs -/

namespace Codec

variable {α : Type} [BEq α] {c : Codec α} {d : Nat}

/-- Values read from trees below depth `d` are read back as equal ones. -/
class RecoversBelow (d : Nat) (c : Codec α) : Prop where
  recovers : ∀ {n : Node} {a : α}, n.Below d → c.read n = .ok a →
    ∃ b, c.ReadsBack a b ∧ (b == a) = true

instance [h : RecoversBelow d c] : RecoversBelow d (list c) where
  recovers {n as} hn hr := by
    cases n with
    | sequence items =>
      obtain ⟨bs, hbs⟩ := exists_forall₂ fun a ha => by
        obtain ⟨n, hm, hr⟩ := forall₂_exists_left (list_read_sequence.1 hr) ha
        exact h.recovers ((hn.mono (Nat.le_succ d)).of_mem_sequence hm) hr
      refine ⟨bs, list_readsBack_iff.2 (hbs.imp fun _ _ h => h.1), ?_⟩
      exact list_beq_of_forall₂ (hbs.flip.imp fun _ _ h => h.2)
    | _ => cases hr

end Codec

namespace Field

variable {ρ α : Type} [BEq α] {d : Nat}

/-- A field whose values read from trees below depth `d` are read back as equal ones, as is that for
its absence. -/
class RecoversBelow (d : Nat) (f : Field ρ α) : Prop where
  recovers_of_read : ∀ {n : Node} {a : α}, n.Below d → f.codec.read n = .ok a →
    ∃ b, f.ReadsBack a b ∧ (b == a) = true
  recovers_of_absent : ∀ {a : α}, f.absent = some a → ∃ b, f.ReadsBack a b ∧ (b == a) = true

instance (f : Field ρ α) [hs : f.StableBelow d] [hr : f.IgnoresOrderBelow d] :
    f.RecoversBelow d where
  recovers_of_read {_ a} hn h := ⟨a, hs.keeps_of_read hn h, hr.codec.beq_self hn h⟩
  recovers_of_absent {a} h := ⟨a, hs.keeps_of_absent h, hr.beq_self_of_absent h⟩

/-- A list that is empty when it is absent. -/
instance {key : String} {c : Codec α} [h : c.RecoversBelow d] (get : ρ → List α) :
    RecoversBelow d (defaulted key (.list c) [] get) where
  recovers_of_read := Codec.RecoversBelow.recovers (c := .list c)
  recovers_of_absent h := by
    obtain rfl := Option.some.inj h
    exact ⟨[], Codec.list_readsBack_iff.2 .nil, rfl⟩

end Field

namespace Fields

variable {ρ γ β : Type}

/-- Fields whose values read from trees below depth `d` are read back as equal ones. -/
class RecoversBelow (d : Nat) (fields : Fields ρ γ β) [fields.Comparable] : Prop where
  recovers : ∀ x,
    fields.Holds (fun f a => (∃ n : Node, n.Below d ∧ f.codec.read n = .ok a) ∨ f.absent = some a)
      (fields.project x) →
    ∃ vs, fields.Holds (fun f b => f.ReadsBack (f.get x) b) vs ∧ fields.Alike vs (fields.project x)

instance (d : Nat) : RecoversBelow d (done : Fields ρ γ γ) where
  recovers _ _ := ⟨(), trivial, fun _ => rfl⟩

theorem RecoversBelow.more {α : Type} [BEq α] {d : Nat} {f : Field ρ α} {rest : Fields ρ γ β}
    [rest.Comparable] [(Fields.more f rest).Comparable]
    (he : ∀ {a b : α} {vs vs' : rest.Values}, (a == b) = true → rest.Alike vs vs' →
      (Fields.more f rest).Alike (a, vs) (b, vs'))
    [hf : f.RecoversBelow d] [h : rest.RecoversBelow d] : RecoversBelow d (more f rest) where
  recovers x hx := by
    obtain ⟨a, ha, hab⟩ : ∃ a, f.ReadsBack (f.get x) a ∧ (a == f.get x) = true := by
      rcases hx.1 with ⟨n, hn, hr⟩ | ha
      · exact hf.recovers_of_read hn hr
      · exact hf.recovers_of_absent ha
    obtain ⟨vs, hvs, hv⟩ := h.recovers x hx.2
    exact ⟨(a, vs), ⟨ha, hvs⟩, he hab hv⟩

instance {α : Type} [BEq α] (d : Nat) (f : Field ρ α) [f.RecoversBelow d] :
    RecoversBelow d (more f done : Fields ρ γ (α → γ)) :=
  .more fun h _ => .last h

instance {α α' : Type} [BEq α] (d : Nat) (f : Field ρ α) (g : Field ρ α') (rest : Fields ρ γ β)
    [f.RecoversBelow d] [(more g rest).Comparable] [(more g rest).RecoversBelow d] :
    RecoversBelow d (more f (more g rest)) :=
  .more .more

end Fields

/-- A record with further entries is read back as an equal one when its fields are, if its values
are equal when those of its fields and the further entries are. -/
theorem Codec.RecoversBelow.openRecord {ρ β : Type} [BEq ρ] {name : String} {make : β}
    {fields : Fields ρ (OrderedMap Node → ρ) β} {extra : ρ → OrderedMap Node} {d : Nat}
    [hc : fields.Comparable] (h : fields.OpenLawful make extra) [hs : fields.RecoversBelow d]
    (he : ∀ x y : ρ,
      hc.equal (fields.project x) (fields.project y) (some (extra x == extra y)) = true →
        (x == y) = true) : RecoversBelow d (openRecord name make fields extra) where
  recovers {n x} hn hr := by
    cases n with
    | mapping es =>
      have hn := hn.mono (Nat.le_succ d)
      obtain ⟨hf, hx⟩ := (openRecord_read_mapping h).1 hr
      obtain ⟨vs, hvs, hes⟩ := hs.recovers x (Fields.Holds.imp (fun f a ha =>
        (Field.readEntry_cases ha).imp_left fun ⟨n, hm, hr⟩ => ⟨n, hn.of_mem_mapping hm, hr⟩)
          fields _ hf)
      have hd : ∀ key ∈ (extra x).keys, key ∉ fields.keys := by
        intro key hm
        rw [OrderedMap.keys, ← hx] at hm
        exact (Entries.mem_keys_splitKeys_snd hm).2
      have hxb : (extra x == extra x) = true := by
        have hxs : (Node.mapping (extra x).entries).Below (d + 1) := by
          rw [← hx]
          exact hn.of_sublist (Entries.sublist_splitKeys_snd _ _)
        exact OrderedMap.beq_of_reordered hxs (.of_perm (.refl _))
      refine ⟨fields.construct make vs (extra x), (openRecord_readsBack_iff h hd).2 ⟨?_, ?_⟩,
        he _ _ ?_⟩
      · rw [h.project_construct]
        exact hvs
      · exact h.extra_construct vs _
      · rw [h.project_construct, h.extra_construct, hes, hxb]
        rfl
    | _ => cases hr

end WorkflowDsl
