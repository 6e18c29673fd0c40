import WorkflowDsl.Proofs.Codec.Collection

/-!
# What is kept, exactly

A value may be lost because it is written like another one. `KeptIff` says of a property that it
tells exactly when that happens: where it holds, the value is read back, and where what is read back
is at least equal to the value, it holds. Equality is that of the type, which for maps is up to the
order of entries, so that nothing is called lost that only changes its order.

The main case is null: an optional node that is null is written like one that is not there
(`keptIff_node`).
-/

namespace WorkflowDsl

/-- **`p` tells exactly whether `a` is kept**, where `R` relates values to what they are read back
as, and `r` is equality. -/
structure KeptIff {α : Type} (R : α → α → Prop) (r : α → α → Bool) (p : Bool) (a : α) : Prop where
  keeps : p = true → R a a
  of_readsBack : ∀ {b}, R a b → r b a = true → p = true

theorem KeptIff.of_self {α : Type} {R : α → α → Prop} {r : α → α → Bool} {a : α} (h : R a a) :
    KeptIff R r true a :=
  ⟨fun _ => h, fun _ _ => rfl⟩

/-- What is related there and back has a partner for both. -/
theorem forall₂_exists_back {α β : Type} {r : α → β → Prop} {s : β → α → Prop} {as : List α}
    {bs : List β} (h : List.Forall₂ r as bs) (h' : List.Forall₂ s bs as) {a : α} (ha : a ∈ as) :
    ∃ b, r a b ∧ s b a := by
  induction h with
  | nil => cases ha
  | cons hr _ ih =>
    rw [List.forall₂_cons] at h'
    rcases List.mem_cons.1 ha with rfl | ha
    · exact ⟨_, hr, h'.1⟩
    · exact ih h'.2 ha

/-! ## Named maps -/

namespace NamedMap

variable {α β γ : Type}

/-- Whether the names are distinct and every value satisfies `p`. -/
def allDistinct (p : α → Bool) (m : NamedMap α) : Bool :=
  decide m.names.Nodup && m.values.all p

theorem allDistinct_map (f : α → β) (p : β → Bool) (m : NamedMap α) :
    (m.map f).allDistinct p = m.allDistinct fun a => p (f a) := by
  rw [allDistinct, allDistinct, names_map, values_map, List.all_map]
  rfl

theorem equalBy_iff {r : α → β → Bool} {m : NamedMap α} {n : NamedMap β} :
    m.equalBy r n = true ↔ Entries.Matching (fun a b => r a b = true) m.entries n.entries := by
  rw [Entries.Matching, List.forall₂_iff_zip, equalBy]
  simp only [Bool.and_eq_true, beq_iff_eq, List.all_eq_true, size]
  exact and_congr Iff.rfl
    ⟨fun h _ _ hm => h _ hm, fun h e hm => h (a := e.1) (b := e.2) hm⟩

theorem equalBy_map (r : β → γ → Bool) (f : α → β) (m : NamedMap α) (n : NamedMap γ) :
    (m.map f).equalBy r n = m.equalBy (fun a b => r (f a) b) n := by
  rw [Bool.eq_iff_iff, equalBy_iff, equalBy_iff]
  exact List.forall₂_map_left_iff

theorem equalBy_of_beq [BEq α] {m n : NamedMap α} (h : (m == n) = true) :
    m.equalBy (· == ·) n = true :=
  equalBy_iff.2 (beq_iff.1 h)

end NamedMap

/-! ## Fields and codecs -/

theorem Field.keptIff_optional {ρ α : Type} (key : String) {c : Codec α} (get : ρ → Option α)
    {r : Option α → Option α → Bool} {p : Bool} {x : Option α}
    (h : KeptIff c.option.ReadsBack r p x) : KeptIff (optional key c get).ReadsBack r p x where
  keeps hp := optional_keeps_iff.2 (h.keeps hp)
  of_readsBack hr he := h.of_readsBack (optional_readsBack_iff.1 hr) he

theorem Field.keptIff_omitted {ρ α : Type} (key : String) {c : Codec α} {absent : α}
    {skip : α → Bool} (get : ρ → α) [SkipsOnly skip absent] {r : α → α → Bool} {p : Bool} {a : α}
    (h : KeptIff c.ReadsBack r p a) (hp : a = absent → p = true) :
    KeptIff (omitted key c absent skip get).ReadsBack r p a where
  keeps hp := omitted_keeps_iff.2 fun _ => h.keeps hp
  of_readsBack {b} hr he := by
    by_cases hs : skip a = true
    · exact hp ((SkipsOnly.skip_iff a).1 hs)
    · refine h.of_readsBack (b := b) ?_ he
      have hr' : (if skip a = true then _ else c.ReadsBack a b) := hr
      rwa [if_neg hs] at hr'

namespace Codec

theorem record_write_ne_null {ρ β : Type} {name : String} {make : β} {fields : Fields ρ ρ β}
    (x : ρ) : (record name make fields).write x ≠ .null := nofun

/-- A record is kept when its fields are, and what it is read back as tells what they are read back
as. -/
theorem keptIff_record {ρ β : Type} {name : String} {make : β} {fields : Fields ρ ρ β} {x : ρ}
    {r : ρ → ρ → Bool} {p : Bool} (h : fields.Lawful make)
    (hk : p = true → fields.Holds (fun f a => f.Keeps a) (fields.project x))
    (hr : ∀ y, fields.Holds (fun f b => f.ReadsBack (f.get x) b) (fields.project y) →
      r y x = true → p = true) : KeptIff (record name make fields).ReadsBack r p x where
  keeps hp := (record_keeps_iff h).2 (hk hp)
  of_readsBack {y} hy he := hr y ((record_readsBack_iff h).1 hy) he

variable {α : Type} {c : Codec α}

theorem keptIff_optionBy {r : α → α → Bool} {s : Option α → Option α → Bool} {p : α → Bool}
    {x : Option α} (h : ∀ a ∈ x, KeptIff c.ReadsBack r (p a) a) (hw : ∀ a, c.write a ≠ .null)
    (hs : ∀ a b, s (some b) (some a) = true → r b a = true) :
    KeptIff c.option.ReadsBack s (x.all p) x where
  keeps hp := by
    cases x with
    | none => exact option_keeps_none
    | some a => exact option_keeps_some.2 ⟨hw a, (h a rfl).keeps hp⟩
  of_readsBack {y} hr he := by
    cases x with
    | none => rfl
    | some a =>
      obtain ⟨b, hb, rfl⟩ := (option_readsBack_some (hw a)).1 hr
      exact (h a rfl).of_readsBack hb (hs a b he)

theorem keptIff_option [BEq α] {p : α → Bool} (h : ∀ a, KeptIff c.ReadsBack (· == ·) (p a) a)
    (hw : ∀ a, c.write a ≠ .null) (x : Option α) :
    KeptIff c.option.ReadsBack (· == ·) (x.all p) x :=
  keptIff_optionBy (fun a _ => h a) hw fun _ _ he => he

/-- **An optional node is kept unless it is null.** -/
theorem keptIff_node (x : Option Node) :
    KeptIff node.option.ReadsBack (· == ·) (x.all (!·.isNull)) x where
  keeps hp := by
    cases x with
    | none => exact option_keeps_none
    | some n =>
      refine option_keeps_some.2 ⟨?_, node.keeps n⟩
      rintro rfl
      cases hp
  of_readsBack {y} hr he := by
    cases x with
    | none => rfl
    | some n =>
      cases n with
      | null =>
        obtain rfl := (option_readsBack_null rfl).1 hr
        cases he
      | _ => rfl

theorem keptIff_namedMap {r : α → α → Bool} {p : α → Bool} {m : NamedMap α}
    (h : ∀ a ∈ m.values, KeptIff c.ReadsBack r (p a) a) :
    KeptIff (namedMap c).ReadsBack (NamedMap.equalBy r) (m.allDistinct p) m where
  keeps hp := by
    simp only [NamedMap.allDistinct, Bool.and_eq_true, decide_eq_true_eq, List.all_eq_true] at hp
    refine namedMap_keeps_iff.2 ⟨hp.1, fun e he => ?_⟩
    have hv : e.2 ∈ m.values := List.mem_map_of_mem he
    exact (h _ hv).keeps (hp.2 _ hv)
  of_readsBack {m'} hr he := by
    obtain ⟨es, hes, rfl⟩ := namedMap_readsBack_iff.1 hr
    have he := NamedMap.equalBy_iff.1 he
    have hn : m.names.Nodup := by
      rw [NamedMap.names, ← he.keys_eq]
      exact Entries.nodup_keys_ofList es
    have hs : (NamedMap.ofList es).entries = es := hes.ofList_eq hn
    rw [hs] at he
    simp only [NamedMap.allDistinct, Bool.and_eq_true, decide_eq_true_eq, List.all_eq_true]
    refine ⟨hn, fun a ha => ?_⟩
    obtain ⟨e, hm, rfl⟩ := List.mem_map.1 ha
    obtain ⟨f, hf, hr⟩ := forall₂_exists_back hes he hm
    exact (h _ ha).of_readsBack hf.2 hr.2

theorem keptIff_omittedNamedMap {ρ : Type} (key : String) (get : ρ → NamedMap α)
    {r : α → α → Bool} {p : α → Bool} {m : NamedMap α}
    (h : ∀ a ∈ m.values, KeptIff c.ReadsBack r (p a) a) :
    KeptIff (Field.omitted key (namedMap c) {} NamedMap.isEmpty get).ReadsBack
      (NamedMap.equalBy r) (m.allDistinct p) m := by
  refine Field.keptIff_omitted key get (keptIff_namedMap h) ?_
  rintro rfl
  rfl

/-- A map with distinct keys is kept when its values are. -/
theorem keptIff_map [BEq α] {p : α → Bool} {m : OrderedMap α} (hn : m.keys.Nodup)
    (h : ∀ a, KeptIff c.ReadsBack (· == ·) (p a) a) :
    KeptIff (map c).ReadsBack (· == ·) (m.entries.values.all p) m where
  keeps hp := by
    rw [List.all_eq_true] at hp
    exact map_keeps_iff.2 fun e he => (h _).keeps (hp _ (List.mem_map_of_mem he))
  of_readsBack {m'} hr he := by
    rw [List.all_eq_true]
    intro a ha
    obtain ⟨e, hm, rfl⟩ := List.mem_map.1 ha
    obtain ⟨e', hm', hk, hr⟩ := forall₂_exists_left (map_readsBack_iff.1 hr).flip hm
    obtain ⟨a, hg, he⟩ := (OrderedMap.beq_iff.1 he).2 e' hm'
    have hg' : m.entries.get? e.1 = some e.2 := Entries.get?_of_mem hn hm
    rw [← hk, OrderedMap.get?, hg'] at hg
    obtain rfl := Option.some.inj hg
    exact (h _).of_readsBack hr he

/-- A record with further entries is kept when its fields are and no further entry has the key of a
field. -/
theorem keptIff_openRecord {ρ β : Type} {name : String} {make : β}
    {fields : Fields ρ (OrderedMap Node → ρ) β} {extra : ρ → OrderedMap Node} {x : ρ}
    {r : ρ → ρ → Bool} {p : Bool} (h : fields.OpenLawful make extra)
    (he : ∀ y, r y x = true → (extra y == extra x) = true)
    (hk : p = true → fields.Holds (fun f a => f.Keeps a) (fields.project x))
    (hr : ∀ y, fields.Holds (fun f b => f.ReadsBack (f.get x) b) (fields.project y) →
      r y x = true → p = true) :
    KeptIff (openRecord name make fields extra).ReadsBack r
      (p && (extra x).keys.all (!fields.keys.contains ·)) x where
  keeps hp := by
    obtain ⟨hp, ha⟩ := Bool.and_eq_true_iff.1 hp
    refine (openRecord_keeps_iff h).2 ⟨hk hp, fun key hm => ?_⟩
    simpa using List.all_eq_true.1 ha key hm
  of_readsBack {y} hy hb := by
    -- What is read back has as many further entries, and none of them has the key of a field.
    have hs : ((extra x).entries.filter fun e => !fields.keys.contains e.1) =
        (extra y).entries := by
      rw [← ((openRecord_read_mapping h).1 hy).2, Entries.splitKeys_eq]
      show _ = (fields.writeEntries x ++ (extra x).entries).filter _
      have hw : ((fields.writeEntries x).filter fun e => !fields.keys.contains e.1) = [] := by
        rw [List.filter_eq_nil_iff]
        intro e he
        have := (fields.keys_writeEntries_sublist x).subset (Entries.mem_keys_of_mem he)
        simpa using this
      rw [List.filter_append, hw, List.nil_append]
    have hl := (OrderedMap.beq_iff.1 (he y hb)).1
    rw [OrderedMap.size, ← hs, OrderedMap.size, List.length_filter_eq_length_iff] at hl
    have hd : ∀ key ∈ (extra x).keys, key ∉ fields.keys := by
      intro key hm
      obtain ⟨e, he, rfl⟩ := List.mem_map.1 hm
      simpa using hl e he
    refine Bool.and_eq_true_iff.2 ⟨hr y ((openRecord_readsBack_iff h hd).1 hy).1 hb, ?_⟩
    simpa using hd

end Codec

end WorkflowDsl
