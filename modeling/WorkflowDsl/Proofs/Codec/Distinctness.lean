import WorkflowDsl.Proofs.Codec.Collection

/-!
# Values written with distinct keys

A text holds no key twice in one mapping, and what is read from such a tree is written as one
(`Codec.DistinctBelow`). Nodes are written as they were read, and all other keys are those of fields,
of maps and of named maps: the keys of a record are distinct because they are those of its fields, a
map has the keys that it was read with, and an item of a named map has one key.

A default stands for no tree. It is written with distinct keys because it has none.
-/

namespace WorkflowDsl

namespace Codec

variable {α β : Type} {c : Codec α} {d : Nat}

/-- All values are written as trees with distinct keys. -/
class WritesDistinct (c : Codec α) : Prop where
  distinct : ∀ a, (c.write a).distinctKeys = true

/-- Values read from trees below depth `d` are written as trees with distinct keys. -/
class DistinctBelow (d : Nat) (c : Codec α) : Prop where
  distinct_of_read : ∀ {n : Node} {a : α}, n.Below d → c.read n = .ok a →
    (c.write a).distinctKeys = true

instance [h : WritesDistinct c] : DistinctBelow d c := ⟨fun _ _ => h.distinct _⟩

theorem DistinctBelow.mono {d' : Nat} (h : DistinctBelow d c) (hd : d' ≤ d) : DistinctBelow d' c :=
  ⟨fun hn => h.distinct_of_read (hn.mono hd)⟩

theorem DistinctBelow.zero : DistinctBelow 0 c :=
  ⟨fun hn => absurd hn.depth_lt (Nat.not_lt_zero _)⟩

/-! ## Scalars -/

instance : WritesDistinct string := ⟨fun _ => rfl⟩

instance : WritesDistinct bool := ⟨fun _ => rfl⟩

instance : WritesDistinct float := ⟨fun _ => rfl⟩

instance {name : String} {all : List α} {text : α → String} :
    WritesDistinct (choice name all text) := ⟨fun _ => rfl⟩

instance [h : WritesDistinct c] {make : α → β} {get : β → α} : WritesDistinct (c.imap make get) :=
  ⟨fun b => h.distinct (get b)⟩

instance {name : String} {least greatest : Int} : WritesDistinct (integer name least greatest) :=
  ⟨fun _ => rfl⟩

instance : WritesDistinct uint16 := inferInstanceAs (WritesDistinct ((integer ..).imap ..))

instance : WritesDistinct uint32 := inferInstanceAs (WritesDistinct ((integer ..).imap ..))

instance : WritesDistinct uint64 := inferInstanceAs (WritesDistinct ((integer ..).imap ..))

instance : DistinctBelow d node where
  distinct_of_read hn hr := by
    obtain rfl := Except.ok.inj hr
    exact hn.distinct

instance [h : DistinctBelow d c] (name : String) : DistinctBelow d (c.named name) :=
  ⟨h.distinct_of_read⟩

instance [h : DistinctBelow d c] : DistinctBelow d c.option where
  distinct_of_read {n x} hn hr := by
    cases x with
    | none => rfl
    | some a => exact h.distinct_of_read hn (option_read_eq_some.1 hr).2

theorem DistinctBelow.ofDefinition {name : String} {read : Node → Except DefinitionError α}
    {write : α → Node} (h : ∀ {n : Node} {a : α}, n.Below d → read n = .ok a →
      (write a).distinctKeys = true) : DistinctBelow d (ofDefinition name read write) :=
  ⟨fun hn hr => h hn (ofDefinition_read_eq_ok.1 hr)⟩

/-! ## Lists, maps and unions -/

instance [h : DistinctBelow d c] : DistinctBelow d (list c) where
  distinct_of_read {n as} hn hr := by
    cases n with
    | sequence items =>
      refine Node.distinctKeys_sequence.2 fun m hm => ?_
      obtain ⟨a, ha, rfl⟩ := List.mem_map.1 hm
      obtain ⟨n, hm, hr⟩ := forall₂_exists_left (list_read_sequence.1 hr) ha
      exact h.distinct_of_read ((hn.mono (Nat.le_succ d)).of_mem_sequence hm) hr
    | _ => cases hr

instance [h : DistinctBelow d c] : DistinctBelow d (map c) where
  distinct_of_read {n m} hn hr := by
    cases n with
    | mapping es =>
      have hm := map_read_mapping.1 hr
      refine Node.distinctKeys_mapping.2 ⟨?_, fun e he => ?_⟩
      · rw [Entries.keys_mapValues, ← hm.keys_eq]
        exact hn.nodup_keys
      · obtain ⟨a, ha, rfl⟩ := List.mem_map.1 he
        obtain ⟨e, hm, -, hr⟩ := forall₂_exists_left hm ha
        exact h.distinct_of_read ((hn.mono (Nat.le_succ d)).of_mem_mapping hm) hr
    | _ => cases hr

instance : DistinctBelow d object := inferInstanceAs (DistinctBelow d ((map node).named _))

instance [h : DistinctBelow d c] : DistinctBelow d (namedMap c) where
  distinct_of_read {n m} hn hr := by
    cases n with
    | sequence items =>
      obtain ⟨es, hes, rfl⟩ := namedMap_read_sequence.1 hr
      refine Node.distinctKeys_sequence.2 fun m hm => ?_
      obtain ⟨e, he, rfl⟩ := List.mem_map.1 hm
      obtain ⟨n, hm, hr⟩ := forall₂_exists_left hes (Entries.mem_ofList he)
      obtain ⟨v, rfl, hv⟩ := readNamed_eq_ok.1 hr
      have hi := ((hn.mono (Nat.le_succ d)).of_mem_sequence hm).mono (Nat.le_succ d)
      refine Node.distinctKeys_mapping.2 ⟨List.nodup_singleton e.1, fun e' he' => ?_⟩
      obtain rfl := List.mem_singleton.1 he'
      exact h.distinct_of_read (hi.of_mem_mapping List.mem_cons_self) hv
    | _ => cases hr

instance {a : Codec α} {b : Codec β} [ha : DistinctBelow d a] [hb : DistinctBelow d b] :
    DistinctBelow d (oneOf a b) where
  distinct_of_read {n z} hn hr := by
    cases z with
    | first x => exact ha.distinct_of_read hn (oneOf_read_first.1 hr)
    | second y => exact hb.distinct_of_read hn (oneOf_read_second.1 hr).2

end Codec

/-! ## Records -/

namespace Field

variable {ρ α : Type} {key : String} {c : Codec α} {d : Nat}

/-- A field that is written with distinct keys if its value is read from a tree below depth `d`, or
that for its absence. -/
class DistinctBelow (d : Nat) (f : Field ρ α) : Prop where
  distinct_of_read : ∀ {n : Node} {a : α}, n.Below d → f.codec.read n = .ok a →
    (f.codec.write a).distinctKeys = true
  distinct_of_absent : ∀ {a : α}, f.absent = some a → f.skip a = false →
    (f.codec.write a).distinctKeys = true

instance [h : c.DistinctBelow d] (get : ρ → α) : DistinctBelow d (required key c get) where
  distinct_of_read := h.distinct_of_read
  distinct_of_absent := nofun

instance [h : c.DistinctBelow d] (get : ρ → Option α) : DistinctBelow d (optional key c get) where
  distinct_of_read := Codec.DistinctBelow.distinct_of_read (c := c.option)
  distinct_of_absent h _ := by
    obtain rfl := Option.some.inj h
    rfl

instance [h : c.WritesDistinct] (absent : α) (get : ρ → α) :
    DistinctBelow d (defaulted key c absent get) where
  distinct_of_read _ _ := h.distinct _
  distinct_of_absent _ _ := h.distinct _

/-- A map that is empty when it is absent. -/
instance [h : c.DistinctBelow d] (get : ρ → OrderedMap α) :
    DistinctBelow d (defaulted key (.map c) {} get) where
  distinct_of_read := Codec.DistinctBelow.distinct_of_read (c := .map c)
  distinct_of_absent h _ := by
    obtain rfl := Option.some.inj h
    rfl

instance [h : c.DistinctBelow d] (absent : α) (skip : α → Bool) [hs : SkipsOnly skip absent]
    (get : ρ → α) : DistinctBelow d (omitted key c absent skip get) where
  distinct_of_read := h.distinct_of_read
  distinct_of_absent h hk := by
    obtain rfl := Option.some.inj h
    exact absurd ((hs.skip_iff absent).2 rfl) (Bool.eq_false_iff.1 hk)

end Field

namespace Fields

variable {ρ γ β : Type}

/-- Fields that are written with distinct keys if their values are read from trees below depth `d`,
or those for their absence. -/
class DistinctBelow (d : Nat) (fields : Fields ρ γ β) : Prop where
  forall_mem : ∀ x : ρ,
    fields.Holds (fun f a => (∃ n : Node, n.Below d ∧ f.codec.read n = .ok a) ∨ f.absent = some a)
      (fields.project x) → ∀ e ∈ fields.writeEntries x, e.2.distinctKeys = true

instance (d : Nat) : DistinctBelow d (done : Fields ρ γ γ) := ⟨fun _ _ => nofun⟩

instance {α : Type} (d : Nat) (f : Field ρ α) (rest : Fields ρ γ β) [hf : f.DistinctBelow d]
    [h : rest.DistinctBelow d] : DistinctBelow d (more f rest) where
  forall_mem x hx := by
    have hrest := h.forall_mem x hx.2
    rw [writeEntries]
    split
    · exact hrest
    · next hs =>
      refine List.forall_mem_cons.2 ⟨?_, hrest⟩
      rcases hx.1 with ⟨n, hn, hr⟩ | ha
      · exact hf.distinct_of_read hn hr
      · exact hf.distinct_of_absent ha (Bool.eq_false_iff.2 hs)

end Fields

namespace Codec

variable {ρ β : Type} {name : String} {make : β} {d : Nat}

theorem DistinctBelow.record_succ {fields : Fields ρ ρ β} (h : fields.Lawful make)
    [hd : fields.DistinctBelow d] : DistinctBelow (d + 1) (record name make fields) where
  distinct_of_read {_ x} hn hr :=
    Node.distinctKeys_mapping.2 ⟨(fields.keys_writeEntries_sublist x).nodup h.nodup_keys,
      hd.forall_mem x (record_holds_of_read h hn hr)⟩

theorem DistinctBelow.record {fields : Fields ρ ρ β} (h : fields.Lawful make)
    [fields.DistinctBelow d] : DistinctBelow d (record name make fields) :=
  (DistinctBelow.record_succ h).mono (Nat.le_succ d)

theorem DistinctBelow.openRecord {fields : Fields ρ (OrderedMap Node → ρ) β}
    {extra : ρ → OrderedMap Node} (h : fields.OpenLawful make extra)
    [hd : fields.DistinctBelow d] : DistinctBelow d (openRecord name make fields extra) where
  distinct_of_read {n x} hn hr := by
    cases n with
    | mapping es =>
      have hn := hn.mono (Nat.le_succ d)
      obtain ⟨hf, he⟩ := (openRecord_read_mapping h).1 hr
      have hs := fields.keys_writeEntries_sublist x
      have hx : (Node.mapping (extra x).entries).distinctKeys = true := by
        rw [← he]
        exact (hn.of_sublist (Entries.sublist_splitKeys_snd es fields.keys)).distinct
      obtain ⟨hk, hv⟩ := Node.distinctKeys_mapping.1 hx
      refine Node.distinctKeys_mapping.2 ⟨?_, List.forall_mem_append.2 ⟨?_, hv⟩⟩
      · rw [Entries.keys_append]
        refine List.nodup_append'.2 ⟨hs.nodup h.nodup_keys, hk, fun key hm hm' => ?_⟩
        rw [← he] at hm'
        exact (Entries.mem_keys_splitKeys_snd hm').2 (hs.subset hm)
      · refine hd.forall_mem x (Fields.Holds.imp ?_ fields _ hf)
        intro _ f a ha
        exact (Field.readEntry_cases ha).imp_left fun ⟨n, hm, hr⟩ => ⟨n, hn.of_mem_mapping hm, hr⟩
    | _ => cases hr

end Codec

end WorkflowDsl
