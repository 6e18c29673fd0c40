import WorkflowDsl.Proofs.Codec.Collection
import WorkflowDsl.Proofs.Reader.Inlining
import WorkflowDsl.Proofs.Reader.Position

/-!
# Reading what documents were inlined into

`Codec.ReadsInlined` says that a value is written, documents are inlined at some pointers, and the
result is read as another value. It is followed through a type like reading back: a record by its
fields, each with the pointers below its key (`Codec.record_readsInlined`), and a list of named
values by the values (`Codec.namedMap_readsInlined`). Where no pointer leads, a value that is kept
stays as it is (`Codec.ReadsInlined.eq_of_keeps`).
-/

namespace WorkflowDsl

open Pointer (below)
open ResourcePosition (entryPointers listPointers)

variable {r : Resolver} {ps : List Pointer}

namespace Codec

variable {α : Type} {c : Codec α} {a b : α}

/-- What `a` is written as is read as `b` when documents are inlined at the pointers. -/
def ReadsInlined (c : Codec α) (r : Resolver) (ps : List Pointer) (a b : α) : Prop :=
  ∃ n, r.Inlines ps (c.write a) n ∧ c.read n = .ok b

theorem readsInlined_nil : c.ReadsInlined r [] a b ↔ c.ReadsBack a b := by
  constructor
  · rintro ⟨n, hn, h⟩
    rwa [Editor.edits_nil.1 hn] at h
  · exact fun h => ⟨_, Editor.edits_nil.2 rfl, h⟩

/-- A value that is kept stays where nothing is inlined. -/
theorem ReadsInlined.eq_of_keeps (h : c.ReadsInlined r [] a b) (hk : c.Keeps a) : b = a :=
  Except.ok.inj ((readsInlined_nil.1 h).symm.trans hk)

end Codec

/-! ## Records -/

namespace Field

variable {ρ α : Type} {f : Field ρ α} {a b : α}

/-- The field is read as `b` from a record that has `a` for it, when documents are inlined at the
pointers below its key. -/
def ReadsInlined (f : Field ρ α) (r : Resolver) (ps : List Pointer) (a b : α) : Prop :=
  if f.skip a then f.absent = some b else f.codec.ReadsInlined r ps a b

theorem readsInlined_nil : f.ReadsInlined r [] a b ↔ f.ReadsBack a b := by
  rw [ReadsInlined, ReadsBack, Codec.readsInlined_nil]

theorem ReadsBack.eq_of_keeps (h : f.ReadsBack a b) (hk : f.Keeps a) : b = a := by
  rw [Keeps] at hk
  rw [ReadsBack] at h hk
  split at h
  · next hs =>
    rw [if_pos hs] at hk
    exact Option.some.inj (h.symm.trans hk)
  · next hs =>
    rw [if_neg hs] at hk
    exact Except.ok.inj (h.symm.trans hk)

theorem ReadsInlined.eq_of_keeps (h : f.ReadsInlined r ps a b) (hps : ps = []) (hk : f.Keeps a) :
    b = a := by
  subst hps
  exact (readsInlined_nil.1 h).eq_of_keeps hk

theorem readsInlined_of_readEntry {es es' : Object} (hes : r.InlinesEntries ps es es')
    (hw : es.get? f.key = f.written? a) (h : f.readEntry es' = .ok b) :
    f.ReadsInlined r (below f.key ps) a b := by
  rw [written?] at hw
  rw [ReadsInlined]
  split at hw
  · next hs =>
    rw [if_pos hs]
    exact (readEntry_of_absent (hes.agree.get?_eq_none.2 hw)).1 h
  · next hs =>
    obtain ⟨n, hn, hi⟩ := hes.values hw
    rw [if_neg hs]
    exact ⟨n, hi, (readEntry_of_get? hn).1 h⟩

theorem rel_of_optional_readsInlined {key : String} {c : Codec α} {get : ρ → Option α}
    (hw : ∀ a, c.write a ≠ .null) {x y : Option α}
    (h : (optional key c get).ReadsInlined r ps x y) : Option.Rel (c.ReadsInlined r ps) x y := by
  cases x with
  | none =>
    obtain rfl := Option.some.inj (show some none = some y from h)
    exact .none
  | some a =>
    obtain ⟨n, hn, h⟩ : c.option.ReadsInlined r ps (some a) y := h
    have hn : r.Inlines ps (c.write a) n := hn
    rw [Codec.option_read_of_ne_null (r.leadsDown_inlineAt.descends.ne_null hn (hw a))] at h
    obtain ⟨b, hb, rfl⟩ := except_map_eq_ok.1 h
    exact .some ⟨n, hn, hb⟩

/-- A field that may be left out stays at its default, or is written and read. -/
theorem omitted_readsInlined {key : String} {c : Codec α} {absent : α} {skip : α → Bool}
    {get : ρ → α} [SkipsOnly skip absent]
    (h : (omitted key c absent skip get).ReadsInlined r ps a b)
    (hk : (omitted key c absent skip get).Keeps a) :
    (a = absent ∧ b = absent) ∨ ((omitted key c absent skip get).written? a = some (c.write a) ∧
      c.Keeps a ∧ c.ReadsInlined r ps a b) := by
  have h : if skip a then some absent = some b else c.ReadsInlined r ps a b := h
  have hi : skip a = true ↔ a = absent := SkipsOnly.skip_iff a
  by_cases ha : a = absent
  · rw [if_pos (hi.2 ha)] at h
    exact .inl ⟨ha, (Option.some.inj h).symm⟩
  · have hs := mt hi.1 ha
    rw [if_neg hs] at h
    exact .inr ⟨if_neg hs, omitted_keeps_iff.1 hk ha, h⟩

end Field

namespace Fields

variable {ρ γ : Type} {x : ρ} {es es' : Object}

/-- Fields that have their own values are read with the documents inlined below their keys. -/
theorem holds_readsInlined (hes : r.InlinesEntries ps es es') :
    {β : Type} → (fields : Fields ρ γ β) →
      fields.Holds (fun f a => es.get? f.key = f.written? a) (fields.project x) →
      (vs : fields.Values) →
      fields.Holds (fun f b => f.readEntry es' = .ok b) vs →
      fields.Holds (fun f b => f.ReadsInlined r (below f.key ps) (f.get x) b) vs
  | _, done, _, _, _ => trivial
  | _, more _ rest, hw, vs, h =>
    ⟨Field.readsInlined_of_readEntry hes hw.1 h.1, holds_readsInlined hes rest hw.2 vs.2 h.2⟩

end Fields

namespace Codec

section Record

variable {ρ β : Type} {name : String} {x y : ρ}

/-- A record is written with each field under its key. -/
theorem holds_child?_write {c : Codec ρ} {make : β} {fields : Fields ρ ρ β}
    (hc : c = record name make fields) (h : fields.Lawful make) (x : ρ) :
    fields.Holds (fun f a => (c.write x).child? f.key = f.written? a) (fields.project x) := by
  subst hc
  exact fields.holds_written? h.nodup_keys fun _ _ => rfl

/-- The same for a record with further entries that is kept. -/
theorem openRecord_holds_child?_write {c : Codec ρ} {make : β}
    {fields : Fields ρ (OrderedMap Node → ρ) β} {extra : ρ → OrderedMap Node}
    (hc : c = openRecord name make fields extra) (h : fields.OpenLawful make extra)
    (hk : c.Keeps x) :
    fields.Holds (fun f a => (c.write x).child? f.key = f.written? a) (fields.project x) := by
  subst hc
  have hd := ((openRecord_keeps_iff h).1 hk).2
  exact fields.holds_written? h.nodup_keys fun key hm =>
    Entries.get?_append_of_not_mem_right (fields.writeEntries x) fun he => hd key he hm

/-- A record is read field by field from entries that have its fields, among others, each with what
was inlined below its key. -/
theorem record_holds_of_inlinesEntries {make : β} {fields : Fields ρ ρ β} {es es' : Object}
    (hr : (record name make fields).read (.mapping es') = .ok y) (h : fields.Lawful make)
    (hes : r.InlinesEntries ps es es')
    (hw : ∀ key ∈ fields.keys, es.get? key = Entries.get? (fields.writeEntries x) key) :
    fields.Holds (fun f a => es.get? f.key = f.written? a) (fields.project x) ∧
      fields.Holds (fun f b => f.ReadsInlined r (below f.key ps) (f.get x) b)
        (fields.project y) := by
  have hwr := fields.holds_written? h.nodup_keys hw
  exact ⟨hwr, Fields.holds_readsInlined hes fields hwr _ ((record_read_mapping h).1 hr)⟩

/-- **A record is read field by field, each with what was inlined below its key.** -/
theorem record_readsInlined {make : β} {fields : Fields ρ ρ β} (h : fields.Lawful make)
    (hps : Pointer.Deep ps) (hr : (record name make fields).ReadsInlined r ps x y) :
    fields.Holds (fun f b => f.ReadsInlined r (below f.key ps) (f.get x) b) (fields.project y) := by
  obtain ⟨n, hn, hr⟩ := hr
  obtain ⟨es, rfl, hes⟩ := r.leadsDown_inlineAt.edits_mapping hps hn
  exact (record_holds_of_inlinesEntries hr h hes fun _ _ => rfl).2

/-- The same for a record with further entries that do not have the keys of its fields. -/
theorem openRecord_readsInlined {make : β} {fields : Fields ρ (OrderedMap Node → ρ) β}
    {extra : ρ → OrderedMap Node} (h : fields.OpenLawful make extra)
    (hd : ∀ key ∈ (extra x).keys, key ∉ fields.keys) (hps : Pointer.Deep ps)
    (hr : (openRecord name make fields extra).ReadsInlined r ps x y) :
    ∃ es : Object, (openRecord name make fields extra).write x = .mapping es ∧
      fields.Holds (fun f a => es.get? f.key = f.written? a) (fields.project x) ∧
        fields.Holds (fun f b => f.ReadsInlined r (below f.key ps) (f.get x) b)
          (fields.project y) := by
  obtain ⟨n, hn, hr⟩ := hr
  obtain ⟨es, rfl, hes⟩ := r.leadsDown_inlineAt.edits_mapping hps hn
  have hw := fields.holds_written? (x := x) h.nodup_keys fun key hk =>
    Entries.get?_append_of_not_mem_right (fields.writeEntries x) fun he => hd key he hk
  exact ⟨_, rfl, hw, Fields.holds_readsInlined hes fields hw _ ((openRecord_read_mapping h).1 hr).1⟩

end Record

/-! ## Lists and maps -/

section Collection

variable {α : Type} {c : Codec α} {f : Node → List Pointer}

theorem map_readsInlined {m m' : OrderedMap α} (hf : ∀ n, Pointer.Deep (f n)) (hn : m.keys.Nodup)
    (h : (map c).ReadsInlined r (entryPointers f (some ((map c).write m))) m m') :
    Entries.Matching (fun a b => c.ReadsInlined r (f (c.write a)) a b) m.entries m'.entries := by
  obtain ⟨n, hi, hr⟩ := h
  have hk : (Entries.keys (m.entries.mapValues c.write)).Nodup := by
    rw [Entries.keys_mapValues]
    exact hn
  obtain ⟨es, rfl, hes⟩ := r.leadsDown_inlineAt.descends.entries hk (fun e _ => (hf e.2).ne_nil) hi
  refine (forall₂_comp (List.forall₂_map_left_iff.1 hes) (map_read_mapping.1 hr)).imp ?_
  rintro e e' ⟨v, ⟨hk, hi⟩, hk', hv⟩
  exact ⟨hk.trans hk', v.2, hi, hv⟩

theorem namedMap_readsInlined {m m' : NamedMap α} (hf : ∀ n, Pointer.Deep (f n))
    (hn : m.names.Nodup)
    (h : (namedMap c).ReadsInlined r (listPointers f (some ((namedMap c).write m))) m m') :
    Entries.Matching (fun a b => c.ReadsInlined r (f (c.write a)) a b) m.entries m'.entries := by
  obtain ⟨n, hi, hr⟩ := h
  obtain ⟨ns, rfl, hns⟩ :=
    r.leadsDown_inlineAt.descends.sequence
      (fun _ _ => ResourcePosition.ne_nil_of_mem_entryPointers) hi
  obtain ⟨es, hes, rfl⟩ := namedMap_read_sequence.1 hr
  have hm : Entries.Matching (fun a b => c.ReadsInlined r (f (c.write a)) a b) m.entries es := by
    refine (forall₂_comp (List.forall₂_map_left_iff.1 hns) hes).imp ?_
    rintro e e' ⟨n, hi, hr⟩
    have hn1 : (Entries.keys [(e.1, c.write e.2)]).Nodup := List.nodup_singleton _
    obtain ⟨es', rfl, hes'⟩ :=
      r.leadsDown_inlineAt.descends.entries hn1 (fun e _ => (hf e.2).ne_nil) hi
    obtain ⟨v, hes, hv⟩ := readNamed_eq_ok.1 hr
    obtain rfl := Node.mapping.inj hes
    obtain ⟨hk, hi⟩ := (List.forall₂_cons.1 hes').1
    exact ⟨hk, v, hi, hv⟩
  have hn' : (Entries.keys es).Nodup := by
    rw [← hm.keys_eq]
    exact hn
  rw [NamedMap.ofList, Entries.ofList_of_nodup hn']
  exact hm

end Collection

end Codec

end WorkflowDsl
