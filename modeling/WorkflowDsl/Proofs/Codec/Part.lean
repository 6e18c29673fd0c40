import WorkflowDsl.Proofs.Codec.Slot
import WorkflowDsl.Proofs.Codec.Union

/-!
# Parts of trees

A `Node.Context` is a tree with a hole, as the list of what stands around the hole on the way to it.
`Codec.ReadsPart` says that a codec reads what stands in the hole by another codec, and depends on
nothing else of it than what is read there. Lists, maps, records and unions read their parts so, and
a codec reads a part of a part so (`ReadsPart.comp`).

`Codec.HasOption` lists the optional fields of records. Null under the key of one is read as nothing
under it (`HasOption.passesNull`).
-/

namespace WorkflowDsl

/-! ## Trees with a hole -/

namespace Node

/-- What stands directly around a place of a tree: the other entries of a mapping, or the other
items of a sequence. -/
inductive Frame where
  | entry (before : Object) (key : String) (after : Object)
  | item (before after : List Node)

def Frame.plug : Frame → Node → Node
  | entry before key after, n => .mapping (before ++ (key, n) :: after)
  | item before after, n => .sequence (before ++ n :: after)

/-- What stands around a place of a tree, from the outside. -/
abbrev Context := List Frame

/-- The tree with a node in the hole. -/
def Context.plug (context : Context) (n : Node) : Node := context.foldr Frame.plug n

/-- Both are mappings, or both are sequences. -/
inductive Alike : Node → Node → Prop
  | mapping (es fs : Object) : Alike (.mapping es) (.mapping fs)
  | sequence (items items' : List Node) : Alike (.sequence items) (.sequence items')

theorem Alike.plug {n m : Node} (h : n.Alike m) :
    ∀ context : Context, (context.plug n).Alike (context.plug m)
  | [] => h
  | .entry .. :: _ => .mapping _ _
  | .item .. :: _ => .sequence _ _

end Node

/-! ## Entries between others -/

namespace Entries

variable {α : Type} {before after : Entries α} {key : String} {ks : List String}

theorem get?_between (h : key ∉ keys before) (a : α) :
    get? (before ++ (key, a) :: after) key = some a := by
  rw [get?_append_of_not_mem_left _ h, get?_cons, if_pos rfl]

theorem keys_between (before after : Entries α) (key : String) (a b : α) :
    keys (before ++ (key, a) :: after) = keys (before ++ (key, b) :: after) := by
  rw [keys_append, keys_append, keys_cons, keys_cons]

theorem splitKeys_append_eq (es fs : Entries α) (ks : List String) :
    splitKeys (es ++ fs) ks =
      ((splitKeys es ks).1 ++ (splitKeys fs ks).1, (splitKeys es ks).2 ++ (splitKeys fs ks).2) := by
  simp [splitKeys_eq]

theorem splitKeys_between_of_mem (before after : Entries α) (h : key ∈ ks) (a : α) :
    splitKeys (before ++ (key, a) :: after) ks =
      ((splitKeys before ks).1 ++ (key, a) :: (splitKeys after ks).1,
        (splitKeys (before ++ after) ks).2) := by
  simp [splitKeys_eq, h]

theorem splitKeys_between_of_not_mem (before after : Entries α) (h : key ∉ ks) (a : α) :
    splitKeys (before ++ (key, a) :: after) ks =
      ((splitKeys (before ++ after) ks).1,
        (splitKeys before ks).2 ++ (key, a) :: (splitKeys after ks).2) := by
  simp [splitKeys_eq, h]

end Entries

theorem Entries.not_mem_keys_of_sublist {α : Type} {es fs : Entries α} (h : es.Sublist fs)
    {key : String} (hk : key ∉ keys fs) : key ∉ keys es :=
  fun hm => hk ((h.map _).subset hm)

/-- Of related lists, an item between others is related to one, and may be changed for any that
is. -/
theorem forall₂_between {α β : Type} {r : α → β → Prop} {before after : List α} {a : α}
    {bs : List β} (h : List.Forall₂ r (before ++ a :: after) bs) :
    ∃ b, r a b ∧ ∀ a', r a' b → List.Forall₂ r (before ++ a' :: after) bs := by
  induction before generalizing bs with
  | nil =>
    obtain ⟨b, bs, hb, hbs, rfl⟩ := List.forall₂_cons_left_iff.1 h
    exact ⟨b, hb, fun _ hb => .cons hb hbs⟩
  | cons x before ih =>
    obtain ⟨y, bs, hy, hbs, rfl⟩ := List.forall₂_cons_left_iff.1 h
    obtain ⟨b, hb, h⟩ := ih hbs
    exact ⟨b, hb, fun a' ha => .cons hy (h a' ha)⟩

/-! ## Fields -/

namespace Fields

variable {ρ γ α : Type} {es fs : Object} {f : Field ρ α} {key : String}

theorem key_of_find? : {β : Type} → {fields : Fields ρ γ β} →
    fields.find? key = some ⟨α, f⟩ → f.key = key
  | _, done, h => nomatch h
  | _, more g rest, h => by
    rw [find?] at h
    split at h
    · next hk =>
      cases h
      exact hk
    · exact key_of_find? h

theorem mem_keys_of_find? : {β : Type} → {fields : Fields ρ γ β} →
    fields.find? key = some ⟨α, f⟩ → key ∈ fields.keys
  | _, done, h => nomatch h
  | _, more g rest, h => by
    rw [find?] at h
    split at h
    · next hk => exact hk ▸ List.mem_cons_self
    · exact List.mem_cons_of_mem _ (mem_keys_of_find? h)

/-- Where entries differ under one key only, the fields are read alike as soon as that field is. -/
theorem holds_readEntry_update (he : ∀ k, key ≠ k → es.get? k = fs.get? k) :
    {β : Type} → {fields : Fields ρ γ β} → fields.keys.Nodup → fields.find? key = some ⟨α, f⟩ →
      {vs : fields.Values} → fields.Holds (fun g a => g.readEntry es = .ok a) vs →
        ∃ a, f.readEntry es = .ok a ∧
          (f.readEntry fs = .ok a → fields.Holds (fun g a => g.readEntry fs = .ok a) vs)
  | _, done, _, h, _, _ => nomatch h
  | _, more g rest, hn, h, vs, hvs => by
    rw [keys, List.nodup_cons] at hn
    rw [find?] at h
    split at h
    · next hk =>
      cases h
      -- The keys are distinct, so no other field reads this entry.
      have hrest : ∀ k ∈ rest.keys, es.get? k = fs.get? k := by
        refine fun k hm => he k ?_
        rintro rfl
        exact hn.1 (hk ▸ hm)
      exact ⟨vs.1, hvs.1, fun ha => ⟨ha, (holds_readEntry_congr rest hrest vs.2).1 hvs.2⟩⟩
    · next hk =>
      obtain ⟨a, ha, hrest⟩ := holds_readEntry_update he hn.2 h hvs.2
      have hg := (Field.readEntry_congr (he g.key (Ne.symm hk))).1 hvs.1
      exact ⟨a, ha, fun ha => ⟨hg, hrest ha⟩⟩

/-- The field at an index. -/
def at? : {β : Type} → Fields ρ γ β → Nat → Option ((α : Type) × Field ρ α)
  | _, done, _ => none
  | _, more f _, 0 => some ⟨_, f⟩
  | _, more _ rest, index + 1 => rest.at? index

/-- Of the items of a sequence, each is read by the field at its index. -/
theorem readItems_between {shape : String} {after : List Node} {n : Node} :
    {before : List Node} → {index : Nat} → {β : Type} → {fields : Fields ρ γ β} → {k : β → γ} →
      fields.at? before.length = some ⟨α, f⟩ →
        fields.readItems shape index (before ++ n :: after) = .ok k →
          ∃ a, f.codec.read n = .ok a ∧ ∀ m, f.codec.read m = .ok a →
            fields.readItems shape index (before ++ m :: after) = .ok k
  | [], _, _, done, _, h, _ => nomatch h
  | _ :: _, _, _, done, _, h, _ => nomatch h
  | [], index, _, more g rest, k, h, hk => by
    cases h
    obtain ⟨a, ha, hk⟩ := except_bind_eq_ok.1 hk
    exact ⟨a, ha, fun m hm => except_bind_eq_ok.2 ⟨a, hm, hk⟩⟩
  | b :: before, index, _, more g rest, k, h, hk => by
    obtain ⟨x, hx, hk⟩ := except_bind_eq_ok.1 hk
    obtain ⟨k', hrest, hk⟩ := except_bind_eq_ok.1 hk
    have h : rest.at? before.length = some ⟨α, f⟩ := h
    have hrest : rest.readItems shape (index + 1) (before ++ n :: after) = .ok k' := hrest
    obtain ⟨a, ha, hm⟩ := readItems_between h hrest
    exact ⟨a, ha, fun m ham =>
      except_bind_eq_ok.2 ⟨x, hx, except_bind_eq_ok.2 ⟨k', hm m ham, hk⟩⟩⟩

end Fields

namespace Codec

variable {α β γ ρ : Type} {c : Codec α} {d : Codec β} {e : Codec γ}

/-! ## Reading parts -/

/-- What `c` reads at a place of a tree is read by `d`, and only what is read there counts. -/
def ReadsPart (c : Codec α) (place : Node → Node) (d : Codec β) : Prop :=
  ∀ (n m : Node) (x : α), n.Alike m → c.read (place n) = .ok x →
    ∃ y, d.read n = .ok y ∧ (d.read m = .ok y → c.read (place m) = .ok x)

theorem ReadsPart.refl (c : Codec α) : c.ReadsPart id c := fun _ _ _ _ hx => ⟨_, hx, id⟩

/-- A part of a part is a part. -/
theorem ReadsPart.comp {place : Node → Node} {context : Node.Context} (hc : c.ReadsPart place d)
    (hd : d.ReadsPart context.plug e) : c.ReadsPart (fun n => place (context.plug n)) e := by
  intro n m x hnm hx
  obtain ⟨y, hy, hx⟩ := hc _ _ _ (hnm.plug context) hx
  obtain ⟨z, hz, hy⟩ := hd _ _ _ hnm hy
  exact ⟨z, hz, fun hm => hx (hy hm)⟩

theorem option_readsPart (c : Codec α) : c.option.ReadsPart id c := by
  intro n m x hnm hx
  have hn : n ≠ .null ∧ m ≠ .null := by cases hnm <;> exact ⟨nofun, nofun⟩
  obtain ⟨y, hy, rfl⟩ := except_map_eq_ok.1 ((option_read_of_ne_null hn.1).symm.trans hx)
  exact ⟨y, hy, fun hm => (option_read_of_ne_null hn.2).trans (except_map_eq_ok.2 ⟨y, hm, rfl⟩)⟩

/-- Mappings and sequences are no texts, so they are of the first alternative. -/
theorem oneOf_string_readsPart (c : Codec α) : (oneOf c .string).ReadsPart id c := by
  intro n m x hnm hx
  cases x with
  | first y => exact ⟨y, oneOf_read_first.1 hx, oneOf_read_first.2⟩
  | second s =>
    have hs : string.read n = .ok s := (oneOf_read_second.1 hx).2
    cases hnm <;> cases hs

theorem list_readsPart (c : Codec α) (before after : List Node) :
    (list c).ReadsPart (Node.Frame.item before after).plug c := by
  intro n m x _ hx
  obtain ⟨a, ha, h⟩ := forall₂_between (list_read_sequence.1 hx)
  exact ⟨a, ha, fun hm => list_read_sequence.2 (h m hm)⟩

theorem map_readsPart (c : Codec α) (before after : Object) (key : String) :
    (map c).ReadsPart (Node.Frame.entry before key after).plug c := by
  intro n m x _ hx
  obtain ⟨a, ha, h⟩ := forall₂_between (map_read_mapping.1 hx)
  exact ⟨a.2, ha.2, fun hm => map_read_mapping.2 (h (key, m) ⟨ha.1, hm⟩)⟩

theorem namedMap_readsPart (c : Codec α) (before after : List Node) (name : String) :
    (namedMap c).ReadsPart
      (fun n => (Node.Frame.item before after).plug ((Node.Frame.entry [] name []).plug n)) c := by
  intro n m x _ hx
  obtain ⟨es, hes, hx⟩ := namedMap_read_sequence.1 hx
  obtain ⟨⟨key, a⟩, ha, h⟩ := forall₂_between hes
  obtain ⟨v, hv, ha⟩ := readNamed_eq_ok.1 ha
  obtain ⟨rfl, rfl⟩ : name = key ∧ n = v := by simpa [Node.Frame.plug] using hv
  refine ⟨a, ha, fun hm => namedMap_read_sequence.2 ⟨es, h _ ?_, hx⟩⟩
  exact readNamed_eq_ok.2 ⟨m, rfl, hm⟩

/-! ## Reading records -/

/-- What stands under the key of a field may be changed for what the field reads alike. -/
theorem holds_readEntry_between {fields : Fields ρ γ β} {f : Field ρ α} {before after : Object}
    {key : String} (hk : key ∉ Entries.keys before) (hn : fields.keys.Nodup)
    (hf : fields.find? key = some ⟨α, f⟩) {n : Node} {vs : fields.Values}
    (h : fields.Holds (fun g a => g.readEntry (before ++ (key, n) :: after) = .ok a) vs)
    (m : Node) :
    ∃ a, f.codec.read n = .ok a ∧ (f.codec.read m = .ok a →
      fields.Holds (fun g a => g.readEntry (before ++ (key, m) :: after) = .ok a) vs) := by
  obtain rfl := Fields.key_of_find? hf
  obtain ⟨a, ha, h⟩ := Fields.holds_readEntry_update
    (fun k hne => (KeyedUnion.get?_between_of_ne n hne).trans
      (KeyedUnion.get?_between_of_ne m hne).symm) hn hf h
  refine ⟨a, (Field.readEntry_of_get? (Entries.get?_between hk n)).1 ha, fun hm => h ?_⟩
  exact (Field.readEntry_of_get? (Entries.get?_between hk m)).2 hm

section Record

variable {name : String} {make : β} {fields : Fields ρ ρ β} {f : Field ρ α}

theorem record_readsPart {before after : Object} {key : String} (hk : key ∉ Entries.keys before)
    (hn : fields.keys.Nodup) (hf : fields.find? key = some ⟨α, f⟩) :
    (record name make fields).ReadsPart (Node.Frame.entry before key after).plug f.codec := by
  intro n m x _ hx
  obtain ⟨vs, hvs, rfl⟩ := record_read_mapping_eq_ok.1 hx
  obtain ⟨a, ha, h⟩ := holds_readEntry_between hk hn hf hvs m
  exact ⟨a, ha, fun hm => record_read_mapping_eq_ok.2 ⟨vs, h hm, rfl⟩⟩

theorem record_readsPart_item {before after : List Node}
    (hf : fields.at? before.length = some ⟨α, f⟩) :
    (record name make fields).ReadsPart (Node.Frame.item before after).plug f.codec := by
  intro n m x _ hx
  obtain ⟨k, hk, hx⟩ := except_bind_eq_ok.1 hx
  obtain ⟨a, ha, h⟩ := Fields.readItems_between hf hk
  refine ⟨a, ha, fun hm => except_bind_eq_ok.2 ⟨k, h m hm, ?_⟩⟩
  rw [← hx, List.length_append, List.length_append]
  rfl

end Record

section OpenRecord

variable {name : String} {make : β} {fields : Fields ρ (OrderedMap Node → ρ) β}
  {extra : ρ → OrderedMap Node} {f : Field ρ α}

theorem openRecord_readsPart {before after : Object} {key : String}
    (hk : key ∉ Entries.keys before) (hn : fields.keys.Nodup)
    (hf : fields.find? key = some ⟨α, f⟩) :
    (openRecord name make fields extra).ReadsPart (Node.Frame.entry before key after).plug
      f.codec := by
  intro n m x _ hx
  obtain ⟨vs, hvs, rfl⟩ := openRecord_read_mapping_eq_ok.1 hx
  obtain ⟨a, ha, h⟩ := holds_readEntry_between hk hn hf hvs m
  refine ⟨a, ha, fun hread => openRecord_read_mapping_eq_ok.2 ⟨vs, h hread, ?_⟩⟩
  have hm := Fields.mem_keys_of_find? hf
  rw [Entries.splitKeys_between_of_mem _ _ hm, Entries.splitKeys_between_of_mem _ _ hm]

end OpenRecord

/-! ## Optional fields -/

/-- Values of the record have an optional field with the key. -/
inductive HasOption : {ρ : Type} → Codec ρ → String → Prop where
  | record {ρ α β : Type} {name : String} {make : β} {fields : Fields ρ ρ β} {key : String}
      {c : Codec α} {get : ρ → Option α} (distinct : fields.keys.Nodup)
      (field : fields.find? key = some ⟨Option α, .optional key c get⟩) :
      HasOption (record name make fields) key
  | openRecord {ρ α β : Type} {name : String} {make : β}
      {fields : Fields ρ (OrderedMap Node → ρ) β} {extra : ρ → OrderedMap Node} {key : String}
      {c : Codec α} {get : ρ → Option α} (distinct : fields.keys.Nodup)
      (field : fields.find? key = some ⟨Option α, .optional key c get⟩) :
      HasOption (openRecord name make fields extra) key

/-- Null under a key that is not there counts as nothing. -/
def PassesNull (c : Codec α) (key : String) : Prop :=
  ∀ (before after : Object) (x : α), key ∉ Entries.keys (before ++ after) →
    c.read (.mapping (before ++ after)) = .ok x →
      c.read (.mapping (before ++ (key, .null) :: after)) = .ok x

/-- Null is read by an optional field as nothing, and by the other fields not at all. -/
theorem holds_readEntry_null {γ : Type} {fields : Fields ρ γ β} {key : String} {c : Codec α}
    {get : ρ → Option α} (hn : fields.keys.Nodup)
    (hf : fields.find? key = some ⟨Option α, .optional key c get⟩) {before after : Object}
    (hk : key ∉ Entries.keys (before ++ after)) {vs : fields.Values}
    (h : fields.Holds (fun f a => f.readEntry (before ++ after) = .ok a) vs) :
    fields.Holds (fun f a => f.readEntry (before ++ (key, .null) :: after) = .ok a) vs := by
  have hbefore : key ∉ Entries.keys before := by
    rw [Entries.keys_append, List.mem_append, not_or] at hk
    exact hk.1
  obtain ⟨a, ha, h⟩ := Fields.holds_readEntry_update
    (fun k hne => (KeyedUnion.get?_between_of_ne .null hne).symm) hn hf h
  have habsent : (Field.optional key c get).absent = some a :=
    (Field.readEntry_of_absent (Entries.get?_eq_none_iff.2 hk)).1 ha
  obtain rfl : none = a := Option.some.inj habsent
  exact h ((Field.readEntry_of_get? (Entries.get?_between hbefore .null)).2 rfl)

theorem HasOption.passesNull {c : Codec α} {key : String} (h : c.HasOption key) :
    c.PassesNull key := by
  intro before after x hk hx
  cases h with
  | record hn hf =>
    obtain ⟨vs, hvs, rfl⟩ := record_read_mapping_eq_ok.1 hx
    exact record_read_mapping_eq_ok.2 ⟨vs, holds_readEntry_null hn hf hk hvs, rfl⟩
  | openRecord hn hf =>
    obtain ⟨vs, hvs, rfl⟩ := openRecord_read_mapping_eq_ok.1 hx
    refine openRecord_read_mapping_eq_ok.2 ⟨vs, holds_readEntry_null hn hf hk hvs, ?_⟩
    rw [Entries.splitKeys_between_of_mem _ _ (Fields.mem_keys_of_find? hf)]

end Codec

end WorkflowDsl
