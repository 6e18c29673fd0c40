import WorkflowDsl.Proofs.Codec.Equality
import WorkflowDsl.Proofs.Legacy.Reordering
import WorkflowDsl.Proofs.Legacy.Stable

/-!
# States read back

A state is written as its type, the common fields, the fields of its type, and the other entries,
which have no key in common (`State.Apart`). Reading takes the type out, and moves the last entry
into its place; where that entry is one of the others, their order changes. So a state that was read
is not always read back as it is, but as one that is equal up to that order (`State.recovers`).
-/

namespace WorkflowDsl.Legacy

/-! ## Kinds -/

namespace StateKind

/-- The entries that a kind is written as. -/
def entries (k : StateKind) : Object := k.toNode.entries?.getD []

variable {type : StateType} {k : StateKind} {d : Nat} {owned es fs : Object}

theorem type?_of_read (h : read type owned = .ok k) : k.type? = some type := by
  cases type <;> obtain ⟨_, _, rfl⟩ := except_map_eq_ok.1 h <;> rfl

/-- Reading a kind does not depend on the order of the entries, nor on those of other keys. -/
theorem read_congr (h : ∀ key ∈ type.ownedKeys, es.get? key = fs.get? key) :
    read type es = .ok k ↔ read type fs = .ok k := by
  have hc {ρ β : Type} {name : String} {make : β} {fields : Fields ρ ρ β} {kind : ρ → StateKind}
      (hl : fields.Lawful make) (hk : fields.keys = type.ownedKeys) :
      ((Codec.record name make fields).read (.mapping es)).map kind = .ok k ↔
        ((Codec.record name make fields).read (.mapping fs)).map kind = .ok k := by
    rw [except_map_eq_ok, except_map_eq_ok]
    exact exists_congr fun x => and_congr_left' (Codec.record_read_congr hl (hk ▸ h))
  cases type <;> exact hc (.computed rfl) rfl

/-- What is read as a kind is read back, and equals itself. -/
theorem read_entries (hn : (Node.mapping owned).Below d) (h : read type owned = .ok k) :
    read type k.entries = .ok k ∧ (k == k) = true := by
  have hc {α : Type} [BEq α] {c : Codec α} [c.StableBelow d] [c.IgnoresOrderBelow d]
      {make : α → StateKind} (h : (c.read (.mapping owned)).map make = .ok k) :
      ∃ x, make x = k ∧ c.Keeps x ∧ (x == x) = true := by
    obtain ⟨x, hx, rfl⟩ := except_map_eq_ok.1 h
    exact ⟨x, rfl, Codec.StableBelow.keeps_of_read hn hx, Codec.IgnoresOrderBelow.beq_self hn hx⟩
  cases type with
  | callback =>
    obtain ⟨x, rfl, hx, hb⟩ := hc (c := CallbackState.codec) h
    exact ⟨except_map_eq_ok.2 ⟨x, hx, rfl⟩, hb⟩
  | sleep =>
    obtain ⟨x, rfl, hx, hb⟩ := hc (c := SleepState.codec) h
    exact ⟨except_map_eq_ok.2 ⟨x, hx, rfl⟩, hb⟩
  | event =>
    obtain ⟨x, rfl, hx, hb⟩ := hc (c := EventState.codec) h
    exact ⟨except_map_eq_ok.2 ⟨x, hx, rfl⟩, hb⟩
  | forEach =>
    obtain ⟨x, rfl, hx, hb⟩ := hc (c := ForEachState.codec) h
    exact ⟨except_map_eq_ok.2 ⟨x, hx, rfl⟩, hb⟩
  | inject =>
    obtain ⟨x, rfl, hx, hb⟩ := hc (c := InjectState.codec) h
    exact ⟨except_map_eq_ok.2 ⟨x, hx, rfl⟩, hb⟩
  | operation =>
    obtain ⟨x, rfl, hx, hb⟩ := hc (c := OperationState.codec) h
    exact ⟨except_map_eq_ok.2 ⟨x, hx, rfl⟩, hb⟩
  | parallel =>
    obtain ⟨x, rfl, hx, hb⟩ := hc (c := ParallelState.codec) h
    exact ⟨except_map_eq_ok.2 ⟨x, hx, rfl⟩, hb⟩
  | switch =>
    obtain ⟨x, rfl, hx, hb⟩ := hc (c := SwitchState.codec) h
    exact ⟨except_map_eq_ok.2 ⟨x, hx, rfl⟩, hb⟩

/-- A kind is written under distinct keys of its type. -/
theorem keys_entries_sublist (h : k.type? = some type) :
    (Entries.keys k.entries).Sublist type.ownedKeys := by
  have hs {ρ γ β : Type} {fields : Fields ρ γ β} {x : ρ} (hk : fields.keys = type.ownedKeys) :
      (Entries.keys (fields.writeEntries x)).Sublist type.ownedKeys :=
    hk ▸ fields.keys_writeEntries_sublist x
  cases k with
  | extension => cases h
  | _ =>
    obtain rfl := Option.some.inj h
    exact hs rfl

/-- Keys of a type are not those of the common fields, nor that of the type. -/
theorem ownedKeys_apart {key : String} (h : key ∈ type.ownedKeys) :
    key ∉ StateFields.keys ∧ key ≠ "type" := by
  have hd : ∀ type ∈ StateType.all, ∀ key ∈ type.ownedKeys,
      key ∉ StateFields.keys ∧ key ≠ "type" := by decide
  exact hd type (by cases type <;> decide) key h

theorem ofText?_typeName (h : k.type? = some type) : StateType.ofText? k.typeName = some type := by
  cases k with
  | extension => cases h
  | _ =>
    obtain rfl := Option.some.inj h
    rfl

theorem eq_extension_of_type? (h : k.type? = none) :
    ∃ type properties, k = .extension type properties := by
  cases k with
  | extension type properties => exact ⟨type, properties, rfl⟩
  | _ => cases h

end StateKind

/-! ## States -/

namespace State

variable {es : Object} {s : State} {d : Nat}

/-! ## Writing -/

/-- The entries of the common fields. -/
def commonEntries (fields : StateFields) : Object :=
  (StateFields.codec.write fields).entries?.getD []

theorem keys_commonEntries_sublist (fields : StateFields) :
    (Entries.keys (commonEntries fields)).Sublist StateFields.keys :=
  Fields.keys_writeEntries_sublist fields _

theorem name_mem_commonEntries (fields : StateFields) :
    "name" ∈ Entries.keys (commonEntries fields) := by
  obtain ⟨_ | id, _⟩ := fields
  · exact List.mem_cons_self
  · exact List.mem_cons_of_mem _ List.mem_cons_self

/-- The entries beside the type, in the order in which they are written. -/
def rest (s : State) : Object := commonEntries s.fields ++ (s.kind.entries ++ s.extra.entries)

/-- The parts of a state have no key in common, and none has that of the type. -/
structure Apart (s : State) : Prop where
  nodup_kind : (Entries.keys s.kind.entries).Nodup
  nodup_extra : s.extra.keys.Nodup
  kind : ∀ key ∈ Entries.keys s.kind.entries, key ∉ StateFields.keys ∧ key ≠ "type"
  extra : ∀ key ∈ s.extra.keys,
    key ∉ StateFields.keys ∧ key ≠ "type" ∧ key ∉ Entries.keys s.kind.entries

namespace Apart

variable (h : s.Apart)
include h

theorem nodup_rest : (Entries.keys s.rest).Nodup := by
  have hs := (keys_commonEntries_sublist s.fields).subset
  rw [rest, Entries.keys_append, Entries.keys_append, List.nodup_append', List.nodup_append']
  refine ⟨(keys_commonEntries_sublist s.fields).nodup (by decide),
    ⟨h.nodup_kind, h.nodup_extra, fun key hk he => (h.extra key he).2.2 hk⟩, fun key hc hm => ?_⟩
  rcases List.mem_append.1 hm with hm | hm
  · exact (h.kind key hm).1 (hs hc)
  · exact (h.extra key hm).1 (hs hc)

theorem type_not_mem : "type" ∉ Entries.keys s.rest := by
  rw [rest, Entries.keys_append, Entries.keys_append, List.mem_append, List.mem_append]
  rintro (hm | hm | hm)
  · exact absurd ((keys_commonEntries_sublist s.fields).subset hm) (by decide)
  · exact (h.kind _ hm).2 rfl
  · exact (h.extra _ hm).2.1 rfl

theorem toNode_eq : s.toNode = .mapping (("type", .string s.kind.typeName) :: s.rest) := by
  have hs := (keys_commonEntries_sublist s.fields).subset
  have hc : Entries.merge [("type", .string s.kind.typeName)] (commonEntries s.fields) =
      [("type", .string s.kind.typeName)] ++ commonEntries s.fields := by
    refine Entries.merge_of_disjoint ((keys_commonEntries_sublist s.fields).nodup (by decide)) ?_
    intro key hk hm
    have hf := hs hk
    rw [show key = "type" from List.mem_singleton.1 hm] at hf
    exact absurd hf (by decide)
  show Node.mapping (Entries.merge (Entries.merge (Entries.merge
    [("type", .string s.kind.typeName)] (commonEntries s.fields)) s.kind.entries)
      s.extra.entries) = _
  rw [hc, Entries.merge_of_disjoint h.nodup_kind, Entries.merge_of_disjoint h.nodup_extra]
  · simp [rest]
  · intro key he hm
    simp only [Entries.keys_append, List.mem_append] at hm
    rcases hm with (hm | hm) | hm
    · exact (h.extra key he).2.1 (List.mem_singleton.1 hm)
    · exact (h.extra key he).1 (hs hm)
    · exact (h.extra key he).2.2 hm
  · intro key hk hm
    rw [Entries.keys_append, List.mem_append] at hm
    rcases hm with hm | hm
    · exact (h.kind key hk).2 (List.mem_singleton.1 hm)
    · exact (h.kind key hk).1 (hs hm)

/-- Taking the type out leaves the entries beside it, perhaps in another order. -/
theorem swapErase_perm (n : Node) :
    (Entries.swapErase (("type", n) :: s.rest) "type").Perm s.rest := by
  have hn : (Entries.keys (("type", n) :: s.rest)).Nodup :=
    List.nodup_cons.2 ⟨h.type_not_mem, h.nodup_rest⟩
  have hp := Entries.swapErase_perm hn "type"
  rwa [List.filter_cons_of_neg (by simp), Entries.filter_ne_of_not_mem h.type_not_mem] at hp

end Apart

/-! ## Kept entries -/

/-- The entries that a state keeps as they are: the properties of an extension, or the extra ones. -/
def kept (s : State) : Object :=
  match s.kind with
  | .extension _ properties => properties.entries
  | _ => s.extra.entries

/-- The state with other entries kept. -/
def withKept (s : State) (es : Object) : State :=
  match s.kind with
  | .extension type _ => { s with kind := .extension type ⟨es⟩ }
  | _ => { s with extra := ⟨es⟩ }

theorem kept_of_type? {t : StateType} (h : s.kind.type? = some t) : s.kept = s.extra.entries := by
  obtain ⟨fields, kind, extra⟩ := s
  cases kind <;> first | rfl | cases h

theorem withKept_of_type? {t : StateType} (h : s.kind.type? = some t) (es : Object) :
    s.withKept es = { s with extra := ⟨es⟩ } := by
  obtain ⟨fields, kind, extra⟩ := s
  cases kind <;> first | rfl | cases h

theorem kept_of_extension {type : String} {properties : OrderedMap Node}
    (h : s.kind = .extension type properties) : s.kept = properties.entries := by
  rw [kept, h]

theorem withKept_of_extension {type : String} {properties : OrderedMap Node}
    (h : s.kind = .extension type properties) (es : Object) :
    s.withKept es = { s with kind := .extension type ⟨es⟩ } := by
  rw [withKept, h]

/-! ## Reading back -/

/-- The entries beside the type in another order have the same common fields. -/
theorem read_fields_of_perm (h : s.Apart) (hf : StateFields.codec.Keeps s.fields)
    (hp : es.Perm s.rest) :
    StateFields.codec.read (.mapping (Entries.splitKeys es StateFields.keys).1) = .ok s.fields := by
  refine (Codec.record_read_congr (.computed rfl) ?_).2 hf
  intro key hk
  have hk : key ∈ StateFields.keys := hk
  have hn := (hp.map Prod.fst).nodup_iff.2 h.nodup_rest
  rw [Entries.get?_splitKeys_fst _ hk, Entries.get?_perm hp hn, rest]
  refine Entries.get?_append_of_not_mem_right _ fun hm => ?_
  rw [Entries.keys_append, List.mem_append] at hm
  rcases hm with hm | hm
  · exact (h.kind key hm).1 hk
  · exact (h.extra key hm).1 hk

/-- Without the common fields, there remain those of the kind and the other entries. -/
theorem splitKeys_rest (h : s.Apart) :
    Entries.splitKeys s.rest StateFields.keys =
      (commonEntries s.fields, s.kind.entries ++ s.extra.entries) := by
  refine Entries.splitKeys_append (fun key hm => ?_) fun key hm => ?_
  · exact (keys_commonEntries_sublist s.fields).subset hm
  · rw [Entries.keys_append, List.mem_append] at hm
    rcases hm with hm | hm
    · exact (h.kind key hm).1
    · exact (h.extra key hm).1

theorem name_mem_of_perm (hp : es.Perm s.rest) : "name" ∈ Entries.keys es := by
  refine (hp.map Prod.fst).mem_iff.2 ?_
  show "name" ∈ Entries.keys s.rest
  rw [rest, Entries.keys_append]
  exact List.mem_append_left _ (name_mem_commonEntries s.fields)

/-- A state of a type is read back, with the other entries perhaps in another order. -/
theorem readAs_typed {t : StateType} (h : s.Apart) (ht : s.kind.type? = some t)
    (hf : StateFields.codec.Keeps s.fields) (hk : StateKind.read t s.kind.entries = .ok s.kind)
    (he : ∀ key ∈ s.extra.keys, key ∉ t.ownedKeys) (hp : es.Perm s.rest) :
    ∃ kept : Object, kept.Perm s.kept ∧ ReadAs s.kind.typeName es (s.withKept kept) := by
  have hn := (hp.map Prod.fst).nodup_iff.2 h.nodup_rest
  have hs := (keys_commonEntries_sublist s.fields).subset
  have hr := read_fields_of_perm h hf hp
  refine ⟨(Entries.splitKeys (Entries.splitKeys es StateFields.keys).2 t.ownedKeys).2, ?_, ?_⟩
  · have hp' := Entries.splitKeys_perm (Entries.splitKeys_perm hp StateFields.keys) t.ownedKeys
    rw [kept_of_type? ht]
    rwa [splitKeys_rest h, Entries.splitKeys_append
      (fun key hm => (StateKind.keys_entries_sublist ht).subset hm) he] at hp'
  · rw [withKept_of_type? ht]
    refine ⟨name_mem_of_perm hp, hr, ?_⟩
    rw [StateKind.ofText?_typeName ht]
    refine ⟨(StateKind.read_congr fun key hk => ?_).2 hk, rfl⟩
    have hc := (StateKind.ownedKeys_apart hk).1
    rw [Entries.get?_splitKeys_fst _ hk, Entries.get?_splitKeys_snd _ hc, Entries.get?_perm hp hn,
      rest, Entries.get?_append_of_not_mem_left _ fun hm => hc (hs hm)]
    exact Entries.get?_append_of_not_mem_right _ fun hm => he key hm hk

/-- A state of another type is read back, with its properties perhaps in another order. -/
theorem readAs_extension {type : String} {properties : OrderedMap Node} (h : s.Apart)
    (hk : s.kind = .extension type properties) (ht : StateType.ofText? type = none)
    (he : s.extra = {}) (hf : StateFields.codec.Keeps s.fields) (hp : es.Perm s.rest) :
    ∃ kept : Object, kept.Perm s.kept ∧ ReadAs s.kind.typeName es (s.withKept kept) := by
  have hr := read_fields_of_perm h hf hp
  have hname : s.kind.typeName = type := by
    rw [hk]
    rfl
  refine ⟨(Entries.splitKeys es StateFields.keys).2, ?_, ?_⟩
  · have hp' := Entries.splitKeys_perm hp StateFields.keys
    rw [splitKeys_rest h, hk, he] at hp'
    rw [kept_of_extension hk]
    exact (List.append_nil properties.entries) ▸ hp'
  · rw [withKept_of_extension hk, hname]
    refine ⟨name_mem_of_perm hp, hr, ?_⟩
    rw [ht]
    exact ⟨rfl, he⟩

theorem readsBack_of_readAs {s' : State} (h : s.Apart)
    (hr : ReadAs s.kind.typeName
      (Entries.swapErase (("type", .string s.kind.typeName) :: s.rest) "type") s') :
    codec.ReadsBack s s' := by
  refine Codec.ofDefinition_read_eq_ok.2 ?_
  show ofNode s.toNode = _
  rw [h.toNode_eq, ofNode_eq_ok]
  exact ⟨_, rfl, hr⟩

/-- Maps of nodes from a tree in another order are equal. -/
theorem beq_of_perm {m m' : OrderedMap Node} (hn : (Node.mapping m.entries).Below d)
    (hp : m'.entries.Perm m.entries) : (m' == m) = true := by
  have hr : Entries.Reordered m.entries m'.entries := .of_perm hp.symm
  have hn' := hn.of_reordered (Node.reordered_mapping.2 hr)
  exact OrderedMap.beq_of_reordered (hn'.mono (Nat.le_succ d)) (.of_perm hp)

/-- The parts of a state that is read from a tree have no key in common. -/
theorem apart_of_readAs {type : String} (hn : (Node.mapping es).Below d)
    (ht : "type" ∉ Entries.keys es) (h : ReadAs type es s) : s.Apart := by
  obtain ⟨-, -, hm⟩ := h
  have hne {key : String} (h : key ∈ Entries.keys es) : key ≠ "type" := by
    rintro rfl
    exact ht h
  split at hm
  · next t _ =>
    obtain ⟨hk, he⟩ := hm
    have hsub := StateKind.keys_entries_sublist (StateKind.type?_of_read hk)
    have hx : ∀ key ∈ s.extra.keys, key ∈ Entries.keys es ∧ key ∉ StateFields.keys ∧
        key ∉ t.ownedKeys := by
      intro key hm
      rw [he] at hm
      obtain ⟨hm, ho⟩ := Entries.mem_keys_splitKeys_snd hm
      obtain ⟨hm, hf⟩ := Entries.mem_keys_splitKeys_snd hm
      exact ⟨hm, hf, ho⟩
    refine ⟨hsub.nodup (by cases t <;> decide), ?_, fun key hm => ?_, fun key hm => ?_⟩
    · rw [he]
      have hs := (Entries.sublist_splitKeys_snd (Entries.splitKeys es StateFields.keys).2
        t.ownedKeys).trans (Entries.sublist_splitKeys_snd es StateFields.keys)
      exact (hs.map _).nodup hn.nodup_keys
    · exact StateKind.ownedKeys_apart (hsub.subset hm)
    · obtain ⟨hm, hf, ho⟩ := hx key hm
      exact ⟨hf, hne hm, fun hk => ho (hsub.subset hk)⟩
  · obtain ⟨hk, he⟩ := hm
    have hkeys : Entries.keys s.kind.entries =
        Entries.keys (Entries.splitKeys es StateFields.keys).2 := by
      rw [hk]
      rfl
    refine ⟨?_, ?_, fun key hm => ?_, fun key hm => ?_⟩
    · rw [hkeys]
      exact ((Entries.sublist_splitKeys_snd es StateFields.keys).map _).nodup hn.nodup_keys
    · rw [he]
      exact List.nodup_nil
    · rw [hkeys] at hm
      obtain ⟨hm, hf⟩ := Entries.mem_keys_splitKeys_snd hm
      exact ⟨hf, hne hm⟩
    · rw [he] at hm
      cases hm

/-- What is read is read back, with the kept entries perhaps in another order. -/
theorem exists_readsBack {type : String} (hn : (Node.mapping es).Below d)
    (ht : "type" ∉ Entries.keys es) (h : ReadAs type es s) :
    ∃ kept : Object, kept.Perm s.kept ∧ ReadAs s.kind.typeName
      (Entries.swapErase (("type", .string s.kind.typeName) :: s.rest) "type")
      (s.withKept kept) := by
  have ha := apart_of_readAs hn ht h
  have hp := ha.swapErase_perm (.string s.kind.typeName)
  obtain ⟨-, hf, hm⟩ := h
  have hc := hn.of_sublist (Entries.sublist_splitKeys_fst _ StateFields.keys)
  have ho := hn.of_sublist (Entries.sublist_splitKeys_snd _ StateFields.keys)
  have hk := Codec.StableBelow.keeps_of_read hc hf
  split at hm
  · next t _ =>
    obtain ⟨hr, he⟩ := hm
    have hs := ho.of_sublist (Entries.sublist_splitKeys_fst _ t.ownedKeys)
    refine readAs_typed ha (StateKind.type?_of_read hr) hk (StateKind.read_entries hs hr).1 ?_ hp
    intro key hm
    rw [he] at hm
    exact (Entries.mem_keys_splitKeys_snd hm).2
  · next ht =>
    obtain ⟨hr, he⟩ := hm
    exact readAs_extension ha hr ht he hk hp

/-- The order of the kept entries does not count. -/
theorem withKept_beq {type : String} {kept : Object} (hn : (Node.mapping es).Below d)
    (h : ReadAs type es s) (hp : kept.Perm s.kept) : (s.withKept kept == s) = true := by
  obtain ⟨-, hf, hm⟩ := h
  have hc := hn.of_sublist (Entries.sublist_splitKeys_fst _ StateFields.keys)
  have ho := hn.of_sublist (Entries.sublist_splitKeys_snd _ StateFields.keys)
  have hfb := Codec.IgnoresOrderBelow.beq_self hc hf
  split at hm
  · next t _ =>
    obtain ⟨hr, he⟩ := hm
    have hs := ho.of_sublist (Entries.sublist_splitKeys_fst _ t.ownedKeys)
    have hkb := (StateKind.read_entries hs hr).2
    have ht := StateKind.type?_of_read hr
    have hx : (Node.mapping s.extra.entries).Below d := by
      rw [he]
      exact ho.of_sublist (Entries.sublist_splitKeys_snd _ _)
    rw [kept_of_type? ht] at hp
    rw [withKept_of_type? ht]
    exact Bool.and_eq_true_iff.2 ⟨hfb, Bool.and_eq_true_iff.2 ⟨hkb, beq_of_perm hx hp⟩⟩
  · obtain ⟨hr, he⟩ := hm
    rw [kept_of_extension hr] at hp
    rw [withKept_of_extension hr]
    have hkb : (StateKind.extension type ⟨kept⟩ == s.kind) = true := by
      rw [hr]
      exact Bool.and_eq_true_iff.2 ⟨beq_self_eq_true type, beq_of_perm ho hp⟩
    have hxb : (s.extra == s.extra) = true := by
      rw [he]
      rfl
    exact Bool.and_eq_true_iff.2 ⟨hfb, Bool.and_eq_true_iff.2 ⟨hkb, hxb⟩⟩

/-- **A state that is read from a tree is read back as an equal one.** -/
theorem recovers {n : Node} (hn : n.Below d) (hr : codec.read n = .ok s) :
    ∃ s', codec.ReadsBack s s' ∧ (s' == s) = true := by
  obtain ⟨es, hes, -⟩ := except_bind_eq_ok.1 (Codec.ofDefinition_read_eq_ok.1 hr)
  obtain rfl := Node.toObject_eq_ok.1 hes
  obtain ⟨type, -, hr⟩ := ofNode_eq_ok.1 (Codec.ofDefinition_read_eq_ok.1 hr)
  have hb := hn.swapErase "type"
  have ht := Entries.not_mem_keys_swapErase hn.nodup_keys "type"
  obtain ⟨kept, hp, hs⟩ := exists_readsBack hb ht hr
  exact ⟨s.withKept kept, readsBack_of_readAs (apart_of_readAs hb ht hr) hs, withKept_beq hb hr hp⟩

end State

end WorkflowDsl.Legacy
