import WorkflowDsl.Proofs.Model.Nesting

/-!
# What documents are read from

A value that is read from a tree with distinct keys (`Codec.IsRead`) has parts that are read from
such trees as well: the fields of a record, and the values of a map. So every task of a document is
read from a tree of its own (`Workflow.isRead_of_mem_allTasks`), and the nodes that are kept as they
are written have distinct keys.
-/

namespace WorkflowDsl

namespace Codec

variable {α : Type} {c : Codec α} {a : α}

/-- The value is read from a tree with distinct keys. -/
def IsRead (c : Codec α) (a : α) : Prop := ∃ n : Node, n.distinctKeys = true ∧ c.read n = .ok a

theorem IsRead.of_option {x : Option α} (h : c.option.IsRead x) (ha : x = some a) : c.IsRead a := by
  obtain ⟨n, hn, hr⟩ := h
  subst ha
  exact ⟨n, hn, (option_read_eq_some.1 hr).2⟩

theorem IsRead.of_mem_values {m : NamedMap α} (h : (namedMap c).IsRead m) (ha : a ∈ m.values) :
    c.IsRead a := by
  obtain ⟨n, hn, hr⟩ := h
  obtain ⟨e, he, rfl⟩ := List.mem_map.1 ha
  cases n with
  | sequence items =>
    obtain ⟨es, hes, rfl⟩ := namedMap_read_sequence.1 hr
    obtain ⟨n, hm, hr⟩ := forall₂_exists_left hes (Entries.mem_ofList he)
    obtain ⟨v, rfl, hv⟩ := readNamed_eq_ok.1 hr
    have hn := Node.distinctKeys_sequence.1 hn _ hm
    exact ⟨v, (Node.distinctKeys_mapping.1 hn).2 _ List.mem_cons_self, hv⟩
  | _ => cases hr

theorem IsRead.of_mem_map {m : OrderedMap α} (h : (map c).IsRead m) (ha : a ∈ m.entries.values) :
    c.IsRead a := by
  obtain ⟨n, hn, hr⟩ := h
  obtain ⟨e, he, rfl⟩ := List.mem_map.1 ha
  cases n with
  | mapping es =>
    obtain ⟨e', hm, -, hr⟩ := forall₂_exists_left (map_read_mapping.1 hr) he
    exact ⟨e'.2, (Node.distinctKeys_mapping.1 hn).2 _ hm, hr⟩
  | _ => cases hr

/-- The fields of a record that is read are read, or absent. -/
theorem IsRead.holds {ρ β : Type} {name : String} {make : β} {fields : Fields ρ ρ β} {x : ρ}
    (hx : (record name make fields).IsRead x) (h : fields.Lawful make) :
    fields.Holds (fun f a => f.codec.IsRead a ∨ f.absent = some a) (fields.project x) := by
  obtain ⟨n, hn, hr⟩ := hx
  refine Fields.Holds.imp ?_ fields _ (record_holds_of_read h (Node.Below.of_distinct hn) hr)
  exact fun _ _ => Or.imp_left fun ⟨n, hn, hr⟩ => ⟨n, hn.distinct, hr⟩

end Codec

namespace Field

variable {ρ α : Type} {key : String} {c : Codec α} {a : α}

/-- The tasks of a list that is read, or absent and so empty, are read. -/
theorem isRead_of_omitted {m : NamedMap α}
    (h : (Codec.namedMap c).IsRead m ∨ some {} = some m) (ha : a ∈ m.values) : c.IsRead a := by
  rcases h with h | h
  · exact h.of_mem_values ha
  · obtain rfl := Option.some.inj h
    cases ha

end Field

/-! ## Tasks -/

namespace TaskKind

theorem isRead_of_ofObject {type : TaskType} {owned : Object} {k : TaskKind Task}
    (hn : (Node.mapping owned).distinctKeys = true)
    (h : ofObject Task.codec type owned = .ok k) : ∀ t ∈ k.children, Task.codec.IsRead t := by
  have hc {α : Type} {c : Codec α} {make : α → TaskKind Task}
      (h : (c.decode (.mapping owned)).map make = .ok k) : ∃ x, make x = k ∧ c.IsRead x := by
    obtain ⟨x, hx, rfl⟩ := except_map_eq_ok.1 h
    exact ⟨x, rfl, _, hn, Codec.decode_eq_ok.1 hx⟩
  cases type with
  | do_ =>
    obtain ⟨x, rfl, hx⟩ := hc h
    obtain ⟨hx | hx, -⟩ := hx.holds single_lawful
    · exact fun t ht => hx.of_mem_values ht
    · cases hx
  | for_ =>
    obtain ⟨x, rfl, hx⟩ := hc h
    obtain ⟨-, -, hx | hx, -⟩ := hx.holds (.computed rfl)
    · exact fun t ht => hx.of_mem_values ht
    · cases hx
  | fork =>
    obtain ⟨x, rfl, hx⟩ := hc h
    obtain ⟨hx | hx, -⟩ := hx.holds single_lawful
    · obtain ⟨hx | hx, -⟩ := hx.holds (.computed rfl)
      · exact fun t ht => hx.of_mem_values ht
      · cases hx
    · cases hx
  | listen =>
    obtain ⟨⟨listener, subscription⟩, rfl, hx⟩ := hc h
    obtain ⟨-, hx | hx, -⟩ := hx.holds (.computed rfl)
    · cases subscription with
      | none => exact fun t ht => absurd ht List.not_mem_nil
      | some s =>
        have hs : (Subscription.codec Task.codec).IsRead s :=
          Codec.IsRead.of_option (c := Subscription.codec Task.codec) hx rfl
        obtain ⟨-, -, hx, -⟩ := hs.holds (.computed rfl)
        exact fun t ht => Field.isRead_of_omitted hx ht
    · obtain rfl : none = subscription := Option.some.inj hx
      exact fun t ht => absurd ht List.not_mem_nil
  | try_ =>
    obtain ⟨x, rfl, hx⟩ := hc h
    obtain ⟨ht | ht, hx | hx, -⟩ := hx.holds (.computed rfl)
    · obtain ⟨-, -, -, -, -, hx, -⟩ := hx.holds (.computed rfl)
      exact List.forall_mem_append.2
        ⟨fun t h => ht.of_mem_values h, fun t h => Field.isRead_of_omitted hx h⟩
    · cases hx
    · cases ht
    · cases ht
  | _ =>
    obtain ⟨_, rfl, -⟩ := hc h
    exact fun t ht => absurd ht List.not_mem_nil

end TaskKind

/-- The entry of a kind that the language does not define. -/
def TaskKind.body {τ : Type} : TaskKind τ → Object
  | extension key definition => [(key, definition)]
  | _ => []

namespace Task

/-- The entries of a task that are kept as they are written. -/
def freeEntries (t : Task) : Object := t.kind.body ++ t.extra.entries

/-- The entries of a task that are kept are entries of the tree that it is read from. -/
theorem freeEntries_subset_of_read {es : Object} {t : Task}
    (h : codec.read (.mapping es) = .ok t) : t.freeEntries ⊆ es := by
  obtain ⟨fields, kind, extra⟩ := t
  have hr := read_mapping_eq_ok.1 h
  have hs (keys : List String) := Entries.sublist_splitKeys_snd es keys
  rcases discriminate_of_ofNodeBy hr with ⟨type, ht⟩ | ht
  · obtain ⟨-, hk, he⟩ := (ofNodeBy_typed ht).1 hr
    have hb : kind.body = [] := by
      have ht := TaskKind.type?_of_ofObject hk
      cases kind with
      | extension => cases ht
      | _ => rfl
    have he : extra = ⟨(split es type).2⟩ := he
    rw [freeEntries, he]
    show kind.body ++ _ ⊆ es
    rw [hb]
    exact ((Entries.sublist_splitKeys_snd _ _).trans (hs _)).subset
  · obtain ⟨-, hk, he⟩ := (ofNodeBy_untyped ht).1 hr
    obtain ⟨key, definition, hes, hk⟩ := extensionKind_eq_ok.1 hk
    obtain rfl : kind = .extension key definition := hk
    obtain rfl : extra = {} := he
    intro e hm
    refine (hs TaskFields.keys).subset ?_
    rw [hes]
    exact hm

/-- With a task, its parts are read. -/
theorem parts_of_isRead {fields : TaskFields} {kind : TaskKind Task} {extra : OrderedMap Node}
    (h : codec.IsRead (mk fields kind extra)) :
    keysApart kind extra = true ∧ (∀ t ∈ kind.children, codec.IsRead t) ∧
      ∀ e ∈ (mk fields kind extra).freeEntries, e.2.distinctKeys = true := by
  obtain ⟨n, hn, h⟩ := h
  obtain ⟨es, rfl⟩ := exists_mapping_of_read h
  have hr := read_mapping_eq_ok.1 h
  obtain ⟨hd, hv⟩ := Node.distinctKeys_mapping.1 hn
  refine ⟨keysApart_of_ofNodeBy hd hr, ?_, fun e he => hv e (freeEntries_subset_of_read h he)⟩
  rcases discriminate_of_ofNodeBy hr with ⟨type, ht⟩ | ht
  · obtain ⟨-, hk, -⟩ := (ofNodeBy_typed ht).1 hr
    refine TaskKind.isRead_of_ofObject ((Node.Below.of_distinct hn).of_sublist ?_).distinct hk
    exact (Entries.sublist_splitKeys_fst _ _).trans (Entries.sublist_splitKeys_snd es _)
  · obtain ⟨-, hk, -⟩ := (ofNodeBy_untyped ht).1 hr
    obtain ⟨key, definition, -, hk⟩ := extensionKind_eq_ok.1 hk
    obtain rfl : kind = .extension key definition := hk
    exact nofun

/-- With a task, all tasks inside of it are read. -/
theorem isRead_of_mem_subtasks {t u : Task} (h : codec.IsRead t) (hu : u ∈ t.subtasks) :
    codec.IsRead u := by
  induction t using induction with
  | step fields kind extra ih =>
    rw [subtasks_mk] at hu
    rcases List.mem_cons.1 hu with rfl | hu
    · exact h
    · obtain ⟨t, ht, hu⟩ := List.mem_flatMap.1 hu
      exact ih t ht ((parts_of_isRead h).2.1 t ht) hu

end Task

/-! ## Documents -/

/-- The lists of tasks of components that are read, and their functions, are read. -/
theorem Components.isRead {c : Components} (h : codec.IsRead c) :
    (∀ e ∈ c.extensions.values, ∀ tasks ∈ [e.before, e.after], ∀ t ∈ tasks.values,
        Task.codec.IsRead t) ∧
      ∀ t ∈ c.functions.entries.values, Task.codec.IsRead t := by
  obtain ⟨-, -, -, hx, hf, -⟩ := h.holds (.computed rfl)
  constructor
  · intro e he
    have he : Extension.codec.IsRead e := Field.isRead_of_omitted hx he
    obtain ⟨-, -, hb, ha, -⟩ := he.holds (.computed rfl)
    rw [List.forall_mem_cons, List.forall_mem_singleton]
    exact ⟨fun t ht => Field.isRead_of_omitted hb ht, fun t ht => Field.isRead_of_omitted ha ht⟩
  · intro t ht
    rcases hf with hf | hf
    · exact Codec.IsRead.of_mem_map hf ht
    · have hf : {} = c.functions := Option.some.inj hf
      rw [← hf] at ht
      cases ht

namespace Workflow

variable {n : Node} {w : Workflow} (hn : n.distinctKeys = true) (hr : codec.read n = .ok w)
include hn hr

theorem holds_isRead :
    (∀ c ∈ w.components, Components.codec.IsRead c) ∧
      (Codec.namedMap Task.codec).IsRead w.tasks := by
  cases n with
  | mapping es =>
    obtain ⟨⟨-, -, hc, ht, -⟩, -⟩ := (Codec.openRecord_read_mapping (.computed rfl)).1 hr
    have hc : (Field.optional "use" Components.codec Workflow.components).readEntry es =
      .ok w.components := hc
    have hv := (Node.distinctKeys_mapping.1 hn).2
    refine ⟨fun c hcw => ?_, ?_⟩
    · rcases Field.readEntry_cases hc with ⟨m, hm, hr⟩ | ha
      · exact Codec.IsRead.of_option (c := Components.codec) ⟨m, hv _ hm, hr⟩ hcw
      · have ha : none = w.components := Option.some.inj ha
        cases ha.trans hcw
    · rcases Field.readEntry_cases ht with ⟨m, hm, hr⟩ | ha
      · exact ⟨m, hv _ hm, hr⟩
      · cases ha
  | _ => cases hr

/-- **Every task of a document is read from a tree with distinct keys.** -/
theorem isRead_of_mem_allTasks {t : Task} (ht : t ∈ w.allTasks) : Task.codec.IsRead t := by
  obtain ⟨hc, hl⟩ := holds_isRead hn hr
  obtain ⟨outer, ho, ht⟩ := List.mem_flatMap.1 ht
  refine Task.isRead_of_mem_subtasks ?_ ht
  rcases List.mem_append.1 ho with ho | ho
  · obtain ⟨tasks, hl', ho⟩ := List.mem_flatMap.1 ho
    rcases List.mem_cons.1 hl' with rfl | hl'
    · exact hl.of_mem_values ho
    · obtain ⟨c, hcw, hl'⟩ := List.mem_flatMap.1 hl'
      obtain ⟨e, he, hl'⟩ := List.mem_flatMap.1 hl'
      exact (Components.isRead (hc c (by simpa using hcw))).1 e he tasks hl' outer ho
  · obtain ⟨c, hcw, ho⟩ := List.mem_flatMap.1 ho
    exact (Components.isRead (hc c (by simpa using hcw))).2 outer ho

end Workflow

end WorkflowDsl
