import WorkflowDsl.Proofs.Reader.PartSurvival

/-!
# Tasks survive

A task survives when the external resources in it are revised, and so do the tasks inside
(`Task.survivesBelow`), by induction on the depth of the tree. A kind survives as a record of the
entries that belong to it (`TaskKind.yields`), since below each of its keys stand the pointers of
that field alone.

The other entries of a task are free-form. The only keys of these that the search for resources
knows are those under which other kinds have tasks (`Task.mem_misreadKeys_of_below`).
-/

namespace WorkflowDsl

open Pointer (below)
open ResourcePosition

variable {R : Revision} {n : Node} {es es' : Object} {d : Nat}

/-! ## Common fields -/

theorem InputModel.survives {m : InputModel} (hr : codec.read n = .ok m) :
    codec.Survives R.Revises (maskedBy R.masking.schema) (modelSchema n) n m :=
  Codec.model_survives (.computed rfl) hr

theorem OutputModel.survives {m : OutputModel} (hr : codec.read n = .ok m) :
    codec.Survives R.Revises (maskedBy R.masking.schema) (modelSchema n) n m :=
  Codec.model_survives (.computed rfl) hr

theorem ExportModel.survives {m : ExportModel} (hr : codec.read n = .ok m) :
    codec.Survives R.Revises (maskedBy R.masking.schema) (modelSchema n) n m :=
  Codec.model_survives (.computed rfl) hr

/-- A data model that may be missing survives. -/
theorem Field.survives_model {α ρ : Type} {c : Codec α} {mask : α → α} {key : String}
    {get : ρ → Option α} {ps : List Pointer}
    (hps : below key ps = ((es.get? key).map modelSchema).getD [])
    (h : ∀ {n a}, c.read n = .ok a → c.Survives R.Revises mask (modelSchema n) n a) :
    (Field.optional key c get).Survives R.Revises (Option.map mask) ps es :=
  survives_optional R.descends fun n a hn hr => by
    rw [hps, hn]
    exact h hr

/-- The common fields survive but for their schemas. -/
theorem TaskFields.yields (hes : R.Revises.Entrywise (taskPointers R.all (.mapping es)) es es')
    {f : TaskFields} (hr : codec.read (.mapping es) = .ok f) :
    Yields (maskedBy R.masking.schema) (codec.read (.mapping es')) f := by
  have hE := R.descends
  have hb {key : String} (h : key ∉ taskKeys) :
      below key (taskPointers R.all (.mapping es)) = [] := below_taskPointers_of_not_mem h
  exact Codec.record_yields hr (.computed rfl)
    (id, Option.map (InputModel.maskedBy R.masking.schema),
      Option.map (OutputModel.maskedBy R.masking.schema),
      Option.map (ExportModel.maskedBy R.masking.schema), id, id, id, ()) hes
    ⟨Field.survives_of_below hE (hb (by decide)),
      Field.survives_model (below_taskPointers_of_model (by decide)) InputModel.survives,
      Field.survives_model (below_taskPointers_of_model (by decide)) OutputModel.survives,
      Field.survives_model (below_taskPointers_of_model (by decide)) ExportModel.survives,
      Field.survives_of_below hE (hb (by decide)), Field.survives_of_below hE (hb (by decide)),
      Field.survives_of_below hE (hb (by decide)), trivial⟩

/-! ## Kinds -/

namespace TaskKind

section

variable {α β : Type} {name : String} {make : β} {fields : Fields α α β} {type : TaskType} {x : α}

/-- A kind that is a record survives as the record does in all entries of the task. -/
theorem yields_of_record {mask : α → α} {mask' : TaskKind Task → TaskKind Task}
    {kind : α → TaskKind Task}
    (hr : (Codec.record name make fields).decode (.mapping (Task.split es type).1) = .ok x)
    (h : fields.Lawful make) (hf : fields.keys = type.ownedKeys)
    (hy : (Codec.record name make fields).read (.mapping es) = .ok x →
      Yields mask ((Codec.record name make fields).read (.mapping es')) x)
    (hm : ∀ {y}, mask y = mask x → mask' (kind y) = mask' (kind x)) :
    Yields mask' (((Codec.record name make fields).decode
      (.mapping (Task.split es' type).1)).map kind) (kind x) := by
  have hd {fs : Object} {y : α} :
      (Codec.record name make fields).decode (.mapping (Task.split fs type).1) = .ok y ↔
        (Codec.record name make fields).read (.mapping fs) = .ok y := by
    refine Codec.decode_eq_ok.trans (Codec.record_read_congr h fun key hk => ?_)
    rw [hf] at hk
    exact Task.get?_split_fst fs hk
  exact ((hy (hd.1 hr)).congr hd).map hm

end

/-- The entries of a kind none of whose keys is searched stay. -/
theorem split_eq_of_unsearched
    (hes : R.Revises.Entrywise (taskPointers R.all (.mapping es)) es es') {type : TaskType}
    (ht : ∀ key ∈ type.ownedKeys, key ∉ taskKeys) :
    (Task.split es type).1 = (Task.split es' type).1 := by
  refine ((hes.agree.splitKeys_snd _).splitKeys_fst _).eq fun key hk h => ?_
  obtain ⟨e, he, rfl⟩ := List.mem_map.1 hk
  exact h (below_taskPointers_of_not_mem (ht _ (Entries.mem_splitKeys_fst.1 he).2))

/-- A part of a task that holds a list of tasks survives when the list does. -/
theorem part_survives {α β : Type} {name : String} {make : β} {fields : Fields α α β} {x : α}
    (hr : (Codec.record name make fields).read n = .ok x) (hl : fields.Lawful make)
    (ms : fields.Masks) {key key' : String} (h : [key, key'] ∈ taskLists)
    (hs : es.get? key = some n)
    (hf : ∀ fs, n = .mapping fs →
      fields.Survive R.Revises (below key (taskPointers R.all (.mapping es))) fs ms) :
    (Codec.record name make fields).Survives R.Revises (Codec.recordMask make fields ms)
      (below key (taskPointers R.all (.mapping es))) n x := by
  have hi : ∀ keys ∈ taskLists, ∀ k ∈ keys, Pointer.index? k = none := by decide
  refine Codec.record_survives R.descends hr hl ms (deep_below_taskPointers [key'] h)
    (fun hn => ?_) hf
  rw [below_taskPointers_of_part hs h]
  have hc : n.child? key' = none := by
    cases n with
    | mapping fs => exact absurd rfl (hn fs)
    | sequence ns =>
      show (Pointer.index? key').bind _ = none
      rw [hi _ h key' (List.mem_cons_of_mem _ List.mem_cons_self)]
      rfl
    | _ => rfl
  rw [hc]
  rfl

/-- Beside its list of tasks, nothing in a part of a task is searched. -/
theorem below_part_of_ne {key key' k : String} {all : Bool} (hs : es.get? key = some n)
    (h : [key, key'] ∈ taskLists) (hk : key' ≠ k) :
    below k (below key (taskPointers all (.mapping es))) = [] := by
  rw [below_taskPointers_of_part hs h, Pointer.below_map_cons, if_neg hk]

section

variable (hc : Task.codec.SurvivesBelow d R.Revises R.maskTask (taskPointers R.all))
include hc

/-- A list of tasks survives when the tasks do. -/
theorem list_survives (hd : n.depth ≤ d) {m : NamedMap Task}
    (hr : (Codec.namedMap Task.codec).read n = .ok m) :
    (Codec.namedMap Task.codec).Survives R.Revises (NamedMap.map R.maskTask)
      (listPointers (taskPointers R.all) (some n)) n m :=
  Codec.namedMap_survives R.descends deep_taskPointers hc hd hr

/-- A list of tasks under a key of a task survives. -/
theorem survives_list {ρ : Type} {key : String} {get : ρ → NamedMap Task}
    (h : [key] ∈ taskLists) (hd : (Node.mapping es).depth ≤ d) :
    (Field.required key (.namedMap Task.codec) get).Survives R.Revises
      (NamedMap.map R.maskTask) (taskPointers R.all (.mapping es)) es := by
  intro n m hn hr
  have hn : es.get? key = some n := hn
  have hb : below key (taskPointers R.all (.mapping es)) = _ := below_taskPointers_of_key h
  rw [hn] at hb
  show (Codec.namedMap Task.codec).Survives R.Revises _ (below key _) n m
  rw [hb]
  exact list_survives hc (Nat.le_trans (Nat.le_of_lt (Node.depth_lt_of_mem_mapping
    (Entries.mem_of_get? hn))) hd) hr

/-- A list of tasks under a key of a part of a task survives. -/
theorem survives_list_of_part {ρ : Type} {key key' : String} {get : ρ → NamedMap Task}
    {absent : Option (NamedMap Task)} {skip : NamedMap Task → Bool} {fs : Object}
    (h : [key, key'] ∈ taskLists) (hs : es.get? key = some (.mapping fs))
    (hd : (Node.mapping es).depth ≤ d) :
    (⟨key', .namedMap Task.codec, absent, skip, get⟩ : Field ρ (NamedMap Task)).Survives R.Revises
      (NamedMap.map R.maskTask) (below key (taskPointers R.all (.mapping es))) fs := by
  intro n m hn hr
  have hn : (Node.mapping fs).child? key' = some n := hn
  have hb : below key' (below key (taskPointers R.all (.mapping es))) = _ :=
    below_taskPointers_of_keys hs h
  rw [hn] at hb
  show (Codec.namedMap Task.codec).Survives R.Revises _ (below key' _) n m
  rw [hb]
  have hd := Nat.le_trans (Nat.le_of_lt (Node.depth_lt_of_mem_mapping (Entries.mem_of_get? hs))) hd
  exact list_survives hc (Nat.le_trans (Nat.le_of_lt (Node.depth_lt_of_child? hn)) hd) hr

/-! ### Parts of kinds -/

section

variable (hd : (Node.mapping es).depth ≤ d)
include hd

theorem branching_survives (hs : es.get? "fork" = some n) {b : Branching Task}
    (hr : (Branching.codec Task.codec).read n = .ok b) :
    (Branching.codec Task.codec).Survives R.Revises
      (fun b => ⟨b.branches.map R.maskTask, b.compete⟩)
      (below "fork" (taskPointers R.all (.mapping es))) n b := by
  have h : ["fork", "branches"] ∈ taskLists := by decide
  refine part_survives hr (.computed rfl)
    (NamedMap.map R.maskTask, id, ()) h hs fun fs hn => ?_
  subst hn
  exact ⟨survives_list_of_part hc h hs hd,
    Field.survives_of_below R.descends (below_part_of_ne hs h (by decide)), trivial⟩

theorem subscription_survives (hs : es.get? "foreach" = some n) {s : Subscription Task}
    (hr : (Subscription.codec Task.codec).read n = .ok s) :
    (Subscription.codec Task.codec).Survives R.Revises
      (fun s => ⟨s.item, s.index, s.tasks.map R.maskTask, s.output, s.export_⟩)
      (below "foreach" (taskPointers R.all (.mapping es))) n s := by
  have h : ["foreach", "do"] ∈ taskLists := by decide
  refine part_survives hr (.computed rfl)
    (id, id, NamedMap.map R.maskTask, id, id, ()) h hs fun fs hn => ?_
  subst hn
  have hE := R.descends
  have hb {k : String} (hk : "do" ≠ k) :
      below k (below "foreach" (taskPointers R.all (.mapping es))) = [] := below_part_of_ne hs h hk
  exact ⟨Field.survives_of_below hE (hb (by decide)), Field.survives_of_below hE (hb (by decide)),
    survives_list_of_part hc h hs hd, Field.survives_of_below hE (hb (by decide)),
    Field.survives_of_below hE (hb (by decide)), trivial⟩

theorem catcher_survives (hs : es.get? "catch" = some n) {c : Catcher Task}
    (hr : (Catcher.codec Task.codec).read n = .ok c) :
    (Catcher.codec Task.codec).Survives R.Revises
      (fun c =>
        ⟨c.filter, c.variable_, c.condition, c.exception, c.retry, c.tasks.map R.maskTask⟩)
      (below "catch" (taskPointers R.all (.mapping es))) n c := by
  have h : ["catch", "do"] ∈ taskLists := by decide
  refine part_survives hr (.computed rfl)
    (id, id, id, id, id, NamedMap.map R.maskTask, ()) h hs fun fs hn => ?_
  subst hn
  have hE := R.descends
  have hb {k : String} (hk : "do" ≠ k) :
      below k (below "catch" (taskPointers R.all (.mapping es))) = [] := below_part_of_ne hs h hk
  exact ⟨Field.survives_of_below hE (hb (by decide)), Field.survives_of_below hE (hb (by decide)),
    Field.survives_of_below hE (hb (by decide)), Field.survives_of_below hE (hb (by decide)),
    Field.survives_of_below hE (hb (by decide)), survives_list_of_part hc h hs hd, trivial⟩

/-! ### Kinds of tasks -/

/-- **A kind survives but for what is hidden of it and of the tasks inside.** -/
theorem yields (hes : R.Revises.Entrywise (taskPointers R.all (.mapping es)) es es')
    {type : TaskType} {k : TaskKind Task}
    (hr : ofObject Task.codec type (Task.split es type).1 = .ok k) :
    Yields (fun k => (k.map R.maskTask).maskedBy R.masking.entry R.all)
      (ofObject Task.codec type (Task.split es' type).1) k := by
  have hE := R.descends
  have hb {key : String} (h : key ∉ taskKeys) :
      below key (taskPointers R.all (.mapping es)) = [] := below_taskPointers_of_not_mem h
  cases type with
  | call =>
    obtain ⟨c, hk, rfl⟩ := except_map_eq_ok.1 hr
    exact yields_of_record hk (.computed rfl) rfl (Call.yields hes)
      fun h => congrArg call h
  | do_ =>
    obtain ⟨m, hk, rfl⟩ := except_map_eq_ok.1 hr
    refine yields_of_record hk single_lawful rfl (fun hr =>
      Codec.record_yields hr single_lawful (NamedMap.map R.maskTask, ()) hes
        ⟨survives_list hc (by decide) hd, trivial⟩) fun h => congrArg do_ h
  | for_ =>
    obtain ⟨t, hk, rfl⟩ := except_map_eq_ok.1 hr
    exact yields_of_record hk (.computed rfl) rfl (fun hr =>
      Codec.record_yields hr (.computed rfl)
        (id, id, NamedMap.map R.maskTask, ()) hes
        ⟨Field.survives_of_below hE (hb (by decide)), Field.survives_of_below hE (hb (by decide)),
          survives_list hc (by decide) hd, trivial⟩) fun h => congrArg for_ h
  | fork =>
    obtain ⟨b, hk, rfl⟩ := except_map_eq_ok.1 hr
    exact yields_of_record hk single_lawful rfl (fun hr =>
      Codec.record_yields hr single_lawful
        (fun b => ⟨b.branches.map R.maskTask, b.compete⟩, ()) hes
        ⟨fun _ _ hs hr => branching_survives hc hd hs hr, trivial⟩) fun h => congrArg fork h
  | listen =>
    obtain ⟨t, hk, rfl⟩ := except_map_eq_ok.1 hr
    exact yields_of_record hk (.computed rfl) rfl (fun hr =>
      Codec.record_yields hr (.computed rfl)
        (id, Option.map fun s =>
          ⟨s.item, s.index, s.tasks.map R.maskTask, s.output, s.export_⟩, ()) hes
        ⟨Field.survives_of_below hE (hb (by decide)),
          Field.survives_optional hE fun _ _ hs hr => subscription_survives hc hd hs hr, trivial⟩)
        fun h => congrArg listen h
  | run =>
    obtain ⟨r, hk, rfl⟩ := except_map_eq_ok.1 hr
    refine yields_of_record hk single_lawful rfl (fun hr =>
      Codec.record_yields hr single_lawful (fun r => if R.all then r.masked else r, ()) hes
        ⟨fun n r _ hr => ?_, trivial⟩) fun h => congrArg run h
    show Run.codec.Survives R.Revises _ (below "run" _) n r
    rcases below_taskPointers_run R.all es with hp | ⟨hR, hp⟩ <;> rw [hp]
    · exact Codec.survives_nil hE hr
    · simp only [hR, if_true]
      exact Run.survives hR hr
  | try_ =>
    obtain ⟨t, hk, rfl⟩ := except_map_eq_ok.1 hr
    exact yields_of_record hk (.computed rfl) rfl (fun hr =>
      Codec.record_yields hr (.computed rfl)
        (NamedMap.map R.maskTask, fun c =>
          ⟨c.filter, c.variable_, c.condition, c.exception, c.retry, c.tasks.map R.maskTask⟩, ())
        hes
        ⟨survives_list hc (by decide) hd, fun _ _ hs hr => catcher_survives hc hd hs hr, trivial⟩)
      fun h => congrArg try_ h
  | _ =>
    rw [← split_eq_of_unsearched hes (by decide)]
    exact yields_of_ok hr

end

end

end TaskKind

/-! ## Tasks -/

namespace Task

/-- **The only free-form entries that are searched have a key under which other tasks have
tasks.** -/
theorem mem_misreadKeys_of_below {all : Bool} {type? : Option TaskType}
    (hd : discriminate es = .ok type?) {key : String} (hk : key ∈ Entries.keys es)
    (hf : key ∉ TaskFields.keys) (ho : ∀ type ∈ type?, key ∉ type.ownedKeys)
    (hb : below key (taskPointers all (.mapping es)) ≠ []) : key ∈ misreadKeys := by
  have hm : key ∈ taskKeys := by
    by_contra h
    exact hb (below_taskPointers_of_not_mem h)
  -- A key that selects a type belongs to the type of the task.
  have hs (t : TaskType) (ht : es.hasKey t.key = true) :
      ∃ type ∈ type?, ∀ key ∈ t.ownedKeys, key ∈ type.ownedKeys := by
    cases type? with
    | none => cases (discriminate_eq_none.1 hd t).symm.trans ht
    | some type =>
      refine ⟨type, rfl, ?_⟩
      rcases (discriminate_eq_some.1 hd).2 t ht with rfl | ⟨rfl, rfl⟩
      · exact fun _ => id
      · decide
  have hn (t : TaskType) (h : key = t.key) : False := by
    obtain ⟨type, ht, hsub⟩ := hs t (Entries.hasKey_iff.2 (h ▸ hk))
    have hown : t.key ∈ t.ownedKeys := by cases t <;> decide
    exact ho type ht (hsub key (h ▸ hown))
  -- The arguments of a call are searched only if the task is one.
  have hw : key ≠ "with" := by
    rintro rfl
    rcases below_taskPointers_with all es with h | ⟨-, _, _, hc, -⟩
    · exact hb h
    · have hc : es.hasKey TaskType.call.key = true := Entries.hasKey_iff.2
        (Entries.mem_keys_of_mem (Entries.mem_of_get? hc))
      obtain ⟨type, ht, hsub⟩ := hs .call hc
      exact ho type ht (hsub _ (by decide))
  simp only [taskKeys, List.mem_cons, List.not_mem_nil, or_false] at hm
  rcases hm with rfl | rfl | rfl | rfl | rfl | rfl | rfl | rfl | rfl | rfl
  · exact absurd (by decide) hf
  · exact absurd (by decide) hf
  · exact absurd (by decide) hf
  · exact absurd rfl hw
  · exact (hn .run rfl).elim
  · exact (hn .do_ rfl).elim
  · exact (hn .try_ rfl).elim
  · exact (hn .fork rfl).elim
  · decide
  · decide

/-- Such an entry is searched whatever the kind of the task. -/
theorem below_taskPointers_of_misread {all : Bool} {key : String} {v : Node}
    (hk : key ∈ misreadKeys) (hv : es.get? key = some v) :
    below key (taskPointers all (.mapping es)) = searchedPointers all key v := by
  simp only [misreadKeys, List.mem_cons, List.not_mem_nil, or_false] at hk
  rcases hk with rfl | rfl <;> exact below_taskPointers_of_part hv (by decide)

/-- A task that is read from parts survives when the parts do. -/
theorem yields_of_parts {ε ε₁ ε₂ : Type} {x : Except ε Task} {f : Except ε₁ TaskFields}
    {k : Except ε₂ (TaskKind Task)} {e : OrderedMap Node} {t : Task}
    (h : ∀ {u : Task}, x = .ok u ↔ f = .ok u.fields ∧ k = .ok u.kind ∧ u.extra = e)
    (hf : Yields (TaskFields.maskedBy R.masking.schema) f t.fields)
    (hk : Yields (fun k => (k.map R.maskTask).maskedBy R.masking.entry R.all) k t.kind)
    (he : e.maskBy misreadKeys R.masking.entry = t.extra.maskBy misreadKeys R.masking.entry) :
    Yields R.maskTask x t := by
  obtain ⟨f', hf', hfm⟩ := hf
  obtain ⟨k', hk', hkm⟩ := hk
  refine ⟨mk f' k' e, h.2 ⟨hf', hk', rfl⟩, ?_⟩
  obtain ⟨_, _, _⟩ := t
  rw [Revision.maskTask, maskedBy_mk, maskedBy_mk, mk.injEq]
  exact ⟨hfm, hkm, he⟩

/-- What the masking leaves of a free-form entry that is searched stays the same. -/
theorem entry_eq (hes : R.Revises.Entrywise (taskPointers R.all (.mapping es)) es es')
    {key : String} {v v' : Node} (hk : key ∈ misreadKeys) (hv : es.get? key = some v)
    (hv' : es'.get? key = some v') : R.masking.entry key v' = R.masking.entry key v := by
  obtain ⟨w, hw, he⟩ := hes.values hv
  obtain rfl := Option.some.inj (hw.symm.trans hv')
  rw [below_taskPointers_of_misread hk hv] at he
  exact R.entry he

/-- The common fields survive among their own entries as they do in all entries of the task. -/
theorem common_yields (hes : R.Revises.Entrywise (taskPointers R.all (.mapping es)) es es')
    {f : TaskFields}
    (h : TaskFields.codec.read (.mapping (Entries.splitKeys es TaskFields.keys).1) = .ok f) :
    Yields (TaskFields.maskedBy R.masking.schema)
      (TaskFields.codec.read (.mapping (Entries.splitKeys es' TaskFields.keys).1)) f := by
  have hs {fs : Object} {v : TaskFields} :
      TaskFields.codec.read (.mapping (Entries.splitKeys fs TaskFields.keys).1) = .ok v ↔
        TaskFields.codec.read (.mapping fs) = .ok v :=
    Codec.record_read_congr (.computed rfl) fun key hk => Entries.get?_splitKeys_fst _ hk
  exact (TaskFields.yields hes (hs.1 h)).congr hs

/-- The free-form entries of a task of a type stay as they are but for what is hidden. -/
theorem maskBy_split_snd (hn : (Entries.keys es).Nodup)
    (hes : R.Revises.Entrywise (taskPointers R.all (.mapping es)) es es') {type : TaskType}
    (ht : discriminate es = .ok (some type)) :
    OrderedMap.maskBy misreadKeys R.masking.entry ⟨(split es' type).2⟩ =
      OrderedMap.maskBy misreadKeys R.masking.entry ⟨(split es type).2⟩ := by
  have hs := (Entries.sublist_splitKeys_snd (Entries.splitKeys es TaskFields.keys).2
    type.ownedKeys).trans (Entries.sublist_splitKeys_snd es TaskFields.keys)
  refine OrderedMap.maskBy_eq ((hes.agree.splitKeys_snd _).splitKeys_snd _)
    ((hs.map Prod.fst).nodup hn) fun {key v v'} hb hv hv' => ?_
  obtain ⟨hk, ho⟩ := Entries.mem_keys_splitKeys_snd
    (Entries.mem_keys_of_mem (Entries.mem_of_get? hv))
  obtain ⟨hk, hf⟩ := Entries.mem_keys_splitKeys_snd hk
  have hm : key ∈ misreadKeys := by
    refine mem_misreadKeys_of_below ht hk hf (fun t h => ?_) hb
    rwa [← Option.some.inj h]
  have hg (fs : Object) : Entries.get? (split fs type).2 key = fs.get? key :=
    (Entries.get?_splitKeys_snd _ ho).trans (Entries.get?_splitKeys_snd _ hf)
  exact ⟨hm, entry_eq hes hm ((hg es).symm.trans hv) ((hg es').symm.trans hv')⟩

/-- A kind that the language does not define stays as it is but for what is hidden. -/
theorem extensionKind_yields (hes : R.Revises.Entrywise (taskPointers R.all (.mapping es)) es es')
    (ht : discriminate es = .ok none) {k : TaskKind Task}
    (hk : extensionKind (Entries.splitKeys es TaskFields.keys).2 = .ok k) :
    Yields (fun k => (k.map R.maskTask).maskedBy R.masking.entry R.all)
      (extensionKind (Entries.splitKeys es' TaskFields.keys).2) k := by
  obtain ⟨key, definition, hes₁, rfl⟩ := extensionKind_eq_ok.1 hk
  have ha := hes.agree.splitKeys_snd TaskFields.keys
  rw [hes₁] at ha
  obtain ⟨⟨key', definition'⟩, rest, ⟨hkey, hp⟩, hnil, hes₂⟩ := List.forall₂_cons_left_iff.1 ha
  obtain rfl := List.forall₂_nil_left_iff.1 hnil
  obtain rfl : key = key' := hkey
  have hkes : key ∈ Entries.keys (Entries.splitKeys es TaskFields.keys).2 := by
    rw [hes₁]
    exact List.mem_cons_self
  obtain ⟨hkes, hf⟩ := Entries.mem_keys_splitKeys_snd hkes
  have hv : Entries.get? es key = some definition := by
    rw [← Entries.get?_splitKeys_snd es hf, hes₁, Entries.get?_cons, if_pos rfl]
  have hv' : Entries.get? es' key = some definition' := by
    rw [← Entries.get?_splitKeys_snd es' hf, hes₂, Entries.get?_cons, if_pos rfl]
  rw [hes₂]
  refine ⟨_, rfl, congrArg (TaskKind.extension key) ?_⟩
  split
  · next hm => exact entry_eq hes hm hv hv'
  · next hm =>
    exact (hp.resolve_left fun hb =>
      hm (mem_misreadKeys_of_below ht hkes hf (fun _ h => nomatch h) hb)).symm

variable (hc : codec.SurvivesBelow d R.Revises R.maskTask (taskPointers R.all))
include hc

theorem yields (hd : (Node.mapping es).depth ≤ d) (hn : (Entries.keys es).Nodup)
    (hes : R.Revises.Entrywise (taskPointers R.all (.mapping es)) es es') {t : Task}
    (hr : codec.read (.mapping es) = .ok t) :
    Yields R.maskTask (codec.read (.mapping es')) t := by
  have hr := read_mapping_eq_ok.1 hr
  rcases discriminate_of_ofNodeBy hr with ⟨type, ht⟩ | ht
  · have ht' := (discriminate_congr hes.agree.keys_eq).symm.trans ht
    obtain ⟨hf, hk, he⟩ := (ofNodeBy_typed ht).1 hr
    refine yields_of_parts (read_mapping_eq_ok.trans (ofNodeBy_typed ht')) (common_yields hes hf)
      (TaskKind.yields hc hd hes hk) ?_
    rw [he]
    exact maskBy_split_snd hn hes ht
  · have ht' := (discriminate_congr hes.agree.keys_eq).symm.trans ht
    obtain ⟨hf, hk, he⟩ := (ofNodeBy_untyped ht).1 hr
    exact yields_of_parts (read_mapping_eq_ok.trans (ofNodeBy_untyped ht')) (common_yields hes hf)
      (extensionKind_yields hes ht hk) (congrArg _ he.symm)

omit hc in
/-- **Tasks survive at any depth.** -/
theorem survivesBelow (R : Revision) (d : Nat) :
    codec.SurvivesBelow d R.Revises R.maskTask (taskPointers R.all) := by
  induction d with
  | zero => exact fun _ _ hd => absurd hd (Nat.not_lt_zero _)
  | succ d ih =>
    intro n t hd hr n' he
    cases n with
    | mapping es =>
      have hn := (Node.distinctKeys_mapping.1 (R.distinct he)).1
      obtain ⟨es', rfl, hes⟩ := R.descends.mapping (deep_taskPointers _) he
      exact yields ih (Nat.le_of_lt_succ hd) hn hes hr
    | _ => cases hr

end Task

end WorkflowDsl
