import WorkflowDsl.Proofs.Reader.Schemas

/-!
# Schemas of tasks that are resolved

`Task.Inlines` says that a task is read from what another one is written as, with documents inlined
at all schemas in it. It holds of the tasks inside as well (`TaskKind.Inlines`), kind by kind: each
list of tasks stands below its key with the schemas of its own tasks. So all tasks inside of
a task are read with documents inlined (`Task.Inlines.subtasks`), by induction on the task, and the
schemas of each are settled (`Task.Inlines.settlesAt_ownSchemas`); those
for each event that a task listens for stand below no pointer and stay as they are.
-/

namespace WorkflowDsl

open Pointer (below)
open ResourcePosition

variable {r : Resolver} {es es' : Object}

/-! ## Lists of tasks -/

theorem Entries.Matching.values {α β : Type} {r : α → β → Prop} {es : Entries α} {fs : Entries β}
    (h : Matching r es fs) : List.Forall₂ r es.values fs.values :=
  List.forall₂_map_left_iff.2 (List.forall₂_map_right_iff.2 (h.imp fun _ _ he => he.2))

namespace Task

/-- The task `t` is kept, and is read as `t'` when documents are inlined at its schemas. -/
def Inlines (r : Resolver) (t t' : Task) : Prop :=
  codec.Keeps t ∧ codec.ReadsInlined r (taskPointers false t.toNode) t t'

theorem inlines_of_namedMap {m m' : NamedMap Task} (hk : (Codec.namedMap codec).Keeps m)
    (h : (Codec.namedMap codec).ReadsInlined r
      (listPointers (taskPointers false) (some ((Codec.namedMap codec).write m))) m m') :
    List.Forall₂ (Inlines r) m.values m'.values := by
  obtain ⟨hn, hk⟩ := Codec.namedMap_keeps_iff.1 hk
  have hm := (Codec.namedMap_readsInlined deep_taskPointers hn h).values
  have hk : ∀ t ∈ m.values, codec.Keeps t := by
    intro t ht
    obtain ⟨e, he, rfl⟩ := List.mem_map.1 ht
    exact hk e he
  exact (List.forall₂_and_left _ _).2 ⟨hk, hm⟩

section

variable {ρ : Type} {key : String} {get : ρ → NamedMap Task} {m m' : NamedMap Task}
  {n? : Option Node} {ps : List Pointer}

theorem inlines_of_required (h : (Field.required key (.namedMap codec) get).ReadsInlined r ps m m')
    (hk : (Field.required key (.namedMap codec) get).Keeps m)
    (hps : ps = listPointers (taskPointers false) n?)
    (hw : n? = (Field.required key (.namedMap codec) get).written? m) :
    List.Forall₂ (Inlines r) m.values m'.values := by
  subst hw hps
  exact inlines_of_namedMap hk h

theorem inlines_of_omitted
    (h : (Field.omitted key (.namedMap codec) {} NamedMap.isEmpty get).ReadsInlined r ps m m')
    (hk : (Field.omitted key (.namedMap codec) {} NamedMap.isEmpty get).Keeps m)
    (hps : ps = listPointers (taskPointers false) n?)
    (hw : n? = (Field.omitted key (.namedMap codec) {} NamedMap.isEmpty get).written? m) :
    List.Forall₂ (Inlines r) m.values m'.values := by
  rcases Field.omitted_readsInlined h hk with ⟨rfl, rfl⟩ | ⟨hw', hk, h⟩
  · exact .nil
  · rw [hps, hw, hw'] at h
    exact inlines_of_namedMap hk h

end

end Task

/-! ## Kinds of tasks -/

/-- The schemas of what is done for each event. -/
def Subscription.schemas {τ : Type} (s : Subscription τ) : List PlacedSchema :=
  placed .eachOutput (s.output.bind (·.schema)) ++ placed .eachExport (s.export_.bind (·.schema))

namespace TaskKind

/-- The schemas of a kind. -/
def schemas {τ : Type} : TaskKind τ → List PlacedSchema
  | listen t => (t.subscription.map Subscription.schemas).getD []
  | _ => []

/-- The schemas of the kind `k'` are those of `k` settled, and its tasks those of `k` with documents
inlined. -/
structure Inlines (r : Resolver) (k k' : TaskKind Task) : Prop where
  schemas : List.Forall₂ r.SettlesAt k.schemas k'.schemas
  children : List.Forall₂ (Task.Inlines r) k.children k'.children

section

variable {ρ β : Type} {name : String} {make : β} {fields : Fields ρ ρ β} {x y : ρ} {type : TaskType}

/-- A kind that is a record is read field by field from the entries that belong to it. -/
theorem holds_of_owned (h : fields.Lawful make) (hf : fields.keys = type.ownedKeys)
    (hes : r.InlinesEntries (taskPointers false (.mapping es)) es es')
    (hw : ∀ key ∈ type.ownedKeys, es.get? key = Entries.get? (fields.writeEntries x) key)
    (hr : (Codec.record name make fields).decode (.mapping (Task.split es' type).1) = .ok y) :
    fields.Holds (fun f a => es.get? f.key = f.written? a) (fields.project x) ∧
      fields.Holds
        (fun f b => f.ReadsInlined r (below f.key (taskPointers false (.mapping es))) (f.get x) b)
        (fields.project y) := by
  rw [← hf] at hw
  have hr : (Codec.record name make fields).read (.mapping es') = .ok y := by
    refine (Codec.record_read_congr h fun key hk => ?_).1 (Codec.decode_eq_ok.1 hr)
    rw [hf] at hk
    exact Task.get?_split_fst es' hk
  exact Codec.record_holds_of_inlinesEntries hr h hes hw

end

/-- What is done for each event keeps its schemas, as no documents are inlined there. -/
theorem settlesAt_of_subscription {s s' : Subscription Task}
    (hk : (Subscription.codec Task.codec).Keeps s)
    (hw : es.get? "foreach" = some ((Subscription.codec Task.codec).write s))
    (h : (Subscription.codec Task.codec).ReadsInlined r
      (below "foreach" (taskPointers false (.mapping es))) s s') :
    List.Forall₂ r.SettlesAt s.schemas s'.schemas ∧
      List.Forall₂ (Task.Inlines r) s.tasks.values s'.tasks.values := by
  have hd : Pointer.Deep (below "foreach" (taskPointers false (.mapping es))) :=
    deep_below_taskPointers ["do"] (by decide)
  obtain ⟨-, -, ht, ho, he, -⟩ := Codec.record_readsInlined (.computed rfl) hd h
  obtain ⟨-, -, hkt, hko, hke, -⟩ := (Codec.record_keeps_iff (.computed rfl)).1 hk
  obtain ⟨-, -, hwt, -⟩ := Codec.holds_child?_write (c := Subscription.codec Task.codec) rfl
    (.computed rfl) s
  have hn (key : String) (hne : "do" ≠ key) :
      below key (below "foreach" (taskPointers false (.mapping es))) = [] := by
    rw [below_taskPointers_of_list (show ["foreach", "do"] ∈ taskLists by decide)]
    exact (Pointer.below_map_cons key "do" _).trans (if_neg hne)
  constructor
  · have ho : s'.output = s.output := ho.eq_of_keeps (hn "output" (by decide)) hko
    have he : s'.export_ = s.export_ := he.eq_of_keeps (hn "export" (by decide)) hke
    rw [Subscription.schemas, Subscription.schemas, ho, he]
    exact List.rel_append (settlesAt_placed_self rfl _) (settlesAt_placed_self rfl _)
  · exact Task.inlines_of_omitted ht hkt (below_taskPointers_of_keys hw (by decide)) hwt

section

variable {k' : TaskKind Task} (hes : r.InlinesEntries (taskPointers false (.mapping es)) es es')
include hes

theorem inlines_do {tasks : NamedMap Task} (hk : (doCodec Task.codec).Keeps tasks)
    (hw : ∀ key ∈ TaskType.do_.ownedKeys,
      es.get? key = Entries.get? ((do_ tasks).entries Task.codec) key)
    (hr : ofObject Task.codec .do_ (Task.split es' .do_).1 = .ok k') :
    (do_ tasks).Inlines r k' := by
  obtain ⟨y, hy, rfl⟩ := except_map_eq_ok.1 hr
  obtain ⟨⟨hw, -⟩, hi, -⟩ := holds_of_owned single_lawful rfl hes hw hy
  have hk := single_readsBack_iff.1 hk
  exact ⟨.nil, Task.inlines_of_required hi hk (below_taskPointers_of_key (by decide)) hw⟩

theorem inlines_for {t : ForTask Task} (hk : (ForTask.codec Task.codec).Keeps t)
    (hw : ∀ key ∈ TaskType.for_.ownedKeys,
      es.get? key = Entries.get? ((for_ t).entries Task.codec) key)
    (hr : ofObject Task.codec .for_ (Task.split es' .for_).1 = .ok k') :
    (for_ t).Inlines r k' := by
  obtain ⟨y, hy, rfl⟩ := except_map_eq_ok.1 hr
  obtain ⟨⟨-, -, hw, -⟩, -, -, hi, -⟩ := holds_of_owned (.computed rfl) rfl hes hw hy
  obtain ⟨-, -, hk, -⟩ := (Codec.record_keeps_iff (.computed rfl)).1 hk
  exact ⟨.nil, Task.inlines_of_required hi hk (below_taskPointers_of_key (by decide)) hw⟩

theorem inlines_fork {b : Branching Task} (hk : (forkCodec Task.codec).Keeps b)
    (hw : ∀ key ∈ TaskType.fork.ownedKeys,
      es.get? key = Entries.get? ((fork b).entries Task.codec) key)
    (hr : ofObject Task.codec .fork (Task.split es' .fork).1 = .ok k') :
    (fork b).Inlines r k' := by
  obtain ⟨y, hy, rfl⟩ := except_map_eq_ok.1 hr
  obtain ⟨⟨hw, -⟩, hi, -⟩ := holds_of_owned single_lawful rfl hes hw hy
  have hd : Pointer.Deep (below "fork" (taskPointers false (.mapping es))) :=
    deep_below_taskPointers ["branches"] (by decide)
  obtain ⟨hi, -⟩ := Codec.record_readsInlined (.computed rfl) hd hi
  obtain ⟨hk, -⟩ := (Codec.record_keeps_iff (.computed rfl)).1
    (single_readsBack_iff.1 hk)
  exact ⟨.nil, Task.inlines_of_required hi hk (below_taskPointers_of_keys hw (by decide)) rfl⟩

theorem inlines_try {t : TryTask Task} (hk : (TryTask.codec Task.codec).Keeps t)
    (hw : ∀ key ∈ TaskType.try_.ownedKeys,
      es.get? key = Entries.get? ((try_ t).entries Task.codec) key)
    (hr : ofObject Task.codec .try_ (Task.split es' .try_).1 = .ok k') :
    (try_ t).Inlines r k' := by
  obtain ⟨y, hy, rfl⟩ := except_map_eq_ok.1 hr
  obtain ⟨⟨hwt, hwc, -⟩, ht, hc, -⟩ := holds_of_owned (.computed rfl) rfl hes hw hy
  obtain ⟨hkt, hkc, -⟩ := (Codec.record_keeps_iff (.computed rfl)).1 hk
  have hd : Pointer.Deep (below "catch" (taskPointers false (.mapping es))) :=
    deep_below_taskPointers ["do"] (by decide)
  obtain ⟨-, -, -, -, -, hc, -⟩ := Codec.record_readsInlined (.computed rfl) hd hc
  obtain ⟨-, -, -, -, -, hkc, -⟩ := (Codec.record_keeps_iff (.computed rfl)).1 hkc
  obtain ⟨-, -, -, -, -, hwd, -⟩ := Codec.holds_child?_write (c := Catcher.codec Task.codec) rfl
    (.computed rfl) t.catcher
  have ht := Task.inlines_of_required ht hkt (below_taskPointers_of_key (by decide)) hwt
  have hc := Task.inlines_of_omitted hc hkc (below_taskPointers_of_keys hwc (by decide)) hwd
  exact ⟨.nil, List.rel_append ht hc⟩

theorem inlines_listen {t : ListenTask Task} (hk : (ListenTask.codec Task.codec).Keeps t)
    (hw : ∀ key ∈ TaskType.listen.ownedKeys,
      es.get? key = Entries.get? ((listen t).entries Task.codec) key)
    (hr : ofObject Task.codec .listen (Task.split es' .listen).1 = .ok k') :
    (listen t).Inlines r k' := by
  obtain ⟨y, hy, rfl⟩ := except_map_eq_ok.1 hr
  obtain ⟨⟨-, hw, -⟩, -, hi, -⟩ := holds_of_owned (.computed rfl) rfl hes hw hy
  obtain ⟨-, hk, -⟩ := (Codec.record_keeps_iff (.computed rfl)).1 hk
  have hrel := Field.rel_of_optional_readsInlined (c := Subscription.codec Task.codec)
    (fun _ => nofun) hi
  obtain ⟨listener, sub⟩ := t
  obtain ⟨listener', sub'⟩ := y
  have hrel : Option.Rel _ sub sub' := hrel
  cases hrel with
  | none => exact ⟨.nil, .nil⟩
  | some hs =>
    obtain ⟨h1, h2⟩ := settlesAt_of_subscription
      (Codec.option_keeps_some.1 (Field.optional_keeps_iff.1 hk)).2 hw hs
    exact ⟨h1, h2⟩

/-- **A kind that is kept has its schemas settled, and its tasks with documents inlined.** -/
theorem inlines_of_ofObject {kind : TaskKind Task} {type : TaskType} (ht : kind.type? = some type)
    (hk : kind.ReadsBack Task.codec kind)
    (hw : ∀ key ∈ type.ownedKeys, es.get? key = Entries.get? (kind.entries Task.codec) key)
    (hr : ofObject Task.codec type (Task.split es' type).1 = .ok k') : kind.Inlines r k' := by
  cases kind with
  | do_ tasks =>
    obtain rfl := Option.some.inj ht
    obtain ⟨_, hk, he⟩ := do_readsBack.1 hk
    cases he
    exact inlines_do hes hk hw hr
  | for_ t =>
    obtain rfl := Option.some.inj ht
    obtain ⟨_, hk, he⟩ := for_readsBack.1 hk
    cases he
    exact inlines_for hes hk hw hr
  | fork b =>
    obtain rfl := Option.some.inj ht
    obtain ⟨_, hk, he⟩ := fork_readsBack.1 hk
    cases he
    exact inlines_fork hes hk hw hr
  | listen t =>
    obtain rfl := Option.some.inj ht
    obtain ⟨_, hk, he⟩ := listen_readsBack.1 hk
    cases he
    exact inlines_listen hes hk hw hr
  | try_ t =>
    obtain rfl := Option.some.inj ht
    obtain ⟨_, hk, he⟩ := try_readsBack.1 hk
    cases he
    exact inlines_try hes hk hw hr
  | extension => cases ht
  | _ =>
    obtain rfl := Option.some.inj ht
    obtain ⟨_, _, rfl⟩ := except_map_eq_ok.1 hr
    exact ⟨.nil, .nil⟩

end

end TaskKind

/-! ## Tasks -/

/-- The schemas of the common fields. -/
def TaskFields.schemas (f : TaskFields) : List PlacedSchema :=
  placed .input (f.input.bind (·.schema)) ++ placed .output (f.output.bind (·.schema))
    ++ placed .export_ (f.export_.bind (·.schema))

/-- The schemas of the data models among the common fields are settled. -/
theorem TaskFields.settlesAt_schemas {f f' : TaskFields} (hk : codec.Keeps f)
    (hes : r.InlinesEntries (taskPointers false (.mapping es)) es es')
    (hw : ∀ key ∈ keys, es.get? key = Entries.get? (Task.commonEntries f) key)
    (hr : codec.read (.mapping (Entries.splitKeys es' keys).1) = .ok f') :
    List.Forall₂ r.SettlesAt f.schemas f'.schemas := by
  have hr : codec.read (.mapping es') = .ok f' :=
    (Codec.record_read_congr (.computed rfl) fun key hk =>
      Entries.get?_splitKeys_fst _ hk).1 hr
  obtain ⟨⟨-, hwi, hwo, hwe, -⟩, -, hi, ho, he, -⟩ :=
    Codec.record_holds_of_inlinesEntries hr (.computed rfl) hes hw
  obtain ⟨-, hki, hko, hke, -⟩ := (Codec.record_keeps_iff (.computed rfl)).1 hk
  refine List.rel_append (List.rel_append ?_ ?_) ?_
  · exact Codec.settlesAt_of_optional_model (.computed rfl) rfl
      (below_taskPointers_of_model (by decide)) hwi hki hi
  · exact Codec.settlesAt_of_optional_model (.computed rfl) rfl
      (below_taskPointers_of_model (by decide)) hwo hko ho
  · exact Codec.settlesAt_of_optional_model (.computed rfl) rfl
      (below_taskPointers_of_model (by decide)) hwe hke he

namespace Task

variable {t t' : Task}

/-- **A task that is kept has the schemas of its fields settled, and its kind with documents
inlined.** -/
theorem Inlines.parts (h : t.Inlines r t') :
    List.Forall₂ r.SettlesAt t.fields.schemas t'.fields.schemas ∧ t.kind.Inlines r t'.kind := by
  obtain ⟨fields, kind, extra⟩ := t
  obtain ⟨hk, n, hi, hr⟩ := h
  have ha : keysApart kind extra = true := keysApart_of_keeps hk
  obtain ⟨hkf, hkk, -⟩ := (readsBack_iff ha).1 hk
  have hi : r.Inlines _ (mk fields kind extra).toNode n := hi
  rw [toNode_mk] at hi
  obtain ⟨es, rfl, hes⟩ := r.leadsDown_inlineAt.edits_mapping (deep_taskPointers _) hi
  have hr := read_mapping_eq_ok.1 hr
  have hd : discriminate es = .ok kind.type? :=
    (discriminate_congr hes.agree.keys_eq.symm).trans (discriminate_assemble ha)
  have hwf : ∀ key ∈ TaskFields.keys,
      Entries.get? (assemble fields (kind.toNode codec) extra) key =
        Entries.get? (commonEntries fields) key := by
    intro key hm
    rw [← Entries.get?_splitKeys_fst _ hm, splitKeys_assemble ha]
  cases ht : kind.type? with
  | some type =>
    rw [ht] at hd
    obtain ⟨hf, hk, -⟩ := (ofNodeBy_typed hd).1 hr
    refine ⟨TaskFields.settlesAt_schemas hkf hes hwf hf,
      TaskKind.inlines_of_ofObject hes ht hkk (fun key hm => ?_) hk⟩
    rw [← get?_split_fst _ hm, split_assemble ha ht]
    rfl
  | none =>
    rw [ht] at hd
    obtain ⟨hf, hk, -⟩ := (ofNodeBy_untyped hd).1 hr
    obtain ⟨key, definition, -, hk⟩ := extensionKind_eq_ok.1 hk
    refine ⟨TaskFields.settlesAt_schemas hkf hes hwf hf, ?_⟩
    rw [hk]
    cases kind with
    | extension => exact ⟨.nil, .nil⟩
    | _ => cases ht

/-- The schemas of a task, without those of the tasks inside. -/
def ownSchemas (t : Task) : List PlacedSchema := t.fields.schemas ++ t.kind.schemas

/-- The schemas of a task and of all tasks inside of it. -/
def schemas (t : Task) : List PlacedSchema := t.subtasks.flatMap ownSchemas

theorem schemas_mk (fields : TaskFields) (kind : TaskKind Task) (extra : OrderedMap Node) :
    (mk fields kind extra).schemas =
      (fields.schemas ++ kind.schemas) ++ kind.children.flatMap schemas := by
  rw [schemas, subtasks_mk, List.flatMap_cons, List.flatMap_assoc]
  rfl

/-- With a task, the tasks inside are read with documents inlined. -/
theorem Inlines.subtasks (h : t.Inlines r t') :
    List.Forall₂ (Inlines r) t.subtasks t'.subtasks := by
  induction t using induction generalizing t' with
  | step fields kind extra ih =>
    obtain ⟨fields', kind', extra'⟩ := t'
    obtain ⟨-, hk⟩ := h.parts
    rw [subtasks_mk, subtasks_mk]
    have hc : List.Forall₂ (fun t t' => t ∈ kind.children ∧ t.Inlines r t') kind.children
        kind'.children :=
      (List.forall₂_and_left _ _).2 ⟨fun _ ht => ht, hk.children⟩
    exact .cons h (List.rel_flatMap hc fun t _ h => ih t h.1 h.2)

/-- The schemas of a task, without those of the tasks inside, are settled at their places. -/
theorem Inlines.settlesAt_ownSchemas (h : t.Inlines r t') :
    List.Forall₂ r.SettlesAt t.ownSchemas t'.ownSchemas := by
  obtain ⟨hf, hk⟩ := h.parts
  exact List.rel_append hf hk.schemas

end Task

end WorkflowDsl
