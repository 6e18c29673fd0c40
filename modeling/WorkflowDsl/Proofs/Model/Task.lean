import WorkflowDsl.Model.Task
import WorkflowDsl.Proofs.Model.TaskKind

/-!
# Tasks read back

`Task.para_mk` and `Task.induction` open recursion over tasks: a step, and the tasks directly inside
(`TaskKind.children`). Reading goes by the depth of the tree, but needs no more than that
(`Task.ofNode_eq`), so it has an equation of its own.

A task is written as the entries of its kind, of the common fields, and the others. Where these have
no key in common and none of the others selects a kind (`Task.keysApart`), each part is read back on
its own (`Task.readsBack_iff`); and whatever is read from a tree has its keys apart
(`Task.keysApart_of_ofNodeBy`). So tasks read from trees with distinct keys are kept, at any depth
(`Task.stableBelow`).
-/

namespace WorkflowDsl

/-! ## The tasks inside a task -/

namespace TaskKind

variable {τ σ : Type}

/-- Changes the tasks inside. -/
def map (f : τ → σ) : TaskKind τ → TaskKind σ
  | call c => .call c
  | do_ tasks => .do_ (tasks.map f)
  | emit e => .emit e
  | for_ t => .for_ ⟨t.loop, t.condition, t.tasks.map f⟩
  | fork b => .fork ⟨b.branches.map f, b.compete⟩
  | listen t =>
    .listen ⟨t.listener,
      t.subscription.map fun s => ⟨s.item, s.index, s.tasks.map f, s.output, s.export_⟩⟩
  | raise p => .raise p
  | run r => .run r
  | set values => .set values
  | switch cases => .switch cases
  | try_ t =>
    .try_ ⟨t.tasks.map f,
      ⟨t.catcher.filter, t.catcher.variable_, t.catcher.condition, t.catcher.exception,
        t.catcher.retry, t.catcher.tasks.map f⟩⟩
  | wait d => .wait d
  | extension key definition => .extension key definition

/-- The tasks directly inside. -/
def children : TaskKind τ → List τ
  | do_ tasks => tasks.values
  | for_ t => t.tasks.values
  | fork b => b.branches.values
  | listen t => (t.subscription.map fun s => s.tasks.values).getD []
  | try_ t => t.tasks.values ++ t.catcher.tasks.values
  | _ => []

theorem map_map {ρ : Type} (g : σ → ρ) (f : τ → σ) (k : TaskKind τ) :
    (k.map f).map g = k.map fun t => g (f t) := by
  cases k with
  | listen t => obtain ⟨_, _ | s⟩ := t <;> simp [map, NamedMap.map_map]
  | _ => simp [map, NamedMap.map_map]

theorem namedMap_write_map {f : τ → σ} {c : Codec σ} {c' : Codec τ}
    (h : ∀ t, c.write (f t) = c'.write t) (m : NamedMap τ) :
    (Codec.namedMap c).write (m.map f) = (Codec.namedMap c').write m := by
  show Node.sequence ((m.entries.map _).map _) = Node.sequence (m.entries.map _)
  rw [List.map_map]
  exact congrArg Node.sequence (List.map_congr_left fun e _ => by simp [h])

/-- A kind is written alike if the tasks inside are. -/
theorem toNode_map {f : τ → σ} {c : Codec σ} {c' : Codec τ} (h : ∀ t, c.write (f t) = c'.write t)
    (k : TaskKind τ) : (k.map f).toNode c = k.toNode c' := by
  have hr {ρ ρ' : Type} {x : ρ} {x' : ρ'} {key : String} {get : ρ → NamedMap σ}
      {get' : ρ' → NamedMap τ} (hg : get x = (get' x').map f) :
      (Field.required key (.namedMap c) get).written x =
        (Field.required key (.namedMap c') get').written x' := by
    show [(key, (Codec.namedMap c).write (get x))] = [(key, (Codec.namedMap c').write (get' x'))]
    rw [hg, namedMap_write_map h]
  have ho {ρ ρ' : Type} {x : ρ} {x' : ρ'} {key : String} {get : ρ → NamedMap σ}
      {get' : ρ' → NamedMap τ} (hg : get x = (get' x').map f) :
      (Field.omitted key (.namedMap c) {} NamedMap.isEmpty get).written x =
        (Field.omitted key (.namedMap c') {} NamedMap.isEmpty get').written x' := by
    show (if (get x).isEmpty then [] else [(key, (Codec.namedMap c).write (get x))]) =
      if (get' x').isEmpty then [] else [(key, (Codec.namedMap c').write (get' x'))]
    rw [hg, NamedMap.isEmpty_map, namedMap_write_map h]
  cases k with
  | do_ tasks => exact Codec.record_write_eq (.more (hr rfl) .done)
  | for_ t => exact Codec.record_write_eq (.more rfl (.more rfl (.more (hr rfl) .done)))
  | fork b =>
    have hb : (Branching.codec c).write ⟨b.branches.map f, b.compete⟩ =
        (Branching.codec c').write b :=
      Codec.record_write_eq (.more (hr rfl) (.more rfl .done))
    exact Codec.record_write_eq (.more (congrArg (fun n => [("fork", n)]) hb) .done)
  | listen t =>
    obtain ⟨listener, _ | s⟩ := t
    · rfl
    · have hs : (Subscription.codec c).write
            ⟨s.item, s.index, s.tasks.map f, s.output, s.export_⟩ =
          (Subscription.codec c').write s :=
        Codec.record_write_eq
          (.more rfl (.more rfl (.more (ho rfl) (.more rfl (.more rfl .done)))))
      exact Codec.record_write_eq
        (.more rfl (.more (congrArg (fun n => [("foreach", n)]) hs) .done))
  | try_ t =>
    obtain ⟨tasks, a⟩ := t
    have ha : (Catcher.codec c).write
          ⟨a.filter, a.variable_, a.condition, a.exception, a.retry, a.tasks.map f⟩ =
        (Catcher.codec c').write a :=
      Codec.record_write_eq (.more rfl (.more rfl (.more rfl (.more rfl (.more rfl
        (.more (ho rfl) .done))))))
    exact Codec.record_write_eq
      (.more (hr rfl) (.more (congrArg (fun n => [("catch", n)]) ha) .done))
  | _ => rfl

end TaskKind

namespace Task

section Para

variable {β : Type} {step : Task → TaskKind β → β}

theorem paraMap_eq (m : NamedMap Task) : paraMap step m = m.map (para step) := by
  obtain ⟨es⟩ := m
  rw [paraMap]
  refine congrArg NamedMap.mk ?_
  induction es with
  | nil => rfl
  | cons e es ih =>
    obtain ⟨name, t⟩ := e
    rw [paraEntries, paraEntry, ih]
    rfl

theorem paraKind_eq (k : TaskKind Task) : paraKind step k = k.map (para step) := by
  cases k with
  | do_ tasks => rw [paraKind, paraMap_eq, TaskKind.map]
  | for_ t =>
    obtain ⟨loop, condition, tasks⟩ := t
    rw [paraKind, paraFor, paraMap_eq, TaskKind.map]
  | fork b =>
    obtain ⟨branches, compete⟩ := b
    rw [paraKind, paraBranching, paraMap_eq, TaskKind.map]
  | listen t =>
    obtain ⟨listener, _ | ⟨item, index, tasks, output, export_⟩⟩ := t
    · rfl
    · rw [paraKind, paraListen, paraOption, paraSubscription, paraMap_eq, TaskKind.map]
      rfl
  | try_ t =>
    obtain ⟨tasks, ⟨filter, variable_, condition, exception, retry, handlers⟩⟩ := t
    rw [paraKind, paraTry, paraCatcher, paraMap_eq, paraMap_eq, TaskKind.map]
  | _ => rfl

/-- Recursion over a task takes a step from the results of the tasks inside. -/
theorem para_mk (fields : TaskFields) (kind : TaskKind Task) (extra : OrderedMap Node) :
    para step (mk fields kind extra) = step (mk fields kind extra) (kind.map (para step)) := by
  rw [para, paraKind_eq]

end Para

theorem sizeOf_lt_of_mem_values {m : NamedMap Task} {t : Task} (h : t ∈ m.values) :
    sizeOf t < sizeOf m := by
  obtain ⟨es⟩ := m
  obtain ⟨e, he, rfl⟩ := List.mem_map.1 h
  have hs : sizeOf e < sizeOf es := List.sizeOf_lt_of_mem he
  have hp : sizeOf e = 1 + sizeOf e.1 + sizeOf e.2 := by
    obtain ⟨name, t⟩ := e
    rfl
  have hm : sizeOf (NamedMap.mk es) = 1 + sizeOf es := NamedMap.mk.sizeOf_spec es
  omega

theorem sizeOf_lt_of_mem_children {k : TaskKind Task} {t : Task} (h : t ∈ k.children) :
    sizeOf t < sizeOf k := by
  cases k with
  | do_ tasks =>
    have := sizeOf_lt_of_mem_values h
    rw [TaskKind.do_.sizeOf_spec]
    omega
  | for_ f =>
    have := sizeOf_lt_of_mem_values h
    rw [TaskKind.for_.sizeOf_spec, ForTask.mk.sizeOf_spec]
    omega
  | fork b =>
    have := sizeOf_lt_of_mem_values h
    rw [TaskKind.fork.sizeOf_spec, Branching.mk.sizeOf_spec]
    omega
  | listen l =>
    obtain ⟨listener, _ | s⟩ := l
    · cases h
    · have := sizeOf_lt_of_mem_values h
      rw [TaskKind.listen.sizeOf_spec, ListenTask.mk.sizeOf_spec, Option.some.sizeOf_spec,
        Subscription.mk.sizeOf_spec]
      omega
  | try_ a =>
    obtain ⟨tasks, ⟨filter, variable_, condition, exception, retry, handlers⟩⟩ := a
    rw [TaskKind.try_.sizeOf_spec, TryTask.mk.sizeOf_spec, Catcher.mk.sizeOf_spec]
    rcases List.mem_append.1 h with h | h
    · have : sizeOf t < sizeOf tasks := sizeOf_lt_of_mem_values h
      omega
    · have : sizeOf t < sizeOf handlers := sizeOf_lt_of_mem_values h
      omega
  | _ => cases h

/-- What holds of a task whenever it holds of the tasks inside holds of all tasks. -/
theorem induction {P : Task → Prop}
    (step : ∀ fields kind extra, (∀ t ∈ kind.children, P t) → P (mk fields kind extra)) :
    ∀ t, P t
  | mk fields kind extra => step fields kind extra fun t _ => induction step t
termination_by t => sizeOf t
decreasing_by
  have := sizeOf_lt_of_mem_children ‹_›
  rw [Task.mk.sizeOf_spec]
  omega

/-! ## Writing -/

theorem toNode_mk (fields : TaskFields) (kind : TaskKind Task) (extra : OrderedMap Node) :
    (mk fields kind extra).toNode = .mapping (assemble fields (kind.toNode codec) extra) := by
  rw [toNode, para_mk]
  have hw (t : Task) : Codec.node.write t.toNode = codec.write t := rfl
  have h : (kind.map toNode).toNode .node = kind.toNode codec := TaskKind.toNode_map hw kind
  rw [← h]
  rfl

/-! ## Reading -/

variable {read read' : Node → Except DefinitionError Task} {es : Object} {d : Nat}

/-- The entries that belong to a type, and those that belong neither to it nor to the common
fields. -/
def split (es : Object) (type : TaskType) : Object × Object :=
  Entries.splitKeys (Entries.splitKeys es TaskFields.keys).2 type.ownedKeys

theorem ofNodeBy_of_ne_mapping {n : Node} (h : ∀ es, n ≠ .mapping es) :
    ofNodeBy read n =
      .error (.shapeMismatch "TaskDefinition" Node.Kind.mapping.text n.kind.text) := by
  cases n with
  | mapping es => exact absurd rfl (h es)
  | _ => rfl

/-- Reading a task reads the tasks inside from trees of less depth only. -/
theorem ofNodeBy_congr {n : Node} (h : ∀ m : Node, m.depth < n.depth → read m = read' m) :
    ofNodeBy read n = ofNodeBy read' n := by
  have hc : (codecBy read).AgreeBelow n.depth (codecBy read') := fun m hm =>
    congrArg (Except.mapError _) (h m hm)
  by_cases hm : ∃ es, n = .mapping es
  · obtain ⟨es, rfl⟩ := hm
    refine congrArg (discriminate es >>= ·) (funext fun type => ?_)
    refine congrArg (TaskFields.codec.decode _ >>= ·) (funext fun fields => ?_)
    cases type with
    | none => rfl
    | some type =>
      refine congrArg (· >>= fun kind => Except.ok (mk fields kind ⟨(split es type).2⟩)) ?_
      refine TaskKind.ofObject_congr hc type (Nat.lt_succ_of_le ?_)
      refine Node.depth_mapping_le_of_subset fun e he => ?_
      exact (Entries.mem_splitKeys_snd.1 (Entries.mem_splitKeys_fst.1 he).1).1
  · have hn : ∀ es, n ≠ .mapping es := fun es h => hm ⟨es, h⟩
    rw [ofNodeBy_of_ne_mapping hn, ofNodeBy_of_ne_mapping hn]

theorem ofNodeWithin_eq {k k' : Nat} {n : Node} (h : n.depth < k) (h' : n.depth < k') :
    ofNodeWithin k n = ofNodeWithin k' n :=
  Node.congr_of_depth_lt ofNodeBy_congr h h'

/-- **Reading a task is reading it by the same reader of the tasks inside.** -/
theorem ofNode_eq (n : Node) : ofNode n = ofNodeBy ofNode n :=
  ofNodeBy_congr fun _ hm => ofNodeWithin_eq hm (Nat.lt_succ_self _)

theorem read_mapping_eq_ok {t : Task} :
    codec.read (.mapping es) = .ok t ↔ ofNodeBy ofNode (.mapping es) = .ok t := by
  rw [← ofNode_eq]
  exact Codec.ofDefinition_read_eq_ok

/-! ## Types -/

/-- The types that a mapping may have: those of which it has the key, but no list of tasks beside a
loop. -/
def candidates (es : Object) : List TaskType :=
  TaskType.all.filter fun t => es.hasKey t.key && !(t == .do_ && es.hasKey TaskType.for_.key)

theorem mem_candidates {t : TaskType} :
    t ∈ candidates es ↔
      es.hasKey t.key = true ∧ ¬(t = .do_ ∧ es.hasKey TaskType.for_.key = true) := by
  have ht : t ∈ TaskType.all := by cases t <;> decide
  rw [candidates, List.mem_filter]
  simp [ht, imp_iff_not_or]

theorem discriminate_eq (es : Object) :
    discriminate es =
      match candidates es with
      | [] => .ok none
      | [type] => .ok (some type)
      | types => .error (.ambiguousKind "task" (types.map TaskType.key)) := by
  have hc : candidates es = if (TaskType.all.filter fun t => es.hasKey t.key).contains .for_ then
      (TaskType.all.filter fun t => es.hasKey t.key).filter (· != .do_)
    else TaskType.all.filter fun t => es.hasKey t.key := by
    have hm : (TaskType.all.filter fun t => es.hasKey t.key).contains .for_ =
        es.hasKey TaskType.for_.key := by
      rw [Bool.eq_iff_iff, List.contains_iff_mem, List.mem_filter]
      exact and_iff_right (by decide)
    rw [hm, candidates]
    split
    · next h =>
      rw [List.filter_filter]
      refine List.filter_congr fun t _ => ?_
      rw [h, Bool.and_true, Bool.and_comm]
      rfl
    · next h =>
      refine List.filter_congr fun t _ => ?_
      simp [h]
  rw [hc]
  rfl

/-- Types are told by their keys alone. -/
theorem discriminate_of_hasKey_typeKey {fs : Object}
    (h : ∀ t : TaskType, es.hasKey t.key = fs.hasKey t.key) :
    discriminate es = discriminate fs := by
  rw [discriminate_eq, discriminate_eq, candidates, candidates]
  simp only [h]

/-- Types are told by keys alone, in any order. -/
theorem discriminate_of_hasKey_eq {fs : Object} (h : ∀ key, es.hasKey key = fs.hasKey key) :
    discriminate es = discriminate fs :=
  discriminate_of_hasKey_typeKey fun t => h t.key

theorem discriminate_congr {fs : Object} (h : Entries.keys es = Entries.keys fs) :
    discriminate es = discriminate fs :=
  discriminate_of_hasKey_eq fun key => by
    rw [Bool.eq_iff_iff, Entries.hasKey_iff, Entries.hasKey_iff, h]

theorem nodup_candidates (es : Object) : (candidates es).Nodup :=
  List.Nodup.filter _ (by decide)

/-- The type of a mapping is the one of which it has the key; beside that of a loop, it may have the
key of a list of tasks. -/
theorem discriminate_eq_some {type : TaskType} :
    discriminate es = .ok (some type) ↔
      es.hasKey type.key = true ∧
        ∀ t : TaskType, es.hasKey t.key = true → t = type ∨ type = .for_ ∧ t = .do_ := by
  have hc : discriminate es = .ok (some type) ↔ candidates es = [type] := by
    rw [discriminate_eq]
    split <;> simp_all
  rw [hc]
  constructor
  · intro h
    have hm {t : TaskType} : t ∈ candidates es ↔ t = type := by rw [h, List.mem_singleton]
    refine ⟨(mem_candidates.1 (hm.2 rfl)).1, fun t ht => ?_⟩
    by_cases hd : t = .do_ ∧ es.hasKey TaskType.for_.key = true
    · have hf : TaskType.for_ ∈ candidates es := mem_candidates.2 ⟨hd.2, by simp⟩
      exact .inr ⟨(hm.1 hf).symm, hd.1⟩
    · exact .inl (hm.1 (mem_candidates.2 ⟨ht, hd⟩))
  · rintro ⟨hk, h⟩
    refine List.perm_singleton.1 ((List.perm_ext_iff_of_nodup (nodup_candidates es)
      (List.nodup_singleton type)).2 fun t => ?_)
    rw [List.mem_singleton]
    constructor
    · intro ht
      obtain ⟨ht, hd⟩ := mem_candidates.1 ht
      rcases h t ht with h | ⟨rfl, rfl⟩
      · exact h
      · exact absurd ⟨rfl, hk⟩ hd
    · rintro rfl
      refine mem_candidates.2 ⟨hk, ?_⟩
      rintro ⟨rfl, hf⟩
      rcases h _ hf with h | ⟨h, -⟩ <;> cases h

theorem discriminate_eq_none :
    discriminate es = .ok none ↔ ∀ t : TaskType, es.hasKey t.key = false := by
  have hc : discriminate es = .ok none ↔ candidates es = [] := by
    rw [discriminate_eq]
    split <;> simp_all
  rw [hc, List.eq_nil_iff_forall_not_mem]
  constructor
  · intro h t
    by_contra ht
    rw [Bool.not_eq_false] at ht
    by_cases hd : t = .do_ ∧ es.hasKey TaskType.for_.key = true
    · exact h .for_ (mem_candidates.2 ⟨hd.2, by simp⟩)
    · exact h t (mem_candidates.2 ⟨ht, hd⟩)
  · intro h t ht
    have hk := (mem_candidates.1 ht).1
    rw [h t] at hk
    cases hk

/-! ## Parts -/

/-- A task is put together from the results of its parts. -/
theorem bind_mk_eq_ok {fields : Except DefinitionError TaskFields}
    {kind : Except DefinitionError (TaskKind Task)} {extra : OrderedMap Node} {t : Task} :
    (fields >>= fun fields => kind >>= fun kind => .ok (mk fields kind extra)) = .ok t ↔
      fields = .ok t.fields ∧ kind = .ok t.kind ∧ t.extra = extra := by
  constructor
  · intro h
    obtain ⟨fields, hf, h⟩ := except_bind_eq_ok.1 h
    obtain ⟨kind, hk, h⟩ := except_bind_eq_ok.1 h
    obtain rfl := Except.ok.inj h
    exact ⟨hf, hk, rfl⟩
  · obtain ⟨fields, kind, extra⟩ := t
    rintro ⟨hf, hk, rfl⟩
    exact except_bind_eq_ok.2 ⟨fields, hf, except_bind_eq_ok.2 ⟨kind, hk, rfl⟩⟩

theorem ofNodeBy_typed {type : TaskType} (h : discriminate es = .ok (some type)) {t : Task} :
    ofNodeBy read (.mapping es) = .ok t ↔
      TaskFields.codec.read (.mapping (Entries.splitKeys es TaskFields.keys).1) = .ok t.fields ∧
        TaskKind.ofObject (codecBy read) type (split es type).1 = .ok t.kind ∧
        t.extra = ⟨(split es type).2⟩ := by
  rw [← Codec.decode_eq_ok, ← bind_mk_eq_ok]
  show (discriminate es >>= _) = _ ↔ _
  rw [h]
  exact Iff.rfl

theorem ofNodeBy_untyped (h : discriminate es = .ok none) {t : Task} :
    ofNodeBy read (.mapping es) = .ok t ↔
      TaskFields.codec.read (.mapping (Entries.splitKeys es TaskFields.keys).1) = .ok t.fields ∧
        extensionKind (Entries.splitKeys es TaskFields.keys).2 = .ok t.kind ∧ t.extra = {} := by
  rw [← Codec.decode_eq_ok, ← bind_mk_eq_ok]
  show (discriminate es >>= _) = _ ↔ _
  rw [h]
  exact Iff.rfl

theorem extensionKind_eq_ok {k : TaskKind Task} :
    extensionKind es = .ok k ↔
      ∃ key definition, es = [(key, definition)] ∧ k = .extension key definition := by
  constructor
  · intro h
    match es, h with
    | [(key, definition)], h => exact ⟨key, definition, rfl, (Except.ok.inj h).symm⟩
  · rintro ⟨key, definition, rfl, rfl⟩
    rfl

/-- A task has a type that its mapping has, or is of a kind that the language does not define. -/
theorem discriminate_of_ofNodeBy {t : Task} (h : ofNodeBy read (.mapping es) = .ok t) :
    (∃ type, discriminate es = .ok (some type)) ∨ discriminate es = .ok none := by
  obtain ⟨type, ht, -⟩ := except_bind_eq_ok.1 (show (discriminate es >>= _) = _ from h)
  cases type with
  | some type => exact .inl ⟨type, ht⟩
  | none => exact .inr ht

/-! ## Keys -/

/-- Keys that no other entry of a task has: those of the common fields, and those that select a
type. -/
def reservedKeys : List String := TaskFields.keys ++ TaskType.all.map TaskType.key

/-- Whether the other entries of a task have distinct keys, of which none is reserved or belongs to
the kind. A kind that the language does not define has a key that is not reserved, and allows no
other entries. -/
def keysApart {τ : Type} (kind : TaskKind τ) (extra : OrderedMap Node) : Bool :=
  match kind.type? with
  | some type =>
    decide extra.keys.Nodup
      && extra.keys.all fun key => !reservedKeys.contains key && !type.ownedKeys.contains key
  | none => extra.isEmpty && !reservedKeys.contains kind.name

theorem mem_reservedKeys {key : String} :
    key ∈ reservedKeys ↔ key ∈ TaskFields.keys ∨ ∃ t : TaskType, t.key = key := by
  have h : (∃ t : TaskType, t.key = key) ↔ key ∈ TaskType.all.map TaskType.key := by
    rw [List.mem_map]
    refine exists_congr fun t => (and_iff_right ?_).symm
    cases t <;> decide
  rw [reservedKeys, List.mem_append, h]

theorem keysApart_of_type {kind : TaskKind Task} {extra : OrderedMap Node} {type : TaskType}
    (h : kind.type? = some type) :
    keysApart kind extra = true ↔
      extra.keys.Nodup ∧ ∀ key ∈ extra.keys, key ∉ reservedKeys ∧ key ∉ type.ownedKeys := by
  simp [keysApart, h]

theorem keysApart_extension {key : String} {definition : Node} {extra : OrderedMap Node} :
    keysApart (.extension key definition : TaskKind Task) extra = true ↔
      extra = {} ∧ key ∉ reservedKeys := by
  have he : extra.isEmpty = true ↔ extra = {} := Field.SkipsOnly.skip_iff extra
  rw [keysApart, ← he]
  simp [TaskKind.type?, TaskKind.name]

/-- **The entries that a task is read from have their keys apart.** -/
theorem keysApart_of_ofNodeBy {t : Task} (hn : (Entries.keys es).Nodup)
    (h : ofNodeBy read (.mapping es) = .ok t) : keysApart t.kind t.extra = true := by
  rcases discriminate_of_ofNodeBy h with ⟨type, ht⟩ | ht
  · obtain ⟨-, hk, he⟩ := (ofNodeBy_typed ht).1 h
    rw [keysApart_of_type (TaskKind.type?_of_ofObject hk), he]
    refine ⟨?_, fun key hm => ?_⟩
    · have hs := (Entries.sublist_splitKeys_snd (Entries.splitKeys es TaskFields.keys).2
        type.ownedKeys).trans (Entries.sublist_splitKeys_snd es TaskFields.keys)
      exact (hs.map _).nodup hn
    · obtain ⟨hr, ho⟩ := Entries.mem_keys_splitKeys_snd hm
      obtain ⟨hes, hf⟩ := Entries.mem_keys_splitKeys_snd hr
      refine ⟨fun h => ?_, ho⟩
      rcases mem_reservedKeys.1 h with h | ⟨t, rfl⟩
      · exact hf h
      · rcases (discriminate_eq_some.1 ht).2 t (Entries.hasKey_iff.2 hes) with rfl | ⟨rfl, rfl⟩
        · exact ho (by cases t <;> decide)
        · exact ho (by decide)
  · obtain ⟨-, hk, he⟩ := (ofNodeBy_untyped ht).1 h
    obtain ⟨key, definition, hr, hk⟩ := extensionKind_eq_ok.1 hk
    rw [hk, he, keysApart_extension]
    refine ⟨rfl, fun h => ?_⟩
    have hm : key ∈ Entries.keys (Entries.splitKeys es TaskFields.keys).2 := by
      rw [hr]
      exact List.mem_cons_self
    obtain ⟨hes, hf⟩ := Entries.mem_keys_splitKeys_snd hm
    rcases mem_reservedKeys.1 h with h | ⟨t, rfl⟩
    · exact hf h
    · have := discriminate_eq_none.1 ht t
      rw [Entries.hasKey_iff.2 hes] at this
      cases this

/-! ## Reading back -/

/-- The entries of the common fields. -/
def commonEntries (fields : TaskFields) : Object :=
  (TaskFields.codec.write fields).entries?.getD []

theorem keys_commonEntries_sublist (fields : TaskFields) :
    (Entries.keys (commonEntries fields)).Sublist TaskFields.keys :=
  Fields.keys_writeEntries_sublist fields _

section ReadsBack

variable {fields : TaskFields} {kind : TaskKind Task} {extra : OrderedMap Node} {t : Task}

/-- Keys of a type are neither those of the common fields nor those that select another type. -/
theorem ownedKeys_apart {type : TaskType} {key : String} (h : key ∈ type.ownedKeys) :
    key ∉ TaskFields.keys ∧
      ∀ t : TaskType, t.key = key → t = type ∨ type = .for_ ∧ t = .do_ := by
  have hd : ∀ type ∈ TaskType.all, ∀ key ∈ type.ownedKeys, key ∉ TaskFields.keys ∧
      ∀ t ∈ TaskType.all, t.key = key → t = type ∨ type = .for_ ∧ t = .do_ := by decide
  have hall : ∀ t : TaskType, t ∈ TaskType.all := fun t => by cases t <;> decide
  obtain ⟨h1, h2⟩ := hd type (hall type) key h
  exact ⟨h1, fun t => h2 t (hall t)⟩

theorem typeKey_not_mem (t : TaskType) : t.key ∉ TaskFields.keys := by
  cases t <;> decide

/-- Where the keys are apart, a task is written as its parts one behind another. -/
theorem assemble_eq {ks : Object} (hk : ∀ key ∈ Entries.keys ks, key ∉ TaskFields.keys)
    (hn : extra.keys.Nodup)
    (he : ∀ key ∈ extra.keys, key ∉ TaskFields.keys ∧ key ∉ Entries.keys ks) :
    assemble fields (.mapping ks) extra = ks ++ commonEntries fields ++ extra.entries := by
  have hs := keys_commonEntries_sublist fields
  have hc : Entries.merge ks (commonEntries fields) = ks ++ commonEntries fields :=
    Entries.merge_of_disjoint (hs.nodup (by decide)) fun key h hm => hk key hm (hs.subset h)
  show Entries.merge (Entries.merge ks (commonEntries fields)) extra.entries = _
  rw [hc, Entries.merge_of_disjoint hn]
  intro key h
  rw [Entries.keys_append, List.mem_append, not_or]
  exact ⟨(he key h).2, fun hm => (he key h).1 (hs.subset hm)⟩

/-- Neither the common fields nor the other entries select a type beside that of the kind. -/
theorem discriminate_typed {type : TaskType} {ks : Object} (hes : TaskKind.EntriesOf type ks)
    (he : ∀ key ∈ extra.keys, key ∉ reservedKeys) :
    discriminate (ks ++ commonEntries fields ++ extra.entries) = .ok (some type) := by
  rw [discriminate_eq_some]
  simp only [Entries.hasKey_iff, Entries.keys_append, List.mem_append]
  refine ⟨.inl (.inl hes.selected), fun t hm => ?_⟩
  rcases hm with (hm | hm) | hm
  · exact (ownedKeys_apart (hes.owned _ hm)).2 t rfl
  · exact absurd ((keys_commonEntries_sublist fields).subset hm) (typeKey_not_mem t)
  · exact absurd (mem_reservedKeys.2 (.inr ⟨t, rfl⟩)) (he _ hm)

/-- Entries that belong to a type are found among all entries. -/
theorem get?_split_fst (es : Object) {type : TaskType} {key : String} (h : key ∈ type.ownedKeys) :
    Entries.get? (split es type).1 key = es.get? key := by
  rw [split, Entries.get?_splitKeys_fst _ h, Entries.get?_splitKeys_snd _ (ownedKeys_apart h).1]

/-- A kind of an unreserved key has no type. -/
theorem discriminate_extension {key : String} {definition : Node} (hr : key ∉ reservedKeys) :
    discriminate ([(key, definition)] ++ commonEntries fields ++ []) = .ok none := by
  rw [discriminate_eq_none]
  intro t
  rw [← Bool.not_eq_true, Entries.hasKey_iff, Entries.keys_append, Entries.keys_append]
  simp only [List.mem_append, not_or]
  have hf : t.key ∉ Entries.keys (commonEntries fields) := fun hm =>
    typeKey_not_mem t ((keys_commonEntries_sublist fields).subset hm)
  refine ⟨⟨fun hm => ?_, hf⟩, nofun⟩
  obtain rfl := List.mem_singleton.1 hm
  exact hr (mem_reservedKeys.2 (.inr ⟨t, rfl⟩))

/-- A task is written under distinct keys. -/
theorem nodup_keys_assemble : (Entries.keys (assemble fields (kind.toNode codec) extra)).Nodup := by
  refine Entries.nodup_keys_merge (Entries.nodup_keys_merge ?_ _) _
  cases ht : kind.type? with
  | some type => exact (TaskKind.toNode_entries ht).2.nodup
  | none =>
    cases kind with
    | extension key definition => exact List.nodup_singleton key
    | _ => cases ht

/-- A task that is kept has its keys apart. -/
theorem keysApart_of_keeps {t : Task} (h : codec.Keeps t) : keysApart t.kind t.extra = true := by
  obtain ⟨fields, kind, extra⟩ := t
  have h : codec.read (mk fields kind extra).toNode = .ok _ := h
  rw [toNode_mk] at h
  exact keysApart_of_ofNodeBy nodup_keys_assemble (read_mapping_eq_ok.1 h)

section

variable (h : keysApart kind extra = true)
include h

/-- The keys of a kind and of the other entries are not those of the common fields. -/
theorem not_mem_keys_of_keysApart :
    (∀ key ∈ Entries.keys (kind.entries codec), key ∉ TaskFields.keys) ∧
      ∀ key ∈ extra.keys, key ∉ TaskFields.keys := by
  cases ht : kind.type? with
  | some type =>
    obtain ⟨-, he⟩ := (keysApart_of_type ht).1 h
    refine ⟨fun key hm => ?_, fun key hm hf => (he key hm).1 (mem_reservedKeys.2 (.inl hf))⟩
    exact (ownedKeys_apart ((TaskKind.toNode_entries ht).2.owned key hm)).1
  | none =>
    cases kind with
    | extension key definition =>
      obtain ⟨rfl, hr⟩ := keysApart_extension.1 h
      refine ⟨fun k hm hf => ?_, nofun⟩
      obtain rfl := List.mem_singleton.1 hm
      exact hr (mem_reservedKeys.2 (.inl hf))
    | _ => cases ht

theorem assemble_of_keysApart : assemble fields (kind.toNode codec) extra =
    kind.entries codec ++ commonEntries fields ++ extra.entries := by
  obtain ⟨hk, hx⟩ := not_mem_keys_of_keysApart h
  cases ht : kind.type? with
  | some type =>
    obtain ⟨hw, hes⟩ : kind.toNode codec = .mapping (kind.entries codec) ∧
        TaskKind.EntriesOf type (kind.entries codec) := TaskKind.toNode_entries ht
    obtain ⟨hn, he⟩ := (keysApart_of_type ht).1 h
    rw [hw]
    exact assemble_eq hk hn fun key hm => ⟨hx key hm, fun ho => (he key hm).2 (hes.owned key ho)⟩
  | none =>
    cases kind with
    | extension key definition =>
      obtain ⟨rfl, -⟩ := keysApart_extension.1 h
      exact assemble_eq hk List.nodup_nil nofun
    | _ => cases ht

/-- The common entries of a task are told apart. -/
theorem splitKeys_assemble :
    Entries.splitKeys (assemble fields (kind.toNode codec) extra) TaskFields.keys =
      (commonEntries fields, kind.entries codec ++ extra.entries) := by
  obtain ⟨hk, hx⟩ := not_mem_keys_of_keysApart h
  rw [assemble_of_keysApart h]
  exact Entries.splitKeys_between hk
    (fun _ => (keys_commonEntries_sublist fields).subset (a := _)) hx

/-- The type of a task is that of its kind. -/
theorem discriminate_assemble :
    discriminate (assemble fields (kind.toNode codec) extra) = .ok kind.type? := by
  rw [assemble_of_keysApart h]
  cases ht : kind.type? with
  | some type =>
    exact discriminate_typed (TaskKind.toNode_entries ht).2 fun key hm =>
      (((keysApart_of_type ht).1 h).2 key hm).1
  | none =>
    cases kind with
    | extension key definition =>
      obtain ⟨rfl, hr⟩ := keysApart_extension.1 h
      exact discriminate_extension hr
    | _ => cases ht

/-- The entries of a kind are told from the others. -/
theorem split_assemble {type : TaskType} (ht : kind.type? = some type) :
    split (assemble fields (kind.toNode codec) extra) type =
      (kind.entries codec, extra.entries) := by
  rw [split, splitKeys_assemble h]
  exact Entries.splitKeys_append (TaskKind.toNode_entries ht).2.owned fun key hm =>
    (((keysApart_of_type ht).1 h).2 key hm).2

end

/-- **Where the keys are apart, each part of a task is read back on its own.** -/
theorem readsBack_iff (h : keysApart kind extra = true) :
    codec.ReadsBack (mk fields kind extra) t ↔
      TaskFields.codec.ReadsBack fields t.fields ∧ kind.ReadsBack codec t.kind ∧
        t.extra = extra := by
  have hd : discriminate (assemble fields (kind.toNode codec) extra) = .ok kind.type? :=
    discriminate_assemble h
  show codec.read (toNode _) = _ ↔ _
  rw [toNode_mk, read_mapping_eq_ok]
  cases ht : kind.type? with
  | some type =>
    rw [ht] at hd
    rw [ofNodeBy_typed hd, splitKeys_assemble h, split_assemble h ht,
      TaskKind.readsBack_iff_of_type ht]
    exact Iff.rfl
  | none =>
    cases kind with
    | extension key definition =>
      obtain ⟨rfl, -⟩ := keysApart_extension.1 h
      rw [ofNodeBy_untyped hd, splitKeys_assemble h, extensionKind_eq_ok]
      refine and_congr Iff.rfl (and_congr ?_ Iff.rfl)
      constructor
      · rintro ⟨_, _, h, hk⟩
        cases h
        exact hk
      · intro h
        exact ⟨key, definition, rfl, h⟩
    | _ => cases ht

end ReadsBack

/-- A task is read from a mapping alone. -/
theorem exists_mapping_of_read {n : Node} {t : Task} (h : codec.read n = .ok t) :
    ∃ es, n = .mapping es := by
  by_contra hm
  have h0 := Codec.ofDefinition_read_eq_ok.1 h
  rw [ofNode_eq, ofNodeBy_of_ne_mapping fun es h => hm ⟨es, h⟩] at h0
  cases h0

/-- **Tasks read from trees with distinct keys are kept.** -/
theorem stableBelow (d : Nat) : codec.StableBelow d := by
  induction d with
  | zero => exact .zero
  | succ d ih =>
    refine ⟨fun {n t} hn hr => ?_, fun {n t} _ _ h => ?_⟩
    swap
    · obtain ⟨fields, kind, extra⟩ := t
      have hw : codec.write (mk fields kind extra) = (mk fields kind extra).toNode := rfl
      rw [hw, toNode_mk] at h
      cases h
    obtain ⟨es, rfl⟩ := exists_mapping_of_read hr
    have h := read_mapping_eq_ok.1 hr
    obtain ⟨fields, kind, extra⟩ := t
    have hf {fs : TaskFields} (hf : TaskFields.codec.read
        (.mapping (Entries.splitKeys es TaskFields.keys).1) = .ok fs) : TaskFields.codec.Keeps fs :=
      Codec.StableBelow.keeps_of_read (hn.of_sublist (Entries.sublist_splitKeys_fst _ _)) hf
    refine (readsBack_iff (keysApart_of_ofNodeBy hn.nodup_keys h)).2 ?_
    rcases discriminate_of_ofNodeBy h with ⟨type, ht⟩ | ht
    · obtain ⟨hr, hk, -⟩ := (ofNodeBy_typed ht).1 h
      refine ⟨hf hr, TaskKind.readsBack_of_ofObject (d := d) (hn.of_sublist ?_) hk, rfl⟩
      exact (Entries.sublist_splitKeys_fst _ _).trans (Entries.sublist_splitKeys_snd _ _)
    · obtain ⟨hr, hk, -⟩ := (ofNodeBy_untyped ht).1 h
      obtain ⟨key, definition, -, hk⟩ := extensionKind_eq_ok.1 hk
      obtain rfl : kind = .extension key definition := hk
      exact ⟨hf hr, rfl, rfl⟩

end Task

end WorkflowDsl
