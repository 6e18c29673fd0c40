import WorkflowDsl.Proofs.Model.Origin
import WorkflowDsl.Proofs.Reader.Resolution
import WorkflowDsl.Proofs.Reader.TaskSurvival

/-!
# What is found in a workflow

The search for external resources goes by the document that a workflow is written as. What it finds
there is told here of the workflow itself: a `Collector` collects something of each schema that is
searched, and of each free-form entry that is, in the order of the document. The references that
resolving goes through are what `Collector.references` collects
(`Workflow.documentReferences_write`).
-/

namespace WorkflowDsl

open Pointer (below)
open ResourcePosition

variable {α : Type}

/-- What is collected of a schema that is searched, and of a free-form entry that is, by its key. -/
structure Collector (α : Type) where
  schema : Schema → List α
  entry : String → Node → List α

/-- Collects the references of external resources. -/
def Collector.references : Collector String where
  schema s := s.resource.toList.map ExternalResource.uri
  entry := searchedReferences

/-! ## Data models -/

/-- What is collected of the schema of a data model, if there are both. -/
def Collector.model {ρ : Type} (g : Collector α) (schema : ρ → Option Schema) (m? : Option ρ) :
    List α := ((m?.bind schema).map g.schema).getD []

/-- The references of a data model that is written are those of its schema. -/
theorem Codec.modelReferences_write {ρ : Type} {name key : String}
    {make : Option Schema → Option Node → ρ} {schema : ρ → Option Schema}
    {content : ρ → Option Node} (h : (modelFields schema key content).Lawful make) (m? : Option ρ) :
    ((m?.map (model name make schema key content).write).map modelReferences).getD [] =
      Collector.references.model schema m? := by
  cases m? with
  | none => rfl
  | some m =>
    show modelReferences ((model name make schema key content).write m) =
      ((schema m).map Collector.references.schema).getD []
    rw [modelReferences_eq, model_write_at? h]
    cases schema m with
    | none => rfl
    | some s =>
      show ((s.resource.map ExternalResource.codec.write).bind resourceUri?).toList =
        s.resource.toList.map ExternalResource.uri
      cases s.resource with
      | none => rfl
      | some x =>
        rw [Option.map_some, Option.bind_some, x.resourceUri?_write]
        rfl

/-- What is collected of the common fields. -/
def TaskFields.collect (g : Collector α) (f : TaskFields) : List α :=
  g.model (·.schema) f.input ++ (g.model (·.schema) f.output ++ g.model (·.schema) f.export_)

/-- The references under the keys of data models are those of the common fields. -/
theorem TaskFields.modelReferences_write {es : Object} {f : TaskFields}
    (hw : ∀ key ∈ keys, es.get? key = Entries.get? (Task.commonEntries f) key) :
    (["input", "output", "export"].flatMap fun key =>
      ((es.get? key).map modelReferences).getD []) = f.collect .references := by
  obtain ⟨-, hi, ho, he, -⟩ := Codec.holds_child?_write (c := codec) rfl (.computed rfl) f
  have hi : es.get? "input" = f.input.map InputModel.codec.write :=
    (hw _ (by decide)).trans (hi.trans (Field.optional_written? _))
  have ho : es.get? "output" = f.output.map OutputModel.codec.write :=
    (hw _ (by decide)).trans (ho.trans (Field.optional_written? _))
  have he : es.get? "export" = f.export_.map ExportModel.codec.write :=
    (hw _ (by decide)).trans (he.trans (Field.optional_written? _))
  rw [List.flatMap_cons, List.flatMap_cons, List.flatMap_singleton, hi, ho, he]
  congr 1
  · exact Codec.modelReferences_write (.computed rfl) _
  congr 1
  · exact Codec.modelReferences_write (.computed rfl) _
  · exact Codec.modelReferences_write (.computed rfl) _

/-! ## Lists of tasks -/

namespace TaskKind

/-- The lists of tasks of a kind, with where they stand. -/
def placedLists {τ : Type} : TaskKind τ → List (Pointer × NamedMap τ)
  | do_ tasks => [(["do"], tasks)]
  | for_ t => [(["do"], t.tasks)]
  | fork b => [(["fork", "branches"], b.branches)]
  | listen t => t.subscription.toList.map fun s => (["foreach", "do"], s.tasks)
  | try_ t => [(["try"], t.tasks), (["catch", "do"], t.catcher.tasks)]
  | _ => []

theorem placedLists_map {σ τ : Type} (f : σ → τ) (k : TaskKind σ) :
    (k.map f).placedLists = k.placedLists.map fun l => (l.1, l.2.map f) := by
  cases k with
  | listen t =>
    obtain ⟨_, s⟩ := t
    cases s <;> rfl
  | _ => rfl

theorem lists_eq {τ : Type} (k : TaskKind τ) : k.lists = k.placedLists.map Prod.snd := by
  cases k with
  | listen t =>
    obtain ⟨_, s⟩ := t
    cases s <;> rfl
  | _ => rfl

/-- A kind has lists of tasks below its own keys alone. -/
theorem mem_ownedKeys_of_placedLists {kind : TaskKind Task} {key : String} {keys : Pointer}
    {tasks : NamedMap Task} (h : (key :: keys, tasks) ∈ kind.placedLists) :
    ∃ type ∈ kind.type?, key ∈ type.ownedKeys := by
  cases kind with
  | do_ m =>
    obtain ⟨hk, -⟩ := Prod.mk.inj (List.mem_singleton.1 h)
    obtain ⟨rfl, -⟩ := List.cons.inj hk
    exact ⟨_, rfl, by decide⟩
  | for_ t =>
    obtain ⟨hk, -⟩ := Prod.mk.inj (List.mem_singleton.1 h)
    obtain ⟨rfl, -⟩ := List.cons.inj hk
    exact ⟨_, rfl, by decide⟩
  | fork b =>
    obtain ⟨hk, -⟩ := Prod.mk.inj (List.mem_singleton.1 h)
    obtain ⟨rfl, -⟩ := List.cons.inj hk
    exact ⟨_, rfl, by decide⟩
  | listen t =>
    obtain ⟨_, -, hk⟩ := List.mem_map.1 h
    obtain ⟨rfl, -⟩ := List.cons.inj (Prod.mk.inj hk).1
    exact ⟨_, rfl, by decide⟩
  | try_ t =>
    rcases List.mem_cons.1 h with h | h
    · obtain ⟨rfl, -⟩ := List.cons.inj (Prod.mk.inj h).1
      exact ⟨_, rfl, by decide⟩
    · obtain ⟨rfl, -⟩ := List.cons.inj (Prod.mk.inj (List.mem_singleton.1 h)).1
      exact ⟨_, rfl, by decide⟩
  | _ => cases h

theorem mem_children_of_lookup (kind : TaskKind Task) {keys : Pointer} {tasks : NamedMap Task}
    (h : kind.placedLists.lookup keys = some tasks) {t : Task} (ht : t ∈ tasks.values) :
    t ∈ kind.children := by
  obtain ⟨_, _, hl, -⟩ := List.lookup_eq_some_iff.1 h
  have h : (keys, tasks) ∈ kind.placedLists := hl ▸ List.mem_append_right _ List.mem_cons_self
  refine mem_children.2 ⟨tasks, ?_, ht⟩
  rw [lists_eq]
  exact List.mem_map_of_mem h

/-- What is collected of the list of tasks under the keys, of which something is collected each. -/
def collectAt (k : TaskKind (List α)) (keys : Pointer) : List α :=
  ((k.placedLists.lookup keys).map fun tasks => tasks.values.flatten).getD []

theorem collectAt_map {τ : Type} (f : τ → List α) (k : TaskKind τ) (keys : Pointer) :
    (k.map f).collectAt keys =
      ((k.placedLists.lookup keys).map fun tasks => tasks.values.flatMap f).getD [] := by
  have hl : (k.map f).placedLists.lookup keys =
      (k.placedLists.lookup keys).map (NamedMap.map f) := by
    rw [placedLists_map]
    induction k.placedLists with
    | nil => rfl
    | cons l ls ih =>
      rw [List.map_cons, List.lookup_cons, List.lookup_cons, ih]
      split <;> rfl
  rw [collectAt, hl]
  cases k.placedLists.lookup keys with
  | none => rfl
  | some tasks =>
    rw [Option.map_some, Option.map_some, Option.map_some, NamedMap.values_map, List.flatMap_def]

end TaskKind

/-- The references of a list that is written are the same if an empty one is left out. -/
theorem Field.listReferences_written? {ρ : Type} {c : Codec α} {key : String}
    {get : ρ → NamedMap α} {f : Node → List Pointer} (m : NamedMap α) :
    (((omitted key (.namedMap c) {} NamedMap.isEmpty get).written? m).map
      (listReferences f)).getD [] = listReferences f ((Codec.namedMap c).write m) := by
  obtain ⟨es⟩ := m
  cases es <;> rfl

/-! ### Lists in parts of kinds -/

section

variable {f : Node → List Pointer}

theorem Branching.listReferences_write (b : Branching Task) :
    ((((Branching.codec Task.codec).write b).at? ["branches"]).map (listReferences f)).getD [] =
      listReferences f ((Codec.namedMap Task.codec).write b.branches) := by
  obtain ⟨hw, -⟩ := Codec.holds_child?_write (c := Branching.codec Task.codec) rfl
    (.computed rfl) b
  have hw : ((Branching.codec Task.codec).write b).child? "branches" = _ := hw
  rw [Node.at?_singleton, hw]
  rfl

theorem Subscription.listReferences_write (s : Subscription Task) :
    ((((Subscription.codec Task.codec).write s).at? ["do"]).map (listReferences f)).getD [] =
      listReferences f ((Codec.namedMap Task.codec).write s.tasks) := by
  obtain ⟨-, -, hw, -⟩ := Codec.holds_child?_write (c := Subscription.codec Task.codec) rfl
    (.computed rfl) s
  have hw : ((Subscription.codec Task.codec).write s).child? "do" = _ := hw
  rw [Node.at?_singleton, hw]
  exact Field.listReferences_written? _

theorem Catcher.listReferences_write (c : Catcher Task) :
    ((((Catcher.codec Task.codec).write c).at? ["do"]).map (listReferences f)).getD [] =
      listReferences f ((Codec.namedMap Task.codec).write c.tasks) := by
  obtain ⟨-, -, -, -, -, hw, -⟩ := Codec.holds_child?_write (c := Catcher.codec Task.codec) rfl
    (.computed rfl) c
  have hw : ((Catcher.codec Task.codec).write c).child? "do" = _ := hw
  rw [Node.at?_singleton, hw]
  exact Field.listReferences_written? _

end

/-! ### Lists in kinds -/

/-- The types of tasks that have lists of tasks, each with where one stands. -/
def listPlaces : List (TaskType × String × Pointer) :=
  [(.do_, "do", []), (.for_, "do", []), (.fork, "fork", ["branches"]),
    (.listen, "foreach", ["do"]), (.try_, "try", []), (.try_, "catch", ["do"])]

theorem mem_listPlaces {type : TaskType} {key : String} {keys : Pointer}
    (hk : key :: keys ∈ taskLists) (ho : key ∈ type.ownedKeys) :
    (type, key, keys) ∈ listPlaces := by
  have hd : ∀ type ∈ TaskType.all, ∀ keys ∈ taskLists, ∀ key ∈ keys.head?,
      key ∈ type.ownedKeys → (type, key, keys.tail) ∈ listPlaces := by decide
  exact hd type (by cases type <;> decide) _ hk key rfl ho

/-- **The references under the keys of a list of tasks are those of this list of the kind.** -/
theorem TaskKind.listReferences_entries {f : Node → List Pointer} {kind : TaskKind Task}
    {type : TaskType} (ht : kind.type? = some type) {key : String} {keys : Pointer}
    (hk : key :: keys ∈ taskLists) (ho : key ∈ type.ownedKeys) :
    ((((Entries.get? (kind.entries Task.codec) key).bind (·.at? keys))).map
      (listReferences f)).getD [] =
      ((kind.placedLists.lookup (key :: keys)).map fun tasks =>
        listReferences f ((Codec.namedMap Task.codec).write tasks)).getD [] := by
  have hp := mem_listPlaces hk ho
  simp only [listPlaces, List.mem_cons, Prod.mk.injEq, List.not_mem_nil, or_false] at hp
  rcases hp with ⟨rfl, rfl, rfl⟩ | ⟨rfl, rfl, rfl⟩ | ⟨rfl, rfl, rfl⟩ | ⟨rfl, rfl, rfl⟩ |
    ⟨rfl, rfl, rfl⟩ | ⟨rfl, rfl, rfl⟩
  · cases kind with
    | do_ tasks => rfl
    | _ => cases ht
  · cases kind with
    | for_ t =>
      obtain ⟨-, -, hd, -⟩ := Codec.holds_child?_write (c := ForTask.codec Task.codec) rfl
        (.computed rfl) t
      have hd : Entries.get? ((for_ t).entries Task.codec) "do" = _ := hd
      rw [hd]
      rfl
    | _ => cases ht
  · cases kind with
    | fork b => exact b.listReferences_write
    | _ => cases ht
  · cases kind with
    | listen t =>
      obtain ⟨-, hw, -⟩ := Codec.holds_child?_write (c := ListenTask.codec Task.codec) rfl
        (.computed rfl) t
      have hw : Entries.get? ((listen t).entries Task.codec) "foreach" = _ :=
        hw.trans (Field.optional_written? _)
      rw [hw]
      obtain ⟨listener, s⟩ := t
      cases s with
      | none => rfl
      | some s => exact s.listReferences_write
    | _ => cases ht
  · cases kind with
    | try_ t =>
      obtain ⟨hd, -⟩ := Codec.holds_child?_write (c := TryTask.codec Task.codec) rfl
        (.computed rfl) t
      have hd : Entries.get? ((try_ t).entries Task.codec) "try" = _ := hd
      rw [hd]
      rfl
    | _ => cases ht
  · cases kind with
    | try_ t =>
      obtain ⟨-, hw, -⟩ := Codec.holds_child?_write (c := TryTask.codec Task.codec) rfl
        (.computed rfl) t
      have hw : Entries.get? ((try_ t).entries Task.codec) "catch" = _ := hw
      rw [hw]
      exact t.catcher.listReferences_write
    | _ => cases ht

/-! ## Tasks -/

namespace Task

/-- What is collected of the free-form entry that is searched for a list of tasks. -/
def collectFree (g : Collector α) (t : Task) : Pointer → List α
  | key :: _ =>
    if key ∈ misreadKeys then ((Entries.get? t.freeEntries key).map (g.entry key)).getD [] else []
  | [] => []

/-- What is collected of a task and of the tasks inside. -/
def collect (g : Collector α) : Task → List α :=
  para fun t kind => t.fields.collect g ++ taskLists.flatMap fun keys =>
    kind.collectAt keys ++ t.collectFree g keys

theorem collect_mk (g : Collector α) (fields : TaskFields) (kind : TaskKind Task)
    (extra : OrderedMap Node) :
    (mk fields kind extra).collect g = fields.collect g ++ taskLists.flatMap fun keys =>
      ((kind.placedLists.lookup keys).map fun tasks => tasks.values.flatMap (collect g)).getD []
        ++ (mk fields kind extra).collectFree g keys := by
  have h : (mk fields kind extra).collect g = fields.collect g ++ taskLists.flatMap fun keys =>
    (kind.map (collect g)).collectAt keys ++ (mk fields kind extra).collectFree g keys := para_mk ..
  rw [h]
  simp only [TaskKind.collectAt_map]

section

variable {fields : TaskFields} {kind : TaskKind Task} {extra : OrderedMap Node}
  (ha : keysApart kind extra = true)
include ha

/-- A key that belongs to the type of a task is that of no free-form entry. -/
theorem get?_freeEntries_of_owned {type : TaskType} (ht : kind.type? = some type) {key : String}
    (ho : key ∈ type.ownedKeys) : Entries.get? (mk fields kind extra).freeEntries key = none := by
  have hb : (mk fields kind extra).freeEntries = extra.entries := by
    cases kind with
    | extension => cases ht
    | _ => rfl
  rw [hb, Entries.get?_eq_none_iff]
  exact fun hm => (((keysApart_of_type ht).1 ha).2 key hm).2 ho

/-- Under other keys than those of the common fields and of the type stand free-form entries. -/
theorem get?_assemble_of_free {key : String} (hf : key ∉ TaskFields.keys)
    (ho : ∀ type ∈ kind.type?, key ∉ type.ownedKeys) :
    Entries.get? (assemble fields (kind.toNode codec) extra) key =
      Entries.get? (mk fields kind extra).freeEntries key := by
  have hc : key ∉ Entries.keys (commonEntries fields) := fun hm =>
    hf ((keys_commonEntries_sublist fields).subset hm)
  have hk : Entries.get? (kind.entries codec) key = Entries.get? kind.body key := by
    cases ht : kind.type? with
    | some type =>
      have hes : TaskKind.EntriesOf type (kind.entries codec) := (TaskKind.toNode_entries ht).2
      have hb : kind.body = [] := by
        cases kind with
        | extension => cases ht
        | _ => rfl
      rw [hb, Entries.get?_eq_none_iff.2 fun hm => ho type ht (hes.owned _ hm)]
      rfl
    | none =>
      cases kind with
      | extension => rfl
      | _ => cases ht
  rw [assemble_of_keysApart ha, freeEntries, Entries.get?_append, Entries.get?_append,
    Entries.get?_append, hk, Entries.get?_eq_none_iff.2 hc, Option.or_none]
  rfl

/-- A list of tasks under a key of no kind has references only if the key is misread. -/
theorem listReferences_eq_nil {key : String} {keys : Pointer} (hk : key :: keys ∈ taskLists)
    (hf : key ∉ TaskFields.keys) (ho : ∀ type ∈ kind.type?, key ∉ type.ownedKeys)
    (hm : key ∉ misreadKeys) :
    (((Node.mapping (assemble fields (kind.toNode codec) extra)).at? (key :: keys)).map
      (listReferences (taskPointers false))).getD [] = [] := by
  cases hl : (Node.mapping (assemble fields (kind.toNode codec) extra)).at? (key :: keys) with
  | none => rfl
  | some m =>
    obtain ⟨v, hv, -⟩ := Option.bind_eq_some_iff.1 hl
    -- A list with references would be searched, and so the key would be misread.
    have hb : below key (taskPointers false
        (.mapping (assemble fields (kind.toNode codec) extra))) = [] := by
      by_contra hb
      exact hm (mem_misreadKeys_of_below (discriminate_assemble ha)
        (Entries.mem_keys_of_mem (Entries.mem_of_get? hv)) hf ho hb)
    rw [below_taskPointers_of_list hk, hl, List.map_eq_nil_iff] at hb
    show referencesAt (listPointers (taskPointers false) (some m)) m = []
    rw [hb]
    rfl

/-- Under a key that is misread stands the free-form entry that is searched. -/
theorem listReferences_misread {key : String} {keys : Pointer} (hk : key :: keys ∈ taskLists)
    (hf : key ∉ TaskFields.keys) (ho : ∀ type ∈ kind.type?, key ∉ type.ownedKeys)
    (hm : key ∈ misreadKeys) :
    (((Node.mapping (assemble fields (kind.toNode codec) extra)).at? (key :: keys)).map
      (listReferences (taskPointers false))).getD [] =
      (mk fields kind extra).collectFree .references (key :: keys) := by
  have hkeys : ∀ keys ∈ taskLists, ∀ key ∈ misreadKeys, keys.head? = some key →
      keys.tail = ["do"] ∧ key ≠ "export" := by decide
  obtain ⟨rfl, hne⟩ : keys = ["do"] ∧ _ := hkeys _ hk key hm rfl
  have hat : (Node.mapping (assemble fields (kind.toNode codec) extra)).at? [key, "do"] =
      (Entries.get? (assemble fields (kind.toNode codec) extra) key).bind (·.at? ["do"]) := rfl
  rw [hat, collectFree, if_pos hm, get?_assemble_of_free ha hf ho]
  cases Entries.get? (mk fields kind extra).freeEntries key with
  | none => rfl
  | some v =>
    show ((v.at? ["do"]).map (listReferences (taskPointers false))).getD [] =
      searchedReferences key v
    rw [searchedReferences_of_ne hne, Node.at?_singleton]

/-- **The references in a list of tasks are those of the tasks of the kind, or of the free-form
entry that is searched for one.** -/
theorem listReferences_assemble {keys : Pointer} (hk : keys ∈ taskLists) :
    (((Node.mapping (assemble fields (kind.toNode codec) extra)).at? keys).map
      (listReferences (taskPointers false))).getD [] =
      ((kind.placedLists.lookup keys).map fun tasks =>
        listReferences (taskPointers false) ((Codec.namedMap codec).write tasks)).getD []
        ++ (mk fields kind extra).collectFree .references keys := by
  have hd : ∀ keys ∈ taskLists, ∀ key ∈ keys.head?, key ∉ TaskFields.keys := by decide
  match keys, hk with
  | key :: keys, hk =>
    have hf := hd _ hk key rfl
    by_cases ho : ∃ type ∈ kind.type?, key ∈ type.ownedKeys
    · obtain ⟨type, ht, ho⟩ := ho
      have hat : (Node.mapping (assemble fields (kind.toNode codec) extra)).at? (key :: keys) =
          (Entries.get? (assemble fields (kind.toNode codec) extra) key).bind (·.at? keys) := rfl
      have hfree : (mk fields kind extra).collectFree .references (key :: keys) = [] := by
        rw [collectFree, get?_freeEntries_of_owned ha ht ho]
        exact ite_self _
      rw [hat, hfree, List.append_nil, ← TaskKind.listReferences_entries ht hk ho,
        ← get?_split_fst _ ho, split_assemble ha ht]
    · have hl : kind.placedLists.lookup (key :: keys) = none := by
        rw [Option.eq_none_iff_forall_not_mem]
        intro tasks h
        obtain ⟨_, _, hl, -⟩ := List.lookup_eq_some_iff.1 h
        exact ho (TaskKind.mem_ownedKeys_of_placedLists
          (hl ▸ List.mem_append_right _ List.mem_cons_self))
      have ho : ∀ type ∈ kind.type?, key ∉ type.ownedKeys := fun type ht hm => ho ⟨type, ht, hm⟩
      rw [hl, Option.map_none, Option.getD_none, List.nil_append]
      by_cases hm : key ∈ misreadKeys
      · exact listReferences_misread ha hk hf ho hm
      · rw [listReferences_eq_nil ha hk hf ho hm, collectFree, if_neg hm]

end

/-- **The references of a task that is written are those that are collected of it.** -/
theorem taskReferences_toNode {t : Task} (h : codec.IsRead t) :
    taskReferences t.toNode = t.collect .references := by
  induction t using induction with
  | step fields kind extra ih =>
    obtain ⟨ha, hc, -⟩ := parts_of_isRead h
    have hw : ∀ key ∈ TaskFields.keys,
        Entries.get? (assemble fields (kind.toNode codec) extra) key =
          Entries.get? (commonEntries fields) key := by
      intro key hk
      rw [← Entries.get?_splitKeys_fst _ hk, splitKeys_assemble ha]
    rw [toNode_mk, taskReferences_mapping, TaskFields.modelReferences_write hw, collect_mk]
    refine congrArg _ (List.flatMap_congr fun keys hk => ?_)
    rw [listReferences_assemble ha hk]
    refine congrArg (· ++ _) (congrArg (Option.getD · []) ?_)
    cases hl : kind.placedLists.lookup keys with
    | none => rfl
    | some tasks =>
      rw [Option.map_some, Option.map_some, listReferences_write]
      refine congrArg some (List.flatMap_congr fun t ht => ?_)
      have ht := kind.mem_children_of_lookup hl ht
      exact ih t ht (hc t ht)

end Task

/-! ## Documents -/

/-- What is collected of the tasks of a list. -/
def NamedMap.collect (g : Collector α) (tasks : NamedMap Task) : List α :=
  tasks.values.flatMap (Task.collect g)

theorem listReferences_tasks {tasks : NamedMap Task}
    (h : ∀ t ∈ tasks.values, Task.codec.IsRead t) :
    listReferences (taskPointers false) ((Codec.namedMap Task.codec).write tasks) =
      tasks.collect .references := by
  rw [listReferences_write]
  exact List.flatMap_congr fun t ht => Task.taskReferences_toNode (h t ht)

/-- What is collected of the tasks around others. -/
def Extension.collect (g : Collector α) (e : Extension) : List α :=
  e.before.collect g ++ e.after.collect g

theorem Extension.references_write {e : Extension}
    (h : ∀ tasks ∈ [e.before, e.after], ∀ t ∈ tasks.values, Task.codec.IsRead t) :
    referencesAt (extensionPointers false (codec.write e)) (codec.write e) =
      e.collect .references := by
  rw [List.forall_mem_cons, List.forall_mem_singleton] at h
  obtain ⟨-, -, hb, ha, -⟩ := Codec.holds_child?_write (c := codec) rfl (.computed rfl) e
  have hb : (codec.write e).get? "before" = _ := hb
  have ha : (codec.write e).get? "after" = _ := ha
  rw [referencesAt_extensionPointers, List.flatMap_cons, List.flatMap_singleton, hb, ha,
    Field.listReferences_written?, Field.listReferences_written?]
  exact congrArg₂ _ (listReferences_tasks h.1) (listReferences_tasks h.2)

namespace Components

/-- What is collected of the tasks of components. -/
def collect (g : Collector α) (c : Components) : List α :=
  c.functions.entries.values.flatMap (Task.collect g)
    ++ c.extensions.values.flatMap (Extension.collect g)

theorem references_functions (m : OrderedMap Task) (hn : m.keys.Nodup)
    (h : ∀ t ∈ m.entries.values, Task.codec.IsRead t) :
    (((Field.omitted "functions" (.map Task.codec) {} OrderedMap.isEmpty
        Components.functions).written? m).map fun n =>
      referencesAt (entryPointers (taskPointers false) (some n)) n).getD [] =
      m.entries.values.flatMap (Task.collect .references) := by
  have hw : referencesAt (entryPointers (taskPointers false)
      (some ((Codec.map Task.codec).write m))) ((Codec.map Task.codec).write m) =
        m.entries.values.flatMap (Task.collect .references) := by
    have hk : (Entries.keys (m.entries.mapValues Task.codec.write)).Nodup := by
      rw [Entries.keys_mapValues]
      exact hn
    rw [Entries.values, List.flatMap_map]
    refine (referencesAt_entryPointers hk).trans ?_
    rw [Entries.mapValues, List.flatMap_map]
    exact List.flatMap_congr fun e he =>
      Task.taskReferences_toNode (h e.2 (List.mem_map_of_mem he))
  obtain ⟨es⟩ := m
  cases es with
  | nil => rfl
  | cons => exact hw

theorem references_write {c : Components} (h : codec.IsRead c) :
    referencesAt (componentPointers false (codec.write c)) (codec.write c) =
      c.collect .references := by
  obtain ⟨n, hn, hr⟩ := h
  obtain ⟨hre, hrf⟩ := isRead ⟨n, hn, hr⟩
  obtain ⟨-, -, -, hwe, hwf, -⟩ := Codec.holds_child?_write (c := codec) rfl (.computed rfl) c
  have hwe : (codec.write c).child? "extensions" = _ := hwe
  have hwf : (codec.write c).child? "functions" = _ := hwf
  rw [referencesAt_componentPointers, hwe, hwf, Field.listReferences_written?,
    listReferences_write]
  refine congrArg₂ _ (references_functions _ (nodup_functions_of_read hn hr) hrf) ?_
  exact List.flatMap_congr fun e he => Extension.references_write (hre e he)

end Components

namespace Workflow

/-- What is collected of a document. -/
def collect (g : Collector α) (w : Workflow) : List α :=
  g.model (·.schema) w.input ++ (g.model (·.schema) w.output
    ++ ((w.extra.get? "export").map (g.entry "export")).getD [])
    ++ (w.components.map (Components.collect g)).getD [] ++ w.tasks.collect g

/-- **The references of a document that is written are those that are collected of it.** -/
theorem documentReferences_write {n : Node} {w : Workflow} (hn : n.distinctKeys = true)
    (hr : codec.read n = .ok w) :
    documentReferences (codec.write w) = w.collect .references := by
  have hk : codec.Keeps w := Codec.StableBelow.keeps_of_read (Node.Below.of_distinct hn) hr
  obtain ⟨hrc, hrt⟩ := holds_isRead hn hr
  obtain ⟨-, hwi, hwc, hwt, -, hwo, -⟩ := Codec.openRecord_holds_child?_write (c := codec) rfl
    (.computed rfl) hk
  have hk : codec.read (codec.write w) = .ok w := hk
  obtain ⟨es, hes⟩ : ∃ es, codec.write w = .mapping es := ⟨_, rfl⟩
  rw [hes] at hk hwi hwc hwt hwo
  rw [hes]
  obtain ⟨-, hwx⟩ := (Codec.openRecord_read_mapping (.computed rfl)).1 hk
  have hi : Entries.get? es "input" = w.input.map InputModel.codec.write :=
    hwi.trans (Field.optional_written? _)
  have ho : Entries.get? es "output" = w.output.map OutputModel.codec.write :=
    hwo.trans (Field.optional_written? _)
  have hc : Entries.get? es "use" = w.components.map Components.codec.write :=
    hwc.trans (Field.optional_written? _)
  have ht : Entries.get? es "do" = some ((Codec.namedMap Task.codec).write w.tasks) := hwt
  have hx : Entries.get? es "export" = w.extra.get? "export" := by
    rw [OrderedMap.get?, ← hwx, Entries.get?_splitKeys_snd _ (by decide)]
  rw [documentReferences_mapping, List.flatMap_cons, List.flatMap_cons, List.flatMap_singleton, hi,
    ho, hc, ht, hx]
  congr 1
  congr 1
  · congr 1
    · exact Codec.modelReferences_write (.computed rfl) _
    congr 1
    exact Codec.modelReferences_write (.computed rfl) _
  · cases hwc : w.components with
    | none => rfl
    | some c => exact Components.references_write (hrc c hwc)
  · exact listReferences_tasks fun t ht => hrt.of_mem_values ht

end Workflow

/-! ## Where something is found -/

section

variable {g : Collector α} {a : α}

theorem Collector.mem_model {ρ : Type} {schema : ρ → Option Schema} {m? : Option ρ}
    (place : SchemaPlace) (h : a ∈ g.model schema m?) :
    ∃ s ∈ placed place (m?.bind schema), s.place = place ∧ a ∈ g.schema s.schema := by
  rw [model] at h
  cases hs : m?.bind schema with
  | none =>
    rw [hs] at h
    cases h
  | some s =>
    rw [hs] at h
    exact ⟨⟨place, s⟩, List.mem_singleton_self _, rfl, h⟩

/-- It is found in a schema, at a place that is searched. -/
def Collector.FindsIn (g : Collector α) (a : α) (ss : List PlacedSchema) : Prop :=
  ∃ s ∈ ss, s.place.isSearched = true ∧ a ∈ g.schema s.schema

/-- It is found in a free-form entry of the task that is searched. -/
def Collector.FindsFree (g : Collector α) (a : α) (t : Task) : Prop :=
  ∃ key ∈ misreadKeys, ∃ v, Entries.get? t.freeEntries key = some v ∧ a ∈ g.entry key v

theorem Collector.FindsIn.mono {ss ss' : List PlacedSchema} (h : g.FindsIn a ss) (hs : ss ⊆ ss') :
    g.FindsIn a ss' := by
  obtain ⟨s, hm, h⟩ := h
  exact ⟨s, hs hm, h⟩

theorem TaskFields.finds_of_mem_collect {f : TaskFields} (h : a ∈ f.collect g) :
    g.FindsIn a f.schemas := by
  rcases List.mem_append.1 h with h | h
  · obtain ⟨s, hs, hp, h⟩ := Collector.mem_model .input h
    exact ⟨s, List.mem_append_left _ (List.mem_append_left _ hs), hp ▸ rfl, h⟩
  rcases List.mem_append.1 h with h | h
  · obtain ⟨s, hs, hp, h⟩ := Collector.mem_model .output h
    exact ⟨s, List.mem_append_left _ (List.mem_append_right _ hs), hp ▸ rfl, h⟩
  · obtain ⟨s, hs, hp, h⟩ := Collector.mem_model .export_ h
    exact ⟨s, List.mem_append_right _ hs, hp ▸ rfl, h⟩

/-- **What is collected of a task is found in a schema, or in a free-form entry, of it or of a task
inside.** -/
theorem Task.finds_of_mem_collect {t : Task} (h : a ∈ t.collect g) :
    g.FindsIn a t.schemas ∨ ∃ u ∈ t.subtasks, g.FindsFree a u := by
  induction t using induction with
  | step fields kind extra ih =>
    rw [collect_mk] at h
    rcases List.mem_append.1 h with h | h
    · refine .inl ((TaskFields.finds_of_mem_collect h).mono fun s hs => ?_)
      rw [schemas_mk]
      exact List.mem_append_left _ (List.mem_append_left _ hs)
    obtain ⟨keys, hk, h⟩ := List.mem_flatMap.1 h
    rcases List.mem_append.1 h with h | h
    · cases hl : kind.placedLists.lookup keys with
      | none =>
        rw [hl] at h
        cases h
      | some tasks =>
        rw [hl] at h
        obtain ⟨t, ht, h⟩ := List.mem_flatMap.1 h
        have ht := kind.mem_children_of_lookup hl ht
        rcases ih t ht h with h | ⟨u, hu, h⟩
        · refine .inl (h.mono fun s hs => ?_)
          rw [schemas_mk]
          exact List.mem_append_right _ (List.mem_flatMap.2 ⟨t, ht, hs⟩)
        · refine .inr ⟨u, ?_, h⟩
          rw [subtasks_mk]
          exact List.mem_cons_of_mem _ (List.mem_flatMap.2 ⟨t, ht, hu⟩)
    · refine .inr ⟨mk fields kind extra, ?_, ?_⟩
      · rw [subtasks_mk]
        exact List.mem_cons_self
      match keys, hk with
      | key :: keys, _ =>
        rw [collectFree] at h
        split at h
        · next hm =>
          cases hv : Entries.get? (mk fields kind extra).freeEntries key with
          | none =>
            rw [hv] at h
            cases h
          | some v =>
            rw [hv] at h
            exact ⟨key, hm, v, hv, h⟩
        · cases h

namespace Workflow

variable {w : Workflow}

/-- The tasks of a document that stand in no other task. -/
def outerTasks (w : Workflow) : List Task := w.outerLists.flatMap NamedMap.values ++ w.functions

theorem mem_outerTasks_of_components {c : Components} (hc : w.components = some c) :
    (∀ e ∈ c.extensions.values, ∀ tasks ∈ [e.before, e.after], ∀ t ∈ tasks.values,
        t ∈ w.outerTasks) ∧ ∀ t ∈ c.functions.entries.values, t ∈ w.outerTasks := by
  have hm : c ∈ w.components.toList := by simp [hc]
  constructor
  · intro e he tasks htasks t ht
    refine List.mem_append_left _ (List.mem_flatMap.2 ⟨tasks, List.mem_cons_of_mem _ ?_, ht⟩)
    exact List.mem_flatMap.2 ⟨c, hm, List.mem_flatMap.2 ⟨e, he, htasks⟩⟩
  · exact fun t ht => List.mem_append_right _ (List.mem_flatMap.2 ⟨c, hm, ht⟩)

/-- What is collected of the lists of tasks is collected of one of the outer tasks. -/
theorem exists_outerTask (h : a ∈ (w.components.map (Components.collect g)).getD []
    ++ w.tasks.collect g) : ∃ t ∈ w.outerTasks, a ∈ t.collect g := by
  rcases List.mem_append.1 h with h | h
  · cases hc : w.components with
    | none =>
      rw [hc] at h
      cases h
    | some c =>
      rw [hc] at h
      obtain ⟨he, hf⟩ := mem_outerTasks_of_components hc
      rcases List.mem_append.1 h with h | h
      · obtain ⟨t, ht, h⟩ := List.mem_flatMap.1 h
        exact ⟨t, hf t ht, h⟩
      · obtain ⟨e, hm, h⟩ := List.mem_flatMap.1 h
        rcases List.mem_append.1 h with h | h
        · obtain ⟨t, ht, h⟩ := List.mem_flatMap.1 h
          exact ⟨t, he e hm _ List.mem_cons_self t ht, h⟩
        · obtain ⟨t, ht, h⟩ := List.mem_flatMap.1 h
          exact ⟨t, he e hm _ (List.mem_cons_of_mem _ List.mem_cons_self) t ht, h⟩
  · obtain ⟨t, ht, h⟩ := List.mem_flatMap.1 h
    exact ⟨t, List.mem_append_left _ (List.mem_append_left _ ht), h⟩

/-- **What is collected of a document is found in a schema, or in a free-form entry, of it or of one
of its tasks.** -/
theorem finds_of_mem_collect (h : a ∈ w.collect g) :
    g.FindsIn a w.schemas ∨ (∃ t ∈ w.allTasks, g.FindsFree a t) ∨
      ∃ v, w.extra.get? "export" = some v ∧ a ∈ g.entry "export" v := by
  rw [collect, List.append_assoc] at h
  rcases List.mem_append.1 h with h | h
  · rcases List.mem_append.1 h with h | h
    · obtain ⟨s, hs, hp, h⟩ := Collector.mem_model .input h
      exact .inl ⟨s, List.mem_append_left _ (List.mem_append_left _ hs), hp ▸ rfl, h⟩
    rcases List.mem_append.1 h with h | h
    · obtain ⟨s, hs, hp, h⟩ := Collector.mem_model .output h
      exact .inl ⟨s, List.mem_append_left _ (List.mem_append_right _ hs), hp ▸ rfl, h⟩
    · cases hv : w.extra.get? "export" with
      | none =>
        rw [hv] at h
        cases h
      | some v =>
        rw [hv] at h
        exact .inr (.inr ⟨v, rfl, h⟩)
  · obtain ⟨t, ht, h⟩ := exists_outerTask h
    have hm {u : Task} (hu : u ∈ t.subtasks) : u ∈ w.allTasks := List.mem_flatMap.2 ⟨t, ht, hu⟩
    rcases Task.finds_of_mem_collect h with h | ⟨u, hu, h⟩
    · refine .inl (h.mono fun s hs => List.mem_append_right _ ?_)
      obtain ⟨u, hu, hs⟩ := List.mem_flatMap.1 hs
      exact List.mem_flatMap.2 ⟨u, hm hu, hs⟩
    · exact .inr (.inl ⟨u, hm hu, h⟩)

end Workflow

end

end WorkflowDsl
