import WorkflowDsl.Proofs.Document.PointerText
import WorkflowDsl.Proofs.Reader.Reference

/-!
# What the resource positions of a document record

The search for the resources of a document comes to tasks (`ResourcePosition.Visits`) and records
objects in them (`ResourcePosition.Records`). What it writes down is a text, put together on the
way: a slash and a key at a time, where names are escaped and other keys and indices are not.

Such a text denotes the pointer to the task or object that it was written at, so it leads from the
root back to that very object (`Records.exists_pointer`). All objects that are recorded are in the
list of positions and no others are (`exists_records_iff`), none of them twice
(`nodup_documentPointers`).
-/

namespace WorkflowDsl

open Pointer (below escaped text)

namespace ResourcePosition

/-! ## The search -/

/-- The text of keys that need no escape. -/
def plain (keys : Pointer) : String := String.join (keys.map ("/" ++ ·))

/-- The text of the path to a named value in a list at a path. -/
def itemText (path : String) (i : Nat) (name : String) : String :=
  path ++ "/" ++ toString i ++ "/" ++ escaped name

/-- The list has a value under a name in the item at an index. -/
inductive HasNamed : Node → Nat → String → Node → Prop
  | intro {ns : List Node} {i : Nat} {es : Object} {name : String} {n : Node}
      (hi : ns[i]? = some (.mapping es)) (hm : (name, n) ∈ es) : HasNamed (.sequence ns) i name n

/-- The search comes to a task, with the text of the path to it. -/
inductive Visits (root : Node) : String → Node → Prop
  | function {es : Object} {name : String} {task : Node}
      (hf : root.at? ["use", "functions"] = some (.mapping es)) (hm : (name, task) ∈ es) :
      Visits root ("/use/functions/" ++ escaped name) task
  | extension {extensions extension list task : Node} {i j : Nat} {name key name' : String}
      (hx : root.at? ["use", "extensions"] = some extensions)
      (he : HasNamed extensions i name extension)
      (hk : key ∈ ["before", "after"]) (hl : extension.get? key = some list)
      (ht : HasNamed list j name' task) :
      Visits root (itemText (itemText "/use/extensions" i name ++ "/" ++ key) j name') task
  | document {list task : Node} {i : Nat} {name : String}
      (hl : root.get? "do" = some list) (ht : HasNamed list i name task) :
      Visits root (itemText "/do" i name) task
  | inside {path : String} {outer list task : Node} {keys : Pointer} {i : Nat} {name : String}
      (ho : Visits root path outer) (hk : keys ∈ taskLists) (hl : outer.at? keys = some list)
      (ht : HasNamed list i name task) :
      Visits root (itemText (path ++ plain keys) i name) task

/-- Where the schemas of data models stand. -/
def IsModelSlot (keys : Pointer) : Prop :=
  ∃ key ∈ ["input", "output", "export"], keys = [key, "schema", "resource"]

/-- Where the resources of a task stand that are not those of other tasks. -/
inductive IsTaskSlot (task : Node) : Pointer → Prop
  | model {keys : Pointer} (hk : IsModelSlot keys) : IsTaskSlot task keys
  | call {function key : String} (hc : task.get? "call" = some (.string function))
      (ha : callArgument? function = some key) : IsTaskSlot task ["with", key]
  | script : IsTaskSlot task ["run", "script", "source"]

/-- The keys lead to an object that holds an endpoint. -/
structure LeadsTo (n : Node) (keys : Pointer) (resource : Node) : Prop where
  at? : n.at? keys = some resource
  endpoint : (resource.get? "endpoint").isSome = true

/-- The search records an object, with the text of the pointer to it. -/
inductive Records (root : Node) : String → Node → Prop
  | document {keys : Pointer} {resource : Node} (hk : IsModelSlot keys)
      (hr : LeadsTo root keys resource) : Records root (plain keys) resource
  | task {path : String} {task resource : Node} {keys : Pointer} (ht : Visits root path task)
      (hk : IsTaskSlot task keys) (hr : LeadsTo task keys resource) :
      Records root (path ++ plain keys) resource

variable {root n m list task : Node} {path name : String} {i : Nat} {keys p q : Pointer}
  {es : Object} {f : Node → List Pointer}

/-! ## Parts of lists and of tasks -/

theorem mem_entryPointers_iff {n? : Option Node} : q ∈ entryPointers f n? ↔
    ∃ es, n? = some (.mapping es) ∧ ∃ name n, (name, n) ∈ es ∧ ∃ r ∈ f n, q = name :: r := by
  unfold entryPointers
  split
  · simp [eq_comm]
  · next h =>
    refine iff_of_false List.not_mem_nil ?_
    rintro ⟨es, he, -⟩
    exact h es he

/-- The pointers into a list go through a named value. -/
theorem mem_listPointers_iff {list? : Option Node} : q ∈ listPointers f list? ↔
    ∃ list, list? = some list ∧ ∃ i name n, HasNamed list i name n ∧
      ∃ r ∈ f n, q = toString i :: name :: r := by
  unfold listPointers
  split
  · next ns =>
    constructor
    · intro h
      obtain ⟨⟨n, i⟩, hm, h⟩ := List.mem_flatMap.1 h
      obtain ⟨q, hq, rfl⟩ := List.mem_map.1 h
      obtain ⟨es, hes, name, v, he, r, hr, rfl⟩ := mem_entryPointers_iff.1 hq
      obtain rfl := Option.some.inj hes
      exact ⟨_, rfl, i, name, v, .intro (List.mk_mem_zipIdx_iff_getElem?.1 hm) he, r, hr, rfl⟩
    · rintro ⟨_, ⟨⟩, i, name, n, ⟨hi, hm⟩, r, hr, rfl⟩
      refine List.mem_flatMap.2 ⟨(_, i), List.mk_mem_zipIdx_iff_getElem?.2 hi, ?_⟩
      exact List.mem_map_of_mem (mem_entryPointers_iff.2 ⟨_, rfl, _, _, hm, r, hr, rfl⟩)
  · next h =>
    refine iff_of_false List.not_mem_nil ?_
    rintro ⟨_, rfl, i, name, n, ⟨-, -⟩, -⟩
    exact h _ rfl

theorem mem_map_listPointers_iff {list? : Option Node} (g : Pointer → Pointer) :
    q ∈ (listPointers f list?).map g ↔ ∃ list, list? = some list ∧
      ∃ i name n, HasNamed list i name n ∧ ∃ r ∈ f n, q = g (toString i :: name :: r) := by
  simp only [List.mem_map, mem_listPointers_iff]
  constructor
  · rintro ⟨_, ⟨list, hl, i, name, n, hn, r, hr, rfl⟩, rfl⟩
    exact ⟨list, hl, i, name, n, hn, r, hr, rfl⟩
  · rintro ⟨list, hl, i, name, n, hn, r, hr, rfl⟩
    exact ⟨_, ⟨list, hl, i, name, n, hn, r, hr, rfl⟩, rfl⟩

/-- A named value in a list is found by its index and its name. -/
theorem HasNamed.at? (h : HasNamed list i name n) (hd : list.distinctKeys = true) :
    list.at? [toString i, name] = some n := by
  obtain ⟨hi, hm⟩ := h
  have he := Node.distinctKeys_sequence.1 hd _ (List.mem_of_getElem? hi)
  have hg := Entries.get?_of_mem (Node.distinctKeys_mapping.1 he).1 hm
  show ((Pointer.index? (toString i)).bind _).bind _ = _
  rw [Pointer.index?_toString, Option.bind_some, hi, Option.bind_some]
  exact (Node.at?_singleton _ _).trans hg

theorem HasNamed.depth_lt (h : HasNamed list i name n) : n.depth < list.depth := by
  obtain ⟨hi, hm⟩ := h
  have he := Node.depth_lt_of_mem_sequence (List.mem_of_getElem? hi)
  exact Nat.lt_trans (Node.depth_lt_of_mem_mapping hm) he

/-- A node that a key leads into is a mapping, unless the key is an index. -/
theorem exists_mapping_of_at? (h : n.at? keys = some m)
    (hk : (keys.head?.any fun key => (Pointer.index? key).isNone) = true) :
    ∃ es, n = .mapping es := by
  cases keys with
  | nil => cases hk
  | cons key keys =>
    obtain ⟨k, hc, -⟩ := Option.bind_eq_some_iff.1 h
    cases n with
    | mapping es => exact ⟨es, rfl⟩
    | sequence ns =>
      have hk : (Pointer.index? key).isNone = true := hk
      rw [Node.child?, Option.isNone_iff_eq_none.1 hk] at hc
      cases hc
    | _ => cases hc

/-! ## Where tasks are searched -/

theorem pointers_true (ps : List ResourcePosition) : pointers true ps = ps.map (·.pointer) := by
  simp [pointers]

theorem exists_leadsTo_iff :
    (∃ m, LeadsTo n q m) ↔ ((n.at? q).bind (·.get? "endpoint")).isSome = true := by
  constructor
  · rintro ⟨m, ha, he⟩
    rwa [ha, Option.bind_some]
  · intro h
    cases ha : n.at? q with
    | none =>
      rw [ha] at h
      cases h
    | some m =>
      rw [ha, Option.bind_some] at h
      exact ⟨m, ha, h⟩

/-- What is found at keys is the object that they lead to. -/
theorem mem_pointers_within_iff {isSchema : Bool} :
    q ∈ pointers true (within [] n isSchema keys).toList ↔ q = keys ∧ ∃ m, LeadsTo n q m := by
  rw [within]
  split
  · next h =>
    rw [pointers_true]
    constructor
    · intro hq
      obtain rfl := List.mem_singleton.1 hq
      exact ⟨rfl, exists_leadsTo_iff.2 h⟩
    · rintro ⟨rfl, -⟩
      exact List.mem_singleton_self _
  · next h =>
    refine iff_of_false List.not_mem_nil ?_
    rintro ⟨rfl, hr⟩
    exact h (exists_leadsTo_iff.1 hr)

theorem mem_modelSchemas_iff : q ∈ modelSchemas n ↔ IsModelSlot q ∧ ∃ m, LeadsTo n q m := by
  have hm : modelSchemas n = pointers true (ofDataModels [] n) := by
    rw [pointers_ofDataModels]
    exact (List.map_id' _).symm
  rw [hm, ofDataModels, List.filterMap_eq_flatMap_toList, pointers_flatMap, List.mem_flatMap]
  simp only [mem_pointers_within_iff]
  constructor
  · rintro ⟨key, hk, hq, hr⟩
    exact ⟨⟨key, hk, hq⟩, hr⟩
  · rintro ⟨⟨key, hk, hq⟩, hr⟩
    exact ⟨key, hk, hq, hr⟩

theorem mem_scriptPointers_iff : q ∈ scriptPointers true n ↔
    q = ["run", "script", "source"] ∧ ∃ m, LeadsTo n q m := mem_pointers_within_iff

theorem mem_callPointers_iff : q ∈ callPointers true n ↔
    (∃ function key, n.get? "call" = some (.string function) ∧ callArgument? function = some key ∧
      q = ["with", key]) ∧ ∃ m, LeadsTo n q m := by
  have hs {v : Node} {s : String} : v.string? = some s ↔ v = .string s := by
    cases v <;> simp [Node.string?]
  rw [callPointers, ofCall_eq]
  cases ha : ((n.get? "call").bind Node.string?).bind callArgument? with
  | none =>
    refine iff_of_false List.not_mem_nil ?_
    rintro ⟨⟨function, key, hc, hf, -⟩, -⟩
    rw [hc] at ha
    cases ha.symm.trans hf
  | some key =>
    obtain ⟨function, hc, hf⟩ := Option.bind_eq_some_iff.1 ha
    obtain ⟨v, hc, hv⟩ := Option.bind_eq_some_iff.1 hc
    obtain rfl := hs.1 hv
    rw [Option.bind_some, mem_pointers_within_iff]
    refine and_congr_left fun _ => ?_
    constructor
    · exact fun hq => ⟨function, key, hc, hf, hq⟩
    · rintro ⟨function', key', hc', hf', hq⟩
      obtain rfl : function = function' := Node.string.inj (Option.some.inj (hc.symm.trans hc'))
      obtain rfl := Option.some.inj (hf.symm.trans hf')
      exact hq

theorem mem_slots_iff :
    q ∈ modelSchemas n ++ callPointers true n ++ scriptPointers true n ↔
      IsTaskSlot n q ∧ ∃ m, LeadsTo n q m := by
  rw [List.mem_append, List.mem_append, mem_modelSchemas_iff, mem_callPointers_iff,
    mem_scriptPointers_iff, ← or_and_right, ← or_and_right]
  refine and_congr_left fun _ => ?_
  constructor
  · rintro ((h | ⟨function, key, hc, ha, rfl⟩) | rfl)
    · exact .model h
    · exact .call hc ha
    · exact .script
  · rintro (h | ⟨hc, ha⟩ | _)
    · exact .inl (.inl h)
    · exact .inl (.inr ⟨_, _, hc, ha, rfl⟩)
    · exact .inr rfl

theorem IsTaskSlot.exists_mapping (h : IsTaskSlot task keys) (hr : LeadsTo task keys m) :
    ∃ es, task = .mapping es := by
  refine exists_mapping_of_at? hr.at? ?_
  cases h with
  | model hk =>
    obtain ⟨key, hk, rfl⟩ := hk
    have hi : ∀ key ∈ ["input", "output", "export"], (Pointer.index? key).isNone = true := by decide
    exact hi key hk
  | call => rfl
  | script => rfl

/-- The resources of a task stand in its slots, or in a task of one of its lists. -/
theorem mem_taskPointers_iff : q ∈ taskPointers true task ↔
    (IsTaskSlot task q ∧ ∃ m, LeadsTo task q m) ∨
      ∃ keys ∈ taskLists, ∃ list, task.at? keys = some list ∧ ∃ i name n, HasNamed list i name n ∧
        ∃ r ∈ taskPointers true n, q = keys ++ toString i :: name :: r := by
  by_cases ht : ∃ es, task = .mapping es
  · obtain ⟨es, rfl⟩ := ht
    rw [taskPointers_mapping, taskPointersBy, List.mem_append, mem_slots_iff, List.mem_flatMap]
    refine or_congr_right (exists_congr fun keys => and_congr_right fun _ => ?_)
    exact mem_map_listPointers_iff (keys ++ ·)
  · have hn : taskPointers true task = [] := by
      cases task with
      | mapping es => exact absurd ⟨es, rfl⟩ ht
      | _ => rfl
    rw [hn]
    refine iff_of_false List.not_mem_nil ?_
    rintro (⟨hk, m, hr⟩ | ⟨keys, hk, list, hl, -⟩)
    · exact ht (hk.exists_mapping hr)
    · have hi : ∀ keys ∈ taskLists,
          (keys.head?.any fun key => (Pointer.index? key).isNone) = true := by decide
      exact ht (exists_mapping_of_at? hl (hi keys hk))

/-- The tasks of a document that are in no other task. -/
inductive IsOuterTask (root : Node) : Pointer → Node → Prop
  | function {es : Object} {name : String} {task : Node}
      (hf : root.at? ["use", "functions"] = some (.mapping es)) (hm : (name, task) ∈ es) :
      IsOuterTask root ["use", "functions", name] task
  | extension {extensions extension list task : Node} {i j : Nat} {name key name' : String}
      (hx : root.at? ["use", "extensions"] = some extensions)
      (he : HasNamed extensions i name extension)
      (hk : key ∈ ["before", "after"]) (hl : extension.get? key = some list)
      (ht : HasNamed list j name' task) :
      IsOuterTask root ["use", "extensions", toString i, name, key, toString j, name'] task
  | document {list task : Node} {i : Nat} {name : String}
      (hl : root.get? "do" = some list) (ht : HasNamed list i name task) :
      IsOuterTask root ["do", toString i, name] task

theorem mem_extensionPointers_iff : q ∈ extensionPointers true n ↔
    ∃ key ∈ ["before", "after"], ∃ list, n.get? key = some list ∧
      ∃ i name task, HasNamed list i name task ∧
        ∃ r ∈ taskPointers true task, q = key :: toString i :: name :: r := by
  rw [extensionPointers, List.mem_flatMap]
  exact exists_congr fun key => and_congr_right fun _ => mem_map_listPointers_iff (key :: ·)

/-- The resources of a document are the schemas of its data models, and those of its tasks. -/
theorem mem_documentPointers_iff : p ∈ documentPointers true root ↔
    (IsModelSlot p ∧ ∃ m, LeadsTo root p m) ∨
      ∃ q task, IsOuterTask root q task ∧ ∃ r ∈ taskPointers true task, p = q ++ r := by
  rw [documentPointers, map_componentPointers, List.mem_append, List.mem_append, List.mem_append,
    mem_modelSchemas_iff, or_assoc, mem_map_listPointers_iff, mem_map_listPointers_iff]
  refine or_congr_right ?_
  simp only [List.mem_map, mem_entryPointers_iff]
  constructor
  · rintro ((⟨_, ⟨es, hf, name, task, hm, r, hr, rfl⟩, rfl⟩ |
      ⟨extensions, hx, i, name, extension, he, q, hq, rfl⟩) |
      ⟨list, hl, i, name, task, ht, r, hr, rfl⟩)
    · exact ⟨_, task, .function hf hm, r, hr, rfl⟩
    · obtain ⟨key, hk, list, hl, j, name', task, ht, r, hr, rfl⟩ := mem_extensionPointers_iff.1 hq
      exact ⟨_, task, .extension hx he hk hl ht, r, hr, rfl⟩
    · exact ⟨_, task, .document hl ht, r, hr, rfl⟩
  · rintro ⟨_, task, ho, r, hr, rfl⟩
    cases ho with
    | function hf hm => exact .inl (.inl ⟨_, ⟨_, hf, _, _, hm, r, hr, rfl⟩, rfl⟩)
    | extension hx he hk hl ht =>
      have hr := mem_extensionPointers_iff.2 ⟨_, hk, _, hl, _, _, _, ht, r, hr, rfl⟩
      exact .inl (.inr ⟨_, hx, _, _, _, he, _, hr, rfl⟩)
    | document hl ht => exact .inr ⟨_, hl, _, _, _, ht, r, hr, rfl⟩

/-! ## Paths and pointers -/

/-- An index needs no escape. -/
theorem itemText_eq (path : String) (i : Nat) (name : String) :
    itemText path i name = path ++ text [toString i, name] := by
  rw [itemText, Pointer.text_cons, Pointer.text_cons, Pointer.text_nil, Pointer.escaped_toString,
    String.append_empty, String.append_assoc, String.append_assoc, String.append_assoc,
    String.append_assoc]

/-- What is written for a named value in a list is the text of the pointer to it. -/
theorem itemText_text (p : Pointer) (i : Nat) (name : String) :
    itemText (text p) i name = text (p ++ [toString i, name]) := by
  rw [itemText_eq, Pointer.text_append]

/-- The keys of slots need no escape. -/
theorem IsModelSlot.plain_eq (h : IsModelSlot keys) : plain keys = text keys := by
  obtain ⟨key, hk, rfl⟩ := h
  simp only [List.mem_cons, List.not_mem_nil, or_false] at hk
  rcases hk with rfl | rfl | rfl <;> rfl

theorem IsTaskSlot.plain_eq (h : IsTaskSlot task keys) : plain keys = text keys := by
  cases h with
  | model hk => exact hk.plain_eq
  | call hc ha => rcases callArgument?_cases ha with rfl | rfl <;> rfl
  | script => rfl

theorem plain_eq_of_taskLists (h : keys ∈ taskLists) : plain keys = text keys := by
  simp only [taskLists, List.mem_cons, List.not_mem_nil, or_false] at h
  rcases h with rfl | rfl | rfl | rfl | rfl <;> rfl

theorem functionText_eq (name : String) :
    "/use/functions/" ++ escaped name = text ["use", "functions", name] := by
  show _ = text (["use", "functions"] ++ [name])
  rw [Pointer.text_append, Pointer.text_cons name, Pointer.text_nil, String.append_empty,
    ← String.append_assoc]
  rfl

theorem extensionText_eq (i j : Nat) (name name' : String) {key : String}
    (hk : key ∈ ["before", "after"]) :
    itemText (itemText "/use/extensions" i name ++ "/" ++ key) j name' =
      text ["use", "extensions", toString i, name, key, toString j, name'] := by
  have hx : "/use/extensions" = text ["use", "extensions"] := rfl
  have hkey : "/" ++ key = text [key] := by
    simp only [List.mem_cons, List.not_mem_nil, or_false] at hk
    rcases hk with rfl | rfl <;> rfl
  rw [String.append_assoc, hkey, hx, itemText_text, ← Pointer.text_append, itemText_text]
  rfl

theorem documentText_eq (i : Nat) (name : String) :
    itemText "/do" i name = text ["do", toString i, name] := itemText_text ["do"] i name

theorem IsOuterTask.visits (h : IsOuterTask root p task) : Visits root (text p) task := by
  cases h with
  | function hf hm =>
    rw [← functionText_eq]
    exact .function hf hm
  | extension hx he hk hl ht =>
    rw [← extensionText_eq _ _ _ _ hk]
    exact .extension hx he hk hl ht
  | document hl ht =>
    rw [← documentText_eq]
    exact .document hl ht

/-! ## Pointers lead back -/

/-- A key of a mapping leads to what stands under it. -/
theorem at?_singleton_of_get? {key : String} (h : n.get? key = some m) : n.at? [key] = some m := by
  cases n with
  | mapping es => exact (Node.at?_singleton _ _).trans h
  | _ => cases h

section

variable (hd : root.distinctKeys = true)
include hd

theorem HasNamed.at?_append (h : HasNamed list i name n) (hp : root.at? p = some list) :
    root.at? (p ++ [toString i, name]) = some n := by
  rw [Node.at?_append, hp, Option.bind_some]
  exact h.at? (Node.distinctKeys_of_at? hd hp)

theorem IsOuterTask.at? (h : IsOuterTask root p task) : root.at? p = some task := by
  cases h with
  | @function es name task hf hm =>
    have hk := (Node.distinctKeys_mapping.1 (Node.distinctKeys_of_at? hd hf)).1
    show root.at? (["use", "functions"] ++ [name]) = _
    rw [Node.at?_append, hf, Option.bind_some]
    exact at?_singleton_of_get? (n := .mapping es) (Entries.get?_of_mem hk hm)
  | @extension extensions extension list task i j name key name' hx he hk hl ht =>
    have hp : root.at? (["use", "extensions"] ++ [toString i, name] ++ [key]) = some list := by
      rw [Node.at?_append, he.at?_append hd hx, Option.bind_some]
      exact at?_singleton_of_get? hl
    exact ht.at?_append hd hp
  | document hl ht => exact ht.at?_append hd (at?_singleton_of_get? hl)

/-- **The text of the path to a task denotes the pointer to it**, and what is found in the task is
found behind this. -/
theorem Visits.exists_pointer (h : Visits root path task) :
    ∃ p, path = text p ∧ root.at? p = some task ∧
      ∀ r ∈ taskPointers true task, p ++ r ∈ documentPointers true root := by
  have outer {p : Pointer} {task : Node} (ho : IsOuterTask root p task) :
      root.at? p = some task ∧ ∀ r ∈ taskPointers true task, p ++ r ∈ documentPointers true root :=
    ⟨ho.at? hd, fun r hr => mem_documentPointers_iff.2 (.inr ⟨p, task, ho, r, hr, rfl⟩)⟩
  induction h with
  | function hf hm => exact ⟨_, functionText_eq _, outer (.function hf hm)⟩
  | extension hx he hk hl ht =>
    exact ⟨_, extensionText_eq _ _ _ _ hk, outer (.extension hx he hk hl ht)⟩
  | document hl ht => exact ⟨_, documentText_eq _ _, outer (.document hl ht)⟩
  | @inside path o list task keys i name ho hk hl ht ih =>
    obtain ⟨p, rfl, hp, hr⟩ := ih
    have hpk : root.at? (p ++ keys) = some list := by
      rw [Node.at?_append, hp, Option.bind_some, hl]
    refine ⟨p ++ keys ++ [toString i, name], ?_, ht.at?_append hd hpk, fun r hm => ?_⟩
    · rw [plain_eq_of_taskLists hk, ← Pointer.text_append, itemText_text]
    · have hq : keys ++ toString i :: name :: r ∈ taskPointers true o :=
        mem_taskPointers_iff.2 (.inr ⟨keys, hk, list, hl, i, name, task, ht, r, hm, rfl⟩)
      simpa using hr _ hq

/-- **What is recorded is written down with the text of a pointer that leads back to it.** -/
theorem Records.exists_pointer (h : Records root path n) :
    ∃ p ∈ documentPointers true root, path = text p ∧ LeadsTo root p n := by
  cases h with
  | document hk hr => exact ⟨_, mem_documentPointers_iff.2 (.inl ⟨hk, _, hr⟩), hk.plain_eq, hr⟩
  | @task path t n keys ht hk hr =>
    obtain ⟨p, rfl, hp, hm⟩ := ht.exists_pointer hd
    refine ⟨p ++ keys, hm _ (mem_taskPointers_iff.2 (.inl ⟨hk, _, hr⟩)), ?_, ?_, hr.endpoint⟩
    · rw [hk.plain_eq, Pointer.text_append]
    · rw [Node.at?_append, hp, Option.bind_some, hr.at?]

end

/-! ## All is recorded -/

theorem Visits.exists_records (h : Visits root path task) (hq : q ∈ taskPointers true task) :
    ∃ m, Records root (path ++ text q) m := by
  induction hd : task.depth using Nat.strongRecOn generalizing path task q with
  | ind d ih =>
    subst hd
    rcases mem_taskPointers_iff.1 hq with
      ⟨hk, m, hr⟩ | ⟨keys, hk, list, hl, i, name, n, hn, r, hr, rfl⟩
    · exact ⟨m, hk.plain_eq ▸ .task h hk hr⟩
    · have hlt : n.depth < task.depth :=
        Nat.lt_of_lt_of_le hn.depth_lt (Node.depth_le_of_at? hl)
      obtain ⟨m, hm⟩ := ih n.depth hlt (h.inside hk hl hn) hr rfl
      have ht : text (keys ++ toString i :: name :: r) =
          plain keys ++ (text [toString i, name] ++ text r) := by
        rw [plain_eq_of_taskLists hk, ← Pointer.text_append, ← Pointer.text_append]
        rfl
      rw [itemText_eq, String.append_assoc, String.append_assoc, ← ht] at hm
      exact ⟨m, hm⟩

theorem exists_records_iff (hd : root.distinctKeys = true) :
    p ∈ documentPointers true root ↔ ∃ m, Records root (text p) m := by
  constructor
  · intro h
    rcases mem_documentPointers_iff.1 h with ⟨hk, m, hr⟩ | ⟨q, task, ho, r, hr, rfl⟩
    · exact ⟨m, hk.plain_eq ▸ .document hk hr⟩
    · rw [Pointer.text_append]
      exact ho.visits.exists_records hr
  · rintro ⟨m, h⟩
    obtain ⟨q, hq, he, -⟩ := h.exists_pointer hd
    rwa [Pointer.text_injective he]

/-! ## Nothing is recorded twice -/

theorem nodup_modelSchema (n : Node) : (modelSchema n).Nodup := by
  rcases modelSchema_cases n with h | h <;> rw [h]
  · exact List.nodup_nil
  · exact List.nodup_singleton _

theorem nodup_optional {g : Node → List Pointer} {n? : Option Node} (h : ∀ n ∈ n?, (g n).Nodup) :
    ((n?.map g).getD []).Nodup := by
  cases n? with
  | none => exact List.nodup_nil
  | some n => exact h n rfl

theorem nodup_entryPointers {n? : Option Node} (hd : ∀ n ∈ n?, n.distinctKeys = true)
    (hf : ∀ n ∈ n?, ∀ m, m.depth < n.depth → m.distinctKeys = true → (f m).Nodup) :
    (entryPointers f n?).Nodup := by
  unfold entryPointers
  split
  · next es =>
    obtain ⟨hk, hv⟩ := Node.distinctKeys_mapping.1 (hd _ rfl)
    refine Pointer.nodup_flatMap (k := Prod.fst) (g := fun e => f e.2) hk fun e he => ?_
    exact hf _ rfl _ (Node.depth_lt_of_mem_mapping he) (hv e he)
  · exact List.nodup_nil

theorem nodup_listPointers {n? : Option Node} (hd : ∀ n ∈ n?, n.distinctKeys = true)
    (hf : ∀ n ∈ n?, ∀ m, m.depth < n.depth → m.distinctKeys = true → (f m).Nodup) :
    (listPointers f n?).Nodup := by
  unfold listPointers
  split
  · next ns =>
    refine Pointer.nodup_flatMap (k := fun a : Node × Nat => toString a.2)
      (g := fun a => entryPointers f (some a.1)) (Pointer.nodup_indices ns) fun a ha => ?_
    have hm := List.fst_mem_of_mem_zipIdx ha
    refine nodup_entryPointers ?_ ?_
    · rintro _ ⟨⟩
      exact Node.distinctKeys_sequence.1 (hd _ rfl) _ hm
    · rintro _ ⟨⟩ m hlt
      exact hf _ rfl m (Nat.lt_trans hlt (Node.depth_lt_of_mem_sequence hm))
  · exact List.nodup_nil

/-- **The pointers into a task are distinct.** -/
theorem nodup_taskPointers (hd : n.distinctKeys = true) : (taskPointers true n).Nodup := by
  induction hdepth : n.depth using Nat.strongRecOn generalizing n with
  | ind d ih =>
    subst hdepth
    cases n with
    | mapping es =>
      refine Pointer.nodup_of_below (deep_taskPointers _).ne_nil fun key => ?_
      have hlist {key : String} (keys : Pointer) (hk : key :: keys ∈ taskLists) :
          (below key (taskPointers true (.mapping es))).Nodup := by
        rw [below_taskPointers_of_list hk]
        refine (nodup_listPointers (fun list hl => Node.distinctKeys_of_at? hd hl)
          fun list hl m hlt hm => ih m.depth ?_ hm rfl).map (List.append_right_injective keys)
        exact Nat.lt_of_lt_of_le hlt (Node.depth_le_of_at? hl)
      have hmodel {key : String} (hk : key ∈ ["input", "output", "export"]) :
          (below key (taskPointers true (.mapping es))).Nodup := by
        rw [below_taskPointers_of_model hk]
        exact nodup_optional fun m _ => nodup_modelSchema m
      by_cases hk : key ∈ taskKeys
      · rcases taskKeys_cases hk with hm | rfl | rfl | ⟨keys, hl⟩
        · exact hmodel hm
        · rcases below_taskPointers_with true es with h | ⟨-, _, _, -, -, h⟩ <;> simp [h]
        · rcases below_taskPointers_run true es with h | ⟨-, h⟩ <;> simp [h]
        · exact hlist keys hl
      · rw [below_taskPointers_of_not_mem hk]
        exact List.nodup_nil
    | _ => exact List.nodup_nil

theorem nodup_extensionPointers (hd : n.distinctKeys = true) :
    (extensionPointers true n).Nodup := by
  refine Pointer.nodup_flatMap (k := id) (by decide) fun key _ => ?_
  refine nodup_listPointers (fun list hl => ?_) fun _ _ m _ hm => nodup_taskPointers hm
  exact Node.distinctKeys_of_at? hd (at?_singleton_of_get? hl)

theorem nodup_componentPointers (hd : n.distinctKeys = true) :
    (componentPointers true n).Nodup := by
  have hc {key : String} (m : Node) (hm : m ∈ n.child? key) : m.distinctKeys = true :=
    Node.distinctKeys_of_at? (p := [key]) hd (by rw [Node.at?_singleton, hm])
  refine Pointer.nodup_of_below (deep_componentPointers n).ne_nil fun key => ?_
  by_cases hf : key = "functions"
  · rw [hf, below_componentPointers_functions]
    exact nodup_entryPointers hc fun _ _ m _ hm => nodup_taskPointers hm
  · by_cases hx : key = "extensions"
    · rw [hx, below_componentPointers_extensions]
      exact nodup_listPointers hc fun _ _ m _ hm => nodup_extensionPointers hm
    · simp [componentPointers, Ne.symm hf, Ne.symm hx]

/-- **The pointers into a document are distinct.** -/
theorem nodup_documentPointers (hd : n.distinctKeys = true) :
    (documentPointers true n).Nodup := by
  cases n with
  | mapping es =>
    have hc {key : String} (m : Node) (hm : m ∈ Entries.get? es key) : m.distinctKeys = true :=
      (Node.distinctKeys_mapping.1 hd).2 _ (Entries.mem_of_get? hm)
    refine Pointer.nodup_of_below (deep_documentPointers _).ne_nil fun key => ?_
    by_cases hk : key ∈ ["input", "output", "export", "use", "do"]
    · by_cases hm : key ∈ ["input", "output", "export"]
      · rw [below_documentPointers_of_model hm]
        exact nodup_optional fun m _ => nodup_modelSchema m
      · simp only [List.mem_cons, List.not_mem_nil, or_false, not_or] at hk hm
        obtain rfl | rfl : key = "use" ∨ key = "do" := by simpa [hm] using hk
        · rw [below_documentPointers_use]
          exact nodup_optional fun m hm => nodup_componentPointers (hc m hm)
        · rw [below_documentPointers_do]
          exact nodup_listPointers hc fun _ _ m _ hm => nodup_taskPointers hm
    · rw [below_documentPointers_of_not_mem hk]
      exact List.nodup_nil
  | _ => exact List.nodup_nil

/-! ## The positions of a document -/

/-- **The texts of the positions are distinct, they are those that are recorded, and each leads back
to the object that it was recorded at**, which holds an endpoint. -/
theorem resourcePositions_exact (hd : n.distinctKeys = true) :
    ((resourcePositions n).map (·.pointer.text)).Nodup ∧
      (∀ s, s ∈ (resourcePositions n).map (·.pointer.text) ↔ ∃ m, Records n s m) ∧
      ∀ s m, Records n s m → n.atText? s = some m ∧ (m.get? "endpoint").isSome = true := by
  have ht : (resourcePositions n).map (·.pointer.text) = (documentPointers true n).map text := by
    rw [← pointers_resourcePositions, pointers_true, List.map_map]
    rfl
  rw [ht]
  refine ⟨(nodup_documentPointers hd).map Pointer.text_injective, fun s => ?_, fun s m h => ?_⟩
  · constructor
    · intro hs
      obtain ⟨p, hp, rfl⟩ := List.mem_map.1 hs
      exact (exists_records_iff hd).1 hp
    · rintro ⟨m, h⟩
      obtain ⟨p, hp, rfl, -⟩ := h.exists_pointer hd
      exact List.mem_map_of_mem hp
  · obtain ⟨p, -, rfl, hr⟩ := h.exists_pointer hd
    rw [Node.atText?_text]
    exact ⟨hr.at?, hr.endpoint⟩

/-- A document with a call whose name has a slash and what looks like an escaped one, and with a
function without a name. -/
def slashedNames : Node :=
  .mapping
    [("use", .mapping [("functions", .mapping [("", .mapping [("run", .mapping [("script", .mapping
        [("source", .mapping [("endpoint", .string "main.js")])])])])])]),
      ("do", .sequence [.mapping [("a/b~1", .mapping [("call", .string "grpc"),
        ("with", .mapping [("proto", .mapping [("endpoint", .string "api.proto")])])])]])]

theorem resourcePositions_exact_slashedNames :
    slashedNames.distinctKeys = true ∧
      (resourcePositions slashedNames).map (·.pointer.text) =
        ["/use/functions//run/script/source", "/do/0/a~1b~01/with/proto"] ∧
      ((resourcePositions slashedNames).map (·.pointer.text)).Nodup ∧
      slashedNames.atText? "/use/functions//run/script/source" =
        some (.mapping [("endpoint", .string "main.js")]) ∧
      slashedNames.atText? "/do/0/a~1b~01/with/proto" =
        some (.mapping [("endpoint", .string "api.proto")]) := by
  have hd : slashedNames.distinctKeys = true := by decide
  obtain ⟨hn, -, hr⟩ := resourcePositions_exact hd
  have hf : Records slashedNames "/use/functions//run/script/source"
      (.mapping [("endpoint", .string "main.js")]) := by
    show Records _ ("/use/functions/" ++ escaped "" ++ plain ["run", "script", "source"]) _
    exact .task (.function rfl (.head _)) .script ⟨rfl, rfl⟩
  have hc : Records slashedNames "/do/0/a~1b~01/with/proto"
      (.mapping [("endpoint", .string "api.proto")]) := by
    show Records _ (itemText "/do" 0 "a/b~1" ++ plain ["with", "proto"]) _
    exact .task (.document rfl (.intro rfl (.head _))) (.call rfl rfl) ⟨rfl, rfl⟩
  exact ⟨hd, by decide, hn, (hr _ _ hf).1, (hr _ _ hc).1⟩

end ResourcePosition

end WorkflowDsl
