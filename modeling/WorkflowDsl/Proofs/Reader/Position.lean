import WorkflowDsl.Proofs.Document.Pointer
import WorkflowDsl.Proofs.Reader.Loading

/-!
# Where the resource positions of a document stand

The positions of a document are found by a search that goes down through its tasks, with the path so
far and a bound on the depth. Of these, all or the schemas alone, only where they stand below a task
matters (`taskPointers`): the path is put in front of them, and any bound will do that is above the
depth of the task (`pointers_ofTask`). What a search gives for a document, an extension or a task is
so put together from its parts, and `Pointer.below` tells which parts stand under a key.
-/

namespace WorkflowDsl

open Pointer (below)

theorem Node.depth_lt_of_child? {n m : Node} {key : String} (h : n.child? key = some m) :
    m.depth < n.depth := by
  cases n with
  | mapping es => exact depth_lt_of_mem_mapping (e := (key, m)) (Entries.mem_of_get? h)
  | sequence ns =>
    obtain ⟨i, -, hi⟩ := Option.bind_eq_some_iff.1 h
    exact depth_lt_of_mem_sequence (List.mem_of_getElem? hi)
  | _ => cases h

theorem Node.depth_lt_of_get? {n m : Node} {key : String} (h : n.get? key = some m) :
    m.depth < n.depth := by
  obtain ⟨es, he, hm⟩ := Option.bind_eq_some_iff.1 h
  cases n with
  | mapping fs =>
    obtain rfl := Option.some.inj he
    exact depth_lt_of_mem_mapping (e := (key, m)) (Entries.mem_of_get? hm)
  | _ => cases he

theorem Node.depth_le_of_at? {n m : Node} {p : Pointer} (h : n.at? p = some m) :
    m.depth ≤ n.depth := by
  induction p generalizing n with
  | nil => exact Nat.le_of_eq (congrArg depth (Option.some.inj h).symm)
  | cons key p ih =>
    obtain ⟨k, hk, h⟩ := Option.bind_eq_some_iff.1 h
    exact Nat.le_trans (ih h) (Nat.le_of_lt (depth_lt_of_child? hk))

namespace ResourcePosition

variable {all : Bool} {path : Pointer} {n : Node} {es : Object} {f : Node → List Pointer}
  {inTask : Pointer → Node → List ResourcePosition}

@[simp] theorem pointers_append (ps qs : List ResourcePosition) :
    pointers all (ps ++ qs) = pointers all ps ++ pointers all qs := by
  simp [pointers]

theorem pointers_flatMap {α : Type} (as : List α) (g : α → List ResourcePosition) :
    pointers all (as.flatMap g) = as.flatMap fun a => pointers all (g a) := by
  induction as with
  | nil => rfl
  | cons a as ih => rw [List.flatMap_cons, pointers_append, ih, List.flatMap_cons]

/-! ## Data models -/

/-- The schema of a data model, if it is external. -/
def modelSchema (n : Node) : List Pointer :=
  if ((n.at? ["schema", "resource"]).bind (·.get? "endpoint")).isSome then [["schema", "resource"]]
  else []

theorem modelSchema_cases (n : Node) :
    modelSchema n = [] ∨ modelSchema n = [["schema", "resource"]] := by
  rw [modelSchema]
  split
  · exact .inr rfl
  · exact .inl rfl

/-- A data model that is not a mapping has no external schema. -/
theorem modelSchema_of_ne_mapping (h : ∀ es, n ≠ .mapping es) : modelSchema n = [] := by
  cases n with
  | mapping es => exact absurd rfl (h es)
  | _ => rfl

/-- The external schemas of the data models of a document or task. -/
def modelSchemas (n : Node) : List Pointer :=
  ["input", "output", "export"].flatMap fun key =>
    (((n.child? key).map modelSchema).getD []).map (key :: ·)

theorem pointers_ofDataModels :
    pointers all (ofDataModels path n) = (modelSchemas n).map (path ++ ·) := by
  have hk (key : String) : pointers all (within path n true [key, "schema", "resource"]).toList =
      ((((n.child? key).map modelSchema).getD []).map (key :: ·)).map (path ++ ·) := by
    have ha : n.at? [key, "schema", "resource"] =
        (n.child? key).bind (·.at? ["schema", "resource"]) := rfl
    rw [within, ha]
    cases n.child? key with
    | none => rfl
    | some m =>
      simp only [Option.bind_some, Option.map_some, Option.getD_some, modelSchema]
      split
      · cases all <;> rfl
      · rfl
  have hf (keys : List String) :
      keys.filterMap (fun key => within path n true [key, "schema", "resource"]) =
        keys.flatMap fun key => (within path n true [key, "schema", "resource"]).toList := by
    rw [List.filterMap_eq_flatMap_toList]
  rw [ofDataModels, hf, pointers_flatMap, modelSchemas, List.map_flatMap]
  exact congrArg (List.flatMap · _) (funext hk)

/-! ## Calls and scripts -/

/-- The resource that a call needs, if all resources are looked for. -/
def callPointers (all : Bool) (n : Node) : List Pointer := pointers all (ofCall [] n).toList

/-- The source of a script, if all resources are looked for. -/
def scriptPointers (all : Bool) (n : Node) : List Pointer := pointers all (ofScript [] n).toList

theorem pointers_within {isSchema : Bool} {keys : Pointer} :
    pointers all (within path n isSchema keys).toList =
      (pointers all (within [] n isSchema keys).toList).map (path ++ ·) := by
  rw [within, within]
  split
  · cases all <;> cases isSchema <;> rfl
  · rfl

theorem callArgument?_cases {function key : String} (h : callArgument? function = some key) :
    key = "document" ∨ key = "proto" := by
  rw [callArgument?] at h
  split at h
  · exact .inl (Option.some.inj h).symm
  · split at h
    · exact .inr (Option.some.inj h).symm
    · cases h

theorem ofCall_eq (path : Pointer) (n : Node) :
    ofCall path n = (((n.get? "call").bind Node.string?).bind callArgument?).bind fun key =>
      within path n false ["with", key] := by
  rw [ofCall]
  cases n.get? "call" with
  | none => rfl
  | some m =>
    show m.string?.bind _ = (m.string?.bind _).bind _
    cases m.string? <;> rfl

theorem pointers_ofCall :
    pointers all (ofCall path n).toList = (callPointers all n).map (path ++ ·) := by
  rw [callPointers, ofCall_eq, ofCall_eq]
  cases ((n.get? "call").bind Node.string?).bind callArgument? with
  | none => rfl
  | some key => exact pointers_within

theorem pointers_ofScript :
    pointers all (ofScript path n).toList = (scriptPointers all n).map (path ++ ·) :=
  pointers_within

theorem pointers_within_cases (all : Bool) (n : Node) (keys : Pointer) :
    pointers all (within [] n false keys).toList = [] ∨
      all = true ∧ pointers all (within [] n false keys).toList = [keys] := by
  rw [within]
  split
  · cases all with
    | false => exact .inl rfl
    | true => exact .inr ⟨rfl, rfl⟩
  · exact .inl rfl

/-- The resource of a call is an argument of its function. -/
theorem callPointers_cases (all : Bool) (n : Node) :
    callPointers all n = [] ∨ all = true ∧ ∃ function key,
      n.get? "call" = some (.string function) ∧ callArgument? function = some key ∧
        callPointers all n = [["with", key]] := by
  rw [callPointers, ofCall_eq]
  cases hc : n.get? "call" with
  | none => exact .inl rfl
  | some m =>
    cases m with
    | string function =>
      cases ha : callArgument? function with
      | none =>
        rw [Option.bind_some, Node.string?, Option.bind_some, ha]
        exact .inl rfl
      | some key =>
        rw [Option.bind_some, Node.string?, Option.bind_some, ha, Option.bind_some]
        rcases pointers_within_cases all n ["with", key] with h | ⟨hall, h⟩
        · exact .inl h
        · exact .inr ⟨hall, function, key, rfl, ha, h⟩
    | _ => exact .inl rfl

theorem scriptPointers_cases (all : Bool) (n : Node) :
    scriptPointers all n = [] ∨
      all = true ∧ scriptPointers all n = [["run", "script", "source"]] :=
  pointers_within_cases all n _

theorem below_callPointers_of_ne {key : String} (h : "with" ≠ key) :
    below key (callPointers all n) = [] := by
  obtain hc | ⟨-, _, _, -, -, hc⟩ := callPointers_cases all n <;> simp [hc, below, h]

theorem below_scriptPointers_of_ne {key : String} (h : "run" ≠ key) :
    below key (scriptPointers all n) = [] := by
  obtain hc | ⟨-, hc⟩ := scriptPointers_cases all n <;> simp [hc, below, h]

/-! ## Lists of tasks -/

/-- The pointers into the values of a mapping, where `f` gives those into a value. -/
def entryPointers (f : Node → List Pointer) : Option Node → List Pointer
  | some (.mapping es) => es.flatMap fun (name, n) => (f n).map (name :: ·)
  | _ => []

/-- The pointers into a list of named tasks, where `f` gives those into a task. -/
def listPointers (f : Node → List Pointer) : Option Node → List Pointer
  | some (.sequence ns) =>
    ns.zipIdx.flatMap fun (n, i) => (entryPointers f (some n)).map (toString i :: ·)
  | _ => []

/-- The search gives the pointers that `f` gives, behind the path. -/
def Finds (all : Bool) (inTask : Pointer → Node → List ResourcePosition)
    (f : Node → List Pointer) (n : Node) : Prop :=
  ∀ path, pointers all (inTask path n) = (f n).map (path ++ ·)

section

variable {d : Nat} (h : ∀ m : Node, m.depth < d → Finds all inTask f m)
include h

theorem pointers_ofEntries (n? : Option Node) (hn : ∀ n ∈ n?, n.depth ≤ d) (path : Pointer) :
    pointers all (ofEntries inTask path n?) = (entryPointers f n?).map (path ++ ·) := by
  cases n? with
  | none => rfl
  | some n =>
    cases n with
    | mapping es =>
      rw [ofEntries, entryPointers, pointers_flatMap, List.map_flatMap]
      refine List.flatMap_congr fun e he => ?_
      rw [h e.2 (Nat.lt_of_lt_of_le (Node.depth_lt_of_mem_mapping he) (hn _ rfl))]
      simp
    | _ => rfl

theorem pointers_ofTaskList (n? : Option Node) (hn : ∀ n ∈ n?, n.depth ≤ d) (path : Pointer) :
    pointers all (ofTaskList inTask path n?) = (listPointers f n?).map (path ++ ·) := by
  cases n? with
  | none => rfl
  | some n =>
    cases n with
    | sequence ns =>
      rw [ofTaskList, listPointers, pointers_flatMap, List.map_flatMap]
      refine List.flatMap_congr fun p hp => ?_
      have hd : p.1.depth < (Node.sequence ns).depth :=
        Node.depth_lt_of_mem_sequence (List.fst_mem_of_mem_zipIdx hp)
      dsimp only
      rw [pointers_ofEntries h (some p.1)]
      · simp
      · intro m hm
        obtain rfl := Option.some.inj hm
        exact Nat.le_trans (Nat.le_of_lt hd) (hn _ rfl)
    | _ => rfl

end

/-! ## Tasks -/

/-- The pointers into a task. -/
def taskPointers (all : Bool) (n : Node) : List Pointer := pointers all (ofTask (n.depth + 1) [] n)

/-- The pointers into a task, where `f` gives those into the tasks inside. -/
def taskPointersBy (all : Bool) (f : Node → List Pointer) (n : Node) : List Pointer :=
  modelSchemas n ++ callPointers all n ++ scriptPointers all n
    ++ taskLists.flatMap fun keys => (listPointers f (n.at? keys)).map (keys ++ ·)

theorem pointers_ofTask_mapping {d : Nat} (h : ∀ m : Node, m.depth < d → Finds all (ofTask d) f m)
    (hd : (Node.mapping es).depth ≤ d) (path : Pointer) :
    pointers all (ofTask (d + 1) path (.mapping es)) =
      (taskPointersBy all f (.mapping es)).map (path ++ ·) := by
  have hl (keys : Pointer) := pointers_ofTaskList h ((Node.mapping es).at? keys)
    (fun _ hm => Nat.le_trans (Node.depth_le_of_at? hm) hd) (path ++ keys)
  rw [ofTask, taskPointersBy]
  simp only [pointers_append, pointers_ofDataModels, pointers_ofCall, pointers_ofScript,
    pointers_flatMap, List.map_append, List.map_flatMap, hl, List.map_map]
  simp [Function.comp_def]

/-- **Any bound above the depth of a task finds what is in it**, wherever the task stands. -/
theorem pointers_ofTask {d : Nat} (h : n.depth < d) :
    Finds all (ofTask d) (taskPointers all) n := by
  induction d using Nat.strongRecOn generalizing n with
  | ind d ih =>
    obtain ⟨d, rfl⟩ := Nat.exists_eq_succ_of_ne_zero (Nat.ne_zero_of_lt h)
    intro path
    cases n with
    | mapping es =>
      have hle := Nat.le_of_lt_succ h
      have hs := pointers_ofTask_mapping (fun _ hm => ih d (Nat.lt_succ_self d) hm) hle path
      have h0 := pointers_ofTask_mapping (fun _ hm => ih _ h hm) (Nat.le_refl _) []
      rw [hs, taskPointers, h0]
      simp
    | _ => rfl

theorem taskPointers_mapping :
    taskPointers all (.mapping es) = taskPointersBy all (taskPointers all) (.mapping es) := by
  rw [taskPointers, pointers_ofTask_mapping (fun _ hm => pointers_ofTask hm) (Nat.le_refl _)]
  simp

/-! ## Documents -/

/-- The pointers into the tasks of an extension. -/
def extensionPointers (all : Bool) (n : Node) : List Pointer :=
  ["before", "after"].flatMap fun key =>
    (listPointers (taskPointers all) (n.get? key)).map (key :: ·)

/-- The pointers into the tasks of components. -/
def componentPointers (all : Bool) (n : Node) : List Pointer :=
  (entryPointers (taskPointers all) (n.child? "functions")).map ("functions" :: ·)
    ++ (listPointers (extensionPointers all) (n.child? "extensions")).map ("extensions" :: ·)

/-- The pointers into a document. -/
def documentPointers (all : Bool) (n : Node) : List Pointer :=
  modelSchemas n ++ (((n.child? "use").map (componentPointers all)).getD []).map ("use" :: ·)
    ++ (listPointers (taskPointers all) (n.get? "do")).map ("do" :: ·)

theorem pointers_ofExtension {d : Nat} (hd : n.depth ≤ d) :
    Finds all (ofExtension (ofTask d)) (extensionPointers all) n := by
  intro path
  have ht (m : Node) (hm : m.depth < d) : Finds all (ofTask d) (taskPointers all) m :=
    pointers_ofTask hm
  have hl (key : String) := pointers_ofTaskList ht (n.get? key)
    (fun m hm => Nat.le_trans (Nat.le_of_lt (Node.depth_lt_of_get? hm)) hd) (path ++ [key])
  rw [ofExtension, extensionPointers]
  simp only [pointers_flatMap, hl, List.map_flatMap, List.map_map]
  simp [Function.comp_def]

/-- The pointers into components stand under the key of these. -/
theorem map_componentPointers (n : Node) :
    (((n.child? "use").map (componentPointers all)).getD []).map ("use" :: ·) =
      (entryPointers (taskPointers all) (n.at? ["use", "functions"])).map
          (["use", "functions"] ++ ·)
        ++ (listPointers (extensionPointers all) (n.at? ["use", "extensions"])).map
          (["use", "extensions"] ++ ·) := by
  have ha (key : String) : n.at? ["use", key] = (n.child? "use").bind (·.child? key) :=
    congrArg _ (funext fun m => Option.bind_fun_some _)
  rw [ha, ha]
  cases n.child? "use" with
  | none => rfl
  | some m =>
    show (componentPointers all m).map _ = _
    rw [componentPointers, List.map_append, List.map_map, List.map_map]
    rfl

theorem pointers_resourcePositions :
    pointers all (resourcePositions n) = documentPointers all n := by
  have ht (m : Node) (hm : m.depth < n.depth + 1) :
      Finds all (ofTask (n.depth + 1)) (taskPointers all) m := pointers_ofTask hm
  have hx (m : Node) (hm : m.depth < n.depth + 1) :
      Finds all (ofExtension (ofTask (n.depth + 1))) (extensionPointers all) m :=
    pointers_ofExtension (Nat.le_of_lt hm)
  have ha {keys : Pointer} (m : Node) (hm : m ∈ n.at? keys) : m.depth ≤ n.depth + 1 :=
    Nat.le_succ_of_le (Node.depth_le_of_at? hm)
  have hg (m : Node) (hm : m ∈ n.get? "do") : m.depth ≤ n.depth + 1 :=
    Nat.le_succ_of_le (Nat.le_of_lt (Node.depth_lt_of_get? hm))
  rw [resourcePositions, documentPointers, map_componentPointers]
  simp only [pointers_append, pointers_ofDataModels, pointers_ofEntries ht _ ha,
    pointers_ofTaskList hx _ ha, pointers_ofTaskList ht _ hg]
  simp

/-! ## Below a key -/

theorem below_modelSchemas (es : Object) {key : String} (h : key ∈ ["input", "output", "export"]) :
    below key (modelSchemas (.mapping es)) = ((es.get? key).map modelSchema).getD [] :=
  Pointer.below_flatMap_of_mem (k := id) (by decide) h

theorem below_modelSchemas_of_not_mem {key : String} (h : key ∉ ["input", "output", "export"]) :
    below key (modelSchemas n) = [] :=
  Pointer.below_flatMap_of_not_mem (k := id) (by simpa using h)

theorem below_taskPointers (key : String) :
    below key (taskPointers all (.mapping es)) =
      below key (modelSchemas (.mapping es)) ++ below key (callPointers all (.mapping es))
        ++ below key (scriptPointers all (.mapping es))
        ++ taskLists.flatMap fun keys => below key
          ((listPointers (taskPointers all) ((Node.mapping es).at? keys)).map (keys ++ ·)) := by
  rw [taskPointers_mapping, taskPointersBy, Pointer.below_append, Pointer.below_append,
    Pointer.below_append, Pointer.below_flatMap]

/-- Under the key of a data model of a task stands its schema. -/
theorem below_taskPointers_of_model {key : String} (h : key ∈ ["input", "output", "export"]) :
    below key (taskPointers all (.mapping es)) = ((es.get? key).map modelSchema).getD [] := by
  have hd : ∀ key ∈ ["input", "output", "export"], "with" ≠ key ∧ "run" ≠ key := by decide
  rw [below_taskPointers, below_modelSchemas es h, below_callPointers_of_ne (hd key h).1,
    below_scriptPointers_of_ne (hd key h).2]
  simp only [List.mem_cons, List.not_mem_nil, or_false] at h
  rcases h with rfl | rfl | rfl <;> simp [taskLists]

/-- Under the first key of a list of tasks stands that list. -/
theorem below_taskPointers_of_list {key : String} {keys : Pointer} (h : key :: keys ∈ taskLists) :
    below key (taskPointers all (.mapping es)) =
      (listPointers (taskPointers all) ((Node.mapping es).at? (key :: keys))).map (keys ++ ·) := by
  have hd : ∀ keys ∈ taskLists, ∀ key ∈ keys.head?,
      key ∉ ["input", "output", "export"] ∧ "with" ≠ key ∧ "run" ≠ key := by decide
  obtain ⟨hm, hw, hr⟩ := hd _ h key rfl
  rw [below_taskPointers, below_modelSchemas_of_not_mem hm, below_callPointers_of_ne hw,
    below_scriptPointers_of_ne hr]
  simp only [taskLists, List.mem_cons, List.cons.injEq, List.not_mem_nil, or_false] at h
  rcases h with ⟨rfl, rfl⟩ | ⟨rfl, rfl⟩ | ⟨rfl, rfl⟩ | ⟨rfl, rfl⟩ | ⟨rfl, rfl⟩ <;> simp [taskLists]

theorem below_taskLists_of_not_mem {key : String}
    (h : key ∉ ["do", "try", "fork", "catch", "foreach"]) :
    (taskLists.flatMap fun keys =>
      below key ((listPointers (taskPointers all) ((Node.mapping es).at? keys)).map (keys ++ ·))) =
        [] := by
  simp only [List.mem_cons, List.not_mem_nil, or_false, not_or] at h
  obtain ⟨hd, ht, hf, hc, he⟩ := h
  simp [taskLists, Ne.symm hd, Ne.symm ht, Ne.symm hf, Ne.symm hc, Ne.symm he]

/-- The keys of a task under which there may be resources. -/
def taskKeys : List String :=
  ["input", "output", "export", "with", "run", "do", "try", "fork", "catch", "foreach"]

/-- Such a key is that of a data model, of the arguments of a call, of a process or of tasks. -/
theorem taskKeys_cases {key : String} (h : key ∈ taskKeys) :
    key ∈ ["input", "output", "export"] ∨ key = "with" ∨ key = "run" ∨
      ∃ keys, key :: keys ∈ taskLists := by
  simp only [taskKeys, List.mem_cons, List.not_mem_nil, or_false] at h
  rcases h with rfl | rfl | rfl | rfl | rfl | rfl | rfl | rfl | rfl | rfl
  · exact .inl (by decide)
  · exact .inl (by decide)
  · exact .inl (by decide)
  · exact .inr (.inl rfl)
  · exact .inr (.inr (.inl rfl))
  · exact .inr (.inr (.inr ⟨[], by decide⟩))
  · exact .inr (.inr (.inr ⟨[], by decide⟩))
  · exact .inr (.inr (.inr ⟨["branches"], by decide⟩))
  · exact .inr (.inr (.inr ⟨["do"], by decide⟩))
  · exact .inr (.inr (.inr ⟨["do"], by decide⟩))

/-- A list of tasks stands under its key, or under one more. -/
theorem taskLists_cases {key : String} {keys : Pointer} (h : key :: keys ∈ taskLists) :
    keys = [] ∨ ∃ key', keys = [key'] ∧ Pointer.index? key' = none := by
  simp only [taskLists, List.mem_cons, List.cons.injEq, List.not_mem_nil, or_false] at h
  rcases h with ⟨-, rfl⟩ | ⟨-, rfl⟩ | ⟨-, rfl⟩ | ⟨-, rfl⟩ | ⟨-, rfl⟩
  · exact .inl rfl
  · exact .inl rfl
  · exact .inr ⟨_, rfl, by decide⟩
  · exact .inr ⟨_, rfl, by decide⟩
  · exact .inr ⟨_, rfl, by decide⟩

/-- There is nothing to be found under the other keys of a task. -/
theorem below_taskPointers_of_not_mem {key : String} (h : key ∉ taskKeys) :
    below key (taskPointers all (.mapping es)) = [] := by
  simp only [taskKeys, List.mem_cons, List.not_mem_nil, or_false, not_or] at h
  obtain ⟨hi, ho, he, hw, hr, hl⟩ := h
  rw [below_taskPointers, below_modelSchemas_of_not_mem (by simp [hi, ho, he]),
    below_callPointers_of_ne (Ne.symm hw), below_scriptPointers_of_ne (Ne.symm hr),
    below_taskLists_of_not_mem (by simpa using hl)]
  rfl

/-- Under the key of the arguments of a call stands the one that its function needs. -/
theorem below_taskPointers_with (all : Bool) (es : Object) :
    below "with" (taskPointers all (.mapping es)) = [] ∨ all = true ∧ ∃ function key,
      es.get? "call" = some (.string function) ∧ callArgument? function = some key ∧
        below "with" (taskPointers all (.mapping es)) = [[key]] := by
  have hb : below "with" (taskPointers all (.mapping es)) =
      below "with" (callPointers all (.mapping es)) := by
    rw [below_taskPointers, below_modelSchemas_of_not_mem (by decide),
      below_scriptPointers_of_ne (by decide), below_taskLists_of_not_mem (by decide),
      List.nil_append, List.append_nil, List.append_nil]
  rw [hb]
  obtain h | ⟨hall, function, key, hc, ha, h⟩ := callPointers_cases all (.mapping es)
  · exact .inl (by rw [h, Pointer.below_nil])
  · refine .inr ⟨hall, function, key, hc, ha, ?_⟩
    rw [h, Pointer.below_cons_self, Pointer.below_nil]

/-- Under the key of a process stands the source of a script. -/
theorem below_taskPointers_run (all : Bool) (es : Object) :
    below "run" (taskPointers all (.mapping es)) = [] ∨
      all = true ∧ below "run" (taskPointers all (.mapping es)) = [["script", "source"]] := by
  have hb : below "run" (taskPointers all (.mapping es)) =
      below "run" (scriptPointers all (.mapping es)) := by
    rw [below_taskPointers, below_modelSchemas_of_not_mem (by decide),
      below_callPointers_of_ne (by decide), below_taskLists_of_not_mem (by decide),
      List.nil_append, List.nil_append, List.append_nil]
  rw [hb]
  obtain h | ⟨hall, h⟩ := scriptPointers_cases all (.mapping es)
  · exact .inl (by rw [h, Pointer.below_nil])
  · exact .inr ⟨hall, by rw [h, Pointer.below_cons_self, Pointer.below_nil]⟩

/-- Under the key of a list of tasks of an extension stands that list. -/
theorem below_extensionPointers {key : String} (h : key ∈ ["before", "after"]) :
    below key (extensionPointers all n) = listPointers (taskPointers all) (n.get? key) :=
  Pointer.below_flatMap_of_mem (k := id) (by decide) h

/-- Under the key of the functions stand these. -/
theorem below_componentPointers_functions :
    below "functions" (componentPointers all n) =
      entryPointers (taskPointers all) (n.child? "functions") := by
  simp [componentPointers]

/-- Under the key of the extensions stand these. -/
theorem below_componentPointers_extensions :
    below "extensions" (componentPointers all n) =
      listPointers (extensionPointers all) (n.child? "extensions") := by
  simp [componentPointers]

/-- Under the key of a data model of a document stands its schema. -/
theorem below_documentPointers_of_model {key : String} (h : key ∈ ["input", "output", "export"]) :
    below key (documentPointers all (.mapping es)) = ((es.get? key).map modelSchema).getD [] := by
  rw [documentPointers]
  simp only [Pointer.below_append, below_modelSchemas es h]
  simp only [List.mem_cons, List.not_mem_nil, or_false] at h
  rcases h with rfl | rfl | rfl <;> simp

/-- Under the key of the components of a document stand these. -/
theorem below_documentPointers_use :
    below "use" (documentPointers all (.mapping es)) =
      ((es.get? "use").map (componentPointers all)).getD [] := by
  have hm : below "use" (modelSchemas (.mapping es)) = [] :=
    below_modelSchemas_of_not_mem (by decide)
  have hc : (Node.mapping es).child? "use" = es.get? "use" := rfl
  rw [documentPointers, hc]
  simp [hm]

/-- Under the key of the tasks of a document stand these. -/
theorem below_documentPointers_do :
    below "do" (documentPointers all (.mapping es)) =
      listPointers (taskPointers all) (es.get? "do") := by
  have hm : below "do" (modelSchemas (.mapping es)) = [] :=
    below_modelSchemas_of_not_mem (by decide)
  have hg : (Node.mapping es).get? "do" = es.get? "do" := rfl
  rw [documentPointers, hg]
  simp [hm]

/-- There is nothing to be found under the other keys of a document. -/
theorem below_documentPointers_of_not_mem {key : String}
    (h : key ∉ ["input", "output", "export", "use", "do"]) :
    below key (documentPointers all (.mapping es)) = [] := by
  simp only [List.mem_cons, List.not_mem_nil, or_false, not_or] at h
  obtain ⟨hi, ho, he, hu, hd⟩ := h
  have hm : below key (modelSchemas (.mapping es)) = [] :=
    below_modelSchemas_of_not_mem (by simp [hi, ho, he])
  simp [documentPointers, hm, Ne.symm hu, Ne.symm hd]

/-! ## Depth -/

theorem deep_modelSchema (n : Node) : Pointer.Deep (modelSchema n) := by
  rcases modelSchema_cases n with h | h <;> rw [h]
  · exact Pointer.deep_nil
  · exact fun p hp => List.mem_singleton.1 hp ▸ Nat.lt_succ_self 1

theorem deep_modelSchemas (n : Node) : Pointer.Deep (modelSchemas n) := by
  refine Pointer.deep_flatMap fun key _ => Pointer.deep_map_cons key ?_
  cases n.child? key with
  | none => exact Pointer.deep_nil.ne_nil
  | some m => exact (deep_modelSchema m).ne_nil

theorem ne_nil_of_mem_entryPointers {n? : Option Node} : ∀ p ∈ entryPointers f n?, p ≠ [] := by
  intro p hp
  unfold entryPointers at hp
  split at hp
  · obtain ⟨e, -, hp⟩ := List.mem_flatMap.1 hp
    obtain ⟨q, -, rfl⟩ := List.mem_map.1 hp
    exact List.cons_ne_nil _ _
  · cases hp

theorem deep_listPointers {n? : Option Node} : Pointer.Deep (listPointers f n?) := by
  unfold listPointers
  split
  · exact Pointer.deep_flatMap fun e _ => Pointer.deep_map_cons _ ne_nil_of_mem_entryPointers
  · exact Pointer.deep_nil

theorem deep_callPointers : Pointer.Deep (callPointers all n) := by
  obtain h | ⟨-, _, _, -, -, h⟩ := callPointers_cases all n
  · rw [h]
    exact Pointer.deep_nil
  · rw [h]
    exact fun p hp => List.mem_singleton.1 hp ▸ Nat.lt_succ_self 1

theorem deep_scriptPointers : Pointer.Deep (scriptPointers all n) := by
  obtain h | ⟨-, h⟩ := scriptPointers_cases all n
  · rw [h]
    exact Pointer.deep_nil
  · rw [h]
    exact fun p hp => List.mem_singleton.1 hp ▸ Nat.lt_succ_of_lt (Nat.lt_succ_self 1)

theorem deep_taskPointers (n : Node) : Pointer.Deep (taskPointers all n) := by
  cases n with
  | mapping es =>
    rw [taskPointers_mapping]
    exact (((deep_modelSchemas _).append deep_callPointers).append deep_scriptPointers).append
      (Pointer.deep_flatMap fun keys _ => deep_listPointers.map_append keys)
  | _ => exact Pointer.deep_nil

theorem deep_extensionPointers (n : Node) : Pointer.Deep (extensionPointers all n) :=
  Pointer.deep_flatMap fun key _ => Pointer.deep_map_cons key deep_listPointers.ne_nil

theorem deep_componentPointers (n : Node) : Pointer.Deep (componentPointers all n) :=
  (Pointer.deep_map_cons _ ne_nil_of_mem_entryPointers).append
    (Pointer.deep_map_cons _ deep_listPointers.ne_nil)

theorem deep_documentPointers (n : Node) : Pointer.Deep (documentPointers all n) := by
  refine ((deep_modelSchemas n).append (Pointer.deep_map_cons _ ?_)).append
    (Pointer.deep_map_cons _ deep_listPointers.ne_nil)
  cases n.child? "use" with
  | none => exact Pointer.deep_nil.ne_nil
  | some m => exact (deep_componentPointers m).ne_nil

/-! ## Lists under the keys of a task -/

theorem deep_below_taskPointers {key : String} (keys : Pointer) (h : key :: keys ∈ taskLists) :
    Pointer.Deep (below key (taskPointers all (.mapping es))) := by
  rw [below_taskPointers_of_list h]
  exact deep_listPointers.map_append keys

/-- A list of tasks under a key of a task. -/
theorem below_taskPointers_of_key {key : String} (h : [key] ∈ taskLists) :
    below key (taskPointers all (.mapping es)) =
      listPointers (taskPointers all) (es.get? key) := by
  have ha : (Node.mapping es).at? [key] = es.get? key := Option.bind_fun_some _
  rw [below_taskPointers_of_list h, ha]
  exact List.map_id' _

/-- Below the key of a part of a task stands a list of tasks, and nothing else. -/
theorem below_taskPointers_of_part {key key' : String} {n : Node} (hn : es.get? key = some n)
    (h : [key, key'] ∈ taskLists) :
    below key (taskPointers all (.mapping es)) =
      (listPointers (taskPointers all) (n.child? key')).map (key' :: ·) := by
  have ha : (Node.mapping es).at? [key, key'] = n.child? key' := by
    show (es.get? key).bind _ = _
    rw [hn]
    exact Option.bind_fun_some _
  rw [below_taskPointers_of_list h, ha]
  rfl

/-- A list of tasks under a key of a part of a task. -/
theorem below_taskPointers_of_keys {key key' : String} {n : Node} (hn : es.get? key = some n)
    (h : [key, key'] ∈ taskLists) :
    below key' (below key (taskPointers all (.mapping es))) =
      listPointers (taskPointers all) (n.child? key') := by
  rw [below_taskPointers_of_part hn h, Pointer.below_map_cons, if_pos rfl]

end ResourcePosition

end WorkflowDsl
