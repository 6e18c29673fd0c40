import WorkflowDsl.Proofs.Reader.Inlining
import WorkflowDsl.Proofs.Reader.Position

/-!
# References at the schemas of a document

The references of the external schemas in a tree are found at the pointers into it
(`referencesAt`). Like these they are put together from parts: the references of a task are those of
its data models and of the tasks inside (`taskReferences_mapping`).

Two things follow for trees that are changed at their pointers. What relates the references of each
data model relates all references of a task (`taskReferences_of_differs`). And no change
disturbs what the pointers after it lead to, as long as keys are distinct
(`steady_documentPointers`): the documents that are inlined one after another are those of the
references that the document had at first.
-/

namespace WorkflowDsl

open Pointer (below)

/-- What stands at a pointer through a key stands in what is under it. -/
theorem Node.at?_singleton (n : Node) (key : String) : n.at? [key] = n.child? key :=
  Option.bind_fun_some _

theorem Node.at?_append (n : Node) (p q : Pointer) : n.at? (p ++ q) = (n.at? p).bind (·.at? q) := by
  induction p generalizing n with
  | nil => rfl
  | cons key p ih =>
    show (n.child? key).bind (·.at? (p ++ q)) = ((n.child? key).bind (·.at? p)).bind (·.at? q)
    cases n.child? key with
    | none => rfl
    | some m => exact ih m

theorem Node.depth_lt_of_at? {n m : Node} {key : String} {p : Pointer}
    (h : n.at? (key :: p) = some m) : m.depth < n.depth := by
  obtain ⟨k, hk, h⟩ := Option.bind_eq_some_iff.1 h
  exact Nat.lt_of_le_of_lt (depth_le_of_at? h) (depth_lt_of_child? hk)

namespace ResourcePosition

variable {all : Bool} {n n' v : Node} {es es' : Object} {f : Node → List Pointer}

/-- The references of the resources at the pointers. -/
def referencesAt (ps : List Pointer) (n : Node) : List String :=
  ps.filterMap fun p => (n.at? p).bind resourceUri?

@[simp] theorem referencesAt_nil (n : Node) : referencesAt [] n = [] := rfl

@[simp] theorem referencesAt_append (ps qs : List Pointer) (n : Node) :
    referencesAt (ps ++ qs) n = referencesAt ps n ++ referencesAt qs n := List.filterMap_append

theorem referencesAt_flatMap {α : Type} (as : List α) (g : α → List Pointer) (n : Node) :
    referencesAt (as.flatMap g) n = as.flatMap fun a => referencesAt (g a) n := by
  induction as with
  | nil => rfl
  | cons a as ih => rw [List.flatMap_cons, referencesAt_append, ih, List.flatMap_cons]

theorem referencesAt_map_append (keys : Pointer) (ps : List Pointer) (n : Node) :
    referencesAt (ps.map (keys ++ ·)) n = ((n.at? keys).map (referencesAt ps)).getD [] := by
  rw [referencesAt, List.filterMap_map]
  simp only [Function.comp_def, Node.at?_append]
  cases n.at? keys with
  | none => simp
  | some m => rfl

theorem referencesAt_map_cons (key : String) (ps : List Pointer) (n : Node) :
    referencesAt (ps.map (key :: ·)) n = ((n.child? key).map (referencesAt ps)).getD [] := by
  rw [← Node.at?_singleton]
  exact referencesAt_map_append [key] ps n

/-! ## Data models -/

/-- The reference of the schema of a data model, if it is external. -/
def modelReferences (n : Node) : List String := referencesAt (modelSchema n) n

theorem modelReferences_eq (n : Node) :
    modelReferences n = ((n.at? ["schema", "resource"]).bind resourceUri?).toList := by
  rw [modelReferences, modelSchema]
  split
  · rw [referencesAt, List.filterMap_cons, List.filterMap_nil]
    cases (n.at? ["schema", "resource"]).bind resourceUri? <;> rfl
  · next h =>
    cases hr : n.at? ["schema", "resource"] with
    | none => rfl
    | some x =>
      rw [hr, Option.bind_some, Option.not_isSome_iff_eq_none] at h
      have hx : resourceUri? x = none := by
        show (x.get? "endpoint").bind _ = none
        rw [h]
        rfl
      rw [Option.bind_some, hx]
      rfl

theorem referencesAt_modelSchemas (n : Node) :
    referencesAt (modelSchemas n) n = ["input", "output", "export"].flatMap fun key =>
      ((n.child? key).map modelReferences).getD [] := by
  rw [modelSchemas, referencesAt_flatMap]
  refine List.flatMap_congr fun key _ => ?_
  rw [referencesAt_map_cons]
  cases n.child? key with
  | none => rfl
  | some m => rfl

/-! ## Lists of tasks -/

/-- The references in the values of a mapping stand in each of them. -/
theorem referencesAt_entryPointers (hn : (Entries.keys es).Nodup) :
    referencesAt (entryPointers f (some (.mapping es))) (.mapping es) =
      es.flatMap fun e => referencesAt (f e.2) e.2 := by
  rw [entryPointers, referencesAt_flatMap]
  refine List.flatMap_congr fun e he => ?_
  have hc : (Node.mapping es).child? e.1 = some e.2 := Entries.get?_of_mem hn he
  rw [referencesAt_map_cons, hc]
  rfl

/-- The references in a list of tasks. -/
def listReferences (f : Node → List Pointer) (n : Node) : List String :=
  referencesAt (listPointers f (some n)) n

/-- The references in a list stand in each of its items. -/
theorem listReferences_sequence (ns : List Node) :
    listReferences f (.sequence ns) =
      ns.flatMap fun n => referencesAt (entryPointers f (some n)) n := by
  rw [listReferences, listPointers, referencesAt_flatMap]
  have hi : ∀ a ∈ ns.zipIdx, referencesAt ((entryPointers f (some a.1)).map (toString a.2 :: ·))
      (.sequence ns) = referencesAt (entryPointers f (some a.1)) a.1 := by
    intro a ha
    have hc : (Node.sequence ns).child? (toString a.2) = some a.1 := by
      show (Pointer.index? (toString a.2)).bind (ns[·]?) = some a.1
      rw [Pointer.index?_toString]
      exact List.mk_mem_zipIdx_iff_getElem?.1 ha
    rw [referencesAt_map_cons, hc]
    rfl
  rw [List.flatMap_congr hi]
  conv_rhs => rw [← List.zipIdx_map_fst 0 ns, List.flatMap_map]

/-- The references in a list of named values that is written stand in what each is written as. -/
theorem listReferences_write {α : Type} {c : Codec α} (m : NamedMap α) :
    listReferences f ((Codec.namedMap c).write m) =
      m.values.flatMap fun a => referencesAt (f (c.write a)) (c.write a) := by
  show listReferences f (.sequence (m.entries.map fun e => .mapping [(e.1, c.write e.2)])) = _
  rw [listReferences_sequence, List.flatMap_map, NamedMap.values, Entries.values, List.flatMap_map]
  refine List.flatMap_congr fun e _ => ?_
  have hn : (Entries.keys [(e.1, c.write e.2)]).Nodup := List.nodup_singleton e.1
  rw [referencesAt_entryPointers hn, List.flatMap_singleton]

/-- The references of the schemas of a task and of the tasks inside. -/
def taskReferences (n : Node) : List String := referencesAt (taskPointers false n) n

theorem callPointers_false (n : Node) : callPointers false n = [] :=
  (callPointers_cases false n).resolve_right fun h => absurd h.1 Bool.false_ne_true

theorem scriptPointers_false (n : Node) : scriptPointers false n = [] :=
  (scriptPointers_cases false n).resolve_right fun h => absurd h.1 Bool.false_ne_true

/-- **The references of a task are those of its data models, and those of its lists of tasks.** -/
theorem taskReferences_mapping (es : Object) :
    taskReferences (.mapping es) =
      (["input", "output", "export"].flatMap fun key =>
        ((es.get? key).map modelReferences).getD [])
      ++ taskLists.flatMap fun keys =>
        (((Node.mapping es).at? keys).map (listReferences (taskPointers false))).getD [] := by
  rw [taskReferences, taskPointers_mapping, taskPointersBy, callPointers_false,
    scriptPointers_false, List.append_nil, List.append_nil, referencesAt_append,
    referencesAt_modelSchemas, referencesAt_flatMap]
  refine congrArg _ (List.flatMap_congr fun keys _ => ?_)
  rw [referencesAt_map_append]
  cases (Node.mapping es).at? keys with
  | none => rfl
  | some m => rfl

/-! ## Documents -/

theorem referencesAt_extensionPointers (n : Node) :
    referencesAt (extensionPointers all n) n = ["before", "after"].flatMap fun key =>
      ((n.get? key).map (listReferences (taskPointers all))).getD [] := by
  rw [extensionPointers, referencesAt_flatMap]
  refine List.flatMap_congr fun key _ => ?_
  rw [referencesAt_map_cons]
  cases n with
  | mapping es =>
    show ((Entries.get? es key).map _).getD [] = ((Entries.get? es key).map _).getD []
    cases he : Entries.get? es key with
    | none => rfl
    | some m =>
      have hg : (Node.mapping es).get? key = some m := he
      rw [hg]
      rfl
  | sequence ns =>
    show (((Node.sequence ns).child? key).map (referencesAt [])).getD [] = []
    cases (Node.sequence ns).child? key <;> rfl
  | _ => rfl

theorem referencesAt_componentPointers (n : Node) :
    referencesAt (componentPointers all n) n =
      ((n.child? "functions").map fun m =>
        referencesAt (entryPointers (taskPointers all) (some m)) m).getD []
      ++ ((n.child? "extensions").map (listReferences (extensionPointers all))).getD [] := by
  rw [componentPointers, referencesAt_append, referencesAt_map_cons, referencesAt_map_cons]
  congr 1
  · cases n.child? "functions" <;> rfl
  · cases n.child? "extensions" <;> rfl

/-- The references of the schemas of a document. -/
def documentReferences (n : Node) : List String := referencesAt (documentPointers false n) n

/-- **The references of a document are those of its data models, its components and its tasks.** -/
theorem documentReferences_mapping (es : Object) :
    documentReferences (.mapping es) =
      (["input", "output", "export"].flatMap fun key =>
        ((es.get? key).map modelReferences).getD [])
      ++ ((es.get? "use").map fun m => referencesAt (componentPointers false m) m).getD []
      ++ ((es.get? "do").map (listReferences (taskPointers false))).getD [] := by
  have hc (key : String) : (Node.mapping es).child? key = es.get? key := rfl
  have hg (key : String) : (Node.mapping es).get? key = es.get? key := rfl
  rw [documentReferences, documentPointers, referencesAt_append, referencesAt_append,
    referencesAt_modelSchemas, referencesAt_map_cons, referencesAt_map_cons, hc, hc, hg]
  congr 1
  · congr 1
    cases es.get? "use" <;> rfl
  · cases es.get? "do" <;> rfl

/-! ## Free-form entries -/

/-- The pointers into a free-form entry that is searched: one of a document under the key of an
export, or one of a task under a key under which other tasks have tasks. -/
def searchedPointers (all : Bool) (key : String) (n : Node) : List Pointer :=
  if key = "export" then modelSchema n
  else (listPointers (taskPointers all) (n.child? "do")).map ("do" :: ·)

/-- The references in a free-form entry that is searched. -/
def searchedReferences (key : String) (n : Node) : List String :=
  referencesAt (searchedPointers false key n) n

theorem searchedReferences_of_ne {key : String} (h : key ≠ "export") (n : Node) :
    searchedReferences key n =
      ((n.child? "do").map (listReferences (taskPointers false))).getD [] := by
  rw [searchedReferences, searchedPointers, if_neg h, referencesAt_map_cons]
  cases n.child? "do" <;> rfl

/-! ## References of trees that differ -/

/-- A relation between lists of references that passes from parts to wholes. -/
structure Appends (r : List String → List String → Prop) : Prop where
  nil : r [] []
  append : ∀ {as as' bs bs'}, r as as' → r bs bs' → r (as ++ bs) (as' ++ bs')

section

variable {r : List String → List String → Prop} {α β : Type} {F : α → List String}
  {G : β → List String}

theorem Appends.flatMap (h : Appends r) {s : α → β → Prop} {as : List α} {bs : List β}
    (hs : List.Forall₂ s as bs) (hr : ∀ a b, s a b → r (F a) (G b)) :
    r (as.flatMap F) (bs.flatMap G) := by
  induction hs with
  | nil => exact h.nil
  | cons ha _ ih => exact h.append (hr _ _ ha) ih

theorem Appends.flatMap_self (h : Appends r) {as : List α} {G : α → List String}
    (hr : ∀ a ∈ as, r (F a) (G a)) : r (as.flatMap F) (as.flatMap G) := by
  induction as with
  | nil => exact h.nil
  | cons a as ih =>
    rw [List.forall_mem_cons] at hr
    exact h.append hr.1 (ih hr.2)

theorem Appends.getD (h : Appends r) {s : α → β → Prop} {x : Option α} {y : Option β}
    (hs : Option.Rel s x y) (hr : ∀ a ∈ x, ∀ b, s a b → r (F a) (G b)) :
    r ((x.map F).getD []) ((y.map G).getD []) := by
  cases hs with
  | none => exact h.nil
  | some hs => exact hr _ rfl _ hs

end

section

variable {E : Difference} {ps : List Pointer}

/-- What stands under a key differs at the pointers that stand there. -/
theorem rel_of_entrywise {key : String} (hes : E.Entrywise ps es es')
    (hb : below key ps = ((es.get? key).map f).getD []) :
    Option.Rel (fun v v' => E (f v) v v') (es.get? key) (es'.get? key) := by
  cases hg : es.get? key with
  | none =>
    rw [hes.agree.get?_eq_none.2 hg]
    exact .none
  | some v =>
    obtain ⟨v', hv', he⟩ := hes.values hg
    rw [hb, hg] at he
    rw [hv']
    exact .some he

variable (hE : E.Descends)
include hE

/-- A list of tasks in a part of a task differs at the pointers that stand there. -/
theorem rel_of_child {key : String} (hk : Pointer.index? key = none)
    (h : E ((listPointers f (v.child? key)).map (key :: ·)) v n') :
    Option.Rel (fun m m' => E (listPointers f (some m)) m m') (v.child? key) (n'.child? key) := by
  have hnone (hv : v.child? key = none) : Option.Rel
      (fun m m' => E (listPointers f (some m)) m m') (v.child? key) (n'.child? key) := by
    rw [hv] at h
    rw [hE.nil h, hv]
    exact .none
  cases v with
  | mapping es =>
    obtain ⟨es', rfl, hes⟩ := hE.mapping (Pointer.deep_map_cons key deep_listPointers.ne_nil) h
    refine rel_of_entrywise hes ?_
    have hc : (Node.mapping es).child? key = Entries.get? es key := rfl
    rw [Pointer.below_map_cons, if_pos rfl, hc]
    cases Entries.get? es key <;> rfl
  | sequence ns =>
    refine hnone ?_
    show (Pointer.index? key).bind _ = none
    rw [hk]
    rfl
  | _ => exact hnone rfl

/-- A list of tasks in a task differs at the pointers that stand there. -/
theorem rel_of_taskLists {keys : Pointer} (hk : keys ∈ taskLists)
    (hes : E.Entrywise (taskPointers all (.mapping es)) es es') :
    Option.Rel (fun m m' => E (listPointers (taskPointers all) (some m)) m m')
      ((Node.mapping es).at? keys) ((Node.mapping es').at? keys) := by
  have hl : ∀ keys ∈ taskLists, keys.length = 1 ∨ keys.length = 2 := by decide
  have hi : ∀ keys ∈ taskLists, ∀ k ∈ keys, Pointer.index? k = none := by decide
  rcases hl keys hk with h | h
  · obtain ⟨key, rfl⟩ := List.length_eq_one_iff.1 h
    have ha (fs : Object) : (Node.mapping fs).at? [key] = Entries.get? fs key :=
      Option.bind_fun_some _
    rw [ha, ha]
    refine rel_of_entrywise hes ?_
    rw [below_taskPointers_of_key hk]
    cases Entries.get? es key <;> rfl
  · obtain ⟨key, key', rfl⟩ := List.length_eq_two.1 h
    have ha (fs : Object) :
        (Node.mapping fs).at? [key, key'] = (Entries.get? fs key).bind (·.child? key') :=
      congrArg _ (funext fun m => Option.bind_fun_some _)
    rw [ha, ha]
    cases hg : Entries.get? es key with
    | none =>
      rw [hes.agree.get?_eq_none.2 hg]
      exact .none
    | some v =>
      obtain ⟨v', hv', he⟩ := hes.values hg
      rw [below_taskPointers_of_part hg hk] at he
      rw [hv']
      exact rel_of_child hE (hi _ hk key' (List.mem_cons_of_mem _ List.mem_cons_self)) he

variable (hd : ∀ {ps n n'}, E ps n n' → n.distinctKeys = true)
  {r : List String → List String → Prop} (hr : Appends r)
include hd hr

/-- What relates the references of each item relates those of a list. -/
theorem listReferences_of_differs {g : Node → List Pointer} (hf : ∀ n, Pointer.Deep (f n))
    (ih : ∀ m m' : Node, m.depth < n.depth → E (f m) m m' →
      r (referencesAt (g m) m) (referencesAt (g m') m'))
    (h : E (listPointers f (some n)) n n') : r (listReferences g n) (listReferences g n') := by
  cases n with
  | sequence ns =>
    obtain ⟨ns', rfl, hns⟩ := hE.sequence (fun _ _ => ne_nil_of_mem_entryPointers) h
    have hm : List.Forall₂ (fun m m' => m ∈ ns ∧ E (entryPointers f (some m)) m m') ns ns' :=
      (List.forall₂_and_left _ _).2 ⟨fun _ hm => hm, hns⟩
    rw [listReferences_sequence, listReferences_sequence]
    refine hr.flatMap hm fun m m' ⟨hm, he⟩ => ?_
    cases m with
    | mapping es =>
      have hn := (Node.distinctKeys_mapping.1 (hd he)).1
      obtain ⟨es', rfl, hes⟩ := hE.entries hn (fun e _ => (hf e.2).ne_nil) he
      have hn' : (Entries.keys es').Nodup := hes.keys_eq ▸ hn
      have hes : List.Forall₂ (fun e e' => e ∈ es ∧ e.1 = e'.1 ∧ E (f e.2) e.2 e'.2) es es' :=
        (List.forall₂_and_left _ _).2 ⟨fun _ he => he, hes⟩
      rw [referencesAt_entryPointers hn, referencesAt_entryPointers hn']
      refine hr.flatMap hes fun e e' ⟨hm', _, he⟩ => ih _ _ ?_ he
      exact Nat.lt_trans (Node.depth_lt_of_mem_mapping hm') (Node.depth_lt_of_mem_sequence hm)
    | _ =>
      obtain rfl := hE.nil he
      exact hr.nil
  | _ =>
    obtain rfl := hE.nil h
    exact hr.nil

variable (hm : ∀ {n n' : Node}, E (modelSchema n) n n' → r (modelReferences n) (modelReferences n'))
include hm

/-- **What relates the references of data models relates all references of a task.** -/
theorem taskReferences_of_differs (h : E (taskPointers all n) n n') :
    r (taskReferences n) (taskReferences n') := by
  induction hdepth : n.depth using Nat.strongRecOn generalizing n n' with
  | ind d ih =>
    subst hdepth
    cases n with
    | mapping es =>
      obtain ⟨es', rfl, hes⟩ := hE.mapping (deep_taskPointers _) h
      have hl {m m' : Node} (hd' : m.depth < (Node.mapping es).depth)
          (h : E (listPointers (taskPointers all) (some m)) m m') :
          r (listReferences (taskPointers false) m) (listReferences (taskPointers false) m') :=
        listReferences_of_differs hE hd hr deep_taskPointers
          (fun k k' hk h => ih k.depth (Nat.lt_trans hk hd') h rfl) h
      rw [taskReferences_mapping, taskReferences_mapping]
      refine hr.append (hr.flatMap_self fun key hk => ?_) (hr.flatMap_self fun keys hk => ?_)
      · exact hr.getD (rel_of_entrywise hes (below_taskPointers_of_model hk)) fun _ _ _ => hm
      · refine hr.getD (rel_of_taskLists hE hk hes) fun m hm' m' h => hl ?_ h
        match keys, hk with
        | key :: keys, _ => exact Node.depth_lt_of_at? hm'
    | _ =>
      obtain rfl := hE.nil h
      exact hr.nil

theorem taskListReferences_of_differs (h : E (listPointers (taskPointers all) (some n)) n n') :
    r (listReferences (taskPointers false) n) (listReferences (taskPointers false) n') :=
  listReferences_of_differs hE hd hr deep_taskPointers
    (fun _ _ _ h => taskReferences_of_differs hE hd hr hm h) h

theorem searchedReferences_of_differs {key : String} (h : E (searchedPointers all key n) n n') :
    r (searchedReferences key n) (searchedReferences key n') := by
  by_cases hk : key = "export"
  · subst hk
    exact hm h
  · rw [searchedPointers, if_neg hk] at h
    rw [searchedReferences_of_ne hk, searchedReferences_of_ne hk]
    exact hr.getD (rel_of_child hE (by decide) h) fun m _ m' h =>
      taskListReferences_of_differs hE hd hr hm h

end

/-! ## Edits one after another -/

section

variable {ε : Type} {g : Editor ε} (hg : g.LeadsDown)

theorem steady_modelSchema : g.Steady (modelSchema n) n := by
  rcases modelSchema_cases n with h | h <;> rw [h]
  · exact Editor.steady_nil
  · exact Editor.steady_singleton

include hg

theorem steady_entryPointers (hn : (Entries.keys es).Nodup) (hf : ∀ n, Pointer.Deep (f n))
    (h : ∀ e ∈ es, g.Steady (f e.2) e.2) :
    g.Steady (entryPointers f (some (.mapping es))) (.mapping es) := by
  have hd := Pointer.deep_flatMap fun e (_ : e ∈ es) => Pointer.deep_map_cons e.1 (hf e.2).ne_nil
  refine hg.steady_mapping hd fun {key v} hv => ?_
  have hm := Entries.mem_of_get? hv
  have hb : below key (entryPointers f (some (.mapping es))) = f v :=
    Pointer.below_flatMap_of_mem (k := Prod.fst) (g := fun e => f e.2) hn hm
  rw [hb]
  exact h _ hm

/-- Edits in a list are steady if those in each value of its items are. -/
theorem steady_listPointers (hn : n.distinctKeys = true) (hf : ∀ n, Pointer.Deep (f n))
    (h : ∀ m : Node, m.depth < n.depth → m.distinctKeys = true → g.Steady (f m) m) :
    g.Steady (listPointers f (some n)) n := by
  cases n with
  | sequence ns =>
    refine hg.steady_sequence (fun _ _ => ne_nil_of_mem_entryPointers) fun m hm => ?_
    have hmd := Node.distinctKeys_sequence.1 hn m hm
    cases m with
    | mapping es =>
      obtain ⟨hk, hd⟩ := Node.distinctKeys_mapping.1 hmd
      refine steady_entryPointers hg hk hf fun e he => h _ ?_ (hd e he)
      exact Nat.lt_trans (Node.depth_lt_of_mem_mapping he) (Node.depth_lt_of_mem_sequence hm)
    | _ => exact Editor.steady_nil
  | _ => exact Editor.steady_nil

theorem steady_child {key : String} (hk : Pointer.index? key = none)
    (h : ∀ m, v.child? key = some m → g.Steady (listPointers f (some m)) m) :
    g.Steady ((listPointers f (v.child? key)).map (key :: ·)) v := by
  cases v with
  | mapping es =>
    have hd : Pointer.Deep ((listPointers f ((Node.mapping es).child? key)).map (key :: ·)) :=
      Pointer.deep_map_cons key deep_listPointers.ne_nil
    refine hg.steady_mapping hd fun {k v} hv => ?_
    rw [Pointer.below_map_cons]
    split
    · next hkey =>
      subst hkey
      have hv : (Node.mapping es).child? key = some v := hv
      rw [hv]
      exact h v hv
    · exact Editor.steady_nil
  | sequence ns =>
    have hc : (Node.sequence ns).child? key = none := by
      show (Pointer.index? key).bind _ = none
      rw [hk]
      rfl
    rw [hc]
    exact Editor.steady_nil
  | _ => exact Editor.steady_nil

/-- **Edits in a task are steady**, if its keys are distinct. -/
theorem steady_taskPointers (hn : n.distinctKeys = true) : g.Steady (taskPointers false n) n := by
  induction hd : n.depth using Nat.strongRecOn generalizing n with
  | ind d ih =>
    subst hd
    cases n with
    | mapping es =>
      refine hg.steady_mapping (deep_taskPointers _) fun {key v} hv => ?_
      have hm := Entries.mem_of_get? hv
      have hlt := Node.depth_lt_of_mem_mapping hm
      have hvn := (Node.distinctKeys_mapping.1 hn).2 _ hm
      have hlist {m : Node} (hmn : m.distinctKeys = true) (hmd : m.depth ≤ v.depth) :
          g.Steady (listPointers (taskPointers false) (some m)) m :=
        steady_listPointers hg hmn deep_taskPointers fun k hk hkn =>
          ih k.depth (Nat.lt_trans (Nat.lt_of_lt_of_le hk hmd) hlt) hkn rfl
      have hkey (hk : [key] ∈ taskLists) :
          g.Steady (below key (taskPointers false (.mapping es))) v := by
        rw [below_taskPointers_of_key hk, hv]
        exact hlist hvn (Nat.le_refl _)
      have hpart (key' : String) (hi : Pointer.index? key' = none) (hk : [key, key'] ∈ taskLists) :
          g.Steady (below key (taskPointers false (.mapping es))) v := by
        rw [below_taskPointers_of_part hv hk]
        refine steady_child hg hi fun m hm => ?_
        have ha : v.at? [key'] = some m := (Option.bind_fun_some _).trans hm
        exact hlist (Node.distinctKeys_of_at? hvn ha) (Node.depth_le_of_at? ha)
      have hmodel (hk : key ∈ ["input", "output", "export"]) :
          g.Steady (below key (taskPointers false (.mapping es))) v := by
        rw [below_taskPointers_of_model hk, hv]
        exact steady_modelSchema
      by_cases hk : key ∈ taskKeys
      · rcases taskKeys_cases hk with hm | rfl | rfl | ⟨keys, hl⟩
        · exact hmodel hm
        · rcases below_taskPointers_with false es with h | ⟨h, -⟩
          · rw [h]
            exact Editor.steady_nil
          · cases h
        · rcases below_taskPointers_run false es with h | ⟨h, -⟩
          · rw [h]
            exact Editor.steady_nil
          · cases h
        · obtain rfl | ⟨key', rfl, hi⟩ := taskLists_cases hl
          · exact hkey hl
          · exact hpart key' hi hl
      · rw [below_taskPointers_of_not_mem hk]
        exact Editor.steady_nil
    | _ => exact Editor.steady_nil

theorem steady_taskList (hn : n.distinctKeys = true) :
    g.Steady (listPointers (taskPointers false) (some n)) n :=
  steady_listPointers hg hn deep_taskPointers fun _ _ hm => steady_taskPointers hg hm

theorem steady_extensionPointers (hn : n.distinctKeys = true) :
    g.Steady (extensionPointers false n) n := by
  cases n with
  | mapping es =>
    refine hg.steady_mapping (deep_extensionPointers _) fun {key v} hv => ?_
    by_cases hk : key ∈ ["before", "after"]
    · have hv' : (Node.mapping es).get? key = some v := hv
      rw [below_extensionPointers hk, hv']
      exact steady_taskList hg ((Node.distinctKeys_mapping.1 hn).2 _ (Entries.mem_of_get? hv))
    · have hb : below key (extensionPointers false (.mapping es)) = [] :=
        Pointer.below_flatMap_of_not_mem (k := id) (by simpa using hk)
      rw [hb]
      exact Editor.steady_nil
  | _ => exact Editor.steady_nil

theorem steady_componentPointers (hn : n.distinctKeys = true) :
    g.Steady (componentPointers false n) n := by
  cases n with
  | mapping es =>
    refine hg.steady_mapping (deep_componentPointers _) fun {key v} hv => ?_
    have hv' : (Node.mapping es).child? key = some v := hv
    have hvn := (Node.distinctKeys_mapping.1 hn).2 _ (Entries.mem_of_get? hv)
    by_cases hf : key = "functions"
    · subst hf
      rw [below_componentPointers_functions, hv']
      cases v with
      | mapping fs =>
        obtain ⟨hk, hd⟩ := Node.distinctKeys_mapping.1 hvn
        exact steady_entryPointers hg hk deep_taskPointers fun e he =>
          steady_taskPointers hg (hd e he)
      | _ => exact Editor.steady_nil
    by_cases he : key = "extensions"
    · subst he
      rw [below_componentPointers_extensions, hv']
      exact steady_listPointers hg hvn deep_extensionPointers fun _ _ hm =>
        steady_extensionPointers hg hm
    · have hb : below key (componentPointers false (.mapping es)) = [] := by
        simp [componentPointers, Ne.symm hf, Ne.symm he]
      rw [hb]
      exact Editor.steady_nil
  | _ => exact Editor.steady_nil

/-- **Edits in a document are steady**, if its keys are distinct: no edit changes what the pointers
after it lead to. -/
theorem steady_documentPointers (hn : n.distinctKeys = true) :
    g.Steady (documentPointers false n) n := by
  cases n with
  | mapping es =>
    refine hg.steady_mapping (deep_documentPointers _) fun {key v} hv => ?_
    have hvn := (Node.distinctKeys_mapping.1 hn).2 _ (Entries.mem_of_get? hv)
    by_cases hm : key ∈ ["input", "output", "export"]
    · rw [below_documentPointers_of_model hm, hv]
      exact steady_modelSchema
    by_cases hu : key = "use"
    · subst hu
      rw [below_documentPointers_use, hv]
      exact steady_componentPointers hg hvn
    by_cases hd : key = "do"
    · subst hd
      rw [below_documentPointers_do, hv]
      exact steady_taskList hg hvn
    · have hb : below key (documentPointers false (.mapping es)) = [] := by
        refine below_documentPointers_of_not_mem ?_
        simp only [List.mem_cons, List.not_mem_nil, or_false, not_or] at hm ⊢
        exact ⟨hm.1, hm.2.1, hm.2.2, hu, hd⟩
      rw [hb]
      exact Editor.steady_nil
  | _ => exact Editor.steady_nil

end

end ResourcePosition

end WorkflowDsl
