import WorkflowDsl.Proofs.Document.Texts
import WorkflowDsl.Proofs.Reader.Position

/-!
# Positions do not depend on texts

Where the external resources of a document stand is a matter of its keys, and of the functions that
are called. So no position is lost, and none is won, when texts are blanked that are no functions
(`documentPointers_blanked`), and hence when URIs are replaced
(`documentPointers_rebaseResources`).
-/

namespace WorkflowDsl

namespace Node

/-- A blanked value under a key. A text under `call` stays. -/
def keepCall (key : String) (v blanked : Node) : Node :=
  match v with
  | string s => if key = "call" then string s else blanked
  | _ => blanked

mutual

/-- The tree without its texts, but those under `call`. -/
def blanked : Node → Node
  | string _ => null
  | sequence items => sequence (blankedItems items)
  | mapping entries => mapping (blankedEntries entries)
  | n => n

def blankedItems : List Node → List Node
  | [] => []
  | n :: ns => n.blanked :: blankedItems ns

def blankedEntries : List (String × Node) → List (String × Node)
  | [] => []
  | (k, v) :: es => (k, keepCall k v v.blanked) :: blankedEntries es

end

/-- What is left of a value under a key. -/
def blankedUnder (key : String) (v : Node) : Node := keepCall key v v.blanked

theorem blankedUnder_of_ne {key : String} (h : key ≠ "call") (v : Node) :
    blankedUnder key v = v.blanked := by
  cases v with
  | string s => exact if_neg h
  | _ => rfl

@[simp] theorem blanked_sequence (ns : List Node) :
    (sequence ns).blanked = sequence (ns.map blanked) := by
  show sequence (blankedItems ns) = _
  congr 1
  induction ns with
  | nil => rfl
  | cons n ns ih => rw [blankedItems, ih, List.map_cons]

@[simp] theorem blanked_mapping (es : Object) :
    (mapping es).blanked = mapping (es.map fun e => (e.1, blankedUnder e.1 e.2)) := by
  show mapping (blankedEntries es) = _
  congr 1
  induction es with
  | nil => rfl
  | cons e es ih =>
    obtain ⟨k, v⟩ := e
    rw [blankedEntries, ih, List.map_cons]
    rfl

/-- A value is blanked, or is a text that stays. -/
theorem blankedUnder_cases (key : String) (v : Node) :
    blankedUnder key v = v ∨ blankedUnder key v = v.blanked := by
  by_cases hk : key = "call"
  · cases v with
    | string s => exact .inl (if_pos hk)
    | _ => exact .inr rfl
  · exact .inr (blankedUnder_of_ne hk v)

/-! ## What stands in blanked trees -/

theorem get?_blanked (n : Node) (key : String) :
    n.blanked.get? key = (n.get? key).map (blankedUnder key) := by
  cases n with
  | mapping es =>
    rw [blanked_mapping]
    show Entries.get? (es.map fun e => (e.1, blankedUnder e.1 e.2)) key =
      (Entries.get? es key).map (blankedUnder key)
    induction es with
    | nil => rfl
    | cons e es ih =>
      rw [List.map_cons, Entries.get?_cons, Entries.get?_cons, ih]
      by_cases hk : e.1 = key
      · rw [if_pos hk, if_pos hk, hk, Option.map_some]
      · rw [if_neg hk, if_neg hk]
  | sequence ns =>
    rw [blanked_sequence]
    rfl
  | _ => rfl

theorem child?_blanked {key : String} (hk : key ≠ "call") (n : Node) :
    n.blanked.child? key = (n.child? key).map blanked := by
  cases n with
  | mapping es =>
    have h := get?_blanked (mapping es) key
    rw [blanked_mapping, funext (blankedUnder_of_ne hk)] at h
    rw [blanked_mapping]
    exact h
  | sequence ns =>
    rw [blanked_sequence]
    show (Pointer.index? key).bind ((ns.map blanked)[·]?) =
      ((Pointer.index? key).bind (ns[·]?)).map blanked
    rw [Option.map_bind]
    exact congrArg _ (funext fun i => List.getElem?_map)
  | _ => rfl

theorem at?_blanked {p : Pointer} (hp : "call" ∉ p) (n : Node) :
    n.blanked.at? p = (n.at? p).map blanked := by
  induction p generalizing n with
  | nil => rfl
  | cons key p ih =>
    rw [List.mem_cons, not_or] at hp
    show (n.blanked.child? key).bind (at? p) = ((n.child? key).bind (at? p)).map blanked
    rw [child?_blanked (Ne.symm hp.1), Option.bind_map, Option.map_bind]
    exact congrArg _ (funext (ih hp.2))

/-! ## Changes of texts -/

variable {f : Node → Node}

/-- A change that is not seen in blanked trees, under whatever key. -/
def KeepsBlanked (f : Node → Node) : Prop := ∀ key n, blankedUnder key (f n) = blankedUnder key n

theorem KeepsBlanked.blanked_eq (h : KeepsBlanked f) (n : Node) : (f n).blanked = n.blanked := by
  have hn := h "" n
  rwa [blankedUnder_of_ne (by decide), blankedUnder_of_ne (by decide)] at hn

/-- It is enough that the change is not seen under the key where it is made. -/
theorem keepsBlanked_modifyAt_cons {key : String} {p : Pointer}
    (hk : ∀ v : Node, blankedUnder key (v.modifyAt f p) = blankedUnder key v)
    (h : ∀ v : Node, (v.modifyAt f p).blanked = v.blanked) :
    KeepsBlanked (modifyAt f (key :: p)) := by
  intro k n
  rcases modifyAt_cons_cases key n with hm | ⟨as, v, bs, rfl, hm⟩ | ⟨as, v, bs, rfl, hm⟩
  · rw [hm]
  · rw [hm]
    show (mapping _).blanked = (mapping _).blanked
    rw [blanked_mapping, blanked_mapping, List.map_append, List.map_append, List.map_cons,
      List.map_cons, hk]
  · rw [hm]
    show (sequence _).blanked = (sequence _).blanked
    rw [blanked_sequence, blanked_sequence, List.map_append, List.map_append, List.map_cons,
      List.map_cons, h]

theorem keepsBlanked_modifyAt_singleton {key : String} (hk : key ≠ "call")
    (h : ∀ v, (f v).blanked = v.blanked) : KeepsBlanked (modifyAt f [key]) := by
  refine keepsBlanked_modifyAt_cons (fun v => ?_) h
  rw [blankedUnder_of_ne hk, blankedUnder_of_ne hk]
  exact h v

theorem KeepsBlanked.modifyAt (h : KeepsBlanked f) (p : Pointer) : KeepsBlanked (modifyAt f p) := by
  induction p with
  | nil => exact h
  | cons key p ih => exact keepsBlanked_modifyAt_cons (ih key) ih.blanked_eq

end Node

open Node

theorem blanked_modifyText (f : String → String) (n : Node) :
    (n.modifyText f).blanked = n.blanked := by
  cases n <;> rfl

/-- The URI of a resource is no name of a function. -/
theorem keepsBlanked_rebaseResource (f : String → String) : KeepsBlanked (rebaseResource f) := by
  refine keepsBlanked_modifyAt_singleton (by decide) fun endpoint => ?_
  cases endpoint with
  | mapping es =>
    have hu : KeepsBlanked (Node.modifyAt (Node.modifyText f) ["uri"]) :=
      keepsBlanked_modifyAt_singleton (by decide) (blanked_modifyText f)
    exact hu.blanked_eq _
  | _ => exact blanked_modifyText f _

theorem blanked_rebaseResources (rebase : String → Option String) (n : Node) :
    (rebaseResources rebase n).blanked = n.blanked := by
  rw [rebaseResources]
  generalize resourcePositions n = ps
  induction ps generalizing n with
  | nil => rfl
  | cons p ps ih =>
    rw [List.foldl_cons, ih]
    exact ((keepsBlanked_rebaseResource _).modifyAt p.pointer).blanked_eq n

/-! ## Positions in blanked trees -/

namespace ResourcePosition

variable {all : Bool} {f : Node → List Pointer} {n : Node}

theorem isSome_endpoint_blanked (n? : Option Node) :
    ((n?.map blanked).bind (·.get? "endpoint")).isSome = (n?.bind (·.get? "endpoint")).isSome := by
  cases n? with
  | none => rfl
  | some n =>
    rw [Option.map_some, Option.bind_some, Option.bind_some, get?_blanked, Option.isSome_map]

theorem modelSchema_blanked (n : Node) : modelSchema n.blanked = modelSchema n := by
  rw [modelSchema, modelSchema, at?_blanked (by decide), isSome_endpoint_blanked]

theorem modelSchemas_blanked (n : Node) : modelSchemas n.blanked = modelSchemas n := by
  refine List.flatMap_congr fun key hk => ?_
  have hc : ∀ key ∈ ["input", "output", "export"], key ≠ "call" := by decide
  rw [child?_blanked (hc key hk), Option.map_map]
  exact congrArg (fun g => ((n.child? key).map g).getD [] |>.map (key :: ·))
    (funext modelSchema_blanked)

theorem within_blanked {keys : Pointer} (hk : "call" ∉ keys) (path : Pointer) (isSchema : Bool)
    (n : Node) : within path n.blanked isSchema keys = within path n isSchema keys := by
  rw [within, within, at?_blanked hk, isSome_endpoint_blanked]

/-- The function that is called is known in a blanked tree. -/
theorem string?_call_blanked (n : Node) :
    (n.blanked.get? "call").bind Node.string? = (n.get? "call").bind Node.string? := by
  rw [get?_blanked]
  cases n.get? "call" with
  | none => rfl
  | some v =>
    show (blankedUnder "call" v).string? = v.string?
    cases v with
    | string s => rfl
    | sequence ns =>
      show (sequence ns).blanked.string? = none
      rw [blanked_sequence]
      rfl
    | mapping es =>
      show (mapping es).blanked.string? = none
      rw [blanked_mapping]
      rfl
    | _ => rfl

theorem callPointers_blanked (n : Node) : callPointers all n.blanked = callPointers all n := by
  rw [callPointers, callPointers, ofCall_eq, ofCall_eq, string?_call_blanked]
  cases (n.get? "call").bind Node.string? with
  | none => rfl
  | some function =>
    rw [Option.bind_some]
    cases ha : callArgument? function with
    | none => rfl
    | some key =>
      rw [Option.bind_some, Option.bind_some, within_blanked]
      rcases callArgument?_cases ha with rfl | rfl <;> decide

theorem scriptPointers_blanked (n : Node) :
    scriptPointers all n.blanked = scriptPointers all n := by
  rw [scriptPointers, scriptPointers, ofScript, ofScript, within_blanked (by decide)]

section

variable (h : ∀ m : Node, m.depth < n.depth → f m.blanked = f m)
include h

theorem entryPointers_blanked : entryPointers f (some n.blanked) = entryPointers f (some n) := by
  cases n with
  | mapping es =>
    rw [blanked_mapping, entryPointers, entryPointers, List.flatMap_map]
    refine List.flatMap_congr fun e he => ?_
    have hf : f (blankedUnder e.1 e.2) = f e.2 := by
      rcases blankedUnder_cases e.1 e.2 with hb | hb
      · rw [hb]
      · rw [hb, h e.2 (Node.depth_lt_of_mem_mapping he)]
    exact congrArg (List.map (e.1 :: ·)) hf
  | sequence ns =>
    rw [blanked_sequence]
    rfl
  | _ => rfl

theorem listPointers_blanked : listPointers f (some n.blanked) = listPointers f (some n) := by
  cases n with
  | sequence ns =>
    rw [blanked_sequence, listPointers, listPointers, List.zipIdx_map, List.flatMap_map]
    refine List.flatMap_congr fun p hp => ?_
    have hm : p.1.depth < (Node.sequence ns).depth :=
      Node.depth_lt_of_mem_sequence (List.fst_mem_of_mem_zipIdx hp)
    exact congrArg (List.map (toString p.2 :: ·))
      (entryPointers_blanked fun m hd => h m (Nat.lt_trans hd hm))
  | mapping es =>
    rw [blanked_mapping]
    rfl
  | _ => rfl

end

/-- A list of tasks that may be missing. -/
theorem listPointers_map_blanked {n? : Option Node}
    (h : ∀ n ∈ n?, ∀ m : Node, m.depth < n.depth → f m.blanked = f m) :
    listPointers f (n?.map blanked) = listPointers f n? := by
  cases n? with
  | none => rfl
  | some n => exact listPointers_blanked (h n rfl)

/-- **The pointers into a task are those into the blanked one.** -/
theorem taskPointers_blanked (n : Node) : taskPointers all n.blanked = taskPointers all n := by
  induction hd : n.depth using Nat.strongRecOn generalizing n with
  | ind d ih =>
    subst hd
    cases n with
    | mapping es =>
      have hm (es : Object) : taskPointers all (.mapping es) = _ := taskPointers_mapping
      have hc : ∀ keys ∈ taskLists, "call" ∉ keys := by decide
      rw [blanked_mapping, hm, ← blanked_mapping, hm, taskPointersBy, taskPointersBy,
        modelSchemas_blanked, callPointers_blanked, scriptPointers_blanked]
      refine congrArg _ (List.flatMap_congr fun keys hk => ?_)
      rw [at?_blanked (hc keys hk), listPointers_map_blanked fun k hk m hd => ?_]
      exact ih m.depth (Nat.lt_of_lt_of_le hd (Node.depth_le_of_at? hk)) m rfl
    | sequence ns =>
      rw [blanked_sequence]
      rfl
    | _ => rfl

theorem extensionPointers_blanked (n : Node) :
    extensionPointers all n.blanked = extensionPointers all n := by
  refine List.flatMap_congr fun key hk => ?_
  have hc : ∀ key ∈ ["before", "after"], key ≠ "call" := by decide
  rw [get?_blanked, funext (blankedUnder_of_ne (hc key hk)),
    listPointers_map_blanked fun _ _ m _ => taskPointers_blanked m]

theorem componentPointers_blanked (n : Node) :
    componentPointers all n.blanked = componentPointers all n := by
  rw [componentPointers, componentPointers, child?_blanked (by decide), child?_blanked (by decide),
    listPointers_map_blanked fun _ _ m _ => extensionPointers_blanked m]
  congr 2
  cases n.child? "functions" with
  | none => rfl
  | some m => exact entryPointers_blanked fun m _ => taskPointers_blanked m

/-- **No position is lost, and none is won, when texts are blanked.** -/
theorem documentPointers_blanked (n : Node) :
    documentPointers all n.blanked = documentPointers all n := by
  rw [documentPointers, documentPointers, modelSchemas_blanked, child?_blanked (by decide),
    get?_blanked, funext (blankedUnder_of_ne (by decide)), Option.map_map,
    listPointers_map_blanked fun _ _ m _ => taskPointers_blanked m]
  congr 4
  exact congrArg (Option.map · _) (funext componentPointers_blanked)

/-- **Nor when URIs are replaced.** -/
theorem documentPointers_rebaseResources (rebase : String → Option String) (n : Node) :
    documentPointers all (rebaseResources rebase n) = documentPointers all n := by
  rw [← documentPointers_blanked, blanked_rebaseResources, documentPointers_blanked]

end ResourcePosition

end WorkflowDsl
