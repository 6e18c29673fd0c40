import WorkflowDsl.Proofs.Document.Editing

/-!
# Texts replaced in place

`Node.mapTextsAt` replaces the texts of a tree that stand at some pointers, and leaves its keys,
their order and all other values. A change at a pointer that does no more than this to what stands
there does no more to the whole tree (`Node.modifyAt_eq_mapTextsAt`), and changes at one pointer
after another are one replacement at all of their places (`Node.foldl_modifyAt_eq_mapTextsAt`).
-/

namespace WorkflowDsl

open Pointer (below)

/-- What holds of a tree when it holds of its parts holds of all trees. -/
@[elab_as_elim] theorem Node.inductionOnParts {motive : Node → Prop}
    (mapping : ∀ es : Object, (∀ e ∈ es, motive e.2) → motive (.mapping es))
    (sequence : ∀ ns, (∀ n ∈ ns, motive n) → motive (.sequence ns))
    (scalar : ∀ n : Node, n.depth = 0 → motive n) (n : Node) : motive n := by
  induction hd : n.depth using Nat.strongRecOn generalizing n with
  | ind d ih =>
    subst hd
    cases n with
    | mapping es => exact mapping es fun e he => ih _ (Node.depth_lt_of_mem_mapping he) _ rfl
    | sequence ns => exact sequence ns fun n hn => ih _ (Node.depth_lt_of_mem_sequence hn) _ rfl
    | _ => exact scalar _ rfl

namespace Node

mutual

/-- Replaces the texts that stand at the pointers. -/
def mapTextsAt (g : String → String) (ps : List Pointer) : Node → Node
  | string s => if [] ∈ ps then string (g s) else string s
  | sequence items => sequence (mapTextsItems g ps 0 items)
  | mapping entries => mapping (mapTextsEntries g ps entries)
  | n => n

/-- The items of a sequence from an index on. -/
def mapTextsItems (g : String → String) (ps : List Pointer) : Nat → List Node → List Node
  | _, [] => []
  | i, n :: ns => mapTextsAt g (below (toString i) ps) n :: mapTextsItems g ps (i + 1) ns

def mapTextsEntries (g : String → String) (ps : List Pointer) :
    List (String × Node) → List (String × Node)
  | [] => []
  | (k, n) :: es => (k, mapTextsAt g (below k ps) n) :: mapTextsEntries g ps es

end

variable {g : String → String} {ps qs : List Pointer} {f : Node → Node} {n : Node} {p : Pointer}

@[simp] theorem mapTextsAt_sequence (ns : List Node) :
    (sequence ns).mapTextsAt g ps =
      sequence (ns.mapIdx fun i n => n.mapTextsAt g (below (toString i) ps)) := by
  have hi (k : Nat) : mapTextsItems g ps k ns =
      ns.mapIdx fun i n => n.mapTextsAt g (below (toString (i + k)) ps) := by
    induction ns generalizing k with
    | nil => rfl
    | cons n ns ih => simp [mapTextsItems, ih, Nat.add_comm 1, Nat.add_assoc]
  exact congrArg sequence (hi 0)

@[simp] theorem mapTextsAt_mapping (es : Object) :
    (mapping es).mapTextsAt g ps =
      mapping (es.map fun e => (e.1, e.2.mapTextsAt g (below e.1 ps))) := by
  show mapping (mapTextsEntries g ps es) = _
  congr 1
  induction es with
  | nil => rfl
  | cons e es ih => rw [mapTextsEntries, ih, List.map_cons]

theorem mapTextsAt_string (s : String) :
    (string s).mapTextsAt g ps = string (if [] ∈ ps then g s else s) := by
  rw [mapTextsAt]
  split <;> rfl

theorem mapIdx_congr {ns : List Node} {F G : Nat → Node → Node}
    (h : ∀ n ∈ ns, ∀ i, F i n = G i n) : ns.mapIdx F = ns.mapIdx G :=
  List.mapIdx_eq_mapIdx_iff.2 fun i _ => h _ (List.getElem_mem _) i

theorem mapIdx_eq_self {ns : List Node} {F : Nat → Node → Node} (h : ∀ n ∈ ns, ∀ i, F i n = n) :
    ns.mapIdx F = ns :=
  (mapIdx_congr h).trans (List.mapIdx_eq_iff.2 fun _ => Option.map_id'.symm)

theorem mapTextsAt_nil (n : Node) : n.mapTextsAt g [] = n := by
  induction n using inductionOnParts with
  | mapping es ih =>
    rw [mapTextsAt_mapping]
    refine congrArg mapping ((List.map_congr_left fun e he => ?_).trans (List.map_id' es))
    exact congrArg (Prod.mk e.1) (ih e he)
  | sequence ns ih =>
    rw [mapTextsAt_sequence]
    exact congrArg sequence (mapIdx_eq_self fun n hn i => ih n hn)
  | scalar n h => cases n <;> first | rfl | cases h

/-- Only which pointers there are matters. -/
theorem mapTextsAt_congr (h : ∀ p, p ∈ ps ↔ p ∈ qs) : n.mapTextsAt g ps = n.mapTextsAt g qs := by
  have hb {ps qs : List Pointer} (h : ∀ p, p ∈ ps ↔ p ∈ qs) (key : String) (p : Pointer) :
      p ∈ below key ps ↔ p ∈ below key qs := by
    rw [Pointer.mem_below_iff, Pointer.mem_below_iff, h]
  induction n using inductionOnParts generalizing ps qs with
  | mapping es ih =>
    rw [mapTextsAt_mapping, mapTextsAt_mapping]
    refine congrArg mapping (List.map_congr_left fun e he => ?_)
    exact congrArg (Prod.mk e.1) (ih e he (hb h e.1))
  | sequence ns ih =>
    rw [mapTextsAt_sequence, mapTextsAt_sequence]
    exact congrArg sequence (mapIdx_congr fun n hn i => ih n hn (hb h (toString i)))
  | scalar n hn =>
    cases n with
    | string s => simp only [mapTextsAt_string, h]
    | _ => first | rfl | cases hn

/-- **Replacing texts twice is replacing them at all of the pointers**, as long as no text is
replaced twice by a different one. -/
theorem mapTextsAt_mapTextsAt (h : ∀ p ∈ ps, p ∈ qs → ∀ s, g (g s) = g s) :
    (n.mapTextsAt g ps).mapTextsAt g qs = n.mapTextsAt g (ps ++ qs) := by
  have hb {ps qs : List Pointer} (h : ∀ p ∈ ps, p ∈ qs → ∀ s, g (g s) = g s) (key : String) :
      ∀ p ∈ below key ps, p ∈ below key qs → ∀ s, g (g s) = g s := fun p hp hq =>
    h _ (Pointer.mem_below_iff.1 hp) (Pointer.mem_below_iff.1 hq)
  induction n using inductionOnParts generalizing ps qs with
  | mapping es ih =>
    rw [mapTextsAt_mapping, mapTextsAt_mapping, mapTextsAt_mapping, List.map_map]
    refine congrArg mapping (List.map_congr_left fun e he => ?_)
    rw [Pointer.below_append, ← ih e he (hb h e.1)]
    rfl
  | sequence ns ih =>
    rw [mapTextsAt_sequence, mapTextsAt_sequence, mapTextsAt_sequence, List.mapIdx_mapIdx]
    refine congrArg sequence (mapIdx_congr fun n hn i => ?_)
    rw [Pointer.below_append, ← ih n hn (hb h (toString i))]
    rfl
  | scalar n hn =>
    cases n with
    | string s =>
      rw [mapTextsAt_string, mapTextsAt_string, mapTextsAt_string]
      by_cases hp : [] ∈ ps
      · by_cases hq : [] ∈ qs
        · simp [hp, hq, h _ hp hq]
        · simp [hp, hq]
      · simp [hp]
    | _ => first | rfl | cases hn

theorem mapTextsAt_idem (hg : ∀ s, g (g s) = g s) :
    (n.mapTextsAt g ps).mapTextsAt g ps = n.mapTextsAt g ps :=
  (mapTextsAt_mapTextsAt fun _ _ _ => hg).trans (mapTextsAt_congr fun p => by simp)

theorem distinctKeys_mapTextsAt (h : n.distinctKeys = true) :
    (n.mapTextsAt g ps).distinctKeys = true := by
  induction n using inductionOnParts generalizing ps with
  | mapping es ih =>
    obtain ⟨hk, hv⟩ := distinctKeys_mapping.1 h
    rw [mapTextsAt_mapping, distinctKeys_mapping, List.forall_mem_map]
    refine ⟨?_, fun e he => ih e he (hv e he)⟩
    rwa [Entries.keys, List.map_map]
  | sequence ns ih =>
    have hns := distinctKeys_sequence.1 h
    rw [mapTextsAt_sequence, distinctKeys_sequence]
    intro m hm
    obtain ⟨i, hi, rfl⟩ := List.mem_mapIdx.1 hm
    exact ih _ (List.getElem_mem hi) (hns _ (List.getElem_mem hi))
  | scalar n hn =>
    cases n with
    | string s =>
      rw [mapTextsAt_string]
      rfl
    | _ => first | rfl | cases hn

/-! ## Changes at pointers -/

/-- A change under one of distinct keys. -/
theorem modifyEntry_eq_map {key : String} {es : Object} (hn : (Entries.keys es).Nodup) :
    modifyEntry f key es = es.map fun e => (e.1, if key = e.1 then f e.2 else e.2) := by
  induction es with
  | nil => rfl
  | cons e es ih =>
    rw [Entries.keys_cons, List.nodup_cons] at hn
    rw [modifyEntry, List.map_cons]
    split
    · next h =>
      obtain rfl : e.1 = key := by simpa using h
      rw [if_pos rfl]
      have hne : ∀ e' ∈ es, e.1 ≠ e'.1 := fun e' he hk =>
        hn.1 (hk ▸ Entries.mem_keys_of_mem he)
      refine congrArg _ ((List.map_congr_left fun e' he => ?_).trans (List.map_id' es)).symm
      rw [if_neg (hne e' he)]
    · next h =>
      have hne : e.1 ≠ key := by simpa using h
      rw [if_neg (Ne.symm hne), ih hn.2]

/-- **A change that replaces texts replaces texts at a pointer.** -/
theorem modifyAt_eq_mapTextsAt (qs : List Pointer)
    (hf : ∀ n, n.distinctKeys = true → f n = n.mapTextsAt g qs)
    (hn : n.distinctKeys = true) : n.modifyAt f p = n.mapTextsAt g (qs.map (p ++ ·)) := by
  induction p generalizing n with
  | nil => rw [modifyAt, hf n hn, List.map_congr_left fun q _ => List.nil_append q, List.map_id']
  | cons key p ih =>
    have hb (k : String) : below k (qs.map (key :: p ++ ·)) =
        if key = k then qs.map (p ++ ·) else [] := Pointer.below_map_cons_comp k key _ qs
    cases n with
    | mapping es =>
      obtain ⟨hk, hv⟩ := distinctKeys_mapping.1 hn
      rw [modifyAt, modifyEntry_eq_map hk, mapTextsAt_mapping]
      refine congrArg mapping (List.map_congr_left fun e he => congrArg (Prod.mk e.1) ?_)
      rw [hb]
      split
      · exact ih (hv e he)
      · exact (mapTextsAt_nil _).symm
    | sequence ns =>
      rw [modifyAt, mapTextsAt_sequence]
      split
      · next i hi =>
        obtain rfl := Pointer.index?_eq_some_iff.1 hi
        refine congrArg sequence (List.ext_getElem? fun j => ?_)
        rw [List.getElem?_modify, List.getElem?_mapIdx]
        refine Option.map_congr fun m hm => ?_
        rw [hb]
        by_cases hj : i = j
        · rw [if_pos hj, if_pos (congrArg toString hj)]
          exact ih (distinctKeys_sequence.1 hn m (List.mem_of_getElem? hm))
        · rw [if_neg hj, if_neg fun he => hj (Pointer.toString_injective he)]
          exact (mapTextsAt_nil m).symm
      · next hi =>
        refine congrArg sequence (mapIdx_eq_self fun m _ j => ?_).symm
        rw [hb, if_neg, mapTextsAt_nil]
        rintro rfl
        rw [Pointer.index?_toString] at hi
        cases hi
    | string s =>
      rw [mapTextsAt_string, if_neg (by simp)]
      rfl
    | _ => rfl

/-- **Changes that replace texts at their places replace them at all of these.** -/
theorem foldl_modifyAt_eq_mapTextsAt {α : Type} {F : α → Node → Node} {p : α → Pointer}
    {places : α → List Pointer} {as : List α}
    (h : ∀ a (n : Node), n.distinctKeys = true → n.modifyAt (F a) (p a) = n.mapTextsAt g (places a))
    (hp : as.Pairwise fun a b => List.Disjoint (places a) (places b)) (hn : n.distinctKeys = true) :
    as.foldl (fun n a => n.modifyAt (F a) (p a)) n = n.mapTextsAt g (as.flatMap places) := by
  induction as generalizing n with
  | nil => exact (mapTextsAt_nil n).symm
  | cons a as ih =>
    obtain ⟨ha, hp⟩ := List.pairwise_cons.1 hp
    rw [List.foldl_cons, h a n hn, ih hp (distinctKeys_mapTextsAt hn), List.flatMap_cons]
    refine mapTextsAt_mapTextsAt fun q hq hm => ?_
    obtain ⟨b, hb, hm⟩ := List.mem_flatMap.1 hm
    exact absurd hm (ha b hb hq)

end Node

end WorkflowDsl
