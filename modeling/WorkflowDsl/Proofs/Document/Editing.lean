import WorkflowDsl.Proofs.Codec.Collection
import WorkflowDsl.Proofs.Collection.Agreement
import WorkflowDsl.Proofs.Document.Pointer

/-!
# Trees that differ below pointers

A `Difference` relates trees that differ at some pointers at most. If it descends
(`Difference.Descends`), then between mappings it relates the values under each key by the pointers
below that key, while the keys stay in their order, and between sequences it relates the items
(`Descends.entries`, `Descends.sequence`). So it can be followed down a tree, whatever the order of
the pointers.

An `Editor` changes a tree at a pointer, and `Editor.Edits` does so at one pointer after another. It
is enough that each change is one of what stands under the first key (`Editor.LeadsDown`): then
edited trees differ in this way (`LeadsDown.descends`). What stands at a pointer when its turn comes
can be followed down likewise (`Editor.Steady`).
-/

namespace WorkflowDsl

open Pointer (below)

/-- Trees that differ at some pointers at most. -/
abbrev Difference := List Pointer → Node → Node → Prop

/-- All pointers go through the index of an item, and further. -/
def Pointer.IntoItems (ns : List Node) (ps : List Pointer) : Prop :=
  ∀ p ∈ ps, ∃ i < ns.length, ∃ q ≠ [], p = toString i :: q

/-- The pointers into the items, where `f` gives those into an item. -/
abbrev Pointer.ofItems (f : Node → List Pointer) (ns : List Node) : List Pointer :=
  ns.zipIdx.flatMap fun (n, i) => (f n).map (toString i :: ·)

open Pointer (IntoItems ofItems)

section

variable {f : Node → List Pointer} {ns : List Node}

theorem Pointer.toString_injective : Function.Injective (fun i : Nat => toString i) := by
  intro i j h
  have hi := index?_toString i
  rw [show toString i = toString j from h, index?_toString] at hi
  exact (Option.some.inj hi).symm

theorem Pointer.intoItems_ofItems (hf : ∀ n ∈ ns, ∀ p ∈ f n, p ≠ []) :
    IntoItems ns (ofItems f ns) := by
  intro p hp
  obtain ⟨⟨n, i⟩, hm, hp⟩ := List.mem_flatMap.1 hp
  obtain ⟨q, hq, rfl⟩ := List.mem_map.1 hp
  have hi := List.snd_lt_of_mem_zipIdx hm
  exact ⟨i, by simpa using hi, q, hf n (List.fst_mem_of_mem_zipIdx hm) q hq, rfl⟩

theorem Pointer.nodup_indices (ns : List Node) : (ns.zipIdx.map fun a => toString a.2).Nodup := by
  have h := (List.nodup_range' (s := 0) (n := ns.length)).map toString_injective
  rw [← List.zipIdx_map_snd 0 ns, List.map_map] at h
  exact h

theorem Pointer.below_ofItems {i : Nat} {v : Node} (hv : ns[i]? = some v) :
    below (toString i) (ofItems f ns) = f v := by
  have hm : (v, i) ∈ ns.zipIdx := List.mk_mem_zipIdx_iff_getElem?.2 hv
  exact below_flatMap_of_mem (k := fun a : Node × Nat => toString a.2)
    (g := fun a => f a.1) (nodup_indices ns) hm

end

/-! ## Differences that descend -/

namespace Difference

variable {E : Difference} {ps : List Pointer} {n n' : Node} {es es' : Object} {ns : List Node}
  {f : Node → List Pointer}

/-- The keys are the same, and the values differ at the pointers below their keys. -/
structure Entrywise (E : Difference) (ps : List Pointer) (es es' : Object) : Prop where
  agree : Entries.AgreeBut (fun key => below key ps ≠ []) es es'
  values : ∀ {key v}, es.get? key = some v →
    ∃ v', es'.get? key = some v' ∧ E (below key ps) v v'

/-- There are as many items, and they differ at the pointers below their indices. -/
structure Itemwise (E : Difference) (ps : List Pointer) (ns ns' : List Node) : Prop where
  length : ns'.length = ns.length
  items : ∀ {i : Nat} {v : Node}, ns[i]? = some v →
    ∃ v', ns'[i]? = some v' ∧ E (below (toString i) ps) v v'

/-- A difference between trees is one between what stands in them. -/
structure Descends (E : Difference) : Prop where
  nil : ∀ {n n'}, E [] n n' → n' = n
  kind : ∀ {ps n n'}, E ps n n' → n'.kind = n.kind
  mapping : ∀ {ps es n'}, Pointer.Deep ps → E ps (.mapping es) n' →
    ∃ es', n' = .mapping es' ∧ E.Entrywise ps es es'
  length : ∀ {ps ns ns'}, E ps (.sequence ns) (.sequence ns') → ns'.length = ns.length
  items : ∀ {ps ns ns'}, IntoItems ns ps → E ps (.sequence ns) (.sequence ns') →
    E.Itemwise ps ns ns'

namespace Descends

variable (hE : E.Descends)
include hE

theorem ne_null (h : E ps n n') (hn : n ≠ .null) : n' ≠ .null := by
  rintro rfl
  have hk := hE.kind h
  cases n <;> first | exact hn rfl | cases hk

/-- **Pointers into the values under distinct keys are followed in each value.** -/
theorem entries (hn : (Entries.keys es).Nodup) (hf : ∀ e ∈ es, ∀ p ∈ f e.2, p ≠ [])
    (h : E (es.flatMap fun e => (f e.2).map (e.1 :: ·)) (.mapping es) n') :
    ∃ es', n' = .mapping es' ∧ Entries.Matching (fun v v' => E (f v) v v') es es' := by
  have hd := Pointer.deep_flatMap fun e he => Pointer.deep_map_cons e.1 (hf e he)
  obtain ⟨es', rfl, hes⟩ := hE.mapping hd h
  have hkeys := hes.agree.keys_eq
  refine ⟨es', rfl, List.forall₂_iff_get.2 ⟨hes.agree.length_eq, fun i hi hi' => ?_⟩⟩
  have hk : (es.get ⟨i, hi⟩).1 = (es'.get ⟨i, hi'⟩).1 := by
    have := congrArg (·[i]?) hkeys
    simpa [Entries.keys, hi, hi'] using this
  have hm := List.get_mem es ⟨i, hi⟩
  obtain ⟨v, hv, hr⟩ := hes.values (Entries.get?_of_mem hn hm)
  have hv' := Entries.get?_of_mem (hkeys ▸ hn) (List.get_mem es' ⟨i, hi'⟩)
  rw [← hk, hv] at hv'
  obtain rfl := Option.some.inj hv'
  rw [Pointer.below_flatMap_of_mem (k := Prod.fst) (g := fun e => f e.2) hn hm] at hr
  exact ⟨hk, hr⟩

/-- **Pointers into the items of a sequence are followed in each item.** -/
theorem sequence (hf : ∀ n ∈ ns, ∀ p ∈ f n, p ≠ []) (h : E (ofItems f ns) (.sequence ns) n') :
    ∃ ns', n' = .sequence ns' ∧ List.Forall₂ (fun n n' => E (f n) n n') ns ns' := by
  have hk := hE.kind h
  cases n' with
  | sequence ns' =>
    have hns := hE.items (Pointer.intoItems_ofItems hf) h
    refine ⟨ns', rfl, List.forall₂_iff_get.2 ⟨hns.length.symm, fun i hi hi' => ?_⟩⟩
    have hv : ns[i]? = some (ns.get ⟨i, hi⟩) := List.getElem?_eq_getElem hi
    obtain ⟨v', hv', hr⟩ := hns.items hv
    rw [Pointer.below_ofItems hv] at hr
    obtain rfl := Option.some.inj ((List.getElem?_eq_getElem hi').symm.trans hv')
    exact hr
  | _ => cases hk

end Descends

/-- The difference seen from the other tree. -/
abbrev flip (E : Difference) : Difference := fun ps n n' => E ps n' n

theorem Entrywise.flip (hes : E.Entrywise ps es es') : E.flip.Entrywise ps es' es := by
  refine ⟨hes.agree.symm, fun {key v} hv => ?_⟩
  cases hg : Entries.get? es key with
  | none => cases (hes.agree.get?_eq_none.2 hg).symm.trans hv
  | some v' =>
    obtain ⟨v₁, hv₁, he⟩ := hes.values hg
    obtain rfl := Option.some.inj (hv₁.symm.trans hv)
    exact ⟨v', rfl, he⟩

theorem Itemwise.flip {ns' : List Node} (hns : E.Itemwise ps ns ns') :
    E.flip.Itemwise ps ns' ns := by
  refine ⟨hns.length.symm, fun {i v} hv => ?_⟩
  obtain ⟨hi, -⟩ := List.getElem?_eq_some_iff.1 hv
  have hl : i < ns.length := hns.length ▸ hi
  have hg : ns[i]? = some ns[i] := List.getElem?_eq_getElem hl
  obtain ⟨v₁, hv₁, he⟩ := hns.items hg
  obtain rfl := Option.some.inj (hv₁.symm.trans hv)
  exact ⟨_, hg, he⟩

theorem Descends.flip (hE : E.Descends) : E.flip.Descends where
  nil h := (hE.nil h).symm
  kind h := (hE.kind h).symm
  mapping {ps es n'} hps h := by
    have hk := hE.kind h
    cases n' with
    | mapping es' =>
      obtain ⟨_, he, hes⟩ := hE.mapping hps h
      obtain rfl := Node.mapping.inj he
      exact ⟨es', rfl, hes.flip⟩
    | _ => cases hk
  length h := (hE.length h).symm
  items {ps ns ns'} hps h := by
    have hl := hE.length h
    refine (hE.items (fun p hp => ?_) h).flip
    obtain ⟨i, hi, hq⟩ := hps p hp
    exact ⟨i, hl ▸ hi, hq⟩

/-- The difference between trees with distinct keys. -/
structure WithDistinctKeys (E : Difference) (ps : List Pointer) (n n' : Node) : Prop where
  distinct : n.distinctKeys = true
  distinct' : n'.distinctKeys = true
  differs : E ps n n'

theorem Descends.withDistinctKeys (hE : E.Descends) : Descends E.WithDistinctKeys where
  nil h := hE.nil h.differs
  kind h := hE.kind h.differs
  mapping {ps es n'} hps h := by
    obtain ⟨hn, hn', h⟩ := h
    obtain ⟨es', rfl, hes⟩ := hE.mapping hps h
    refine ⟨es', rfl, hes.agree, fun {key v} hv => ?_⟩
    obtain ⟨v', hv', he⟩ := hes.values hv
    exact ⟨v', hv', (Node.distinctKeys_mapping.1 hn).2 _ (Entries.mem_of_get? hv),
      (Node.distinctKeys_mapping.1 hn').2 _ (Entries.mem_of_get? hv'), he⟩
  length h := hE.length h.differs
  items {ps ns ns'} hps h := by
    obtain ⟨hn, hn', h⟩ := h
    have hns := hE.items hps h
    refine ⟨hns.length, fun {i v} hv => ?_⟩
    obtain ⟨v', hv', he⟩ := hns.items hv
    exact ⟨v', hv', Node.distinctKeys_sequence.1 hn v (List.mem_of_getElem? hv),
      Node.distinctKeys_sequence.1 hn' v' (List.mem_of_getElem? hv'), he⟩

end Difference

/-! ## Editors -/

/-- Changes a tree at a pointer, or fails. -/
abbrev Editor (ε : Type) := Node → Pointer → Except ε Node

namespace Editor

variable {ε : Type} {g : Editor ε} {ps qs : List Pointer} {p : Pointer} {n n' v x : Node}
  {es es' : Object} {ns : List Node}

/-- The tree `n'` is `n` changed at the pointers, one after another. -/
def Edits (g : Editor ε) (ps : List Pointer) (n n' : Node) : Prop := ps.foldlM g n = .ok n'

/-- A change at a pointer is a change of what stands under the first key. -/
structure LeadsDown (g : Editor ε) : Prop where
  kind : ∀ {n n' : Node} {p}, g n p = .ok n' → n'.kind = n.kind
  length : ∀ {ns ns' : List Node} {p}, g (.sequence ns) p = .ok (.sequence ns') →
    ns'.length = ns.length
  entry : ∀ {es : Object} {key p n'}, p ≠ [] → g (.mapping es) (key :: p) = .ok n' →
    ∃ es' : Object, n' = .mapping es' ∧ Entries.AgreeBut (· = key) es es' ∧
      ∀ {v}, es.get? key = some v → ∃ v', es'.get? key = some v' ∧ g v p = .ok v'
  item : ∀ {ns : List Node} {i : Nat} {v : Node} {p n'}, ns[i]? = some v → p ≠ [] →
    g (.sequence ns) (toString i :: p) = .ok n' →
      ∃ v', g v p = .ok v' ∧ n' = .sequence (ns.set i v')

theorem edits_nil : g.Edits [] n n' ↔ n' = n :=
  ⟨fun h => (Except.ok.inj h).symm, fun h => congrArg Except.ok h.symm⟩

theorem edits_cons : g.Edits (p :: ps) n n' ↔ ∃ m, g n p = .ok m ∧ g.Edits ps m n' := by
  rw [Edits, List.foldlM_cons]
  exact except_bind_eq_ok

/-- Editing leaves mappings mappings, and sequences sequences. -/
theorem LeadsDown.kind_of_edits (hg : g.LeadsDown) (h : g.Edits ps n n') : n'.kind = n.kind := by
  induction ps generalizing n with
  | nil => rw [edits_nil.1 h]
  | cons p ps ih =>
    obtain ⟨m, hm, h⟩ := edits_cons.1 h
    rw [ih h, hg.kind hm]

theorem LeadsDown.length_of_edits (hg : g.LeadsDown) {ns' : List Node}
    (h : g.Edits ps (.sequence ns) (.sequence ns')) : ns'.length = ns.length := by
  induction ps generalizing ns with
  | nil => rw [Node.sequence.inj (edits_nil.1 h)]
  | cons p ps ih =>
    obtain ⟨m, hm, h⟩ := edits_cons.1 h
    have hk := hg.kind hm
    cases m with
    | sequence ms => rw [ih h, hg.length hm]
    | _ => cases hk

theorem below_ne_nil_of_cons {key k : String} (h : below key ps ≠ []) :
    below key ((k :: p) :: ps) ≠ [] := by
  by_cases hk : k = key
  · subst hk
    rw [Pointer.below_cons_self]
    exact List.cons_ne_nil _ _
  · rwa [Pointer.below_cons_of_ne hk]

/-- **Pointers into a mapping are followed below each key.** -/
theorem LeadsDown.edits_mapping (hg : g.LeadsDown) (hps : Pointer.Deep ps)
    (h : g.Edits ps (.mapping es) n') :
    ∃ es', n' = .mapping es' ∧ Difference.Entrywise g.Edits ps es es' := by
  induction ps generalizing es with
  | nil =>
    obtain rfl := edits_nil.1 h
    exact ⟨es, rfl, .refl _ _, fun {key v} hv => ⟨v, hv, edits_nil.2 rfl⟩⟩
  | cons p ps ih =>
    obtain ⟨hl, hd⟩ := List.forall_mem_cons.1 hps
    obtain ⟨m, hm, h⟩ := edits_cons.1 h
    match p, hl with
    | k :: q, hl =>
      have hq : q ≠ [] := by
        rintro rfl
        exact absurd hl (Nat.lt_irrefl 1)
      obtain ⟨fs, rfl, ha, hv⟩ := hg.entry hq hm
      obtain ⟨es', rfl, hes⟩ := ih hd h
      refine ⟨es', rfl, ?_, fun {key v} hg' => ?_⟩
      · refine .trans (ha.imp fun key hk => ?_) (hes.agree.imp fun key => below_ne_nil_of_cons)
        rw [hk, Pointer.below_cons_self]
        exact List.cons_ne_nil _ _
      · by_cases hkey : k = key
        · subst hkey
          obtain ⟨v₁, hv₁, hs⟩ := hv hg'
          obtain ⟨v', hv', hr⟩ := hes.values hv₁
          refine ⟨v', hv', ?_⟩
          rw [Pointer.below_cons_self]
          exact edits_cons.2 ⟨v₁, hs, hr⟩
        · obtain ⟨v', hv', hr⟩ := hes.values ((ha.get?_eq (Ne.symm hkey)).symm.trans hg')
          refine ⟨v', hv', ?_⟩
          rw [Pointer.below_cons_of_ne hkey]
          exact hr

/-- **Pointers into a sequence are followed below each index.** -/
theorem LeadsDown.edits_items (hg : g.LeadsDown) {ns' : List Node} (hps : IntoItems ns ps)
    (h : g.Edits ps (.sequence ns) (.sequence ns')) : Difference.Itemwise g.Edits ps ns ns' := by
  induction ps generalizing ns with
  | nil =>
    obtain rfl := Node.sequence.inj (edits_nil.1 h)
    exact ⟨rfl, fun {i v} hv => ⟨v, hv, edits_nil.2 rfl⟩⟩
  | cons p ps ih =>
    obtain ⟨⟨i, hi, q, hq, rfl⟩, hrest⟩ := List.forall_mem_cons.1 hps
    obtain ⟨m, hm, h⟩ := edits_cons.1 h
    obtain ⟨w, hw, rfl⟩ := hg.item (List.getElem?_eq_getElem hi) hq hm
    have hps' : IntoItems (ns.set i w) ps := by
      intro p hp
      rw [List.length_set]
      exact hrest p hp
    have hns := ih hps' h
    refine ⟨hns.length.trans List.length_set, fun {j v} hv => ?_⟩
    by_cases hj : i = j
    · subst hj
      obtain rfl := Option.some.inj ((List.getElem?_eq_getElem hi).symm.trans hv)
      obtain ⟨v', hv', hr⟩ := hns.items (List.getElem?_set_self hi)
      refine ⟨v', hv', ?_⟩
      rw [Pointer.below_cons_self]
      exact edits_cons.2 ⟨w, hw, hr⟩
    · obtain ⟨v', hv', hr⟩ := hns.items ((List.getElem?_set_ne hj).trans hv)
      refine ⟨v', hv', ?_⟩
      rw [Pointer.below_cons_of_ne fun he => hj (Pointer.toString_injective he)]
      exact hr

/-- **Edited trees differ at the pointers at most.** -/
theorem LeadsDown.descends (hg : g.LeadsDown) : Difference.Descends g.Edits where
  nil := edits_nil.1
  kind := hg.kind_of_edits
  mapping := hg.edits_mapping
  length := hg.length_of_edits
  items := hg.edits_items

/-! ## What stands at a pointer when its turn comes -/

/-- No edit changes what stands at the pointers after it. -/
def Steady (g : Editor ε) (ps : List Pointer) (n : Node) : Prop :=
  ∀ ⦃before p after m⦄, ps = before ++ p :: after → g.Edits before n m → m.at? p = n.at? p

theorem steady_nil : g.Steady [] n := by
  intro before p after m hps
  simp at hps

theorem steady_singleton : g.Steady [p] n := by
  intro before q after m hps hm
  cases before with
  | nil => rw [edits_nil.1 hm]
  | cons => simp at hps

/-- Edits of a mapping are steady if those below each key are. -/
theorem LeadsDown.steady_mapping (hg : g.LeadsDown) (hps : Pointer.Deep ps)
    (h : ∀ {key v}, es.get? key = some v → g.Steady (below key ps) v) :
    g.Steady ps (.mapping es) := by
  rintro before p after m rfl hm
  obtain ⟨es', rfl, hes⟩ := hg.edits_mapping (fun q hq => hps q (List.mem_append_left _ hq)) hm
  have hp : 1 < p.length := hps p (List.mem_append_right _ List.mem_cons_self)
  match p, hp with
  | key :: q, _ =>
    show (Entries.get? es' key).bind (·.at? q) = (Entries.get? es key).bind (·.at? q)
    cases hv : Entries.get? es key with
    | none => rw [hes.agree.get?_eq_none.2 hv]
    | some v =>
      obtain ⟨v', hv', he⟩ := hes.values hv
      have hs := h hv
      rw [Pointer.below_append, Pointer.below_cons_self] at hs
      rw [hv', Option.bind_some, Option.bind_some]
      exact hs rfl he

/-- Edits of the items of a sequence are steady if those of each item are. -/
theorem LeadsDown.steady_sequence (hg : g.LeadsDown) {f : Node → List Pointer}
    (hf : ∀ n ∈ ns, ∀ p ∈ f n, p ≠ []) (h : ∀ n ∈ ns, g.Steady (f n) n) :
    g.Steady (ofItems f ns) (.sequence ns) := by
  intro before p after m hps hm
  have hi := Pointer.intoItems_ofItems hf
  rw [hps] at hi
  have hk := hg.kind_of_edits hm
  cases m with
  | sequence ns' =>
    have hns := hg.edits_items (fun q hq => hi q (List.mem_append_left _ hq)) hm
    obtain ⟨i, hl, q, -, rfl⟩ := hi p (List.mem_append_right _ List.mem_cons_self)
    have hv : ns[i]? = some ns[i] := List.getElem?_eq_getElem hl
    obtain ⟨v', hv', he⟩ := hns.items hv
    have hs := h ns[i] (List.getElem_mem hl)
    rw [← Pointer.below_ofItems (f := f) hv, hps, Pointer.below_append,
      Pointer.below_cons_self] at hs
    show ((Pointer.index? (toString i)).bind (ns'[·]?)).bind (·.at? q) =
      ((Pointer.index? (toString i)).bind (ns[·]?)).bind (·.at? q)
    rw [Pointer.index?_toString, Option.bind_some, Option.bind_some, hv, hv', Option.bind_some,
      Option.bind_some]
    exact hs rfl he
  | _ => cases hk

end Editor

end WorkflowDsl
