import WorkflowDsl.Proofs.Document.Pointer

/-!
# Texts in trees

`Node.texts` lists the texts in a tree. A change at a pointer replaces one part of a tree
(`Node.modifyAt_cons_cases`). So two changes that are the same on trees with certain texts are the
same at a pointer of such a tree (`Node.modifyAt_congr`).
-/

namespace WorkflowDsl

namespace Node

mutual

/-- The texts in a tree, without the keys of mappings. -/
def texts : Node → List String
  | string s => [s]
  | sequence items => textsItems items
  | mapping entries => textsEntries entries
  | _ => []

def textsItems : List Node → List String
  | [] => []
  | n :: ns => n.texts ++ textsItems ns

def textsEntries : List (String × Node) → List String
  | [] => []
  | (_, n) :: es => n.texts ++ textsEntries es

end

/-- All texts in the tree satisfy `T`. -/
def TextsIn (T : String → Prop) (n : Node) : Prop := ∀ s ∈ n.texts, T s

section

variable {T : String → Prop} {f g : Node → Node} {n : Node}

theorem textsIn_string {s : String} : (string s).TextsIn T ↔ T s := List.forall_mem_singleton

theorem textsIn_sequence {ns : List Node} :
    (sequence ns).TextsIn T ↔ ∀ n ∈ ns, n.TextsIn T := by
  show (∀ s ∈ textsItems ns, T s) ↔ _
  induction ns with
  | nil => exact iff_of_true nofun nofun
  | cons n ns ih => rw [textsItems, List.forall_mem_append, ih, List.forall_mem_cons]; rfl

theorem textsIn_mapping {es : Object} :
    (mapping es).TextsIn T ↔ ∀ e ∈ es, e.2.TextsIn T := by
  show (∀ s ∈ textsEntries es, T s) ↔ _
  induction es with
  | nil => exact iff_of_true nofun nofun
  | cons e es ih =>
    obtain ⟨k, n⟩ := e
    rw [textsEntries, List.forall_mem_append, ih, List.forall_mem_cons]
    rfl

/-! ## Changes at pointers -/

theorem modifyEntry_cases (key : String) (es : Object) :
    (∀ f, modifyEntry f key es = es) ∨
      ∃ as v bs, es = as ++ (key, v) :: bs ∧
        ∀ f, modifyEntry f key es = as ++ (key, f v) :: bs := by
  induction es with
  | nil => exact .inl fun _ => rfl
  | cons e es ih =>
    obtain ⟨k, v⟩ := e
    by_cases hk : k = key
    · subst hk
      exact .inr ⟨[], v, es, rfl, fun f => if_pos (beq_self_eq_true k)⟩
    · have hm (f : Node → Node) :
          modifyEntry f key ((k, v) :: es) = (k, v) :: modifyEntry f key es :=
        if_neg (by simpa using hk)
      rcases ih with h | ⟨as, x, bs, rfl, h⟩
      · exact .inl fun f => by rw [hm, h]
      · exact .inr ⟨(k, v) :: as, x, bs, rfl, fun f => by rw [hm, h, List.cons_append]⟩

/-- A change below a key leaves a tree as it is, or replaces one of its parts. -/
theorem modifyAt_cons_cases (key : String) (n : Node) :
    (∀ f p, n.modifyAt f (key :: p) = n) ∨
      (∃ as v bs, n = mapping (as ++ (key, v) :: bs) ∧
        ∀ f p, n.modifyAt f (key :: p) = mapping (as ++ (key, v.modifyAt f p) :: bs)) ∨
      ∃ as v bs, n = sequence (as ++ v :: bs) ∧
        ∀ f p, n.modifyAt f (key :: p) = sequence (as ++ v.modifyAt f p :: bs) := by
  cases n with
  | mapping es =>
    rcases modifyEntry_cases key es with h | ⟨as, v, bs, rfl, h⟩
    · exact .inl fun f p => congrArg mapping (h _)
    · exact .inr (.inl ⟨as, v, bs, rfl, fun f p => congrArg mapping (h _)⟩)
  | sequence ns =>
    cases hi : Pointer.index? key with
    | none =>
      refine .inl fun f p => ?_
      rw [modifyAt, hi]
    | some i =>
      have hm (f : Node → Node) (p : Pointer) :
          (sequence ns).modifyAt f (key :: p) = sequence (ns.modify i (modifyAt f p)) := by
        rw [modifyAt, hi]
      by_cases hl : i < ns.length
      · refine .inr (.inr ⟨ns.take i, ns[i], ns.drop (i + 1), ?_, fun f p => ?_⟩)
        · rw [List.getElem_cons_drop, List.take_append_drop]
        · rw [hm, List.modify_eq_take_cons_drop hl]
      · refine .inl fun f p => ?_
        rw [hm, List.modify_eq_self (Nat.le_of_not_lt hl)]
  | _ => exact .inl fun _ _ => rfl

/-- A change that keeps texts in `T` does so at a pointer. -/
theorem textsIn_modifyAt (hf : ∀ n, n.TextsIn T → (f n).TextsIn T) (p : Pointer)
    (hn : n.TextsIn T) : (n.modifyAt f p).TextsIn T := by
  induction p generalizing n with
  | nil => exact hf n hn
  | cons key p ih =>
    rcases modifyAt_cons_cases key n with h | ⟨as, v, bs, rfl, h⟩ | ⟨as, v, bs, rfl, h⟩
    · rwa [h]
    · rw [textsIn_mapping, List.forall_mem_append, List.forall_mem_cons] at hn
      rw [h, textsIn_mapping, List.forall_mem_append, List.forall_mem_cons]
      exact ⟨hn.1, ih hn.2.1, hn.2.2⟩
    · rw [textsIn_sequence, List.forall_mem_append, List.forall_mem_cons] at hn
      rw [h, textsIn_sequence, List.forall_mem_append, List.forall_mem_cons]
      exact ⟨hn.1, ih hn.2.1, hn.2.2⟩

/-- **Changes that are the same on trees with texts in `T` are so at a pointer.** -/
theorem modifyAt_congr (h : ∀ n, n.TextsIn T → f n = g n) (p : Pointer) (hn : n.TextsIn T) :
    n.modifyAt f p = n.modifyAt g p := by
  induction p generalizing n with
  | nil => exact h n hn
  | cons key p ih =>
    rcases modifyAt_cons_cases key n with hm | ⟨as, v, bs, rfl, hm⟩ | ⟨as, v, bs, rfl, hm⟩
    · rw [hm, hm]
    · rw [textsIn_mapping, List.forall_mem_append, List.forall_mem_cons] at hn
      rw [hm, hm, ih hn.2.1]
    · rw [textsIn_sequence, List.forall_mem_append, List.forall_mem_cons] at hn
      rw [hm, hm, ih hn.2.1]

end

end Node

end WorkflowDsl
