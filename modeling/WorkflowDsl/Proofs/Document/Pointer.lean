import WorkflowDsl.Document.Pointer
import WorkflowDsl.Proofs.Collection.Agreement
import WorkflowDsl.Proofs.Document.Node

/-!
# Changing a tree below a pointer

The key of the item at an index is the text of this number (`Pointer.index?_eq_some_iff`). Changing
a node below a pointer keeps the keys of all mappings on the way, and changes nothing under other
keys. `Pointer.below` takes from a list of pointers those that go through a key, and lets them start
there.
-/

namespace WorkflowDsl

namespace Pointer

/-! ## Indices -/

theorem head?_toDigits_ne_zero {n : Nat} (h : n ≠ 0) : (Nat.toDigits 10 n).head? ≠ some '0' := by
  induction n using Nat.strongRecOn with
  | ind n ih =>
    rw [Nat.toDigits_eq_if (by decide)]
    split
    · next hn =>
      have hd : ∀ n < 10, n ≠ 0 → [n.digitChar].head? ≠ some '0' := by decide
      exact hd n hn h
    · next hn =>
      rw [List.head?_append_of_ne_nil _ Nat.toDigits_ne_nil]
      exact ih (n / 10) (by omega) (by omega)

/-- The text of a number denotes it as an index. -/
theorem index?_toString (n : Nat) : index? (toString n) = some n := by
  rw [index?, Nat.toString_eq_ofList_toDigits, String.toList_ofList]
  by_cases h0 : n = 0
  · subst h0
    rfl
  · have hz := head?_toDigits_ne_zero h0
    split
    · next h => simp [h] at hz
    · next h => simp [h] at hz
    · have hd : (Nat.toDigits 10 n).all Char.isDigit = true :=
        List.all_eq_true.2 fun c hc => Nat.isDigit_of_mem_toDigits (by decide) (by decide) hc
      have hn : (Nat.toDigits 10 n).isEmpty = false := by
        simp
      rw [hd, hn]
      have hf := Nat.ofDigitChars_ten_toDigits (n := n)
      rw [Nat.ofDigitChars_eq_foldl] at hf
      simpa [Nat.mul_comm] using hf

/-- The value of a digit is written as this digit. -/
theorem toDigits_of_isDigit {c : Char} (h : c.isDigit = true) :
    c.toNat - 48 < 10 ∧ Nat.toDigits 10 (c.toNat - 48) = [c] := by
  obtain ⟨hl, hu⟩ : 48 ≤ c.toNat ∧ c.toNat ≤ 57 := Char.isDigit_iff_toNat.1 h
  have hlt : c.toNat - 48 < 10 := by omega
  refine ⟨hlt, ?_⟩
  rw [Nat.toDigits_of_lt_base hlt, List.cons.injEq, ← Char.toNat_inj,
    Nat.toNat_digitChar_of_lt_ten hlt]
  exact ⟨by omega, rfl⟩

/-- Digits behind a number are written behind its digits. -/
theorem toDigits_foldl {cs : List Char} (hd : ∀ c ∈ cs, c.isDigit = true) {n : Nat} (hn : 0 < n) :
    Nat.toDigits 10 (cs.foldl (fun n c => n * 10 + (c.toNat - 48)) n) =
      Nat.toDigits 10 n ++ cs := by
  induction cs generalizing n with
  | nil => exact (List.append_nil _).symm
  | cons c cs ih =>
    obtain ⟨hc, hd⟩ := List.forall_mem_cons.1 hd
    obtain ⟨hlt, hc⟩ := toDigits_of_isDigit hc
    rw [List.foldl_cons, ih hd (by omega), Nat.mul_comm n,
      ← Nat.toDigits_append_toDigits (by decide) hn hlt, hc, List.append_assoc]
    rfl

/-- **The key of an item is the text of its index.** -/
theorem index?_eq_some_iff {key : String} {i : Nat} : index? key = some i ↔ key = toString i := by
  constructor
  · intro h
    rw [Nat.toString_eq_ofList_toDigits, ← String.toList_inj, String.toList_ofList]
    rw [index?] at h
    split at h
    · next hk =>
      obtain rfl := Option.some.inj h
      exact hk
    · cases h
    · next hz h0 =>
      split at h
      · next hc =>
        obtain rfl := Option.some.inj h
        cases hk : key.toList with
        | nil => simp [hk] at hc
        | cons c cs =>
          have hne : c ≠ '0' := by
            rintro rfl
            exact h0 cs hk
          rw [hk, Bool.and_eq_true, List.all_eq_true] at hc
          obtain ⟨hd, hds⟩ := List.forall_mem_cons.1 hc.2
          obtain ⟨hlt, hc⟩ := toDigits_of_isDigit hd
          have hpos : 0 < c.toNat - 48 := by
            refine Nat.pos_of_ne_zero fun hv => hne ?_
            rw [hv] at hc
            exact (List.cons.inj hc).1.symm
          rw [List.foldl_cons, Nat.zero_mul, Nat.zero_add, toDigits_foldl hds hpos, hc]
          rfl
      · cases h
  · rintro rfl
    exact index?_toString i
/-! ## Pointers through a key -/

/-- The rests of the pointers that go through a key. -/
def below (key : String) (ps : List Pointer) : List Pointer :=
  ps.filterMap fun
    | [] => none
    | k :: p => if k = key then some p else none

@[simp] theorem below_nil (key : String) : below key [] = [] := rfl

theorem below_cons_self (key : String) (p : Pointer) (ps : List Pointer) :
    below key ((key :: p) :: ps) = p :: below key ps := by
  simp [below]

theorem below_cons_of_ne {key k : String} (h : k ≠ key) (p : Pointer) (ps : List Pointer) :
    below key ((k :: p) :: ps) = below key ps := by
  simp [below, h]

theorem mem_below_iff {key : String} {p : Pointer} {ps : List Pointer} :
    p ∈ below key ps ↔ key :: p ∈ ps := by
  induction ps with
  | nil => simp
  | cons q ps ih =>
    cases q with
    | nil => simpa [below] using ih
    | cons k q =>
      by_cases hk : k = key
      · subst hk
        simp [below_cons_self, ih]
      · simp [below_cons_of_ne hk, ih, Ne.symm hk]

@[simp] theorem below_append (key : String) (ps qs : List Pointer) :
    below key (ps ++ qs) = below key ps ++ below key qs := List.filterMap_append

@[simp] theorem below_map_cons_comp {α : Type} (key k : String) (g : α → Pointer) (as : List α) :
    below key (as.map fun a => k :: g a) = if k = key then as.map g else [] := by
  induction as with
  | nil => simp
  | cons a as ih =>
    rw [List.map_cons]
    split
    · next h =>
      subst h
      rw [below_cons_self, ih, if_pos rfl, List.map_cons]
    · next h => rw [below_cons_of_ne h, ih, if_neg h]

@[simp] theorem below_map_cons (key k : String) (ps : List Pointer) :
    below key (ps.map fun p => k :: p) = if k = key then ps else [] := by
  rw [below_map_cons_comp key k fun p => p, List.map_id']

theorem below_flatMap {α : Type} (key : String) (as : List α) (g : α → List Pointer) :
    below key (as.flatMap g) = as.flatMap fun a => below key (g a) := by
  induction as with
  | nil => rfl
  | cons a as ih => rw [List.flatMap_cons, below_append, ih, List.flatMap_cons]

section

variable {α : Type} {k : α → String} {g : α → List Pointer} {as : List α}

theorem below_flatMap_of_not_mem {key : String} (h : key ∉ as.map k) :
    below key (as.flatMap fun a => (g a).map (k a :: ·)) = [] := by
  rw [below_flatMap, List.flatMap_eq_nil_iff]
  intro a ha
  rw [below_map_cons, if_neg]
  rintro rfl
  exact h (List.mem_map_of_mem ha)

/-- Among pointers through distinct keys, those through one of them are found. -/
theorem below_flatMap_of_mem (hn : (as.map k).Nodup) {a : α} (ha : a ∈ as) :
    below (k a) (as.flatMap fun a => (g a).map (k a :: ·)) = g a := by
  induction as with
  | nil => cases ha
  | cons b as ih =>
    rw [List.map_cons, List.nodup_cons] at hn
    rw [List.flatMap_cons, below_append, below_map_cons]
    rcases List.mem_cons.1 ha with rfl | ha
    · rw [if_pos rfl, below_flatMap_of_not_mem hn.1, List.append_nil]
    · have hne : k b ≠ k a := fun he => hn.1 (he ▸ List.mem_map_of_mem ha)
      rw [if_neg hne, List.nil_append, ih hn.2 ha]

end

/-- Pointers are distinct if those through each key are. -/
theorem nodup_of_below {ps : List Pointer} (hne : ∀ p ∈ ps, p ≠ [])
    (h : ∀ key, (below key ps).Nodup) : ps.Nodup := by
  induction ps with
  | nil => exact List.nodup_nil
  | cons p ps ih =>
    obtain ⟨hp, hps⟩ := List.forall_mem_cons.1 hne
    obtain ⟨key, q, rfl⟩ := List.exists_cons_of_ne_nil hp
    refine List.nodup_cons.2 ⟨fun hm => ?_, ih hps fun k => ?_⟩
    · have hk := h key
      rw [below_cons_self, List.nodup_cons] at hk
      exact hk.1 (mem_below_iff.2 hm)
    · have hk := h k
      by_cases hkey : key = k
      · subst hkey
        rw [below_cons_self] at hk
        exact (List.nodup_cons.1 hk).2
      · rwa [below_cons_of_ne hkey] at hk

/-- Distinct pointers behind distinct keys are distinct. -/
theorem nodup_flatMap {α : Type} {k : α → String} {g : α → List Pointer} {as : List α}
    (hn : (as.map k).Nodup) (h : ∀ a ∈ as, (g a).Nodup) :
    (as.flatMap fun a => (g a).map (k a :: ·)).Nodup := by
  refine nodup_of_below (fun p hp => ?_) fun key => ?_
  · obtain ⟨a, -, hp⟩ := List.mem_flatMap.1 hp
    obtain ⟨q, -, rfl⟩ := List.mem_map.1 hp
    exact List.cons_ne_nil _ _
  · by_cases hk : key ∈ as.map k
    · obtain ⟨a, ha, rfl⟩ := List.mem_map.1 hk
      rw [below_flatMap_of_mem hn ha]
      exact h a ha
    · rw [below_flatMap_of_not_mem hk]
      exact List.nodup_nil

/-! ## Pointers past a child -/

/-- All pointers lead further than to the children of a node. -/
def Deep (ps : List Pointer) : Prop := ∀ p ∈ ps, 1 < p.length

section

variable {ps qs : List Pointer}

theorem deep_nil : Deep [] := nofun

theorem Deep.ne_nil (h : Deep ps) : ∀ p ∈ ps, p ≠ [] := by
  rintro _ hp rfl
  exact absurd (h _ hp) (Nat.not_lt_zero 1)

theorem Deep.append (hp : Deep ps) (hq : Deep qs) : Deep (ps ++ qs) := fun p h =>
  (List.mem_append.1 h).elim (hp p) (hq p)

theorem deep_flatMap {α : Type} {as : List α} {g : α → List Pointer} (h : ∀ a ∈ as, Deep (g a)) :
    Deep (as.flatMap g) := by
  intro p hp
  obtain ⟨a, ha, hp⟩ := List.mem_flatMap.1 hp
  exact h a ha p hp

theorem deep_map_cons (key : String) (h : ∀ p ∈ ps, p ≠ []) : Deep (ps.map (key :: ·)) := by
  intro p hp
  obtain ⟨q, hq, rfl⟩ := List.mem_map.1 hp
  exact Nat.succ_lt_succ (List.length_pos_iff.2 (h q hq))

theorem Deep.map_append (keys : Pointer) (h : Deep ps) : Deep (ps.map (keys ++ ·)) := by
  intro p hp
  obtain ⟨q, hq, rfl⟩ := List.mem_map.1 hp
  have hl := h q hq
  rw [List.length_append]
  omega

end

end Pointer

namespace Node

variable {f : Node → Node} {key : String} {es : Object}

theorem agreeBut_modifyEntry : Entries.AgreeBut (· = key) es (modifyEntry f key es) := by
  induction es with
  | nil => exact .nil
  | cons e es ih =>
    rw [modifyEntry]
    split
    · next h => exact .cons ⟨rfl, .inl (by simpa using h)⟩ (Entries.AgreeBut.refl (· = key) es)
    · exact .cons ⟨rfl, .inr rfl⟩ ih

theorem get?_modifyEntry_self :
    Entries.get? (modifyEntry f key es) key = (Entries.get? es key).map f := by
  induction es with
  | nil => rfl
  | cons e es ih =>
    rw [modifyEntry, Entries.get?_cons]
    split
    · next h => rw [Entries.get?_cons, if_pos (by simpa using h), if_pos (by simpa using h)]; rfl
    · next h => rw [Entries.get?_cons, if_neg (by simpa using h), if_neg (by simpa using h), ih]

/-- At a pointer stands, after a change there, what was there, changed. -/
theorem at?_modifyAt (f : Node → Node) (p : Pointer) (n : Node) :
    (n.modifyAt f p).at? p = (n.at? p).map f := by
  induction p generalizing n with
  | nil => rfl
  | cons key p ih =>
    cases n with
    | mapping es =>
      show (Entries.get? (modifyEntry (modifyAt f p) key es) key).bind (at? p) =
        ((Entries.get? es key).bind (at? p)).map f
      rw [get?_modifyEntry_self, Option.bind_map, Option.map_bind]
      exact congrArg _ (funext ih)
    | sequence ns =>
      rw [modifyAt]
      show _ = (((Pointer.index? key).bind (ns[·]?)).bind (at? p)).map f
      split
      · next i hi =>
        have hm : (ns.modify i (modifyAt f p))[i]? = (ns[i]?).map (modifyAt f p) := by
          simp
        show ((Pointer.index? key).bind ((ns.modify i (modifyAt f p))[·]?)).bind (at? p) = _
        rw [hi, Option.bind_some, Option.bind_some, hm, Option.bind_map, Option.map_bind]
        exact congrArg _ (funext ih)
      · next hi =>
        show ((Pointer.index? key).bind (ns[·]?)).bind (at? p) = _
        rw [hi]
        rfl
    | _ => rfl

/-- A change below a pointer leaves the kind of a node if it leaves that of the node there. -/
theorem kind_modifyAt (h : ∀ n, (f n).kind = n.kind) (p : Pointer) (n : Node) :
    (n.modifyAt f p).kind = n.kind := by
  cases p with
  | nil => exact h n
  | cons key p =>
    cases n with
    | sequence ns =>
      rw [modifyAt]
      split <;> rfl
    | _ => rfl

/-! ## Distinct keys -/

/-- What stands in a tree with distinct keys has distinct keys. -/
theorem distinctKeys_of_at? {n m : Node} {p : Pointer} (hn : n.distinctKeys = true)
    (h : n.at? p = some m) : m.distinctKeys = true := by
  induction p generalizing n with
  | nil => exact Option.some.inj h ▸ hn
  | cons key p ih =>
    obtain ⟨k, hk, h⟩ := Option.bind_eq_some_iff.1 h
    refine ih ?_ h
    cases n with
    | mapping es => exact (distinctKeys_mapping.1 hn).2 _ (Entries.mem_of_get? hk)
    | sequence ns =>
      obtain ⟨i, -, hi⟩ := Option.bind_eq_some_iff.1 hk
      exact distinctKeys_sequence.1 hn _ (List.mem_of_getElem? hi)
    | _ => cases hk

theorem forall_mem_modifyEntry {P : Node → Prop} (hf : ∀ n, P n → P (f n)) (h : ∀ e ∈ es, P e.2) :
    ∀ e ∈ modifyEntry f key es, P e.2 := by
  induction es with
  | nil => exact h
  | cons e es ih =>
    rw [List.forall_mem_cons] at h
    rw [modifyEntry]
    split
    · exact List.forall_mem_cons.2 ⟨hf _ h.1, h.2⟩
    · exact List.forall_mem_cons.2 ⟨h.1, ih h.2⟩

/-- A change that leaves keys distinct does so below a pointer. -/
theorem distinctKeys_modifyAt (hf : ∀ n, n.distinctKeys = true → (f n).distinctKeys = true)
    (p : Pointer) {n : Node} (hn : n.distinctKeys = true) :
    (n.modifyAt f p).distinctKeys = true := by
  induction p generalizing n with
  | nil => exact hf n hn
  | cons key p ih =>
    cases n with
    | mapping es =>
      obtain ⟨hk, hv⟩ := distinctKeys_mapping.1 hn
      refine distinctKeys_mapping.2 ⟨?_,
        forall_mem_modifyEntry (P := fun n => n.distinctKeys = true) (fun _ => ih) hv⟩
      rwa [← agreeBut_modifyEntry.keys_eq]
    | sequence ns =>
      rw [modifyAt]
      split
      · next i _ =>
        refine distinctKeys_sequence.2 fun m hm => ?_
        obtain ⟨j, hj⟩ := List.getElem?_of_mem hm
        rw [List.getElem?_modify] at hj
        obtain ⟨k, hk, rfl⟩ := Option.map_eq_some_iff.1 hj
        have hd := distinctKeys_sequence.1 hn k (List.mem_of_getElem? hk)
        split
        · exact ih hd
        · exact hd
      · exact hn
    | _ => exact hn

end Node

end WorkflowDsl
