import Mathlib.Data.List.Perm.Basic
import WorkflowDsl.Proofs.Codec.Collection

/-!
# Trees in another order

Two trees differ only in the order of keys (`Node.Reordered`) when one comes of the other by moving
entries inside of mappings, at any depth. Then they are equally deep, the one has distinct keys as
the other has (`Node.Below.of_reordered`), they are equal (`Node.beq_of_reordered`), and the
relation goes both ways (`Node.Reordered.symm`).

What reading looks at in a mapping is the same for both: under each key there stand trees that
differ only in the order of keys (`Entries.Reordered.get?_rel`), and so they do when some of the
entries are set apart.
-/

namespace WorkflowDsl

namespace Node

mutual

/-- The trees differ only in the order of the entries of mappings, at any depth. -/
def Reordered : Node → Node → Prop
  | null, null => True
  | bool a, bool b => a = b
  | number a, number b => a = b
  | string a, string b => a = b
  | sequence as, sequence bs => ReorderedItems as bs
  | mapping es, mapping fs => ∃ gs : Object, ReorderedEntries es gs ∧ gs.Perm fs
  | _, _ => False

def ReorderedItems : List Node → List Node → Prop
  | [], [] => True
  | a :: as, b :: bs => Reordered a b ∧ ReorderedItems as bs
  | _, _ => False

def ReorderedEntries : List (String × Node) → List (String × Node) → Prop
  | [], [] => True
  | (k, a) :: es, (l, b) :: fs => (k = l ∧ Reordered a b) ∧ ReorderedEntries es fs
  | _, _ => False

end

theorem reorderedItems_iff {as bs : List Node} :
    ReorderedItems as bs ↔ List.Forall₂ Reordered as bs := by
  induction as generalizing bs with
  | nil => cases bs <;> simp [ReorderedItems]
  | cons a as ih => cases bs <;> simp [ReorderedItems, ih]

theorem reorderedEntries_iff {es fs : Object} :
    ReorderedEntries es fs ↔ Entries.Matching Reordered es fs := by
  rw [Entries.Matching]
  induction es generalizing fs with
  | nil => cases fs <;> simp [ReorderedEntries]
  | cons e es ih => cases fs <;> simp [ReorderedEntries, ih]

end Node

/-- The entries differ only in their order, and in that of the entries of mappings inside. -/
def Entries.Reordered (es fs : Object) : Prop :=
  ∃ gs : Object, Matching Node.Reordered es gs ∧ gs.Perm fs

namespace Node

variable {n m : Node} {d : Nat}

theorem reordered_sequence {as bs : List Node} :
    (sequence as).Reordered (sequence bs) ↔ List.Forall₂ Reordered as bs := by
  rw [Reordered, reorderedItems_iff]

theorem reordered_mapping {es fs : Object} :
    (mapping es).Reordered (mapping fs) ↔ Entries.Reordered es fs := by
  rw [Reordered, Entries.Reordered]
  simp only [reorderedEntries_iff]

namespace Reordered

theorem of_sequence {as : List Node} (h : (sequence as).Reordered m) :
    ∃ bs, m = sequence bs ∧ List.Forall₂ Reordered as bs := by
  cases m with
  | sequence bs => exact ⟨bs, rfl, reordered_sequence.1 h⟩
  | _ => simp [Reordered] at h

theorem of_mapping {es : Object} (h : (mapping es).Reordered m) :
    ∃ fs, m = mapping fs ∧ Entries.Reordered es fs := by
  cases m with
  | mapping fs => exact ⟨fs, rfl, reordered_mapping.1 h⟩
  | _ => simp [Reordered] at h

/-- A tree without levels has no entries that could stand in another order. -/
theorem eq_of_depth_eq_zero (h : n.Reordered m) (hn : n.depth = 0) : m = n := by
  cases n with
  | null | bool | number | string => cases m <;> simp_all [Reordered]
  | sequence | mapping => simp [depth] at hn

end Reordered

theorem reordered_refl_of_depth_lt (hn : n.depth < d) : n.Reordered n := by
  induction d generalizing n with
  | zero => exact absurd hn (Nat.not_lt_zero _)
  | succ d ih =>
    cases n with
    | sequence items =>
      refine reordered_sequence.2 (List.forall₂_same.2 fun n hm => ih ?_)
      exact Nat.lt_of_lt_of_le (depth_lt_of_mem_sequence hm) (Nat.le_of_lt_succ hn)
    | mapping es =>
      refine reordered_mapping.2 ⟨es, Entries.matching_self.2 fun e he => ih ?_, .refl es⟩
      exact Nat.lt_of_lt_of_le (depth_lt_of_mem_mapping he) (Nat.le_of_lt_succ hn)
    | null => trivial
    | _ => exact rfl

theorem Reordered.refl (n : Node) : n.Reordered n :=
  reordered_refl_of_depth_lt (Nat.lt_succ_self _)

/-- Trees of fewer than `d` levels that differ only in the order of keys do so the other way. -/
theorem reordered_symm_of_depth_lt (hn : n.depth < d) (h : n.Reordered m) : m.Reordered n := by
  induction d generalizing n m with
  | zero => exact absurd hn (Nat.not_lt_zero _)
  | succ d ih =>
    cases n with
    | sequence as =>
      obtain ⟨bs, rfl, hm⟩ := h.of_sequence
      have hd : ∀ a ∈ as, a.depth < d := fun a ha =>
        Nat.lt_of_lt_of_le (depth_lt_of_mem_sequence ha) (Nat.le_of_lt_succ hn)
      refine reordered_sequence.2 (List.Forall₂.flip ?_)
      exact ((List.forall₂_and_left _ _).2 ⟨hd, hm⟩).imp fun _ _ ⟨hd, h⟩ => ih hd h
    | mapping es =>
      obtain ⟨fs, rfl, gs, hm, hp⟩ := h.of_mapping
      have hd : ∀ e ∈ es, e.2.depth < d := fun e he =>
        Nat.lt_of_lt_of_le (depth_lt_of_mem_mapping he) (Nat.le_of_lt_succ hn)
      have hm : Entries.Matching Reordered gs es := by
        refine List.Forall₂.flip (((List.forall₂_and_left _ _).2 ⟨hd, hm⟩).imp ?_)
        exact fun _ _ ⟨hd, hk, h⟩ => ⟨hk.symm, ih hd h⟩
      exact reordered_mapping.2 (List.perm_comp_forall₂ hp.symm hm)
    | _ =>
      obtain rfl := h.eq_of_depth_eq_zero rfl
      exact h

theorem Reordered.symm (h : n.Reordered m) : m.Reordered n :=
  reordered_symm_of_depth_lt (Nat.lt_succ_self _) h

end Node

namespace Entries.Reordered

variable {es fs : Object}

theorem of_perm (h : es.Perm fs) : es.Reordered fs :=
  ⟨es, matching_self.2 fun e _ => .refl e.2, h⟩

theorem keys_perm (h : es.Reordered fs) : es.keys.Perm fs.keys := by
  obtain ⟨gs, hm, hp⟩ := h
  rw [hm.keys_eq]
  exact hp.map _

theorem hasKey_eq (h : es.Reordered fs) (key : String) : es.hasKey key = fs.hasKey key := by
  rw [Bool.eq_iff_iff, hasKey_iff, hasKey_iff]
  exact h.keys_perm.mem_iff

theorem exists_mem (h : es.Reordered fs) {f : String × Node} (hf : f ∈ fs) :
    ∃ e ∈ es, e.1 = f.1 ∧ e.2.Reordered f.2 := by
  obtain ⟨gs, hm, hp⟩ := h
  exact forall₂_exists_left hm (hp.mem_iff.2 hf)

theorem filter (h : es.Reordered fs) (p : String → Bool) :
    Entries.Reordered (es.filter fun e => p e.1) (fs.filter fun e => p e.1) := by
  obtain ⟨gs, hm, hp⟩ := h
  refine ⟨gs.filter fun e => p e.1, ?_, hp.filter _⟩
  clear hp
  induction hm with
  | nil => exact .nil
  | cons he _ ih =>
    rw [List.filter_cons, List.filter_cons, he.1]
    split
    · exact .cons he ih
    · exact ih

theorem splitKeys_fst (h : es.Reordered fs) (keys : List String) :
    Entries.Reordered (es.splitKeys keys).1 (fs.splitKeys keys).1 := by
  rw [splitKeys_eq, splitKeys_eq]
  exact h.filter _

theorem splitKeys_snd (h : es.Reordered fs) (keys : List String) :
    Entries.Reordered (es.splitKeys keys).2 (fs.splitKeys keys).2 := by
  rw [splitKeys_eq, splitKeys_eq]
  exact h.filter fun key => !keys.contains key

theorem perm_left {gs : Object} (hp : es.Perm gs) (h : Entries.Reordered gs fs) :
    es.Reordered fs := by
  obtain ⟨gs', hm, hp'⟩ := h
  obtain ⟨hs, hm, hp⟩ := List.perm_comp_forall₂ hp hm
  exact ⟨hs, hm, hp.trans hp'⟩

theorem perm_right {gs : Object} (h : es.Reordered fs) (hp : fs.Perm gs) : es.Reordered gs := by
  obtain ⟨gs', hm, hp'⟩ := h
  exact ⟨gs', hm, hp'.trans hp⟩

/-- The last entry takes the place of the one that is taken out, whichever it is. -/
theorem swapErase (h : es.Reordered fs) (hn : es.keys.Nodup) (key : String) :
    Entries.Reordered (es.swapErase key) (fs.swapErase key) := by
  have hn' : fs.keys.Nodup := h.keys_perm.nodup_iff.1 hn
  exact perm_left (swapErase_perm hn key)
    ((h.filter fun k => k != key).perm_right (swapErase_perm hn' key).symm)

theorem of_singleton {key : String} {a : Node} (h : Entries.Reordered [(key, a)] fs) :
    ∃ b, fs = [(key, b)] ∧ a.Reordered b := by
  obtain ⟨gs, hm, hp⟩ := h
  obtain ⟨⟨_, b⟩, hs, ⟨rfl, hr⟩, hm', rfl⟩ := List.forall₂_cons_left_iff.1 hm
  obtain rfl := List.forall₂_nil_left_iff.1 hm'
  exact ⟨b, (List.singleton_perm.1 hp).symm, hr⟩

theorem Matching.get?_rel {α β : Type} {r : α → β → Prop} {es : Entries α} {fs : Entries β}
    (h : Matching r es fs) (key : String) : Option.Rel r (es.get? key) (fs.get? key) := by
  induction h with
  | nil => exact .none
  | cons he _ ih =>
    rw [get?_cons, get?_cons, he.1]
    split
    · exact .some he.2
    · exact ih

/-- Under each key there stand trees that differ only in the order of keys. -/
theorem get?_rel (h : es.Reordered fs) (hn : es.keys.Nodup) (key : String) :
    Option.Rel Node.Reordered (es.get? key) (fs.get? key) := by
  obtain ⟨gs, hm, hp⟩ := h
  have hn : keys gs |>.Nodup := by
    rw [← hm.keys_eq]
    exact hn
  rw [← get?_perm hp hn]
  exact Matching.get?_rel hm key

theorem get?_string (h : es.Reordered fs) (hn : es.keys.Nodup) {key s : String}
    (hs : es.get? key = some (.string s)) : fs.get? key = some (.string s) := by
  have hg := h.get?_rel hn key
  rw [hs] at hg
  generalize Entries.get? fs key = y at hg ⊢
  cases hg with
  | some hr => rw [hr.eq_of_depth_eq_zero rfl]

end Entries.Reordered

namespace Node

variable {n m : Node} {d : Nat}

theorem Below.sequence {items : List Node} (hd : 0 < d) (h : ∀ n ∈ items, n.Below d) :
    (Node.sequence items).Below (d + 1) := by
  obtain ⟨d, rfl⟩ := Nat.exists_eq_succ_of_ne_zero (Nat.ne_of_gt hd)
  exact ⟨distinctKeys_sequence.2 fun n hn => (h n hn).distinct,
    depth_sequence_lt_iff.2 fun n hn => (h n hn).depth_lt⟩

theorem Below.mapping {es : Object} (hd : 0 < d) (hn : (Entries.keys es).Nodup)
    (h : ∀ e ∈ es, e.2.Below d) : (Node.mapping es).Below (d + 1) := by
  obtain ⟨d, rfl⟩ := Nat.exists_eq_succ_of_ne_zero (Nat.ne_of_gt hd)
  exact ⟨distinctKeys_mapping.2 ⟨hn, fun e he => (h e he).distinct⟩,
    depth_mapping_lt_iff.2 fun e he => (h e he).depth_lt⟩

/-- The one has distinct keys and as few levels as the other. -/
theorem Below.of_reordered (hn : n.Below d) (h : n.Reordered m) : m.Below d := by
  induction d generalizing n m with
  | zero => exact absurd hn.depth_lt (Nat.not_lt_zero _)
  | succ d ih =>
    cases n with
    | sequence as =>
      obtain ⟨bs, rfl, hm⟩ := h.of_sequence
      have hd : 0 < d := Nat.lt_of_le_of_lt (Nat.zero_le _) (Nat.lt_of_succ_lt_succ hn.depth_lt)
      refine .sequence hd fun b hb => ?_
      obtain ⟨a, ha, hr⟩ := forall₂_exists_left hm hb
      exact ih (hn.of_mem_sequence ha) hr
    | mapping es =>
      obtain ⟨fs, rfl, hm⟩ := h.of_mapping
      have hd : 0 < d := Nat.lt_of_le_of_lt (Nat.zero_le _) (Nat.lt_of_succ_lt_succ hn.depth_lt)
      refine .mapping hd (hm.keys_perm.nodup_iff.1 hn.nodup_keys) fun f hf => ?_
      obtain ⟨e, he, -, hr⟩ := hm.exists_mem hf
      exact ih (hn.of_mem_mapping he) hr
    | _ =>
      obtain rfl := h.eq_of_depth_eq_zero rfl
      exact hn

theorem Below.depth_eq_of_reordered (hn : n.Below d) (h : n.Reordered m) : n.depth = m.depth := by
  have h1 := ((Below.of_distinct hn.distinct).of_reordered h).depth_lt
  have hm := hn.of_reordered h
  have h2 := ((Below.of_distinct hm.distinct).of_reordered h.symm).depth_lt
  omega

/-- A tree without levels equals itself. -/
theorem equal_self_of_depth_eq_zero (hn : n.depth = 0) : equal n n = true := by
  cases n with
  | null => rfl
  | bool b => simp [equal]
  | number x => cases x <;> simp [equal, Number.equal, Binary64.equal]
  | string s => simp [equal]
  | sequence | mapping => simp [depth] at hn

theorem equalItems_of_forall₂ {as bs : List Node}
    (h : List.Forall₂ (fun a b => equal a b = true) as bs) : equalItems as bs = true := by
  induction h with
  | nil => rfl
  | cons hr _ ih => rw [equalItems, hr, ih, Bool.and_self]

/-- Entries that are each found equal in `fs` by their keys. -/
theorem equalEntries_of_forall {es fs : Object}
    (h : ∀ e ∈ es, ∃ b, fs.get? e.1 = some b ∧ equal e.2 b = true) :
    equalEntries es fs = true := by
  induction es with
  | nil => rfl
  | cons e es ih =>
    obtain ⟨⟨b, hb, he⟩, ht⟩ := List.forall_mem_cons.1 h
    obtain ⟨k, n⟩ := e
    have hb : fs.lookup k = some b := hb
    rw [equalEntries, hb, ih ht, Bool.and_true]
    exact he

/-- **Trees with distinct keys that differ only in the order of keys are equal.** -/
theorem beq_of_reordered (hn : n.Below d) (h : n.Reordered m) : (n == m) = true := by
  show equal n m = true
  induction d generalizing n m with
  | zero => exact absurd hn.depth_lt (Nat.not_lt_zero _)
  | succ d ih =>
    cases n with
    | sequence as =>
      obtain ⟨bs, rfl, hm⟩ := h.of_sequence
      rw [equal]
      have hd : ∀ a ∈ as, a.Below d := fun a ha => hn.of_mem_sequence ha
      exact equalItems_of_forall₂
        (((List.forall₂_and_left _ _).2 ⟨hd, hm⟩).imp fun _ _ ⟨hd, h⟩ => ih hd h)
    | mapping es =>
      obtain ⟨fs, rfl, hm⟩ := h.of_mapping
      have hl : es.length = fs.length := by
        simpa [Entries.keys] using hm.keys_perm.length_eq
      rw [equal, hl, beq_self_eq_true, Bool.true_and]
      refine equalEntries_of_forall fun e he => ?_
      have hr := hm.get?_rel hn.nodup_keys e.1
      rw [Entries.get?_of_mem hn.nodup_keys he] at hr
      generalize Entries.get? fs e.1 = y at hr ⊢
      cases hr with
      | some hr => exact ⟨_, rfl, ih (hn.of_mem_mapping he) hr⟩
    | _ =>
      obtain rfl := h.eq_of_depth_eq_zero rfl
      exact equal_self_of_depth_eq_zero rfl

end Node

end WorkflowDsl
