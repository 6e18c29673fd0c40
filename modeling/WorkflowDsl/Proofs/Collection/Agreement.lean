import WorkflowDsl.Proofs.Collection.Entries

/-!
# Entries that agree but for some keys

`Entries.AgreeBut P` says of two lists of entries that they have the same keys in the same order,
and the same values under those that are not in `P`. What is looked up under the other keys, and
what is left of the lists when some keys are taken out, is then the same or agrees again.
-/

namespace WorkflowDsl

namespace Entries

variable {α β : Type} {P Q : String → Prop} {es fs gs : Entries α} {key : String}

/-- The same keys in the same order, over values that are the same but under keys in `P`. -/
def AgreeBut (P : String → Prop) (es fs : Entries α) : Prop :=
  List.Forall₂ (fun e f => e.1 = f.1 ∧ (P e.1 ∨ e.2 = f.2)) es fs

theorem AgreeBut.refl (P : String → Prop) (es : Entries α) : AgreeBut P es es :=
  List.forall₂_same.2 fun _ _ => ⟨rfl, .inr rfl⟩

/-- It is enough that the keys of the entries that are in `P` are in `Q`. -/
theorem AgreeBut.imp_of_mem (h : AgreeBut P es fs) (hpq : ∀ key ∈ keys es, P key → Q key) :
    AgreeBut Q es fs := by
  induction h with
  | nil => exact .nil
  | @cons e _ _ _ he _ ih =>
    rw [keys_cons, List.forall_mem_cons] at hpq
    exact .cons ⟨he.1, he.2.imp_left hpq.1⟩ (ih hpq.2)

theorem AgreeBut.imp (h : AgreeBut P es fs) (hpq : ∀ key, P key → Q key) : AgreeBut Q es fs :=
  h.imp_of_mem fun key _ => hpq key

theorem AgreeBut.symm (h : AgreeBut P es fs) : AgreeBut P fs es := by
  refine h.flip.imp ?_
  rintro f e ⟨hk, hv⟩
  exact ⟨hk.symm, hv.imp (fun hp => hk ▸ hp) Eq.symm⟩

theorem AgreeBut.trans (h : AgreeBut P es fs) (h' : AgreeBut P fs gs) : AgreeBut P es gs := by
  induction h generalizing gs with
  | nil => exact h'
  | cons he _ ih =>
    cases h' with
    | cons hf h' =>
      refine .cons ⟨he.1.trans hf.1, ?_⟩ (ih h')
      rcases he.2 with hp | hv
      · exact .inl hp
      · exact hf.2.imp (fun hp => he.1 ▸ hp) hv.trans

theorem AgreeBut.keys_eq (h : AgreeBut P es fs) : keys es = keys fs := by
  induction h with
  | nil => rfl
  | cons he _ ih => rw [keys_cons, keys_cons, he.1, ih]

theorem AgreeBut.get?_eq (h : AgreeBut P es fs) (hk : ¬P key) : get? es key = get? fs key := by
  induction h with
  | nil => rfl
  | @cons e f _ _ he _ ih =>
    rw [get?_cons, get?_cons, ← he.1, ih]
    by_cases hkey : e.1 = key
    · rw [if_pos hkey, if_pos hkey, he.2.resolve_left (hkey ▸ hk)]
    · rw [if_neg hkey, if_neg hkey]

theorem AgreeBut.get?_eq_none (h : AgreeBut P es fs) : get? fs key = none ↔ get? es key = none := by
  rw [get?_eq_none_iff, get?_eq_none_iff, h.keys_eq]

theorem AgreeBut.filter (h : AgreeBut P es fs) (p : String → Bool) :
    AgreeBut P (es.filter fun e => p e.1) (fs.filter fun e => p e.1) := by
  induction h with
  | nil => exact .nil
  | @cons e f _ _ he _ ih =>
    rw [List.filter_cons, List.filter_cons, ← he.1]
    split
    · exact .cons he ih
    · exact ih

theorem AgreeBut.splitKeys_fst (h : AgreeBut P es fs) (ks : List String) :
    AgreeBut P (splitKeys es ks).1 (splitKeys fs ks).1 := by
  rw [splitKeys_eq, splitKeys_eq]
  exact h.filter fun key => ks.contains key

theorem AgreeBut.splitKeys_snd (h : AgreeBut P es fs) (ks : List String) :
    AgreeBut P (splitKeys es ks).2 (splitKeys fs ks).2 := by
  rw [splitKeys_eq, splitKeys_eq]
  exact h.filter fun key => !ks.contains key

/-- Entries that have no key in `P` agree when they are the same. -/
theorem AgreeBut.eq (h : AgreeBut P es fs) (hk : ∀ key ∈ keys es, ¬P key) : es = fs := by
  have h : AgreeBut (fun _ => False) es fs := h.imp_of_mem hk
  rw [← List.forall₂_eq_eq_eq]
  exact List.Forall₂.imp (fun _ _ he => Prod.ext he.1 (he.2.resolve_left id)) h

theorem AgreeBut.map_eq {f : String × α → β} (h : AgreeBut P es fs)
    (hf : ∀ key a b, P key → f (key, a) = f (key, b)) : es.map f = fs.map f := by
  induction h with
  | nil => rfl
  | @cons e e' _ _ he _ ih =>
    obtain ⟨key, a⟩ := e
    obtain ⟨key', b⟩ := e'
    obtain rfl : key = key' := he.1
    have heq : f (key, a) = f (key, b) :=
      he.2.elim (hf key a b) fun hv => congrArg (fun v => f (key, v)) hv
    rw [List.map_cons, List.map_cons, ih, heq]

end Entries

end WorkflowDsl
