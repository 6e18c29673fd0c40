import WorkflowDsl.Error
import WorkflowDsl.Proofs.Codec.Basic

/-!
# Checks that find nothing

A check that finds nothing is made of such checks: `Check.bind_eq_ok` for one after another,
`Check.guard_eq_ok` for what is refused at once, and the lemmas on `forM` for the values of an
option or a list.
-/

namespace WorkflowDsl

namespace Check

variable {α : Type}

theorem bind_eq_ok {x : Check} {f : Unit → Check} :
    (x >>= f) = .ok () ↔ x = .ok () ∧ f () = .ok () := by
  rw [except_bind_eq_ok]
  exact ⟨fun ⟨_, hx, hf⟩ => ⟨hx, hf⟩, fun ⟨hx, hf⟩ => ⟨(), hx, hf⟩⟩

/-- What is not refused is checked further. -/
theorem guard_eq_ok {c : Prop} [Decidable c] {e : DefinitionError} {x : Check} :
    (if c then .error e else x) = .ok () ↔ ¬c ∧ x = .ok () := by
  by_cases hc : c
  · rw [if_pos hc]
    exact ⟨nofun, fun h => absurd hc h.1⟩
  · rw [if_neg hc]
    exact ⟨fun h => ⟨hc, h⟩, fun h => h.2⟩

theorem option_forM_eq_ok {f : α → Check} {x : Option α} :
    x.forM f = .ok () ↔ ∀ a ∈ x, f a = .ok () := by
  cases x with
  | none => exact ⟨fun _ => nofun, fun _ => rfl⟩
  | some a =>
    refine ⟨fun h b hb => ?_, fun h => h a rfl⟩
    obtain rfl := Option.some.inj hb
    exact h

theorem list_forM_eq_ok {f : α → Check} {as : List α} :
    as.forM f = .ok () ↔ ∀ a ∈ as, f a = .ok () := by
  induction as with
  | nil => exact ⟨fun _ => nofun, fun _ => rfl⟩
  | cons a as ih =>
    rw [List.forall_mem_cons, ← ih]
    exact bind_eq_ok

theorem list_forM_cons (f : α → Check) (a : α) (as : List α) :
    (a :: as).forM f = f a >>= fun _ => as.forM f := rfl

theorem list_forM_append (f : α → Check) (as bs : List α) :
    (as ++ bs).forM f = as.forM f >>= fun _ => bs.forM f := List.forM_append

theorem bind_ok (x : Check) : (x >>= fun _ => .ok ()) = x := by cases x <;> rfl

theorem list_forM_singleton (f : α → Check) (a : α) : [a].forM f = f a := bind_ok (f a)

/-- A list is refused for the first of its items that is. -/
theorem list_forM_eq_error {f : α → Check} {as : List α} {e : DefinitionError} :
    as.forM f = .error e ↔
      ∃ before a after, as = before ++ a :: after ∧ (∀ b ∈ before, f b = .ok ()) ∧
        f a = .error e := by
  induction as with
  | nil =>
    constructor
    · exact nofun
    · rintro ⟨before, a, after, h, -⟩
      exact absurd h (by simp)
  | cons a as ih =>
    rw [list_forM_cons]
    constructor
    · intro h
      cases ha : f a with
      | error e' =>
        rw [ha] at h
        exact ⟨[], a, as, rfl, nofun, ha.trans h⟩
      | ok u =>
        rw [ha] at h
        obtain ⟨before, b, after, rfl, hbefore, hb⟩ := ih.1 h
        exact ⟨a :: before, b, after, rfl, List.forall_mem_cons.2 ⟨ha, hbefore⟩, hb⟩
    · rintro ⟨_ | ⟨c, before⟩, b, after, h, hbefore, hb⟩
      · obtain ⟨rfl, -⟩ := List.cons.inj h
        rw [hb]
        rfl
      · obtain ⟨rfl, rfl⟩ := List.cons.inj h
        rw [List.forall_mem_cons] at hbefore
        rw [hbefore.1]
        exact ih.2 ⟨before, b, after, rfl, hbefore.2, hb⟩

/-- What is refused first decides. -/
theorem list_forM_of_split {f : α → Check} {before after : List α} {a : α}
    (hbefore : ∀ b ∈ before, f b = .ok ()) (ha : f a ≠ .ok ()) :
    (before ++ a :: after).forM f = f a := by
  cases hf : f a with
  | ok u => exact absurd hf ha
  | error e => exact list_forM_eq_error.2 ⟨before, a, after, rfl, hbefore, hf⟩

theorem list_forM_flatMap {β : Type} {f : α → List β} {g : β → Check} (as : List α) :
    (as.flatMap f).forM g = as.forM fun a => (f a).forM g := by
  induction as with
  | nil => rfl
  | cons a as ih => rw [List.flatMap_cons, list_forM_append, ih, list_forM_cons]

theorem list_forM_map {β : Type} {f : α → β} {g : β → Check} (as : List α) :
    (as.map f).forM g = as.forM fun a => g (f a) := by
  induction as with
  | nil => rfl
  | cons a as ih => rw [List.map_cons, list_forM_cons, ih, list_forM_cons]

theorem list_forM_congr {f g : α → Check} {as : List α} (h : ∀ a ∈ as, f a = g a) :
    as.forM f = as.forM g := by
  induction as with
  | nil => rfl
  | cons a as ih =>
    rw [List.forall_mem_cons] at h
    rw [list_forM_cons, list_forM_cons, h.1, ih h.2]

theorem mapError_bind {x : Check} {f : Unit → Check} {g : DefinitionError → DefinitionError} :
    (x >>= f).mapError g = x.mapError g >>= fun u => (f u).mapError g := by
  cases x <;> rfl

theorem list_forM_mapError {f : α → Check} {g : DefinitionError → DefinitionError}
    (as : List α) : (as.forM f).mapError g = as.forM fun a => (f a).mapError g := by
  induction as with
  | nil => rfl
  | cons a as ih => rw [list_forM_cons, mapError_bind, ih, list_forM_cons]

/-- A check of all entries checks each value, with its name. -/
theorem of_forM_entries {es : Entries α} {check : String × α → Check} (h : es.forM check = .ok ())
    {a : α} (ha : a ∈ es.values) : ∃ name, check (name, a) = .ok () := by
  obtain ⟨⟨name, a⟩, he, rfl⟩ := List.mem_map.1 ha
  exact ⟨name, list_forM_eq_ok.1 h _ he⟩

end Check

end WorkflowDsl
