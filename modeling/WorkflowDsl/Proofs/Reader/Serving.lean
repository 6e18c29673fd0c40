import WorkflowDsl.Proofs.Reader.Loading

/-!
# Runs that answer references

A run is followed by `Resolver.Serves`: it either answers all of its references, or else stops at
the first that has no answer, and in both cases it has asked for the URLs of exactly the references
it came to. Runs compose (`Resolver.Serves.bind`). What an answer is, and how a reference fails,
depends on what is done with the document that it means; for documents themselves it is
`Resolver.Loads` and `Resolver.LoadFails`.
-/

namespace WorkflowDsl

theorem Except.eq_ok_of_mem_toOption {ε α : Type} {x : Except ε α} {a : α} (h : a ∈ x.toOption) :
    x = .ok a := by
  cases x with
  | error e => cases h
  | ok b => exact congrArg _ (Option.some.inj h)

namespace Resolver

open Resolution (Ends ends_pure)

variable {r : Resolver} {ι α β : Type} {answers : ι → Url → Prop}
  {fails : Nat → ι → ReadError → List Url → Prop}

/-- The run answers the references one after the other, and then ends with a value that satisfies
`P`. The first reference without an answer ends it. -/
inductive Serves (r : Resolver) (answers : ι → Url → Prop)
    (fails : Nat → ι → ReadError → List Url → Prop) (x : Resolution α) (refs : List ι)
    (P : α → Prop) (log : List Url) : Prop where
  | all {a : α} {urls : List Url} (hx : Ends x log (.ok a) urls)
    (hc : ∀ n < refs.length, r.isCancelled (log.length + n) = false)
    (hu : List.Forall₂ answers refs urls) (ha : P a)
  | stops {reference : ι} {before after : List ι} {e : ReadError} {urls last : List Url}
    (hr : refs = before ++ reference :: after) (hx : Ends x log (.error e) (urls ++ last))
    (hc : ∀ n < before.length, r.isCancelled (log.length + n) = false)
    (hu : List.Forall₂ answers before urls)
    (he : fails (log.length + before.length) reference e last)

theorem serves_pure {P : α → Prop} {a : α} {log : List Url} (h : P a) :
    r.Serves answers fails (pure a) [] P log :=
  .all (ends_pure a log) (fun _ hn => absurd hn (Nat.not_lt_zero _)) .nil h

/-- Of two lists of references, the second is answered after the first. -/
theorem not_cancelled_append {refs refs' : List ι} {urls log : List Url}
    (hu : List.Forall₂ answers refs urls)
    (hc : ∀ n < refs.length, r.isCancelled (log.length + n) = false)
    (hc' : ∀ n < refs'.length, r.isCancelled ((log ++ urls).length + n) = false) :
    ∀ n < (refs ++ refs').length, r.isCancelled (log.length + n) = false := by
  intro n hn
  rw [List.length_append] at hn
  rw [List.length_append, ← hu.length_eq] at hc'
  by_cases h : n < refs.length
  · exact hc n h
  · have := hc' (n - refs.length) (by omega)
    rwa [show log.length + refs.length + (n - refs.length) = log.length + n by omega] at this

/-- A run is continued by what answers further references. -/
theorem Serves.bind {x : Resolution α} {f : α → Resolution β} {refs refs' : List ι}
    {P : α → Prop} {Q : β → Prop} {log : List Url} (hx : r.Serves answers fails x refs P log)
    (hf : ∀ {a log}, P a → r.Serves answers fails (f a) refs' Q log) :
    r.Serves answers fails (x >>= f) (refs ++ refs') Q log := by
  cases hx with
  | @stops reference before after e urls last hr hx hc hu he =>
    have hr' : refs ++ refs' = before ++ reference :: (after ++ refs') := by
      rw [hr, List.append_assoc, List.cons_append]
    exact .stops hr' hx.bind_error hc hu he
  | @all a urls hx hc hu ha =>
    cases @hf a (log ++ urls) ha with
    | all hx' hc' hu' hb =>
      exact .all (hx.bind_ok hx') (not_cancelled_append hu hc hc') (List.rel_append hu hu') hb
    | @stops reference before after e urls' last hr hx' hc' hu' he =>
      have hr' : refs ++ refs' = (refs ++ before) ++ reference :: after := by
        rw [hr, List.append_assoc]
      have hx'' := hx.bind_ok hx'
      rw [← List.append_assoc] at hx''
      refine .stops hr' hx'' (not_cancelled_append hu hc hc') (List.rel_append hu hu') ?_
      rw [List.length_append, ← hu.length_eq, Nat.add_assoc, ← List.length_append] at he
      exact he

theorem Serves.imp {x : Resolution α} {refs : List ι} {P Q : α → Prop} {log : List Url}
    (hx : r.Serves answers fails x refs P log) (h : ∀ {a}, P a → Q a) :
    r.Serves answers fails x refs Q log := by
  cases hx with
  | all hx hc hu ha => exact .all hx hc hu (h ha)
  | stops hr hx hc hu he => exact .stops hr hx hc hu he

/-! ## Documents -/

/-- A reference that means a document, and the URL asked for. -/
def Loads (r : Resolver) (reference : String) (u : Url) : Prop :=
  resolveReference r.base reference = .ok u ∧ ∃ d, r.document reference = .ok d

/-- A reference without a document, at which a run that has fetched `n` documents stops: with which
error, and after asking for which URL. -/
inductive LoadFails (r : Resolver) (n : Nat) (reference : String) :
    ReadError → List Url → Prop where
  | cancelled (hc : r.isCancelled n = true) : LoadFails r n reference .cancelled []
  | unanswered {e : ReadError} (hc : r.isCancelled n = false)
      (he : r.document reference = .error e) :
    LoadFails r n reference e (resolveReference r.base reference).toOption.toList

/-- Loading a document answers its reference. -/
theorem serves_load (reference : String) (log : List Url) :
    r.Serves r.Loads r.LoadFails (r.load reference) [reference]
      (fun d => r.document reference = .ok d) log := by
  cases hc : r.isCancelled log.length with
  | true =>
    have hx : Ends (r.load reference) log (.error .cancelled) ([] ++ []) :=
      ends_load_of_cancelled hc
    exact .stops rfl hx (fun _ hn => absurd hn (Nat.not_lt_zero _)) .nil (.cancelled hc)
  | false =>
    have hx : Ends (r.load reference) log _ _ := ends_load hc
    cases hd : r.document reference with
    | error e =>
      rw [hd, ← List.nil_append (Option.toList _)] at hx
      exact .stops rfl hx (fun _ hn => absurd hn (Nat.not_lt_zero _)) .nil (.unanswered hc hd)
    | ok d =>
      obtain ⟨u, hu, -⟩ := except_bind_eq_ok.1 hd
      rw [hd, hu] at hx
      refine .all hx (fun n hn => ?_) (.cons ⟨hu, d, hd⟩ .nil) rfl
      obtain rfl : n = 0 := Nat.lt_one_iff.1 hn
      exact hc

/-- **What a run that answers references asks for is the URL of one of them.** -/
theorem Serves.exists_of_mem {x : Resolution α} {refs : List String} {P : α → Prop}
    (hx : r.Serves r.Loads r.LoadFails x refs P []) {u : Url} (hu : u ∈ x.outcome.2) :
    ∃ reference ∈ refs, resolveReference r.base reference = .ok u := by
  cases hx with
  | all hx _ hl _ =>
    rw [hx.outcome] at hu
    obtain ⟨reference, hm, h⟩ := forall₂_exists_left hl hu
    exact ⟨reference, hm, h.1⟩
  | stops hr hx _ hl he =>
    rw [hx.outcome] at hu
    rcases List.mem_append.1 hu with hm | hm
    · obtain ⟨reference, hm, h⟩ := forall₂_exists_left hl hm
      exact ⟨reference, hr ▸ List.mem_append_left _ hm, h.1⟩
    · cases he with
      | cancelled => cases hm
      | unanswered =>
        refine ⟨_, hr ▸ List.mem_append_right _ List.mem_cons_self, ?_⟩
        exact Except.eq_ok_of_mem_toOption (Option.mem_toList.1 hm)

end Resolver

end WorkflowDsl
