import WorkflowDsl.Proofs.Reader.LegacyResolution
import WorkflowDsl.Proofs.Reader.Rewriting

/-!
# Runs that end alike

Two runs end alike (`Resolution.Alike`) when they ask for the same URLs, and both succeed or both
fail. This is so of runs that answer references which mean the same one by one: how far a run comes,
and what it has asked for by then, is a matter of what its references mean
(`Resolver.Serves.alike`). It holds of the references of documents (`Resolver.determinedBy_meaning`)
as well as of those that are held in the slots of legacy workflows
(`Resolver.determinedBy_meaning_slots`).
-/

namespace WorkflowDsl

theorem rel_toOption_imp {ε ε' α β : Type} {P Q : α → β → Prop} {x : Except ε α} {y : Except ε' β}
    (h : Option.Rel P x.toOption y.toOption) (hpq : ∀ a b, x = .ok a → y = .ok b → P a b → Q a b) :
    Option.Rel Q x.toOption y.toOption := by
  cases x with
  | error e =>
    cases y with
    | error e' => exact .none
    | ok b => cases h
  | ok a =>
    cases y with
    | error e' => cases h
    | ok b =>
      cases h with
      | some h => exact .some (hpq a b rfl rfl h)

/-- The runs ask for the same URLs, and both end with values that `P` relates, or both fail. -/
structure Resolution.Alike {α β : Type} (P : α → β → Prop) (x : Resolution α) (y : Resolution β) :
    Prop where
  urls : y.outcome.2 = x.outcome.2
  values : Option.Rel P x.outcome.1.toOption y.outcome.1.toOption

theorem Resolution.Alike.refl {α : Type} {P : α → α → Prop} (h : ∀ a, P a a) (x : Resolution α) :
    x.Alike P x := by
  refine ⟨rfl, ?_⟩
  cases x.outcome.1 with
  | error e => exact .none
  | ok a => exact .some (h a)

theorem Resolution.Alike.imp {α β : Type} {P Q : α → β → Prop} {x : Resolution α}
    {y : Resolution β} (h : x.Alike P y)
    (hpq : ∀ a b, x.outcome.1 = .ok a → y.outcome.1 = .ok b → P a b → Q a b) : x.Alike Q y :=
  ⟨h.urls, rel_toOption_imp h.values hpq⟩

namespace Resolver

variable {r : Resolver}

section

variable {ι κ α β : Type} {answers : ι → Url → Prop} {fails : Nat → ι → ReadError → List Url → Prop}
  {key : ι → κ} {x : Resolution α} {y : Resolution β} {P : α → Prop} {Q : β → Prop}

/-- Whether a reference has an answer, and what is asked for, is determined by the key of the
reference. -/
structure DeterminedBy (r : Resolver) (answers : ι → Url → Prop)
    (fails : Nat → ι → ReadError → List Url → Prop) (key : ι → κ) : Prop where
  url : ∀ {a b u u'}, key a = key b → answers a u → answers b u' → u = u'
  cancelled : ∀ {a b u n e last}, key a = key b → answers a u → fails n b e last →
    r.isCancelled n = true
  last : ∀ {a b n e e' last last'}, key a = key b → fails n a e last → fails n b e' last' →
    last = last'

namespace DeterminedBy

variable (h : r.DeterminedBy answers fails key)
include h

theorem urls_eq {as bs : List ι} {us us' : List Url} (hk : as.map key = bs.map key)
    (ha : List.Forall₂ answers as us) (hb : List.Forall₂ answers bs us') : us = us' := by
  induction ha generalizing bs us' with
  | nil =>
    obtain rfl := List.map_eq_nil_iff.1 hk.symm
    cases hb
    rfl
  | cons ha _ ih =>
    cases hb with
    | nil => cases hk
    | cons hb hbs =>
      obtain ⟨hk, hks⟩ := List.cons.inj hk
      rw [h.url hk ha hb, ih hks hbs]

/-- References are answered only up to where another run stops. -/
theorem length_le {done before after : List ι} (rest : List ι) {reference : ι} {urls last : List Url}
    {e : ReadError} (hk : (done ++ rest).map key = (before ++ reference :: after).map key)
    (hu : List.Forall₂ answers done urls) (hc : ∀ n < done.length, r.isCancelled n = false)
    (he : fails before.length reference e last) : done.length ≤ before.length := by
  by_contra hl
  rw [Nat.not_le] at hl
  obtain ⟨d, x, d', rfl, hd⟩ : ∃ d x d', done = d ++ x :: d' ∧ d.length = before.length :=
    ⟨done.take before.length, done[before.length], done.drop (before.length + 1), by simp,
      by simp; omega⟩
  rw [List.append_assoc, List.cons_append, List.map_append, List.map_append] at hk
  obtain ⟨-, hk⟩ := List.append_inj hk (by simpa using hd)
  obtain ⟨hk, -⟩ := List.cons.inj hk
  obtain ⟨u, -, hu⟩ := forall₂_exists_left hu.flip
    (List.mem_append_right d (List.mem_cons_self (a := x) (l := d')))
  exact absurd (h.cancelled hk hu he) (ne_true_of_eq_false (hc _ hl))

/-- Where all references are answered, no other run stops. -/
theorem not_fails {done before after : List ι} {reference : ι} {urls last : List Url}
    {e : ReadError} (hk : done.map key = (before ++ reference :: after).map key)
    (hu : List.Forall₂ answers done urls) (hc : ∀ n < done.length, r.isCancelled n = false) :
    ¬fails before.length reference e last := by
  intro he
  have hlen : done.length = (before ++ reference :: after).length := by
    simpa only [List.length_map] using congrArg List.length hk
  rw [← List.append_nil done] at hk
  have hle := h.length_le [] hk hu hc he
  rw [List.length_append, List.length_cons] at hlen
  omega

end DeterminedBy

/-- **Runs that answer references with the same keys end alike.** -/
theorem Serves.alike (h : r.DeterminedBy answers fails key) {refs refs' : List ι}
    (hk : refs.map key = refs'.map key) (hx : r.Serves answers fails x refs P [])
    (hy : r.Serves answers fails y refs' Q []) : x.Alike (fun a b => P a ∧ Q b) y := by
  cases hx with
  | all hx hc hu ha =>
    simp only [List.length_nil, Nat.zero_add] at hc
    cases hy with
    | all hy _ hu' hb =>
      refine ⟨?_, ?_⟩
      · rw [hx.outcome, hy.outcome, h.urls_eq hk hu hu']
      · rw [hx.outcome, hy.outcome]
        exact .some ⟨ha, hb⟩
    | stops hr hy _ _ he =>
      rw [List.length_nil, Nat.zero_add] at he
      exact absurd he (h.not_fails (hr ▸ hk) hu hc)
  | @stops reference before after e urls last hr hx hc hu he =>
    rw [List.length_nil, Nat.zero_add] at he
    simp only [List.length_nil, Nat.zero_add] at hc
    cases hy with
    | all hy hc' hu' _ =>
      simp only [List.length_nil, Nat.zero_add] at hc'
      exact absurd he (h.not_fails (hr ▸ hk.symm) hu' hc')
    | @stops reference' before' after' e' urls' last' hr' hy hc' hu' he' =>
      rw [List.length_nil, Nat.zero_add] at he'
      simp only [List.length_nil, Nat.zero_add] at hc'
      rw [hr, hr'] at hk
      -- Neither run comes further than the other one.
      have hl := Nat.le_antisymm (h.length_le _ hk hu hc he') (h.length_le _ hk.symm hu' hc' he)
      rw [List.map_append, List.map_append] at hk
      obtain ⟨hkb, hk⟩ := List.append_inj hk (by simpa using hl)
      obtain ⟨hk, -⟩ := List.cons.inj hk
      rw [← hl] at he'
      refine ⟨?_, ?_⟩
      · rw [hx.outcome, hy.outcome, h.urls_eq hkb hu hu', h.last hk he he']
      · rw [hx.outcome, hy.outcome]
        exact .none

end

/-! ## References that mean the same -/

/-- The document of a reference is that of the URL that it means. -/
theorem toOption_document (r : Resolver) (reference : String) :
    (r.document reference).toOption =
      (meaning r.base reference).bind fun u => (r.fetcher u >>= readDetected).toOption := by
  rw [document, meaning]
  cases resolveReference r.base reference <;> rfl

theorem toOption_document_congr {s s' : String} (h : meaning r.base s = meaning r.base s') :
    (r.document s).toOption = (r.document s').toOption := by
  rw [toOption_document, toOption_document, h]

theorem meaning_of_ok {s : String} {u : Url} (h : resolveReference r.base s = .ok u) :
    meaning r.base s = some u := by
  rw [meaning, h]
  rfl

theorem determinedBy_meaning : r.DeterminedBy r.Loads r.LoadFails (meaning r.base) where
  url hk ha hb := by
    rw [meaning_of_ok ha.1, meaning_of_ok hb.1] at hk
    exact Option.some.inj hk
  cancelled hk ha he := by
    obtain ⟨-, d, hd⟩ := ha
    cases he with
    | cancelled hc => exact hc
    | unanswered _ he =>
      have ht := toOption_document_congr hk
      rw [hd, he] at ht
      cases ht
  last {a b n e e' last last'} hk he he' := by
    cases he with
    | cancelled hc =>
      cases he' with
      | cancelled => rfl
      | unanswered hc' => exact absurd hc (ne_true_of_eq_false hc')
    | unanswered hc =>
      cases he' with
      | cancelled hc' => exact absurd hc' (ne_true_of_eq_false hc)
      | unanswered =>
        show (meaning r.base a).toList = (meaning r.base b).toList
        rw [hk]

/-- The answer of a reference in a slot is that of the URL that it means. -/
theorem toOption_answer_congr (slot : Legacy.Slot) {s s' : String}
    (h : meaning r.base s = meaning r.base s') :
    (r.answer slot s).toOption = (r.answer slot s').toOption := by
  have ha (s : String) : (r.answer slot s).toOption = (r.document s).toOption.bind fun d =>
      (slot.codec.read ((d.get? slot.field).getD d)).toOption := by
    rw [answer]
    cases r.document s with
    | error e => rfl
    | ok d => exact toOption_mapError _ _
  rw [ha, ha, toOption_document_congr h]

theorem determinedBy_meaning_slots :
    r.DeterminedBy r.Answers (fun n p => r.Fails n p.1 p.2) fun p => (p.1, meaning r.base p.2) where
  url hk ha hb := by
    obtain ⟨-, hk⟩ := Prod.mk.inj hk
    rw [meaning_of_ok ha.1, meaning_of_ok hb.1] at hk
    exact Option.some.inj hk
  cancelled {a b u n e last} hk ha he := by
    obtain ⟨slot, s⟩ := a
    obtain ⟨slot', s'⟩ := b
    obtain ⟨hs, hk⟩ := Prod.mk.inj hk
    obtain rfl : slot = slot' := hs
    obtain ⟨-, d, hd⟩ := ha
    cases he with
    | cancelled hc => exact hc
    | unanswered _ he =>
      have ht := toOption_answer_congr slot hk
      rw [hd, he] at ht
      cases ht
  last {a b n e e' last last'} hk he he' := by
    obtain ⟨-, hk⟩ := Prod.mk.inj hk
    cases he with
    | cancelled hc =>
      cases he' with
      | cancelled => rfl
      | unanswered hc' => exact absurd hc (ne_true_of_eq_false hc')
    | unanswered hc =>
      cases he' with
      | cancelled hc' => exact absurd hc' (ne_true_of_eq_false hc)
      | unanswered =>
        show (meaning r.base a.2).toList = (meaning r.base b.2).toList
        rw [hk]

end Resolver

end WorkflowDsl
