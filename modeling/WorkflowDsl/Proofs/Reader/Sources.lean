import WorkflowDsl.Proofs.Model.References
import WorkflowDsl.Proofs.Reader.Validity

/-!
# Sources of schemas

A schema has one source: it stands in the document, or in a resource whose URI is a reference
(`Schema.HasOneSource`). That is what the check of a schema asks for (`Schema.passes_iff`), and the
check of a document asks it of the schemas in the data models of the document and of its tasks.

It does not visit the data models of what is done for each event that a task listens for. There a
schema may be anything (`Workflow.check_listening`), and nowhere else
(`Workflow.hasOneSource_of_check_iff`).
-/

namespace WorkflowDsl

namespace Schema

/-- A schema stands in the document or outside of it, and there at a reference. -/
structure HasOneSource (s : Schema) : Prop where
  document_iff : s.document.isSome = true ↔ s.resource = none
  accepted : ∀ x, s.resource = some x → ∀ field, Format.checkUriReference field x.uri = .ok ()

theorem check_resource {s : Schema} {x : ExternalResource} (hd : s.document = none)
    (hr : s.resource = some x) (field : String) :
    s.check field = Format.checkUriReference s!"{field}.resource.endpoint.uri" x.uri := by
  have hf : ∀ endpoint : String, endpoint = s!"{field}.resource.endpoint" →
      s!"{endpoint}.uri" = s!"{field}.resource.endpoint.uri" := by
    rintro _ rfl
    exact String.append_assoc ..
  rw [check, hd, hr, ← hf _ rfl]
  rfl

/-- A schema passes exactly when it has one source. -/
theorem passes_iff {s : Schema} : s.Passes ↔ s.HasOneSource := by
  cases hd : s.document with
  | none =>
    cases hr : s.resource with
    | none =>
      refine iff_of_false (fun ⟨field, h⟩ => ?_) fun h => ?_
      · rw [check, hd, hr] at h
        cases h
      · have hs := h.document_iff.2 hr
        rw [hd] at hs
        cases hs
    | some x =>
      simp only [Passes, check_resource hd hr]
      refine ⟨fun ⟨field, h⟩ => ⟨by simp [hd, hr], fun y hy g => ?_⟩, fun h => ⟨"", h.2 x hr _⟩⟩
      obtain rfl : x = y := Option.some.inj (hr.symm.trans hy)
      exact Format.portable_checkUriReference x.uri _ g h
  | some d =>
    cases hr : s.resource with
    | none =>
      refine iff_of_true ⟨"", ?_⟩ ⟨by simp [hd, hr], by simp [hr]⟩
      rw [check, hd, hr]
    | some x =>
      refine iff_of_false (fun ⟨field, h⟩ => ?_) fun h => ?_
      · rw [check, hd, hr] at h
        cases h
      · have hn := h.document_iff.1 (by rw [hd]; rfl)
        rw [hr] at hn
        cases hn

end Schema

namespace Workflow

/-- A document that listens for an event, with a schema for what is done for each. -/
def listening (place : SchemaPlace) (s : Schema) : Workflow :=
  let subscription : Subscription Task :=
    match place with
    | .eachExport => { export_ := some { schema := some s } }
    | _ => { output := some { schema := some s } }
  ofTask (.listen
    { listener := { strategy := .endless (.one {}) }, subscription := some subscription })

/-- The check has nothing to say about the schemas for each event. -/
theorem check_listening {place : SchemaPlace} (hp : place.isSearched = false) (s : Schema) :
    (listening place s).check = .ok () ∧ (listening place s).schemas = [⟨place, s⟩] := by
  have hi : ({ name := "single", version := "1.0.0" } : DocumentInfo).check = .ok () := rfl
  have hc (h : checkTasks none "do" (listening place s).tasks = .ok ()) :
      (listening place s).check = .ok () :=
    Check.bind_eq_ok.2 ⟨hi, h⟩
  cases place with
  | eachOutput => exact ⟨hc rfl, rfl⟩
  | eachExport => exact ⟨hc rfl, rfl⟩
  | _ => cases hp

/-- **The schemas at a place have one source in all documents without violations exactly when
external resources are looked for there: everywhere but in what is done for each event.** -/
theorem hasOneSource_of_check_iff (place : SchemaPlace) :
    (∀ w : Workflow, w.check = .ok () → ∀ s ∈ w.schemas, s.place = place →
        s.schema.HasOneSource) ↔ place.isSearched = true := by
  constructor
  · intro h
    by_contra hp
    obtain ⟨hc, hs⟩ := check_listening (Bool.eq_false_iff.2 hp) {}
    have ho := h _ hc ⟨place, {}⟩ (by rw [hs]; exact List.mem_cons_self) rfl
    exact absurd (ho.document_iff.2 rfl) nofun
  · rintro hp w hc s hs rfl
    exact Schema.passes_iff.1 ((check_eq_ok_iff.1 hc).2 s hs hp)

end Workflow

end WorkflowDsl
