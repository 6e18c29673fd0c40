import WorkflowDsl.Proofs.Model.Validation

/-!
# Checks at another place

A check is told the field that it checks, for the errors that it reports. What it finds wrong does
not depend on it: a check that finds nothing in one field finds nothing in any other
(`Check.Portable`). This is shown for what is checked in several places, in documents and in drafts.
-/

namespace WorkflowDsl

namespace Check

/-- A check that finds nothing in one field finds nothing in any other. -/
def Portable (c : String → Check) : Prop := ∀ f g, c f = .ok () → c g = .ok ()

namespace Portable

variable {α : Type} {c d : String → Check}

theorem const (c : Check) : Portable fun _ => c := fun _ _ h => h

theorem error {e : String → DefinitionError} : Portable fun f => .error (e f) := nofun

theorem comp (h : Portable c) (under : String → String) : Portable fun f => c (under f) :=
  fun f g => h (under f) (under g)

theorem bind (hc : Portable c) (hd : Portable d) : Portable fun f => c f >>= fun _ => d f := by
  intro f g h
  obtain ⟨h1, h2⟩ := bind_eq_ok.1 h
  exact bind_eq_ok.2 ⟨hc f g h1, hd f g h2⟩

theorem ite {p : Prop} [Decidable p] (hc : Portable c) (hd : Portable d) :
    Portable fun f => if p then c f else d f := by
  by_cases hp : p
  · simpa only [if_pos hp] using hc
  · simpa only [if_neg hp] using hd

theorem option_forM {check : String → α → Check} {x : Option α}
    (h : ∀ a, Portable fun f => check f a) : Portable fun f => x.forM (check f) := by
  intro f g hx
  refine option_forM_eq_ok.2 fun a ha => ?_
  exact h a f g (option_forM_eq_ok.1 hx a ha)

end Portable

end Check

open Check

/-! ## Formats -/

namespace Format

theorem portable_checkName (value : String) : Portable fun f => checkName f value :=
  .ite (.const _) .error

theorem portable_checkVersion (value : String) : Portable fun f => checkVersion f value :=
  .ite (.const _) .error

theorem portable_checkPeriod (value : String) : Portable fun f => checkPeriod f value :=
  .ite (.const _) .error

theorem portable_checkUri (value : String) : Portable fun f => checkUri f value := by
  intro f g h
  simp only [checkUri, readUri] at h ⊢
  by_cases hb : isBrokenUri value = true
  · rw [if_pos hb] at h
    cases h
  · rw [if_neg hb] at h ⊢
    cases hp : Url.parse value with
    | ok url => rfl
    | error e =>
      rw [hp] at h
      cases h

theorem portable_checkUriReference (value : String) :
    Portable fun f => checkUriReference f value := by
  refine .ite .error ?_
  intro f g h
  split at h
  · rfl
  · rfl
  · cases h

end Format

/-! ## Definitions -/

theorem Duration.portable_check (d : Duration) : Portable fun f => d.check f := by
  cases d with
  | parts p => exact .const _
  | text s => exact Format.portable_checkPeriod s

theorem Timeout.portable_check (t : Timeout) : Portable fun f => t.check f :=
  t.after.portable_check.comp _

theorem Problem.portable_check (p : Problem) : Portable fun f => p.check f :=
  .bind ((Format.portable_checkUriReference p.type).comp _) (.ite (.const _) .error)

theorem Jitter.portable_check (j : Jitter) : Portable fun f => j.check f := by
  refine .bind (j.least.portable_check.comp _) (.bind (j.most.portable_check.comp _) ?_)
  cases j.least.toMillis? with
  | none => exact .const _
  | some low =>
    cases j.most.toMillis? with
    | none => exact .const _
    | some high => exact .ite .error (.const _)

theorem RetryPolicy.portable_check (p : RetryPolicy) : Portable fun f => p.check f :=
  .bind (.option_forM fun d => d.portable_check.comp _)
    (.option_forM fun j => j.portable_check.comp _)

theorem Endpoint.portable_check (e : Endpoint) : Portable fun f => e.check f :=
  (Format.portable_checkUriReference e.uri).comp _

theorem Credentials.portable_check (c : Credentials) : Portable fun f => c.check f :=
  .ite (.ite .error (.const _)) (.ite .error (.ite .error (.const _)))

theorem BearerToken.portable_check (b : BearerToken) : Portable fun f => b.check f := by
  obtain ⟨_ | token, _ | secret⟩ := b
  · exact .error
  · exact .const _
  · exact .const _
  · exact .error

theorem OAuth2.portable_check (o : OAuth2) : Portable fun f => o.check f := by
  refine .ite (.const _) ?_
  cases o.authority with
  | none => exact .error
  | some authority =>
    refine .bind ((Format.portable_checkUri authority).comp _) ?_
    cases o.grant with
    | none => exact .error
    | some grant =>
      cases grant with
      | password => exact .ite .error (.const _)
      | tokenExchange => exact .ite .error (.const _)
      | _ => exact .const _

theorem Authentication.portable_check (a : Authentication) : Portable fun f => a.check f := by
  cases a with
  | secret name => exact .const _
  | basic c => exact c.portable_check.comp _
  | bearer b => exact b.portable_check.comp _
  | digest c => exact c.portable_check.comp _
  | oauth2 o => exact o.portable_check.comp _
  | oidc o => exact o.portable_check.comp _

end WorkflowDsl
