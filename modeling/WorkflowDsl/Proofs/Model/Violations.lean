import WorkflowDsl.Model.Validation
import WorkflowDsl.Proofs.Check

/-!
# Which violations a check reports

`OnlyErrors P x` says that all errors with which `x` can fail satisfy `P`. It is put together along
the way in which checks are.

Most checks look at the texts of one definition. None of them reports that there are too few entries
or that a jump leads nowhere (`IsAboutTexts`): this is said here once for each kind of definition,
so that these reports can be traced to the checks of tasks and strategies.
-/

namespace WorkflowDsl

/-! ## Errors of a check -/

section

variable {α β : Type} {P Q : DefinitionError → Prop}

/-- All errors with which the computation can fail satisfy `P`. -/
def OnlyErrors (P : DefinitionError → Prop) (x : Except DefinitionError α) : Prop :=
  ∀ e, x = .error e → P e

namespace OnlyErrors

variable {x : Except DefinitionError α} {f : α → Except DefinitionError β}

theorem ok (a : α) : OnlyErrors P (.ok a) := nofun

theorem error {e : DefinitionError} (h : P e) : OnlyErrors P (.error e : Except _ α) := by
  intro e' he
  obtain rfl := Except.error.inj he
  exact h

theorem imp (hx : OnlyErrors P x) (h : ∀ e, P e → Q e) : OnlyErrors Q x :=
  fun e he => h e (hx e he)

theorem bind (hx : OnlyErrors P x) (hf : ∀ a, OnlyErrors P (f a)) : OnlyErrors P (x >>= f) := by
  intro e he
  obtain he | ⟨a, -, he⟩ := except_bind_eq_error.1 he
  · exact hx e he
  · exact hf a e he

theorem map {g : α → β} (hx : OnlyErrors P x) : OnlyErrors P (x.map g) := by
  cases x with
  | ok a => exact ok _
  | error e => exact error (hx e rfl)

theorem mapError {ε : Type} {x : Except ε α} {g : ε → DefinitionError} (h : ∀ e, P (g e)) :
    OnlyErrors P (x.mapError g) := by
  cases x with
  | ok a => exact ok _
  | error e => exact error (h e)

theorem ite {c : Prop} [Decidable c] {y : Except DefinitionError α} (hx : c → OnlyErrors P x)
    (hy : ¬c → OnlyErrors P y) : OnlyErrors P (if c then x else y) := by
  by_cases hc : c
  · rw [if_pos hc]
    exact hx hc
  · rw [if_neg hc]
    exact hy hc

theorem option_forM {check : α → Check} {a? : Option α} (h : ∀ a ∈ a?, OnlyErrors P (check a)) :
    OnlyErrors P (a?.forM check) := by
  cases a? with
  | none => exact ok ()
  | some a => exact h a rfl

theorem list_forM {check : α → Check} {as : List α} (h : ∀ a ∈ as, OnlyErrors P (check a)) :
    OnlyErrors P (as.forM check) := by
  intro e he
  obtain ⟨before, a, after, rfl, -, he⟩ := Check.list_forM_eq_error.1 he
  exact h a (by simp) e he

/-- What a node cannot be converted to is told by a text. -/
theorem decode {c : Codec α} {n : Node} (h : ∀ detail, P (.serialization detail)) :
    OnlyErrors P (c.decode n) :=
  mapError fun _ => h _

end OnlyErrors

end

/-! ## Checks of texts -/

/-- The error tells neither of a number of entries nor of a jump. -/
def DefinitionError.IsAboutTexts : DefinitionError → Prop
  | cardinality .. => False
  | invalidFormat _ _ reason => reason ≠ "must name a task of the same list"
  | _ => True

open DefinitionError

section

variable {field : String} {components : Option Components}

theorem isAboutTexts_of_reason {value reason : String}
    (h : reason ≠ "must name a task of the same list") :
    IsAboutTexts (.invalidFormat field value reason) := h

/-- A reason that begins with other words, and goes on. -/
theorem isAboutTexts_of_detail {value stem detail : String} (h : stem.toList[5]? = some 'b') :
    IsAboutTexts (.invalidFormat field value (stem ++ detail)) := by
  -- "must be" and "must name" part at the sixth character, whatever the detail is.
  intro he
  obtain ⟨hl, -⟩ := List.getElem?_eq_some_iff.1 h
  have hc := congrArg (fun s : String => s.toList[5]?) he
  simp only [String.toList_append, List.getElem?_append_left hl, h] at hc
  exact absurd hc (by decide)

namespace Format

theorem onlyErrors_checkName (value : String) :
    OnlyErrors IsAboutTexts (checkName field value) :=
  .ite (fun _ => .ok ()) fun _ => .error (isAboutTexts_of_reason (by decide))

theorem onlyErrors_checkVersion (value : String) :
    OnlyErrors IsAboutTexts (checkVersion field value) :=
  .ite (fun _ => .ok ()) fun _ => .error (isAboutTexts_of_reason (by decide))

theorem onlyErrors_checkPeriod (value : String) :
    OnlyErrors IsAboutTexts (checkPeriod field value) :=
  .ite (fun _ => .ok ()) fun _ => .error (isAboutTexts_of_reason (by decide))

theorem onlyErrors_checkUri (value : String) : OnlyErrors IsAboutTexts (checkUri field value) := by
  refine .map (.ite (fun _ => .error ?_) fun _ => .mapError fun e => ?_)
  · exact isAboutTexts_of_reason (by decide)
  · exact isAboutTexts_of_detail (by decide)

theorem onlyErrors_checkUriReference (value : String) :
    OnlyErrors IsAboutTexts (checkUriReference field value) := by
  refine .ite (fun _ => .error (isAboutTexts_of_reason (by decide))) fun _ => ?_
  split
  · exact .ok ()
  · exact .ok ()
  · exact .error (isAboutTexts_of_detail (by decide))

end Format

/-! ## Checks of definitions -/

theorem Duration.onlyErrors_check (d : Duration) : OnlyErrors IsAboutTexts (d.check field) := by
  cases d with
  | parts p => exact .ok ()
  | text s => exact Format.onlyErrors_checkPeriod s

theorem Timeout.onlyErrors_check (t : Timeout) : OnlyErrors IsAboutTexts (t.check field) :=
  t.after.onlyErrors_check

theorem Problem.onlyErrors_check (p : Problem) : OnlyErrors IsAboutTexts (p.check field) :=
  .bind (Format.onlyErrors_checkUriReference p.type) fun _ =>
    .ite (fun _ => .ok ()) fun _ => .error (isAboutTexts_of_reason (by decide))

theorem Jitter.onlyErrors_check (j : Jitter) : OnlyErrors IsAboutTexts (j.check field) := by
  refine .bind j.least.onlyErrors_check fun _ => .bind j.most.onlyErrors_check fun _ => ?_
  split
  · exact .ite (fun _ => .error (isAboutTexts_of_reason (by decide))) fun _ => .ok ()
  · exact .ok ()

theorem RetryPolicy.onlyErrors_check (p : RetryPolicy) :
    OnlyErrors IsAboutTexts (p.check field) :=
  .bind (.option_forM fun d _ => d.onlyErrors_check) fun _ =>
    .option_forM fun j _ => j.onlyErrors_check

theorem Credentials.onlyErrors_check (c : Credentials) :
    OnlyErrors IsAboutTexts (c.check field) :=
  .ite (fun _ => .ite (fun _ => .error trivial) fun _ => .ok ()) fun _ =>
    .ite (fun _ => .error trivial) fun _ => .ite (fun _ => .error trivial) fun _ => .ok ()

theorem BearerToken.onlyErrors_check (b : BearerToken) :
    OnlyErrors IsAboutTexts (b.check field) := by
  obtain ⟨_ | token, _ | secret⟩ := b
  · exact .error trivial
  · exact .ok ()
  · exact .ok ()
  · exact .error trivial

theorem OAuth2.onlyErrors_check (o : OAuth2) : OnlyErrors IsAboutTexts (o.check field) := by
  refine .ite (fun _ => .ok ()) fun _ => ?_
  cases o.authority with
  | none => exact .error trivial
  | some authority =>
    refine .bind (Format.onlyErrors_checkUri authority) fun _ => ?_
    cases o.grant with
    | none => exact .error trivial
    | some grant =>
      cases grant with
      | password => exact .ite (fun _ => .error trivial) fun _ => .ok ()
      | tokenExchange => exact .ite (fun _ => .error trivial) fun _ => .ok ()
      | _ => exact .ok ()

theorem Authentication.onlyErrors_check (a : Authentication) :
    OnlyErrors IsAboutTexts (a.check field) := by
  cases a with
  | secret name => exact .ok ()
  | basic c => exact c.onlyErrors_check
  | bearer b => exact b.onlyErrors_check
  | digest c => exact c.onlyErrors_check
  | oauth2 o => exact o.onlyErrors_check
  | oidc o => exact o.onlyErrors_check

theorem Endpoint.onlyErrors_check (e : Endpoint) : OnlyErrors IsAboutTexts (e.check field) :=
  Format.onlyErrors_checkUriReference e.uri

theorem onlyErrors_checkSchema (schema : Option Schema) :
    OnlyErrors IsAboutTexts (checkSchema field schema) := by
  cases schema with
  | none => exact .ok ()
  | some s =>
    rw [checkSchema, Schema.check]
    split
    · exact .error trivial
    · exact .error trivial
    · exact Endpoint.onlyErrors_check _
    · exact .ok ()

theorem Process.onlyErrors_check (p : Process) : OnlyErrors IsAboutTexts (p.check field) := by
  cases p with
  | container p => exact .ite (fun _ => .error trivial) fun _ => .ok ()
  | script p =>
    refine .ite (fun _ => .error trivial) fun _ => ?_
    split
    · exact .error trivial
    · exact .error trivial
    · exact Endpoint.onlyErrors_check _
    · exact .ok ()
  | shell p => exact .ite (fun _ => .error trivial) fun _ => .ok ()
  | workflow p =>
    exact .bind (Format.onlyErrors_checkName _) fun _ =>
      .bind (Format.onlyErrors_checkName _) fun _ => Format.onlyErrors_checkVersion _

theorem DocumentInfo.onlyErrors_check (d : DocumentInfo) : OnlyErrors IsAboutTexts d.check :=
  .bind (Format.onlyErrors_checkName _) fun _ => .bind (Format.onlyErrors_checkName _) fun _ =>
    .bind (Format.onlyErrors_checkVersion _) fun _ => Format.onlyErrors_checkVersion _

/-! ## Checks of references -/

theorem onlyErrors_checkReference (kind : ComponentKind) (name : String) :
    OnlyErrors IsAboutTexts (checkReference components kind field name) := by
  refine .ite (fun _ => .ok ()) fun _ => .error (isAboutTexts_of_reason ?_)
  cases kind <;> decide

theorem AuthenticationReference.onlyErrors_check (a : AuthenticationReference) :
    OnlyErrors IsAboutTexts (a.check components field) := by
  cases a with
  | first policy => exact policy.onlyErrors_check
  | second name => exact onlyErrors_checkReference _ name

theorem TimeoutReference.onlyErrors_check (t : TimeoutReference) :
    OnlyErrors IsAboutTexts (t.check components field) := by
  cases t with
  | first timeout => exact timeout.onlyErrors_check
  | second name => exact onlyErrors_checkReference _ name

theorem ProblemReference.onlyErrors_check (p : ProblemReference) :
    OnlyErrors IsAboutTexts (p.check components field) := by
  cases p with
  | first problem => exact problem.onlyErrors_check
  | second name => exact onlyErrors_checkReference _ name

theorem RetryReference.onlyErrors_check (r : RetryReference) :
    OnlyErrors IsAboutTexts (r.check components field) := by
  cases r with
  | first policy => exact policy.onlyErrors_check
  | second name => exact onlyErrors_checkReference _ name

theorem Endpoint.onlyErrors_checkAll (e : Endpoint) :
    OnlyErrors IsAboutTexts (e.checkAll components field) :=
  .bind e.onlyErrors_check fun _ =>
    .option_forM fun a _ => AuthenticationReference.onlyErrors_check a

theorem Call.onlyErrors_arguments? {α : Type} (c : Call) (codec : Codec α) (function : String) :
    OnlyErrors IsAboutTexts (c.arguments? codec function) :=
  .ite (fun _ => .map (.decode fun _ => trivial)) fun _ => .ok none

theorem Call.onlyErrors_check (c : Call) : OnlyErrors IsAboutTexts (c.check components field) := by
  have hp (key : String) (a : Option AuthenticationReference) : OnlyErrors IsAboutTexts
      (a.forM (AuthenticationReference.check components s!"{field}.with.{key}authentication")) :=
    .option_forM fun a _ => AuthenticationReference.onlyErrors_check a
  refine .ite (fun _ => .error trivial) fun _ => ?_
  refine .bind (c.onlyErrors_arguments? _ _) fun http => ?_
  refine .bind (.option_forM fun a _ => a.endpoint.onlyErrors_checkAll) fun _ => ?_
  refine .bind (c.onlyErrors_arguments? _ _) fun grpc => ?_
  refine .bind (.option_forM fun a _ => ?_) fun _ => ?_
  · exact .bind a.proto.endpoint.onlyErrors_checkAll fun _ => hp _ _
  refine .bind (c.onlyErrors_arguments? _ _) fun openApi => ?_
  refine .bind (.option_forM fun a _ => ?_) fun _ => ?_
  · exact .bind a.document.endpoint.onlyErrors_checkAll fun _ => hp _ _
  refine .bind (c.onlyErrors_arguments? _ _) fun asyncApi => ?_
  exact .option_forM fun a _ => a.document.endpoint.onlyErrors_checkAll

end

end WorkflowDsl
