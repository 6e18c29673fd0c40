import WorkflowDsl.Draft.Workflow
import WorkflowDsl.Proofs.Draft.Visits
import WorkflowDsl.Proofs.Model.Placement

/-!
# Where a declared definition is refused

A definition that is declared under `use` is checked twice: when the components are built, and when
the document is. Both go through the same checks, which find the same violations wherever they are
made (`Check.Anchored`), but the place they name is put together in two ways. A problem and a retry
policy are built by checks that already stand below a label, so their builders name the place with
it, and the check of a document without (`Declaration.place_of_refusal`).
-/

namespace WorkflowDsl

/-! ## Violations relative to a field -/

namespace Check

/-- A violation of a format is found in the same place below any field. -/
def Anchored (c : String → Check) : Prop :=
  ∀ f g value reason, c f = .error (.invalidFormat g value reason) →
    ∃ key, ∀ f', c f' = .error (.invalidFormat (f' ++ key) value reason)

theorem field_eq {f g value reason value' reason' : String}
    (h : (.error (.invalidFormat f value reason) : Check) =
      .error (.invalidFormat g value' reason')) : f = g :=
  (DefinitionError.invalidFormat.inj (Except.error.inj h)).1

namespace Anchored

variable {α : Type} {c d : String → Check}

theorem exists_key (h : Anchored c) {f g value reason : String}
    (he : c f = .error (.invalidFormat g value reason)) :
    ∃ key, g = f ++ key ∧ ∀ f', c f' = .error (.invalidFormat (f' ++ key) value reason) := by
  obtain ⟨key, hk⟩ := h _ _ _ _ he
  exact ⟨key, field_eq (he.symm.trans (hk f)), hk⟩

theorem ok : Anchored fun _ => .ok () := nofun

theorem error (value reason : String) :
    Anchored fun f => .error (.invalidFormat f value reason) := by
  intro f g value' reason' he
  obtain ⟨-, rfl, rfl⟩ := DefinitionError.invalidFormat.inj (Except.error.inj he)
  exact ⟨"", fun f' => by rw [String.append_empty]⟩

/-- A check of what stands under a key. -/
theorem under (h : Anchored c) (key : String) : Anchored fun f => c (f ++ key) := by
  intro f g value reason he
  obtain ⟨rest, hr⟩ := h _ _ _ _ he
  exact ⟨key ++ rest, fun f' => (hr _).trans (by rw [String.append_assoc])⟩

theorem bind (hc : Anchored c) (hp : Portable c) (hd : Anchored d) :
    Anchored fun f => c f >>= fun _ => d f := by
  intro f g value reason he
  obtain he | ⟨_, hok, he⟩ := except_bind_eq_error.1 he
  · obtain ⟨key, hk⟩ := hc _ _ _ _ he
    exact ⟨key, fun f' => except_bind_eq_error.2 (.inl (hk f'))⟩
  · obtain ⟨key, hk⟩ := hd _ _ _ _ he
    exact ⟨key, fun f' => except_bind_eq_error.2 (.inr ⟨(), hp f f' hok, hk f'⟩)⟩

theorem ite {p : Prop} [Decidable p] (hc : Anchored c) (hd : Anchored d) :
    Anchored fun f => if p then c f else d f := by
  by_cases hp : p
  · simpa only [if_pos hp] using hc
  · simpa only [if_neg hp] using hd

theorem option_forM {check : String → α → Check} {x : Option α}
    (h : ∀ a, Anchored fun f => check f a) : Anchored fun f => x.forM (check f) := by
  cases x with
  | none => exact ok
  | some a => exact h a

end Anchored

end Check

open Check

namespace Format

theorem anchored_checkPeriod (value : String) : Anchored fun f => checkPeriod f value :=
  .ite .ok (.error _ _)

theorem anchored_checkUri (value : String) : Anchored fun f => checkUri f value := by
  unfold checkUri readUri
  by_cases hb : isBrokenUri value = true
  · simp only [if_pos hb]
    exact .error _ _
  · simp only [if_neg hb]
    cases Url.parse value with
    | ok url => exact .ok
    | error e => exact .error _ _

theorem anchored_checkUriReference (value : String) :
    Anchored fun f => checkUriReference f value := by
  refine .ite (.error _ _) ?_
  split
  · exact .ok
  · exact .ok
  · exact .error _ _

end Format

theorem Duration.anchored_check (d : Duration) : Anchored fun f => d.check f := by
  cases d with
  | parts p => exact .ok
  | text s => exact Format.anchored_checkPeriod s

theorem Problem.anchored_check (p : Problem) : Anchored fun f => p.check f :=
  .bind ((Format.anchored_checkUriReference p.type).under ".type")
    ((Format.portable_checkUriReference p.type).comp _)
    (.ite .ok (.under (.error _ _) ".status"))

theorem Jitter.anchored_check (j : Jitter) : Anchored fun f => j.check f := by
  refine .bind (j.least.anchored_check.under ".from") (j.least.portable_check.comp _) ?_
  refine .bind (j.most.anchored_check.under ".to") (j.most.portable_check.comp _) ?_
  cases j.least.toMillis? with
  | none => exact .ok
  | some low =>
    cases j.most.toMillis? with
    | none => exact .ok
    | some high => exact .ite (.error _ _) .ok

theorem RetryPolicy.anchored_check (p : RetryPolicy) : Anchored fun f => p.check f :=
  .bind (.option_forM fun d => d.anchored_check.under ".delay")
    (.option_forM fun d => d.portable_check.comp _)
    (.option_forM fun j => j.anchored_check.under ".jitter")

/-! ## Declarations -/

/-- A definition that is declared under `use`. -/
inductive Declaration where
  | authentication (policy : Authentication)
  | problem (problem : Problem)
  | retry (policy : RetryPolicy)
  | timeout (timeout : Timeout)

namespace Declaration

def kind : Declaration → ComponentKind
  | authentication _ => .authentication
  | problem _ => .problem
  | retry _ => .retry
  | timeout _ => .timeout

/-- The path to a definition in a document. -/
def path (x : Declaration) (name : String) : List String := [s!"use.{x.kind.key}", name]

/-- What building the definition from its draft says. -/
def build : Declaration → Check
  | authentication a => verdict a.draft.build
  | problem p => verdict p.draft.build
  | retry p => verdict p.build
  | timeout t => verdict t.draft.build

/-- The check of a document, where the definition stands in a field. -/
def check (field : String) : Declaration → Check
  | authentication a => a.check field
  | problem p => p.check field
  | retry p => p.check field
  | timeout t => t.check field

/-- What a builder writes between the name of the definition and the field. -/
def label : Declaration → String
  | authentication _ | timeout _ => ""
  | problem _ => ".error"
  | retry _ => ".retry"

end Declaration

/-! ## Building components -/

/-- All checks that are made while components are built, in their order. -/
def ComponentsDraft.visits (d : ComponentsDraft) : List Visit :=
  d.authentications.map (fun a => ⟨["use.authentications", a.1], verdict a.2.build⟩) ++
    d.problems.map (fun p => ⟨["use.errors", p.1], verdict p.2.build⟩) ++
    d.functions.flatMap (fun t => t.2.visits.map (.below ["use.functions", t.1])) ++
    d.retries.map (fun r => ⟨["use.retries", r.1], verdict r.2.build⟩) ++
    d.timeouts.map (fun t => ⟨["use.timeouts", t.1], verdict t.2.build⟩)

theorem verdict_buildNamed_visits {α β : Type} {path : String}
    {build : α → Except DefinitionError β} {drafts : List (String × α)} :
    verdict (buildNamed path build drafts) =
      (drafts.map fun d => (⟨[path, d.1], verdict (build d.2)⟩ : Visit)).forM Visit.outcome := by
  rw [verdict_buildNamed, Check.list_forM_map]
  refine Check.list_forM_congr fun d _ => ?_
  rw [Visit.outcome, DefinitionError.within_eq_mapField, dotted_pair]

theorem TaskDraft.verdict_buildList {path : String} {tasks : List (String × TaskDraft)} :
    verdict (buildList path tasks) =
      (tasks.flatMap fun t => t.2.visits.map (.below [path, t.1])).forM Visit.outcome := by
  rw [buildList_eq, verdict_map, verdict_buildNamed, Check.list_forM_flatMap]
  refine Check.list_forM_congr fun t _ => ?_
  rw [Visit.forM_below, verdict_build, DefinitionError.within_eq_mapField, dotted_pair]

/-- Building components says what their visits say, one after another. -/
theorem ComponentsDraft.verdict_build (d : ComponentsDraft) :
    verdict d.build = d.visits.forM Visit.outcome := by
  unfold visits
  simp only [Check.list_forM_append, ← verdict_buildNamed_visits, ← TaskDraft.verdict_buildList,
    bind_assoc]
  exact verdict_bind fun _ _ => verdict_bind fun _ _ => verdict_bind fun _ _ =>
    verdict_bind fun _ _ => verdict_bind_ok

/-- The components have the draft of a definition under a name. -/
def ComponentsDraft.Declares (d : ComponentsDraft) (name : String) : Declaration → Prop
  | .authentication a => (name, a.draft) ∈ d.authentications
  | .problem p => (name, p.draft) ∈ d.problems
  | .retry p => (name, p) ∈ d.retries
  | .timeout t => (name, t.draft) ∈ d.timeouts

/-- A declared definition is the first of the components that cannot be built. -/
def ComponentsDraft.Refuses (d : ComponentsDraft) (name : String) (x : Declaration) : Prop :=
  d.Declares name x ∧ x.build ≠ .ok () ∧
    ∃ before after, d.visits = before ++ ⟨x.path name, x.build⟩ :: after ∧
      ∀ v ∈ before, v.check = .ok ()

/-! ## Checking documents -/

/-- All checks of the components of a document, in their order. -/
def Components.checks (c : Components) : List Check :=
  c.authentications.entries.map (fun a => a.2.check s!"use.authentications.{a.1}") ++
    c.catalogs.entries.map
      (fun k => k.2.endpoint.checkAll (some c) s!"use.catalogs.{k.1}.endpoint") ++
    c.problems.entries.map (fun p => p.2.check s!"use.errors.{p.1}") ++
    c.extensions.entries.map (fun e => e.2.check (some c) s!"use.extensions.{e.1}") ++
    c.functions.entries.map (fun t => t.2.check (some c) s!"use.functions.{t.1}" []) ++
    c.retries.entries.map (fun r => r.2.check s!"use.retries.{r.1}") ++
    c.timeouts.entries.map (fun t => t.2.check s!"use.timeouts.{t.1}")

theorem Components.check_eq (c : Components) : c.check = c.checks.forM id := by
  unfold checks
  simp only [Check.list_forM_append, Check.list_forM_map, bind_assoc]
  rfl

/-- All checks of a document, in their order. -/
def Workflow.checks (w : Workflow) : List Check :=
  [w.info.check, checkSchema "input" (w.input.bind (·.schema)),
      checkSchema "output" (w.output.bind (·.schema)),
      w.timeout.forM (TimeoutReference.check w.components "timeout"),
      w.schedule.forM Schedule.check] ++
    w.components.toList.flatMap Components.checks ++ [checkTasks w.components "do" w.tasks]

theorem Workflow.check_eq (w : Workflow) : w.check = w.checks.forM id := by
  have hc : w.components.forM Components.check =
      (w.components.toList.flatMap Components.checks).forM id := by
    rw [Check.list_forM_flatMap]
    cases w.components with
    | none => rfl
    | some c => rw [Option.toList_some, Check.list_forM_singleton, ← Components.check_eq]; rfl
  unfold checks
  rw [Check.list_forM_append, Check.list_forM_append, ← hc, Check.list_forM_singleton]
  simp only [Check.list_forM_cons, bind_assoc]
  rfl

/-- The document has a definition under a name. -/
def Workflow.Declares (w : Workflow) (name : String) (x : Declaration) : Prop :=
  ∃ c ∈ w.components,
    match x with
    | .authentication a => (name, a) ∈ c.authentications.entries
    | .problem p => (name, p) ∈ c.problems.entries
    | .retry p => (name, p) ∈ c.retries.entries
    | .timeout t => (name, t) ∈ c.timeouts.entries

/-- A declared definition is the first thing that is wrong with the document. -/
def Workflow.Refuses (w : Workflow) (name : String) (x : Declaration) : Prop :=
  w.Declares name x ∧ x.check s!"use.{x.kind.key}.{name}" ≠ .ok () ∧
    ∃ before after, w.checks = before ++ x.check s!"use.{x.kind.key}.{name}" :: after ∧
      ∀ c ∈ before, c = .ok ()

/-! ## Places -/

section

variable {field g value reason own : String}

/-- The authority of a policy is all that is refused for its format. It is checked first when the
policy is built. -/
theorem OAuth2.build_of_check {o : OAuth2}
    (h : o.check field = .error (.invalidFormat g value reason)) :
    ∃ key, g = field ++ ".authority" ++ key ∧
      o.build = .error (.invalidFormat ("authority" ++ key) value reason) := by
  unfold check at h
  by_cases hs : o.secret.isSome = true
  · rw [if_pos hs] at h
    cases h
  · rw [if_neg hs] at h
    cases ha : o.authority with
    | none =>
      rw [ha] at h
      cases h
    | some authority =>
      rw [ha] at h
      obtain h | ⟨_, -, h⟩ := except_bind_eq_error.1 h
      · obtain ⟨key, rfl, hk⟩ := (Format.anchored_checkUri authority).exists_key h
        have hn : o.secret.isNone = true := by simpa using hs
        refine ⟨key, rfl, ?_⟩
        unfold build
        rw [if_pos hn, ha]
        exact except_bind_eq_error.2 (.inl (hk "authority"))
      · -- What else a policy lacks is not a matter of format.
        repeat' split at h
        all_goals cases h

theorem Credentials.check_ne_invalidFormat (c : Credentials) :
    c.check field ≠ .error (.invalidFormat g value reason) := by
  unfold check
  repeat' split
  all_goals exact nofun

theorem BearerToken.check_ne_invalidFormat (b : BearerToken) :
    b.check field ≠ .error (.invalidFormat g value reason) := by
  unfold check
  split <;> exact nofun

theorem Duration.reason_of_check {d : Duration}
    (h : d.check field = .error (.invalidFormat g value reason)) :
    reason = "must be an ISO 8601 duration" := by
  cases d with
  | parts p => cases h
  | text s =>
    simp only [check, Format.checkPeriod] at h
    split at h
    · cases h
    · exact (DefinitionError.invalidFormat.inj (Except.error.inj h)).2.2.symm

theorem Jitter.reason_of_check {j : Jitter}
    (h : j.check field = .error (.invalidFormat g value reason)) :
    reason = "must be an ISO 8601 duration" ∨ reason = "'from' must not exceed 'to'" := by
  obtain h | ⟨_, -, h⟩ := except_bind_eq_error.1 h
  · exact .inl (Duration.reason_of_check h)
  obtain h | ⟨_, -, h⟩ := except_bind_eq_error.1 h
  · exact .inl (Duration.reason_of_check h)
  split at h
  · split at h
    · exact .inr (DefinitionError.invalidFormat.inj (Except.error.inj h)).2.2.symm
    · cases h
  · cases h

/-- That a policy allows no attempt is not found in a document. -/
theorem RetryPolicy.reason_of_check {p : RetryPolicy}
    (h : p.check field = .error (.invalidFormat g value reason)) :
    reason ≠ "at least one attempt is required" := by
  obtain h | ⟨_, -, h⟩ := except_bind_eq_error.1 h
  · cases hd : p.delay with
    | none =>
      rw [hd] at h
      cases h
    | some d =>
      rw [hd] at h
      rw [Duration.reason_of_check h]
      decide
  · cases hj : p.jitter with
    | none =>
      rw [hj] at h
      cases h
    | some j =>
      rw [hj] at h
      obtain rfl | rfl := Jitter.reason_of_check h <;> decide

theorem Authentication.refused {a : Authentication}
    (h : a.check field = .error (.invalidFormat g value reason))
    (hb : verdict a.build = .error (.invalidFormat own value reason)) :
    g = field ++ "." ++ own := by
  cases a with
  | secret name => cases h
  | basic c => exact absurd h c.check_ne_invalidFormat
  | bearer b => exact absurd h b.check_ne_invalidFormat
  | digest c => exact absurd h c.check_ne_invalidFormat
  | oauth2 o | oidc o =>
    obtain ⟨key, rfl, ho⟩ := OAuth2.build_of_check h
    rw [build, verdict_mapError, verdict_map, ho] at hb
    obtain rfl := Check.field_eq hb
    simp only [String.append_assoc]
    rfl

/-- A definition that is refused for a format in a document and by its builder is refused at the
same key, which the builder puts behind its label. -/
theorem Declaration.refused {x : Declaration}
    (h : x.check field = .error (.invalidFormat g value reason))
    (hb : x.build = .error (.invalidFormat own value reason)) :
    ∃ key, g = field ++ key ∧ "." ++ own = x.label ++ key := by
  cases x with
  | authentication a =>
    refine ⟨"." ++ own, ?_, ?_⟩
    · rw [Authentication.refused h hb, String.append_assoc]
    · exact (String.empty_append).symm
  | problem p =>
    obtain ⟨key, rfl, hk⟩ := p.anchored_check.exists_key h
    have hbuild : build (.problem p) = p.check "error" := verdict_check_ok
    rw [hbuild, hk] at hb
    obtain rfl := Check.field_eq hb
    exact ⟨key, rfl, rfl⟩
  | retry p =>
    obtain ⟨key, rfl, hk⟩ := p.anchored_check.exists_key h
    have hbuild : build (.retry p) = verdict p.build := rfl
    rw [hbuild, RetryPolicy.build] at hb
    split at hb
    · obtain ⟨-, -, rfl⟩ := DefinitionError.invalidFormat.inj (Except.error.inj hb)
      exact absurd rfl (RetryPolicy.reason_of_check h)
    · rw [verdict_check_ok, hk] at hb
      obtain rfl := Check.field_eq hb
      exact ⟨key, rfl, rfl⟩
  | timeout t =>
    obtain ⟨key, rfl, hk⟩ := t.after.anchored_check.exists_key h
    have hbuild : build (.timeout t) = t.after.check "after" := verdict_check_ok
    rw [hbuild, hk] at hb
    obtain rfl := Check.field_eq hb
    exact ⟨".after" ++ key, String.append_assoc, rfl⟩

end

namespace Declaration

variable {x : Declaration} {name : String} {d : ComponentsDraft} {w : Workflow}
  {f g value reason : String}

theorem build_of_refuses (hd : d.Refuses name x)
    (hf : d.build = .error (.invalidFormat f value reason)) :
    ∃ own, x.build = .error (.invalidFormat own value reason) ∧ f = dotted (x.path name) own := by
  obtain ⟨-, hx, before, after, hv, hbefore⟩ := hd
  have ho : Visit.outcome ⟨x.path name, x.build⟩ = .error (.invalidFormat f value reason) := by
    rw [← verdict_eq_error, ComponentsDraft.verdict_build, hv, Check.list_forM_of_split] at hf
    · exact hf
    · exact fun v hm => except_mapError_eq_ok.2 (hbefore v hm)
    · exact fun h => hx (except_mapError_eq_ok.1 h)
  obtain ⟨e, he, hm⟩ := except_mapError_eq_error.1 ho
  cases e with
  | invalidFormat own value' reason' =>
    obtain ⟨rfl, rfl, rfl⟩ := DefinitionError.invalidFormat.inj hm
    exact ⟨own, he, rfl⟩
  | _ => cases hm

theorem check_of_refuses (hw : w.Refuses name x)
    (hg : w.check = .error (.invalidFormat g value reason)) :
    x.check s!"use.{x.kind.key}.{name}" = .error (.invalidFormat g value reason) := by
  obtain ⟨-, hx, before, after, hc, hbefore⟩ := hw
  have hs : w.checks.forM id = x.check s!"use.{x.kind.key}.{name}" := by
    rw [hc]
    exact Check.list_forM_of_split hbefore hx
  rw [Workflow.check_eq] at hg
  exact hs.symm.trans hg

/-- **Builders name the place of problems and retry policies with a label.** When a declared
definition is refused for a format both by the builder of the components and by the check of the
document, for the same value and reason, the builder names the same field with `error` or `retry`
between the name and the key. So the places agree exactly for policies of authentication and
timeouts. -/
theorem place_of_refusal (hd : d.Refuses name x) (hw : w.Refuses name x)
    (hf : d.build = .error (.invalidFormat f value reason))
    (hg : w.check = .error (.invalidFormat g value reason)) :
    ∃ key : String, f = s!"use.{x.kind.key}.{name}{x.label}{key}" ∧
      g = s!"use.{x.kind.key}.{name}{key}" ∧
      (f = g ↔ x.kind = .authentication ∨ x.kind = .timeout) := by
  obtain ⟨own, hb, rfl⟩ := build_of_refuses hd hf
  obtain ⟨key, rfl, hown⟩ := refused (check_of_refuses hw hg) hb
  have hplace : dotted (x.path name) own = s!"use.{x.kind.key}.{name}" ++ (x.label ++ key) := by
    rw [← hown, dotted, path]
    simp only [List.cons_append, List.nil_append, String.intercalate_cons_cons,
      String.intercalate_singleton, String.append_assoc]
    rfl
  refine ⟨key, ?_, rfl, ?_⟩
  · rw [hplace, ← String.append_assoc]
    rfl
  · rw [hplace]
    have hlength (a b label : String) (h : a ++ (label ++ b) = a ++ b) : label.length = 0 := by
      have hl := congrArg String.length h
      simp only [String.length_append] at hl
      omega
    cases x with
    | authentication a => exact iff_of_true (by rw [label, String.empty_append]) (.inl rfl)
    | problem p =>
      refine iff_of_false (fun h => ?_) (by simp [kind])
      exact absurd (hlength _ _ _ h) (show ".error".length ≠ 0 by decide)
    | retry p =>
      refine iff_of_false (fun h => ?_) (by simp [kind])
      exact absurd (hlength _ _ _ h) (show ".retry".length ≠ 0 by decide)
    | timeout t => exact iff_of_true (by rw [label, String.empty_append]) (.inr rfl)

/-- A delay that is not a duration. -/
def overdue : RetryPolicy := { delay := some (.text "soon") }

def overdueDraft : ComponentsDraft := { retries := [("hourly", overdue)] }

def overdueDocument : Workflow where
  info := { name := "nightly", version := "1.0.0" }
  components := some { retries := .ofList [("hourly", overdue)] }
  tasks := {}

theorem place_of_refusal_overdue :
    overdueDraft.Refuses "hourly" (.retry overdue) ∧
      overdueDocument.Refuses "hourly" (.retry overdue) ∧
      overdueDraft.build = .error (.invalidFormat "use.retries.hourly.retry.delay" "soon"
        "must be an ISO 8601 duration") ∧
      overdueDocument.check = .error (.invalidFormat "use.retries.hourly.delay" "soon"
        "must be an ISO 8601 duration") ∧
      ∃ key : String, "use.retries.hourly.retry.delay" = s!"use.retries.hourly.retry{key}" ∧
        "use.retries.hourly.delay" = s!"use.retries.hourly{key}" ∧
        ("use.retries.hourly.retry.delay" = "use.retries.hourly.delay" ↔
          ComponentKind.retry = .authentication ∨ ComponentKind.retry = .timeout) := by
  have hd : overdueDraft.Refuses "hourly" (.retry overdue) :=
    ⟨List.mem_singleton.2 rfl, nofun, [], [], rfl, nofun⟩
  have hw : overdueDocument.Refuses "hourly" (.retry overdue) := by
    refine ⟨⟨_, rfl, List.mem_singleton.2 rfl⟩, nofun, [.ok (), .ok (), .ok (), .ok (), .ok ()], _,
      rfl, ?_⟩
    simp
  have hf : overdueDraft.build = .error (.invalidFormat "use.retries.hourly.retry.delay" "soon"
      "must be an ISO 8601 duration") := rfl
  have hg : overdueDocument.check = .error (.invalidFormat "use.retries.hourly.delay" "soon"
      "must be an ISO 8601 duration") := rfl
  exact ⟨hd, hw, hf, hg, place_of_refusal hd hw hf hg⟩

end Declaration

end WorkflowDsl
