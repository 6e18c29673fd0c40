import WorkflowDsl.Proofs.Draft.Feeding
import WorkflowDsl.Proofs.Model.Cardinality
import WorkflowDsl.Proofs.Model.Placement

/-!
# What checks leave to the builders

A definition that the check of a document accepts may still be refused when it is built from its
draft. `Oversight` lists the reasons, and `oversights` finds those of a definition. For each kind of
definition, building one that is accepted succeeds exactly when there is no oversight: the lemmas
`builds_draft_iff`, up to whole tasks with the tasks inside of them (`Task.builds_draft_iff`).
-/

namespace WorkflowDsl

/-- Why a builder refuses what the check of a document accepts. -/
inductive Oversight where
  /-- An emitted event without a type, or with a blank one. -/
  | untypedEvent
  /-- A retry policy that allows no attempt. -/
  | noAttempt
  /-- A container that is to be removed eventually, but not after a time, or after an ill-formed
  one. -/
  | lifetime
  /-- A strategy that ends another one, and has no filters, or an end that it may not have. -/
  | innerStrategy
  /-- A policy that takes everything from a secret with a blank name. -/
  | blankSecret
  /-- A problem that is raised by a blank name. -/
  | blankProblem
  /-- A policy that its own check refuses, at a site where that check is not made. -/
  | uncheckedPolicy
deriving DecidableEq, Repr

/-! ## Events, policies and processes -/

def Event.oversights (e : Event) : List Oversight :=
  if e.type?.all Text.isBlankText then [.untypedEvent] else []

theorem Event.builds_iff (e : Event) : Builds e.build ↔ e.oversights = [] := by
  rw [build, oversights, builds_ite_error]
  by_cases h : e.type?.all Text.isBlankText = true
  · simp [h]
  · simp [h]

def RetryPolicy.oversights (p : RetryPolicy) : List Oversight :=
  if p.maxAttempts? = some 0 then [.noAttempt] else []

theorem RetryPolicy.builds_iff {p : RetryPolicy} {field : String} (h : p.check field = .ok ()) :
    Builds p.build ↔ p.oversights = [] := by
  have hc : p.check "retry" = .ok () := p.portable_check _ _ h
  rw [build, oversights]
  dsimp only
  rw [builds_guard, builds_check_bind]
  by_cases hp : p.maxAttempts? = some 0
  · simp [hp]
  · simp [hp, hc]

theorem Timeout.builds_draft {t : Timeout} {field : String} (h : t.check field = .ok ()) :
    Builds t.draft.build := by
  have hc : t.after.check "after" = .ok () := t.after.portable_check _ _ h
  exact builds_check_bind.2 ⟨hc, builds_ok _⟩

theorem Problem.builds_draft {p : Problem} {field : String} (h : p.check field = .ok ()) :
    Builds p.draft.build := by
  have hc : p.check "error" = .ok () := p.portable_check _ _ h
  exact builds_bind.2 ⟨p, rfl, builds_check_bind.2 ⟨hc, builds_ok _⟩⟩

def Authentication.oversights : Authentication → List Oversight
  | secret name => if Text.isBlankText name then [.blankSecret] else []
  | _ => []

/-- The oversights of a policy that is not checked. -/
def Authentication.uncheckedOversights (a : Authentication) : List Oversight :=
  a.oversights ++ if (a.check "authentication").toBool then [] else [.uncheckedPolicy]

theorem Check.toBool_eq_true {c : Check} : c.toBool = true ↔ c = .ok () := by
  cases c with
  | ok u => exact iff_of_true rfl rfl
  | error e => exact iff_of_false nofun nofun

theorem Credentials.builds_iff (c : Credentials) (field : String) :
    Builds c.build ↔ c.check field = .ok () := by
  rw [build, builds_check_bind]
  simp only [builds_ok, and_true]
  exact ⟨c.portable_check _ _, c.portable_check _ _⟩

theorem Credentials.buildsDigest_iff (c : Credentials) (field : String) :
    Builds c.buildDigest ↔ c.check field = .ok () := by
  rw [buildDigest, builds_check_bind]
  simp only [builds_ok, and_true]
  exact ⟨c.portable_check _ _, c.portable_check _ _⟩

theorem BearerToken.builds_iff (b : BearerToken) (field : String) :
    Builds b.build ↔ b.check field = .ok () := by
  rw [build, builds_check_bind]
  simp only [builds_ok, and_true]
  exact ⟨b.portable_check _ _, b.portable_check _ _⟩

/-- The authority of a checked scheme is a URI, if no secret holds the credentials. -/
theorem OAuth2.checkUri_of_check {o : OAuth2} {field : String} (h : o.check field = .ok ())
    (hs : o.secret.isNone = true) : o.authority.forM (Format.checkUri "authority") = .ok () := by
  have hn : ¬o.secret.isSome = true := by simpa using hs
  rw [check, if_neg hn] at h
  refine Check.option_forM_eq_ok.2 fun authority ha => ?_
  rw [Option.mem_def.1 ha] at h
  exact Format.portable_checkUri authority _ _ (Check.bind_eq_ok.1 h).1

/-- The URI of the authority is checked once more, which finds nothing new. -/
theorem OAuth2.builds_iff (o : OAuth2) (field : String) :
    Builds o.build ↔ o.check field = .ok () := by
  rw [build]
  dsimp only
  rw [builds_guard, builds_check_bind]
  constructor
  · rintro ⟨-, hc, -⟩
    exact o.portable_check _ _ hc
  · intro h
    exact ⟨checkUri_of_check h, o.portable_check _ _ h, builds_ok o⟩

/-- A policy is built if its own check finds nothing and there is no oversight. -/
theorem Authentication.builds_draft_iff (a : Authentication) (field : String) :
    Builds a.draft.build ↔ a.check field = .ok () ∧ a.oversights = [] := by
  show Builds a.build ↔ _
  cases a with
  | secret name =>
    rw [build, builds_ite_error, check, oversights]
    by_cases hb : Text.isBlankText name = true
    · simp [hb]
    · simp [hb]
  | basic c => simpa [build, oversights, check] using c.builds_iff _
  | bearer b => simpa [build, oversights, check] using b.builds_iff _
  | digest c => simpa [build, oversights, check] using c.buildsDigest_iff _
  | oauth2 o => simpa [build, oversights, check] using o.builds_iff _
  | oidc o => simpa [build, oversights, check] using o.builds_iff _

theorem Authentication.builds_draft_iff_of_unchecked (a : Authentication) :
    Builds a.draft.build ↔ a.uncheckedOversights = [] := by
  rw [a.builds_draft_iff "authentication", uncheckedOversights, ← Check.toBool_eq_true]
  cases (a.check "authentication").toBool with
  | true => simp
  | false => simp

/-! ## Processes -/

/-- The policy that stands in an endpoint itself. -/
def Endpoint.policy? (e : Endpoint) : Option Authentication := e.authentication?.bind OneOf.first?

def ContainerProcess.oversights (p : ContainerProcess) : List Oversight :=
  match p.lifetime with
  | some { cleanup := .eventually, after := none } => [.lifetime]
  | some { after := some after, .. } =>
    if (after.check "lifetime.after").toBool then [] else [.lifetime]
  | _ => []

/-- The policy of the endpoint of a source is not checked. -/
def ScriptProcess.oversights (p : ScriptProcess) : List Oversight :=
  (p.source.bind (·.endpoint.policy?)).toList.flatMap Authentication.uncheckedOversights

def Process.oversights : Process → List Oversight
  | container p => p.oversights
  | script p => p.oversights
  | _ => []

theorem ContainerProcess.builds_iff {p : ContainerProcess} (h : ¬Text.isBlankText p.image = true) :
    Builds p.build ↔ p.oversights = [] := by
  obtain ⟨image, name, command, ports, volumes, environment, lifetime⟩ := p
  rw [build, if_neg h, oversights]
  obtain _ | ⟨cleanup, _ | after⟩ := lifetime
  · simp
  · cases cleanup with
    | always => simp
    | never => simp
    | eventually => simp
  · have ha {q : ContainerProcess} : Builds (after.check "lifetime.after" >>= fun _ => .ok q) ↔
        (if (after.check "lifetime.after").toBool then [] else [Oversight.lifetime]) = [] := by
      rw [builds_check_bind, ← Check.toBool_eq_true]
      cases (after.check "lifetime.after").toBool with
      | true => simp
      | false => simp
    cases cleanup with
    | always => exact ha
    | never => exact ha
    | eventually => exact ha

/-- A URI reference is not blank. -/
theorem Format.not_blank_of_checkUriReference {field value : String}
    (h : checkUriReference field value = .ok ()) : ¬Text.isBlankText value = true := by
  intro hb
  have hu : isBrokenUri value = true := by
    unfold isBrokenUri
    unfold Text.isBlankText at hb
    cases hs : value.toList with
    | nil => simp [String.toList_eq_nil_iff.1 hs]
    | cons c cs =>
      have hc : Text.isBlank c = true := List.all_eq_true.1 hb c (by simp [hs])
      simp [hc]
  rw [checkUriReference, if_pos hu] at h
  cases h

theorem EndpointDraft.builds_authentication (x : Option AuthenticationReference) :
    Builds (buildAuthentication (x.map (·.mapFirst Authentication.draft))) ↔
      ∀ a ∈ x.bind OneOf.first?, Builds a.draft.build := by
  obtain _ | a | name := x
  · simp [buildAuthentication]
  · simp [buildAuthentication, OneOf.mapFirst, OneOf.first?]
  · simp [buildAuthentication, OneOf.mapFirst, OneOf.first?]

theorem EndpointProperties.builds_draft_iff {e : EndpointProperties} {field : String}
    (h : Format.checkUriReference field e.uri = .ok ()) :
    Builds e.draft.build ↔ ∀ a ∈ e.authentication.bind OneOf.first?, Builds a.draft.build := by
  have hu : Format.checkUriReference "uri" e.uri = .ok () :=
    Format.portable_checkUriReference e.uri _ _ h
  have hf : e.draft.uri.filter (!Text.isBlankText ·) = some e.uri := by
    simp [draft, Format.not_blank_of_checkUriReference h]
  rw [← EndpointDraft.builds_authentication, EndpointDraft.build, hf]
  dsimp only
  rw [builds_bind]
  simp only [hu, builds_check_bind, builds_ok, and_true]
  rfl

theorem ExternalResource.builds_draft_iff {r : ExternalResource} {field : String}
    (h : r.endpoint.check field = .ok ()) :
    Builds r.draft.build ↔ ∀ a ∈ r.endpoint.policy?, Builds a.draft.build := by
  obtain ⟨name, e | uri⟩ := r
  · refine Iff.trans ?_ (EndpointProperties.builds_draft_iff (e := e) h)
    simp [draft, ResourceDraft.build, ResourceDraft.buildEndpoint, OneOf.mapFirst]
  · have hu : Endpoint.check "endpoint" (.second uri) = .ok () :=
      Endpoint.portable_check (.second uri) _ _ h
    simp [draft, ResourceDraft.build, ResourceDraft.buildEndpoint, OneOf.mapFirst,
      builds_check_bind, hu, Endpoint.policy?, Endpoint.authentication?, OneOf.first?]

theorem ScriptProcess.builds_draft_iff {p : ScriptProcess} {field : String}
    (h : (Process.script p).check field = .ok ()) : Builds p.draft.build ↔ p.oversights = [] := by
  obtain ⟨language, code, source, arguments, environment⟩ := p
  rw [Process.check] at h
  dsimp only at h
  split at h
  · cases h
  next hl =>
    have hf : (some language).filter (!Text.isBlankText ·) = some language := by simpa using hl
    rw [draft, ScriptDraft.build]
    dsimp only
    rw [hf]
    dsimp only
    rw [builds_map, oversights]
    obtain _ | code := code
    · obtain _ | source := source
      · cases h
      · have hr := ExternalResource.builds_draft_iff h
        simp only [ScriptDraft.buildSource, Option.map_some, builds_mapError, builds_map, hr,
          Authentication.builds_draft_iff_of_unchecked]
        simp
    · obtain _ | source := source
      · simp [ScriptDraft.buildSource]
      · cases h

theorem WorkflowProcess.builds_of_check {p : WorkflowProcess} {field : String}
    (h : (Process.workflow p).check field = .ok ()) : Builds p.build := by
  obtain ⟨hw, h⟩ := Check.bind_eq_ok.1 h
  obtain ⟨hn, hv⟩ := Check.bind_eq_ok.1 h
  have hne : ¬p.name.isEmpty = true := by
    intro he
    rw [String.isEmpty_iff.1 he] at hn
    cases hn
  have hve : ¬p.version.isEmpty = true := by
    intro he
    rw [String.isEmpty_iff.1 he] at hv
    cases hv
  rw [build]
  dsimp only
  rw [builds_guard, builds_guard]
  simp only [builds_check_bind]
  exact ⟨fun he => absurd he hne, fun he => absurd he hve,
    Format.portable_checkName _ _ _ hw, Format.portable_checkName _ _ _ hn,
    Format.portable_checkVersion _ _ _ hv, builds_ok p⟩

/-- What is checked of a process, and how its draft is built. -/
theorem Process.builds_draft_iff {p : Process} {field : String} (h : p.check field = .ok ()) :
    Builds p.draft.build ↔ p.oversights = [] := by
  cases p with
  | container p =>
    have hi : ¬Text.isBlankText p.image = true := by
      intro hb
      rw [check, if_pos hb] at h
      cases h
    simpa [draft, ProcessDraft.build, oversights] using ContainerProcess.builds_iff hi
  | script p =>
    have hs : Builds p.draft.build ↔ p.oversights = [] := ScriptProcess.builds_draft_iff h
    simpa [draft, ProcessDraft.build, oversights] using hs
  | shell p =>
    have hc : ¬Text.isBlankText p.command = true := by
      intro hb
      rw [check, if_pos hb] at h
      cases h
    simp [draft, ProcessDraft.build, oversights, ShellProcess.build, hc]
  | workflow p =>
    have hw : Builds p.build := WorkflowProcess.builds_of_check h
    simpa [draft, ProcessDraft.build, oversights] using hw

/-! ## Event strategies -/

namespace EventSelection

/-- The selection with its filters built from their drafts. -/
def rebuilt : EventSelection → EventSelection
  | all filters => .all (filters.map fun f => f.draft.build)
  | any filters => .any (filters.map fun f => f.draft.build)
  | one filter => .one filter.draft.build

/-- Filters of one kind are added to those there are. -/
theorem foldl_add (add : EventFilter → ListenerDraft → ListenerDraft)
    (select : List EventFilter → EventSelection)
    (ha : ∀ f fs, add f (.mk (some (select fs)) none none) =
      .mk (some (select (fs ++ [f]))) none none)
    (fs gs : List EventFilter) :
    fs.foldl (fun d f => add f d) (.mk (some (select gs)) none none) =
      .mk (some (select (gs ++ fs))) none none := by
  induction fs generalizing gs with
  | nil => rw [List.foldl_nil, List.append_nil]
  | cons f fs ih => rw [List.foldl_cons, ha, ih, List.append_assoc, List.singleton_append]

theorem draft_eq {s : EventSelection} (h : ∀ filters ∈ s.filters?, 1 ≤ filters.length) :
    s.draft = .mk (some s.rebuilt) none none := by
  cases s with
  | all filters =>
    cases filters with
    | nil => exact absurd (h [] rfl) (by simp)
    | cons f fs =>
      have ha := foldl_add .all .all (fun _ _ => rfl) (fs.map (·.draft.build)) [f.draft.build]
      rwa [List.foldl_map] at ha
  | any filters =>
    cases filters with
    | nil => exact absurd (h [] rfl) (by simp)
    | cons f fs =>
      have ha := foldl_add .any .any (fun _ _ => rfl) (fs.map (·.draft.build)) [f.draft.build]
      rwa [List.foldl_map] at ha
  | one filter => rfl

theorem draft_eq_of_not {s : EventSelection} (h : ¬∀ filters ∈ s.filters?, 1 ≤ filters.length) :
    s.draft = .mk none none none := by
  cases s with
  | all filters =>
    cases filters with
    | nil => rfl
    | cons f fs => exact absurd (by simp [filters?]) h
  | any filters =>
    cases filters with
    | nil => rfl
    | cons f fs => exact absurd (by simp [filters?]) h
  | one filter => exact absurd nofun h

theorem rebuilt_filtered {s : EventSelection} :
    (∀ filters ∈ s.rebuilt.filters?, 1 ≤ filters.length) ↔
      ∀ filters ∈ s.filters?, 1 ≤ filters.length := by
  cases s <;> simp [rebuilt, filters?]

theorem rebuilt_any {s : EventSelection} :
    (∃ filters, s.rebuilt = any filters) ↔ ∃ filters, s = any filters := by
  cases s <;> simp [rebuilt]

end EventSelection

namespace EventStrategy

/-- The strategies that end a strategy, one below the other. -/
def ends : EventStrategy → List EventStrategy
  | untilEvents _ events => events :: events.ends
  | _ => []

def oversights (s : EventStrategy) : List Oversight :=
  if s.ends.all fun e => (e.check "until").toBool then [] else [.innerStrategy]

theorem wellSized_make_rebuilt {s : EventStrategy} {u : Option (OneOf EventStrategy String)}
    (hu : u.isSome = s.until?.isSome) :
    (make s.selection.rebuilt u).WellSized ↔ s.WellSized := by
  have hs : (make s.selection.rebuilt u).selection = s.selection.rebuilt := by
    obtain _ | e | expression := u <;> rfl
  have hn : (make s.selection.rebuilt u).until?.isSome = s.until?.isSome := by
    rw [← hu]
    obtain _ | e | expression := u <;> rfl
  rw [wellSized_iff, wellSized_iff, hs, hn, EventSelection.rebuilt_filtered,
    EventSelection.rebuilt_any]

theorem builds_checked {s : EventStrategy} {u : Option (OneOf EventStrategy String)}
    (hu : u.isSome = s.until?.isSome) :
    Builds (ListenerDraft.checked s.selection.rebuilt u) ↔ s.WellSized := by
  rw [ListenerDraft.checked, builds_check_bind, check_eq_ok, wellSized_make_rebuilt hu]
  simp

/-- A strategy is built if it and all strategies that end it are well-sized. -/
theorem builds_draft_iff (s : EventStrategy) :
    Builds s.draft.buildStrategy ↔ s.WellSized ∧ ∀ e ∈ s.ends, e.WellSized := by
  induction s with
  | endless s =>
    by_cases hf : ∀ filters ∈ s.filters?, 1 ≤ filters.length
    · rw [draft, EventSelection.draft_eq hf, ListenerDraft.buildStrategy]
      have hc : Builds (ListenerDraft.checked s.rebuilt none) ↔ (endless s).WellSized :=
        builds_checked (s := endless s) rfl
      simpa [ends] using hc
    · rw [draft, EventSelection.draft_eq_of_not hf, ListenerDraft.buildStrategy]
      exact iff_of_false (not_builds_error _) fun h => hf h.1.filtered
  | untilExpression s expression =>
    by_cases hf : ∀ filters ∈ s.filters?, 1 ≤ filters.length
    · rw [draft, EventSelection.draft_eq hf, ListenerDraft.untilExpression,
        ListenerDraft.buildStrategy]
      have hc : Builds (ListenerDraft.checked s.rebuilt (some (.second expression))) ↔
          (untilExpression s expression).WellSized :=
        builds_checked (s := untilExpression s expression) rfl
      simpa [ends] using hc
    · rw [draft, EventSelection.draft_eq_of_not hf, ListenerDraft.untilExpression,
        ListenerDraft.buildStrategy]
      exact iff_of_false (not_builds_error _) fun h => hf h.1.filtered
  | untilEvents s events ih =>
    by_cases hf : ∀ filters ∈ s.filters?, 1 ≤ filters.length
    · rw [draft, EventSelection.draft_eq hf, ListenerDraft.untilListener,
        ListenerDraft.buildStrategy, ends, List.forall_mem_cons, ← ih, builds_bind]
      have hc (e : EventStrategy) : Builds (ListenerDraft.checked s.rebuilt (some (.first e))) ↔
          (untilEvents s events).WellSized := builds_checked (s := untilEvents s events) rfl
      simp only [hc, except_mapError_eq_ok]
      exact ⟨fun ⟨e, he, h⟩ => ⟨h, e, he⟩, fun ⟨h, e, he⟩ => ⟨e, he, h⟩⟩
    · rw [draft, EventSelection.draft_eq_of_not hf, ListenerDraft.untilListener,
        ListenerDraft.buildStrategy]
      exact iff_of_false (not_builds_error _) fun h => hf h.1.filtered

theorem builds_draft_iff_of_wellSized {s : EventStrategy} (h : s.WellSized) :
    Builds s.draft.buildStrategy ↔ s.oversights = [] := by
  rw [builds_draft_iff, oversights]
  simp [h, Check.toBool_eq_true, check_eq_ok]

end EventStrategy

end WorkflowDsl
