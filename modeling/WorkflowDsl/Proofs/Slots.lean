import WorkflowDsl.Proofs.Codec.Slot
import WorkflowDsl.Proofs.Legacy.Stable
import WorkflowDsl.Proofs.Model.Lossless
import WorkflowDsl.Proofs.Unions

/-!
# The unions of the models

A definition that may be given by its name, an endpoint that may be a bare URI, an end that may be a
truth value: the places of the models where one of two types stands are listed here
(`unionFields`, `Legacy.unionFields`). All of them keep their slots (`unionFields_keepSlots`), as
their first alternatives are written as mappings, sequences or numbers and read from nothing else,
while the second are texts, or truth values.

All but two are fields of records. What ends the consumption of events is read by hand, with the
strategy that it is in; and the properties of a legacy authentication entry are read by the scheme
that stands beside them, and so are no union of two codecs.
-/

namespace WorkflowDsl

/-! ## The current model -/

instance : Authentication.codec.WritesStructure where
  write_ne_null := Codec.Lossless.write_ne_null
  kind_ne_scalar a := by cases a <;> nofun

instance : EndpointProperties.codec.WritesStructure := .record

instance : Timeout.codec.WritesStructure := .record

instance : RetryPolicy.codec.WritesStructure := .record

instance : Problem.codec.WritesStructure := .record

namespace EventStrategy

instance : codec.WritesStructure where
  write_ne_null := Codec.Lossless.write_ne_null
  kind_ne_scalar s := by cases s <;> nofun

instance : codec.ReadsNoScalar where
  kind_ne_scalar {n s} h := by
    have h : ofNode n = .ok s := Codec.ofDefinition_read_eq_ok.1 h
    by_cases hm : ∃ es, n = .mapping es
    · obtain ⟨es, rfl⟩ := hm
      nofun
    · have hn : ∀ es, n ≠ .mapping es := fun es he => hm ⟨es, he⟩
      rw [ofNode, ofNodeWithin_of_ne_mapping hn] at h
      cases h

/-- The codec of a strategy that ends another one. -/
def nestedCodec : Codec EventStrategy := codec.named "Box<EventConsumptionStrategyDefinition>"

instance : nestedCodec.ReadsNoScalar := inferInstanceAs (Codec.ReadsNoScalar (codec.named _))

instance : nestedCodec.WritesStructure := inferInstanceAs (Codec.WritesStructure (codec.named _))

/-- What ends a strategy is written under `until`. -/
theorem get?_until_write {s : EventStrategy} {u : OneOf EventStrategy String}
    (h : s.until? = some u) :
    ∃ es, codec.write s = .mapping es ∧
      Entries.get? es "until" = some ((Codec.oneOf nestedCodec .string).write u) := by
  cases s with
  | endless t => cases h
  | untilExpression t e =>
    obtain rfl := Option.some.inj h
    exact ⟨_, rfl, by cases t <;> rfl⟩
  | untilEvents t v =>
    obtain rfl := Option.some.inj h
    exact ⟨_, rfl, by cases t <;> rfl⟩

/-- A strategy is put together from its selection and what ends it, which is read as if it stood
alone. -/
theorem ofBody_eq_ok {es : Object} {key : String} {s : EventStrategy} :
    ofBody (Node.mapping es).depth es key = .ok s ↔
      ∃ selection, EventSelection.ofNode key ((es.get? key).getD .null) = .ok selection ∧
        (es.get? "until" = none ∧ endless selection = s ∨
          ∃ v u, es.get? "until" = some v ∧ (Codec.oneOf nestedCodec .string).read v = .ok u ∧
            make selection (some u) = s) := by
  unfold ofBody
  refine except_bind_eq_ok.trans (exists_congr fun selection => and_congr_right fun _ => ?_)
  cases hu : es.get? "until" with
  | none => simp
  | some v =>
    have hd : v.depth < (Node.mapping es).depth :=
      Node.depth_lt_of_mem_mapping (Entries.mem_of_get? hu)
    have hread : ((codecBy (ofNodeWithin (Node.mapping es).depth)).named
        "Box<EventConsumptionStrategyDefinition>").read v = nestedCodec.read v :=
      congrArg (Except.mapError _) (ofNodeWithin_eq hd (Nat.lt_succ_self _))
    have hone : OneOf.ofNode ((codecBy (ofNodeWithin (Node.mapping es).depth)).named
        "Box<EventConsumptionStrategyDefinition>") .string v =
          OneOf.ofNode nestedCodec .string v := by
      unfold OneOf.ofNode
      rw [hread]
      rfl
    dsimp only
    rw [hone, except_map_eq_ok]
    simp [Codec.oneOf, Codec.ofDefinition_read_eq_ok]

theorem read_mapping_eq_ok {es : Object} {s : EventStrategy} :
    codec.read (.mapping es) = .ok s ↔
      ∃ key, es.singleKind "event consumption strategy" kindKeys = .ok key ∧
        ofBody (Node.mapping es).depth es key = .ok s := by
  rw [← except_bind_eq_ok]
  exact Codec.ofDefinition_read_eq_ok

/-- What stands under `until` is read as a union, whatever the depth of the strategy around it. -/
theorem until?_of_read {es : Object} {s : EventStrategy} {v : Node}
    (h : codec.read (.mapping es) = .ok s) (hv : Entries.get? es "until" = some v) :
    ∃ u, s.until? = some u ∧ (Codec.oneOf nestedCodec .string).read v = .ok u := by
  obtain ⟨key, -, hb⟩ := read_mapping_eq_ok.1 h
  obtain ⟨selection, -, ⟨hn, -⟩ | ⟨v', u, hv', hu, rfl⟩⟩ := ofBody_eq_ok.1 hb
  · rw [hv] at hn
    cases hn
  · obtain rfl : v = v' := Option.some.inj (hv.symm.trans hv')
    exact ⟨u, by cases u <;> rfl, hu⟩

end EventStrategy

/-- The places of the current model where a value of one of two types stands. -/
def unionFields : List UnionField :=
  [⟨_, _, _, TaskFields.codec, "timeout", Timeout.codec, .string, (·.timeout)⟩,
    ⟨_, _, _, Workflow.codec, "timeout", Timeout.codec, .string, (·.timeout)⟩,
    ⟨_, _, _, Catcher.codec Task.codec, "retry", RetryPolicy.codec, .string, (·.retry)⟩,
    ⟨_, _, _, TaskKind.single "RaiseErrorDefinition" "error" ProblemReference.codec, "error",
      Problem.codec, .string, some⟩,
    ⟨_, _, _, EndpointProperties.codec, "authentication", Authentication.codec, .string,
      (·.authentication)⟩,
    ⟨_, _, _, GrpcService.codec, "authentication", Authentication.codec, .string,
      (·.authentication)⟩,
    ⟨_, _, _, OpenApiArguments.codec, "authentication", Authentication.codec, .string,
      (·.authentication)⟩,
    ⟨_, _, _, AsyncApiArguments.codec, "authentication", Authentication.codec, .string,
      (·.authentication)⟩,
    ⟨_, _, _, ExternalResource.codec, "endpoint", EndpointProperties.codec, .string,
      fun r => some r.endpoint⟩,
    ⟨_, _, _, HttpArguments.codec, "endpoint", EndpointProperties.codec, .string,
      fun a => some a.endpoint⟩,
    ⟨_, _, _, Catalog.codec, "endpoint", EndpointProperties.codec, .string,
      fun c => some c.endpoint⟩,
    ⟨_, _, _, EventStrategy.codec, "until", EventStrategy.nestedCodec, .string,
      EventStrategy.until?⟩]

theorem keepsSlot_of_mem_unionFields : ∀ f ∈ unionFields, f.KeepsSlot := by
  simp only [unionFields, List.forall_mem_cons]
  refine ⟨?timeout, ?workflowTimeout, ?retry, ?problem, ?endpointAuthentication, ?grpc, ?openApi,
    ?asyncApi, ?resource, ?http, ?catalog, ?strategy, nofun⟩
  case workflowTimeout =>
    exact .of_optional
      (.openRecord (.computed rfl) rfl)
  case problem | resource | http | catalog =>
    exact .of_required (.record (.computed rfl) rfl)
  case strategy =>
    exact .of_write_read (fun _ _ => EventStrategy.get?_until_write)
      fun _ _ _ hr hv _ => EventStrategy.until?_of_read hr hv
  all_goals exact .of_optional (.record (.computed rfl) rfl)

/-! ## The legacy model -/

namespace Legacy

instance : FunctionReference.codec.WritesStructure := .record

instance : SubflowReference.codec.WritesStructure := .record

instance : ExecutionTimeout.codec.WritesStructure := .record

instance : Cron.codec.WritesStructure := .record

instance : Schedule.codec.WritesStructure := .record

instance : StartProperties.codec.WritesStructure := .record

instance : Continuation.codec.WritesStructure := .record

instance : TransitionProperties.codec.WritesStructure := .record

instance : EndProperties.codec.WritesStructure := .record

instance : InputSchema.codec.WritesStructure := .record

instance : Timeouts.codec.WritesStructure := .record

/-- The places of what follows: the next state, or the end. -/
def leads {ρ : Type} (c : Codec ρ) (transition : ρ → Option Transition) (end_ : ρ → Option End) :
    List UnionField :=
  [⟨_, _, _, c, "transition", TransitionProperties.codec, .string, transition⟩,
    ⟨_, _, _, c, "end", EndProperties.codec, .bool, end_⟩]

theorem keepsSlot_of_mem_leads {ρ : Type} {c : Codec ρ} {transition : ρ → Option Transition}
    {end_ : ρ → Option End} (ht : c.HasField (.optional "transition" Transition.codec transition))
    (he : c.HasField (.optional "end" End.codec end_)) :
    ∀ f ∈ leads c transition end_, f.KeepsSlot := by
  simp only [leads, List.forall_mem_cons]
  exact ⟨.of_optional ht, .of_optional he, nofun⟩

/-- The places of numbers that may be given by a text. -/
def numberFields : List UnionField :=
  [⟨_, _, _, Retry.codec, "multiplier", .float, .string, (·.multiplier)⟩,
    ⟨_, _, _, Retry.codec, "maxAttempts", .uint32, .string, (·.maxAttempts)⟩,
    ⟨_, _, _, Retry.codec, "jitter", .float, .string, (·.jitter)⟩,
    ⟨_, _, _, ForEachState.codec, "batchSize", .uint32, .string, (·.batchSize)⟩,
    ⟨_, _, _, ParallelState.codec, "numCompleted", .uint32, .string, (·.completedCount)⟩]

theorem keepsSlot_of_mem_numberFields : ∀ f ∈ numberFields, f.KeepsSlot := by
  simp only [numberFields, List.forall_mem_cons]
  refine ⟨?multiplier, ?maxAttempts, ?jitter, ?batchSize, ?numCompleted, nofun⟩
  all_goals exact .of_optional (.record (.computed rfl) rfl)

/-- The places of parts of a document that may be given by a URI, and that of its start. -/
def documentFields : List UnionField :=
  [⟨_, _, _, Workflow.codec, "start", StartProperties.codec, .string, (·.start)⟩,
    ⟨_, _, _, Workflow.codec, "dataInputSchema", InputSchema.codec, .string, (·.inputSchema)⟩,
    ⟨_, _, _, Workflow.codec, "secrets", .list .string, .string, (·.secrets)⟩,
    ⟨_, _, _, Workflow.codec, "constants", .object, .string, (·.constants)⟩,
    ⟨_, _, _, Workflow.codec, "timeouts", Timeouts.codec, .string, (·.timeouts)⟩,
    ⟨_, _, _, Workflow.codec, "errors", .list Error.codec, .string, (·.errors)⟩,
    ⟨_, _, _, Workflow.codec, "events", .list Event.codec, .string, (·.events)⟩,
    ⟨_, _, _, Workflow.codec, "functions", .list Function.codec, .string, (·.functions)⟩,
    ⟨_, _, _, Workflow.codec, "retries", .list Retry.codec, .string, (·.retries)⟩,
    ⟨_, _, _, Workflow.codec, "auth", .list Authentication.codec, .string, (·.auth)⟩]

theorem keepsSlot_of_mem_documentFields : ∀ f ∈ documentFields, f.KeepsSlot := by
  simp only [documentFields, List.forall_mem_cons]
  refine ⟨?start, ?inputSchema, ?secrets, ?constants, ?timeouts, ?errors, ?events, ?functions,
    ?retries, ?auth, nofun⟩
  all_goals apply UnionField.KeepsSlot.of_optional
  all_goals exact .openRecord (.computed rfl) rfl

/-- The places of other definitions that may be given in short. -/
def shortFields : List UnionField :=
  [⟨_, _, _, Action.codec, "functionRef", FunctionReference.codec, .string, (·.function)⟩,
    ⟨_, _, _, Action.codec, "subFlowRef", SubflowReference.codec, .string, (·.subflow)⟩,
    ⟨_, _, _, Timeouts.codec, "workflowExecTimeout", ExecutionTimeout.codec, .string,
      (·.workflow)⟩,
    ⟨_, _, _, Schedule.codec, "cron", Cron.codec, .string, (·.cron)⟩,
    ⟨_, _, _, StartProperties.codec, "schedule", Schedule.codec, .string, (·.schedule)⟩,
    ⟨_, _, _, InputSchema.codec, "schema", .object, .string, fun s => some s.schema⟩,
    ⟨_, _, _, EndProperties.codec, "continueAs", Continuation.codec, .string, (·.continueAs)⟩]

theorem keepsSlot_of_mem_shortFields : ∀ f ∈ shortFields, f.KeepsSlot := by
  simp only [shortFields, List.forall_mem_cons]
  refine ⟨?function, ?subflow, ?timeout, ?cron, ?schedule, ?schema, ?continuation, nofun⟩
  case schema => exact .of_required (.record (.computed rfl) rfl)
  all_goals exact .of_optional (.record (.computed rfl) rfl)

/-- The places of the legacy model where a value of one of two types stands, but for the properties
of authentication entries. -/
def unionFields : List UnionField :=
  documentFields ++ numberFields ++ shortFields ++
    leads StateFields.codec (·.transition) (·.end_) ++
    leads ErrorHandler.codec (·.transition) (·.end_) ++
    leads DataCase.codec (·.transition) (·.end_) ++
    leads EventCase.codec (·.transition) (·.end_) ++
    leads DefaultCondition.codec (·.transition) (·.end_)

theorem keepsSlot_of_mem_unionFields : ∀ f ∈ unionFields, f.KeepsSlot := by
  simp only [unionFields, List.forall_mem_append]
  refine ⟨⟨⟨⟨⟨⟨⟨keepsSlot_of_mem_documentFields, keepsSlot_of_mem_numberFields⟩,
    keepsSlot_of_mem_shortFields⟩, ?state⟩, ?handler⟩, ?dataCase⟩, ?eventCase⟩, ?default⟩
  all_goals apply keepsSlot_of_mem_leads
  all_goals exact .record (.computed rfl) rfl

/-! ### Authentication entries -/

/-- Properties are not read from a text, whatever the scheme. -/
theorem AuthenticationProperties.ofNode_string_ne_ok (scheme : AuthenticationScheme) (s : String)
    (p : AuthenticationProperties) : ofNode scheme (.string s) ≠ .ok p := by
  cases scheme <;> nofun

/-- **Properties or the name of a secret are read in the slot in which they are written.** -/
theorem Authentication.readProperties_write_iff {scheme : AuthenticationScheme}
    {u u' : OneOf AuthenticationProperties String} :
    readProperties scheme (some (u.either AuthenticationProperties.toNode .string)) = .ok u' ↔
      OneOf.Rel (fun p p' => AuthenticationProperties.ofNode scheme p.toNode = .ok p') (· = ·)
        u u' := by
  cases u with
  | first p =>
    show readProperties scheme (some p.toNode) = _ ↔ _
    rw [readProperties_some_toNode, except_bind_eq_ok]
    simp only [except_mapError_eq_ok]
    constructor
    · rintro ⟨p', hp, ⟨⟩⟩
      exact .first hp
    · rintro ⟨hp⟩
      exact ⟨_, hp, rfl⟩
  | second s =>
    show Except.ok (OneOf.second s) = .ok u' ↔ _
    constructor
    · rintro ⟨⟩
      exact .second rfl
    · rintro (_ | ⟨⟨⟩⟩)
      rfl

end Legacy

/-! ## All unions -/

/-- **Every union of the models keeps its slot.** At each place a value whose content is read back
by itself is read back in its slot, with an equal content; and no first alternative reads what the
second is written as. The same holds of the properties of legacy authentication entries, which are
read by a scheme, and the entries are read back as they are. -/
theorem unionFields_keepSlots :
    (∀ f ∈ unionFields ++ Legacy.unionFields, f.KeepsSlot) ∧
      (∀ scheme s p, Legacy.AuthenticationProperties.ofNode scheme (.string s) ≠ .ok p) ∧
      (∀ scheme u u',
        Legacy.Authentication.readProperties scheme
            (some (u.either Legacy.AuthenticationProperties.toNode .string)) = .ok u' ↔
          OneOf.Rel
            (fun p p' => Legacy.AuthenticationProperties.ofNode scheme p.toNode = .ok p') (· = ·)
            u u') ∧
      ∀ a, Legacy.Authentication.codec.Keeps a := by
  refine ⟨?_, Legacy.AuthenticationProperties.ofNode_string_ne_ok,
    fun _ _ _ => Legacy.Authentication.readProperties_write_iff, Codec.keeps _⟩
  rw [List.forall_mem_append]
  exact ⟨keepsSlot_of_mem_unionFields, Legacy.keepsSlot_of_mem_unionFields⟩

/-- A task with a timeout that is given by its name. -/
theorem unionFields_keepSlots_timeout :
    let f : UnionField := ⟨_, _, _, TaskFields.codec, "timeout", Timeout.codec, .string, (·.timeout)⟩
    let fields : TaskFields := { timeout := some (.second "short") }
    f ∈ unionFields ++ Legacy.unionFields ∧ f.get fields = some (.second "short") ∧
      (∃ es, f.owner.write fields = .mapping es ∧
        Entries.get? es "timeout" = some (.string "short")) ∧
      f.owner.ReadsBack fields fields := by
  intro f fields
  have hf : f ∈ unionFields ++ Legacy.unionFields := List.mem_cons_self
  have hk : f.KeepsSlot := unionFields_keepSlots.1 f hf
  exact ⟨hf, rfl, hk.write fields _ rfl, rfl⟩

end WorkflowDsl
