import WorkflowDsl.Model.Workflow
import WorkflowDsl.Proofs.Codec.Collection
import WorkflowDsl.Proofs.Codec.Keyed

/-!
# Definitions that are always kept

Most definitions of a workflow survive writing and reading whatever their value: they are records,
unions and choices of lossless parts. The definitions that discriminate by a key, like
authentication policies and event strategies, are read back by the key that they were written
under. What is left out here has a part that is lost for some values: a payload that may be null, a
flow directive, or a list of named parts.
-/

namespace WorkflowDsl

/-! ## Durations -/

instance : Duration.Parts.codec.Lossless := .record (.computed rfl)

instance : Duration.codec.Lossless where
  keeps
    | .text _ => rfl
    | .parts p => by
      have hp : Duration.Parts.codec.read (Duration.Parts.codec.write p) = .ok p :=
        Duration.Parts.codec.keeps p
      show (match Duration.Parts.codec.read (Duration.Parts.codec.write p) with
        | .ok p => Except.ok (Duration.parts p)
        | .error _ => .error (ConversionError.noAlternative "Duration")) = .ok (.parts p)
      rw [hp]
  write_ne_null
    | .text _ => nofun
    | .parts _ => nofun

/-! ## Authentication -/

instance : Credentials.codec.Lossless := .record (.computed rfl)

instance : BearerToken.codec.Lossless := .record (.computed rfl)

namespace OAuth2

instance : GrantType.codec.Lossless := .choice (by intro a; cases a <;> decide)

instance : ClientAuthentication.codec.Lossless := .choice (by intro a; cases a <;> decide)

instance : Client.codec.Lossless := .record (.computed rfl)

instance : Encoding.codec.Lossless := .choice (by intro a; cases a <;> decide)

instance : TokenRequest.codec.Lossless := .record (.computed rfl)

instance : Token.codec.Lossless := .record (.computed rfl)

instance : Endpoints.codec.Lossless := .record (.computed rfl)

instance : OAuth2.codec.Lossless := .record (.computed rfl)

end OAuth2

namespace Authentication

/-- A policy is read by the scheme that it was written under. -/
theorem ofNode_toNode (a : Authentication) : ofNode a.toNode = .ok a := by
  cases a with
  | secret name => rfl
  | basic c =>
    exact except_map_eq_ok.2 ⟨c, (Credentials.codec.keeps c).decodeObject_write _ rfl, rfl⟩
  | bearer b =>
    exact except_map_eq_ok.2 ⟨b, (BearerToken.codec.keeps b).decodeObject_write _ rfl, rfl⟩
  | digest c =>
    exact except_map_eq_ok.2 ⟨c, (Credentials.codec.keeps c).decodeObject_write _ rfl, rfl⟩
  | oauth2 o => exact except_map_eq_ok.2 ⟨o, (OAuth2.codec.keeps o).decodeObject_write _ rfl, rfl⟩
  | oidc o => exact except_map_eq_ok.2 ⟨o, (OAuth2.codec.keeps o).decodeObject_write _ rfl, rfl⟩

instance : codec.Lossless where
  keeps a := Codec.ofDefinition_read_eq_ok.2 a.ofNode_toNode
  write_ne_null a := by cases a <;> nofun

instance : codec.ReadsNoScalar where
  kind_ne_scalar {n x} h := by
    obtain ⟨es, hn, -⟩ := except_bind_eq_ok.1 (Codec.ofDefinition_read_eq_ok.1 h)
    rw [Node.toObject_eq_ok.1 hn]
    nofun

end Authentication

instance : AuthenticationReference.codec.Lossless :=
  inferInstanceAs (Codec.oneOf Authentication.codec .string).Lossless

/-! ## Endpoints and resources -/

instance : EndpointProperties.codec.Lossless := .record (.computed rfl)

instance : EndpointProperties.codec.ReadsNoScalar := .record

instance : Endpoint.codec.Lossless :=
  inferInstanceAs (Codec.oneOf EndpointProperties.codec .string).Lossless

instance : ExternalResource.codec.Lossless := .record (.computed rfl)

instance : Catalog.codec.Lossless := .record (.computed rfl)

/-! ## Timeouts and retries -/

instance : Timeout.codec.Lossless := .record (.computed rfl)

instance : Timeout.codec.ReadsNoScalar := .record

instance : TimeoutReference.codec.Lossless :=
  inferInstanceAs (Codec.oneOf Timeout.codec .string).Lossless

namespace Backoff

instance : constantCodec.Lossless := .record (.computed rfl)

instance : factorCodec.Lossless := .record (.computed rfl)

instance : incrementCodec.Lossless := .record (.computed rfl)

instance : codec.Lossless where
  keeps
    | constant => except_map_eq_ok (f := fun _ => constant) |>.2 ⟨(), constantCodec.keeps (), rfl⟩
    | exponential factor => except_map_eq_ok.2 ⟨factor, factorCodec.keeps factor, rfl⟩
    | linear increment => except_map_eq_ok.2 ⟨increment, incrementCodec.keeps increment, rfl⟩
  write_ne_null b := by cases b <;> nofun

end Backoff

instance : AttemptLimit.codec.Lossless := .record (.computed rfl)

instance : RetryLimit.codec.Lossless := .record (.computed rfl)

instance : Jitter.codec.Lossless := .record (.computed rfl)

instance : RetryPolicy.codec.Lossless := .record (.computed rfl)

instance : RetryPolicy.codec.ReadsNoScalar := .record

instance : RetryReference.codec.Lossless :=
  inferInstanceAs (Codec.oneOf RetryPolicy.codec .string).Lossless

/-! ## Problems -/

instance : Problem.codec.Lossless := .record (.computed rfl)

instance : Problem.codec.ReadsNoScalar := .record

instance : ProblemReference.codec.Lossless :=
  inferInstanceAs (Codec.oneOf Problem.codec .string).Lossless

instance : ProblemProperties.codec.Lossless := .record (.computed rfl)

instance : ProblemFilter.codec.Lossless := .record (.computed rfl)

/-! ## Events -/

instance : Event.codec.Lossless := .record (.computed rfl)

instance : Emission.codec.Lossless := .record (.computed rfl)

instance : Correlation.codec.Lossless := .record (.computed rfl)

instance : EventFilter.codec.Lossless := .record (.computed rfl)

theorem EventSelection.ofNode_toNode (s : EventSelection) : ofNode s.key s.toNode = .ok s := by
  have hl (fs : List EventFilter) : (Codec.list EventFilter.codec).decode
      ((Codec.list EventFilter.codec).write fs) = .ok fs :=
    Codec.decode_eq_ok.2 ((Codec.list EventFilter.codec).keeps fs)
  cases s with
  | all fs => exact except_map_eq_ok.2 ⟨fs, hl fs, rfl⟩
  | any fs => exact except_map_eq_ok.2 ⟨fs, hl fs, rfl⟩
  | one f =>
    exact except_map_eq_ok.2 ⟨f, Codec.decode_eq_ok.2 (EventFilter.codec.keeps f), rfl⟩

namespace EventStrategy

variable {s : EventSelection} {u : Node} {d : Nat}

/-- A strategy is read by the key of its selection, and then its end. -/
theorem ofNodeWithin_mapping {es : Object}
    (hk : es.singleKind "event consumption strategy" kindKeys = .ok s.key)
    (hs : es.get? s.key = some s.toNode) :
    ofNodeWithin (d + 1) (.mapping es) =
      match es.get? "until" with
      | none => .ok (endless s)
      | some u =>
        (OneOf.ofNode ((codecBy (ofNodeWithin d)).named "Box<EventConsumptionStrategyDefinition>")
          .string u).map fun u => make s (some u) := by
  rw [ofNodeWithin]
  show (es.singleKind _ _ >>= _) = _
  rw [hk]
  show (EventSelection.ofNode s.key ((es.get? s.key).getD .null) >>= _) = _
  rw [hs]
  show (EventSelection.ofNode s.key s.toNode >>= _) = _
  rw [s.ofNode_toNode]
  rfl

theorem ofNodeWithin_endless :
    ofNodeWithin (d + 1) (.mapping [(s.key, s.toNode)]) = .ok (endless s) := by
  cases s <;> exact ofNodeWithin_mapping rfl rfl

theorem ofNodeWithin_until :
    ofNodeWithin (d + 1) (.mapping [(s.key, s.toNode), ("until", u)]) =
      (OneOf.ofNode ((codecBy (ofNodeWithin d)).named "Box<EventConsumptionStrategyDefinition>")
        .string u).map fun u => make s (some u) := by
  cases s <;> exact ofNodeWithin_mapping rfl rfl

theorem ofNodeWithin_toNode (t : EventStrategy) (h : t.toNode.depth < d) :
    ofNodeWithin d t.toNode = .ok t := by
  induction t generalizing d with
  | endless s =>
    obtain ⟨d, rfl⟩ := Nat.exists_eq_succ_of_ne_zero (Nat.ne_zero_of_lt h)
    exact ofNodeWithin_endless
  | untilExpression s e =>
    obtain ⟨d, rfl⟩ := Nat.exists_eq_succ_of_ne_zero (Nat.ne_zero_of_lt h)
    refine ofNodeWithin_until.trans (except_map_eq_ok.2 ⟨.second e, ?_, rfl⟩)
    cases d <;> rfl
  | untilEvents s t ih =>
    obtain ⟨d, rfl⟩ := Nat.exists_eq_succ_of_ne_zero (Nat.ne_zero_of_lt h)
    have hd : t.toNode.depth < d := by
      refine Nat.lt_of_lt_of_le ?_ (Nat.le_of_lt_succ h)
      exact Node.depth_lt_of_mem_mapping (e := ("until", t.toNode)) (by simp)
    refine ofNodeWithin_until.trans (except_map_eq_ok.2 ⟨.first t, ?_, rfl⟩)
    refine Codec.ofDefinition_read_eq_ok.1 (Codec.oneOf_read_first.2 ?_)
    exact Codec.ofDefinition_read_eq_ok.2 (ih hd)

instance : codec.Lossless where
  keeps t := Codec.ofDefinition_read_eq_ok.2 (ofNodeWithin_toNode t (Nat.lt_succ_self _))
  write_ne_null t := by cases t <;> nofun

end EventStrategy

instance : EventReadMode.codec.Lossless := .choice (by intro a; cases a <;> decide)

instance : Listener.codec.Lossless := .record (.computed rfl)

/-! ## Processes and calls -/

instance : ProcessReturn.codec.Lossless := .choice (by intro a; cases a <;> decide)

instance : Cleanup.codec.Lossless := .choice (by intro a; cases a <;> decide)

instance : ContainerLifetime.codec.Lossless := .record (.computed rfl)

instance : ContainerProcess.codec.Lossless := .record (.computed rfl)

instance : ScriptProcess.codec.Lossless := .record (.computed rfl)

instance : ShellProcess.codec.Lossless := .record (.computed rfl)

instance : RunOptions.codec.Lossless := .record (.computed rfl)

instance : Call.codec.Lossless := .record (.computed rfl)

instance : HttpOutput.codec.Lossless := .choice (by intro a; cases a <;> decide)

instance : GrpcService.codec.Lossless := .record (.computed rfl)

instance : GrpcArguments.codec.Lossless := .record (.computed rfl)

instance : OpenApiArguments.codec.Lossless := .record (.computed rfl)

instance : Loop.codec.Lossless := .record (.computed rfl)

/-! ## Documents -/

instance : DocumentInfo.codec.Lossless := .record (.computed rfl)

instance : Schedule.codec.Lossless := .record (.computed rfl)

end WorkflowDsl
