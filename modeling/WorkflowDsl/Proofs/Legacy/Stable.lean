import WorkflowDsl.Legacy.Workflow
import WorkflowDsl.Proofs.Codec.Collection

/-!
# Legacy definitions that are kept

The definitions of legacy documents are records, unions and choices, so that what is read is kept as
its parts are. Authentication entries are read by hand: they have the scheme of their properties,
which is written with them and dropped where a secret stands for them.
-/

namespace WorkflowDsl.Legacy

/-! ## Transitions and ends -/

instance (d : Nat) : ProducedEvent.codec.StableBelow d := .record (.computed rfl)

instance (d : Nat) : TransitionProperties.codec.StableBelow d := .record (.computed rfl)

instance : TransitionProperties.codec.ReadsNoScalar := .record

instance (d : Nat) : Transition.codec.StableBelow d :=
  inferInstanceAs ((Codec.oneOf TransitionProperties.codec .string).StableBelow d)

instance (d : Nat) : Continuation.codec.StableBelow d := .record (.computed rfl)

instance : Continuation.codec.ReadsNoScalar := .record

instance (d : Nat) : EndProperties.codec.StableBelow d := .record (.computed rfl)

instance : EndProperties.codec.ReadsNoScalar := .record

instance (d : Nat) : End.codec.StableBelow d :=
  inferInstanceAs ((Codec.oneOf EndProperties.codec .bool).StableBelow d)

instance (d : Nat) : ErrorHandler.codec.StableBelow d := .record (.computed rfl)

/-! ## Actions and filters -/

instance : StateDataFilter.codec.Lossless := .record (.computed rfl)

instance : EventDataFilter.codec.Lossless := .record (.computed rfl)

instance : ActionDataFilter.codec.Lossless := .record (.computed rfl)

instance : InvocationMode.codec.Lossless := .choice (by intro a; cases a <;> decide)

instance (d : Nat) : FunctionReference.codec.StableBelow d := .record (.computed rfl)

instance : FunctionReference.codec.ReadsNoScalar := .record

instance (d : Nat) : EventReference.codec.StableBelow d := .record (.computed rfl)

instance : ParentCompletion.codec.Lossless := .choice (by intro a; cases a <;> decide)

instance : SubflowReference.codec.Lossless := .record (.computed rfl)

instance : SubflowReference.codec.ReadsNoScalar := .record

instance : Sleep.codec.Lossless := .record (.computed rfl)

instance (d : Nat) : Action.codec.StableBelow d := .record (.computed rfl)

/-! ## Declarations -/

instance : FunctionType.codec.Lossless := .choice (by intro a; cases a <;> decide)

instance : Function.codec.Lossless := .record (.computed rfl)

instance : EventKind.codec.Lossless := .choice (by intro a; cases a <;> decide)

instance : Correlation.codec.Lossless := .record (.computed rfl)

instance : Event.codec.Lossless := .record (.computed rfl)

instance : NumberOrText.codec.Lossless :=
  inferInstanceAs (Codec.oneOf .float .string).Lossless

instance : CountOrText.codec.Lossless :=
  inferInstanceAs (Codec.oneOf .uint32 .string).Lossless

instance : Retry.codec.Lossless := .record (.computed rfl)

instance : Error.codec.Lossless := .record (.computed rfl)

instance : ExecutionTimeout.codec.Lossless := .record (.computed rfl)

instance : ExecutionTimeout.codec.ReadsNoScalar := .record

instance : Timeouts.codec.Lossless := .record (.computed rfl)

instance : Timeouts.codec.ReadsNoScalar := .record

instance : Cron.codec.Lossless := .record (.computed rfl)

instance : Cron.codec.ReadsNoScalar := .record

instance : Schedule.codec.Lossless := .record (.computed rfl)

instance : Schedule.codec.ReadsNoScalar := .record

instance : StartProperties.codec.Lossless := .record (.computed rfl)

instance : StartProperties.codec.ReadsNoScalar := .record

instance : Start.codec.Lossless :=
  inferInstanceAs (Codec.oneOf StartProperties.codec .string).Lossless

instance : InputSchema.codec.Lossless := .record (.computed rfl)

instance : InputSchema.codec.ReadsNoScalar := .record

/-! ## Authentication -/

instance : BasicProperties.codec.Lossless := .record (.computed rfl)

instance : BearerProperties.codec.Lossless := .record (.computed rfl)

instance : GrantType.codec.Lossless := .choice (by intro a; cases a <;> decide)

instance : OAuth2Properties.codec.Lossless := .record (.computed rfl)

namespace AuthenticationProperties

theorem ofNode_toNode (p : AuthenticationProperties) : ofNode p.scheme p.toNode = .ok p := by
  cases p with
  | basic p =>
    exact except_map_eq_ok.2 ⟨p, Codec.decode_eq_ok.2 (BasicProperties.codec.keeps p), rfl⟩
  | bearer p =>
    exact except_map_eq_ok.2 ⟨p, Codec.decode_eq_ok.2 (BearerProperties.codec.keeps p), rfl⟩
  | oauth2 p =>
    exact except_map_eq_ok.2 ⟨p, Codec.decode_eq_ok.2 (OAuth2Properties.codec.keeps p), rfl⟩

end AuthenticationProperties

namespace Authentication

theorem readProperties_some_toNode (scheme : AuthenticationScheme) (p : AuthenticationProperties) :
    readProperties scheme (some p.toNode) =
      ((AuthenticationProperties.ofNode scheme p.toNode).mapError (.within "properties") >>=
        fun properties => .ok (.first properties)) := by
  cases p <;> rfl

theorem readProperties_toNode (p : AuthenticationProperties) :
    readProperties p.scheme (some p.toNode) = .ok (.first p) := by
  rw [readProperties_some_toNode, p.ofNode_toNode]
  rfl

instance : codec.Lossless where
  keeps a := by
    obtain ⟨name, p | secret⟩ := a
    · have hs : readScheme (some (.string p.scheme.text)) = .ok p.scheme := by
        cases p <;> rfl
      refine Codec.ofDefinition_read_eq_ok.2 ?_
      refine except_bind_eq_ok.2 ⟨_, rfl, except_bind_eq_ok.2 ⟨name, rfl, ?_⟩⟩
      refine except_bind_eq_ok.2 ⟨_, hs, except_bind_eq_ok.2 ⟨_, readProperties_toNode p, rfl⟩⟩
    · rfl
  write_ne_null a := by
    obtain ⟨name, p | secret⟩ := a <;> nofun

end Authentication

/-! ## States -/

instance (d : Nat) : CallbackState.codec.StableBelow d := .record (.computed rfl)

instance : SleepState.codec.Lossless := .record (.computed rfl)

instance : ActionMode.codec.Lossless := .choice (by intro a; cases a <;> decide)

instance (d : Nat) : OnEvents.codec.StableBelow d := .record (.computed rfl)

instance (d : Nat) : EventState.codec.StableBelow d := .record (.computed rfl)

instance : IterationMode.codec.Lossless := .choice (by intro a; cases a <;> decide)

instance (d : Nat) : ForEachState.codec.StableBelow d := .record (.computed rfl)

instance : InjectState.codec.Lossless := .record (.computed rfl)

instance (d : Nat) : OperationState.codec.StableBelow d := .record (.computed rfl)

instance : CompletionType.codec.Lossless := .choice (by intro a; cases a <;> decide)

instance (d : Nat) : Branch.codec.StableBelow d := .record (.computed rfl)

instance (d : Nat) : ParallelState.codec.StableBelow d := .record (.computed rfl)

instance (d : Nat) : DataCase.codec.StableBelow d := .record (.computed rfl)

instance (d : Nat) : EventCase.codec.StableBelow d := .record (.computed rfl)

instance (d : Nat) : DefaultCondition.codec.StableBelow d := .record (.computed rfl)

instance (d : Nat) : SwitchState.codec.StableBelow d := .record (.computed rfl)

instance (d : Nat) : StateFields.codec.StableBelow d := .record (.computed rfl)

/-! ## Fields of documents -/

namespace Workflow

variable {α : Type} {key : String} {c : Codec α} {get : Workflow → Option (Referenceable α)}
  {d : Nat}

instance [c.StableBelow d] [Codec.Apart c .string] : (referenceable key c get).StableBelow d :=
  inferInstanceAs ((Field.optional key (.oneOf c .string) get).StableBelow d)

end Workflow

end WorkflowDsl.Legacy
