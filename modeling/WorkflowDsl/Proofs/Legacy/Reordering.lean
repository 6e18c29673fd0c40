import WorkflowDsl.Legacy.Workflow
import WorkflowDsl.Proofs.Codec.Reordering

/-!
# Legacy workflows without regard to order

A state takes its type out, and the last entry takes its place, so that the entries beside the type
stand in another order than written; but what is read of them does not depend on that
(`State.readAs_reordered`). Authentication entries are read key by key, and all other definitions of
legacy documents are records, unions and choices.
-/

namespace WorkflowDsl.Legacy

open Codec (IgnoresOrderBelow)

variable {d : Nat}

/-! ## Transitions and ends -/

instance : ProducedEvent.codec.IgnoresOrderBelow d := .record (.computed rfl) fun _ _ h => h

instance : TransitionProperties.codec.IgnoresOrderBelow d := .record (.computed rfl) fun _ _ h => h

instance : Transition.codec.IgnoresOrderBelow d :=
  inferInstanceAs ((Codec.oneOf TransitionProperties.codec .string).IgnoresOrderBelow d)

instance : Continuation.codec.IgnoresOrderBelow d := .record (.computed rfl) fun _ _ h => h

instance : EndProperties.codec.IgnoresOrderBelow d := .record (.computed rfl) fun _ _ h => h

instance : End.codec.IgnoresOrderBelow d :=
  inferInstanceAs ((Codec.oneOf EndProperties.codec .bool).IgnoresOrderBelow d)

instance : ErrorHandler.codec.IgnoresOrderBelow d := .record (.computed rfl) fun _ _ h => h

/-! ## Actions and filters -/

instance : StateDataFilter.codec.IgnoresOrderBelow d := .lawfulRecord (.computed rfl)

instance : EventDataFilter.codec.IgnoresOrderBelow d := .lawfulRecord (.computed rfl)

instance : ActionDataFilter.codec.IgnoresOrderBelow d := .lawfulRecord (.computed rfl)

instance : InvocationMode.codec.IgnoresOrderBelow d :=
  inferInstanceAs ((Codec.choice ..).IgnoresOrderBelow d)

instance : FunctionReference.codec.IgnoresOrderBelow d := .record (.computed rfl) fun _ _ h => h

instance : EventReference.codec.IgnoresOrderBelow d := .record (.computed rfl) fun _ _ h => h

instance : ParentCompletion.codec.IgnoresOrderBelow d :=
  inferInstanceAs ((Codec.choice ..).IgnoresOrderBelow d)

instance : SubflowReference.codec.IgnoresOrderBelow d := .lawfulRecord (.computed rfl)

instance : Sleep.codec.IgnoresOrderBelow d := .lawfulRecord (.computed rfl)

instance : Action.codec.IgnoresOrderBelow d := .record (.computed rfl) fun _ _ h => h

/-! ## Declarations -/

instance : FunctionType.codec.IgnoresOrderBelow d :=
  inferInstanceAs ((Codec.choice ..).IgnoresOrderBelow d)

instance : Function.codec.IgnoresOrderBelow d := .record (.computed rfl) fun _ _ h => h

instance : EventKind.codec.IgnoresOrderBelow d :=
  inferInstanceAs ((Codec.choice ..).IgnoresOrderBelow d)

instance : Correlation.codec.IgnoresOrderBelow d := .lawfulRecord (.computed rfl)

instance : Event.codec.IgnoresOrderBelow d := .record (.computed rfl) fun _ _ h => h

instance : NumberOrText.codec.IgnoresOrderBelow d :=
  inferInstanceAs ((Codec.oneOf .float .string).IgnoresOrderBelow d)

instance : CountOrText.codec.IgnoresOrderBelow d :=
  inferInstanceAs ((Codec.oneOf .uint32 .string).IgnoresOrderBelow d)

theorem Retry.beq_self (r : Retry) : (r == r) = true := by
  have hn (x : Option NumberOrText) : NumberOrText.equal x x = true := by
    obtain _ | x | s := x <;> simp [NumberOrText.equal, Binary64.equal]
  show (r.name == r.name && r.delay == r.delay && r.maxDelay == r.maxDelay
    && r.increment == r.increment && NumberOrText.equal r.multiplier r.multiplier
    && r.maxAttempts == r.maxAttempts && NumberOrText.equal r.jitter r.jitter) = true
  simp only [beq_self_eq_true, hn, Bool.and_self]

instance : ReflBEq Retry := ⟨Retry.beq_self _⟩

instance : Retry.codec.IgnoresOrderBelow d := .lawfulRecord (.computed rfl)

instance : Error.codec.IgnoresOrderBelow d := .lawfulRecord (.computed rfl)

instance : ExecutionTimeout.codec.IgnoresOrderBelow d := .lawfulRecord (.computed rfl)

instance : Timeouts.codec.IgnoresOrderBelow d := .lawfulRecord (.computed rfl)

instance : Cron.codec.IgnoresOrderBelow d := .lawfulRecord (.computed rfl)

instance : Schedule.codec.IgnoresOrderBelow d := .lawfulRecord (.computed rfl)

instance : StartProperties.codec.IgnoresOrderBelow d := .lawfulRecord (.computed rfl)

instance : Start.codec.IgnoresOrderBelow d :=
  inferInstanceAs ((Codec.oneOf StartProperties.codec .string).IgnoresOrderBelow d)

instance : InputSchema.codec.IgnoresOrderBelow d := .record (.computed rfl) fun _ _ h => h

/-! ## Authentication -/

instance : BasicProperties.codec.IgnoresOrderBelow d := .record (.computed rfl) fun _ _ h => h

instance : BearerProperties.codec.IgnoresOrderBelow d := .record (.computed rfl) fun _ _ h => h

instance : GrantType.codec.IgnoresOrderBelow d :=
  inferInstanceAs ((Codec.choice ..).IgnoresOrderBelow d)

instance : OAuth2Properties.codec.IgnoresOrderBelow d := .record (.computed rfl) fun _ _ h => h

namespace AuthenticationProperties

theorem ofNode_reordered {scheme : AuthenticationScheme} {n m : Node} {p : AuthenticationProperties}
    (hn : n.Below d) (hr : n.Reordered m) (h : ofNode scheme n = .ok p) :
    ∃ q, ofNode scheme m = .ok q ∧ (p == q) = true := by
  open Codec.IgnoresOrderBelow in
  cases scheme with
  | basic => exact decode_map (c := BasicProperties.codec) hn hr h fun _ _ h => h
  | bearer => exact decode_map (c := BearerProperties.codec) hn hr h fun _ _ h => h
  | oauth2 => exact decode_map (c := OAuth2Properties.codec) hn hr h fun _ _ h => h

end AuthenticationProperties

namespace Authentication

/-- An entry is read by what stands under its three keys. -/
theorem ofNode_eq_ok {es : Object} {a : Authentication} :
    ofNode (.mapping es) = .ok a ↔
      es.get? "name" = some (.string a.name) ∧
        ∃ scheme, readScheme (es.get? "scheme") = .ok scheme ∧
          readProperties scheme (es.get? "properties") = .ok a.properties := by
  constructor
  · intro h
    obtain ⟨_, hes, h⟩ := except_bind_eq_ok.1 h
    obtain rfl := Except.ok.inj hes
    dsimp only at h
    split at h
    · next name hname =>
      obtain ⟨scheme, hs, h⟩ := except_bind_eq_ok.1 (show (readScheme _ >>= _) = _ from h)
      obtain ⟨properties, hp, h⟩ := except_bind_eq_ok.1 h
      obtain rfl := Except.ok.inj h
      exact ⟨hname, scheme, hs, hp⟩
    · cases h
    · cases h
  · rintro ⟨hname, scheme, hs, hp⟩
    obtain ⟨name, properties⟩ := a
    refine except_bind_eq_ok.2 ⟨es, rfl, ?_⟩
    dsimp only
    rw [hname]
    exact except_bind_eq_ok.2 ⟨name, rfl, except_bind_eq_ok.2 ⟨scheme, hs,
      except_bind_eq_ok.2 ⟨properties, hp, rfl⟩⟩⟩

/-- Only texts are read as schemes. -/
theorem readScheme_reordered {x y : Option Node} {scheme : AuthenticationScheme}
    (hr : Option.Rel Node.Reordered x y) (h : readScheme x = .ok scheme) :
    readScheme y = .ok scheme := by
  cases hr with
  | none => exact h
  | @some n m hr =>
    cases n with
    | string =>
      obtain rfl := hr.eq_of_depth_eq_zero rfl
      exact h
    | _ => cases h

theorem readProperties_reordered {scheme : AuthenticationScheme} {x y : Option Node}
    {p : OneOf AuthenticationProperties String} (hn : ∀ n ∈ x, n.Below d)
    (hr : Option.Rel Node.Reordered x y) (h : readProperties scheme x = .ok p) :
    ∃ q, readProperties scheme y = .ok q ∧ (p == q) = true := by
  cases hr with
  | none => cases h
  | @some n m hr =>
    cases n with
    | string secret =>
      obtain rfl := hr.eq_of_depth_eq_zero rfl
      obtain rfl := Except.ok.inj h
      exact ⟨.second secret, rfl, beq_self_eq_true secret⟩
    | mapping es =>
      obtain ⟨_, hes, h⟩ := except_bind_eq_ok.1 h
      cases Node.toObject_eq_ok.1 hes
      obtain ⟨p, hp, h⟩ := except_bind_eq_ok.1 h
      obtain rfl := Except.ok.inj h
      obtain ⟨q, hq, he⟩ := AuthenticationProperties.ofNode_reordered (hn _ rfl) hr
        (except_mapError_eq_ok.1 hp)
      obtain ⟨fs, rfl, -⟩ := hr.of_mapping
      exact ⟨.first q, except_bind_eq_ok.2 ⟨fs, rfl,
        except_bind_eq_ok.2 ⟨q, except_mapError_eq_ok.2 hq, rfl⟩⟩, he⟩
    | _ => cases h

instance : codec.IgnoresOrderBelow d := .ofDefinition fun {n m a} hn hr ha => by
  obtain ⟨es, hes, -⟩ := except_bind_eq_ok.1 ha
  obtain rfl := Node.toObject_eq_ok.1 hes
  obtain ⟨fs, rfl, hm⟩ := hr.of_mapping
  obtain ⟨hname, scheme, hs, hp⟩ := ofNode_eq_ok.1 ha
  have hd : ∀ n ∈ es.get? "properties", n.Below d := fun n hg =>
    (hn.mono (Nat.le_succ d)).of_mem_mapping (Entries.mem_of_get? hg)
  obtain ⟨q, hq, he⟩ := readProperties_reordered hd (hm.get?_rel hn.nodup_keys _) hp
  have hs' := readScheme_reordered (hm.get?_rel hn.nodup_keys _) hs
  refine ⟨⟨a.name, q⟩, ofNode_eq_ok.2 ⟨?_, scheme, hs', hq⟩,
    Bool.and_eq_true_iff.2 ⟨beq_self_eq_true a.name, he⟩⟩
  exact hm.get?_string hn.nodup_keys hname

end Authentication

/-! ## States -/

instance : CallbackState.codec.IgnoresOrderBelow d := .record (.computed rfl) fun _ _ h => h

instance : SleepState.codec.IgnoresOrderBelow d := .lawfulRecord (.computed rfl)

instance : ActionMode.codec.IgnoresOrderBelow d :=
  inferInstanceAs ((Codec.choice ..).IgnoresOrderBelow d)

instance : OnEvents.codec.IgnoresOrderBelow d := .record (.computed rfl) fun _ _ h => h

instance : EventState.codec.IgnoresOrderBelow d := .record (.computed rfl) fun _ _ h => h

instance : IterationMode.codec.IgnoresOrderBelow d :=
  inferInstanceAs ((Codec.choice ..).IgnoresOrderBelow d)

instance : ForEachState.codec.IgnoresOrderBelow d := .record (.computed rfl) fun _ _ h => h

instance : InjectState.codec.IgnoresOrderBelow d := .record (.computed rfl) fun _ _ h => h

instance : OperationState.codec.IgnoresOrderBelow d := .record (.computed rfl) fun _ _ h => h

instance : CompletionType.codec.IgnoresOrderBelow d :=
  inferInstanceAs ((Codec.choice ..).IgnoresOrderBelow d)

instance : Branch.codec.IgnoresOrderBelow d := .record (.computed rfl) fun _ _ h => h

instance : ParallelState.codec.IgnoresOrderBelow d := .record (.computed rfl) fun _ _ h => h

instance : DataCase.codec.IgnoresOrderBelow d := .record (.computed rfl) fun _ _ h => h

instance : EventCase.codec.IgnoresOrderBelow d := .record (.computed rfl) fun _ _ h => h

instance : DefaultCondition.codec.IgnoresOrderBelow d := .record (.computed rfl) fun _ _ h => h

instance : SwitchState.codec.IgnoresOrderBelow d := .record (.computed rfl) fun _ _ h => h

instance : StateFields.codec.IgnoresOrderBelow d := .record (.computed rfl) fun _ _ h => h

theorem StateKind.read_reordered {type : StateType} {owned owned' : Object} {k : StateKind}
    (hn : (Node.mapping owned).Below d) (hr : owned.Reordered owned')
    (h : read type owned = .ok k) :
    ∃ l, read type owned' = .ok l ∧ (k == l) = true := by
  have hr := Node.reordered_mapping.2 hr
  open Codec.IgnoresOrderBelow in
  cases type with
  | callback => exact read_map (c := CallbackState.codec) hn hr h fun _ _ h => h
  | sleep => exact read_map (c := SleepState.codec) hn hr h fun _ _ h => h
  | event => exact read_map (c := EventState.codec) hn hr h fun _ _ h => h
  | forEach => exact read_map (c := ForEachState.codec) hn hr h fun _ _ h => h
  | inject => exact read_map (c := InjectState.codec) hn hr h fun _ _ h => h
  | operation => exact read_map (c := OperationState.codec) hn hr h fun _ _ h => h
  | parallel => exact read_map (c := ParallelState.codec) hn hr h fun _ _ h => h
  | switch => exact read_map (c := SwitchState.codec) hn hr h fun _ _ h => h

namespace State

variable {es fs : Object} {s : State}

/-- What is read of the entries beside the type, given its name. -/
def ReadAs (type : String) (es : Object) (s : State) : Prop :=
  "name" ∈ Entries.keys es ∧
    StateFields.codec.read (.mapping (Entries.splitKeys es StateFields.keys).1) = .ok s.fields ∧
    match StateType.ofText? type with
    | some t =>
      StateKind.read t (Entries.splitKeys (Entries.splitKeys es StateFields.keys).2 t.ownedKeys).1 =
          .ok s.kind ∧
        s.extra =
          ⟨(Entries.splitKeys (Entries.splitKeys es StateFields.keys).2 t.ownedKeys).2⟩
    | none =>
      s.kind = .extension type ⟨(Entries.splitKeys es StateFields.keys).2⟩ ∧ s.extra = {}

theorem readType_eq_ok {type : String} :
    readType es = .ok type ↔ es.get? "type" = some (.string type) := by
  rw [readType]
  split
  · next h => simp [h]
  · next n h h' => simpa [h'] using h type
  · next h => simp [h]

/-- A state is read by the name of its type and the entries beside it. -/
theorem ofNode_eq_ok :
    ofNode (.mapping es) = .ok s ↔
      ∃ type, es.get? "type" = some (.string type) ∧ ReadAs type (es.swapErase "type") s := by
  constructor
  · intro h
    obtain ⟨type, ht, h⟩ := except_bind_eq_ok.1 (show (readType es >>= _) = _ from h)
    refine ⟨type, readType_eq_ok.1 ht, ?_⟩
    dsimp only at h
    split at h
    · cases h
    · next hn =>
      have hn : "name" ∈ Entries.keys (es.swapErase "type") :=
        Entries.hasKey_iff.1 (by simpa using hn)
      obtain ⟨fields, hf, h⟩ := except_bind_eq_ok.1 h
      split at h
      · next t ht =>
        obtain ⟨kind, hk, h⟩ := except_bind_eq_ok.1 h
        obtain rfl := Except.ok.inj h
        refine ⟨hn, Codec.decode_eq_ok.1 hf, ?_⟩
        rw [ht]
        exact ⟨except_mapError_eq_ok.1 hk, rfl⟩
      · next ht =>
        obtain rfl := Except.ok.inj h
        refine ⟨hn, Codec.decode_eq_ok.1 hf, ?_⟩
        rw [ht]
        exact ⟨rfl, rfl⟩
  · rintro ⟨type, ht, hn, hf, hm⟩
    obtain ⟨fields, kind, extra⟩ := s
    refine except_bind_eq_ok.2 ⟨es, rfl, except_bind_eq_ok.2 ⟨type, readType_eq_ok.2 ht, ?_⟩⟩
    dsimp only
    rw [if_neg (by simpa using Entries.hasKey_iff.2 hn)]
    refine except_bind_eq_ok.2 ⟨fields, Codec.decode_eq_ok.2 hf, ?_⟩
    cases ht : StateType.ofText? type with
    | some t =>
      rw [ht] at hm
      obtain ⟨hk, rfl⟩ := hm
      exact except_bind_eq_ok.2 ⟨kind, except_mapError_eq_ok.2 hk, rfl⟩
    | none =>
      rw [ht] at hm
      obtain ⟨rfl, rfl⟩ := hm
      rfl

/-- What is read of the entries beside the type does not depend on their order. -/
theorem readAs_reordered {type : String} (hn : (Node.mapping es).Below d) (hr : es.Reordered fs)
    (h : ReadAs type es s) : ∃ s', ReadAs type fs s' ∧ (s == s') = true := by
  obtain ⟨hname, hf, hm⟩ := h
  have hname' : "name" ∈ Entries.keys fs := hr.keys_perm.mem_iff.1 hname
  obtain ⟨fields, hf', e1⟩ := IgnoresOrderBelow.read_reordered
    (hn.of_sublist (Entries.sublist_splitKeys_fst es StateFields.keys))
    (Node.reordered_mapping.2 (hr.splitKeys_fst _)) hf
  have hrest := hn.of_sublist (Entries.sublist_splitKeys_snd es StateFields.keys)
  have hrr := hr.splitKeys_snd StateFields.keys
  cases ht : StateType.ofText? type with
  | some t =>
    rw [ht] at hm
    obtain ⟨hk, hx⟩ := hm
    obtain ⟨kind, hk', e2⟩ := StateKind.read_reordered
      (hrest.of_sublist (Entries.sublist_splitKeys_fst _ t.ownedKeys)) (hrr.splitKeys_fst _) hk
    have e3 : (s.extra == _) = true := hx ▸ OrderedMap.beq_of_reordered
      ((hrest.mono (Nat.le_succ d)).of_sublist (Entries.sublist_splitKeys_snd _ t.ownedKeys))
        (hrr.splitKeys_snd _)
    refine ⟨⟨fields, kind, _⟩, ⟨hname', hf', ?_⟩,
      Bool.and_eq_true_iff.2 ⟨e1, Bool.and_eq_true_iff.2 ⟨e2, e3⟩⟩⟩
    rw [ht]
    exact ⟨hk', rfl⟩
  | none =>
    rw [ht] at hm
    obtain ⟨hk, hx⟩ := hm
    have e2 : (s.kind == .extension type ⟨(Entries.splitKeys fs StateFields.keys).2⟩) = true := by
      rw [hk]
      exact Bool.and_eq_true_iff.2 ⟨beq_self_eq_true type,
        OrderedMap.beq_of_reordered (hrest.mono (Nat.le_succ d)) hrr⟩
    have e3 : (s.extra == {}) = true := by
      rw [hx]
      rfl
    refine ⟨⟨fields, _, {}⟩, ⟨hname', hf', ?_⟩,
      Bool.and_eq_true_iff.2 ⟨e1, Bool.and_eq_true_iff.2 ⟨e2, e3⟩⟩⟩
    rw [ht]
    exact ⟨rfl, rfl⟩

instance : codec.IgnoresOrderBelow d := .ofDefinition fun {n m s} hn hr hs => by
  obtain ⟨es, hes, -⟩ := except_bind_eq_ok.1 hs
  obtain rfl := Node.toObject_eq_ok.1 hes
  obtain ⟨fs, rfl, hm⟩ := hr.of_mapping
  obtain ⟨type, ht, hs⟩ := ofNode_eq_ok.1 hs
  have hm' := hm.swapErase hn.nodup_keys "type"
  obtain ⟨s', hs', he⟩ := readAs_reordered (hn.swapErase "type") hm' hs
  exact ⟨s', ofNode_eq_ok.2 ⟨type, hm.get?_string hn.nodup_keys ht, hs'⟩, he⟩

end State

/-! ## Documents -/

namespace Workflow

instance {α : Type} [BEq α] {key : String} {c : Codec α} [c.IgnoresOrderBelow d]
    {get : Workflow → Option (Referenceable α)} : (referenceable key c get).IgnoresOrderBelow d :=
  inferInstanceAs ((Field.optional key (.oneOf c .string) get).IgnoresOrderBelow d)

-- One instance for each of the 22 fields, which are found in one search.
set_option synthInstance.maxSize 512 in
instance : codec.IgnoresOrderBelow d := .openRecord (.computed rfl) fun _ _ h => h

end Workflow

end WorkflowDsl.Legacy
