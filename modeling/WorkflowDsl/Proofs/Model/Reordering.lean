import WorkflowDsl.Proofs.Codec.Reordering
import WorkflowDsl.Proofs.Model.RecoverableTask

/-!
# Workflows without regard to order

The definitions of a workflow are records, unions and choices, so that they ignore the order of keys
as their parts do. Those that discriminate by a key look for it whatever the order. A task is read
by the keys that it has: they tell its type (`Task.discriminate_of_hasKey_eq`), and its entries are
told apart alike in any order (`Entries.Reordered.splitKeys_fst`, `splitKeys_snd`). The tasks inside
a task stand below it, and that is what the induction goes by (`Task.ignoresOrderBelow`).
-/

namespace WorkflowDsl

open Codec (IgnoresOrderBelow)

variable {d : Nat}

/-! ## Durations -/

instance : Duration.Parts.codec.IgnoresOrderBelow d := .lawfulRecord (.computed rfl)

theorem Duration.read_mapping_eq_ok {es : Object} {a : Duration} :
    codec.read (.mapping es) = .ok a ↔
      ∃ p, Parts.codec.read (.mapping es) = .ok p ∧ parts p = a := by
  dsimp only [codec]
  cases Parts.codec.read (.mapping es) <;> simp

instance : Duration.codec.IgnoresOrderBelow d where
  read_reordered {n m a} hn hr ha := by
    cases n with
    | string =>
      obtain rfl := hr.eq_of_depth_eq_zero rfl
      exact ⟨a, ha, beq_self_eq_true a⟩
    | mapping es =>
      obtain ⟨p, hp, rfl⟩ := Duration.read_mapping_eq_ok.1 ha
      obtain ⟨fs, rfl, -⟩ := hr.of_mapping
      refine ⟨.parts p, Duration.read_mapping_eq_ok.2 ⟨p, ?_, rfl⟩, beq_self_eq_true _⟩
      exact IgnoresOrderBelow.read_eq hn hr hp
    | _ => cases ha

/-! ## Authentication -/

instance : Credentials.codec.IgnoresOrderBelow d := .lawfulRecord (.computed rfl)

instance : BearerToken.codec.IgnoresOrderBelow d := .lawfulRecord (.computed rfl)

namespace OAuth2

instance : GrantType.codec.IgnoresOrderBelow d :=
  inferInstanceAs ((Codec.choice ..).IgnoresOrderBelow d)

instance : ClientAuthentication.codec.IgnoresOrderBelow d :=
  inferInstanceAs ((Codec.choice ..).IgnoresOrderBelow d)

instance : Client.codec.IgnoresOrderBelow d := .lawfulRecord (.computed rfl)

instance : Encoding.codec.IgnoresOrderBelow d :=
  inferInstanceAs ((Codec.choice ..).IgnoresOrderBelow d)

instance : TokenRequest.codec.IgnoresOrderBelow d := .lawfulRecord (.computed rfl)

instance : Token.codec.IgnoresOrderBelow d := .lawfulRecord (.computed rfl)

instance : Endpoints.codec.IgnoresOrderBelow d := .lawfulRecord (.computed rfl)

instance : OAuth2.codec.IgnoresOrderBelow d := .lawfulRecord (.computed rfl)

end OAuth2

namespace Authentication

/-- Reads what stands under the key of a policy. -/
def ofBody (key : String) (body : Node) : Except DefinitionError Authentication :=
  match AuthenticationScheme.ofText? key with
  | none =>
    match body with
    | .string name => .ok (secret name)
    | n => .error (.invalidFormat "use" (Json.compact n) "must be the name of a secret")
  | some .basic => (Credentials.codec.decodeObject key body).map basic
  | some .bearer => (BearerToken.codec.decodeObject key body).map bearer
  | some .digest => (Credentials.codec.decodeObject key body).map digest
  | some .oauth2 => (OAuth2.codec.decodeObject key body).map oauth2
  | some .oidc => (OAuth2.codec.decodeObject key body).map oidc

theorem ofNode_mapping (es : Object) :
    ofNode (.mapping es) = es.singleKind "authentication policy" kindKeys >>= fun key =>
      ofBody key ((es.get? key).getD .null) :=
  rfl

theorem ofBody_reordered {key : String} {n m : Node} {a : Authentication} (hn : n.Below d)
    (hr : n.Reordered m) (h : ofBody key n = .ok a) :
    ∃ b, ofBody key m = .ok b ∧ (a == b) = true := by
  have he {α : Type} [BEq α] [LawfulBEq α] (make : α → Authentication) (x y : α)
      (h : (x == y) = true) : (make x == make y) = true := by
    rw [eq_of_beq h]
    exact beq_self_eq_true (make y)
  unfold ofBody at h ⊢
  cases hs : AuthenticationScheme.ofText? key with
  | none =>
    simp only [hs] at h ⊢
    cases n with
    | string name =>
      obtain rfl := hr.eq_of_depth_eq_zero rfl
      exact ⟨a, h, beq_self_eq_true a⟩
    | _ => cases h
  | some scheme =>
    simp only [hs] at h ⊢
    cases scheme with
    | basic => exact IgnoresOrderBelow.decodeObject_map hn hr h (he basic)
    | bearer => exact IgnoresOrderBelow.decodeObject_map hn hr h (he bearer)
    | digest => exact IgnoresOrderBelow.decodeObject_map hn hr h (he digest)
    | oauth2 => exact IgnoresOrderBelow.decodeObject_map hn hr h (he oauth2)
    | oidc => exact IgnoresOrderBelow.decodeObject_map hn hr h (he oidc)

instance : codec.IgnoresOrderBelow d := .ofDefinition fun {n m a} hn hr ha => by
  obtain ⟨es, hes, -⟩ := except_bind_eq_ok.1 ha
  obtain rfl := Node.toObject_eq_ok.1 hes
  obtain ⟨fs, rfl, hm⟩ := hr.of_mapping
  rw [ofNode_mapping, except_bind_eq_ok] at ha
  obtain ⟨key, hk, ha⟩ := ha
  obtain ⟨b, hb, he⟩ := ofBody_reordered ((hn.mono (Nat.le_succ d)).getD_get? key)
    (hm.getD_get? hn.nodup_keys key) ha
  refine ⟨b, ?_, he⟩
  rw [ofNode_mapping]
  exact except_bind_eq_ok.2 ⟨key, hm.singleKind_eq_ok hk, hb⟩

end Authentication

instance : AuthenticationReference.codec.IgnoresOrderBelow d :=
  inferInstanceAs ((Codec.oneOf Authentication.codec .string).IgnoresOrderBelow d)

/-! ## Endpoints, resources and data models -/

instance : EndpointProperties.codec.IgnoresOrderBelow d := .lawfulRecord (.computed rfl)

instance : Endpoint.codec.IgnoresOrderBelow d :=
  inferInstanceAs ((Codec.oneOf EndpointProperties.codec .string).IgnoresOrderBelow d)

instance : ExternalResource.codec.IgnoresOrderBelow d := .lawfulRecord (.computed rfl)

instance : Catalog.codec.IgnoresOrderBelow d := .lawfulRecord (.computed rfl)

instance : Schema.codec.IgnoresOrderBelow d := .record (.computed rfl) fun _ _ h => h

instance : InputModel.codec.IgnoresOrderBelow d := .record (.computed rfl) fun _ _ h => h

instance : OutputModel.codec.IgnoresOrderBelow d := .record (.computed rfl) fun _ _ h => h

instance : ExportModel.codec.IgnoresOrderBelow d := .record (.computed rfl) fun _ _ h => h

/-! ## Timeouts and retries -/

instance : Timeout.codec.IgnoresOrderBelow d := .lawfulRecord (.computed rfl)

instance : TimeoutReference.codec.IgnoresOrderBelow d :=
  inferInstanceAs ((Codec.oneOf Timeout.codec .string).IgnoresOrderBelow d)

namespace Backoff

instance : constantCodec.IgnoresOrderBelow d := .lawfulRecord (.computed rfl)

instance : factorCodec.IgnoresOrderBelow d := .lawfulRecord (.computed rfl)

instance : incrementCodec.IgnoresOrderBelow d := .lawfulRecord (.computed rfl)

theorem beq_self (b : Backoff) : (b == b) = true := by
  cases b with
  | constant => rfl
  | exponential factor =>
    cases factor with
    | none => rfl
    | some x =>
      show x.equal x = true
      simp [Binary64.equal]
  | linear increment => exact beq_self_eq_true increment

theorem ofProperties_reordered {name : String} {n m : Node} {b : Backoff} (hn : n.Below d)
    (hr : n.Reordered m) (h : ofProperties name n = .ok b) : ofProperties name m = .ok b := by
  have hc {α : Type} [BEq α] [LawfulBEq α] {c : Codec α} [c.IgnoresOrderBelow d]
      {make : α → Backoff} (h : (c.read n).map make = .ok b) : (c.read m).map make = .ok b := by
    obtain ⟨x, hx, rfl⟩ := except_map_eq_ok.1 h
    exact except_map_eq_ok.2 ⟨x, IgnoresOrderBelow.read_eq hn hr hx, rfl⟩
  unfold ofProperties at h ⊢
  split at h
  · next h1 =>
    rw [if_pos h1]
    exact hc h
  split at h
  · next h1 h2 =>
    rw [if_neg h1, if_pos h2]
    exact hc h
  split at h
  · next h1 h2 h3 =>
    rw [if_neg h1, if_neg h2, if_pos h3]
    exact hc h
  · cases h

instance : codec.IgnoresOrderBelow d where
  read_reordered {n m b} hn hr hb := by
    cases n with
    | mapping es =>
      match es, hn, hr, hb with
      | [(name, v)], hn, hr, hb =>
        obtain ⟨fs, rfl, hm⟩ := hr.of_mapping
        obtain ⟨w, rfl, hw⟩ := hm.of_singleton
        have hv := (hn.mono (Nat.le_succ d)).of_mem_mapping List.mem_cons_self
        exact ⟨b, ofProperties_reordered hv hw hb, beq_self b⟩
      | [], _, _, hb => cases hb
      | _ :: _ :: _, _, _, hb => cases hb
    | string name =>
      unfold codec at hb
      dsimp only at hb
      split at hb <;> cases hb
    | _ => cases hb

end Backoff

instance : AttemptLimit.codec.IgnoresOrderBelow d := .lawfulRecord (.computed rfl)

instance : RetryLimit.codec.IgnoresOrderBelow d := .lawfulRecord (.computed rfl)

instance : Jitter.codec.IgnoresOrderBelow d := .lawfulRecord (.computed rfl)

instance : RetryPolicy.codec.IgnoresOrderBelow d := .record (.computed rfl) fun _ _ h => h

instance : RetryReference.codec.IgnoresOrderBelow d :=
  inferInstanceAs ((Codec.oneOf RetryPolicy.codec .string).IgnoresOrderBelow d)

/-! ## Problems -/

instance : Problem.codec.IgnoresOrderBelow d := .lawfulRecord (.computed rfl)

instance : ProblemReference.codec.IgnoresOrderBelow d :=
  inferInstanceAs ((Codec.oneOf Problem.codec .string).IgnoresOrderBelow d)

instance : ProblemProperties.codec.IgnoresOrderBelow d := .lawfulRecord (.computed rfl)

instance : ProblemFilter.codec.IgnoresOrderBelow d := .lawfulRecord (.computed rfl)

/-! ## Events -/

instance : Event.codec.IgnoresOrderBelow d := .record (.computed rfl) fun _ _ h => h

instance : Emission.codec.IgnoresOrderBelow d := .record (.computed rfl) fun _ _ h => h

instance : Correlation.codec.IgnoresOrderBelow d := .lawfulRecord (.computed rfl)

instance : EventFilter.codec.IgnoresOrderBelow d := .record (.computed rfl) fun _ _ h => h

theorem EventSelection.ofNode_reordered {key : String} {n m : Node} {s : EventSelection}
    (hn : n.Below d) (hr : n.Reordered m) (h : ofNode key n = .ok s) :
    ∃ t, ofNode key m = .ok t ∧ (s == t) = true := by
  unfold ofNode at h ⊢
  by_cases h1 : (key == "all") = true
  · rw [if_pos h1] at h ⊢
    exact IgnoresOrderBelow.decode_map hn hr h fun _ _ h => h
  rw [if_neg h1] at h ⊢
  by_cases h2 : (key == "any") = true
  · rw [if_pos h2] at h ⊢
    exact IgnoresOrderBelow.decode_map hn hr h fun _ _ h => h
  rw [if_neg h2] at h ⊢
  exact IgnoresOrderBelow.decode_map hn hr h fun _ _ h => h

namespace EventStrategy

/-- The codec of what ends a strategy. -/
def untilCodec (depth : Nat) : Codec (OneOf EventStrategy String) :=
  .oneOf ((codecBy (ofNodeWithin depth)).named "Box<EventConsumptionStrategyDefinition>") .string

/-- A strategy is read by the key of its selection, and then what ends it, if anything does. -/
theorem ofNodeWithin_eq_ok {k : Nat} {es : Object} {a : EventStrategy} :
    ofNodeWithin (k + 1) (.mapping es) = .ok a ↔
      ∃ key s u, es.singleKind "event consumption strategy" kindKeys = .ok key ∧
        EventSelection.ofNode key ((es.get? key).getD .null) = .ok s ∧
          Option.Rel (fun n v => (untilCodec k).read n = .ok v) (es.get? "until") u ∧
            make s u = a := by
  constructor
  · intro h
    obtain ⟨key, hk, h⟩ := except_bind_eq_ok.1 (show (es.singleKind _ _ >>= _) = _ from h)
    obtain ⟨s, hs, h⟩ := except_bind_eq_ok.1 h
    generalize es.get? "until" = x at h ⊢
    cases x with
    | none => exact ⟨key, s, none, hk, hs, .none, Except.ok.inj h⟩
    | some n =>
      obtain ⟨v, hv, rfl⟩ := except_map_eq_ok.1 h
      exact ⟨key, s, some v, hk, hs, .some (Codec.ofDefinition_read_eq_ok.2 hv), rfl⟩
  · rintro ⟨key, s, u, hk, hs, hu, rfl⟩
    show (es.singleKind _ _ >>= _) = _
    refine except_bind_eq_ok.2 ⟨key, hk, except_bind_eq_ok.2 ⟨s, hs, ?_⟩⟩
    generalize es.get? "until" = x at hu ⊢
    cases hu with
    | none => rfl
    | some hv => exact except_map_eq_ok.2 ⟨_, Codec.ofDefinition_read_eq_ok.1 hv, rfl⟩

theorem make_beq {s t : EventSelection} {u v : Option (OneOf EventStrategy String)}
    (hs : (s == t) = true) (hu : Option.Rel (fun a b => (a == b) = true) u v) :
    (make s u == make t v) = true := by
  cases hu with
  | none => exact hs
  | @some a b hab =>
    cases a <;> cases b
    · exact Bool.and_eq_true_iff.2 ⟨hs, hab⟩
    · cases hab
    · cases hab
    · exact Bool.and_eq_true_iff.2 ⟨hs, hab⟩

/-- What ends a strategy may be another one, so this goes by induction on the depth. -/
theorem ignoresOrderBelow_within (k d : Nat) : (codecBy (ofNodeWithin k)).IgnoresOrderBelow d := by
  induction k generalizing d with
  | zero => exact .ofDefinition fun _ _ h => nomatch h
  | succ k ih =>
    refine .ofDefinition fun {n m a} hn hr ha => ?_
    obtain ⟨es, hes, -⟩ := except_bind_eq_ok.1 ha
    obtain rfl := Node.toObject_eq_ok.1 hes
    obtain ⟨fs, rfl, hm⟩ := hr.of_mapping
    obtain ⟨key, s, u, hk, hs, hu, rfl⟩ := ofNodeWithin_eq_ok.1 ha
    have hd := hn.mono (Nat.le_succ d)
    obtain ⟨t, ht, hst⟩ := EventSelection.ofNode_reordered (hd.getD_get? key)
      (hm.getD_get? hn.nodup_keys key) hs
    have hc : (untilCodec k).IgnoresOrderBelow d := by
      have := ih d
      exact inferInstanceAs ((Codec.oneOf (Codec.named ..) .string).IgnoresOrderBelow d)
    obtain ⟨v, hv, huv⟩ := (untilCodec k).option_rel_reordered hd hm "until" hu
    exact ⟨make t v, ofNodeWithin_eq_ok.2 ⟨key, t, v, hm.singleKind_eq_ok hk, ht, hv, rfl⟩,
      make_beq hst huv⟩

instance : codec.IgnoresOrderBelow d := .ofDefinition fun {n m a} hn hr ha => by
  have hd : m.depth = n.depth := (hn.depth_eq_of_reordered hr).symm
  have h := ignoresOrderBelow_within (n.depth + 1) d
  obtain ⟨b, hb, he⟩ := h.read_reordered hn hr (Codec.ofDefinition_read_eq_ok.2 ha)
  refine ⟨b, ?_, he⟩
  rw [ofNode, hd]
  exact Codec.ofDefinition_read_eq_ok.1 hb

end EventStrategy

instance : EventReadMode.codec.IgnoresOrderBelow d :=
  inferInstanceAs ((Codec.choice ..).IgnoresOrderBelow d)

instance : Listener.codec.IgnoresOrderBelow d := .record (.computed rfl) fun _ _ h => h

/-! ## Processes and calls -/

instance : ProcessReturn.codec.IgnoresOrderBelow d :=
  inferInstanceAs ((Codec.choice ..).IgnoresOrderBelow d)

instance : Cleanup.codec.IgnoresOrderBelow d :=
  inferInstanceAs ((Codec.choice ..).IgnoresOrderBelow d)

instance : ContainerLifetime.codec.IgnoresOrderBelow d := .lawfulRecord (.computed rfl)

instance : ContainerProcess.codec.IgnoresOrderBelow d := .record (.computed rfl) fun _ _ h => h

instance : ScriptProcess.codec.IgnoresOrderBelow d := .record (.computed rfl) fun _ _ h => h

instance : ShellProcess.codec.IgnoresOrderBelow d := .record (.computed rfl) fun _ _ h => h

instance : WorkflowProcess.codec.IgnoresOrderBelow d := .record (.computed rfl) fun _ _ h => h

theorem Process.ofNode_reordered {key : String} {n m : Node} {p : Process}
    (hn : n.Below d) (hr : n.Reordered m) (h : ofNode key n = .ok p) :
    ∃ q, ofNode key m = .ok q ∧ (p == q) = true := by
  unfold ofNode at h ⊢
  by_cases h1 : (key == "container") = true
  · rw [if_pos h1] at h ⊢
    exact IgnoresOrderBelow.decodeObject_map hn hr h fun _ _ h => h
  rw [if_neg h1] at h ⊢
  by_cases h2 : (key == "script") = true
  · rw [if_pos h2] at h ⊢
    exact IgnoresOrderBelow.decodeObject_map hn hr h fun _ _ h => h
  rw [if_neg h2] at h ⊢
  by_cases h3 : (key == "shell") = true
  · rw [if_pos h3] at h ⊢
    exact IgnoresOrderBelow.decodeObject_map hn hr h fun _ _ h => h
  rw [if_neg h3] at h ⊢
  exact IgnoresOrderBelow.decodeObject_map hn hr h fun _ _ h => h

instance : RunOptions.codec.IgnoresOrderBelow d := .lawfulRecord (.computed rfl)

instance : Run.codec.IgnoresOrderBelow d where
  read_reordered {n m r} hn hr h := by
    obtain ⟨es, hes, -⟩ := except_bind_eq_ok.1 (Codec.ofDefinition_read_eq_ok.1 h)
    obtain rfl := Node.toObject_eq_ok.1 hes
    obtain ⟨fs, rfl, hm⟩ := hr.of_mapping
    obtain ⟨key, hk, hp, ho⟩ := Run.read_mapping_eq_ok.1 h
    obtain ⟨q, hq, hpq⟩ := Process.ofNode_reordered ((hn.mono (Nat.le_succ d)).getD_get? key)
      (hm.getD_get? hn.nodup_keys key) hp
    have ho' := IgnoresOrderBelow.read_eq (hn.of_sublist (Entries.sublist_splitKeys_snd es [key]))
      (Node.reordered_mapping.2 (hm.splitKeys_snd [key])) ho
    refine ⟨⟨q, r.options⟩, Run.read_mapping_eq_ok.2 ⟨key, hm.singleKind_eq_ok hk, hq, ho'⟩, ?_⟩
    exact Bool.and_eq_true_iff.2 ⟨hpq, beq_self_eq_true r.options⟩

instance : Call.codec.IgnoresOrderBelow d := .record (.computed rfl) fun _ _ h => h

/-! ## Kinds of tasks -/

instance : FlowDirective.codec.IgnoresOrderBelow d := .imap _ _

instance : Loop.codec.IgnoresOrderBelow d := .lawfulRecord (.computed rfl)

instance : SwitchCase.codec.IgnoresOrderBelow d := .lawfulRecord (.computed rfl)

section

variable {τ : Type} [BEq τ]

namespace TaskKind

instance : BEq (TaskKind τ) := ⟨equalBy (· == ·)⟩

end TaskKind

instance : BEq (Branching τ) := ⟨fun b c => TaskKind.fork b == .fork c⟩

instance : BEq (ListenTask τ) := ⟨fun s t => TaskKind.listen s == .listen t⟩

instance : BEq (TryTask τ) := ⟨fun s t => TaskKind.try_ s == .try_ t⟩

variable {task : Codec τ} [task.IgnoresOrderBelow d]

theorem ForTask.ignoresOrder_succ : (ForTask.codec task).IgnoresOrderBelow (d + 1) :=
  .record_succ (.computed rfl) fun _ _ h => h

theorem ForTask.equalBy_of_beq {s t : ForTask τ} (h : (s == t) = true) :
    (TaskKind.for_ s == .for_ t) = true := by
  have h : (s.loop == t.loop && (s.condition == t.condition && s.tasks == t.tasks)) = true := h
  simp only [Bool.and_eq_true] at h
  obtain ⟨hl, hc, ht⟩ := h
  exact Bool.and_eq_true_iff.2 ⟨Bool.and_eq_true_iff.2 ⟨hl, hc⟩, NamedMap.equalBy_of_beq ht⟩

instance : (Branching.codec task).IgnoresOrderBelow d := .record (.computed rfl) fun _ _ h => by
    obtain ⟨hb, hc⟩ := Bool.and_eq_true_iff.1 h
    exact Bool.and_eq_true_iff.2 ⟨NamedMap.equalBy_of_beq hb, hc⟩

instance : (Subscription.codec task).IgnoresOrderBelow d := .record (.computed rfl) fun _ _ h => h

theorem ListenTask.beq_of_fields {s t : ListenTask τ} (hl : (s.listener == t.listener) = true)
    (hs : (s.subscription == t.subscription) = true) : (s == t) = true := by
  refine Bool.and_eq_true_iff.2 ⟨hl, ?_⟩
  obtain ⟨_, _ | a⟩ := s <;> obtain ⟨_, _ | b⟩ := t
  · rfl
  · cases hs
  · cases hs
  · have hs : (a.item == b.item && (a.index == b.index && (a.tasks == b.tasks &&
        (a.output == b.output && a.export_ == b.export_)))) = true := hs
    simp only [Bool.and_eq_true] at hs
    obtain ⟨h1, h2, h3, h4, h5⟩ := hs
    simp only [Bool.and_eq_true]
    exact ⟨⟨⟨⟨h1, h2⟩, NamedMap.equalBy_of_beq h3⟩, h4⟩, h5⟩

theorem ListenTask.ignoresOrder_succ : (ListenTask.codec task).IgnoresOrderBelow (d + 1) :=
  .record_succ (.computed rfl) fun _ _ h => by
    obtain ⟨hl, hs⟩ := Bool.and_eq_true_iff.1 h
    exact ListenTask.beq_of_fields hl hs

instance : (Catcher.codec task).IgnoresOrderBelow d := .record (.computed rfl) fun _ _ h => h

theorem TryTask.beq_of_fields {s t : TryTask τ} (hs : (s.tasks == t.tasks) = true)
    (hc : (s.catcher == t.catcher) = true) : (s == t) = true := by
  have hc : (s.catcher.filter == t.catcher.filter && (s.catcher.variable_ == t.catcher.variable_ &&
      (s.catcher.condition == t.catcher.condition && (s.catcher.exception == t.catcher.exception &&
        (s.catcher.retry == t.catcher.retry && s.catcher.tasks == t.catcher.tasks))))) = true := hc
  simp only [Bool.and_eq_true] at hc
  obtain ⟨h1, h2, h3, h4, h5, h6⟩ := hc
  show TaskKind.equalBy _ _ _ = true
  simp only [TaskKind.equalBy, Bool.and_eq_true]
  exact ⟨⟨⟨⟨⟨⟨NamedMap.equalBy_of_beq hs, h1⟩, h2⟩, h3⟩, h4⟩, h5⟩, NamedMap.equalBy_of_beq h6⟩

theorem TryTask.ignoresOrder_succ : (TryTask.codec task).IgnoresOrderBelow (d + 1) :=
  .record_succ (.computed rfl) fun _ _ h => by
    obtain ⟨ht, hc⟩ := Bool.and_eq_true_iff.1 h
    exact TryTask.beq_of_fields ht hc

namespace TaskKind

theorem single_ignoresOrder_succ {α : Type} [BEq α] {definition key : String} {c : Codec α}
    [c.IgnoresOrderBelow d] : (single definition key c).IgnoresOrderBelow (d + 1) :=
  .record_succ single_lawful fun _ _ h => h

/-- **The entries of a kind are read as equal kinds in any order**, if the tasks inside are. -/
theorem ofObject_reordered {type : TaskType} {owned owned' : Object} {k : TaskKind τ}
    (hn : (Node.mapping owned).Below (d + 1)) (hr : owned.Reordered owned')
    (h : ofObject task type owned = .ok k) :
    ∃ l, ofObject task type owned' = .ok l ∧ (k == l) = true := by
  have hr := Node.reordered_mapping.2 hr
  have hc {α : Type} [BEq α] {c : Codec α} (hc : c.IgnoresOrderBelow (d + 1))
      {make : α → TaskKind τ} (he : ∀ x y, (x == y) = true → (make x == make y) = true)
      (h : (c.decode (.mapping owned)).map make = .ok k) :
      ∃ l, (c.decode (.mapping owned')).map make = .ok l ∧ (k == l) = true :=
    IgnoresOrderBelow.decode_map hn hr h he
  cases type with
  | call => exact hc (c := Call.codec) inferInstance (fun _ _ h => h) h
  | do_ => exact hc single_ignoresOrder_succ (fun _ _ h => NamedMap.equalBy_of_beq h) h
  | emit => exact hc single_ignoresOrder_succ (fun _ _ h => h) h
  | for_ => exact hc ForTask.ignoresOrder_succ (fun _ _ h => ForTask.equalBy_of_beq h) h
  | fork => exact hc single_ignoresOrder_succ (fun _ _ h => h) h
  | listen => exact hc ListenTask.ignoresOrder_succ (fun _ _ h => h) h
  | raise =>
    have : (single "RaiseErrorDefinition" "error" ProblemReference.codec).IgnoresOrderBelow d :=
      single_ignoresOrder_succ.mono (Nat.le_succ d)
    exact hc single_ignoresOrder_succ (fun _ _ h => h) h
  | run => exact hc single_ignoresOrder_succ (fun _ _ h => h) h
  | set => exact hc single_ignoresOrder_succ (fun _ _ h => h) h
  | switch => exact hc single_ignoresOrder_succ (fun _ _ h => h) h
  | try_ => exact hc TryTask.ignoresOrder_succ (fun _ _ h => h) h
  | wait => exact hc single_ignoresOrder_succ (fun _ _ h => h) h

end TaskKind

end

/-! ## Tasks -/

instance : TaskFields.codec.IgnoresOrderBelow d := .record (.computed rfl) fun _ _ h => h

namespace Task

theorem beq_mk {fields fields' : TaskFields} {kind kind' : TaskKind Task}
    {extra extra' : OrderedMap Node} (hf : (fields == fields') = true) (hk : (kind == kind') = true)
    (he : (extra == extra') = true) : (mk fields kind extra == mk fields' kind' extra') = true := by
  show equal _ _ = true
  rw [equal_mk]
  exact Bool.and_eq_true_iff.2 ⟨Bool.and_eq_true_iff.2 ⟨hf, hk⟩, he⟩

variable {es fs : Object} {read : Node → Except DefinitionError Task} (hr : es.Reordered fs)
  (hn : (Node.mapping es).Below (d + 1))
include hr hn

theorem fields_reordered {fields : TaskFields}
    (h : TaskFields.codec.read (.mapping (es.splitKeys TaskFields.keys).1) = .ok fields) :
    ∃ fields', TaskFields.codec.read (.mapping (fs.splitKeys TaskFields.keys).1) = .ok fields' ∧
      (fields == fields') = true :=
  IgnoresOrderBelow.read_reordered (hn.of_sublist (Entries.sublist_splitKeys_fst es _))
    (Node.reordered_mapping.2 (hr.splitKeys_fst _)) h

theorem extensionKind_reordered {k : TaskKind Task}
    (h : extensionKind (es.splitKeys TaskFields.keys).2 = .ok k) :
    ∃ l, extensionKind (fs.splitKeys TaskFields.keys).2 = .ok l ∧ (k == l) = true := by
  have hd := hn.of_sublist (Entries.sublist_splitKeys_snd es TaskFields.keys)
  have hr := hr.splitKeys_snd TaskFields.keys
  obtain ⟨key, definition, hs, rfl⟩ := extensionKind_eq_ok.1 h
  rw [hs] at hd hr
  obtain ⟨definition', hs', hdef⟩ := hr.of_singleton
  refine ⟨.extension key definition', extensionKind_eq_ok.2 ⟨key, definition', hs', rfl⟩, ?_⟩
  refine Bool.and_eq_true_iff.2 ⟨beq_self_eq_true key, ?_⟩
  exact Node.beq_of_reordered (hd.of_mem_mapping List.mem_cons_self) hdef

/-- A task is read as an equal one in any order of keys, if the tasks inside are. -/
theorem ofNodeBy_reordered [(codecBy read).IgnoresOrderBelow d] {t : Task}
    (h : ofNodeBy read (.mapping es) = .ok t) :
    ∃ u, ofNodeBy read (.mapping fs) = .ok u ∧ (t == u) = true := by
  have hd : discriminate es = discriminate fs := discriminate_of_hasKey_eq hr.hasKey_eq
  obtain ⟨fields, kind, extra⟩ := t
  rcases discriminate_of_ofNodeBy h with ⟨type, ht⟩ | ht
  · obtain ⟨h1, h2, rfl⟩ := (ofNodeBy_typed ht).1 h
    have hrest := hn.of_sublist (Entries.sublist_splitKeys_snd es TaskFields.keys)
    have hrr := hr.splitKeys_snd TaskFields.keys
    obtain ⟨fields', hf, e1⟩ := fields_reordered hr hn h1
    obtain ⟨kind', hk, e2⟩ := TaskKind.ofObject_reordered
      (hrest.of_sublist (Entries.sublist_splitKeys_fst _ _)) (hrr.splitKeys_fst _) h2
    have e3 := OrderedMap.beq_of_reordered
      (hrest.of_sublist (Entries.sublist_splitKeys_snd _ _)) (hrr.splitKeys_snd type.ownedKeys)
    exact ⟨mk fields' kind' ⟨(split fs type).2⟩, (ofNodeBy_typed (hd ▸ ht)).2 ⟨hf, hk, rfl⟩,
      beq_mk e1 e2 e3⟩
  · obtain ⟨h1, h2, rfl⟩ := (ofNodeBy_untyped ht).1 h
    obtain ⟨fields', hf, e1⟩ := fields_reordered hr hn h1
    obtain ⟨kind', hk, e2⟩ := extensionKind_reordered hr hn h2
    exact ⟨mk fields' kind' {}, (ofNodeBy_untyped (hd ▸ ht)).2 ⟨hf, hk, rfl⟩, beq_mk e1 e2 rfl⟩

omit hr hn in
/-- **Tasks are read as equal ones in any order of keys.** A task of `d + 1` levels has tasks of `d`
levels inside, of which this holds by induction. -/
theorem ignoresOrderBelow (d : Nat) : codec.IgnoresOrderBelow d := by
  induction d with
  | zero => exact .zero
  | succ d ih =>
    have ih : (codecBy ofNode).IgnoresOrderBelow d := ih
    refine ⟨fun {n m t} hn hr ht => ?_⟩
    cases n with
    | mapping es =>
      obtain ⟨fs, rfl, hm⟩ := hr.of_mapping
      obtain ⟨u, hu, he⟩ := ofNodeBy_reordered hm hn (read_mapping_eq_ok.1 ht)
      exact ⟨u, read_mapping_eq_ok.2 hu, he⟩
    | _ => cases ht

instance : codec.IgnoresOrderBelow d := ignoresOrderBelow d

end Task

/-! ## Components and documents -/

instance : Extension.codec.IgnoresOrderBelow d := .record (.computed rfl) fun _ _ h => h

instance : Components.codec.IgnoresOrderBelow d := .record (.computed rfl) fun _ _ h => h

instance : DocumentInfo.codec.IgnoresOrderBelow d := .record (.computed rfl) fun _ _ h => h

instance : Schedule.codec.IgnoresOrderBelow d := .record (.computed rfl) fun _ _ h => h

instance : Workflow.codec.IgnoresOrderBelow d := .openRecord (.computed rfl) fun _ _ h => h

end WorkflowDsl
