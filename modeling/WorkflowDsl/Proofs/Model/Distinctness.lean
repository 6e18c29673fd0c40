import WorkflowDsl.Proofs.Codec.Distinctness
import WorkflowDsl.Proofs.Model.Origin
import WorkflowDsl.Proofs.Model.Reordering

/-!
# Workflows written with distinct keys

The definitions of a workflow are records, unions and choices, so that they are written with
distinct keys as their parts are (`Codec.DistinctBelow`). A definition that names its kind by a key
is written under one key, and a task under those of its kind, of the common fields and of its other
entries (`Task.nodup_keys_assemble`). The tasks inside a task stand below it, and that is what the
induction goes by (`Task.distinctBelow`).

So what is read from a tree with distinct keys is written as such a tree
(`Workflow.distinctKeys_write`).
-/

namespace WorkflowDsl

open Codec (DistinctBelow)

variable {d : Nat}

theorem Node.distinctKeys_singleton (key : String) (n : Node) :
    (mapping [(key, n)]).distinctKeys = true ↔ n.distinctKeys = true := by
  rw [distinctKeys_mapping, List.forall_mem_singleton]
  exact and_iff_right (List.nodup_singleton key)

/-- What is made of a value that is read is written with distinct keys if the value is. -/
theorem Codec.DistinctBelow.write_of_decodeObject {α β : Type} {c : Codec α} [h : c.DistinctBelow d]
    {make : α → β} {key : String} {n : Node} {b : β} (hn : n.Below d)
    (hr : (c.decodeObject key n).map make = .ok b) :
    ∃ a, make a = b ∧ (c.write a).distinctKeys = true := by
  obtain ⟨a, ha, rfl⟩ := except_map_eq_ok.1 hr
  obtain ⟨_, rfl, ha⟩ := decodeObject_eq_ok.1 ha
  exact ⟨a, rfl, h.distinct_of_read hn ha⟩

/-! ## Durations -/

instance : Duration.Parts.codec.DistinctBelow d := .record (.computed rfl)

instance : Duration.codec.DistinctBelow d where
  distinct_of_read {n a} hn ha := by
    cases n with
    | string =>
      obtain rfl := Except.ok.inj ha
      rfl
    | mapping es =>
      obtain ⟨p, hp, rfl⟩ := Duration.read_mapping_eq_ok.1 ha
      exact Codec.DistinctBelow.distinct_of_read (c := Duration.Parts.codec) hn hp
    | _ => cases ha

/-! ## Authentication -/

instance : Credentials.codec.DistinctBelow d := .record (.computed rfl)

instance : BearerToken.codec.DistinctBelow d := .record (.computed rfl)

namespace OAuth2

instance : GrantType.codec.DistinctBelow d := inferInstanceAs ((Codec.choice ..).DistinctBelow d)

instance : ClientAuthentication.codec.DistinctBelow d :=
  inferInstanceAs ((Codec.choice ..).DistinctBelow d)

instance : Client.codec.DistinctBelow d := .record (.computed rfl)

instance : Encoding.codec.WritesDistinct := inferInstanceAs (Codec.choice ..).WritesDistinct

instance : TokenRequest.codec.DistinctBelow d := .record (.computed rfl)

instance : Token.codec.DistinctBelow d := .record (.computed rfl)

instance : Endpoints.codec.DistinctBelow d := .record (.computed rfl)

instance : OAuth2.codec.DistinctBelow d := .record (.computed rfl)

end OAuth2

namespace Authentication

theorem distinctKeys_of_ofBody {key : String} {n : Node} {a : Authentication} (hn : n.Below d)
    (h : ofBody key n = .ok a) : a.toNode.distinctKeys = true := by
  have hc {α : Type} {c : Codec α} [c.DistinctBelow d] {make : α → Authentication} {name : String}
      (hw : ∀ x, (make x).toNode = .mapping [(name, c.write x)])
      (h : (c.decodeObject key n).map make = .ok a) : a.toNode.distinctKeys = true := by
    obtain ⟨x, rfl, hx⟩ := DistinctBelow.write_of_decodeObject hn h
    rw [hw]
    exact (Node.distinctKeys_singleton name _).2 hx
  unfold ofBody at h
  cases hs : AuthenticationScheme.ofText? key with
  | none =>
    simp only [hs] at h
    cases n with
    | string name =>
      obtain rfl := Except.ok.inj h
      exact (Node.distinctKeys_singleton "use" (.string name)).2 rfl
    | _ => cases h
  | some scheme =>
    simp only [hs] at h
    cases scheme with
    | basic => exact hc (c := Credentials.codec) (fun _ => rfl) h
    | bearer => exact hc (c := BearerToken.codec) (fun _ => rfl) h
    | digest => exact hc (c := Credentials.codec) (fun _ => rfl) h
    | oauth2 => exact hc (c := OAuth2.codec) (fun _ => rfl) h
    | oidc => exact hc (c := OAuth2.codec) (fun _ => rfl) h

instance : codec.DistinctBelow d := .ofDefinition fun {n a} hn ha => by
  obtain ⟨es, hes, -⟩ := except_bind_eq_ok.1 ha
  obtain rfl := Node.toObject_eq_ok.1 hes
  rw [ofNode_mapping, except_bind_eq_ok] at ha
  obtain ⟨key, -, ha⟩ := ha
  exact distinctKeys_of_ofBody ((hn.mono (Nat.le_succ d)).getD_get? key) ha

end Authentication

instance : AuthenticationReference.codec.DistinctBelow d :=
  inferInstanceAs ((Codec.oneOf Authentication.codec .string).DistinctBelow d)

/-! ## Endpoints, resources and data models -/

instance : EndpointProperties.codec.DistinctBelow d := .record (.computed rfl)

instance : Endpoint.codec.DistinctBelow d :=
  inferInstanceAs ((Codec.oneOf EndpointProperties.codec .string).DistinctBelow d)

instance : ExternalResource.codec.DistinctBelow d := .record (.computed rfl)

instance : Catalog.codec.DistinctBelow d := .record (.computed rfl)

instance : Schema.codec.DistinctBelow d := .record (.computed rfl)

instance : InputModel.codec.DistinctBelow d := .record (.computed rfl)

instance : OutputModel.codec.DistinctBelow d := .record (.computed rfl)

instance : ExportModel.codec.DistinctBelow d := .record (.computed rfl)

/-! ## Timeouts and retries -/

instance : Timeout.codec.DistinctBelow d := .record (.computed rfl)

instance : TimeoutReference.codec.DistinctBelow d :=
  inferInstanceAs ((Codec.oneOf Timeout.codec .string).DistinctBelow d)

namespace Backoff

instance : constantCodec.DistinctBelow d := .record (.computed rfl)

instance : factorCodec.DistinctBelow d := .record (.computed rfl)

instance : incrementCodec.DistinctBelow d := .record (.computed rfl)

theorem distinctKeys_of_ofProperties {name : String} {n : Node} {b : Backoff} (hn : n.Below d)
    (h : ofProperties name n = .ok b) : (codec.write b).distinctKeys = true := by
  have hc {α : Type} {c : Codec α} [hc : c.DistinctBelow d] {make : α → Backoff} {key : String}
      (hw : ∀ x, codec.write (make x) = .mapping [(key, c.write x)])
      (h : (c.read n).map make = .ok b) : (codec.write b).distinctKeys = true := by
    obtain ⟨x, hx, rfl⟩ := except_map_eq_ok.1 h
    rw [hw]
    exact (Node.distinctKeys_singleton key _).2 (hc.distinct_of_read hn hx)
  unfold ofProperties at h
  split at h
  · exact hc (c := constantCodec) (fun _ => rfl) h
  split at h
  · exact hc (c := factorCodec) (fun _ => rfl) h
  split at h
  · exact hc (c := incrementCodec) (fun _ => rfl) h
  · cases h

instance : codec.DistinctBelow d where
  distinct_of_read {n b} hn hb := by
    cases n with
    | mapping es =>
      match es, hn, hb with
      | [(name, v)], hn, hb =>
        have hv := (hn.mono (Nat.le_succ d)).of_mem_mapping List.mem_cons_self
        exact distinctKeys_of_ofProperties hv hb
      | [], _, hb => cases hb
      | _ :: _ :: _, _, hb => cases hb
    | string name =>
      unfold codec at hb
      dsimp only at hb
      split at hb <;> cases hb
    | _ => cases hb

end Backoff

instance : AttemptLimit.codec.DistinctBelow d := .record (.computed rfl)

instance : RetryLimit.codec.DistinctBelow d := .record (.computed rfl)

instance : Jitter.codec.DistinctBelow d := .record (.computed rfl)

instance : RetryPolicy.codec.DistinctBelow d := .record (.computed rfl)

instance : RetryReference.codec.DistinctBelow d :=
  inferInstanceAs ((Codec.oneOf RetryPolicy.codec .string).DistinctBelow d)

/-! ## Problems -/

instance : Problem.codec.DistinctBelow d := .record (.computed rfl)

instance : ProblemReference.codec.DistinctBelow d :=
  inferInstanceAs ((Codec.oneOf Problem.codec .string).DistinctBelow d)

instance : ProblemProperties.codec.DistinctBelow d := .record (.computed rfl)

instance : ProblemFilter.codec.DistinctBelow d := .record (.computed rfl)

/-! ## Events -/

instance : Event.codec.DistinctBelow d := .record (.computed rfl)

instance : Emission.codec.DistinctBelow d := .record (.computed rfl)

instance : Correlation.codec.DistinctBelow d := .record (.computed rfl)

instance : EventFilter.codec.DistinctBelow d := .record (.computed rfl)

theorem EventSelection.distinctKeys_of_ofNode {key : String} {n : Node} {s : EventSelection}
    (hn : n.Below d) (h : ofNode key n = .ok s) : s.toNode.distinctKeys = true := by
  have hc {α : Type} {c : Codec α} [hc : c.DistinctBelow d] {make : α → EventSelection}
      (hw : ∀ x, (make x).toNode = c.write x) (h : (c.decode n).map make = .ok s) :
      s.toNode.distinctKeys = true := by
    obtain ⟨x, hx, rfl⟩ := except_map_eq_ok.1 h
    rw [hw]
    exact hc.distinct_of_read hn (Codec.decode_eq_ok.1 hx)
  unfold ofNode at h
  split at h
  · exact hc (c := .list EventFilter.codec) (fun _ => rfl) h
  split at h
  · exact hc (c := .list EventFilter.codec) (fun _ => rfl) h
  · exact hc (c := EventFilter.codec) (fun _ => rfl) h

namespace EventStrategy

theorem distinctKeys_make {s : EventSelection} {u : Option (OneOf EventStrategy String)}
    (hs : s.toNode.distinctKeys = true) (hu : ∀ t, u = some (.first t) →
      t.toNode.distinctKeys = true) : (make s u).toNode.distinctKeys = true := by
  have hk : s.key ≠ "until" := by cases s <;> simp [EventSelection.key]
  match u with
  | none => exact (Node.distinctKeys_singleton _ _).2 hs
  | some (.second e) =>
    refine Node.distinctKeys_mapping.2 ⟨by simp [Entries.keys, hk], ?_⟩
    exact List.forall_mem_cons.2 ⟨hs, List.forall_mem_singleton.2 rfl⟩
  | some (.first t) =>
    refine Node.distinctKeys_mapping.2 ⟨by simp [Entries.keys, hk], ?_⟩
    exact List.forall_mem_cons.2 ⟨hs, List.forall_mem_singleton.2 (hu t rfl)⟩

/-- What ends a strategy may be another one, so this goes by induction on the depth. -/
theorem distinctBelow_within (k d : Nat) : (codecBy (ofNodeWithin k)).DistinctBelow d := by
  induction k generalizing d with
  | zero => exact .ofDefinition fun _ h => nomatch h
  | succ k ih =>
    refine .ofDefinition fun {n a} hn ha => ?_
    obtain ⟨es, hes, -⟩ := except_bind_eq_ok.1 ha
    obtain rfl := Node.toObject_eq_ok.1 hes
    obtain ⟨key, s, u, -, hs, hu, rfl⟩ := ofNodeWithin_eq_ok.1 ha
    have hd := hn.mono (Nat.le_succ d)
    have hc : (untilCodec k).DistinctBelow d := by
      have := ih d
      exact inferInstanceAs ((Codec.oneOf (Codec.named ..) .string).DistinctBelow d)
    refine distinctKeys_make (EventSelection.distinctKeys_of_ofNode (hd.getD_get? key) hs) ?_
    rintro t rfl
    generalize hg : es.get? "until" = x at hu
    cases hu with
    | some hv => exact hc.distinct_of_read (hd.of_mem_mapping (Entries.mem_of_get? hg)) hv

instance : codec.DistinctBelow d := .ofDefinition fun hn ha =>
  (distinctBelow_within _ d).distinct_of_read hn (Codec.ofDefinition_read_eq_ok.2 ha)

end EventStrategy

instance : EventReadMode.codec.DistinctBelow d :=
  inferInstanceAs ((Codec.choice ..).DistinctBelow d)

instance : Listener.codec.DistinctBelow d := .record (.computed rfl)

/-! ## Processes and calls -/

instance : ProcessReturn.codec.DistinctBelow d :=
  inferInstanceAs ((Codec.choice ..).DistinctBelow d)

instance : Cleanup.codec.DistinctBelow d := inferInstanceAs ((Codec.choice ..).DistinctBelow d)

instance : ContainerLifetime.codec.DistinctBelow d := .record (.computed rfl)

instance : ContainerProcess.codec.DistinctBelow d := .record (.computed rfl)

instance : ScriptProcess.codec.DistinctBelow d := .record (.computed rfl)

instance : ShellProcess.codec.DistinctBelow d := .record (.computed rfl)

instance : WorkflowProcess.codec.DistinctBelow d := .record (.computed rfl)

theorem Process.distinctKeys_of_ofNode {key : String} {n : Node} {p : Process} (hn : n.Below d)
    (h : ofNode key n = .ok p) : p.toNode.distinctKeys = true := by
  have hc {α : Type} {c : Codec α} [c.DistinctBelow d] {make : α → Process}
      (hw : ∀ x, (make x).toNode = c.write x) (h : (c.decodeObject key n).map make = .ok p) :
      p.toNode.distinctKeys = true := by
    obtain ⟨x, rfl, hx⟩ := DistinctBelow.write_of_decodeObject hn h
    rwa [hw]
  unfold ofNode at h
  split at h
  · exact hc (c := ContainerProcess.codec) (fun _ => rfl) h
  split at h
  · exact hc (c := ScriptProcess.codec) (fun _ => rfl) h
  split at h
  · exact hc (c := ShellProcess.codec) (fun _ => rfl) h
  · exact hc (c := WorkflowProcess.codec) (fun _ => rfl) h

instance : RunOptions.codec.DistinctBelow d := .record (.computed rfl)

theorem Run.nodup_keys_entries (r : Run) : (Entries.keys r.entries).Nodup := by
  have hs : (Entries.keys ((RunOptions.codec.write r.options).entries?.getD [])).Sublist
      ["await", "return"] := Fields.keys_writeEntries_sublist r.options _
  have hk : r.process.key ∉ ["await", "return"] := by cases r.process <;> simp [Process.key]
  exact List.nodup_cons.2 ⟨fun hm => hk (hs.subset hm), hs.nodup (by decide)⟩

instance : Run.codec.DistinctBelow d where
  distinct_of_read {n r} hn hr := by
    obtain ⟨es, hes, -⟩ := except_bind_eq_ok.1 (Codec.ofDefinition_read_eq_ok.1 hr)
    obtain rfl := Node.toObject_eq_ok.1 hes
    obtain ⟨key, -, hp, ho⟩ := Run.read_mapping_eq_ok.1 hr
    have ho := Codec.DistinctBelow.distinct_of_read (c := RunOptions.codec)
      (hn.of_sublist (Entries.sublist_splitKeys_snd es [key])) ho
    refine Node.distinctKeys_mapping.2 ⟨r.nodup_keys_entries, List.forall_mem_cons.2 ⟨?_, ?_⟩⟩
    · exact Process.distinctKeys_of_ofNode ((hn.mono (Nat.le_succ d)).getD_get? key) hp
    · exact (Node.distinctKeys_mapping.1 ho).2

instance : Call.codec.DistinctBelow d := .record (.computed rfl)

/-! ## Kinds of tasks -/

instance : FlowDirective.codec.DistinctBelow d :=
  inferInstanceAs ((Codec.string.imap _ _).DistinctBelow d)

instance : Loop.codec.DistinctBelow d := .record (.computed rfl)

instance : SwitchCase.codec.DistinctBelow d := .record (.computed rfl)

instance : TaskFields.codec.DistinctBelow d := .record (.computed rfl)

section

variable {τ : Type} {task : Codec τ} [task.DistinctBelow d]

instance : (Branching.codec task).DistinctBelow d := .record (.computed rfl)

instance : (Subscription.codec task).DistinctBelow d := .record (.computed rfl)

instance : (Catcher.codec task).DistinctBelow d := .record (.computed rfl)

namespace TaskKind

theorem single_distinct_succ {α : Type} {definition key : String} {c : Codec α}
    [c.DistinctBelow d] : (single definition key c).DistinctBelow (d + 1) :=
  .record_succ single_lawful

/-- **What is read as a kind is written with distinct keys**, if the tasks inside are. -/
theorem distinctKeys_of_ofObject {type : TaskType} {owned : Object} {k : TaskKind τ}
    (hn : (Node.mapping owned).Below (d + 1)) (h : ofObject task type owned = .ok k) :
    (k.toNode task).distinctKeys = true := by
  have hc {α : Type} {c : Codec α} (hc : c.DistinctBelow (d + 1)) {make : α → TaskKind τ}
      (hw : ∀ x, (make x).toNode task = c.write x)
      (h : (c.decode (.mapping owned)).map make = .ok k) : (k.toNode task).distinctKeys = true := by
    obtain ⟨x, hx, rfl⟩ := except_map_eq_ok.1 h
    rw [hw]
    exact hc.distinct_of_read hn (Codec.decode_eq_ok.1 hx)
  cases type with
  | call => exact hc (c := Call.codec) inferInstance (fun _ => rfl) h
  | do_ => exact hc single_distinct_succ (fun _ => rfl) h
  | emit => exact hc single_distinct_succ (fun _ => rfl) h
  | for_ =>
    exact hc (c := ForTask.codec task) (.record_succ (.computed rfl))
      (fun _ => rfl) h
  | fork => exact hc single_distinct_succ (fun _ => rfl) h
  | listen =>
    exact hc (c := ListenTask.codec task) (.record_succ (.computed rfl))
      (fun _ => rfl) h
  | raise =>
    have : (single "RaiseErrorDefinition" "error" ProblemReference.codec).DistinctBelow d :=
      single_distinct_succ.mono (Nat.le_succ d)
    exact hc single_distinct_succ (fun _ => rfl) h
  | run => exact hc single_distinct_succ (fun _ => rfl) h
  | set => exact hc single_distinct_succ (fun _ => rfl) h
  | switch => exact hc single_distinct_succ (fun _ => rfl) h
  | try_ =>
    exact hc (c := TryTask.codec task) (.record_succ (.computed rfl))
      (fun _ => rfl) h
  | wait => exact hc single_distinct_succ (fun _ => rfl) h

end TaskKind

end

/-! ## Tasks -/

namespace Task

/-- A task whose parts are written with distinct keys is. -/
theorem distinctKeys_toNode {fields : TaskFields} {kind : TaskKind Task} {extra : OrderedMap Node}
    (hf : (TaskFields.codec.write fields).distinctKeys = true)
    (hk : (kind.toNode codec).distinctKeys = true)
    (he : (Node.mapping extra.entries).distinctKeys = true) :
    (mk fields kind extra).toNode.distinctKeys = true := by
  rw [toNode_mk]
  refine Node.distinctKeys_mapping.2 ⟨nodup_keys_assemble, fun e hm => ?_⟩
  rcases Entries.mem_merge hm with hm | hm
  · rcases Entries.mem_merge hm with hm | hm
    · cases hw : kind.toNode codec with
      | mapping ks =>
        rw [hw] at hk hm
        exact (Node.distinctKeys_mapping.1 hk).2 e hm
      | _ =>
        rw [hw] at hm
        cases hm
    · exact (Node.distinctKeys_mapping.1 hf).2 e hm
  · exact (Node.distinctKeys_mapping.1 he).2 e hm

/-- **Tasks are written with distinct keys at any depth.** A task of `d + 1` levels has tasks of `d`
levels inside, of which this holds by induction. -/
theorem distinctBelow (d : Nat) : codec.DistinctBelow d := by
  induction d with
  | zero => exact .zero
  | succ d ih =>
    have ih : (codecBy ofNode).DistinctBelow d := ih
    refine ⟨fun {n t} hn hr => ?_⟩
    cases n with
    | mapping es =>
      have h := read_mapping_eq_ok.1 hr
      obtain ⟨fields, kind, extra⟩ := t
      have hf {fs : TaskFields} (hf : TaskFields.codec.read
          (.mapping (Entries.splitKeys es TaskFields.keys).1) = .ok fs) :
          (TaskFields.codec.write fs).distinctKeys = true :=
        DistinctBelow.distinct_of_read (hn.of_sublist (Entries.sublist_splitKeys_fst _ _)) hf
      have hs := Entries.sublist_splitKeys_snd es TaskFields.keys
      rcases discriminate_of_ofNodeBy h with ⟨type, ht⟩ | ht
      · obtain ⟨h1, h2, h3⟩ := (ofNodeBy_typed ht).1 h
        obtain rfl : extra = ⟨(split es type).2⟩ := h3
        have hk : (Node.mapping (split es type).1).Below (d + 1) :=
          hn.of_sublist ((Entries.sublist_splitKeys_fst _ _).trans hs)
        have he : (Node.mapping (split es type).2).Below (d + 1) :=
          hn.of_sublist ((Entries.sublist_splitKeys_snd _ _).trans hs)
        exact distinctKeys_toNode (hf h1) (TaskKind.distinctKeys_of_ofObject hk h2) he.distinct
      · obtain ⟨h1, h2, h3⟩ := (ofNodeBy_untyped ht).1 h
        obtain ⟨key, definition, hes, h2⟩ := extensionKind_eq_ok.1 h2
        obtain rfl : kind = .extension key definition := h2
        obtain rfl : extra = {} := h3
        have hk := (hn.of_sublist hs).distinct
        rw [hes] at hk
        exact distinctKeys_toNode (hf h1) hk rfl
    | _ => cases hr

instance : codec.DistinctBelow d := distinctBelow d

end Task

/-! ## Components and documents -/

instance : Extension.codec.DistinctBelow d := .record (.computed rfl)

instance : Components.codec.DistinctBelow d := .record (.computed rfl)

instance : DocumentInfo.codec.DistinctBelow d := .record (.computed rfl)

instance : Schedule.codec.DistinctBelow d := .record (.computed rfl)

instance : Workflow.codec.DistinctBelow d := .openRecord (.computed rfl)

/-- **What is read from a tree with distinct keys is written as one.** -/
theorem Workflow.distinctKeys_write {n : Node} {w : Workflow} (hn : n.distinctKeys = true)
    (hr : codec.read n = .ok w) : (codec.write w).distinctKeys = true :=
  DistinctBelow.distinct_of_read (Node.Below.of_distinct hn) hr

end WorkflowDsl
