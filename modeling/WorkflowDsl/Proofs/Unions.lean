import WorkflowDsl.Legacy.State
import WorkflowDsl.Proofs.Codec.Union
import WorkflowDsl.Proofs.Model.Reordering
import WorkflowDsl.Proofs.Model.TaskKind

/-!
# Unions that are named by one key

Policies of authentication, processes, strategies of consuming events, and cases of a legacy switch
are each of the kind of which they have the key (`namedByKey`). They differ in what else they read:
a policy nothing, a process how it is run, a strategy what ends it, and a case all its fields.
-/

namespace WorkflowDsl

/-! ## Policies of authentication -/

theorem AuthenticationScheme.text_of_ofText? {s : String} {t : AuthenticationScheme}
    (h : ofText? s = some t) : t.text = s := by
  unfold ofText? at h
  have ht := List.find?_some h
  exact beq_iff_eq.1 ht

namespace Authentication

/-- The key of the kind of a policy. -/
def key (a : Authentication) : String := (a.scheme?.map AuthenticationScheme.text).getD "use"

def union : KeyedUnion Authentication where
  definition := "AuthenticationPolicyDefinition"
  family := "authentication policy"
  kindKeys := kindKeys
  read := ofNode
  write := toNode
  key := key
  options _ := []

theorem key_of_ofBody {key : String} {n : Node} {a : Authentication} (hk : key ∈ kindKeys)
    (h : ofBody key n = .ok a) : a.key = key := by
  have hs {α : Type} {r : Except DefinitionError α} {make : α → Authentication}
      {t : AuthenticationScheme} (ht : AuthenticationScheme.ofText? key = some t)
      (hm : ∀ x, (make x).scheme? = some t) (h : r.map make = .ok a) : a.key = key := by
    obtain ⟨x, -, rfl⟩ := except_map_eq_ok.1 h
    rw [Authentication.key, hm x]
    exact AuthenticationScheme.text_of_ofText? ht
  unfold ofBody at h
  split at h
  · next ht =>
    have hkey : key ∉ AuthenticationScheme.all.map (·.text) := by
      intro hm
      obtain ⟨t, ha, rfl⟩ := List.mem_map.1 hm
      unfold AuthenticationScheme.ofText? at ht
      have hne := List.find?_eq_none.1 ht t ha
      exact hne (beq_self_eq_true t.text)
    have huse := (List.mem_append.1 hk).resolve_left hkey
    rw [List.mem_singleton.1 huse]
    split at h
    · obtain rfl := Except.ok.inj h
      rfl
    · cases h
  · next ht => exact hs ht (fun _ => rfl) h
  · next ht => exact hs ht (fun _ => rfl) h
  · next ht => exact hs ht (fun _ => rfl) h
  · next ht => exact hs ht (fun _ => rfl) h
  · next ht => exact hs ht (fun _ => rfl) h

theorem readsBy : union.ReadsBy fun es key => ofBody key ((es.get? key).getD .null) where
  read_eq _ := rfl
  key_of_body := key_of_ofBody
  body_congr _ h he := by
    rw [← he _ List.mem_cons_self]
    exact h

theorem union_namedByKey : union.NamedByKey := by
  refine .of_body readsBy fun a => ?_
  cases a <;> exact ⟨_, rfl, rfl⟩

end Authentication

/-! ## Processes -/

theorem Process.key_of_ofNode {key : String} {n : Node} {p : Process} (hk : key ∈ kindKeys)
    (h : ofNode key n = .ok p) : p.key = key := by
  simp only [kindKeys, List.mem_cons, List.not_mem_nil, or_false] at hk
  rcases hk with rfl | rfl | rfl | rfl <;> obtain ⟨x, -, rfl⟩ := except_map_eq_ok.1 h <;> rfl

namespace Run

def union : KeyedUnion Run where
  definition := "ProcessTypeDefinition"
  family := "process"
  kindKeys := Process.kindKeys
  read := ofNode
  write := toNode
  key r := r.process.key
  options _ := ["await", "return"]

/-- Reads the process that stands under the key, and how it is run. -/
def ofBody (es : Object) (key : String) : Except DefinitionError Run := do
  let process ← Process.ofNode key ((es.get? key).getD .null)
  let options ← RunOptions.codec.decode (.mapping (es.splitKeys [key]).2)
  .ok { process, options }

theorem ofBody_eq_ok {es : Object} {key : String} {r : Run} :
    ofBody es key = .ok r ↔ Process.ofNode key ((es.get? key).getD .null) = .ok r.process ∧
      RunOptions.codec.read (.mapping (es.splitKeys [key]).2) = .ok r.options := by
  constructor
  · intro h
    obtain ⟨process, hp, h⟩ := except_bind_eq_ok.1 h
    obtain ⟨options, ho, h⟩ := except_bind_eq_ok.1 h
    obtain rfl := Except.ok.inj h
    exact ⟨hp, Codec.decode_eq_ok.1 ho⟩
  · rintro ⟨hp, ho⟩
    exact except_bind_eq_ok.2 ⟨_, hp, except_bind_eq_ok.2 ⟨_, Codec.decode_eq_ok.2 ho, rfl⟩⟩

/-- The options are read beside the key of the process, from what stands under their own. -/
theorem read_options_congr {es fs : Object} {key : String} {o : RunOptions}
    (hk : key ∉ ["await", "return"]) (he : ∀ k ∈ ["await", "return"], es.get? k = fs.get? k)
    (h : RunOptions.codec.read (.mapping (es.splitKeys [key]).2) = .ok o) :
    RunOptions.codec.read (.mapping (fs.splitKeys [key]).2) = .ok o := by
  refine (Codec.record_read_congr (.computed rfl) fun k hm => ?_).1 h
  have hne : k ∉ [key] := by
    rintro hm'
    exact hk (List.mem_singleton.1 hm' ▸ hm)
  rw [Entries.get?_splitKeys_snd _ hne, Entries.get?_splitKeys_snd _ hne]
  exact he k hm

theorem readsBy : union.ReadsBy ofBody where
  read_eq _ := rfl
  key_of_body hk h := Process.key_of_ofNode hk (ofBody_eq_ok.1 h).1
  body_congr hk h he := by
    obtain ⟨hp, ho⟩ := ofBody_eq_ok.1 h
    rw [List.forall_mem_cons] at he
    have hd : ∀ k ∈ Process.kindKeys, k ∉ ["await", "return"] := by decide
    refine ofBody_eq_ok.2 ⟨?_, read_options_congr (hd _ hk) he.2 ho⟩
    rw [← he.1]
    exact hp

theorem union_namedByKey : union.NamedByKey := by
  refine .of_body readsBy fun r => ?_
  obtain ⟨process, awaits, returns⟩ := r
  cases process <;> cases awaits <;> cases returns <;> exact ⟨_, rfl, rfl⟩

end Run

/-! ## Strategies of consuming events -/

theorem EventSelection.key_of_ofNode {key : String} {n : Node} {s : EventSelection}
    (hk : key ∈ EventStrategy.kindKeys) (h : ofNode key n = .ok s) : s.key = key := by
  simp only [EventStrategy.kindKeys, List.mem_cons, List.not_mem_nil, or_false] at hk
  rcases hk with rfl | rfl | rfl <;> obtain ⟨x, -, rfl⟩ := except_map_eq_ok.1 h <;> rfl

namespace EventStrategy

def union : KeyedUnion EventStrategy where
  definition := "EventConsumptionStrategyDefinition"
  family := "event consumption strategy"
  kindKeys := kindKeys
  read := ofNode
  write := toNode
  key s := s.selection.key
  options _ := ["until"]

theorem ofNodeWithin_of_ne_mapping {k : Nat} {n : Node} (h : ∀ es, n ≠ .mapping es) :
    ofNodeWithin k n =
      .error (.shapeMismatch "EventConsumptionStrategyDefinition" "mapping" n.kind.text) := by
  cases k with
  | zero => rfl
  | succ k =>
    cases n with
    | mapping es => exact absurd rfl (h es)
    | _ => rfl

/-- Reads the selection that stands under the key, and what ends it. -/
def ofBody (k : Nat) (es : Object) (key : String) : Except DefinitionError EventStrategy := do
  let selection ← EventSelection.ofNode key ((es.get? key).getD .null)
  match es.get? "until" with
  | none => .ok (endless selection)
  | some u =>
    let nested := (codecBy (ofNodeWithin k)).named "Box<EventConsumptionStrategyDefinition>"
    (OneOf.ofNode nested .string u).map fun u => make selection (some u)

theorem ofNodeWithin_succ (k : Nat) (es : Object) :
    ofNodeWithin (k + 1) (.mapping es) =
      es.singleKind "event consumption strategy" kindKeys >>= ofBody k es :=
  rfl

/-- The depth counts for what ends a strategy only. -/
theorem ofBody_congr {k k' : Nat} {es : Object} (key : String)
    (h : ∀ u, es.get? "until" = some u → ofNodeWithin k u = ofNodeWithin k' u) :
    ofBody k es key = ofBody k' es key := by
  unfold ofBody
  refine congrArg (EventSelection.ofNode _ _ >>= ·) (funext fun selection => ?_)
  cases hu : es.get? "until" with
  | none => rfl
  | some u =>
    have hr : ((codecBy (ofNodeWithin k)).named "Box<EventConsumptionStrategyDefinition>").read u =
        ((codecBy (ofNodeWithin k')).named "Box<EventConsumptionStrategyDefinition>").read u :=
      congrArg (Except.mapError _) (h u hu)
    dsimp only
    unfold OneOf.ofNode
    rw [hr]
    rfl

/-- Any depth will do that is above that of the node. -/
theorem ofNodeWithin_eq {k k' : Nat} {n : Node} (h : n.depth < k) (h' : n.depth < k') :
    ofNodeWithin k n = ofNodeWithin k' n := by
  refine Node.congr_of_depth_lt (fun {k k' n} hr => ?_) h h'
  by_cases hm : ∃ es, n = .mapping es
  · obtain ⟨es, rfl⟩ := hm
    rw [ofNodeWithin_succ, ofNodeWithin_succ]
    refine congrArg (Entries.singleKind es _ _ >>= ·) (funext fun key => ?_)
    refine ofBody_congr key fun u hu => hr u ?_
    exact Node.depth_lt_of_mem_mapping (Entries.mem_of_get? hu)
  · have hn : ∀ es, n ≠ .mapping es := fun es h => hm ⟨es, h⟩
    rw [ofNodeWithin_of_ne_mapping hn, ofNodeWithin_of_ne_mapping hn]

theorem key_of_ofBody {k : Nat} {es : Object} {key : String} {s : EventStrategy}
    (hk : key ∈ kindKeys) (h : ofBody k es key = .ok s) : s.selection.key = key := by
  obtain ⟨selection, hs, h⟩ := except_bind_eq_ok.1 h
  have hkey := EventSelection.key_of_ofNode hk hs
  split at h
  · obtain rfl := Except.ok.inj h
    exact hkey
  · obtain ⟨u, -, rfl⟩ := except_map_eq_ok.1 h
    cases u <;> exact hkey

theorem readsBy : union.ReadsBy fun es => ofBody (Node.mapping es).depth es where
  read_eq n := by
    cases n <;> rfl
  key_of_body := key_of_ofBody
  body_congr {es fs key s} _ h he := by
    have hkey := he key List.mem_cons_self
    have huntil := he "until" (List.mem_cons_of_mem _ List.mem_cons_self)
    have hsame : ofBody (Node.mapping es).depth fs key = ofBody (Node.mapping es).depth es key := by
      unfold ofBody
      rw [hkey, huntil]
    have hdepth : ofBody (Node.mapping fs).depth fs key = ofBody (Node.mapping es).depth fs key :=
      ofBody_congr key fun u hu => ofNodeWithin_eq
        (Node.depth_lt_of_mem_mapping (Entries.mem_of_get? hu))
        (Node.depth_lt_of_mem_mapping (Entries.mem_of_get? (huntil.trans hu)))
    rw [hdepth, hsame]
    exact h

theorem union_namedByKey : union.NamedByKey := by
  refine .of_body readsBy fun s => ?_
  obtain ⟨selection⟩ | ⟨selection, _⟩ | ⟨selection, _⟩ := s <;>
    cases selection <;> exact ⟨_, rfl, rfl⟩

end EventStrategy

/-! ## Cases of a legacy switch -/

namespace Legacy.SwitchCase

/-- The key of the kind of a case. -/
def key : SwitchCase → String
  | data _ => "condition"
  | event _ => "eventRef"

def union : KeyedUnion SwitchCase where
  definition := "SwitchCaseDefinition"
  family := "switch case"
  kindKeys := kindKeys
  read := ofNode
  write := toNode
  key := key
  options
    | data _ => ["name", "transition", "end", "metadata"]
    | event _ => ["name", "transition", "end", "eventDataFilter", "metadata"]

/-- Reads a case that has the key. -/
def ofBody (es : Object) (key : String) : Except DefinitionError SwitchCase :=
  if key == "condition" then (DataCase.codec.decode (.mapping es)).map data
  else (EventCase.codec.decode (.mapping es)).map event

theorem readsBy : union.ReadsBy ofBody where
  read_eq n := by
    cases n <;> rfl
  key_of_body {es key c} hk h := by
    have hk : key ∈ ["condition", "eventRef"] := hk
    simp only [List.mem_cons, List.not_mem_nil, or_false] at hk
    rcases hk with rfl | rfl <;> obtain ⟨x, -, rfl⟩ := except_map_eq_ok.1 h <;> rfl
  body_congr {es fs key c} hk h he := by
    have hk : key ∈ ["condition", "eventRef"] := hk
    simp only [List.mem_cons, List.not_mem_nil, or_false] at hk
    rcases hk with rfl | rfl
    · obtain ⟨x, hx, rfl⟩ := except_map_eq_ok.1 h
      refine except_map_eq_ok.2 ⟨x, Codec.decode_eq_ok.2 ?_, rfl⟩
      have hkeys : ∀ k ∈ ["name", "condition", "transition", "end", "metadata"],
          k ∈ "condition" :: ["name", "transition", "end", "metadata"] := by decide
      refine (Codec.record_read_congr (.computed rfl) fun k hm => ?_).1
        (Codec.decode_eq_ok.1 hx)
      exact he k (hkeys k hm)
    · obtain ⟨x, hx, rfl⟩ := except_map_eq_ok.1 h
      refine except_map_eq_ok.2 ⟨x, Codec.decode_eq_ok.2 ?_, rfl⟩
      have hkeys : ∀ k ∈ ["name", "eventRef", "transition", "end", "eventDataFilter", "metadata"],
          k ∈ "eventRef" :: ["name", "transition", "end", "eventDataFilter", "metadata"] := by
        decide
      refine (Codec.record_read_congr (.computed rfl) fun k hm => ?_).1
        (Codec.decode_eq_ok.1 hx)
      exact he k (hkeys k hm)

theorem present_of_condition {es : Object} (hc : "condition" ∈ Entries.keys es)
    (he : "eventRef" ∉ Entries.keys es) : union.present es = ["condition"] := by
  change List.filter _ ["condition", "eventRef"] = _
  rw [List.filter_cons_of_pos (by simpa using hc), List.filter_cons_of_neg (by simpa using he),
    List.filter_nil]

theorem present_of_event {es : Object} (hc : "condition" ∉ Entries.keys es)
    (he : "eventRef" ∈ Entries.keys es) : union.present es = ["eventRef"] := by
  change List.filter _ ["condition", "eventRef"] = _
  rw [List.filter_cons_of_neg (by simpa using hc), List.filter_cons_of_pos (by simpa using he),
    List.filter_nil]

/-- A case is written under the key of its kind, whatever its other fields are. -/
theorem present_write (c : SwitchCase) :
    ∃ es, c.toNode = .mapping es ∧ union.present es = [c.key] := by
  cases c with
  | data c =>
    refine ⟨_, rfl, present_of_condition ?_ fun hm => ?_⟩
    · obtain ⟨_ | name, _⟩ := c
      · exact List.mem_cons_self
      · exact List.mem_cons_of_mem _ List.mem_cons_self
    · have hk : "eventRef" ∈ ["name", "condition", "transition", "end", "metadata"] :=
        (Fields.keys_writeEntries_sublist c _).subset hm
      exact absurd hk (by decide)
  | event c =>
    refine ⟨_, rfl, present_of_event (fun hm => ?_) ?_⟩
    · have hk : "condition" ∈
          ["name", "eventRef", "transition", "end", "eventDataFilter", "metadata"] :=
        (Fields.keys_writeEntries_sublist c _).subset hm
      exact absurd hk (by decide)
    · obtain ⟨_ | name, _⟩ := c
      · exact List.mem_cons_self
      · exact List.mem_cons_of_mem _ List.mem_cons_self

theorem union_namedByKey : union.NamedByKey := .of_body readsBy present_write

end Legacy.SwitchCase

/-! ## All unions -/

/-- **Policies of authentication, processes, strategies of consuming events, and cases of a legacy
switch are of the kind of which they have the key.** -/
theorem namedByKey :
    Authentication.union.NamedByKey ∧ Run.union.NamedByKey ∧ EventStrategy.union.NamedByKey ∧
      Legacy.SwitchCase.union.NamedByKey :=
  ⟨Authentication.union_namedByKey, Run.union_namedByKey, EventStrategy.union_namedByKey,
    Legacy.SwitchCase.union_namedByKey⟩

end WorkflowDsl
