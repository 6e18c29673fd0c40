import WorkflowDsl.Proofs.Codec.Part
import WorkflowDsl.Proofs.Slots

/-!
# Null for absence

A definition with an optional field may stand at many places of a document. `Converts` says, after
the codecs, which part of a document is converted by which codec, and `Offers` which optional fields
a definition has there, be it read field by field or in parts: a task is read as its common fields
and its kind, and a process beside its options. The optional fields of all definitions are those of
`optionalKeys`.

An entry of null under the key of an optional field that is not there changes nothing of the
workflow that a document is read as. The end of a strategy is the exception: a document with null
under `until` is no workflow (`Workflow.decode_null`).
-/

namespace WorkflowDsl

/-! ## Forms -/

/-- A form that values may have: what they are made of, and how that is read. -/
structure Form (α : Type) : Type 1 where
  Content : Type
  codec : Codec Content
  make : Content → α

namespace Form

variable {α : Type} {form : Form α} {key : String} {n m : Node} {x : α}

theorem decode_between (m : Node) (h : (form.codec.decode n).map form.make = .ok x) :
    ∃ y, form.codec.read n = .ok y ∧
      (form.codec.read m = .ok y → (form.codec.decode m).map form.make = .ok x) := by
  obtain ⟨y, hy, rfl⟩ := except_map_eq_ok.1 h
  exact ⟨y, Codec.decode_eq_ok.1 hy, fun hm =>
    except_map_eq_ok.2 ⟨y, Codec.decode_eq_ok.2 hm, rfl⟩⟩

theorem decodeObject_between (hnm : n.Alike m)
    (h : (form.codec.decodeObject key n).map form.make = .ok x) :
    ∃ y, form.codec.read n = .ok y ∧
      (form.codec.read m = .ok y → (form.codec.decodeObject key m).map form.make = .ok x) := by
  obtain ⟨y, hy, rfl⟩ := except_map_eq_ok.1 h
  obtain ⟨es, rfl, hy⟩ := Codec.decodeObject_eq_ok.1 hy
  cases hnm with
  | mapping _ fs =>
    exact ⟨y, hy, fun hm => except_map_eq_ok.2 ⟨y, Codec.decodeObject_eq_ok.2 ⟨fs, rfl, hm⟩, rfl⟩⟩

end Form

/-- The policies of the schemes, by their keys. -/
def Authentication.forms : List (String × Form Authentication) :=
  [("basic", ⟨_, Credentials.codec, basic⟩), ("bearer", ⟨_, BearerToken.codec, bearer⟩),
    ("digest", ⟨_, Credentials.codec, digest⟩), ("oauth2", ⟨_, OAuth2.codec, oauth2⟩),
    ("oidc", ⟨_, OAuth2.codec, oidc⟩)]

/-- The processes, by their keys. -/
def Process.forms : List (String × Form Process) :=
  [("container", ⟨_, ContainerProcess.codec, container⟩),
    ("script", ⟨_, ScriptProcess.codec, script⟩), ("shell", ⟨_, ShellProcess.codec, shell⟩),
    ("workflow", ⟨_, WorkflowProcess.codec, workflow⟩)]

/-- The selections of events, by their keys. -/
def EventSelection.forms : List (String × Form EventSelection) :=
  [("all", ⟨_, .list EventFilter.codec, all⟩), ("any", ⟨_, .list EventFilter.codec, any⟩),
    ("one", ⟨_, EventFilter.codec, one⟩)]

/-- The kinds of growth of delays, by their keys. -/
def Backoff.forms : List (String × Form Backoff) :=
  [("constant", ⟨_, constantCodec, fun _ => constant⟩),
    ("exponential", ⟨_, factorCodec, exponential⟩), ("linear", ⟨_, incrementCodec, linear⟩)]

/-- The kinds of tasks, by their types. -/
def TaskKind.form {τ : Type} (task : Codec τ) : TaskType → Form (TaskKind τ)
  | .call => ⟨_, Call.codec, call⟩
  | .do_ => ⟨_, doCodec task, do_⟩
  | .emit => ⟨_, emitCodec, emit⟩
  | .for_ => ⟨_, ForTask.codec task, for_⟩
  | .fork => ⟨_, forkCodec task, fork⟩
  | .listen => ⟨_, ListenTask.codec task, listen⟩
  | .raise => ⟨_, raiseCodec, raise⟩
  | .run => ⟨_, runCodec, run⟩
  | .set => ⟨_, setCodec, set⟩
  | .switch => ⟨_, switchCodec, switch⟩
  | .try_ => ⟨_, TryTask.codec task, try_⟩
  | .wait => ⟨_, waitCodec, wait⟩

theorem Authentication.ofBody_eq {key : String} {form : Form Authentication}
    (h : (key, form) ∈ forms) (n : Node) :
    key ∈ kindKeys ∧ ofBody key n = (form.codec.decodeObject key n).map form.make := by
  simp only [forms, List.mem_cons, Prod.mk.injEq, List.not_mem_nil, or_false] at h
  rcases h with ⟨rfl, rfl⟩ | ⟨rfl, rfl⟩ | ⟨rfl, rfl⟩ | ⟨rfl, rfl⟩ | ⟨rfl, rfl⟩ <;>
    exact ⟨by decide, rfl⟩

theorem Process.ofNode_eq {key : String} {form : Form Process} (h : (key, form) ∈ forms)
    (n : Node) : key ∈ kindKeys ∧ ofNode key n = (form.codec.decodeObject key n).map form.make := by
  simp only [forms, List.mem_cons, Prod.mk.injEq, List.not_mem_nil, or_false] at h
  rcases h with ⟨rfl, rfl⟩ | ⟨rfl, rfl⟩ | ⟨rfl, rfl⟩ | ⟨rfl, rfl⟩ <;> exact ⟨by decide, rfl⟩

theorem EventSelection.ofNode_eq {key : String} {form : Form EventSelection}
    (h : (key, form) ∈ forms) (n : Node) :
    key ∈ EventStrategy.kindKeys ∧ ofNode key n = (form.codec.decode n).map form.make := by
  simp only [forms, List.mem_cons, Prod.mk.injEq, List.not_mem_nil, or_false] at h
  rcases h with ⟨rfl, rfl⟩ | ⟨rfl, rfl⟩ | ⟨rfl, rfl⟩ <;> exact ⟨by decide, rfl⟩

theorem Backoff.ofProperties_eq {key : String} {form : Form Backoff} (h : (key, form) ∈ forms)
    (n : Node) : ofProperties key n = (form.codec.read n).map form.make := by
  simp only [forms, List.mem_cons, Prod.mk.injEq, List.not_mem_nil, or_false] at h
  rcases h with ⟨rfl, rfl⟩ | ⟨rfl, rfl⟩ | ⟨rfl, rfl⟩ <;> rfl

theorem TaskKind.ofObject_eq {τ : Type} (task : Codec τ) (type : TaskType) (owned : Object) :
    ofObject task type owned =
      ((form task type).codec.decode (.mapping owned)).map (form task type).make := by
  cases type <;> rfl

/-! ## Which part is converted by which codec -/

/-- Where a document is converted by a codec, the part at a place of it is converted by another
one. -/
inductive Converts : {α β : Type} → Codec α → Node.Context → Codec β → Prop where
  | here {α : Type} (c : Codec α) : Converts c [] c
  | option {α β : Type} {c : Codec α} {d : Codec β} {context : Node.Context}
      (h : Converts c context d) : Converts c.option context d
  | alternative {α β : Type} {c : Codec α} {d : Codec β} {context : Node.Context}
      (h : Converts c context d) : Converts (.oneOf c .string) context d
  | list {α β : Type} {c : Codec α} {d : Codec β} {context : Node.Context}
      {before after : List Node} (h : Converts c context d) :
      Converts (.list c) (.item before after :: context) d
  | map {α β : Type} {c : Codec α} {d : Codec β} {context : Node.Context} {before after : Object}
      {key : String} (h : Converts c context d) :
      Converts (.map c) (.entry before key after :: context) d
  | namedMap {α β : Type} {c : Codec α} {d : Codec β} {context : Node.Context}
      {before after : List Node} {name : String} (h : Converts c context d) :
      Converts (.namedMap c) (.item before after :: .entry [] name [] :: context) d
  | field {ρ α β γ : Type} {name : String} {make : γ} {fields : Fields ρ ρ γ} {f : Field ρ α}
      {d : Codec β} {context : Node.Context} {before after : Object} {key : String}
      (first : key ∉ Entries.keys before) (distinct : fields.keys.Nodup)
      (field : fields.find? key = some ⟨α, f⟩) (h : Converts f.codec context d) :
      Converts (.record name make fields) (.entry before key after :: context) d
  /-- A record may be given as the sequence of its fields. -/
  | fieldItem {ρ α β γ : Type} {name : String} {make : γ} {fields : Fields ρ ρ γ} {f : Field ρ α}
      {d : Codec β} {context : Node.Context} {before after : List Node}
      (field : fields.at? before.length = some ⟨α, f⟩) (h : Converts f.codec context d) :
      Converts (.record name make fields) (.item before after :: context) d
  | openField {ρ α β γ : Type} {name : String} {make : γ}
      {fields : Fields ρ (OrderedMap Node → ρ) γ} {extra : ρ → OrderedMap Node} {f : Field ρ α}
      {d : Codec β} {context : Node.Context} {before after : Object} {key : String}
      (first : key ∉ Entries.keys before) (distinct : fields.keys.Nodup)
      (field : fields.find? key = some ⟨α, f⟩) (h : Converts f.codec context d) :
      Converts (.openRecord name make fields extra) (.entry before key after :: context) d
  | components {β : Type} {d : Codec β} {context : Node.Context}
      (h : Converts Duration.Parts.codec context d) : Converts Duration.codec context d
  | backoff {β : Type} {d : Codec β} {context : Node.Context} {key : String} {form : Form Backoff}
      (form_mem : (key, form) ∈ Backoff.forms) (h : Converts form.codec context d) :
      Converts Backoff.codec (.entry [] key [] :: context) d
  | scheme {β : Type} {d : Codec β} {context : Node.Context} {before after : Object} {key : String}
      {form : Form Authentication} (first : key ∉ Entries.keys before)
      (form_mem : (key, form) ∈ Authentication.forms) (h : Converts form.codec context d) :
      Converts Authentication.codec (.entry before key after :: context) d
  | process {β : Type} {d : Codec β} {context : Node.Context} {before after : Object} {key : String}
      {form : Form Process} (first : key ∉ Entries.keys before)
      (form_mem : (key, form) ∈ Process.forms) (h : Converts form.codec context d) :
      Converts Run.codec (.entry before key after :: context) d
  | selection {β : Type} {d : Codec β} {context : Node.Context} {before after : Object}
      {key : String} {form : Form EventSelection} (first : key ∉ Entries.keys before)
      (form_mem : (key, form) ∈ EventSelection.forms) (h : Converts form.codec context d) :
      Converts EventStrategy.codec (.entry before key after :: context) d
  /-- A strategy may end with another one. -/
  | end_ {β : Type} {d : Codec β} {context : Node.Context} {before after : Object}
      (first : "until" ∉ Entries.keys before) (h : Converts EventStrategy.codec context d) :
      Converts EventStrategy.codec (.entry before "until" after :: context) d
  | commonField {β : Type} {d : Codec β} {context : Node.Context} {before after : Object}
      {key : String} (key_mem : key ∈ TaskFields.keys)
      (h : Converts TaskFields.codec
        (.entry (Entries.splitKeys before TaskFields.keys).1 key
          (Entries.splitKeys after TaskFields.keys).1 :: context) d) :
      Converts Task.codec (.entry before key after :: context) d
  /-- The type is told by the keys, whatever stands in the hole. -/
  | kindField {β : Type} {d : Codec β} {context : Node.Context} {before after : Object}
      {key : String} {type : TaskType}
      (type_eq : Task.discriminate (before ++ (key, .null) :: after) = .ok (some type))
      (key_mem : key ∈ type.ownedKeys)
      (h : Converts (TaskKind.form Task.codec type).codec
        (.entry (Task.split before type).1 key (Task.split after type).1 :: context) d) :
      Converts Task.codec (.entry before key after :: context) d

/-- A mapping that is converted by the codec, and has the given entries, may have an entry with the
key for an optional field. -/
inductive Offers : {α : Type} → Codec α → Object → String → Prop where
  | field {α : Type} {c : Codec α} {es : Object} {key : String} (h : c.HasOption key) :
      Offers c es key
  | option {es : Object} {key : String} (h : RunOptions.codec.HasOption key)
      (other : key ∉ Process.kindKeys) : Offers Run.codec es key
  | commonField {es : Object} {key : String} (h : TaskFields.codec.HasOption key)
      (key_mem : key ∈ TaskFields.keys) : Offers Task.codec es key
  | kindField {es : Object} {key : String} {type : TaskType}
      (type_eq : Task.discriminate es = .ok (some type))
      (h : (TaskKind.form Task.codec type).codec.HasOption key) (key_mem : key ∈ type.ownedKeys) :
      Offers Task.codec es key

/-- The keys of the optional fields of all definitions that may stand in a document. -/
def optionalKeys : List ((α : Type) × Codec α × List String) :=
  [⟨_, Workflow.codec, ["input", "use", "timeout", "output", "schedule"]⟩,
    ⟨_, DocumentInfo.codec, ["title", "summary"]⟩,
    ⟨_, WorkflowDsl.Schedule.codec, ["every", "cron", "after", "on"]⟩,
    ⟨_, Extension.codec, ["when"]⟩,
    ⟨_, TaskFields.codec, ["if", "input", "output", "export", "timeout", "then"]⟩,
    ⟨_, Call.codec, ["await"]⟩,
    ⟨_, ForTask.codec Task.codec, ["while"]⟩,
    ⟨_, Loop.codec, ["at"]⟩,
    ⟨_, ListenTask.codec Task.codec, ["foreach"]⟩,
    ⟨_, Subscription.codec Task.codec, ["item", "at", "output", "export"]⟩,
    ⟨_, SwitchCase.codec, ["when"]⟩,
    ⟨_, Catcher.codec Task.codec, ["errors", "as", "when", "exceptWhen", "retry"]⟩,
    ⟨_, InputModel.codec, ["schema", "from"]⟩,
    ⟨_, OutputModel.codec, ["schema", "as"]⟩,
    ⟨_, ExportModel.codec, ["schema", "as"]⟩,
    ⟨_, Schema.codec, ["document", "resource"]⟩,
    ⟨_, ExternalResource.codec, ["name"]⟩,
    ⟨_, EndpointProperties.codec, ["authentication"]⟩,
    ⟨_, Credentials.codec, ["username", "password", "use"]⟩,
    ⟨_, BearerToken.codec, ["token", "use"]⟩,
    ⟨_, OAuth2.codec, ["authority", "grant", "client", "request", "username", "password", "subject",
      "actor", "use"]⟩,
    ⟨_, OAuth2.Client.codec, ["id", "secret", "assertion", "authentication"]⟩,
    ⟨_, Problem.codec, ["title", "detail", "instance"]⟩,
    ⟨_, ProblemFilter.codec, ["with"]⟩,
    ⟨_, ProblemProperties.codec, ["type", "status", "instance", "title", "detail"]⟩,
    ⟨_, RetryPolicy.codec, ["when", "exceptWhen", "delay", "backoff", "limit", "jitter"]⟩,
    ⟨_, RetryLimit.codec, ["attempt", "duration"]⟩,
    ⟨_, AttemptLimit.codec, ["count", "duration"]⟩,
    ⟨_, Backoff.factorCodec, ["factor"]⟩,
    ⟨_, Backoff.incrementCodec, ["increment"]⟩,
    ⟨_, Duration.Parts.codec, ["days", "hours", "minutes", "seconds", "milliseconds"]⟩,
    ⟨_, RunOptions.codec, ["await", "return"]⟩,
    ⟨_, ContainerProcess.codec, ["name", "command", "lifetime"]⟩,
    ⟨_, ContainerLifetime.codec, ["after"]⟩,
    ⟨_, ScriptProcess.codec, ["code", "source"]⟩,
    ⟨_, WorkflowProcess.codec, ["input"]⟩,
    ⟨_, Listener.codec, ["read"]⟩,
    ⟨_, EventFilter.codec, ["with"]⟩,
    ⟨_, Correlation.codec, ["expect"]⟩]

theorem hasOption_of_mem_optionalKeys :
    ∀ p ∈ optionalKeys, ∀ key ∈ p.2.2, p.2.1.HasOption key := by
  simp only [optionalKeys, List.forall_mem_cons]
  repeat' apply And.intro
  all_goals first
    | exact .record (by decide) rfl
    | exact .openRecord (by decide) rfl
    | exact nofun

/-! ## Kinds that are told by a key -/

/-- What stands under a key does not tell of which kind a mapping is, unless the key does. -/
theorem Entries.singleKind_between {before after : Object} {family key k : String}
    {candidates : List String} {n : Node}
    (h : Entries.singleKind (before ++ (key, n) :: after) family candidates = .ok k) (m : Node) :
    Entries.singleKind (before ++ (key, m) :: after) family candidates = .ok k ∧
      (key ∈ candidates → k = key) := by
  have hkeys (k : String) : Entries.hasKey (before ++ (key, n) :: after) k =
      Entries.hasKey (before ++ (key, m) :: after) k := by
    rw [Bool.eq_iff_iff, hasKey_iff, hasKey_iff, keys_between before after key n m]
  rw [singleKind_eq_ok, presentKeys] at h ⊢
  refine ⟨?_, fun hc => ?_⟩
  · rw [← h]
    exact List.filter_congr fun k _ => (hkeys k).symm
  · have hm : key ∈ [k] := by
      rw [← h, List.mem_filter, hasKey_iff, keys_append, keys_cons]
      exact ⟨hc, List.mem_append_right _ List.mem_cons_self⟩
    exact (List.mem_singleton.1 hm).symm

theorem Authentication.read_mapping_eq_ok {es : Object} {a : Authentication} :
    codec.read (.mapping es) = .ok a ↔
      ∃ key, es.singleKind "authentication policy" kindKeys = .ok key ∧
        ofBody key ((es.get? key).getD .null) = .ok a := by
  rw [← except_bind_eq_ok, ← ofNode_mapping]
  exact Codec.ofDefinition_read_eq_ok

/-! ## Parts of definitions -/

theorem Duration.components_readsPart : codec.ReadsPart id Parts.codec := by
  intro n m x hnm hx
  cases hnm with
  | mapping =>
    obtain ⟨p, hp, rfl⟩ := read_mapping_eq_ok.1 hx
    exact ⟨p, hp, fun hm => read_mapping_eq_ok.2 ⟨p, hm, rfl⟩⟩
  | sequence => cases hx

theorem Backoff.form_readsPart {key : String} {form : Form Backoff} (h : (key, form) ∈ forms) :
    codec.ReadsPart (Node.Frame.entry [] key []).plug form.codec := by
  intro n m x _ hx
  have hr (n : Node) : codec.read ((Node.Frame.entry [] key []).plug n) =
      (form.codec.read n).map form.make := ofProperties_eq h n
  rw [hr] at hx ⊢
  obtain ⟨y, hy, rfl⟩ := except_map_eq_ok.1 hx
  exact ⟨y, hy, fun hm => except_map_eq_ok.2 ⟨y, hm, rfl⟩⟩

section

variable {before after : Object} {key : String}

theorem Authentication.scheme_readsPart {form : Form Authentication}
    (hk : key ∉ Entries.keys before) (h : (key, form) ∈ forms) :
    codec.ReadsPart (Node.Frame.entry before key after).plug form.codec := by
  intro n m x hnm hx
  obtain ⟨k, hs, hb⟩ := read_mapping_eq_ok.1 hx
  obtain ⟨hs, hkey⟩ := Entries.singleKind_between hs m
  obtain rfl := hkey (ofBody_eq h n).1
  rw [Entries.get?_between hk, Option.getD_some, (ofBody_eq h n).2] at hb
  obtain ⟨y, hy, hb⟩ := Form.decodeObject_between hnm hb
  refine ⟨y, hy, fun hm => read_mapping_eq_ok.2 ⟨k, hs, ?_⟩⟩
  rw [Entries.get?_between hk, Option.getD_some, (ofBody_eq h m).2]
  exact hb hm

theorem Run.process_readsPart {form : Form Process} (hk : key ∉ Entries.keys before)
    (h : (key, form) ∈ Process.forms) :
    codec.ReadsPart (Node.Frame.entry before key after).plug form.codec := by
  intro n m x hnm hx
  obtain ⟨k, hs, hp, ho⟩ := read_mapping_eq_ok.1 hx
  obtain ⟨hs, hkey⟩ := Entries.singleKind_between hs m
  obtain rfl := hkey (Process.ofNode_eq h n).1
  rw [Entries.get?_between hk, Option.getD_some, (Process.ofNode_eq h n).2] at hp
  obtain ⟨y, hy, hp⟩ := Form.decodeObject_between hnm hp
  have hmem : k ∈ [k] := List.mem_singleton_self k
  rw [Entries.splitKeys_between_of_mem _ _ hmem] at ho
  refine ⟨y, hy, fun hm => read_mapping_eq_ok.2 ⟨k, hs, ?_, ?_⟩⟩
  · rw [Entries.get?_between hk, Option.getD_some, (Process.ofNode_eq h m).2]
    exact hp hm
  · rw [Entries.splitKeys_between_of_mem _ _ hmem]
    exact ho

namespace EventStrategy

theorem selection_readsPart {form : Form EventSelection} (hk : key ∉ Entries.keys before)
    (h : (key, form) ∈ EventSelection.forms) :
    codec.ReadsPart (Node.Frame.entry before key after).plug form.codec := by
  intro n m x _ hx
  obtain ⟨k, hs, hb⟩ := read_mapping_eq_ok.1 hx
  obtain ⟨selection, hsel, hend⟩ := ofBody_eq_ok.1 hb
  obtain ⟨hs, hkey⟩ := Entries.singleKind_between hs m
  obtain ⟨hkind, hread⟩ := EventSelection.ofNode_eq h n
  obtain rfl := hkey hkind
  rw [Entries.get?_between hk, Option.getD_some, hread] at hsel
  obtain ⟨y, hy, hsel⟩ := Form.decode_between m hsel
  -- What ends the strategy stands under a key of no kind.
  have hne : k ≠ "until" := by
    rintro rfl
    exact absurd hkind (by decide)
  rw [KeyedUnion.get?_between_of_ne n hne, ← KeyedUnion.get?_between_of_ne m hne] at hend
  refine ⟨y, hy, fun hm => read_mapping_eq_ok.2 ⟨k, hs, ofBody_eq_ok.2 ⟨selection, ?_, hend⟩⟩⟩
  rw [Entries.get?_between hk, Option.getD_some, (EventSelection.ofNode_eq h m).2]
  exact hsel hm

/-- What stands under `until` is no kind of strategy, whatever it is. -/
theorem singleKind_ne_until {es : Object} {k : String}
    (h : es.singleKind "event consumption strategy" kindKeys = .ok k) : "until" ≠ k := by
  rintro rfl
  have hm : "until" ∈ kindKeys := KeyedUnion.mem_kindKeys_of_presentKeys (u := union)
    (Entries.singleKind_eq_ok.1 h)
  exact absurd hm (by decide)

theorem end_readsPart (hk : "until" ∉ Entries.keys before) :
    codec.ReadsPart (Node.Frame.entry before "until" after).plug codec := by
  intro n m x hnm hx
  obtain ⟨k, hs, hb⟩ := read_mapping_eq_ok.1 hx
  obtain ⟨selection, hsel, hend⟩ := ofBody_eq_ok.1 hb
  have hne := singleKind_ne_until hs
  rw [KeyedUnion.get?_between_of_ne n hne, ← KeyedUnion.get?_between_of_ne m hne] at hsel
  obtain ⟨v, u, hv, hu, rfl⟩ := hend.resolve_left fun ⟨h, _⟩ => by
    rw [Entries.get?_between hk] at h
    cases h
  obtain rfl : n = v := Option.some.inj ((Entries.get?_between hk n).symm.trans hv)
  obtain ⟨y, hy, hu⟩ := Codec.oneOf_string_readsPart nestedCodec _ m _ hnm hu
  refine ⟨y, hy, fun hm => read_mapping_eq_ok.2 ⟨k, (Entries.singleKind_between hs m).1, ?_⟩⟩
  exact ofBody_eq_ok.2 ⟨selection, hsel, .inr ⟨m, u, Entries.get?_between hk m, hu hm, rfl⟩⟩

/-- A strategy does not end with null. -/
theorem read_until_null (hk : "until" ∉ Entries.keys before) (s : EventStrategy) :
    codec.read (.mapping (before ++ ("until", .null) :: after)) ≠ .ok s := by
  intro h
  obtain ⟨u, -, hu⟩ := until?_of_read h (Entries.get?_between hk .null)
  cases u with
  | first x => cases Codec.oneOf_read_first.1 hu
  | second t => cases (Codec.oneOf_read_second.1 hu).2

end EventStrategy

namespace Task

/-- Where only entries of common fields differ, a task is read alike as soon as these fields
are. -/
theorem read_of_common_eq {es fs : Object} {t : Task}
    (hs : (Entries.splitKeys es TaskFields.keys).2 = (Entries.splitKeys fs TaskFields.keys).2)
    (h : codec.read (.mapping es) = .ok t) :
    TaskFields.codec.read (.mapping (Entries.splitKeys es TaskFields.keys).1) = .ok t.fields ∧
      (TaskFields.codec.read (.mapping (Entries.splitKeys fs TaskFields.keys).1) = .ok t.fields →
        codec.read (.mapping fs) = .ok t) := by
  -- The keys of the types are none of common fields, so they stand among the others.
  have hd : discriminate es = discriminate fs := by
    refine discriminate_of_hasKey_typeKey fun u => ?_
    have hu : (Entries.get? (Entries.splitKeys es TaskFields.keys).2 u.key).isSome =
        (Entries.get? (Entries.splitKeys fs TaskFields.keys).2 u.key).isSome := by rw [hs]
    rwa [Entries.get?_splitKeys_snd _ (typeKey_not_mem u),
      Entries.get?_splitKeys_snd _ (typeKey_not_mem u)] at hu
  rw [read_mapping_eq_ok] at h ⊢
  rcases discriminate_of_ofNodeBy h with ⟨type, ht⟩ | ht
  · obtain ⟨hf, hk, he⟩ := (ofNodeBy_typed ht).1 h
    refine ⟨hf, fun hf => (ofNodeBy_typed (hd ▸ ht)).2 ⟨hf, ?_, ?_⟩⟩
    · rw [split, ← hs]
      exact hk
    · rw [split, ← hs]
      exact he
  · obtain ⟨hf, hk, he⟩ := (ofNodeBy_untyped ht).1 h
    exact ⟨hf, fun hf => (ofNodeBy_untyped (hd ▸ ht)).2 ⟨hf, hs ▸ hk, he⟩⟩

/-- Where only entries of the kind differ, a task is read alike as soon as the kind is. -/
theorem read_of_kind_eq {es fs : Object} {type : TaskType} {t : Task}
    (hes : discriminate es = .ok (some type)) (hfs : discriminate fs = .ok (some type))
    (hc : (Entries.splitKeys es TaskFields.keys).1 = (Entries.splitKeys fs TaskFields.keys).1)
    (he : (split es type).2 = (split fs type).2) (h : codec.read (.mapping es) = .ok t) :
    ∃ y, (TaskKind.form codec type).codec.read (.mapping (split es type).1) = .ok y ∧
      ((TaskKind.form codec type).codec.read (.mapping (split fs type).1) = .ok y →
        codec.read (.mapping fs) = .ok t) := by
  rw [read_mapping_eq_ok] at h ⊢
  obtain ⟨hf, hk, hx⟩ := (ofNodeBy_typed hes).1 h
  have hk : TaskKind.ofObject codec type (split es type).1 = .ok t.kind := hk
  rw [TaskKind.ofObject_eq] at hk
  obtain ⟨y, hy, hk⟩ := Form.decode_between (.mapping (split fs type).1) hk
  refine ⟨y, hy, fun hm => (ofNodeBy_typed hfs).2 ⟨hc ▸ hf, ?_, he ▸ hx⟩⟩
  show TaskKind.ofObject codec type (split fs type).1 = .ok t.kind
  rw [TaskKind.ofObject_eq]
  exact hk hm

theorem split_append (es fs : Object) (type : TaskType) :
    split (es ++ fs) type =
      ((split es type).1 ++ (split fs type).1, (split es type).2 ++ (split fs type).2) := by
  rw [split, Entries.splitKeys_append_eq, Entries.splitKeys_append_eq, split, split]

/-- An entry of a kind is split off with it. -/
theorem split_between {type : TaskType} (h : key ∈ type.ownedKeys) (n : Node) :
    split (before ++ (key, n) :: after) type =
      ((split before type).1 ++ (key, n) :: (split after type).1,
        (split (before ++ after) type).2) := by
  rw [split, Entries.splitKeys_between_of_not_mem _ _ (ownedKeys_apart h).1,
    Entries.splitKeys_between_of_mem _ _ h, split, split, split, Entries.splitKeys_append_eq before]

theorem commonField_readsPart {β : Type} {d : Codec β} {context : Node.Context}
    (hk : key ∈ TaskFields.keys)
    (h : TaskFields.codec.ReadsPart
      (Node.Context.plug (.entry (Entries.splitKeys before TaskFields.keys).1 key
        (Entries.splitKeys after TaskFields.keys).1 :: context)) d) :
    codec.ReadsPart (Node.Context.plug (.entry before key after :: context)) d := by
  intro n m t hnm ht
  have ht : codec.read (.mapping (before ++ (key, context.plug n) :: after)) = .ok t := ht
  have hs (n m : Node) :
      (Entries.splitKeys (before ++ (key, n) :: after) TaskFields.keys).2 =
        (Entries.splitKeys (before ++ (key, m) :: after) TaskFields.keys).2 := by
    rw [Entries.splitKeys_between_of_mem _ _ hk, Entries.splitKeys_between_of_mem _ _ hk]
  obtain ⟨hf, hread⟩ := read_of_common_eq (hs (context.plug n) (context.plug m)) ht
  rw [Entries.splitKeys_between_of_mem _ _ hk] at hf hread
  obtain ⟨y, hy, hm⟩ := h _ m _ hnm hf
  exact ⟨y, hy, fun h => hread (hm h)⟩

theorem kindField_readsPart {β : Type} {d : Codec β} {context : Node.Context} {type : TaskType}
    (ht : discriminate (before ++ (key, .null) :: after) = .ok (some type))
    (hk : key ∈ type.ownedKeys)
    (h : (TaskKind.form codec type).codec.ReadsPart
      (Node.Context.plug (.entry (split before type).1 key (split after type).1 :: context)) d) :
    codec.ReadsPart (Node.Context.plug (.entry before key after :: context)) d := by
  intro n m t hnm hx
  have hx : codec.read (.mapping (before ++ (key, context.plug n) :: after)) = .ok t := hx
  have htype (n : Node) : discriminate (before ++ (key, n) :: after) = .ok (some type) :=
    (discriminate_congr (Entries.keys_between before after key n .null)).trans ht
  have hc (n m : Node) :
      (Entries.splitKeys (before ++ (key, n) :: after) TaskFields.keys).1 =
        (Entries.splitKeys (before ++ (key, m) :: after) TaskFields.keys).1 := by
    rw [Entries.splitKeys_between_of_not_mem _ _ (ownedKeys_apart hk).1,
      Entries.splitKeys_between_of_not_mem _ _ (ownedKeys_apart hk).1]
  have he (n m : Node) :
      (split (before ++ (key, n) :: after) type).2 =
        (split (before ++ (key, m) :: after) type).2 := by
    rw [split_between hk, split_between hk]
  obtain ⟨y, hy, hread⟩ := read_of_kind_eq (htype (context.plug n)) (htype (context.plug m))
    (hc _ _) (he _ _) hx
  rw [split_between hk] at hy hread
  obtain ⟨z, hz, hm⟩ := h _ m _ hnm hy
  exact ⟨z, hz, fun h => hread (hm h)⟩

end Task

end

/-- **What is converted by a codec at a place is read there by it, and counts in no other way.** -/
theorem Converts.readsPart {α β : Type} {c : Codec α} {context : Node.Context} {d : Codec β}
    (h : Converts c context d) : c.ReadsPart context.plug d := by
  induction h with
  | here c => exact .refl c
  | option _ ih => exact (Codec.option_readsPart _).comp ih
  | alternative _ ih => exact (Codec.oneOf_string_readsPart _).comp ih
  | list _ ih => exact (Codec.list_readsPart _ _ _).comp ih
  | map _ ih => exact (Codec.map_readsPart _ _ _ _).comp ih
  | namedMap _ ih => exact (Codec.namedMap_readsPart _ _ _ _).comp ih
  | field hk hn hf _ ih => exact (Codec.record_readsPart hk hn hf).comp ih
  | fieldItem hf _ ih => exact (Codec.record_readsPart_item hf).comp ih
  | openField hk hn hf _ ih => exact (Codec.openRecord_readsPart hk hn hf).comp ih
  | components _ ih => exact Duration.components_readsPart.comp ih
  | backoff hp _ ih => exact (Backoff.form_readsPart hp).comp ih
  | scheme hk hp _ ih => exact (Authentication.scheme_readsPart hk hp).comp ih
  | process hk hp _ ih => exact (Run.process_readsPart hk hp).comp ih
  | selection hk hp _ ih => exact (EventStrategy.selection_readsPart hk hp).comp ih
  | end_ hk _ ih => exact (EventStrategy.end_readsPart hk).comp ih
  | commonField hk _ ih => exact Task.commonField_readsPart hk ih
  | kindField ht hk _ ih => exact Task.kindField_readsPart ht hk ih

/-! ## Null for optional fields -/

section

variable {before after : Object} {key : String}

theorem Run.read_option_null (h : RunOptions.codec.HasOption key) (hp : key ∉ Process.kindKeys)
    (hk : key ∉ Entries.keys (before ++ after)) {r : Run}
    (hr : codec.read (.mapping (before ++ after)) = .ok r) :
    codec.read (.mapping (before ++ (key, .null) :: after)) = .ok r := by
  obtain ⟨k, hs, hread, ho⟩ := read_mapping_eq_ok.1 hr
  have hmem : k ∈ Process.kindKeys :=
    KeyedUnion.mem_kindKeys_of_presentKeys (u := union) (Entries.singleKind_eq_ok.1 hs)
  have hne : key ≠ k := by
    rintro rfl
    exact hp hmem
  refine read_mapping_eq_ok.2 ⟨k, ?_, ?_, ?_⟩
  · rw [Entries.singleKind_eq_ok] at hs ⊢
    rw [← hs]
    refine List.filter_congr fun k' hk' => congrArg Option.isSome ?_
    refine KeyedUnion.get?_between_of_ne .null ?_
    rintro rfl
    exact hp hk'
  · rw [KeyedUnion.get?_between_of_ne .null hne]
    exact hread
  · have hnot : key ∉ [k] := fun hm => hne (List.mem_singleton.1 hm)
    rw [Entries.splitKeys_between_of_not_mem _ _ hnot]
    have hnull := Entries.not_mem_keys_of_sublist (Entries.sublist_splitKeys_snd _ [k]) hk
    rw [Entries.splitKeys_append_eq] at ho hnull
    exact h.passesNull _ _ _ hnull ho

namespace Task

theorem read_commonField_null (h : TaskFields.codec.HasOption key) (hm : key ∈ TaskFields.keys)
    (hk : key ∉ Entries.keys (before ++ after)) {t : Task}
    (ht : codec.read (.mapping (before ++ after)) = .ok t) :
    codec.read (.mapping (before ++ (key, .null) :: after)) = .ok t := by
  have hs : (Entries.splitKeys (before ++ after) TaskFields.keys).2 =
      (Entries.splitKeys (before ++ (key, .null) :: after) TaskFields.keys).2 := by
    rw [Entries.splitKeys_between_of_mem _ _ hm]
  obtain ⟨hf, hread⟩ := read_of_common_eq hs ht
  refine hread ?_
  have hnull := Entries.not_mem_keys_of_sublist (Entries.sublist_splitKeys_fst _ TaskFields.keys) hk
  rw [Entries.splitKeys_append_eq] at hf hnull
  rw [Entries.splitKeys_between_of_mem _ _ hm]
  exact h.passesNull _ _ _ hnull hf

/-- A further key of the type leaves the type. -/
theorem discriminate_between {type : TaskType} (hm : key ∈ type.ownedKeys) (n : Node)
    (h : discriminate (before ++ after) = .ok (some type)) :
    discriminate (before ++ (key, n) :: after) = .ok (some type) := by
  rw [discriminate_eq_some] at h ⊢
  simp only [Entries.hasKey_iff, Entries.keys_append, Entries.keys_cons, List.mem_append,
    List.mem_cons] at h ⊢
  refine ⟨h.1.imp_right .inr, fun t ht => ?_⟩
  rcases ht with ht | ht | ht
  · exact h.2 t (.inl ht)
  · exact (ownedKeys_apart hm).2 t ht
  · exact h.2 t (.inr ht)

theorem read_kindField_null {type : TaskType}
    (htype : discriminate (before ++ after) = .ok (some type))
    (h : (TaskKind.form codec type).codec.HasOption key) (hm : key ∈ type.ownedKeys)
    (hk : key ∉ Entries.keys (before ++ after)) {t : Task}
    (ht : codec.read (.mapping (before ++ after)) = .ok t) :
    codec.read (.mapping (before ++ (key, .null) :: after)) = .ok t := by
  have hc : (Entries.splitKeys (before ++ after) TaskFields.keys).1 =
      (Entries.splitKeys (before ++ (key, .null) :: after) TaskFields.keys).1 := by
    rw [Entries.splitKeys_between_of_not_mem _ _ (ownedKeys_apart hm).1]
  have he : (split (before ++ after) type).2 =
      (split (before ++ (key, .null) :: after) type).2 := by rw [split_between hm]
  obtain ⟨y, hy, hread⟩ := read_of_kind_eq htype (discriminate_between hm .null htype) hc he ht
  refine hread ?_
  have hsub := (Entries.sublist_splitKeys_fst
    (Entries.splitKeys (before ++ after) TaskFields.keys).2 type.ownedKeys).trans
      (Entries.sublist_splitKeys_snd (before ++ after) TaskFields.keys)
  have hnull : key ∉ Entries.keys (split (before ++ after) type).1 :=
    Entries.not_mem_keys_of_sublist hsub hk
  rw [split_append] at hy hnull
  rw [split_between hm]
  exact h.passesNull _ _ _ hnull hy

end Task

/-- **Null for an optional field that is not there changes nothing of a definition.** -/
theorem Offers.read_null {α : Type} {c : Codec α} (h : Offers c (before ++ after) key) {x : α}
    (hk : key ∉ Entries.keys (before ++ after)) (hx : c.read (.mapping (before ++ after)) = .ok x) :
    c.read (.mapping (before ++ (key, .null) :: after)) = .ok x := by
  generalize hes : before ++ after = es at h
  cases h with
  | field h => exact h.passesNull _ _ _ hk hx
  | option h hp => exact Run.read_option_null h hp hk hx
  | commonField h hm => exact Task.read_commonField_null h hm hk hx
  | kindField ht h hm => exact Task.read_kindField_null (hes ▸ ht) h hm hk hx

end

/-! ## Documents -/

/-- **Null counts as absence for every optional field of a document, but ends no strategy.** Where a
document is a workflow and has, at a place, a mapping without the key of an optional field that the
definition there has, an entry of null under that key leaves the workflow as it is. Only where the
mapping is a strategy and the key is `until`, the document with null is no workflow. -/
theorem Workflow.decode_null (context : Node.Context) (before after : Object) {key : String}
    {w : Workflow} (hk : key ∉ Entries.keys (before ++ after))
    (hw : codec.decode (context.plug (.mapping (before ++ after))) = .ok w) :
    (∀ {α : Type} (c : Codec α), Converts codec context c → Offers c (before ++ after) key →
      codec.decode (context.plug (.mapping (before ++ (key, .null) :: after))) = .ok w) ∧
      (Converts codec context EventStrategy.codec → key = "until" →
        ∀ w', codec.decode (context.plug (.mapping (before ++ (key, .null) :: after))) ≠
          .ok w') := by
  refine ⟨fun c hc ho => ?_, ?_⟩
  · -- The definition is read alike with null, and nothing else of it counts for the workflow.
    obtain ⟨x, hx, hnull⟩ := hc.readsPart _ (.mapping (before ++ (key, .null) :: after)) _
      (.mapping _ _) (Codec.decode_eq_ok.1 hw)
    exact Codec.decode_eq_ok.2 (hnull (ho.read_null hk hx))
  · rintro hc rfl w' hw'
    -- A workflow would be read by a strategy that ends with null.
    rw [Entries.keys_append, List.mem_append, not_or] at hk
    obtain ⟨s, hs, -⟩ := hc.readsPart (.mapping (before ++ ("until", .null) :: after)) _ _
      (.mapping _ []) (Codec.decode_eq_ok.1 hw')
    exact EventStrategy.read_until_null hk.1 s hs

namespace Workflow

/-- The place of the one task of a document. -/
def ringTask : Node.Context :=
  [.entry [("document", .mapping [("version", .string "1.0.0"), ("name", .string "wait")])] "do" [],
    .item [] [], .entry [] "ring" []]

/-- The place of the strategy by which the task waits for events. -/
def ringStrategy : Node.Context := ringTask ++ [.entry [] "listen" [], .entry [] "to" []]

/-- Waiting for any event of a type. -/
def ringEntries : Object :=
  [("any", .sequence [.mapping [("with", .mapping [("type", .string "rung")])]])]

theorem converts_ringTask {β : Type} {d : Codec β} {context : Node.Context}
    (h : Converts Task.codec context d) : Converts codec (ringTask ++ context) d :=
  .openField (by decide) (by decide) rfl (.namedMap h)

theorem converts_ringStrategy : Converts codec ringStrategy EventStrategy.codec := by
  refine converts_ringTask (.kindField rfl (by decide) ?_)
  exact .field (by decide) (by decide) rfl (.field (by decide) (by decide) rfl (.here _))

/-- Null may stand for what the task does with the events, but not for the end of the strategy. -/
theorem decode_null_ring :
    let listen : Object := [("listen", .mapping [("to", .mapping ringEntries)])]
    ∃ w, codec.decode (ringTask.plug (.mapping listen)) = .ok w ∧
      codec.decode (ringTask.plug (.mapping (listen ++ [("foreach", .null)]))) = .ok w ∧
      ∀ w', codec.decode (ringStrategy.plug (.mapping (ringEntries ++ [("until", .null)]))) ≠
        .ok w' := by
  intro listen
  have hforeach : Offers Task.codec (listen ++ []) "foreach" :=
    .kindField rfl (.record (by decide) rfl) (by decide)
  refine ⟨_, rfl, ?_, ?_⟩
  · exact (decode_null ringTask _ [] (by decide) rfl).1 _ (converts_ringTask (.here _)) hforeach
  · exact (decode_null ringStrategy _ [] (by decide) rfl).2 converts_ringStrategy rfl

end Workflow

end WorkflowDsl
