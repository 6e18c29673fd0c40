import WorkflowDsl.Proofs.Model.Task

/-!
# The kind of a task, and its keys

A mapping has no tag that names the kind of a task. `TaskType.among` are the types whose keys are
among given keys, and they decide: one type is the one that is read, several are refused, and
without any the mapping is a task of a kind that the language does not define, if exactly one key is
left for it (`Task.ReadsByKeys`).

Each key of a mapping goes to one part of the task: the common fields, the kind, or the other
entries (`Task.partKeys`). The other entries are neither changed nor reordered, and are written
behind the two other parts, which add no keys but their own (`Task.KeepsKeys`).
-/

namespace WorkflowDsl

/-- The types whose keys are among `keys`, in the order of the language. A list of tasks is part of
a loop beside one. -/
def TaskType.among (keys : List String) : List TaskType :=
  all.filter fun type => keys.contains type.key && !(type == .do_ && keys.contains for_.key)

theorem TaskType.mem_among {keys : List String} {type : TaskType} :
    type ∈ among keys ↔ type.key ∈ keys ∧ ¬(type = .do_ ∧ for_.key ∈ keys) := by
  have ht : type ∈ all := by cases type <;> decide
  rw [among, List.mem_filter, and_iff_right ht]
  simp [imp_iff_not_or]

namespace Task

variable {es : Object}

theorem candidates_eq_among (es : Object) : candidates es = TaskType.among (Entries.keys es) := by
  have hk (key : String) : (Entries.keys es).contains key = es.hasKey key := by
    rw [Bool.eq_iff_iff, List.contains_iff_mem, Entries.hasKey_iff]
  simp only [candidates, TaskType.among, hk]

/-! ## Reading by keys -/

/-- The entries under keys of the common fields. -/
def commonOf (es : Object) : Object := (Entries.splitKeys es TaskFields.keys).1

/-- The entries under other keys. -/
def uncommonOf (es : Object) : Object := (Entries.splitKeys es TaskFields.keys).2

/-- The task of a type, read from entries of which some belong to the type. -/
def ofType (type : TaskType) (es : Object) : Except DefinitionError Task := do
  let fields ← TaskFields.codec.decode (.mapping (commonOf es))
  let kind ← TaskKind.ofObject codec type (split es type).1
  .ok (mk fields kind ⟨(split es type).2⟩)

/-- The keys of a mapping decide what task it is read as. -/
structure ReadsByKeys (es : Object) : Prop where
  /-- A single type is the one that is read, -/
  one : ∀ type, TaskType.among es.keys = [type] → ofNode (.mapping es) = ofType type es
  /-- and the task is of this type. -/
  type_of_one : ∀ type t, TaskType.among es.keys = [type] →
    ofNode (.mapping es) = .ok t → t.type? = some type
  /-- Several types are refused, whatever is under the keys. -/
  several : 2 ≤ (TaskType.among es.keys).length →
    ofNode (.mapping es) =
      .error (.ambiguousKind "task" ((TaskType.among es.keys).map TaskType.key))
  /-- Without a type, the only key that is not common is kept as the kind, with what is under it. -/
  none_single : ∀ fields key definition, TaskType.among es.keys = [] →
    TaskFields.codec.decode (.mapping (commonOf es)) = .ok fields →
    uncommonOf es = [(key, definition)] →
    ofNode (.mapping es) = .ok (mk fields (.extension key definition) {})
  /-- If there is none, or more than one, they are refused as they are written. -/
  none_other : ∀ fields, TaskType.among es.keys = [] →
    TaskFields.codec.decode (.mapping (commonOf es)) = .ok fields → (uncommonOf es).length ≠ 1 →
    ofNode (.mapping es) = .error (.ambiguousKind "task" (uncommonOf es).keys)
  /-- Only common fields that are not converted are refused before. -/
  none_common : ∀ e, TaskType.among es.keys = [] →
    TaskFields.codec.decode (.mapping (commonOf es)) = .error e → ofNode (.mapping es) = .error e
  /-- A kind that the language does not define is read from no mapping with the key of a type. -/
  extension : ∀ t, ofNode (.mapping es) = .ok t → t.type? = none →
    ∀ type : TaskType, type.key ∉ es.keys
  /-- Mappings with the same keys are read as tasks of the same kind. -/
  same : ∀ fs t u, Entries.keys fs = es.keys → ofNode (.mapping es) = .ok t →
    ofNode (.mapping fs) = .ok u → t.type? = u.type? ∧ t.kindName = u.kindName

theorem ofNode_mapping (es : Object) :
    ofNode (.mapping es) = discriminate es >>= fun type => match type with
      | some type => ofType type es
      | none => TaskFields.codec.decode (.mapping (commonOf es)) >>= fun fields =>
          extensionKind (uncommonOf es) >>= fun kind => .ok (mk fields kind {}) := by
  rw [ofNode_eq]
  show (discriminate es >>= _) = _
  refine congrArg (discriminate es >>= ·) (funext fun type => ?_)
  cases type <;> rfl

theorem ofNode_of_among_singleton {type : TaskType} (h : TaskType.among es.keys = [type]) :
    ofNode (.mapping es) = ofType type es := by
  rw [ofNode_mapping, discriminate_eq, candidates_eq_among, h]
  rfl

theorem ofNode_of_among_nil (h : TaskType.among es.keys = []) :
    ofNode (.mapping es) = TaskFields.codec.decode (.mapping (commonOf es)) >>= fun fields =>
      extensionKind (uncommonOf es) >>= fun kind => .ok (mk fields kind {}) := by
  rw [ofNode_mapping, discriminate_eq, candidates_eq_among, h]
  rfl

theorem type?_of_ofType {type : TaskType} {t : Task} (h : ofType type es = .ok t) :
    t.type? = some type :=
  TaskKind.type?_of_ofObject (bind_mk_eq_ok.1 h).2.1

/-- A mapping that is read as a task has the key of at most one type. -/
theorem among_of_ofNode {t : Task} (h : ofNode (.mapping es) = .ok t) :
    (∃ type, TaskType.among es.keys = [type] ∧ ofType type es = .ok t) ∨
      TaskType.among es.keys = [] ∧ ∃ key definition, uncommonOf es = [(key, definition)] ∧
        t.kind = .extension key definition ∧ t.extra = {} := by
  rw [ofNode_mapping, discriminate_eq, candidates_eq_among] at h
  match hk : TaskType.among es.keys, h with
  | [], h =>
    replace h : (TaskFields.codec.decode (.mapping (commonOf es)) >>= fun fields =>
      extensionKind (uncommonOf es) >>= fun kind => .ok (mk fields kind {})) = .ok t := h
    obtain ⟨fields, -, h⟩ := except_bind_eq_ok.1 h
    obtain ⟨kind, hx, h⟩ := except_bind_eq_ok.1 h
    obtain ⟨key, definition, hu, rfl⟩ := extensionKind_eq_ok.1 hx
    obtain rfl := Except.ok.inj h
    exact .inr ⟨rfl, key, definition, hu, rfl, rfl⟩
  | [type], h => exact .inl ⟨type, rfl, h⟩
  | _ :: _ :: _, h => cases h

theorem keys_uncommonOf (es : Object) :
    Entries.keys (uncommonOf es) = es.keys.filter fun key => !TaskFields.keys.contains key := by
  rw [uncommonOf, Entries.splitKeys_eq, Entries.keys, Entries.keys, List.filter_map]
  rfl

theorem kindName_of_ofNode_congr {fs : Object} {t u : Task} (hk : Entries.keys fs = es.keys)
    (ht : ofNode (.mapping es) = .ok t) (hu : ofNode (.mapping fs) = .ok u) :
    t.type? = u.type? ∧ t.kindName = u.kindName := by
  have htype {t : Task} {type : TaskType} (h : t.type? = some type) : t.kindName = type.key := by
    obtain ⟨fields, kind, extra⟩ := t
    cases kind <;> cases h <;> rfl
  rcases among_of_ofNode ht with ⟨type, h1, ht⟩ | ⟨h1, key, definition, ht, htk, -⟩
  · rcases among_of_ofNode hu with ⟨type', h2, hu⟩ | ⟨h2, -⟩
    · obtain rfl : type' = type := by simpa [hk, h1] using h2.symm
      have ht := type?_of_ofType ht
      have hu := type?_of_ofType hu
      exact ⟨ht.trans hu.symm, (htype ht).trans (htype hu).symm⟩
    · simp [hk, h1] at h2
  · rcases among_of_ofNode hu with ⟨type', h2, hu⟩ | ⟨-, key', definition', hu, huk, -⟩
    · simp [hk, h1] at h2
    · have hkeys : Entries.keys (uncommonOf fs) = Entries.keys (uncommonOf es) := by
        rw [keys_uncommonOf, keys_uncommonOf, hk]
      obtain rfl : key' = key := by simpa [ht, hu] using hkeys
      rw [type?, type?, kindName, kindName, htk, huk]
      exact ⟨rfl, rfl⟩

/-- **The kind of a task is chosen by the keys of its mapping**, of which one selects it, and not by
what stands under them. -/
theorem readsByKeys (es : Object) : ReadsByKeys es where
  one _ := ofNode_of_among_singleton
  type_of_one type t hk h := type?_of_ofType ((ofNode_of_among_singleton hk).symm.trans h)
  several h := by
    rw [ofNode_mapping, discriminate_eq, candidates_eq_among]
    match TaskType.among es.keys, h with
    | _ :: _ :: _, _ => rfl
  none_single fields key definition hk hf hu := by
    rw [ofNode_of_among_nil hk, hf, hu]
    rfl
  none_other fields hk hf hu := by
    rw [ofNode_of_among_nil hk, hf]
    match uncommonOf es, hu with
    | [], _ => rfl
    | [_], hu => exact absurd rfl hu
    | _ :: _ :: _, _ => rfl
  none_common e hk hf := by
    rw [ofNode_of_among_nil hk, hf]
    rfl
  extension t h ht type hm := by
    rcases among_of_ofNode h with ⟨type', -, h⟩ | ⟨hk, -⟩
    · rw [type?_of_ofType h] at ht
      cases ht
    · -- A list of tasks that does not count stands beside a loop, which does.
      by_cases hd : type = .do_ ∧ TaskType.for_.key ∈ es.keys
      · have hf : TaskType.for_ ∈ TaskType.among es.keys := TaskType.mem_among.2 ⟨hd.2, by simp⟩
        simp [hk] at hf
      · have hf : type ∈ TaskType.among es.keys := TaskType.mem_among.2 ⟨hm, hd⟩
        simp [hk] at hf
  same _ _ _ := kindName_of_ofNode_congr

/-- A loop has a list of tasks of its own, and any other two types exclude each other. -/
example :
    TaskType.among ["do", "for", "while"] = [.for_] ∧ TaskType.among ["do", "set"] = [.do_, .set] :=
  by decide

/-! ## The part of each key -/

/-- What keys of the mapping of a task belong to. -/
inductive Claimant where
  | common
  | kind
  | extra
deriving DecidableEq

/-- The keys that belong to a part of a task. A kind that the language does not define has only that
by which it is named. -/
def partKeys (t : Task) : Claimant → List String
  | .common => TaskFields.keys
  | .kind => ((t.type?.map TaskType.ownedKeys).getD [t.kindName])
  | .extra => t.extra.keys

/-- The entries that are neither of the common fields nor of the kind. -/
def othersIn (t : Task) (es : Object) : Object :=
  es.filter fun e => !(t.partKeys .common).contains e.1 && !(t.partKeys .kind).contains e.1

/-- Each key of the mapping of a task belongs to one part of it, and none is added when the task is
written. -/
structure KeepsKeys (es : Object) (t : Task) : Prop where
  /-- A key belongs to exactly one part. -/
  part : ∀ key ∈ es.keys, ∃! part, key ∈ t.partKeys part
  /-- The entries of no other part are kept as they are, in their order, -/
  others : t.extra.entries = t.othersIn es
  /-- and are written behind those of the kind and those of the common fields, each under keys of
  its own part. -/
  written : ∃ kind common, t.kind.toNode codec = .mapping kind ∧
    TaskFields.codec.write t.fields = .mapping common ∧
    t.toNode = .mapping (kind ++ common ++ t.extra.entries) ∧
    (∀ key ∈ Entries.keys kind, key ∈ t.partKeys .kind) ∧
    ∀ key ∈ Entries.keys common, key ∈ t.partKeys .common

theorem others_of_ofNode {t : Task} (h : ofNode (.mapping es) = .ok t) :
    t.extra.entries = t.othersIn es := by
  rcases among_of_ofNode h with ⟨type, -, h⟩ | ⟨-, key, definition, hu, hk, he⟩
  · have hx : t.extra = ⟨(split es type).2⟩ := (bind_mk_eq_ok.1 h).2.2
    rw [hx, split, othersIn, partKeys, partKeys, type?_of_ofType h]
    simp only [Entries.splitKeys_eq, List.filter_filter, Option.map_some, Option.getD_some]
    exact List.filter_congr fun e _ => Bool.and_comm _ _
  · have hn : (uncommonOf es).filter (fun e => e.1 != key) = t.othersIn es := by
      rw [uncommonOf, othersIn, partKeys, partKeys, type?, kindName, hk]
      simp only [Entries.splitKeys_eq, List.filter_filter]
      refine List.filter_congr fun e _ => ?_
      simp [TaskKind.type?, TaskKind.name, Bool.and_comm, bne, beq_eq_decide]
    rw [he, ← hn, hu]
    simp only [List.filter_cons, bne_self_eq_false, Bool.false_eq_true, ↓reduceIte]
    rfl

theorem mem_keys_othersIn {t : Task} {key : String} :
    key ∈ Entries.keys (t.othersIn es) ↔
      key ∈ es.keys ∧ key ∉ t.partKeys .common ∧ key ∉ t.partKeys .kind := by
  have hk : Entries.keys (t.othersIn es) = es.keys.filter fun key =>
      !(t.partKeys .common).contains key && !(t.partKeys .kind).contains key := by
    rw [othersIn, Entries.keys, Entries.keys, List.filter_map]
    rfl
  rw [hk, List.mem_filter]
  simp

/-- A kind whose keys are apart from the others has none of the common fields. -/
theorem kind_apart_common {t : Task} (h : keysApart t.kind t.extra = true) {key : String}
    (hk : key ∈ t.partKeys .kind) : key ∉ t.partKeys .common := by
  obtain ⟨fields, kind, extra⟩ := t
  cases ht : kind.type? with
  | some type =>
    rw [partKeys, show (mk fields kind extra).type? = some type from ht] at hk
    exact (ownedKeys_apart hk).1
  | none =>
    cases kind with
    | extension name definition =>
      obtain rfl := List.mem_singleton.1 hk
      exact fun hc => (keysApart_extension.1 h).2 (mem_reservedKeys.2 (.inl hc))
    | _ => cases ht

/-- A kind is written under keys of its own. -/
theorem keys_entries_subset (t : Task) {key : String}
    (h : key ∈ Entries.keys (t.kind.entries codec)) : key ∈ t.partKeys .kind := by
  obtain ⟨fields, kind, extra⟩ := t
  cases ht : kind.type? with
  | some type =>
    rw [partKeys, show (mk fields kind extra).type? = some type from ht]
    exact (TaskKind.toNode_entries ht).2.owned key h
  | none =>
    cases kind with
    | extension name definition => exact h
    | _ => cases ht

/-- A key belongs to the common fields, else to the kind, else to the others. -/
theorem existsUnique_part {t : Task} (h : keysApart t.kind t.extra = true)
    (ho : t.extra.entries = t.othersIn es) {key : String} (hk : key ∈ es.keys) :
    ∃! part, key ∈ t.partKeys part := by
  have hx : key ∈ t.partKeys .extra ↔ key ∉ t.partKeys .common ∧ key ∉ t.partKeys .kind := by
    show key ∈ Entries.keys t.extra.entries ↔ _
    rw [ho, mem_keys_othersIn, and_iff_right hk]
  by_cases hc : key ∈ t.partKeys .common
  · refine ⟨.common, hc, fun p hp => ?_⟩
    cases p with
    | common => rfl
    | kind => exact absurd hc (kind_apart_common h hp)
    | extra => exact absurd hc (hx.1 hp).1
  · by_cases hd : key ∈ t.partKeys .kind
    · refine ⟨.kind, hd, fun p hp => ?_⟩
      cases p with
      | common => exact absurd hp hc
      | kind => rfl
      | extra => exact absurd hd (hx.1 hp).2
    · refine ⟨.extra, hx.2 ⟨hc, hd⟩, fun p hp => ?_⟩
      cases p with
      | common => exact absurd hp hc
      | kind => exact absurd hp hd
      | extra => rfl

/-- A kind is written as its entries. -/
theorem toNode_kind (k : TaskKind Task) : k.toNode codec = .mapping (k.entries codec) := by
  cases ht : k.type? with
  | some type => exact (TaskKind.toNode_entries ht).1
  | none =>
    cases k with
    | extension key definition => rfl
    | _ => cases ht

/-- **No key of a task is lost or claimed twice.** Each key of a mapping that is read as a task
belongs to the common fields, to the kind or to the other entries, and only these are written. -/
theorem keepsKeys_of_ofNode {t : Task} (hn : (Entries.keys es).Nodup)
    (h : ofNode (.mapping es) = .ok t) : t.KeepsKeys es := by
  have ha : keysApart t.kind t.extra = true := by
    rw [ofNode_eq] at h
    exact keysApart_of_ofNodeBy hn h
  have ho := others_of_ofNode h
  refine ⟨fun key => existsUnique_part ha ho, ho, t.kind.entries codec, commonEntries t.fields,
    toNode_kind t.kind, rfl, ?_, fun _ => keys_entries_subset t,
    fun _ => (keys_commonEntries_sublist t.fields).subset (a := _)⟩
  obtain ⟨fields, kind, extra⟩ := t
  have hw : assemble fields (kind.toNode codec) extra =
      kind.entries codec ++ commonEntries fields ++ extra.entries := assemble_of_keysApart ha
  rw [toNode_mk, hw]
  rfl

/-- The mapping of a loop with keys of other kinds between its own. -/
def patrolEntries : Object :=
  [("x-route", .string "north"), ("foreach", .null), ("then", .string "exit"),
    ("for", .mapping [("in", .string "${ .doors }")]), ("with", .sequence []),
    ("do", .sequence [])]

theorem keepsKeys_of_ofNode_patrolEntries :
    (Entries.keys patrolEntries).Nodup ∧ ∃ t, ofNode (.mapping patrolEntries) = .ok t ∧
      t.extra.keys = ["x-route", "foreach", "with"] ∧ t.KeepsKeys patrolEntries := by
  have hn : (Entries.keys patrolEntries).Nodup := by decide
  exact ⟨hn, _, rfl, rfl, keepsKeys_of_ofNode hn rfl⟩

end Task

end WorkflowDsl
