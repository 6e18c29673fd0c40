import WorkflowDsl.Proofs.Legacy.State

/-!
# The order of kept entries

A state is written with the entries that it keeps at the end (`State.toNode_eq_written`), in the
order in which they stand once the type is taken out (`State.kept_of_readAs`). But the last entry of
all has then moved into the place of the type. So an entry that is kept comes before those which
stood between it and the type, if it was the last one (`State.keptIn_swapErase_eq_iff`). A written
state has its type first and the kept entries last: each time it is read, the last of them goes
before the others (`State.ofNode_toNode`).
-/

namespace WorkflowDsl.Legacy.State

variable {es : Object} {s : State} {type : String} {d : Nat}

/-! ## Keys that are kept -/

/-- Whether a state keeps entries under the key. The key is neither that of the type nor that of a
field, be it common to all states or of those with the type. -/
def keepsKey (type key : String) : Bool :=
  key != "type" && !StateFields.keys.contains key &&
    (StateType.ofText? type).all fun t => !t.ownedKeys.contains key

/-- The entries of a mapping that a state of the type keeps, in the order written. -/
def keptIn (type : String) (es : Object) : Object := es.filter fun e => keepsKey type e.1

theorem keptIn_append (type : String) (es fs : Object) :
    keptIn type (es ++ fs) = keptIn type es ++ keptIn type fs :=
  List.filter_append ..

theorem keptIn_keptIn (type : String) (es : Object) :
    keptIn type (keptIn type es) = keptIn type es := by
  rw [keptIn, keptIn, List.filter_filter]
  simp only [Bool.and_self]

theorem keptIn_eq_nil_iff : keptIn type es = [] ↔ ∀ e ∈ es, keepsKey type e.1 = false := by
  rw [keptIn, List.filter_eq_nil_iff]
  exact forall₂_congr fun e _ => iff_of_eq (Bool.not_eq_true _)

/-- Where the type is taken out, the kept entries are those that remain without the fields. -/
theorem keptIn_eq_of_some {t : StateType} (h : StateType.ofText? type = some t)
    (ht : "type" ∉ Entries.keys es) :
    keptIn type es =
      (Entries.splitKeys (Entries.splitKeys es StateFields.keys).2 t.ownedKeys).2 := by
  simp only [Entries.splitKeys_eq, List.filter_filter]
  refine List.filter_congr fun e he => ?_
  have hne : (e.1 != "type") = true := bne_iff_ne.2 fun h => ht (h ▸ Entries.mem_keys_of_mem he)
  rw [keepsKey, h, hne, Bool.true_and, Bool.and_comm]
  rfl

theorem keptIn_eq_of_none (h : StateType.ofText? type = none) (ht : "type" ∉ Entries.keys es) :
    keptIn type es = (Entries.splitKeys es StateFields.keys).2 := by
  rw [Entries.splitKeys_eq]
  refine List.filter_congr fun e he => ?_
  have hne : (e.1 != "type") = true := bne_iff_ne.2 fun h => ht (h ▸ Entries.mem_keys_of_mem he)
  rw [keepsKey, h, hne, Bool.true_and]
  exact Bool.and_true _

/-- A state is read with the entries that its type keeps. -/
theorem kept_of_readAs (ht : "type" ∉ Entries.keys es) (h : ReadAs type es s) :
    StateType.ofText? s.kind.typeName = StateType.ofText? type ∧ s.kept = keptIn type es := by
  obtain ⟨-, -, hm⟩ := h
  split at hm
  · next t hs =>
    obtain ⟨hk, he⟩ := hm
    have hkt := StateKind.type?_of_read hk
    refine ⟨by rw [hs, StateKind.ofText?_typeName hkt], ?_⟩
    rw [kept_of_type? hkt, he, keptIn_eq_of_some hs ht]
  · next hs =>
    obtain ⟨hk, -⟩ := hm
    refine ⟨by rw [hk]; rfl, ?_⟩
    rw [kept_of_extension hk, keptIn_eq_of_none hs ht]

theorem keptIn_congr {type' : String} (h : StateType.ofText? type' = StateType.ofText? type)
    (es : Object) : keptIn type' es = keptIn type es := by
  refine List.filter_congr fun e _ => ?_
  rw [keepsKey, keepsKey, h]

/-! ## What is written before the kept entries -/

/-- The type and the fields that a state is written with. -/
def written (s : State) : Object :=
  ("type", .string s.kind.typeName) :: (commonEntries s.fields ++
    match s.kind with
    | .extension _ _ => []
    | kind => kind.entries)

theorem written_of_type? {t : StateType} (h : s.kind.type? = some t) :
    s.written =
      ("type", .string s.kind.typeName) :: (commonEntries s.fields ++ s.kind.entries) := by
  obtain ⟨fields, kind, extra⟩ := s
  cases kind <;> first | rfl | cases h

theorem written_of_extension {properties : OrderedMap Node}
    (h : s.kind = .extension type properties) :
    s.written = ("type", .string type) :: commonEntries s.fields := by
  rw [written, h]
  exact congrArg _ (List.append_nil _)

theorem written_withKept (s : State) (es : Object) : (s.withKept es).written = s.written := by
  obtain ⟨fields, kind, extra⟩ := s
  cases kind <;> rfl

theorem kept_withKept (s : State) (es : Object) : (s.withKept es).kept = es := by
  obtain ⟨fields, kind, extra⟩ := s
  cases kind <;> rfl

/-- The kept entries are written at the end. -/
theorem Apart.toNode_eq_written (h : s.Apart) (hx : s.kind.type? = none → s.extra = {}) :
    s.toNode = .mapping (s.written ++ s.kept) := by
  rw [h.toNode_eq, rest]
  cases ht : s.kind.type? with
  | some t =>
    rw [written_of_type? ht, kept_of_type? ht, List.cons_append, List.append_assoc]
  | none =>
    obtain ⟨type, properties, hk⟩ := StateKind.eq_extension_of_type? ht
    rw [written_of_extension hk, kept_of_extension hk, hk, hx ht]
    exact congrArg Node.mapping (congrArg _ (congrArg _ (List.append_nil _)))

/-- In another order, the kept entries are as far apart from the fields. -/
theorem Apart.withKept (h : s.Apart) {kept : Object} (hp : kept.Perm s.kept) :
    (s.withKept kept).Apart := by
  have hkeys := hp.map Prod.fst
  cases ht : s.kind.type? with
  | some t =>
    rw [kept_of_type? ht] at hkeys
    rw [withKept_of_type? ht]
    exact ⟨h.nodup_kind, hkeys.nodup_iff.2 h.nodup_extra, h.kind,
      fun key hm => h.extra key (hkeys.mem_iff.1 hm)⟩
  | none =>
    obtain ⟨type, properties, hk⟩ := StateKind.eq_extension_of_type? ht
    have hes : s.kind.entries = s.kept := by
      rw [kept_of_extension hk, hk]
      rfl
    rw [withKept_of_extension hk]
    have hkeys : (Entries.keys kept).Perm (Entries.keys s.kind.entries) := hes ▸ hkeys
    refine ⟨hkeys.nodup_iff.2 h.nodup_kind, h.nodup_extra,
      fun key hm => h.kind key (hkeys.mem_iff.1 hm), fun key hm => ?_⟩
    obtain ⟨hc, hne, hn⟩ := h.extra key hm
    exact ⟨hc, hne, fun hm => hn (hkeys.mem_iff.1 hm)⟩

theorem extra_of_readAs (h : ReadAs type es s) (ht : s.kind.type? = none) : s.extra = {} := by
  obtain ⟨-, -, hm⟩ := h
  split at hm
  · rw [StateKind.type?_of_read hm.1] at ht
    cases ht
  · exact hm.2

theorem extra_withKept (hx : s.kind.type? = none → s.extra = {}) (kept : Object) :
    (s.withKept kept).kind.type? = none → (s.withKept kept).extra = {} := by
  obtain ⟨fields, kind, extra⟩ := s
  cases kind with
  | extension => exact hx
  | _ => exact nofun

/-- No entry is kept that the type and the fields are written as. -/
theorem keptIn_written (h : ReadAs type es s) : keptIn type s.written = [] := by
  have hs := (keys_commonEntries_sublist s.fields).subset
  have hty : keepsKey type "type" = false := rfl
  have hc : ∀ e ∈ commonEntries s.fields, keepsKey type e.1 = false := by
    intro e he
    have : StateFields.keys.contains e.1 = true :=
      List.contains_iff_mem.2 (hs (Entries.mem_keys_of_mem he))
    rw [keepsKey, this]
    simp
  obtain ⟨-, -, hm⟩ := h
  rw [keptIn_eq_nil_iff]
  split at hm
  · next t hts =>
    have hkt := StateKind.type?_of_read hm.1
    rw [written_of_type? hkt]
    refine List.forall_mem_cons.2 ⟨hty, List.forall_mem_append.2 ⟨hc, fun e he => ?_⟩⟩
    have ho := (StateKind.keys_entries_sublist hkt).subset (Entries.mem_keys_of_mem he)
    have : t.ownedKeys.contains e.1 = true := List.contains_iff_mem.2 ho
    rw [keepsKey, hts, Option.all_some, this]
    simp
  · rw [written_of_extension hm.1]
    exact List.forall_mem_cons.2 ⟨hty, hc⟩

/-! ## Taking the type out -/

/-- The last entry before the others. -/
def lastFirst (es : Object) : Object := es.getLast?.toList ++ es.dropLast

theorem lastFirst_concat (es : Object) (e : String × Node) : lastFirst (es ++ [e]) = e :: es := by
  rw [lastFirst, List.getLast?_concat, List.dropLast_concat]
  rfl

theorem lastFirst_perm (es : Object) : (lastFirst es).Perm es := by
  rcases List.eq_nil_or_concat es with rfl | ⟨es, e, rfl⟩
  · exact .nil
  · rw [List.concat_eq_append, lastFirst_concat]
    exact (List.perm_append_singleton e es).symm

theorem lastFirst_eq_self_iff (hn : (Entries.keys es).Nodup) :
    lastFirst es = es ↔ es.length ≤ 1 := by
  rcases List.eq_nil_or_concat es with rfl | ⟨es, e, rfl⟩
  · exact iff_of_true rfl (Nat.zero_le 1)
  rw [List.concat_eq_append] at hn ⊢
  rw [lastFirst_concat, List.length_append, List.length_singleton]
  cases es with
  | nil => exact iff_of_true rfl (Nat.le_refl 1)
  | cons f es =>
    rw [List.cons_append, Entries.keys_cons, List.nodup_cons] at hn
    refine iff_of_false (fun he => ?_) fun hl => ?_
    · obtain ⟨rfl, -⟩ := List.cons.inj he
      exact hn.1 (Entries.mem_keys_of_mem (List.mem_append_right _ (List.mem_singleton_self e)))
    · rw [List.length_cons] at hl
      omega

/-- The last entry moves into the place of the one that is taken out. -/
theorem swapErase_eq {before after : Object} {key : String} {n : Node}
    (h : key ∉ Entries.keys before) :
    Entries.swapErase (before ++ (key, n) :: after) key = before ++ lastFirst after := by
  rcases List.eq_nil_or_concat after with rfl | ⟨between, last, rfl⟩
  · rw [Entries.swapErase_concat (e := (key, n)) h]
    exact (List.append_nil before).symm
  · rw [List.concat_eq_append, Entries.swapErase_append_cons (e := (key, n)) h, lastFirst_concat]

/-- The kept entries change their order if the last entry is one of them and comes before others. -/
theorem keptIn_lastFirst_eq_iff {before after : Object} {n : Node}
    (hn : (Entries.keys (before ++ ("type", n) :: after)).Nodup) :
    keptIn type (before ++ lastFirst after) = keptIn type (before ++ ("type", n) :: after) ↔
      ∀ between last, after = between ++ [last] → keepsKey type last.1 = true →
        keptIn type between = [] := by
  have hskip : keptIn type (("type", n) :: after) = keptIn type after :=
    List.filter_cons_of_neg (by simp [keepsKey])
  rw [keptIn_append, keptIn_append, hskip, List.append_cancel_left_eq]
  rcases List.eq_nil_or_concat after with rfl | ⟨between, last, rfl⟩
  · refine iff_of_true rfl fun between last he => ?_
    exact absurd he.symm (List.append_ne_nil_of_right_ne_nil _ (List.cons_ne_nil _ _))
  rw [List.concat_eq_append] at hn ⊢
  have hk : (Entries.keys (between ++ [last])).Nodup := by
    rw [Entries.keys_append, Entries.keys_cons] at hn
    exact (List.nodup_cons.1 (List.nodup_append'.1 hn).2.1).2
  rw [lastFirst_concat, keptIn_append]
  cases hl : keepsKey type last.1 with
  | false =>
    have hlast : keptIn type [last] = [] := keptIn_eq_nil_iff.2 (List.forall_mem_singleton.2 hl)
    rw [hlast, List.append_nil, keptIn, List.filter_cons_of_neg (by rw [hl]; exact nofun)]
    refine iff_of_true rfl fun between' last' he hl' => ?_
    obtain ⟨-, rfl⟩ := List.append_inj' he rfl |>.imp id List.singleton_inj.1
    rw [hl] at hl'
    cases hl'
  | true =>
    have hlast : keptIn type [last] = [last] := List.filter_cons_of_pos hl
    have hnodup : (Entries.keys (keptIn type between ++ [last])).Nodup := by
      rw [← hlast, ← keptIn_append]
      exact Entries.nodup_keys_filter hk _
    have hmove := lastFirst_eq_self_iff hnodup
    rw [lastFirst_concat, List.length_append, List.length_singleton] at hmove
    have hcons : keptIn type (last :: between) = last :: keptIn type between :=
      List.filter_cons_of_pos hl
    rw [hcons, hlast, hmove]
    constructor
    · intro hle between' last' he _
      obtain ⟨rfl, -⟩ := List.append_inj' he rfl
      exact List.length_eq_zero_iff.1 (by omega)
    · intro h
      rw [h between last rfl hl]
      exact Nat.le_refl 1

/-- Behind other entries, the last of the kept ones goes before those. -/
theorem keptIn_lastFirst_append {known kept : Object} (hw : keptIn type known = [])
    (hk : keptIn type kept = kept) : keptIn type (lastFirst (known ++ kept)) = lastFirst kept := by
  rcases List.eq_nil_or_concat kept with rfl | ⟨init, last, rfl⟩
  · have hp := (lastFirst_perm known).filter fun e => keepsKey type e.1
    rw [List.append_nil]
    exact (hp.trans (.of_eq hw)).eq_nil
  · rw [List.concat_eq_append] at hk ⊢
    have hall := List.filter_eq_self.1 hk
    have hi : keptIn type init = init :=
      List.filter_eq_self.2 fun e he => hall e (List.mem_append_left _ he)
    have hl : keepsKey type last.1 = true :=
      hall last (List.mem_append_right _ (List.mem_singleton_self last))
    rw [← List.append_assoc, lastFirst_concat, lastFirst_concat]
    have : keptIn type (last :: (known ++ init)) = last :: keptIn type (known ++ init) :=
      List.filter_cons_of_pos hl
    rw [this, keptIn_append, hw, hi, List.nil_append]

/-- A written state is read again with the last of the kept entries before the others. -/
theorem ofNode_toNode (hn : (Node.mapping es).Below d) (ht : "type" ∉ Entries.keys es)
    (h : ReadAs type es s) : ofNode s.toNode = .ok (s.withKept (lastFirst s.kept)) := by
  have ha := apart_of_readAs hn ht h
  obtain ⟨hname, hkept⟩ := kept_of_readAs ht h
  have hw := ha.toNode_eq_written (extra_of_readAs h)
  obtain ⟨kept, -, hs⟩ := exists_readsBack hn ht h
  have hnodup : (Entries.keys (("type", Node.string s.kind.typeName) :: s.rest)).Nodup :=
    List.nodup_cons.2 ⟨ha.type_not_mem, ha.nodup_rest⟩
  obtain ⟨-, hk⟩ := kept_of_readAs (Entries.not_mem_keys_swapErase hnodup "type") hs
  have hrest : s.rest = s.written.tail ++ s.kept :=
    (List.cons.inj (Node.mapping.inj (ha.toNode_eq.symm.trans hw))).2
  have htail : keptIn s.kind.typeName s.written.tail = [] := by
    rw [keptIn_congr hname]
    exact keptIn_written h
  have hself : keptIn s.kind.typeName s.kept = s.kept := by
    rw [keptIn_congr hname, hkept, keptIn_keptIn]
  have hlast : kept = lastFirst s.kept := by
    rw [kept_withKept] at hk
    rw [hk, ← List.nil_append (_ :: s.rest), swapErase_eq List.not_mem_nil, List.nil_append,
      hrest]
    exact keptIn_lastFirst_append htail hself
  rw [← hlast, ha.toNode_eq]
  exact ofNode_eq_ok.2 ⟨_, rfl, hs⟩

/-! ## States in a tree -/

/-- **A state is written with the entries that it keeps at the end. They stand in the order of the
tree unless the last entry of all is one of them, and moves into the place of the type before
others that are kept.** Thus the last of them goes before the others each time the written state
is read again, and that is the same state only if there are not two. -/
theorem keptIn_toNode_eq_iff {es : Object} {s : State}
    (hn : (Node.mapping es).distinctKeys = true) (h : ofNode (.mapping es) = .ok s) :
    ∃ before n after known, es = before ++ ("type", n) :: after ∧
      s.toNode = .mapping (known ++ s.kept) ∧ keptIn s.kind.typeName known = [] ∧
      s.kept = keptIn s.kind.typeName (before ++ lastFirst after) ∧
      (s.kept = keptIn s.kind.typeName es ↔ ∀ between last, after = between ++ [last] →
        keepsKey s.kind.typeName last.1 = true → keptIn s.kind.typeName between = []) ∧
      ∃ s', ofNode s.toNode = .ok s' ∧ s'.toNode = .mapping (known ++ lastFirst s.kept) ∧
        (s'.toNode = s.toNode ↔ s.kept.length ≤ 1) := by
  obtain ⟨type, htype, hr⟩ := ofNode_eq_ok.1 h
  have hb := Node.Below.of_distinct hn
  obtain ⟨before, after, rfl, hbefore⟩ : ∃ before after,
      es = before ++ ("type", .string type) :: after ∧ "type" ∉ Entries.keys before := by
    obtain ⟨before, after, rfl⟩ := List.append_of_mem (Entries.mem_of_get? htype)
    refine ⟨before, after, rfl, fun hm => ?_⟩
    have hd := hb.nodup_keys
    rw [Entries.keys_append, List.nodup_append'] at hd
    exact hd.2.2 hm List.mem_cons_self
  have ht := Entries.not_mem_keys_swapErase hb.nodup_keys "type"
  have hb' := hb.swapErase "type"
  obtain ⟨hname, hkept⟩ := kept_of_readAs ht hr
  have hk : s.kept = keptIn s.kind.typeName (before ++ lastFirst after) := by
    rw [hkept, swapErase_eq hbefore, keptIn_congr hname]
  have ha := apart_of_readAs hb' ht hr
  have hx := extra_of_readAs hr
  have hw := ha.toNode_eq_written hx
  have hw' : (s.withKept (lastFirst s.kept)).toNode =
      .mapping (s.written ++ lastFirst s.kept) := by
    rw [(ha.withKept (lastFirst_perm s.kept)).toNode_eq_written (extra_withKept hx _),
      written_withKept, kept_withKept]
  have hnodup : (Entries.keys s.kept).Nodup := by
    rw [hkept]
    exact Entries.nodup_keys_filter hb'.nodup_keys _
  refine ⟨before, _, after, s.written, rfl, hw, ?_, hk, ?_, _, ofNode_toNode hb' ht hr, hw', ?_⟩
  · rw [keptIn_congr hname]
    exact keptIn_written hr
  · rw [hk]
    exact keptIn_lastFirst_eq_iff hb.nodup_keys
  · rw [hw, hw', Node.mapping.injEq, List.append_cancel_left_eq]
    exact lastFirst_eq_self_iff hnodup

/-- Two unknown entries of which the second is the last of all. -/
def doubleTagged : Object :=
  [("type", .string "sleep"), ("name", .string "wait"), ("duration", .string "PT5S"),
    ("end", .bool true), ("x-first", .null), ("x-second", .bool false)]

theorem keptIn_toNode_eq_iff_doubleTagged :
    (Node.mapping doubleTagged).distinctKeys = true ∧
      ∃ s, ofNode (.mapping doubleTagged) = .ok s ∧
        Entries.keys s.kept = ["x-second", "x-first"] ∧
        ∃ s', ofNode s.toNode = .ok s' ∧ (s'.toNode = s.toNode ↔ s.kept.length ≤ 1) := by
  have hn : (Node.mapping doubleTagged).distinctKeys = true := by decide
  refine ⟨hn, _, rfl, rfl, ?_⟩
  obtain ⟨_, _, _, _, -, -, -, -, -, s', hr, -, hs⟩ := keptIn_toNode_eq_iff hn rfl
  exact ⟨s', hr, hs⟩

end WorkflowDsl.Legacy.State
