import WorkflowDsl.Proofs.Document.Reordering

/-!
# Splitting and merging objects

A definition that may have other keys is read by setting the entries under its own keys apart, and
is written by putting the two parts together again. `Entries.Splits` and `Entries.Merges` tell what
comes of that by keys, values and order, and leave open how it is done. Each of them holds of one
result alone, which is the one that is computed (`splitKeys_eq_iff`, `merge_eq_iff`).

Order and values have to be followed together, as a value may be written to a place in the middle.
Merging is told by its keys (`keys_merge`) and by what stands under each (`get?_merge`), and entries
under distinct keys are the same when these two are.
-/

namespace WorkflowDsl

namespace Entries

variable {α : Type} {es taken rest target source result : Entries α} {ks : List String}

/-! ## Merging -/

/-- What merging a source into a target has to give. -/
structure Merges (target source result : Entries α) : Prop where
  /-- Under the keys of the source stand its values. -/
  get?_source : ∀ key ∈ keys source, get? result key = get? source key
  /-- Elsewhere stands what the target has. -/
  get?_target : ∀ key, key ∉ keys source → get? result key = get? target key
  /-- A key of the target keeps its place. -/
  position?_eq : ∀ key ∈ keys target, position? result key = position? target key
  /-- The new keys come behind those of the target, in the order of the source. -/
  keys_eq : keys result = keys target ++ (keys source).filter (· ∉ keys target)

theorem keys_merge (target : Entries α) (hn : (keys source).Nodup) :
    keys (merge target source) = keys target ++ (keys source).filter (· ∉ keys target) := by
  induction source generalizing target with
  | nil => simp
  | cons e source ih =>
    rw [keys_cons, List.nodup_cons] at hn
    rw [merge_cons, ih _ hn.2, keys_insert, keys_cons]
    by_cases he : e.1 ∈ keys target
    · rw [if_pos he, List.filter_cons_of_neg (by simpa using he)]
    · rw [if_neg he, List.filter_cons_of_pos (by simpa using he), List.append_assoc,
        List.singleton_append]
      -- The key that was just appended is not met again, so it does not count as known.
      have hf : (keys source).filter (· ∉ keys target ++ [e.1]) =
          (keys source).filter (· ∉ keys target) := by
        refine List.filter_congr fun key hk => ?_
        have hne : key ≠ e.1 := fun h => hn.1 (h ▸ hk)
        simp [hne]
      rw [hf]

theorem get?_merge (target : Entries α) (hn : (keys source).Nodup) (key : String) :
    get? (merge target source) key = (get? source key).or (get? target key) := by
  induction source generalizing target with
  | nil => rfl
  | cons e source ih =>
    rw [keys_cons, List.nodup_cons] at hn
    rw [merge_cons, ih _ hn.2, get?_cons]
    by_cases hk : e.1 = key
    · subst hk
      rw [if_pos rfl, get?_eq_none_iff.2 hn.1, get?_insert_self]
      rfl
    · rw [if_neg hk, get?_insert_of_ne hk]

theorem position?_eq_findIdx? (es : Entries α) (key : String) :
    position? es key = (keys es).findIdx? (· == key) := by
  rw [keys, List.findIdx?_map]
  rfl

/-- Keys that are put behind others do not move them. -/
theorem position?_of_keys_append {added : List String} (h : keys result = keys target ++ added)
    {key : String} (hk : key ∈ keys target) : position? result key = position? target key := by
  have hs : ((keys target).findIdx? (· == key)).isSome := by
    rw [List.findIdx?_isSome, List.any_eq_true]
    exact ⟨key, hk, beq_self_eq_true key⟩
  rw [position?_eq_findIdx?, position?_eq_findIdx?, h, List.findIdx?_append,
    Option.or_of_isSome hs]

theorem merges_merge (target : Entries α) (hn : (keys source).Nodup) :
    Merges target source (merge target source) where
  get?_source key hk := by
    have hs : (get? source key).isSome := hasKey_iff.2 hk
    rw [get?_merge target hn, Option.or_of_isSome hs]
  get?_target key hk := by
    rw [get?_merge target hn, get?_eq_none_iff.2 hk, Option.none_or]
  position?_eq _ hk := position?_of_keys_append (keys_merge target hn) hk
  keys_eq := keys_merge target hn

/-- **Merging gives what it has to give, and nothing else does.** -/
theorem merge_eq_iff (ht : (keys target).Nodup) (hs : (keys source).Nodup) :
    merge target source = result ↔ Merges target source result := by
  have hm := merges_merge target hs
  constructor
  · rintro rfl
    exact hm
  · intro hr
    refine eq_of_get?_eq (hm.keys_eq.trans hr.keys_eq.symm) (nodup_keys_merge ht source) ?_
    intro key
    by_cases hk : key ∈ keys source
    · rw [hm.get?_source key hk, hr.get?_source key hk]
    · rw [hm.get?_target key hk, hr.get?_target key hk]

/-! ## Splitting -/

/-- What splitting entries by a list of keys has to give. -/
structure Splits (es : Entries α) (ks : List String) (taken rest : Entries α) : Prop where
  /-- The first half has the listed keys that there are. -/
  mem_keys_taken : ∀ key, key ∈ keys taken ↔ key ∈ keys es ∧ key ∈ ks
  /-- The second half has the other keys. -/
  mem_keys_rest : ∀ key, key ∈ keys rest ↔ key ∈ keys es ∧ key ∉ ks
  /-- No key is in both halves. -/
  disjoint : (keys taken).Disjoint (keys rest)
  /-- The entries of the first half are entries of the whole, in the same order. -/
  taken_sublist : taken.Sublist es
  /-- The entries of the second half are entries of the whole, in the same order. -/
  rest_sublist : rest.Sublist es

theorem mem_keys_filter {p : String → Bool} {key : String} :
    key ∈ keys (es.filter fun e => p e.1) ↔ key ∈ keys es ∧ p key = true := by
  simp only [keys, List.mem_map, List.mem_filter]
  constructor
  · rintro ⟨e, ⟨he, hp⟩, rfl⟩
    exact ⟨⟨e, he, rfl⟩, hp⟩
  · rintro ⟨⟨e, he, rfl⟩, hp⟩
    exact ⟨e, ⟨he, hp⟩, rfl⟩

/-- Under distinct keys, some of the entries in their order are told by their keys. -/
theorem eq_filter_of_sublist {p : String → Bool} (hn : (keys es).Nodup) (hs : taken.Sublist es)
    (hk : ∀ key ∈ keys es, key ∈ keys taken ↔ p key = true) :
    taken = es.filter fun e => p e.1 := by
  induction hs with
  | slnil => rfl
  | @cons taken es e hs ih =>
    rw [keys_cons, List.nodup_cons] at hn
    -- The entry is left out, and no entry with its key is taken instead.
    have he : e.1 ∉ keys taken := fun h => hn.1 ((hs.map Prod.fst).subset h)
    have hp : ¬p e.1 = true := mt (hk e.1 List.mem_cons_self).2 he
    rw [List.filter_cons, if_neg hp]
    exact ih hn.2 fun key h => hk key (List.mem_cons_of_mem _ h)
  | @cons_cons taken es e hs ih =>
    rw [keys_cons, List.nodup_cons] at hn
    have hp : p e.1 = true := (hk e.1 List.mem_cons_self).1 List.mem_cons_self
    rw [List.filter_cons, if_pos hp]
    refine congrArg _ (ih hn.2 fun key h => ?_)
    have hne : key ≠ e.1 := fun heq => hn.1 (heq ▸ h)
    rw [← hk key (List.mem_cons_of_mem _ h), keys_cons, List.mem_cons, or_iff_right hne]

theorem splits_splitKeys (es : Entries α) (ks : List String) :
    Splits es ks (splitKeys es ks).1 (splitKeys es ks).2 := by
  have ht (key : String) : key ∈ keys (splitKeys es ks).1 ↔ key ∈ keys es ∧ key ∈ ks := by
    rw [splitKeys_eq, mem_keys_filter (p := ks.contains), List.contains_iff_mem]
  have hr (key : String) : key ∈ keys (splitKeys es ks).2 ↔ key ∈ keys es ∧ key ∉ ks := by
    rw [splitKeys_eq, mem_keys_filter (p := fun k => !ks.contains k)]
    simp
  exact
    { mem_keys_taken := ht
      mem_keys_rest := hr
      disjoint := fun key h h' => ((hr key).1 h').2 ((ht key).1 h).2
      taken_sublist := sublist_splitKeys_fst es ks
      rest_sublist := sublist_splitKeys_snd es ks }

/-- **Splitting gives what it has to give, and nothing else does.** -/
theorem splitKeys_eq_iff (hn : (keys es).Nodup) :
    splitKeys es ks = (taken, rest) ↔ Splits es ks taken rest := by
  constructor
  · intro h
    have hs := splits_splitKeys es ks
    rw [h] at hs
    exact hs
  · intro h
    have ht : taken = es.filter fun e => ks.contains e.1 := by
      refine eq_filter_of_sublist hn h.taken_sublist fun key hk => ?_
      rw [h.mem_keys_taken, List.contains_iff_mem, and_iff_right hk]
    have hr : rest = es.filter fun e => !ks.contains e.1 := by
      refine eq_filter_of_sublist (p := fun k => !ks.contains k) hn h.rest_sublist fun key hk => ?_
      rw [h.mem_keys_rest, and_iff_right hk]
      simp
    rw [splitKeys_eq, ht, hr]

/-- Goes through the entries and writes each one into the first or the second half. -/
def distribute (es : Entries α) (ks : List String) (halves : Entries α × Entries α) :
    Entries α × Entries α :=
  es.foldl
    (fun (taken, rest) (k, v) =>
      if ks.contains k then (insert taken k v, rest) else (taken, insert rest k v))
    halves

theorem distribute_eq (es : Entries α) (ks : List String) (taken rest : Entries α) :
    distribute es ks (taken, rest) =
      (merge taken (splitKeys es ks).1, merge rest (splitKeys es ks).2) := by
  rw [splitKeys_eq]
  induction es generalizing taken rest with
  | nil => rfl
  | cons e es ih =>
    rw [distribute, List.foldl_cons, List.filter_cons, List.filter_cons]
    by_cases he : ks.contains e.1 = true
    · simp only [he, Bool.not_true, if_true, Bool.false_eq_true, if_false]
      exact ih ..
    · simp only [he, Bool.not_false, if_true, Bool.false_eq_true, if_false]
      exact ih ..

/-- Splitting can be done entry by entry. -/
theorem distribute_nil (hn : (keys es).Nodup) : distribute es ks ([], []) = splitKeys es ks := by
  have ht := (sublist_splitKeys_fst es ks).map Prod.fst |>.nodup hn
  have hr := (sublist_splitKeys_snd es ks).map Prod.fst |>.nodup hn
  rw [distribute_eq]
  exact Prod.ext (ofList_of_nodup ht) (ofList_of_nodup hr)

namespace Splits

theorem perm (h : Splits es ks taken rest) (hn : (keys es).Nodup) : (taken ++ rest).Perm es := by
  obtain ⟨rfl, rfl⟩ := Prod.mk.inj ((splitKeys_eq es ks).symm.trans ((splitKeys_eq_iff hn).2 h))
  exact List.filter_append_perm _ es

theorem merge_perm (h : Splits es ks taken rest) (hn : (keys es).Nodup) :
    (merge taken rest).Perm es := by
  rw [merge_of_disjoint ((h.rest_sublist.map _).nodup hn) fun key hr ht => h.disjoint ht hr]
  exact h.perm hn

theorem merge_flip_perm (h : Splits es ks taken rest) (hn : (keys es).Nodup) :
    (merge rest taken).Perm es := by
  rw [merge_of_disjoint ((h.taken_sublist.map _).nodup hn) fun key ht hr => h.disjoint ht hr]
  exact List.perm_append_comm.trans (h.perm hn)

end Splits

/-! ## Objects -/

/-- Objects with the same entries are equal, whichever the order. -/
theorem mapping_beq_of_perm {es fs : Object} (h : (Node.mapping es).distinctKeys = true)
    (hp : fs.Perm es) : (Node.mapping fs == .mapping es) = true := by
  have hr : (Node.mapping es).Reordered (.mapping fs) :=
    Node.reordered_mapping.2 (.of_perm hp.symm)
  exact Node.beq_of_reordered ((Node.Below.of_distinct h).of_reordered hr) hr.symm

/-- **Splitting by keys is an exact partition.** The halves of an object are its entries under the
listed keys and those under the others, in its order, and so they are when the entries are put into
them one by one. Either half merged into the other gives an object equal to the whole.

Merging one object into another gives what has the values of the source under its keys, those of the
target elsewhere, and the new keys behind those of the target. -/
theorem splitKeys_exact {es : Object} (h : (Node.mapping es).distinctKeys = true)
    (ks : List String) :
    (∀ taken rest, splitKeys es ks = (taken, rest) ↔ Splits es ks taken rest) ∧
      distribute es ks ([], []) = splitKeys es ks ∧
      (∀ taken rest, splitKeys es ks = (taken, rest) →
        (Node.mapping (merge taken rest) == .mapping es) = true ∧
          (Node.mapping (merge rest taken) == .mapping es) = true) ∧
      ∀ target source result : Object, (keys target).Nodup → (keys source).Nodup →
        (merge target source = result ↔ Merges target source result) := by
  have hn : (keys es).Nodup := (Node.distinctKeys_mapping.1 h).1
  refine ⟨fun taken rest => splitKeys_eq_iff hn, distribute_nil hn, fun taken rest hs => ?_,
    fun target source result => merge_eq_iff⟩
  have hs : Splits es ks taken rest := (splitKeys_eq_iff hn).1 hs
  constructor
  · exact mapping_beq_of_perm h (hs.merge_perm hn)
  · exact mapping_beq_of_perm h (hs.merge_flip_perm hn)

/-- A call with arguments, a condition and a key of its own. -/
def greeting : Object :=
  [("call", .string "greet"), ("if", .string "${ .x }"),
    ("with", .mapping [("name", .string "ada"), ("tags", .sequence [.null])]), ("x-note", .null)]

theorem splitKeys_exact_greeting :
    (Node.mapping greeting).distinctKeys = true ∧
      let taken : Object :=
        [("call", .string "greet"),
          ("with", .mapping [("name", .string "ada"), ("tags", .sequence [.null])])]
      let rest : Object := [("if", .string "${ .x }"), ("x-note", .null)]
      Splits greeting ["with", "for", "call", "with"] taken rest ∧
        (Node.mapping (merge taken rest) == .mapping greeting) = true ∧
        (Node.mapping (merge rest taken) == .mapping greeting) = true ∧
        Merges [("x-note", .bool true), ("then", .string "end")] greeting
          (("x-note", .null) :: ("then", .string "end") :: greeting.take 3) := by
  have h : (Node.mapping greeting).distinctKeys = true := by decide
  obtain ⟨hs, -, hm, hg⟩ := splitKeys_exact h ["with", "for", "call", "with"]
  obtain ⟨h1, h2⟩ := hm _ _ rfl
  exact ⟨h, (hs _ _).1 rfl, h1, h2, (hg _ _ _ (by decide) (by decide)).1 rfl⟩

end Entries

end WorkflowDsl
