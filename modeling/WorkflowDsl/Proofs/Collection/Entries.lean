import Mathlib.Data.List.Nodup
import Mathlib.Data.List.Perm.Subperm
import WorkflowDsl.Collection.NamedMap
import WorkflowDsl.Collection.OrderedMap

/-!
# Entries under distinct keys

`Entries.merge` is the only operation that puts entries together. On a source whose keys are
distinct and new it appends (`merge_of_disjoint`), so merging is append wherever the keys of the two
sides are known to be apart; whatever its source, it keeps the keys of the target distinct
(`nodup_keys_merge`). Looking up a key in one half of `splitKeys` finds what the whole has under the
listed, or the unlisted, keys.

Taking a key out with `swapErase` permutes the others (`swapErase_perm`). Equality of ordered maps
does not see that, as it compares them key by key (`OrderedMap.beq_iff`).
-/

namespace WorkflowDsl

namespace Entries

variable {α : Type}

@[simp] theorem keys_nil : keys ([] : Entries α) = [] := rfl

@[simp] theorem keys_cons (e : String × α) (es : Entries α) : keys (e :: es) = e.1 :: keys es := rfl

@[simp] theorem keys_append (es fs : Entries α) : keys (es ++ fs) = keys es ++ keys fs := by
  simp [keys]

theorem mem_keys_of_mem {e : String × α} {es : Entries α} (h : e ∈ es) : e.1 ∈ keys es :=
  List.mem_map_of_mem h

/-! ## Looking up -/

theorem get?_cons (e : String × α) (es : Entries α) (key : String) :
    get? (e :: es) key = if e.1 = key then some e.2 else get? es key := by
  obtain ⟨k, a⟩ := e
  rw [get?, List.lookup_cons]
  by_cases h : k = key
  · simp [h]
  · have h' : (key == k) = false := by simpa using Ne.symm h
    rw [h', if_neg h]
    rfl

theorem get?_eq_none_iff {es : Entries α} {key : String} : get? es key = none ↔ key ∉ keys es := by
  induction es with
  | nil => simp [get?]
  | cons e es ih =>
    rw [get?_cons, keys_cons, List.mem_cons, not_or]
    by_cases h : e.1 = key
    · simp [h]
    · simp [h, ih, Ne.symm h]

theorem get?_append (es fs : Entries α) (key : String) :
    get? (es ++ fs) key = (get? es key).or (get? fs key) := List.lookup_append

theorem get?_append_of_not_mem_left {es : Entries α} (fs : Entries α) {key : String}
    (h : key ∉ keys es) : get? (es ++ fs) key = get? fs key := by
  rw [get?_append, get?_eq_none_iff.2 h, Option.none_or]

theorem get?_append_of_not_mem_right (es : Entries α) {fs : Entries α} {key : String}
    (h : key ∉ keys fs) : get? (es ++ fs) key = get? es key := by
  rw [get?_append, get?_eq_none_iff.2 h, Option.or_none]

theorem mem_of_get? {es : Entries α} {key : String} {a : α} (h : get? es key = some a) :
    (key, a) ∈ es := by
  induction es with
  | nil => simp [get?] at h
  | cons e es ih =>
    rw [get?_cons] at h
    split at h
    · next hk =>
      obtain rfl := Option.some.inj h
      subst hk
      exact List.mem_cons_self
    · exact List.mem_cons_of_mem _ (ih h)

/-- Under distinct keys an entry is found by its key. -/
theorem get?_of_mem {es : Entries α} (hn : (keys es).Nodup) {key : String} {a : α}
    (h : (key, a) ∈ es) : get? es key = some a := by
  induction es with
  | nil => cases h
  | cons e es ih =>
    rw [keys_cons, List.nodup_cons] at hn
    rw [get?_cons]
    rcases List.mem_cons.1 h with rfl | h
    · simp
    · have hne : e.1 ≠ key := by
        rintro rfl
        exact hn.1 (List.mem_map.2 ⟨_, h, rfl⟩)
      rw [if_neg hne]
      exact ih hn.2 h

/-- Entries under the same distinct keys are equal when the values under each key are. -/
theorem eq_of_get?_eq {es fs : Entries α} (hk : keys es = keys fs) (hn : (keys es).Nodup)
    (h : ∀ key, get? es key = get? fs key) : es = fs := by
  induction es generalizing fs with
  | nil => exact (List.map_eq_nil_iff.1 hk.symm).symm
  | cons e es ih =>
    obtain ⟨key, a⟩ := e
    obtain _ | ⟨⟨key', b⟩, fs⟩ := fs
    · cases hk
    · obtain ⟨rfl, ht⟩ : key = key' ∧ keys es = keys fs := List.cons.inj hk
      have hv := h key
      rw [get?_cons, get?_cons, if_pos rfl, if_pos rfl] at hv
      obtain rfl := Option.some.inj hv
      rw [keys_cons, List.nodup_cons] at hn
      refine congrArg _ (ih ht hn.2 fun k => ?_)
      by_cases hkey : key = k
      · subst hkey
        rw [get?_eq_none_iff.2 hn.1, get?_eq_none_iff.2 (ht ▸ hn.1)]
      · have hr := h k
        rwa [get?_cons, get?_cons, if_neg hkey, if_neg hkey] at hr

theorem hasKey_iff {es : Entries α} {key : String} : hasKey es key = true ↔ key ∈ keys es := by
  rw [hasKey, Option.isSome_iff_ne_none, ne_eq]
  show ¬get? es key = none ↔ _
  rw [get?_eq_none_iff, not_not]

/-! ## Inserting and merging -/

theorem insert_of_not_mem {es : Entries α} {key : String} (h : key ∉ keys es) (a : α) :
    insert es key a = es ++ [(key, a)] := by
  induction es with
  | nil => rfl
  | cons e es ih =>
    rw [keys_cons, List.mem_cons, not_or] at h
    have hne : (e.1 == key) = false := by simpa using Ne.symm h.1
    rw [insert, if_neg (by simp [hne]), ih h.2]
    rfl

theorem keys_insert_of_mem {es : Entries α} {key : String} (h : key ∈ keys es) (a : α) :
    keys (insert es key a) = keys es := by
  induction es with
  | nil => cases h
  | cons e es ih =>
    rw [insert]
    split
    · rfl
    · next hne =>
      rcases List.mem_cons.1 h with rfl | h
      · simp at hne
      · rw [keys_cons, keys_cons, ih h]

theorem keys_insert (es : Entries α) (key : String) (a : α) :
    keys (insert es key a) = if key ∈ keys es then keys es else keys es ++ [key] := by
  split
  · next h => exact keys_insert_of_mem h a
  · next h => rw [insert_of_not_mem h, keys_append, keys_cons, keys_nil]

theorem get?_insert_self (es : Entries α) (key : String) (a : α) :
    get? (insert es key a) key = some a := by
  induction es with
  | nil => simp [insert, get?]
  | cons e es ih =>
    rw [insert]
    split
    · next h => rw [get?_cons, if_pos (by simpa using h)]
    · next h => rw [get?_cons, if_neg (by simpa using h), ih]

theorem get?_insert_of_ne {es : Entries α} {key k : String} (h : key ≠ k) (a : α) :
    get? (insert es key a) k = get? es k := by
  induction es with
  | nil => rw [insert, get?_cons, if_neg h]
  | cons e es ih =>
    rw [insert]
    split
    · next hk =>
      have hk : e.1 = key := by simpa using hk
      have hne : e.1 ≠ k := hk ▸ h
      rw [get?_cons, get?_cons, if_neg hne, if_neg hne]
    · rw [get?_cons, get?_cons, ih]

theorem nodup_keys_insert {es : Entries α} (h : (keys es).Nodup) (key : String) (a : α) :
    (keys (insert es key a)).Nodup := by
  rw [keys_insert]
  split
  · exact h
  · next hk =>
    rw [← List.concat_eq_append]
    exact h.concat hk

theorem mem_insert {es : Entries α} {key : String} {a : α} {e : String × α}
    (h : e ∈ insert es key a) : e ∈ es ∨ e = (key, a) := by
  induction es with
  | nil => simpa [insert] using h
  | cons f es ih =>
    rw [insert] at h
    split at h
    · next hk =>
      rcases List.mem_cons.1 h with rfl | h
      · exact .inr (by simpa using hk)
      · exact .inl (List.mem_cons_of_mem _ h)
    · rcases List.mem_cons.1 h with rfl | h
      · exact .inl List.mem_cons_self
      · exact (ih h).imp_left (List.mem_cons_of_mem _)

theorem exchange_eq (es : Entries α) (key : String) (a : α) :
    exchange es key a = (get? es key, insert es key a) := by
  induction es with
  | nil => rfl
  | cons e es ih =>
    rw [get?_cons, exchange, insert]
    by_cases h : e.1 = key
    · rw [if_pos h, if_pos (beq_iff_eq.2 h), if_pos (beq_iff_eq.2 h)]
    · rw [if_neg h, if_neg (mt beq_iff_eq.1 h), if_neg (mt beq_iff_eq.1 h), ih]

@[simp] theorem merge_nil (es : Entries α) : merge es [] = es := rfl

@[simp] theorem merge_cons (es : Entries α) (e : String × α) (source : Entries α) :
    merge es (e :: source) = merge (insert es e.1 e.2) source := rfl

theorem nodup_keys_merge {es : Entries α} (h : (keys es).Nodup) (source : Entries α) :
    (keys (merge es source)).Nodup := by
  induction source generalizing es with
  | nil => exact h
  | cons e source ih => exact ih (nodup_keys_insert h _ _)

theorem mem_merge {source es : Entries α} {e : String × α} (h : e ∈ merge es source) :
    e ∈ es ∨ e ∈ source := by
  induction source generalizing es with
  | nil => exact .inl h
  | cons f source ih =>
    rcases ih h with h | h
    · exact (mem_insert h).imp_right (by rintro rfl; exact List.mem_cons_self)
    · exact .inr (List.mem_cons_of_mem _ h)

/-- Entries under new and distinct keys are appended. -/
theorem merge_of_disjoint {es source : Entries α} (hn : (keys source).Nodup)
    (hd : ∀ key ∈ keys source, key ∉ keys es) : merge es source = es ++ source := by
  induction source generalizing es with
  | nil => simp
  | cons e source ih =>
    rw [keys_cons, List.nodup_cons] at hn
    have he : e.1 ∉ keys es := hd _ List.mem_cons_self
    rw [merge_cons, insert_of_not_mem he, ih hn.2]
    · simp
    · intro key hk
      rw [keys_append, List.mem_append, not_or]
      refine ⟨hd _ (List.mem_cons_of_mem _ hk), ?_⟩
      have hne : key ≠ e.1 := fun h => hn.1 (h ▸ hk)
      simpa using hne

theorem nodup_keys_ofList (es : List (String × α)) : (keys (ofList es)).Nodup := by
  have h : (keys ([] : Entries α)).Nodup := List.nodup_nil
  exact nodup_keys_merge h es

theorem mem_ofList {es : List (String × α)} {e : String × α} (h : e ∈ ofList es) : e ∈ es :=
  (mem_merge h).resolve_left (by simp)

theorem ofList_of_nodup {es : List (String × α)} (h : (keys es).Nodup) : ofList es = es :=
  (merge_of_disjoint h (by simp)).trans (List.nil_append _)

theorem keys_mapValues {β : Type} (f : α → β) (es : Entries α) :
    keys (mapValues f es) = keys es := by
  simp [keys, mapValues]

theorem insert_mapValues {β : Type} (f : α → β) (es : Entries α) (key : String) (a : α) :
    mapValues f (insert es key a) = insert (mapValues f es) key (f a) := by
  induction es with
  | nil => rfl
  | cons e es ih =>
    show mapValues f (if e.1 == key then (e.1, a) :: es else e :: insert es key a) =
      if e.1 == key then (e.1, f a) :: mapValues f es
      else (e.1, f e.2) :: insert (mapValues f es) key (f a)
    split
    · rfl
    · rw [← ih]
      rfl

theorem merge_mapValues {β : Type} (f : α → β) (es source : Entries α) :
    mapValues f (merge es source) = merge (mapValues f es) (mapValues f source) := by
  induction source generalizing es with
  | nil => rfl
  | cons e source ih =>
    show mapValues f (merge (insert es e.1 e.2) source) = _
    rw [ih, insert_mapValues]
    rfl

theorem ofList_mapValues {β : Type} (f : α → β) (es : List (String × α)) :
    mapValues f (ofList es) = ofList (mapValues f es) := merge_mapValues f [] es

/-! ## Overwriting -/

theorem keys_overwrite (es : Entries α) (values : List α) :
    keys (overwrite es values) = keys es := by
  induction es generalizing values with
  | nil => cases values <;> rfl
  | cons e es ih =>
    cases values with
    | nil => rfl
    | cons a values => rw [overwrite, keys_cons, keys_cons, ih]

theorem keys_zip_prefix (ks : List String) (values : List α) : keys (ks.zip values) <+: ks := by
  induction ks generalizing values with
  | nil => exact List.prefix_refl _
  | cons key ks ih =>
    cases values with
    | nil => exact List.nil_prefix
    | cons a values => exact (List.prefix_cons_inj key).2 (ih values)

/-- Under a key stands the value that is written to its place, if there is one. -/
theorem get?_overwrite {es : Entries α} (hn : (keys es).Nodup) (values : List α) (key : String) :
    get? (overwrite es values) key = (get? ((keys es).zip values) key).or (get? es key) := by
  induction es generalizing values with
  | nil => cases values <;> rfl
  | cons e es ih =>
    cases values with
    | nil => rfl
    | cons a values =>
      rw [keys_cons, List.nodup_cons] at hn
      rw [overwrite, keys_cons, List.zip_cons_cons, get?_cons, get?_cons, get?_cons, ih hn.2]
      by_cases h : e.1 = key
      · rw [if_pos h, if_pos h, Option.some_or]
      · rw [if_neg h, if_neg h, if_neg h]

/-! ## Places -/

/-- Under distinct keys the place of a key is where its entry stands. -/
theorem position?_eq_some_iff {es : Entries α} (hn : (keys es).Nodup) {key : String} {i : Nat} :
    position? es key = some i ↔ ∃ a, es[i]? = some (key, a) := by
  induction es generalizing i with
  | nil => simp [position?]
  | cons e es ih =>
    rw [keys_cons, List.nodup_cons] at hn
    rw [position?, List.findIdx?_cons]
    by_cases h : e.1 = key
    · subst h
      rw [if_pos (beq_self_eq_true _)]
      cases i with
      | zero => exact iff_of_true rfl ⟨e.2, rfl⟩
      | succ i =>
        refine iff_of_false (by simp) ?_
        rintro ⟨a, ha⟩
        rw [List.getElem?_cons_succ] at ha
        exact hn.1 (mem_keys_of_mem (e := (e.1, a)) (List.mem_of_getElem? ha))
    · rw [if_neg (mt beq_iff_eq.1 h)]
      cases i with
      | zero =>
        refine iff_of_false (by simp) ?_
        rintro ⟨a, ha⟩
        exact h (congrArg Prod.fst (Option.some.inj ha))
      | succ i =>
        rw [List.getElem?_cons_succ, ← ih hn.2, position?]
        simp

/-! ## Splitting -/

theorem splitKeys_eq (es : Entries α) (ks : List String) :
    splitKeys es ks =
      (es.filter fun e => ks.contains e.1, es.filter fun e => !ks.contains e.1) := by
  rw [splitKeys, List.partition_eq_filter_filter]
  rfl

theorem get?_filter {p : String → Bool} (es : Entries α) {key : String} (h : p key = true) :
    get? (es.filter fun e => p e.1) key = get? es key := by
  induction es with
  | nil => rfl
  | cons e es ih =>
    rw [get?_cons, List.filter_cons]
    by_cases hk : e.1 = key
    · subst hk
      rw [if_pos h, get?_cons, if_pos rfl, if_pos rfl]
    · rw [if_neg hk]
      split
      · rw [get?_cons, if_neg hk, ih]
      · exact ih

theorem get?_splitKeys_fst (es : Entries α) {ks : List String} {key : String} (h : key ∈ ks) :
    get? (splitKeys es ks).1 key = get? es key := by
  rw [splitKeys_eq]
  exact get?_filter (p := fun k => ks.contains k) es (by simpa using h)

theorem get?_splitKeys_snd (es : Entries α) {ks : List String} {key : String} (h : key ∉ ks) :
    get? (splitKeys es ks).2 key = get? es key := by
  rw [splitKeys_eq]
  exact get?_filter (p := fun k => !ks.contains k) es (by simpa using h)

theorem mem_splitKeys_fst {es : Entries α} {ks : List String} {e : String × α} :
    e ∈ (splitKeys es ks).1 ↔ e ∈ es ∧ e.1 ∈ ks := by
  rw [splitKeys_eq, List.mem_filter, List.contains_iff_mem]

theorem mem_splitKeys_snd {es : Entries α} {ks : List String} {e : String × α} :
    e ∈ (splitKeys es ks).2 ↔ e ∈ es ∧ e.1 ∉ ks := by
  rw [splitKeys_eq, List.mem_filter]
  simp

theorem mem_keys_splitKeys_snd {es : Entries α} {ks : List String} {key : String}
    (h : key ∈ keys (splitKeys es ks).2) : key ∈ keys es ∧ key ∉ ks := by
  obtain ⟨e, he, rfl⟩ := List.mem_map.1 h
  have hm := mem_splitKeys_snd.1 he
  exact ⟨mem_keys_of_mem hm.1, hm.2⟩

/-- Entries under listed keys are told apart from those behind them under other keys. -/
theorem splitKeys_append {es fs : Entries α} {ks : List String} (he : ∀ key ∈ keys es, key ∈ ks)
    (hf : ∀ key ∈ keys fs, key ∉ ks) : splitKeys (es ++ fs) ks = (es, fs) := by
  have he' : ∀ e ∈ es, e.1 ∈ ks := fun e h => he _ (mem_keys_of_mem h)
  have hf' : ∀ e ∈ fs, e.1 ∉ ks := fun e h => hf _ (mem_keys_of_mem h)
  rw [splitKeys_eq, List.filter_append, List.filter_append]
  refine Prod.ext ?_ ?_
  · show es.filter _ ++ fs.filter _ = es
    rw [List.filter_eq_self.2 fun e h => by simpa using he' e h,
      List.filter_eq_nil_iff.2 fun e h => by simpa using hf' e h, List.append_nil]
  · show es.filter _ ++ fs.filter _ = fs
    rw [List.filter_eq_nil_iff.2 fun e h => by simpa using he' e h,
      List.filter_eq_self.2 fun e h => by simpa using hf' e h, List.nil_append]

/-- Entries under listed keys are taken out from between others. -/
theorem splitKeys_between {es fs gs : Entries α} {ks : List String}
    (he : ∀ key ∈ keys es, key ∉ ks) (hf : ∀ key ∈ keys fs, key ∈ ks)
    (hg : ∀ key ∈ keys gs, key ∉ ks) : splitKeys (es ++ fs ++ gs) ks = (fs, es ++ gs) := by
  have h1 := congrArg Prod.fst (splitKeys_append hf hg)
  have h2 := congrArg Prod.snd (splitKeys_append hf hg)
  have h3 : splitKeys ([] ++ es) ks = ([], es) := splitKeys_append nofun he
  rw [splitKeys_eq] at h1 h2 h3 ⊢
  simp only [List.nil_append, Prod.mk.injEq] at h1 h2 h3
  rw [List.append_assoc, List.filter_append, List.filter_append es, h1, h2, h3.1, h3.2,
    List.nil_append]

theorem sublist_splitKeys_fst (es : Entries α) (ks : List String) :
    (splitKeys es ks).1.Sublist es := by
  rw [splitKeys_eq]
  exact List.filter_sublist

theorem sublist_splitKeys_snd (es : Entries α) (ks : List String) :
    (splitKeys es ks).2.Sublist es := by
  rw [splitKeys_eq]
  exact List.filter_sublist

theorem nodup_keys_filter {es : Entries α} (h : (keys es).Nodup) (p : String × α → Bool) :
    (keys (es.filter p)).Nodup :=
  (List.filter_sublist.map _).nodup h

/-! ## Order -/

/-- What stands under a key does not depend on the order of the entries. -/
theorem get?_perm {es fs : Entries α} (h : es.Perm fs) (hn : (keys es).Nodup) (key : String) :
    get? es key = get? fs key := by
  cases hf : get? fs key with
  | some a => exact get?_of_mem hn (h.mem_iff.2 (mem_of_get? hf))
  | none =>
    rw [get?_eq_none_iff] at hf ⊢
    exact fun hm => hf ((h.map _).mem_iff.1 hm)

theorem splitKeys_perm {es fs : Entries α} (h : es.Perm fs) (ks : List String) :
    (splitKeys es ks).2.Perm (splitKeys fs ks).2 := by
  rw [splitKeys_eq, splitKeys_eq]
  exact h.filter _

theorem filter_ne_of_not_mem {es : Entries α} {key : String} (h : key ∉ keys es) :
    (es.filter fun e => e.1 != key) = es := by
  refine List.filter_eq_self.2 fun e he => ?_
  rw [bne_iff_ne]
  rintro rfl
  exact h (mem_keys_of_mem he)

theorem findIdx?_append_cons {es fs : Entries α} {e : String × α} (h : e.1 ∉ keys es) :
    (es ++ e :: fs).findIdx? (·.1 == e.1) = some es.length := by
  have hes : es.findIdx? (·.1 == e.1) = none := by
    rw [List.findIdx?_eq_none_iff]
    intro f hf
    rw [beq_eq_false_iff_ne]
    intro hk
    exact h (hk ▸ mem_keys_of_mem hf)
  rw [List.findIdx?_append, hes, List.findIdx?_cons, if_pos (beq_self_eq_true _)]
  simp

/-- The last entry is taken out. -/
theorem swapErase_concat {es : Entries α} {e : String × α} (h : e.1 ∉ keys es) :
    swapErase (es ++ [e]) e.1 = es := by
  rw [swapErase, findIdx?_append_cons h]
  simp

/-- An entry that is taken out gives its place to the last one. -/
theorem swapErase_append_cons {es fs : Entries α} {e l : String × α} (h : e.1 ∉ keys es) :
    swapErase (es ++ e :: (fs ++ [l])) e.1 = es ++ l :: fs := by
  have hl : (es ++ e :: (fs ++ [l])).getLast? = some l := by
    rw [← List.cons_append, ← List.append_assoc, List.getLast?_concat]
  have hd : (es ++ e :: (fs ++ [l])).dropLast = es ++ e :: fs := by
    rw [← List.cons_append, ← List.append_assoc, List.dropLast_concat]
  rw [swapErase, findIdx?_append_cons h, hl]
  simp [hd]

/-- Taking an entry out leaves the others. -/
theorem swapErase_perm {es : Entries α} (hn : (keys es).Nodup) (key : String) :
    (swapErase es key).Perm (es.filter fun e => e.1 != key) := by
  by_cases h : key ∈ keys es
  · obtain ⟨e, he, rfl⟩ := List.mem_map.1 h
    obtain ⟨fs, gs, rfl⟩ := List.append_of_mem he
    rw [keys_append, keys_cons, List.nodup_append', List.nodup_cons] at hn
    obtain ⟨-, ⟨hg, -⟩, hd⟩ := hn
    have hf : e.1 ∉ keys fs := fun hm => hd hm List.mem_cons_self
    rw [List.filter_append, List.filter_cons_of_neg (by simp), filter_ne_of_not_mem hf,
      filter_ne_of_not_mem hg]
    rcases List.eq_nil_or_concat' gs with rfl | ⟨gs, l, rfl⟩
    · rw [swapErase_concat hf, List.append_nil]
    · rw [swapErase_append_cons hf]
      exact List.Perm.append_left _ (List.perm_append_singleton l gs).symm
  · have hi : es.findIdx? (·.1 == key) = none := by
      rw [List.findIdx?_eq_none_iff]
      intro e he
      rw [beq_eq_false_iff_ne]
      rintro rfl
      exact h (mem_keys_of_mem he)
    rw [swapErase, hi, filter_ne_of_not_mem h]

theorem get?_swapErase_of_ne {es : Entries α} (hn : (keys es).Nodup) {key k : String}
    (h : key ≠ k) : get? (es.swapErase key) k = get? es k := by
  have hf := nodup_keys_filter hn fun e => e.1 != key
  rw [← get?_perm (swapErase_perm hn key).symm hf]
  exact get?_filter (p := fun k => k != key) es (by simpa using Ne.symm h)

theorem not_mem_keys_swapErase {es : Entries α} (hn : (keys es).Nodup) (key : String) :
    key ∉ keys (es.swapErase key) := by
  intro hm
  obtain ⟨e, he, hk⟩ := List.mem_map.1 hm
  simpa [hk] using (List.mem_filter.1 ((swapErase_perm hn key).mem_iff.1 he)).2

end Entries

/-! ## Ordered maps -/

namespace OrderedMap

variable {α : Type} [BEq α] {m n : OrderedMap α}

/-- Equal maps are of one size, and have equal values under each key. -/
theorem beq_iff :
    (m == n) = true ↔
      m.size = n.size ∧ ∀ e ∈ m.entries, ∃ a, n.get? e.1 = some a ∧ (e.2 == a) = true := by
  show (m.size == n.size && m.entries.all fun e => (n.get? e.1).any (e.2 == ·)) = true ↔ _
  simp only [Bool.and_eq_true, beq_iff_eq, List.all_eq_true, Option.any_eq_true_iff_get]
  refine and_congr Iff.rfl (forall₂_congr fun e _ => ?_)
  cases n.get? e.1 <;> simp

/-- Equal maps have the same keys. -/
theorem keys_perm_of_beq (h : (m == n) = true) (hm : m.keys.Nodup) : m.keys.Perm n.keys := by
  obtain ⟨hs, he⟩ := beq_iff.1 h
  have hsub : m.keys ⊆ n.keys := by
    intro key hk
    obtain ⟨e, hm, rfl⟩ := List.mem_map.1 hk
    obtain ⟨a, ha, -⟩ := he e hm
    exact Entries.mem_keys_of_mem (e := (e.1, a)) (Entries.mem_of_get? ha)
  refine (hm.subperm hsub).perm_of_length_le ?_
  show (n.entries.map _).length ≤ (m.entries.map _).length
  rw [List.length_map, List.length_map]
  exact Nat.le_of_eq hs.symm

end OrderedMap

/-! ## Named maps -/

namespace NamedMap

variable {α β : Type}

theorem names_map (f : α → β) (m : NamedMap α) : (m.map f).names = m.names :=
  Entries.keys_mapValues f m.entries

theorem values_map (f : α → β) (m : NamedMap α) : (m.map f).values = m.values.map f := by
  simp [values, map, Entries.values, Entries.mapValues]

theorem size_map (f : α → β) (m : NamedMap α) : (m.map f).size = m.size := by
  simp [size, map, Entries.mapValues]

theorem isEmpty_map (f : α → β) (m : NamedMap α) : (m.map f).isEmpty = m.isEmpty := by
  simp [isEmpty, map, Entries.mapValues]

theorem map_map {γ : Type} (g : β → γ) (f : α → β) (m : NamedMap α) :
    (m.map f).map g = m.map fun a => g (f a) := by
  simp [map, Entries.mapValues]

end NamedMap

end WorkflowDsl
