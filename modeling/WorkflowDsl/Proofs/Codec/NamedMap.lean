import Mathlib.Data.Finset.Card
import WorkflowDsl.Proofs.Codec.Exact

/-!
# What a named map goes through

The place of a name in a named map and the value under it follow different rules: the place is that
of the first insertion, the value is the last one that was written. So a map is compared with its
`History`, in which the insertions of names and the writing of values are kept apart, and nothing is
replaced. Every change keeps the two in step (`NamedMap.Follows.apply`), and so does every run of
changes (`NamedMap.follows_afterAll`).

Reading is a run of insertions too, so what is read is as good as what was put together by hand
(`NamedMap.afterAll_ordered`).
-/

namespace WorkflowDsl

namespace NamedMap

variable {α : Type}

/-! ## Changes -/

/-- A change of a named map. -/
inductive Edit (α : Type) where
  /-- A value is inserted under a name. -/
  | insert (name : String) (value : α)
  /-- A value is written over the one under a name. Nothing happens when the name is not known. -/
  | assign (name : String) (value : α)
  /-- Values are written over those of the map, from the first place on. -/
  | overwrite (values : List α)
  /-- The map is replaced by the one that is collected from entries. -/
  | collect (es : List (String × α))

def Edit.apply (m : NamedMap α) : Edit α → NamedMap α
  | .insert name value => (m.exchange name value).2
  | .assign name value => m.set name value
  | .overwrite values => m.overwrite values
  | .collect es => .ofList es

/-- The map that comes out of changes to the empty map. -/
def afterAll (edits : List (Edit α)) : NamedMap α := edits.foldl Edit.apply {}

/-- What happened to a map since it was put together: the names that were inserted, and the values
that were written, each with its name. -/
structure History (α : Type) where
  inserted : List String := []
  written : List (String × α) := []

/-- The value that was written last under a name. -/
def History.lastWritten? (h : History α) (name : String) : Option α :=
  Entries.get? h.written.reverse name

/-- One more change. What is written over the values of the map goes to its names one by one, in the
order of their first insertion. -/
def History.add (h : History α) : Edit α → History α
  | .insert name value => ⟨h.inserted ++ [name], h.written ++ [(name, value)]⟩
  | .assign name value =>
    if name ∈ h.inserted then { h with written := h.written ++ [(name, value)] } else h
  | .overwrite values => { h with written := h.written ++ h.inserted.eraseDups.zip values }
  | .collect es => ⟨Entries.keys es, es⟩

def History.ofEdits (edits : List (Edit α)) : History α := edits.foldl History.add {}

theorem History.lastWritten?_append (h : History α) (inserted : List String)
    (values : List (String × α)) (name : String) :
    lastWritten? ⟨inserted, h.written ++ values⟩ name =
      (Entries.get? values.reverse name).or (h.lastWritten? name) := by
  unfold lastWritten?
  rw [List.reverse_append, Entries.get?_append]

theorem exchange_eq (m : NamedMap α) (name : String) (value : α) :
    m.exchange name value = (m.get? name, m.insert name value) := by
  simp only [exchange, Entries.exchange_eq]
  rfl

theorem names_insert (m : NamedMap α) (name : String) (value : α) :
    (m.insert name value).names = if name ∈ m.names then m.names else m.names ++ [name] :=
  Entries.keys_insert m.entries name value

theorem get?_insert (m : NamedMap α) (name : String) (value : α) (k : String) :
    (m.insert name value).get? k = (Entries.get? [(name, value)] k).or (m.get? k) := by
  rw [Entries.get?_cons]
  by_cases hk : name = k
  · subst hk
    rw [if_pos rfl]
    exact Entries.get?_insert_self m.entries name value
  · rw [if_neg hk]
    exact Entries.get?_insert_of_ne hk value

/-- Of names that are told one after another, the last is new or was told before. -/
theorem eraseDups_concat (ks : List String) (name : String) :
    (ks ++ [name]).eraseDups = if name ∈ ks then ks.eraseDups else ks.eraseDups ++ [name] := by
  rw [List.eraseDups_append]
  by_cases h : name ∈ ks
  · simp [List.removeAll, h]
  · simp [List.removeAll, List.eraseDups_cons, h]

/-! ## Maps and histories in step -/

/-- **A map is what its history makes of it.** It has the names that were inserted, each once and in
the order of the first insertion, and under each name the value that was written last. -/
structure Follows (m : NamedMap α) (h : History α) : Prop where
  nodup : m.names.Nodup
  names_eq : m.names = h.inserted.eraseDups
  get?_eq : ∀ name, m.get? name = h.lastWritten? name

namespace Follows

variable {m : NamedMap α} {h : History α}

theorem empty : Follows ({} : NamedMap α) {} where
  nodup := List.nodup_nil
  names_eq := rfl
  get?_eq _ := rfl

theorem mem_names_iff (hf : Follows m h) (name : String) : name ∈ m.names ↔ name ∈ h.inserted := by
  rw [hf.names_eq, List.mem_eraseDups]

theorem contains_iff (hf : Follows m h) (name : String) :
    m.contains name = true ↔ name ∈ h.inserted :=
  Entries.hasKey_iff.trans (hf.mem_names_iff name)

/-- Values written over those under known names. -/
theorem write {n : NamedMap α} {values : List (String × α)} (hf : Follows m h)
    (hn : n.names = m.names)
    (hg : ∀ name, n.get? name = (Entries.get? values.reverse name).or (m.get? name)) :
    Follows n { h with written := h.written ++ values } where
  nodup := hn ▸ hf.nodup
  names_eq := hn.trans hf.names_eq
  get?_eq name := by
    rw [h.lastWritten?_append, hg, hf.get?_eq]

theorem insert (hf : Follows m h) (name : String) (value : α) :
    Follows (m.insert name value) ⟨h.inserted ++ [name], h.written ++ [(name, value)]⟩ where
  nodup := Entries.nodup_keys_insert hf.nodup name value
  names_eq := by
    rw [names_insert, eraseDups_concat, hf.names_eq]
    simp only [List.mem_eraseDups]
  get?_eq k := by
    rw [h.lastWritten?_append, get?_insert, hf.get?_eq]
    rfl

theorem set (hf : Follows m h) (name : String) (value : α) :
    Follows (m.set name value) (h.add (.assign name value)) := by
  rw [NamedMap.set, History.add]
  by_cases hm : name ∈ h.inserted
  · rw [if_pos ((hf.contains_iff name).2 hm), if_pos hm]
    apply hf.write
    · exact Entries.keys_insert_of_mem ((hf.mem_names_iff name).2 hm) value
    · exact get?_insert m name value
  · rw [if_neg (mt (hf.contains_iff name).1 hm), if_neg hm]
    exact hf

theorem overwrite (hf : Follows m h) (values : List α) :
    Follows (m.overwrite values) (h.add (.overwrite values)) := by
  unfold History.add
  rw [← hf.names_eq]
  apply hf.write
  · exact Entries.keys_overwrite m.entries values
  · intro name
    -- No name occurs twice among those that are written to, so it does not matter which comes first.
    have hz : (Entries.keys (m.names.zip values)).Nodup :=
      (Entries.keys_zip_prefix m.names values).sublist.nodup hf.nodup
    rw [← Entries.get?_perm (List.reverse_perm _).symm hz]
    exact Entries.get?_overwrite hf.nodup values name

theorem merge (hf : Follows m h) (es : List (String × α)) :
    Follows ⟨Entries.merge m.entries es⟩ ⟨h.inserted ++ Entries.keys es, h.written ++ es⟩ := by
  induction es generalizing m h with
  | nil =>
    simp only [Entries.merge_nil, Entries.keys_nil, List.append_nil]
    exact hf
  | cons e es ih =>
    have hi := ih (hf.insert e.1 e.2)
    simp only [List.append_assoc, List.singleton_append] at hi
    exact hi

/-- A change keeps a map and its history in step. -/
theorem apply (hf : Follows m h) (edit : Edit α) : Follows (edit.apply m) (h.add edit) := by
  cases edit with
  | insert name value =>
    rw [Edit.apply, exchange_eq]
    exact hf.insert name value
  | assign name value => exact hf.set name value
  | overwrite values => exact hf.overwrite values
  | collect es => exact Follows.empty.merge es

theorem size_eq (hf : Follows m h) : m.size = h.inserted.toFinset.card := by
  have hs : m.names.toFinset = h.inserted.toFinset := by
    ext name
    rw [List.mem_toFinset, List.mem_toFinset, hf.mem_names_iff]
  rw [← hs, List.toFinset_card_of_nodup hf.nodup]
  exact (List.length_map _).symm

end Follows

/-- Any run of changes keeps a map and its history in step. -/
theorem follows_afterAll (edits : List (Edit α)) :
    Follows (afterAll edits) (History.ofEdits edits) := by
  induction edits using List.reverseRecOn with
  | nil => exact .empty
  | append_singleton edits edit ih =>
    unfold afterAll History.ofEdits
    rw [List.foldl_concat, List.foldl_concat]
    exact ih.apply edit

/-! ## Reading -/

theorem merge_eq_foldl (m : NamedMap α) (es : List (String × α)) :
    (⟨Entries.merge m.entries es⟩ : NamedMap α) =
      (es.map fun e => Edit.insert e.1 e.2).foldl Edit.apply m := by
  induction es generalizing m with
  | nil => rfl
  | cons e es ih =>
    have hi := ih (m.insert e.1 e.2)
    rw [List.map_cons, List.foldl_cons, Edit.apply, exchange_eq]
    exact hi

theorem ofList_eq_afterAll (es : List (String × α)) :
    NamedMap.ofList es = afterAll (es.map fun e => Edit.insert e.1 e.2) :=
  merge_eq_foldl {} es

/-- **What is read is what comes out of inserting the items in order**, when each of them is a
mapping with one entry. -/
theorem read_eq_ok_iff {c : Codec α} {n : Node} {m : NamedMap α} :
    (Codec.namedMap c).read n = .ok m ↔
      ∃ (items : List Node) (es : List (String × α)), n = .sequence items ∧
        List.Forall₂ (fun item e => ∃ v, item = .mapping [(e.1, v)] ∧ c.read v = .ok e.2)
          items es ∧
        m = afterAll (es.map fun e => .insert e.1 e.2) := by
  constructor
  · intro h
    cases n with
    | sequence items =>
      obtain ⟨es, hes, rfl⟩ := Codec.namedMap_read_sequence.1 h
      exact ⟨items, es, rfl, hes.imp fun _ _ => Codec.readNamed_eq_ok.1, ofList_eq_afterAll es⟩
    | _ => cases h
  · rintro ⟨items, es, rfl, hes, rfl⟩
    refine Codec.namedMap_read_sequence.2 ⟨es, ?_, ofList_eq_afterAll es⟩
    exact hes.imp fun _ _ => Codec.readNamed_eq_ok.2

section

variable [BEq α] {m n : NamedMap α}

/-- Under distinct names, what is read back is equal when the values are read back as equal ones. -/
theorem exists_readsBack_beq_iff {c : Codec α} (hn : m.names.Nodup) :
    (∃ m', (Codec.namedMap c).ReadsBack m m' ∧ (m == m') = true) ↔
      ∀ value ∈ m.values, ∃ value', c.ReadsBack value value' ∧ (value == value') = true := by
  constructor
  · rintro ⟨m', hr, he⟩ value hv
    obtain ⟨es, hes, rfl⟩ := Codec.namedMap_readsBack_iff.1 hr
    have hb : Entries.Matching (fun a b => (a == b) = true) m.entries (Entries.ofList es) :=
      beq_iff.1 he
    rw [hes.ofList_eq hn] at hb
    obtain ⟨e, hm, rfl⟩ := List.mem_map.1 hv
    obtain ⟨f, hf, hf'⟩ := forall₂_exists_back hes hb.flip hm
    exact ⟨f.2, hf.2, hf'.2⟩
  · intro h
    have hv : ∀ e ∈ m.entries, ∃ f : String × α,
        e.1 = f.1 ∧ c.ReadsBack e.2 f.2 ∧ (e.2 == f.2) = true := by
      intro e he
      obtain ⟨value', hr, hb⟩ := h e.2 (List.mem_map_of_mem he)
      exact ⟨(e.1, value'), rfl, hr, hb⟩
    obtain ⟨es, hes⟩ := exists_forall₂ hv
    have hr : Entries.Matching c.ReadsBack m.entries es := hes.imp fun _ _ he => ⟨he.1, he.2.1⟩
    have hb : Entries.Matching (fun a b => (a == b) = true) m.entries (Entries.ofList es) := by
      rw [hr.ofList_eq hn]
      exact hes.imp fun _ _ he => ⟨he.1, he.2.2⟩
    exact ⟨.ofList es, Codec.namedMap_readsBack_iff.2 ⟨es, hr, rfl⟩, beq_iff.2 hb⟩

/-- **A named map is ordered, and its names are distinct.** After any changes to the empty map its
names are those that were inserted, in the order of the first insertion, and under each stands what
was written last, which is also what an insertion gives back. Where a name stands is told both ways.

A tree is read as a map when it is a sequence of mappings with one entry each whose value can be
read, and then as the map that comes of inserting these. What comes out of changes is read back as
an equal map where each of its values is read back as an equal value; and maps are equal that have
the same names over equal values, one by one. -/
theorem afterAll_ordered (c : Codec α) (edits : List (Edit α)) :
    let m := afterAll edits
    let h := History.ofEdits edits
    (m.names.Nodup ∧ m.names = h.inserted.eraseDups ∧ m.size = h.inserted.toFinset.card) ∧
      (∀ name, m.get? name = h.lastWritten? name) ∧
      (∀ name value,
        m.exchange name value = (h.lastWritten? name, afterAll (edits ++ [.insert name value]))) ∧
      (∀ name i, m.position? name = some i ↔ ∃ value, m.getIndex? i = some (name, value)) ∧
      (∀ n m', (Codec.namedMap c).read n = .ok m' ↔
        ∃ (items : List Node) (es : List (String × α)), n = .sequence items ∧
          List.Forall₂ (fun item e => ∃ v, item = .mapping [(e.1, v)] ∧ c.read v = .ok e.2)
            items es ∧
          m' = afterAll (es.map fun e => .insert e.1 e.2)) ∧
      ((∃ m', (Codec.namedMap c).ReadsBack m m' ∧ (m == m') = true) ↔
        ∀ value ∈ m.values, ∃ value', c.ReadsBack value value' ∧ (value == value') = true) ∧
      ∀ m', (m == m') = true ↔
        List.Forall₂ (fun e f => e.1 = f.1 ∧ (e.2 == f.2) = true) m.entries m'.entries := by
  intro m h
  have hf : Follows m h := follows_afterAll edits
  refine ⟨⟨hf.nodup, hf.names_eq, hf.size_eq⟩, hf.get?_eq, fun name value => ?_,
    fun name i => Entries.position?_eq_some_iff hf.nodup, fun n m' => read_eq_ok_iff,
    exists_readsBack_beq_iff hf.nodup, fun m' => beq_iff⟩
  rw [exchange_eq, hf.get?_eq, afterAll, List.foldl_concat, Edit.apply, exchange_eq]
  rfl

/-- A name that is inserted again keeps its place, and values are written over by their places. -/
example :
    (afterAll [.insert "b" 1, .insert "a" 2, .insert "b" 3, .assign "c" 4]).entries =
        [("b", 3), ("a", 2)] ∧
      (afterAll [.collect [("b", 1), ("a", 2), ("b", 3)], .overwrite [5]]).entries =
        [("b", 5), ("a", 2)] := by decide

end

end NamedMap

end WorkflowDsl
