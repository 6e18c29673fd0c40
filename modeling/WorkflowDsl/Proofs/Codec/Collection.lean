import Mathlib.Data.List.Forall2
import WorkflowDsl.Codec.Collection
import WorkflowDsl.Proofs.Codec.Record

/-!
# Lists, maps and unions read back

A list or a map reads back its values one by one, a named map moreover needs distinct names
(`namedMap_keeps_iff`): of a name that occurs twice only one value is read. A value of a union
is read back from the alternative it was written by when the first alternative reads nothing that
the second writes (`Codec.Apart`).
-/

namespace WorkflowDsl

/-- Converting items one after another converts each of them. -/
theorem mapM_eq_ok {ε α β : Type} {f : α → Except ε β} {as : List α} {bs : List β} :
    as.mapM f = .ok bs ↔ List.Forall₂ (fun a b => f a = .ok b) as bs := by
  induction as generalizing bs with
  | nil =>
    rw [List.mapM_nil, List.forall₂_nil_left_iff]
    exact ⟨fun h => (Except.ok.inj h).symm, fun h => congrArg Except.ok h.symm⟩
  | cons a as ih =>
    rw [List.mapM_cons, except_bind_eq_ok, List.forall₂_cons_left_iff]
    constructor
    · rintro ⟨b, hb, h⟩
      obtain ⟨bs', hbs, h⟩ := except_bind_eq_ok.1 h
      exact ⟨b, bs', hb, ih.1 hbs, (Except.ok.inj h).symm⟩
    · rintro ⟨b, bs', hb, hbs, rfl⟩
      exact ⟨b, hb, except_bind_eq_ok.2 ⟨bs', ih.2 hbs, rfl⟩⟩

theorem mapM_congr_of_mem {ε α β : Type} {f g : α → Except ε β} {as : List α}
    (h : ∀ a ∈ as, f a = g a) : as.mapM f = as.mapM g := by
  induction as with
  | nil => rfl
  | cons a as ih =>
    rw [List.forall_mem_cons] at h
    rw [List.mapM_cons, List.mapM_cons, h.1, ih h.2]

theorem forall₂_exists_left {α β : Type} {r : α → β → Prop} {as : List α} {bs : List β}
    (h : List.Forall₂ r as bs) {b : β} (hb : b ∈ bs) : ∃ a ∈ as, r a b := by
  induction h with
  | nil => cases hb
  | cons hr _ ih =>
    rcases List.mem_cons.1 hb with rfl | hb
    · exact ⟨_, List.mem_cons_self, hr⟩
    · obtain ⟨a, ha, hr⟩ := ih hb
      exact ⟨a, List.mem_cons_of_mem _ ha, hr⟩

theorem forall₂_comp {α β γ : Type} {r : α → β → Prop} {s : β → γ → Prop} {as : List α}
    {bs : List β} {cs : List γ} (h : List.Forall₂ r as bs) (h' : List.Forall₂ s bs cs) :
    List.Forall₂ (fun a c => ∃ b, r a b ∧ s b c) as cs := by
  induction h generalizing cs with
  | nil =>
    cases h'
    exact .nil
  | cons hr _ ih =>
    cases h' with
    | cons hs h' => exact .cons ⟨_, hr, hs⟩ (ih h')

theorem exists_forall₂ {α β : Type} {r : α → β → Prop} {as : List α} (h : ∀ a ∈ as, ∃ b, r a b) :
    ∃ bs, List.Forall₂ r as bs := by
  induction as with
  | nil => exact ⟨[], .nil⟩
  | cons a as ih =>
    rw [List.forall_mem_cons] at h
    obtain ⟨⟨b, hb⟩, h⟩ := h
    obtain ⟨bs, hbs⟩ := ih h
    exact ⟨b :: bs, .cons hb hbs⟩

namespace Entries

variable {α β : Type} {r : α → β → Prop} {es : Entries α} {fs : Entries β}

/-- The same keys in the same order, over values that are related. -/
def Matching (r : α → β → Prop) (es : Entries α) (fs : Entries β) : Prop :=
  List.Forall₂ (fun e f => e.1 = f.1 ∧ r e.2 f.2) es fs

theorem Matching.keys_eq (h : Matching r es fs) : keys es = keys fs := by
  induction h with
  | nil => rfl
  | cons he _ ih => rw [keys_cons, keys_cons, he.1, ih]

theorem matching_self {r : α → α → Prop} : Matching r es es ↔ ∀ e ∈ es, r e.2 e.2 := by
  rw [Matching, List.forall₂_same]
  simp only [true_and]

/-- Where one side has distinct keys, inserting the entries of the other gives them back. -/
theorem Matching.ofList_eq (h : Matching r es fs) (hn : (keys es).Nodup) : ofList fs = fs := by
  refine ofList_of_nodup ?_
  rw [← h.keys_eq]
  exact hn

end Entries

/-- Equality of named maps is that of names and values, one by one. -/
theorem NamedMap.beq_iff {α : Type} [BEq α] {m n : NamedMap α} :
    (m == n) = true ↔ Entries.Matching (fun a b => (a == b) = true) m.entries n.entries := by
  obtain ⟨es⟩ := m
  obtain ⟨fs⟩ := n
  show (es == fs) = true ↔ List.Forall₂ _ es fs
  induction es generalizing fs with
  | nil => cases fs <;> simp
  | cons e es ih =>
    cases fs with
    | nil => simp
    | cons f fs =>
      rw [List.forall₂_cons, ← ih, List.cons_beq_cons, Bool.and_eq_true]
      show ((e.1 == f.1 && e.2 == f.2) = true ∧ _) ↔ _
      rw [Bool.and_eq_true, beq_iff_eq]

namespace Field

variable {α : Type}

instance : SkipsOnly (OrderedMap.isEmpty : OrderedMap α → Bool) {} :=
  ⟨fun ⟨_⟩ => List.isEmpty_iff.trans ⟨congrArg _, congrArg OrderedMap.entries⟩⟩

instance : SkipsOnly (NamedMap.isEmpty : NamedMap α → Bool) {} :=
  ⟨fun ⟨_⟩ => List.isEmpty_iff.trans ⟨congrArg _, congrArg NamedMap.entries⟩⟩

end Field

namespace Codec

variable {α β : Type} {c : Codec α} {d : Nat}

/-! ## Lists -/

theorem list_read_sequence {items : List Node} {as : List α} :
    (list c).read (.sequence items) = .ok as ↔
      List.Forall₂ (fun n a => c.read n = .ok a) items as := mapM_eq_ok

theorem list_readsBack_iff {as bs : List α} :
    (list c).ReadsBack as bs ↔ List.Forall₂ c.ReadsBack as bs :=
  list_read_sequence.trans List.forall₂_map_left_iff

theorem list_keeps_iff {as : List α} : (list c).Keeps as ↔ ∀ a ∈ as, c.Keeps a :=
  list_readsBack_iff.trans List.forall₂_same

instance [c.Keeping] : Lossless (list c) where
  keeps _ := list_keeps_iff.2 fun a _ => c.keeps a
  write_ne_null _ := nofun

instance [h : c.StableBelow d] : StableBelow d (list c) where
  keeps_of_read {n as} hn hr := by
    cases n with
    | sequence items =>
      refine list_keeps_iff.2 fun a ha => ?_
      obtain ⟨n, hm, hr⟩ := forall₂_exists_left (list_read_sequence.1 hr) ha
      exact h.keeps_of_read ((hn.mono (Nat.le_succ d)).of_mem_sequence hm) hr
    | _ => cases hr
  null_of_write _ _ h := nomatch h

/-! ## Maps -/

theorem readEntries_eq_ok {es : Object} {as : Entries α} :
    readEntries c es = .ok as ↔ Entries.Matching (fun n a => c.read n = .ok a) es as := by
  rw [Entries.Matching]
  induction es generalizing as with
  | nil =>
    rw [readEntries, List.forall₂_nil_left_iff]
    exact ⟨fun h => (Except.ok.inj h).symm, fun h => congrArg Except.ok h.symm⟩
  | cons e es ih =>
    obtain ⟨key, n⟩ := e
    rw [readEntries, except_bind_eq_ok, List.forall₂_cons_left_iff]
    constructor
    · rintro ⟨a, ha, h⟩
      obtain ⟨as', has, h⟩ := except_bind_eq_ok.1 h
      exact ⟨(key, a), as', ⟨rfl, ha⟩, ih.1 has, (Except.ok.inj h).symm⟩
    · rintro ⟨⟨_, a⟩, as', ⟨rfl, ha⟩, has, rfl⟩
      exact ⟨a, ha, except_bind_eq_ok.2 ⟨as', ih.2 has, rfl⟩⟩

theorem map_read_mapping {es : Object} {m : OrderedMap α} :
    (map c).read (.mapping es) = .ok m ↔
      Entries.Matching (fun n a => c.read n = .ok a) es m.entries := by
  rw [← readEntries_eq_ok]
  refine except_map_eq_ok.trans ⟨?_, fun h => ⟨_, h, rfl⟩⟩
  rintro ⟨_, h, rfl⟩
  exact h

/-- A map that is read from a tree with distinct keys has distinct keys. -/
theorem nodup_keys_of_map_read {n : Node} {m : OrderedMap α} (hn : n.Below d)
    (h : (map c).read n = .ok m) : m.keys.Nodup := by
  cases n with
  | mapping es =>
    rw [OrderedMap.keys, ← (map_read_mapping.1 h).keys_eq]
    exact hn.nodup_keys
  | _ => cases h

theorem map_readsBack_iff {m m' : OrderedMap α} :
    (map c).ReadsBack m m' ↔ Entries.Matching c.ReadsBack m.entries m'.entries :=
  map_read_mapping.trans List.forall₂_map_left_iff

theorem map_keeps_iff {m : OrderedMap α} : (map c).Keeps m ↔ ∀ e ∈ m.entries, c.Keeps e.2 :=
  map_readsBack_iff.trans Entries.matching_self

instance [c.Keeping] : Lossless (map c) where
  keeps _ := map_keeps_iff.2 fun e _ => c.keeps e.2
  write_ne_null _ := nofun

instance [h : c.StableBelow d] : StableBelow d (map c) where
  keeps_of_read {n m} hn hr := by
    cases n with
    | mapping es =>
      refine map_keeps_iff.2 fun e he => ?_
      obtain ⟨e', hm, -, hr⟩ := forall₂_exists_left (map_read_mapping.1 hr) he
      exact h.keeps_of_read ((hn.mono (Nat.le_succ d)).of_mem_mapping hm) hr
    | _ => cases hr
  null_of_write _ _ h := nomatch h

instance : Lossless object := inferInstanceAs (Lossless ((map node).named _))

/-! ## Named maps -/

theorem readNamed_eq_ok {n : Node} {e : String × α} :
    readNamed c n = .ok e ↔ ∃ v, n = .mapping [(e.1, v)] ∧ c.read v = .ok e.2 := by
  constructor
  · intro h
    match n, h with
    | .mapping ((name, v) :: rest), h =>
      obtain ⟨a, ha, h⟩ := except_bind_eq_ok.1 h
      cases rest with
      | nil =>
        obtain rfl := Except.ok.inj h
        exact ⟨v, rfl, ha⟩
      | cons => cases h
  · rintro ⟨v, rfl, h⟩
    rw [readNamed, h]
    rfl

theorem namedMap_read_sequence {items : List Node} {m : NamedMap α} :
    (namedMap c).read (.sequence items) = .ok m ↔
      ∃ es, List.Forall₂ (fun n e => readNamed c n = .ok e) items es ∧ NamedMap.ofList es = m := by
  refine except_map_eq_ok.trans ?_
  simp only [mapM_eq_ok]

theorem namedMap_readsBack_iff {m m' : NamedMap α} :
    (namedMap c).ReadsBack m m' ↔
      ∃ es, Entries.Matching c.ReadsBack m.entries es ∧ NamedMap.ofList es = m' := by
  refine namedMap_read_sequence.trans (exists_congr fun es => and_congr_left fun _ => ?_)
  rw [List.forall₂_map_left_iff, Entries.Matching]
  have h (e f : String × α) :
      readNamed c (.mapping [(e.1, c.write e.2)]) = .ok f ↔ e.1 = f.1 ∧ c.ReadsBack e.2 f.2 := by
    rw [readNamed_eq_ok]
    constructor
    · rintro ⟨v, hv, hr⟩
      obtain ⟨⟨hk, rfl⟩, -⟩ : (e.1 = f.1 ∧ c.write e.2 = v) ∧ True := by simpa using hv
      exact ⟨hk, hr⟩
    · rintro ⟨hk, hr⟩
      exact ⟨_, by rw [hk], hr⟩
  simp only [h]

/-- **A named map is kept exactly when its names are distinct and its values are kept.** -/
theorem namedMap_keeps_iff {m : NamedMap α} :
    (namedMap c).Keeps m ↔ m.names.Nodup ∧ ∀ e ∈ m.entries, c.Keeps e.2 := by
  refine namedMap_readsBack_iff.trans ?_
  constructor
  · rintro ⟨es, hes, rfl⟩
    have hn := Entries.nodup_keys_ofList es
    have hs : Entries.ofList es = es := hes.ofList_eq hn
    refine ⟨hn, Entries.matching_self.1 ?_⟩
    show Entries.Matching _ (Entries.ofList es) (Entries.ofList es)
    nth_rewrite 2 [hs]
    exact hes
  · rintro ⟨hn, hk⟩
    exact ⟨m.entries, Entries.matching_self.2 hk, congrArg NamedMap.mk (Entries.ofList_of_nodup hn)⟩

instance [h : c.StableBelow d] : StableBelow d (namedMap c) where
  keeps_of_read {n m} hn hr := by
    cases n with
    | sequence items =>
      obtain ⟨es, hes, rfl⟩ := namedMap_read_sequence.1 hr
      refine namedMap_keeps_iff.2 ⟨Entries.nodup_keys_ofList es, fun e he => ?_⟩
      obtain ⟨n, hm, hr⟩ := forall₂_exists_left hes (Entries.mem_ofList he)
      obtain ⟨v, rfl, hv⟩ := readNamed_eq_ok.1 hr
      have hi := ((hn.mono (Nat.le_succ d)).of_mem_sequence hm).mono (Nat.le_succ d)
      exact h.keeps_of_read (hi.of_mem_mapping List.mem_cons_self) hv
    | _ => cases hr
  null_of_write _ _ h := nomatch h

theorem AgreeBelow.namedMap {c c' : Codec α} (h : AgreeBelow d c c') :
    AgreeBelow d (namedMap c) (namedMap c') := by
  intro n hn
  cases n with
  | sequence items =>
    have hi : ∀ n ∈ items, readNamed c n = readNamed c' n := by
      intro n hm
      have hd := Nat.lt_trans (Node.depth_lt_of_mem_sequence hm) hn
      match n, hd with
      | .mapping ((name, v) :: rest), hd =>
        have hv : v.depth < d :=
          Nat.lt_trans (Node.depth_lt_of_mem_mapping (e := (name, v)) List.mem_cons_self) hd
        rw [readNamed, readNamed, h v hv]
      | .mapping [], _ | .null, _ | .bool _, _ | .number _, _ | .string _, _ | .sequence _, _ => rfl
    show (items.mapM (readNamed c)).map _ = (items.mapM (readNamed c')).map _
    rw [mapM_congr_of_mem hi]
  | _ => rfl

/-! ## Unions -/

/-- The first alternative reads nothing that the second writes. -/
class Apart (a : Codec α) (b : Codec β) : Prop where
  read_write_ne_ok : ∀ x y, a.read (b.write y) ≠ .ok x

/-- Scalars are not read as values of the type. -/
class ReadsNoScalar (c : Codec α) : Prop where
  kind_ne_scalar : ∀ {n x}, c.read n = .ok x → n.kind ≠ .scalar

instance [ReadsNoScalar c] : Apart c string := ⟨fun _ _ h => ReadsNoScalar.kind_ne_scalar h rfl⟩

instance [ReadsNoScalar c] : Apart c bool := ⟨fun _ _ h => ReadsNoScalar.kind_ne_scalar h rfl⟩

instance : Apart float string := ⟨fun _ _ => nofun⟩

instance : Apart uint32 string := ⟨fun _ _ => nofun⟩

instance : ReadsNoScalar (list c) where
  kind_ne_scalar {n x} h := by
    cases n with
    | sequence => nofun
    | _ => cases h

instance : ReadsNoScalar (map c) where
  kind_ne_scalar {n x} h := by
    cases n with
    | mapping => nofun
    | _ => cases h

instance (name : String) [h : ReadsNoScalar c] : ReadsNoScalar (c.named name) :=
  ⟨h.kind_ne_scalar⟩

theorem ReadsNoScalar.record {ρ γ : Type} {name : String} {make : γ} {fields : Fields ρ ρ γ} :
    ReadsNoScalar (record name make fields) where
  kind_ne_scalar {n x} h := by
    cases n with
    | mapping | sequence => nofun
    | _ => cases h

instance : ReadsNoScalar object := inferInstanceAs (ReadsNoScalar ((map node).named _))

section OneOf

variable {a : Codec α} {b : Codec β} {n : Node} {x : α} {y : β}

theorem oneOf_read_first : (oneOf a b).read n = .ok (.first x) ↔ a.read n = .ok x := by
  refine ofDefinition_read_eq_ok.trans ?_
  rw [OneOf.ofNode]
  cases a.read n with
  | ok => simp
  | error => cases b.read n <;> simp

theorem oneOf_read_second :
    (oneOf a b).read n = .ok (.second y) ↔ (∀ x, a.read n ≠ .ok x) ∧ b.read n = .ok y := by
  refine ofDefinition_read_eq_ok.trans ?_
  rw [OneOf.ofNode]
  cases a.read n with
  | ok => simp
  | error => cases b.read n <;> simp

theorem oneOf_keeps_first : (oneOf a b).Keeps (.first x) ↔ a.Keeps x := oneOf_read_first

theorem oneOf_keeps_second [h : Apart a b] : (oneOf a b).Keeps (.second y) ↔ b.Keeps y :=
  oneOf_read_second.trans ⟨And.right, fun hy => ⟨fun x => h.read_write_ne_ok x y, hy⟩⟩

instance [a.Lossless] [b.Lossless] [Apart a b] : Lossless (oneOf a b) where
  keeps
    | .first x => oneOf_keeps_first.2 (a.keeps x)
    | .second y => oneOf_keeps_second.2 (b.keeps y)
  write_ne_null
    | .first x => Lossless.write_ne_null (c := a) x
    | .second y => Lossless.write_ne_null (c := b) y

instance [ha : a.StableBelow d] [hb : b.StableBelow d] [Apart a b] : StableBelow d (oneOf a b) where
  keeps_of_read {n z} hn hr := by
    cases z with
    | first x => exact oneOf_keeps_first.2 (ha.keeps_of_read hn (oneOf_read_first.1 hr))
    | second y => exact oneOf_keeps_second.2 (hb.keeps_of_read hn (oneOf_read_second.1 hr).2)
  null_of_write {n z} hn hr hw := by
    cases z with
    | first x => exact ha.null_of_write hn (oneOf_read_first.1 hr) hw
    | second y => exact hb.null_of_write hn (oneOf_read_second.1 hr).2 hw

end OneOf

end Codec

end WorkflowDsl
