import WorkflowDsl.Proofs.Codec.Collection
import WorkflowDsl.Proofs.Codec.Keyed
import WorkflowDsl.Proofs.Document.Reordering

/-!
# Reading without regard to order

A codec ignores the order of keys when trees that differ only in it are read as equal values, or
neither is read (`Codec.IgnoresOrderBelow`, `read_isOk_iff`). Lists, maps and unions do when their
parts do, and a record does when its fields do and its equality is that of its fields
(`IgnoresOrderBelow.record`, `IgnoresOrderBelow.openRecord`).
-/

namespace WorkflowDsl

/-- The value equals itself. -/
class SelfEqual {α : Type} [BEq α] (a : α) : Prop where
  beq_self : (a == a) = true

section

variable {α : Type} [BEq α]

instance [LawfulBEq α] (a : α) : SelfEqual a := ⟨beq_self_eq_true a⟩

instance : SelfEqual ([] : List α) := ⟨rfl⟩

instance : SelfEqual ({} : OrderedMap α) := ⟨rfl⟩

instance : SelfEqual ({} : NamedMap α) := ⟨rfl⟩

theorem list_beq_of_forall₂ {as bs : List α} (h : List.Forall₂ (fun a b => (a == b) = true) as bs) :
    (as == bs) = true := by
  induction h with
  | nil => rfl
  | cons ha _ ih => exact Bool.and_eq_true_iff.2 ⟨ha, ih⟩

end

/-- Where related items have partners that are related, related lists have a list of partners. -/
theorem forall₂_transfer {α β γ δ : Type} {r : α → β → Prop} {s : α → γ → Prop}
    {t : γ → δ → Prop} {u : β → δ → Prop} {as : List α} {bs : List β} {cs : List γ}
    (hr : List.Forall₂ r as bs) (hs : List.Forall₂ s as cs)
    (h : ∀ a ∈ as, ∀ {b c}, r a b → s a c → ∃ e, t c e ∧ u b e) :
    ∃ es, List.Forall₂ t cs es ∧ List.Forall₂ u bs es := by
  induction hr generalizing cs with
  | nil =>
    obtain rfl := List.forall₂_nil_left_iff.1 hs
    exact ⟨[], .nil, .nil⟩
  | cons hab _ ih =>
    obtain ⟨c, cs, hac, hcs, rfl⟩ := List.forall₂_cons_left_iff.1 hs
    rw [List.forall_mem_cons] at h
    obtain ⟨e, hce, hbe⟩ := h.1 hab hac
    obtain ⟨es, hces, hbes⟩ := ih hcs h.2
    exact ⟨e :: es, .cons hce hces, .cons hbe hbes⟩

/-! ## Maps with equal values -/

namespace Entries

variable {α β : Type} {r : α → β → Prop} {es : Entries α} {fs : Entries β}

theorem Matching.insert (h : Matching r es fs) (key : String) {a : α} {b : β} (hr : r a b) :
    Matching r (es.insert key a) (fs.insert key b) := by
  induction h with
  | nil => exact .cons ⟨rfl, hr⟩ .nil
  | @cons e f es fs he hm ih =>
    rw [Entries.insert, Entries.insert, he.1]
    split
    · exact .cons ⟨rfl, hr⟩ hm
    · exact .cons ⟨rfl, he.2⟩ ih

theorem Matching.merge {gs : Entries α} {hs : Entries β} (h : Matching r gs hs)
    (hm : Matching r es fs) : Matching r (es.merge gs) (fs.merge hs) := by
  induction h generalizing es fs with
  | nil => exact hm
  | @cons e f gs hs he _ ih =>
    rw [merge_cons, merge_cons, he.1]
    exact ih (hm.insert _ he.2)

end Entries

/-- Maps are equal when the one comes of the other by changing values for equal ones and moving
entries. -/
theorem OrderedMap.beq_of_matching {α : Type} [BEq α] {es fs gs : Entries α}
    (hm : Entries.Matching (fun a b => (a == b) = true) es gs) (hp : gs.Perm fs)
    (hn : es.keys.Nodup) : (OrderedMap.mk es == OrderedMap.mk fs) = true := by
  refine OrderedMap.beq_iff.2 ⟨hm.length_eq.trans hp.length_eq, fun e he => ?_⟩
  obtain ⟨f, hf, hk, hb⟩ := forall₂_exists_left hm.flip he
  have hn' : (Entries.keys fs).Nodup := by
    rw [hm.keys_eq] at hn
    exact (hp.map _).nodup_iff.1 hn
  refine ⟨f.2, Entries.get?_of_mem hn' ?_, hb⟩
  rw [hk]
  exact hp.mem_iff.1 hf

theorem OrderedMap.beq_of_reordered {es fs : Object} {d : Nat}
    (hn : (Node.mapping es).Below (d + 1)) (h : es.Reordered fs) :
    (OrderedMap.mk es == OrderedMap.mk fs) = true := by
  obtain ⟨gs, hm, hp⟩ := h
  have hd : ∀ e ∈ es, e.2.Below d := fun e he => hn.of_mem_mapping he
  have hm := (List.forall₂_and_left _ _).2 ⟨hd, hm⟩
  refine OrderedMap.beq_of_matching (hm.imp ?_) hp hn.nodup_keys
  exact fun _ _ ⟨hd, hk, hr⟩ => ⟨hk, Node.beq_of_reordered hd hr⟩

/-! ## Kinds -/

namespace Entries.Reordered

variable {es fs : Object} (h : es.Reordered fs)
include h

/-- The kind of a mapping is told by its keys, in any order. -/
theorem singleKind_eq_ok {family key : String} {candidates : List String}
    (hk : es.singleKind family candidates = .ok key) :
    fs.singleKind family candidates = .ok key := by
  rw [Entries.singleKind_eq_ok, presentKeys] at hk ⊢
  rw [← hk]
  exact List.filter_congr fun k _ => (h.hasKey_eq k).symm

/-- What stands under a key, or null. -/
theorem getD_get? (hn : es.keys.Nodup) (key : String) :
    ((es.get? key).getD .null).Reordered ((fs.get? key).getD .null) := by
  have hg := h.get?_rel hn key
  generalize es.get? key = x at hg ⊢
  generalize fs.get? key = y at hg ⊢
  cases hg with
  | some hr => exact hr
  | none => exact trivial

end Entries.Reordered

/-- What stands under a key of a mapping, or null, is one level below. -/
theorem Node.Below.getD_get? {es : Object} {d : Nat} (h : (Node.mapping es).Below (d + 1))
    (key : String) : ((Entries.get? es key).getD .null).Below d := by
  cases hg : Entries.get? es key with
  | some n => exact h.of_mem_mapping (Entries.mem_of_get? hg)
  | none => exact ⟨rfl, Nat.lt_of_le_of_lt (Nat.zero_le _) (Nat.lt_of_succ_lt_succ h.depth_lt)⟩

/-! ## Codecs -/

namespace Codec

variable {α β : Type} [BEq α] [BEq β] {c : Codec α} {d : Nat} {n m : Node}

/-- **Trees below depth `d` that differ only in the order of keys are read as equal values.** -/
class IgnoresOrderBelow (d : Nat) (c : Codec α) : Prop where
  read_reordered : ∀ {n m : Node} {a : α}, n.Below d → n.Reordered m → c.read n = .ok a →
    ∃ b, c.read m = .ok b ∧ (a == b) = true

namespace IgnoresOrderBelow

theorem mono {d' : Nat} (h : IgnoresOrderBelow d c) (hd : d' ≤ d) : IgnoresOrderBelow d' c where
  read_reordered hn := h.read_reordered (hn.mono hd)

theorem zero : IgnoresOrderBelow 0 c where
  read_reordered hn := absurd hn.depth_lt (Nat.not_lt_zero _)

/-- What cannot be read cannot be read in another order. -/
theorem read_ne_ok [h : IgnoresOrderBelow d c] (hn : n.Below d) (hr : n.Reordered m)
    (he : ∀ a, c.read n ≠ .ok a) (b : α) : c.read m ≠ .ok b := by
  intro hb
  obtain ⟨a, ha, -⟩ := h.read_reordered (hn.of_reordered hr) hr.symm hb
  exact he a ha

/-- What is read equals itself. -/
theorem beq_self [h : IgnoresOrderBelow d c] {a : α} (hn : n.Below d) (ha : c.read n = .ok a) :
    (a == a) = true := by
  obtain ⟨b, hb, he⟩ := h.read_reordered hn (.refl n) ha
  obtain rfl := Except.ok.inj (ha.symm.trans hb)
  exact he

theorem ofDefinition {name : String} {read : Node → Except DefinitionError α} {write : α → Node}
    (h : ∀ {n m : Node} {a : α}, n.Below d → n.Reordered m → read n = .ok a →
      ∃ b, read m = .ok b ∧ (a == b) = true) :
    IgnoresOrderBelow d (ofDefinition name read write) where
  read_reordered hn hr ha := by
    obtain ⟨b, hb, he⟩ := h hn hr (ofDefinition_read_eq_ok.1 ha)
    exact ⟨b, ofDefinition_read_eq_ok.2 hb, he⟩

/-- A tree without levels has no order. -/
theorem of_scalar [ReflBEq α] (h : ∀ {n : Node} {a : α}, c.read n = .ok a → n.depth = 0) :
    IgnoresOrderBelow d c where
  read_reordered _ hr ha := by
    obtain rfl := hr.eq_of_depth_eq_zero (h ha)
    exact ⟨_, ha, beq_self_eq_true _⟩

/-- Where equal values are the same, trees are read as the same. -/
theorem read_eq [LawfulBEq α] [h : IgnoresOrderBelow d c] {a : α} (hn : n.Below d)
    (hr : n.Reordered m) (ha : c.read n = .ok a) : c.read m = .ok a := by
  obtain ⟨b, hb, he⟩ := h.read_reordered hn hr ha
  rwa [eq_of_beq he]

/-- A value made of one that is read ignores the order of keys, if equal values make equal ones. -/
theorem read_map [h : IgnoresOrderBelow d c] {make : α → β} {b : β} (hn : n.Below d)
    (hr : n.Reordered m) (hb : (c.read n).map make = .ok b)
    (he : ∀ x y, (x == y) = true → (make x == make y) = true) :
    ∃ b', (c.read m).map make = .ok b' ∧ (b == b') = true := by
  obtain ⟨x, hx, rfl⟩ := except_map_eq_ok.1 hb
  obtain ⟨y, hy, hxy⟩ := h.read_reordered hn hr hx
  exact ⟨make y, except_map_eq_ok.2 ⟨y, hy, rfl⟩, he x y hxy⟩

theorem decode_map [IgnoresOrderBelow d c] {make : α → β} {b : β} (hn : n.Below d)
    (hr : n.Reordered m) (hb : (c.decode n).map make = .ok b)
    (he : ∀ x y, (x == y) = true → (make x == make y) = true) :
    ∃ b', (c.decode m).map make = .ok b' ∧ (b == b') = true := by
  have hd (n : Node) (b : β) : (c.decode n).map make = .ok b ↔ (c.read n).map make = .ok b := by
    rw [except_map_eq_ok, except_map_eq_ok]
    exact exists_congr fun _ => and_congr_left' decode_eq_ok
  simp only [hd] at hb ⊢
  exact read_map hn hr hb he

theorem decodeObject_map [IgnoresOrderBelow d c] {make : α → β} {b : β} {key : String}
    (hn : n.Below d) (hr : n.Reordered m) (hb : (c.decodeObject key n).map make = .ok b)
    (he : ∀ x y, (x == y) = true → (make x == make y) = true) :
    ∃ b', (c.decodeObject key m).map make = .ok b' ∧ (b == b') = true := by
  obtain ⟨x, hx, rfl⟩ := except_map_eq_ok.1 hb
  obtain ⟨es, rfl, hx⟩ := decodeObject_eq_ok.1 hx
  obtain ⟨fs, rfl, -⟩ := hr.of_mapping
  exact decode_map hn hr (except_map_eq_ok.2 ⟨x, decode_eq_ok.2 hx, rfl⟩) he

end IgnoresOrderBelow

/-! ### Scalars -/

instance : IgnoresOrderBelow d node where
  read_reordered {n m _} hn hr ha := by
    obtain rfl := Except.ok.inj ha
    exact ⟨m, rfl, Node.beq_of_reordered hn hr⟩

instance : IgnoresOrderBelow d string := .of_scalar fun {n _} h => by
  cases n with
  | string => rfl
  | _ => cases h

instance : IgnoresOrderBelow d bool := .of_scalar fun {n _} h => by
  cases n with
  | bool => rfl
  | _ => cases h

instance : IgnoresOrderBelow d float := .of_scalar fun {n _} h => by
  cases n with
  | number => rfl
  | _ => cases h

instance (name : String) (least greatest : Int) :
    IgnoresOrderBelow d (integer name least greatest) := .of_scalar fun {n _} h => by
  cases n with
  | number => rfl
  | _ => cases h

theorem IgnoresOrderBelow.imap [LawfulBEq α] [ReflBEq β] [h : IgnoresOrderBelow d c]
    (make : α → β) (get : β → α) : IgnoresOrderBelow d (c.imap make get) where
  read_reordered hn hr ha := by
    obtain ⟨a, hx, rfl⟩ := except_map_eq_ok.1 ha
    obtain ⟨b, hb, he⟩ := h.read_reordered hn hr hx
    obtain rfl := beq_iff_eq.1 he
    exact ⟨make a, except_map_eq_ok.2 ⟨a, hb, rfl⟩, beq_self_eq_true _⟩

instance : IgnoresOrderBelow d uint16 := .imap _ _

instance : IgnoresOrderBelow d uint32 := .imap _ _

instance : IgnoresOrderBelow d uint64 := .imap _ _

/-- A mapping that stands for a name has one entry only. -/
instance [ReflBEq α] (name : String) (all : List α) (text : α → String) :
    IgnoresOrderBelow d (choice name all text) where
  read_reordered {n m a} _ hr ha := by
    suffices hm : m = n by
      rw [hm]
      exact ⟨a, ha, beq_self_eq_true a⟩
    cases n with
    | mapping es =>
      match es, hr, ha with
      | [(key, v)], hr, ha =>
        obtain ⟨fs, rfl, hm⟩ := hr.of_mapping
        obtain ⟨w, rfl, hw⟩ := hm.of_singleton
        obtain ⟨_, -, ha⟩ := except_bind_eq_ok.1 ha
        cases v with
        | null => rw [hw.eq_of_depth_eq_zero rfl]
        | _ => cases ha
      | [], _, ha => cases ha
      | _ :: _ :: _, _, ha => cases ha
    | sequence => cases ha
    | _ => exact hr.eq_of_depth_eq_zero rfl

/-! ### Optional values, lists and maps -/

instance [h : IgnoresOrderBelow d c] : IgnoresOrderBelow d c.option where
  read_reordered {n m x} hn hr hx := by
    by_cases h0 : n = .null
    · subst h0
      obtain rfl := hr.eq_of_depth_eq_zero rfl
      obtain rfl := Except.ok.inj hx
      exact ⟨none, rfl, rfl⟩
    · have h1 : m ≠ .null := by
        rintro rfl
        exact h0 (hr.symm.eq_of_depth_eq_zero rfl)
      rw [option_read_of_ne_null h0, except_map_eq_ok] at hx
      obtain ⟨a, ha, rfl⟩ := hx
      obtain ⟨b, hb, he⟩ := h.read_reordered hn hr ha
      exact ⟨some b, (option_read_of_ne_null h1).trans (except_map_eq_ok.2 ⟨b, hb, rfl⟩), he⟩

instance [h : IgnoresOrderBelow d c] : IgnoresOrderBelow d (list c) where
  read_reordered {n m as} hn hr ha := by
    cases n with
    | sequence items =>
      obtain ⟨items', rfl, hm⟩ := hr.of_sequence
      have hn := hn.mono (Nat.le_succ d)
      obtain ⟨bs, hbs, he⟩ := forall₂_transfer (list_read_sequence.1 ha) hm fun n hi _ _ ha hr =>
        h.read_reordered (hn.of_mem_sequence hi) hr ha
      exact ⟨bs, list_read_sequence.2 hbs, list_beq_of_forall₂ he⟩
    | _ => cases ha

instance [h : IgnoresOrderBelow d c] : IgnoresOrderBelow d (map c) where
  read_reordered {n m x} hn hr hx := by
    cases n with
    | mapping es =>
      obtain ⟨fs, rfl, gs, hm, hp⟩ := hr.of_mapping
      have hx' := map_read_mapping.1 hx
      have hd := hn.mono (Nat.le_succ d)
      -- The values are read one by one, and then take the order of the other tree.
      obtain ⟨bs, hbs, he⟩ : ∃ bs, Entries.Matching (fun n a => c.read n = .ok a) gs bs ∧
          Entries.Matching (fun a b => (a == b) = true) x.entries bs := by
        refine forall₂_transfer hx' hm fun e hi {f g} ⟨hk, ha⟩ ⟨hk', hr⟩ => ?_
        obtain ⟨b, hb, he⟩ := h.read_reordered (hd.of_mem_mapping hi) hr ha
        exact ⟨(g.1, b), ⟨rfl, hb⟩, hk.symm.trans hk', he⟩
      obtain ⟨bs', hbs', hp'⟩ := List.perm_comp_forall₂ hp.symm hbs
      refine ⟨⟨bs'⟩, map_read_mapping.2 hbs', OrderedMap.beq_of_matching he hp'.symm ?_⟩
      exact nodup_keys_of_map_read hn hx
    | _ => cases hx

instance (name : String) [h : IgnoresOrderBelow d c] : IgnoresOrderBelow d (c.named name) :=
  ⟨h.read_reordered⟩

instance : IgnoresOrderBelow d object := inferInstanceAs (IgnoresOrderBelow d ((map node).named _))

/-- An item of a named map has one entry only. -/
theorem readNamed_reordered [h : IgnoresOrderBelow d c] {e : String × α} (hn : n.Below (d + 1))
    (hr : n.Reordered m) (he : readNamed c n = .ok e) :
    ∃ f, readNamed c m = .ok f ∧ e.1 = f.1 ∧ (e.2 == f.2) = true := by
  obtain ⟨v, rfl, hv⟩ := readNamed_eq_ok.1 he
  obtain ⟨fs, rfl, hm⟩ := hr.of_mapping
  obtain ⟨w, rfl, hw⟩ := hm.of_singleton
  obtain ⟨b, hb, he⟩ := h.read_reordered (hn.of_mem_mapping List.mem_cons_self) hw hv
  exact ⟨(e.1, b), readNamed_eq_ok.2 ⟨w, rfl, hb⟩, rfl, he⟩

instance [IgnoresOrderBelow d c] : IgnoresOrderBelow d (namedMap c) where
  read_reordered {n m x} hn hr hx := by
    cases n with
    | sequence items =>
      obtain ⟨items', rfl, hm⟩ := hr.of_sequence
      obtain ⟨es, hes, rfl⟩ := namedMap_read_sequence.1 hx
      have hd := hn.mono (Nat.le_add_right d 2)
      obtain ⟨fs, hfs, he⟩ := forall₂_transfer hes hm fun n hi _ _ he hr =>
        readNamed_reordered (hd.of_mem_sequence hi) hr he
      refine ⟨.ofList fs, namedMap_read_sequence.2 ⟨fs, hfs, rfl⟩, NamedMap.beq_iff.2 ?_⟩
      exact Entries.Matching.merge he .nil
    | _ => cases hx

/-- What may stand under a key of a mapping. -/
theorem option_rel_reordered (c : Codec α) [h : IgnoresOrderBelow d c] {es fs : Object}
    (hn : (Node.mapping es).Below (d + 1)) (hr : es.Reordered fs) (key : String) {x : Option α}
    (hx : Option.Rel (fun n a => c.read n = .ok a) (es.get? key) x) :
    ∃ y, Option.Rel (fun n a => c.read n = .ok a) (fs.get? key) y ∧
      Option.Rel (fun a b => (a == b) = true) x y := by
  have hg := hr.get?_rel hn.nodup_keys key
  have hd : ∀ n ∈ es.get? key, n.Below d := fun n hm =>
    hn.of_mem_mapping (Entries.mem_of_get? hm)
  generalize es.get? key = u at hg hx hd
  generalize fs.get? key = v at hg ⊢
  cases hg with
  | none =>
    cases hx
    exact ⟨none, .none, .none⟩
  | some hr =>
    cases hx with
    | some ha =>
      obtain ⟨b, hb, he⟩ := h.read_reordered (hd _ rfl) hr ha
      exact ⟨some b, .some hb, .some he⟩

/-! ### Unions -/

instance {a : Codec α} {b : Codec β} [ha : IgnoresOrderBelow d a] [hb : IgnoresOrderBelow d b] :
    IgnoresOrderBelow d (oneOf a b) where
  read_reordered {n m z} hn hr hz := by
    cases z with
    | first x =>
      obtain ⟨y, hy, he⟩ := ha.read_reordered hn hr (oneOf_read_first.1 hz)
      exact ⟨.first y, oneOf_read_first.2 hy, he⟩
    | second x =>
      obtain ⟨h0, hx⟩ := oneOf_read_second.1 hz
      obtain ⟨y, hy, he⟩ := hb.read_reordered hn hr hx
      exact ⟨.second y, oneOf_read_second.2 ⟨ha.read_ne_ok hn hr h0, hy⟩, he⟩

end Codec

instance {α β : Type} [BEq α] [BEq β] [LawfulBEq α] [LawfulBEq β] : LawfulBEq (OneOf α β) where
  eq_of_beq {x y} h := by
    cases x <;> cases y
    · exact congrArg _ (eq_of_beq h)
    · cases h
    · cases h
    · exact congrArg _ (eq_of_beq h)
  rfl {x} := by
    cases x with
    | first a => exact beq_self_eq_true a
    | second b => exact beq_self_eq_true b

/-! ## Fields -/

namespace Field

variable {ρ α : Type} [BEq α] {d : Nat} {key : String} {c : Codec α}

/-- A field whose values ignore the order of keys, and that for its absence equals itself. -/
class IgnoresOrderBelow (d : Nat) (f : Field ρ α) : Prop where
  codec : f.codec.IgnoresOrderBelow d
  beq_self_of_absent : ∀ {a : α}, f.absent = some a → (a == a) = true

instance [h : c.IgnoresOrderBelow d] (get : ρ → α) : IgnoresOrderBelow d (required key c get) where
  codec := h
  beq_self_of_absent h := nomatch h

instance [h : c.IgnoresOrderBelow d] (get : ρ → Option α) :
    IgnoresOrderBelow d (optional key c get) where
  codec := inferInstanceAs (c.option.IgnoresOrderBelow d)
  beq_self_of_absent h := by
    obtain rfl := Option.some.inj h
    rfl

instance [h : c.IgnoresOrderBelow d] (absent : α) [ha : SelfEqual absent] (get : ρ → α) :
    IgnoresOrderBelow d (defaulted key c absent get) where
  codec := h
  beq_self_of_absent h := by
    obtain rfl := Option.some.inj h
    exact ha.beq_self

instance [h : c.IgnoresOrderBelow d] (absent : α) [ha : SelfEqual absent] (skip : α → Bool)
    (get : ρ → α) : IgnoresOrderBelow d (omitted key c absent skip get) where
  codec := h
  beq_self_of_absent h := by
    obtain rfl := Option.some.inj h
    exact ha.beq_self

theorem readEntry_reordered {f : Field ρ α} [hf : f.IgnoresOrderBelow d] {es fs : Object} {a : α}
    (hn : (Node.mapping es).Below (d + 1)) (hr : es.Reordered fs) (ha : f.readEntry es = .ok a) :
    ∃ b, f.readEntry fs = .ok b ∧ (a == b) = true := by
  have hg := hr.get?_rel hn.nodup_keys f.key
  cases he : es.get? f.key with
  | some n =>
    rw [he] at hg
    cases hg' : fs.get? f.key with
    | some m =>
      rw [hg'] at hg
      cases hg with
      | some hr =>
        have hn := hn.of_mem_mapping (Entries.mem_of_get? he)
        obtain ⟨b, hb, hab⟩ := hf.codec.read_reordered hn hr ((readEntry_of_get? he).1 ha)
        exact ⟨b, (readEntry_of_get? hg').2 hb, hab⟩
    | none =>
      rw [hg'] at hg
      cases hg
  | none =>
    rw [he] at hg
    have hg' : fs.get? f.key = none := by
      generalize fs.get? f.key = y at hg
      cases hg
      rfl
    have ha := (readEntry_of_absent he).1 ha
    exact ⟨a, (readEntry_of_absent hg').2 ha, hf.beq_self_of_absent ha⟩

end Field

namespace Fields

variable {ρ γ β : Type} {d : Nat}

/-- Equality of tuples of values, and of what stands behind them if anything does. A type that
derives its equality compares its fields like that. -/
class Comparable (fields : Fields ρ γ β) where
  equal : fields.Values → fields.Values → Option Bool → Bool

instance : Comparable (done : Fields ρ γ γ) where
  equal _ _ last := last.getD true

instance {α : Type} [BEq α] (f : Field ρ α) : Comparable (more f done : Fields ρ γ (α → γ)) where
  equal vs vs' last :=
    match last with
    | none => vs.1 == vs'.1
    | some b => vs.1 == vs'.1 && b

instance {α α' : Type} [BEq α] (f : Field ρ α) (g : Field ρ α') (rest : Fields ρ γ β)
    [h : Comparable (more g rest)] : Comparable (more f (more g rest)) where
  equal vs vs' last := vs.1 == vs'.1 && h.equal vs.2 vs'.2 last

/-- Tuples of equal values. -/
def Alike (fields : Fields ρ γ β) [h : Comparable fields] (vs vs' : fields.Values) : Prop :=
  ∀ last, h.equal vs vs' last = last.getD true

theorem Alike.last {α : Type} [BEq α] {f : Field ρ α} {a b : α} (h : (a == b) = true) :
    (more f done : Fields ρ γ (α → γ)).Alike (a, ()) (b, ()) := by
  intro last
  cases last <;> simp [Comparable.equal, h]

theorem Alike.more {α α' : Type} [BEq α] {f : Field ρ α} {g : Field ρ α'} {rest : Fields ρ γ β}
    [(Fields.more g rest).Comparable] {a b : α} {vs vs' : (Fields.more g rest).Values}
    (h : (a == b) = true) (hr : (Fields.more g rest).Alike vs vs') :
    (Fields.more f (Fields.more g rest)).Alike (a, vs) (b, vs') :=
  fun last => (congrArg (· && _) h).trans (hr last)

/-- Fields that ignore the order of keys, in a mapping or in the items of a sequence. -/
class IgnoresOrderBelow (d : Nat) (fields : Fields ρ γ β) [Comparable fields] : Prop where
  of_entries : ∀ {es fs : Object} {vs : fields.Values}, (Node.mapping es).Below (d + 1) →
    es.Reordered fs → fields.Holds (fun f a => f.readEntry es = .ok a) vs →
      ∃ vs', fields.Holds (fun f a => f.readEntry fs = .ok a) vs' ∧ fields.Alike vs vs'
  of_items : ∀ {shape : String} {index : Nat} {ns ms : List Node} {k : β → γ},
    (∀ n ∈ ns, n.Below d) → List.Forall₂ Node.Reordered ns ms →
      fields.readItems shape index ns = .ok k →
        ∃ vs vs', k = (fun make => fields.construct make vs) ∧
          fields.readItems shape index ms = .ok (fun make => fields.construct make vs') ∧
            fields.Alike vs vs'

instance : IgnoresOrderBelow d (done : Fields ρ γ γ) where
  of_entries _ _ _ := ⟨(), trivial, fun _ => rfl⟩
  of_items _ _ h := by
    rw [readItems] at h
    refine ⟨(), (), (Except.ok.inj h).symm, ?_, fun _ => rfl⟩
    rw [readItems]
    rfl

theorem IgnoresOrderBelow.more {α : Type} [BEq α] {f : Field ρ α} {rest : Fields ρ γ β}
    [Comparable rest] [Comparable (more f rest)]
    (he : ∀ {a b : α} {vs vs' : rest.Values}, (a == b) = true → rest.Alike vs vs' →
      (Fields.more f rest).Alike (a, vs) (b, vs'))
    [hf : f.IgnoresOrderBelow d] [h : rest.IgnoresOrderBelow d] :
    IgnoresOrderBelow d (more f rest) where
  of_entries hn hr hvs := by
    obtain ⟨b, hb, hab⟩ := f.readEntry_reordered hn hr hvs.1
    obtain ⟨vs', hvs', hv⟩ := h.of_entries hn hr hvs.2
    exact ⟨(b, vs'), ⟨hb, hvs'⟩, he hab hv⟩
  of_items {shape index ns ms k} hn hr hk := by
    cases hr with
    | nil =>
      rw [readItems] at hk
      cases ha : f.absent with
      | none => simp [ha] at hk
      | some a =>
        simp only [ha] at hk
        obtain ⟨k', hk', hk⟩ := except_bind_eq_ok.1 hk
        obtain ⟨vs, vs', rfl, hvs, hv⟩ := h.of_items hn .nil hk'
        refine ⟨(a, vs), (a, vs'), (Except.ok.inj hk).symm, ?_, he (hf.beq_self_of_absent ha) hv⟩
        rw [readItems]
        simp only [ha]
        exact except_bind_eq_ok.2 ⟨_, hvs, rfl⟩
    | @cons n m ns ms hnm hr =>
      rw [List.forall_mem_cons] at hn
      rw [readItems, except_bind_eq_ok] at hk
      obtain ⟨a, ha, hk⟩ := hk
      obtain ⟨k', hk', hk⟩ := except_bind_eq_ok.1 hk
      obtain ⟨b, hb, hab⟩ := hf.codec.read_reordered hn.1 hnm ha
      obtain ⟨vs, vs', rfl, hvs, hv⟩ := h.of_items hn.2 hr hk'
      refine ⟨(a, vs), (b, vs'), (Except.ok.inj hk).symm, ?_, he hab hv⟩
      rw [readItems, except_bind_eq_ok]
      exact ⟨b, hb, except_bind_eq_ok.2 ⟨_, hvs, rfl⟩⟩

instance {α : Type} [BEq α] (f : Field ρ α) [f.IgnoresOrderBelow d] :
    IgnoresOrderBelow d (more f done : Fields ρ γ (α → γ)) :=
  .more fun h _ => .last h

instance {α α' : Type} [BEq α] (f : Field ρ α) (g : Field ρ α') (rest : Fields ρ γ β)
    [f.IgnoresOrderBelow d] [Comparable (more g rest)] [(more g rest).IgnoresOrderBelow d] :
    IgnoresOrderBelow d (more f (more g rest)) :=
  .more .more

/-- Fields whose values are equal only if they are the same. -/
class LawfulEqual (fields : Fields ρ γ β) [h : Comparable fields] : Prop where
  eq_of_equal : ∀ {vs vs'}, h.equal vs vs' none = true → vs = vs'

instance : LawfulEqual (done : Fields ρ γ γ) := ⟨fun _ => rfl⟩

instance {α : Type} [BEq α] [LawfulBEq α] (f : Field ρ α) :
    LawfulEqual (more f done : Fields ρ γ (α → γ)) :=
  ⟨fun h => Prod.ext (eq_of_beq h) rfl⟩

instance {α α' : Type} [BEq α] [LawfulBEq α] (f : Field ρ α) (g : Field ρ α')
    (rest : Fields ρ γ β) [Comparable (more g rest)] [hs : LawfulEqual (more g rest)] :
    LawfulEqual (more f (more g rest)) where
  eq_of_equal h := by
    obtain ⟨h1, h2⟩ := Bool.and_eq_true_iff.1 h
    exact Prod.ext (eq_of_beq h1) (hs.eq_of_equal h2)

end Fields

/-! ## Records -/

namespace Codec.IgnoresOrderBelow

variable {ρ β : Type} [BEq ρ] {name : String} {make : β} {d : Nat}

section

variable {fields : Fields ρ ρ β} [hc : fields.Comparable]

/-- A record ignores the order of keys when its fields do, one level below, and its values are equal
when those of its fields are. -/
theorem record_succ (h : fields.Lawful make) [hs : fields.IgnoresOrderBelow d]
    (he : ∀ x y : ρ, hc.equal (fields.project x) (fields.project y) none = true →
      (x == y) = true) : IgnoresOrderBelow (d + 1) (record name make fields) where
  read_reordered {n m x} hn hr hx := by
    cases n with
    | mapping es =>
      obtain ⟨fs, rfl, hm⟩ := hr.of_mapping
      obtain ⟨vs, hvs, hv⟩ := hs.of_entries hn hm ((record_read_mapping h).1 hx)
      rw [← h.project_construct vs] at hvs hv
      exact ⟨_, (record_read_mapping h).2 hvs, he _ _ (hv none)⟩
    | sequence ns =>
      obtain ⟨ms, rfl, hm⟩ := hr.of_sequence
      obtain ⟨k, hk, hx⟩ := except_bind_eq_ok.1 hx
      obtain ⟨vs, vs', rfl, hvs, hv⟩ := hs.of_items (fun _ hi => hn.of_mem_sequence hi) hm hk
      split at hx
      · cases hx
      · next hl =>
        obtain rfl := Except.ok.inj hx
        refine ⟨fields.construct make vs', except_bind_eq_ok.2 ⟨_, hvs, ?_⟩, he _ _ ?_⟩
        · rw [← hm.length_eq, if_neg hl]
        · rw [h.project_construct, h.project_construct]
          exact hv none
    | _ => cases hx

theorem record (h : fields.Lawful make) [fields.IgnoresOrderBelow d]
    (he : ∀ x y : ρ, hc.equal (fields.project x) (fields.project y) none = true →
      (x == y) = true) : IgnoresOrderBelow d (record name make fields) :=
  (record_succ h he).mono (Nat.le_succ d)

/-- A record of which equal values are the same. -/
theorem lawfulRecord (h : fields.Lawful make) [fields.IgnoresOrderBelow d] [fields.LawfulEqual]
    [ReflBEq ρ] : IgnoresOrderBelow d (Codec.record name make fields) :=
  record h fun x y he => by
    rw [← h.construct_project x, Fields.LawfulEqual.eq_of_equal he, h.construct_project y]
    exact beq_self_eq_true y

end

/-- A record with further entries ignores the order of keys when its fields do, and its values are
equal when those of its fields and the further entries are. -/
theorem openRecord {fields : Fields ρ (OrderedMap Node → ρ) β} {extra : ρ → OrderedMap Node}
    [hc : fields.Comparable] (h : fields.OpenLawful make extra) [hs : fields.IgnoresOrderBelow d]
    (he : ∀ x y : ρ,
      hc.equal (fields.project x) (fields.project y) (some (extra x == extra y)) = true →
        (x == y) = true) : IgnoresOrderBelow d (openRecord name make fields extra) where
  read_reordered {n m x} hn hr hx := by
    cases n with
    | mapping es =>
      obtain ⟨fs, rfl, hm⟩ := hr.of_mapping
      obtain ⟨hf, hx⟩ := (openRecord_read_mapping h).1 hx
      obtain ⟨vs, hvs, hv⟩ := hs.of_entries (hn.mono (Nat.le_succ d)) hm hf
      refine ⟨fields.construct make vs ⟨(Entries.splitKeys fs fields.keys).2⟩,
        (openRecord_read_mapping h).2 ⟨?_, ?_⟩, he _ _ ?_⟩
      · rw [h.project_construct]
        exact hvs
      · rw [h.extra_construct]
      · have he : extra x = ⟨(Entries.splitKeys es fields.keys).2⟩ := congrArg OrderedMap.mk hx.symm
        rw [h.project_construct, h.extra_construct, hv, he]
        refine OrderedMap.beq_of_reordered (d := d) ?_ (hm.splitKeys_snd _)
        exact (hn.mono (Nat.le_succ d)).of_sublist (Entries.sublist_splitKeys_snd _ _)
    | _ => cases hx

end Codec.IgnoresOrderBelow

end WorkflowDsl
