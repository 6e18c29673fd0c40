import WorkflowDsl.Codec.Record
import WorkflowDsl.Proofs.Codec.Basic

/-!
# Records read back field by field

The fields of a record `ρ` determine the tuple of its values (`Fields.Values`), how a value is put
together from a tuple (`construct`) and taken apart again (`project`). Where the two are inverse
(`Fields.Lawful`), a mapping is read as `x` exactly when each field is read as that of `x`
(`record_read_mapping`). So a record reads back, keeps and stabilizes what its fields do:

* `record_readsBack_iff`, `record_keeps_iff`: what is read back, by fields;
* `Lossless.record`, `StableBelow.record`: the classes of `Codec`, by those of the fields;
* `openRecord_keeps_iff`, `StableBelow.openRecord`: the same for a record that keeps unknown keys,
  as long as these are not keys of its fields.
-/

namespace WorkflowDsl

/-! ## Single fields -/

namespace Field

variable {ρ α : Type} {f : Field ρ α} {es : Object} {n : Node} {a b : α}

theorem readEntry_of_get? (h : es.get? f.key = some n) :
    f.readEntry es = .ok a ↔ f.codec.read n = .ok a := by
  rw [readEntry, h]
  exact except_mapError_eq_ok

theorem readEntry_of_absent (h : es.get? f.key = none) :
    f.readEntry es = .ok a ↔ f.absent = some a := by
  rw [readEntry, h]
  cases f.absent <;> simp

theorem readEntry_congr {fs : Object} (h : es.get? f.key = fs.get? f.key) :
    f.readEntry es = .ok a ↔ f.readEntry fs = .ok a := by
  cases hg : es.get? f.key with
  | some n => rw [readEntry_of_get? hg, readEntry_of_get? (h.symm.trans hg)]
  | none => rw [readEntry_of_absent hg, readEntry_of_absent (h.symm.trans hg)]

/-- A value that a field has was read from an entry, or stands for its absence. -/
theorem readEntry_cases (h : f.readEntry es = .ok a) :
    (∃ n, (f.key, n) ∈ es ∧ f.codec.read n = .ok a) ∨ f.absent = some a := by
  cases hg : es.get? f.key with
  | some n => exact .inl ⟨n, Entries.mem_of_get? hg, (readEntry_of_get? hg).1 h⟩
  | none => exact .inr ((readEntry_of_absent hg).1 h)

/-- The entry that the field is written as, if it is. -/
def written (f : Field ρ α) (x : ρ) : Object :=
  if f.skip (f.get x) then [] else [(f.key, f.codec.write (f.get x))]

/-- The field is read as `b` from a record that has `a` for it. -/
def ReadsBack (f : Field ρ α) (a b : α) : Prop :=
  if f.skip a then f.absent = some b else f.codec.ReadsBack a b

/-- The value under the key of the field, if it is written. -/
def written? (f : Field ρ α) (a : α) : Option Node :=
  if f.skip a then none else some (f.codec.write a)

theorem readEntry_iff_readsBack (h : es.get? f.key = f.written? a) :
    f.readEntry es = .ok b ↔ f.ReadsBack a b := by
  rw [written?] at h
  rw [ReadsBack]
  split at h
  · next hs => rw [if_pos hs, readEntry_of_absent h]
  · next hs =>
    rw [if_neg hs, readEntry_of_get? h]
    rfl

/-- The field is read as the value that it is written as. -/
def Keeps (f : Field ρ α) (a : α) : Prop := f.ReadsBack a a

/-- A field that keeps all values. -/
class Keeping (f : Field ρ α) : Prop where
  keeps : ∀ a, f.Keeps a

/-- A field that keeps the values read from trees below depth `d`, and that for its absence. -/
class StableBelow (d : Nat) (f : Field ρ α) : Prop where
  keeps_of_read : ∀ {n : Node} {a : α}, n.Below d → f.codec.read n = .ok a → f.Keeps a
  keeps_of_absent : ∀ {a : α}, f.absent = some a → f.Keeps a

/-- The only value for which `skip` holds is `absent`. -/
class SkipsOnly (skip : α → Bool) (absent : α) : Prop where
  skip_iff : ∀ a, skip a = true ↔ a = absent

instance [BEq α] [LawfulBEq α] (absent : α) : SkipsOnly (fun a => a == absent) absent :=
  ⟨fun _ => beq_iff_eq⟩

instance : SkipsOnly (fun b => !b) false := ⟨by decide⟩

instance : SkipsOnly (fun b : Bool => id b) true := ⟨by decide⟩

instance : SkipsOnly (List.isEmpty : List α → Bool) [] := ⟨fun _ => List.isEmpty_iff⟩

section

variable {key : String} {c : Codec α} {d : Nat}

theorem optional_written? {get : ρ → Option α} (x : Option α) :
    (optional key c get).written? x = x.map c.write := by
  cases x <;> rfl

theorem optional_readsBack_iff {get : ρ → Option α} {x y : Option α} :
    (optional key c get).ReadsBack x y ↔ c.option.ReadsBack x y := by
  cases x with
  | none => exact ⟨fun h => Codec.option_readsBack_none.2 (Option.some.inj h).symm,
      fun h => congrArg some (Codec.option_readsBack_none.1 h).symm⟩
  | some a => exact Iff.rfl

theorem optional_keeps_iff {get : ρ → Option α} {x : Option α} :
    (optional key c get).Keeps x ↔ c.option.Keeps x := optional_readsBack_iff

theorem omitted_keeps_iff {absent : α} {skip : α → Bool} {get : ρ → α} [SkipsOnly skip absent] :
    (omitted key c absent skip get).Keeps a ↔ (a ≠ absent → c.Keeps a) := by
  by_cases h : a = absent
  · subst h
    have hs : skip a = true := (SkipsOnly.skip_iff a).2 rfl
    simp [Keeps, ReadsBack, omitted, hs]
  · have hs : skip a = false := by
      rw [← Bool.not_eq_true]
      exact fun hs => h ((SkipsOnly.skip_iff a).1 hs)
    simp [Keeps, ReadsBack, omitted, hs, h, Codec.Keeps]

instance [c.Keeping] (get : ρ → α) : (required key c get).Keeping := ⟨c.keeps⟩

instance [c.Lossless] (get : ρ → Option α) : (optional key c get).Keeping :=
  ⟨fun x => optional_keeps_iff.2 (c.option.keeps x)⟩

instance [c.Keeping] (absent : α) (get : ρ → α) : (defaulted key c absent get).Keeping := ⟨c.keeps⟩

instance [c.Keeping] (absent : α) (skip : α → Bool) [SkipsOnly skip absent] (get : ρ → α) :
    (omitted key c absent skip get).Keeping :=
  ⟨fun a => omitted_keeps_iff.2 fun _ => c.keeps a⟩

instance [h : c.StableBelow d] (get : ρ → α) : (required key c get).StableBelow d where
  keeps_of_read := h.keeps_of_read
  keeps_of_absent h := nomatch h

instance [h : c.StableBelow d] (get : ρ → Option α) : (optional key c get).StableBelow d where
  keeps_of_read hn hr :=
    optional_keeps_iff.2 (Codec.StableBelow.keeps_of_read (c := c.option) hn hr)
  keeps_of_absent h := by
    obtain rfl := Option.some.inj h
    exact optional_keeps_iff.2 Codec.option_keeps_none

instance [c.Keeping] (absent : α) (get : ρ → α) : (defaulted key c absent get).StableBelow d where
  keeps_of_read _ _ := c.keeps _
  keeps_of_absent _ := c.keeps _

instance [h : c.StableBelow d] (absent : α) (skip : α → Bool) [SkipsOnly skip absent]
    (get : ρ → α) : (omitted key c absent skip get).StableBelow d where
  keeps_of_read hn hr := omitted_keeps_iff.2 fun _ => h.keeps_of_read hn hr
  keeps_of_absent h := by
    obtain rfl := Option.some.inj h
    exact omitted_keeps_iff.2 fun h => absurd rfl h

end

/-- Fields under one key, of which the codecs read trees below depth `d` alike. -/
structure AgreeBelow (d : Nat) (f f' : Field ρ α) : Prop where
  key : f.key = f'.key
  absent : f.absent = f'.absent
  codec : f.codec.AgreeBelow d f'.codec

theorem AgreeBelow.refl (d : Nat) (f : Field ρ α) : AgreeBelow d f f :=
  ⟨rfl, rfl, .refl d _⟩

section

variable {key : String} {c c' : Codec α} {d : Nat}

theorem AgreeBelow.required (h : c.AgreeBelow d c') (get : ρ → α) :
    AgreeBelow d (required key c get) (required key c' get) := ⟨rfl, rfl, h⟩

theorem AgreeBelow.optional (h : c.AgreeBelow d c') (get : ρ → Option α) :
    AgreeBelow d (optional key c get) (optional key c' get) := ⟨rfl, rfl, h.option⟩

theorem AgreeBelow.omitted (h : c.AgreeBelow d c') (absent : α) (skip : α → Bool) (get : ρ → α) :
    AgreeBelow d (omitted key c absent skip get) (omitted key c' absent skip get) := ⟨rfl, rfl, h⟩

end

theorem AgreeBelow.readEntry_eq {d : Nat} {f f' : Field ρ α} (h : AgreeBelow d f f')
    (hd : (Node.mapping es).depth < d + 1) : f.readEntry es = f'.readEntry es := by
  rw [readEntry, readEntry, ← h.key, ← h.absent]
  cases hg : es.get? f.key with
  | none => rfl
  | some n =>
    have hn : n.depth < d :=
      Nat.lt_of_lt_of_le (Node.depth_lt_of_mem_mapping (Entries.mem_of_get? hg))
        (Nat.le_of_lt_succ hd)
    simp only [h.codec n hn]

end Field

/-! ## Tuples of values -/

namespace Fields

variable {ρ γ β : Type} {es : Object}

/-- The type of the tuples of values that fields have. -/
def Values : {β : Type} → Fields ρ γ β → Type
  | _, done => Unit
  | _, @more _ _ α _ _ rest => α × rest.Values

/-- Gives the values to a function that takes them. -/
def construct : {β : Type} → (fields : Fields ρ γ β) → β → fields.Values → γ
  | _, done, make, _ => make
  | _, more _ rest, make, vs => rest.construct (make vs.1) vs.2

/-- The values that a record has. -/
def project (x : ρ) : {β : Type} → (fields : Fields ρ γ β) → fields.Values
  | _, done => ()
  | _, more f rest => (f.get x, rest.project x)

/-- Every field has a value for which `P` holds. -/
def Holds (P : {α : Type} → Field ρ α → α → Prop) :
    {β : Type} → (fields : Fields ρ γ β) → fields.Values → Prop
  | _, done, _ => True
  | _, more f rest, vs => P f vs.1 ∧ rest.Holds P vs.2

theorem Holds.imp {P Q : {α : Type} → Field ρ α → α → Prop}
    (h : ∀ {α : Type} (f : Field ρ α) (a : α), P f a → Q f a) :
    {β : Type} → (fields : Fields ρ γ β) → (vs : fields.Values) →
      fields.Holds P vs → fields.Holds Q vs
  | _, done, _, _ => trivial
  | _, more f rest, vs, hp => ⟨h f vs.1 hp.1, Holds.imp h rest vs.2 hp.2⟩

/-- A record is read back as itself when each field keeps its value. -/
theorem holds_readsBack_project (x : ρ) :
    {β : Type} → (fields : Fields ρ γ β) →
      (fields.Holds (fun f b => f.ReadsBack (f.get x) b) (fields.project x) ↔
        fields.Holds (fun f a => f.Keeps a) (fields.project x))
  | _, done => Iff.rfl
  | _, more _ rest => and_congr Iff.rfl (holds_readsBack_project x rest)

/-! ## Reading -/

/-- Fields are read exactly when each of them is. -/
theorem readEntries_eq_ok :
    {β : Type} → {fields : Fields ρ γ β} → {k : β → γ} →
      (fields.readEntries es = .ok k ↔
        ∃ vs, fields.Holds (fun f a => f.readEntry es = .ok a) vs ∧
          k = fun make => fields.construct make vs)
  | _, done, k => by
    refine ⟨fun h => ⟨(), trivial, (Except.ok.inj h).symm⟩, ?_⟩
    rintro ⟨vs, -, rfl⟩
    rfl
  | _, more f rest, k => by
    constructor
    · intro h
      rw [readEntries] at h
      split at h
      · next a k' ha hk =>
        obtain ⟨vs, hvs, rfl⟩ := readEntries_eq_ok.1 hk
        exact ⟨(a, vs), ⟨ha, hvs⟩, (Except.ok.inj h).symm⟩
      all_goals cases h
    · rintro ⟨vs, ⟨ha, hvs⟩, rfl⟩
      rw [readEntries, ha, readEntries_eq_ok.2 ⟨vs.2, hvs, rfl⟩]
      rfl

theorem exists_readEntries_iff {β : Type} {fields : Fields ρ γ β} {P : (β → γ) → Prop} :
    (∃ k, fields.readEntries es = .ok k ∧ P k) ↔
      ∃ vs, fields.Holds (fun f a => f.readEntry es = .ok a) vs ∧
        P fun make => fields.construct make vs := by
  constructor
  · rintro ⟨k, hk, hp⟩
    obtain ⟨vs, hvs, rfl⟩ := readEntries_eq_ok.1 hk
    exact ⟨vs, hvs, hp⟩
  · rintro ⟨vs, hvs, hp⟩
    exact ⟨_, readEntries_eq_ok.2 ⟨vs, hvs, rfl⟩, hp⟩

theorem holds_readEntry_congr {fs : Object} :
    {β : Type} → (fields : Fields ρ γ β) → (∀ key ∈ fields.keys, es.get? key = fs.get? key) →
      (vs : fields.Values) →
      (fields.Holds (fun f a => f.readEntry es = .ok a) vs ↔
        fields.Holds (fun f a => f.readEntry fs = .ok a) vs)
  | _, done, _, _ => Iff.rfl
  | _, more _ rest, h, vs =>
    and_congr (Field.readEntry_congr (h _ List.mem_cons_self))
      (holds_readEntry_congr rest (fun key hk => h key (List.mem_cons_of_mem _ hk)) vs.2)

/-- A value read from the items of a sequence is that of an item, or stands for an absence. -/
theorem holds_of_readItems {shape : String} :
    {index : Nat} → {items : List Node} → {β : Type} → {fields : Fields ρ γ β} → {k : β → γ} →
      fields.readItems shape index items = .ok k →
        ∃ vs, fields.Holds
            (fun f a => (∃ n ∈ items, f.codec.read n = .ok a) ∨ f.absent = some a) vs ∧
          k = fun make => fields.construct make vs
  | _, _, _, done, k, h => ⟨(), trivial, by rw [readItems] at h; exact (Except.ok.inj h).symm⟩
  | index, n :: items, _, more f rest, k, h => by
    rw [readItems, except_bind_eq_ok] at h
    obtain ⟨a, ha, h⟩ := h
    obtain ⟨k', hk, h⟩ := except_bind_eq_ok.1 h
    obtain ⟨vs, hvs, rfl⟩ := holds_of_readItems hk
    refine ⟨(a, vs), ⟨.inl ⟨n, List.mem_cons_self, ha⟩, ?_⟩, (Except.ok.inj h).symm⟩
    exact Holds.imp (fun _ _ => .imp_left fun ⟨m, hm, hr⟩ => ⟨m, List.mem_cons_of_mem _ hm, hr⟩)
      rest vs hvs
  | index, [], _, more f rest, k, h => by
    rw [readItems] at h
    cases ha : f.absent with
    | none => simp [ha] at h
    | some a =>
      simp only [ha] at h
      obtain ⟨k', hk, h⟩ := except_bind_eq_ok.1 h
      obtain ⟨vs, hvs, rfl⟩ := holds_of_readItems hk
      exact ⟨(a, vs), ⟨.inr ha, hvs⟩, (Except.ok.inj h).symm⟩

/-! ## Writing -/

theorem keys_writeEntries_sublist (x : ρ) :
    {β : Type} → (fields : Fields ρ γ β) →
      (Entries.keys (fields.writeEntries x)).Sublist fields.keys
  | _, done => List.Sublist.slnil
  | _, more f rest => by
    rw [writeEntries, keys]
    split
    · exact (keys_writeEntries_sublist x rest).cons _
    · exact (keys_writeEntries_sublist x rest).cons_cons _

/-- Where the entries have under the keys of the fields what these are written as, each field has
its own value there. -/
theorem holds_written? {x : ρ} :
    {β : Type} → (fields : Fields ρ γ β) → fields.keys.Nodup →
      (∀ key ∈ fields.keys, es.get? key = Entries.get? (fields.writeEntries x) key) →
      fields.Holds (fun f a => es.get? f.key = f.written? a) (fields.project x)
  | _, done, _, _ => trivial
  | _, more f rest, hn, hes => by
    rw [keys, List.nodup_cons] at hn
    have hf : Entries.get? (rest.writeEntries x) f.key = none :=
      Entries.get?_eq_none_iff.2 fun h => hn.1 ((keys_writeEntries_sublist x rest).subset h)
    have hrest : ∀ key ∈ rest.keys, es.get? key = Entries.get? (rest.writeEntries x) key := by
      intro key hk
      rw [hes key (List.mem_cons_of_mem _ hk), writeEntries]
      split
      · rfl
      · rw [Entries.get?_cons, if_neg]
        rintro rfl
        exact hn.1 hk
    refine ⟨?_, holds_written? rest hn.2 hrest⟩
    show es.get? f.key = f.written? (f.get x)
    rw [hes f.key List.mem_cons_self, writeEntries, Field.written?]
    split
    · exact hf
    · rw [Entries.get?_cons, if_pos rfl]

/-- Fields that have their own values are read back. -/
theorem holds_readEntry_iff_of_written? {x : ρ} :
    {β : Type} → (fields : Fields ρ γ β) →
      fields.Holds (fun f a => es.get? f.key = f.written? a) (fields.project x) →
      (vs : fields.Values) →
      (fields.Holds (fun f b => f.readEntry es = .ok b) vs ↔
        fields.Holds (fun f b => f.ReadsBack (f.get x) b) vs)
  | _, done, _, _ => Iff.rfl
  | _, more _ rest, h, vs =>
    and_congr (Field.readEntry_iff_readsBack h.1)
      (holds_readEntry_iff_of_written? rest h.2 vs.2)

/-- Where the entries have under the keys of the fields what these are written as, reading the
fields reads them back. -/
theorem holds_readEntry_iff {x : ρ} {β : Type} (fields : Fields ρ γ β) (hn : fields.keys.Nodup)
    (hes : ∀ key ∈ fields.keys, es.get? key = Entries.get? (fields.writeEntries x) key)
    (vs : fields.Values) :
    fields.Holds (fun f b => f.readEntry es = .ok b) vs ↔
      fields.Holds (fun f b => f.ReadsBack (f.get x) b) vs :=
  holds_readEntry_iff_of_written? fields (holds_written? fields hn hes) vs

/-- Two records of which the fields are written alike, one by one. -/
inductive WrittenAlike {ρ' γ' : Type} (x : ρ) (x' : ρ') :
    {β β' : Type} → Fields ρ γ β → Fields ρ' γ' β' → Prop where
  | done : WrittenAlike x x' done done
  | more {α α' β β' : Type} {f : Field ρ α} {f' : Field ρ' α'} {rest : Fields ρ γ β}
      {rest' : Fields ρ' γ' β'} (field : f.written x = f'.written x')
      (fields : WrittenAlike x x' rest rest') : WrittenAlike x x' (more f rest) (more f' rest')

theorem writeEntries_more {α : Type} (f : Field ρ α) (rest : Fields ρ γ β) (x : ρ) :
    (more f rest).writeEntries x = f.written x ++ rest.writeEntries x := by
  rw [writeEntries, Field.written]
  split <;> rfl

theorem WrittenAlike.writeEntries_eq {ρ' γ' β' : Type} {x : ρ} {x' : ρ'} {fields : Fields ρ γ β}
    {fields' : Fields ρ' γ' β'} (h : WrittenAlike x x' fields fields') :
    fields.writeEntries x = fields'.writeEntries x' := by
  induction h with
  | done => rfl
  | more hf _ ih => rw [writeEntries_more, writeEntries_more, hf, ih]

/-! ## Classes of fields -/

/-- Fields that keep all values. -/
class Keeping (fields : Fields ρ γ β) : Prop where
  holds : ∀ vs, fields.Holds (fun f a => f.Keeps a) vs

/-- Fields that keep the values read from trees below depth `d`, and those for their absence. -/
class StableBelow (d : Nat) (fields : Fields ρ γ β) : Prop where
  holds : ∀ vs,
    fields.Holds (fun f a => (∃ n : Node, n.Below d ∧ f.codec.read n = .ok a) ∨ f.absent = some a)
      vs → fields.Holds (fun f a => f.Keeps a) vs

instance : Keeping (done : Fields ρ γ γ) := ⟨fun _ => trivial⟩

instance {α : Type} (f : Field ρ α) (rest : Fields ρ γ β) [f.Keeping] [h : rest.Keeping] :
    Keeping (more f rest) :=
  ⟨fun vs => ⟨Field.Keeping.keeps vs.1, h.holds vs.2⟩⟩

instance (d : Nat) : StableBelow d (done : Fields ρ γ γ) := ⟨fun _ _ => trivial⟩

instance {α : Type} (d : Nat) (f : Field ρ α) (rest : Fields ρ γ β) [hf : f.StableBelow d]
    [h : rest.StableBelow d] : StableBelow d (more f rest) where
  holds vs hvs := by
    refine ⟨?_, h.holds vs.2 hvs.2⟩
    rcases hvs.1 with ⟨n, hn, hr⟩ | ha
    · exact hf.keeps_of_read hn hr
    · exact hf.keeps_of_absent ha

/-- Field by field, the codecs read trees below depth `d` alike. -/
inductive AgreeBelow (d : Nat) : {β : Type} → Fields ρ γ β → Fields ρ γ β → Prop where
  | done : AgreeBelow d done done
  | more {α β : Type} {f f' : Field ρ α} {rest rest' : Fields ρ γ β} (field : f.AgreeBelow d f')
      (fields : AgreeBelow d rest rest') : AgreeBelow d (more f rest) (more f' rest')

namespace AgreeBelow

variable {d : Nat} {fields fields' : Fields ρ γ β}

theorem refl (d : Nat) : {β : Type} → (fields : Fields ρ γ β) → AgreeBelow d fields fields
  | _, .done => .done
  | _, .more f rest => .more (.refl d f) (refl d rest)

theorem keys_eq (h : AgreeBelow d fields fields') : fields.keys = fields'.keys := by
  induction h with
  | done => rfl
  | more hf _ ih => rw [keys, keys, hf.key, ih]

theorem readEntries_eq (h : AgreeBelow d fields fields') (hd : (Node.mapping es).depth < d + 1) :
    fields.readEntries es = fields'.readEntries es := by
  induction h with
  | done => rfl
  | more hf _ ih => rw [readEntries, readEntries, hf.readEntry_eq hd, ih]

theorem readItems_eq {shape : String} {index : Nat} {items : List Node}
    (h : AgreeBelow d fields fields') (hd : ∀ n ∈ items, n.depth < d) :
    fields.readItems shape index items = fields'.readItems shape index items := by
  induction h generalizing index items with
  | done => cases items <;> rfl
  | more hf _ ih =>
    cases items with
    | nil =>
      rw [readItems, readItems, ← hf.absent]
      split
      · rfl
      · rw [ih hd]
    | cons n items =>
      rw [List.forall_mem_cons] at hd
      rw [readItems, readItems, hf.codec n hd.1, ih hd.2]

end AgreeBelow

/-! ## Records -/

/-- Fields with distinct keys, whose values are those that `make` takes. For a given record each of
these holds by computation. -/
structure Lawful (make : β) (fields : Fields ρ ρ β) : Prop where
  distinct : decide fields.keys.Nodup = true
  construct_project : ∀ x, fields.construct make (fields.project x) = x
  project_construct : ∀ vs, fields.project (fields.construct make vs) = vs

/-- The same for a record with further entries. -/
structure OpenLawful (make : β) (fields : Fields ρ (OrderedMap Node → ρ) β)
    (extra : ρ → OrderedMap Node) : Prop where
  distinct : decide fields.keys.Nodup = true
  construct_project : ∀ x, fields.construct make (fields.project x) (extra x) = x
  project_construct : ∀ vs m, fields.project (fields.construct make vs m) = vs
  extra_construct : ∀ vs m, extra (fields.construct make vs m) = m

/-- The fields of a given record, of which all laws hold by computation. -/
theorem Lawful.computed {make : β} {fields : Fields ρ ρ β}
    (h : (decide fields.keys.Nodup, fun x => fields.construct make (fields.project x),
      fun vs => fields.project (fields.construct make vs)) = (true, id, id)) :
    fields.Lawful make where
  distinct := congrArg (·.1) h
  construct_project := congrFun (congrArg (·.2.1) h)
  project_construct := congrFun (congrArg (·.2.2) h)

/-- The same for a record with further entries. -/
theorem OpenLawful.computed {make : β} {fields : Fields ρ (OrderedMap Node → ρ) β}
    {extra : ρ → OrderedMap Node}
    (h : (decide fields.keys.Nodup, fun x => fields.construct make (fields.project x) (extra x),
      fun vs m => fields.project (fields.construct make vs m),
      fun vs m => extra (fields.construct make vs m)) =
        (true, id, fun vs _ => vs, fun _ m => m)) :
    fields.OpenLawful make extra where
  distinct := congrArg (·.1) h
  construct_project := congrFun (congrArg (·.2.1) h)
  project_construct := congrFun₂ (congrArg (·.2.2.1) h)
  extra_construct := congrFun₂ (congrArg (·.2.2.2) h)

theorem Lawful.nodup_keys {make : β} {fields : Fields ρ ρ β} (h : fields.Lawful make) :
    fields.keys.Nodup :=
  of_decide_eq_true h.distinct

theorem OpenLawful.nodup_keys {make : β} {fields : Fields ρ (OrderedMap Node → ρ) β}
    {extra : ρ → OrderedMap Node} (h : fields.OpenLawful make extra) : fields.keys.Nodup :=
  of_decide_eq_true h.distinct

end Fields

namespace Codec

section Record

variable {ρ β : Type} {name : String} {make : β} {fields : Fields ρ ρ β} {es : Object} {x y : ρ}
  {d : Nat}

/-- A mapping is read as what the values of the fields give. -/
theorem record_read_mapping_eq_ok :
    (record name make fields).read (.mapping es) = .ok x ↔
      ∃ vs, fields.Holds (fun f a => f.readEntry es = .ok a) vs ∧ fields.construct make vs = x := by
  have hr : (record name make fields).read (.mapping es) = .ok x ↔
      ∃ k, fields.readEntries es = .ok k ∧ k make = x := by
    cases hk : fields.readEntries es <;> simp [record, hk]
  exact hr.trans Fields.exists_readEntries_iff

/-- **A mapping is read as `x` exactly when each field is read as that of `x`.** -/
theorem record_read_mapping (h : fields.Lawful make) :
    (record name make fields).read (.mapping es) = .ok x ↔
      fields.Holds (fun f a => f.readEntry es = .ok a) (fields.project x) := by
  rw [record_read_mapping_eq_ok]
  constructor
  · rintro ⟨vs, hvs, rfl⟩
    rw [h.project_construct]
    exact hvs
  · exact fun hx => ⟨_, hx, h.construct_project x⟩

/-- Reading a record does not depend on the order of the entries, nor on those under other keys. -/
theorem record_read_congr {fs : Object} (h : fields.Lawful make)
    (he : ∀ key ∈ fields.keys, es.get? key = fs.get? key) :
    (record name make fields).read (.mapping es) = .ok x ↔
      (record name make fields).read (.mapping fs) = .ok x := by
  rw [record_read_mapping h, record_read_mapping h, fields.holds_readEntry_congr he]

theorem record_read_sequence (h : fields.Lawful make) {items : List Node}
    (hr : (record name make fields).read (.sequence items) = .ok x) :
    fields.Holds (fun f a => (∃ n ∈ items, f.codec.read n = .ok a) ∨ f.absent = some a)
      (fields.project x) := by
  obtain ⟨k, hk, hr⟩ := except_bind_eq_ok.1 hr
  obtain ⟨vs, hvs, rfl⟩ := Fields.holds_of_readItems hk
  split at hr
  · cases hr
  · obtain rfl := Except.ok.inj hr
    rw [h.project_construct]
    exact hvs

theorem record_readsBack_iff (h : fields.Lawful make) :
    (record name make fields).ReadsBack x y ↔
      fields.Holds (fun f b => f.ReadsBack (f.get x) b) (fields.project y) :=
  (record_read_mapping h).trans
    (Fields.holds_readEntry_iff fields h.nodup_keys (fun _ _ => rfl) _)

/-- **A record keeps a value exactly when each field does.** -/
theorem record_keeps_iff (h : fields.Lawful make) :
    (record name make fields).Keeps x ↔ fields.Holds (fun f a => f.Keeps a) (fields.project x) :=
  (record_readsBack_iff h).trans (fields.holds_readsBack_project x)

theorem Lossless.record (h : fields.Lawful make) [hk : fields.Keeping] :
    Lossless (record name make fields) where
  keeps _ := (record_keeps_iff h).2 (hk.holds _)
  write_ne_null _ := nofun

/-- Every value that a tree below a depth gives to a field is read below one level less. -/
theorem record_holds_of_read (h : fields.Lawful make) {n : Node} (hn : n.Below (d + 1))
    (hr : (record name make fields).read n = .ok x) :
    fields.Holds (fun f a => (∃ n : Node, n.Below d ∧ f.codec.read n = .ok a) ∨ f.absent = some a)
      (fields.project x) := by
  cases n with
  | mapping es =>
    refine Fields.Holds.imp ?_ fields _ ((record_read_mapping h).1 hr)
    intro _ f a ha
    exact (Field.readEntry_cases ha).imp_left fun ⟨n, hm, hr⟩ => ⟨n, hn.of_mem_mapping hm, hr⟩
  | sequence items =>
    refine Fields.Holds.imp ?_ fields _ (record_read_sequence h hr)
    intro _ f a ha
    exact ha.imp_left fun ⟨n, hm, hr⟩ => ⟨n, hn.of_mem_sequence hm, hr⟩
  | _ => cases hr

theorem StableBelow.record_succ (h : fields.Lawful make) [hs : fields.StableBelow d] :
    StableBelow (d + 1) (record name make fields) where
  keeps_of_read hn hr := (record_keeps_iff h).2 (hs.holds _ (record_holds_of_read h hn hr))
  null_of_write _ _ h := nomatch h

theorem StableBelow.record (h : fields.Lawful make) [fields.StableBelow d] :
    StableBelow d (record name make fields) :=
  (StableBelow.record_succ h).mono (Nat.le_succ d)

theorem record_write_eq {ρ' β' : Type} {name' : String} {make' : β'} {fields' : Fields ρ' ρ' β'}
    {x' : ρ'} (h : Fields.WrittenAlike x x' fields fields') :
    (record name make fields).write x = (record name' make' fields').write x' :=
  congrArg Node.mapping h.writeEntries_eq

theorem AgreeBelow.record {fields' : Fields ρ ρ β} (h : fields.AgreeBelow d fields') :
    AgreeBelow (d + 1) (record name make fields) (record name make fields') := by
  intro n hn
  cases n with
  | mapping es =>
    simp only [Codec.record, h.readEntries_eq hn]
  | sequence items =>
    have hd : ∀ n ∈ items, n.depth < d := fun n hm =>
      Nat.lt_of_lt_of_le (Node.depth_lt_of_mem_sequence hm) (Nat.le_of_lt_succ hn)
    simp only [Codec.record, h.keys_eq, h.readItems_eq hd]
  | _ => rfl

end Record

/-! ## Records with further entries -/

section OpenRecord

variable {ρ β : Type} {name : String} {make : β} {fields : Fields ρ (OrderedMap Node → ρ) β}
  {extra : ρ → OrderedMap Node} {es : Object} {x y : ρ} {d : Nat}

/-- A mapping is read as what the values of the fields and the other entries give. -/
theorem openRecord_read_mapping_eq_ok :
    (openRecord name make fields extra).read (.mapping es) = .ok x ↔
      ∃ vs, fields.Holds (fun f a => f.readEntry es = .ok a) vs ∧
        fields.construct make vs ⟨(Entries.splitKeys es fields.keys).2⟩ = x := by
  have hr : (openRecord name make fields extra).read (.mapping es) = .ok x ↔
      ∃ k, fields.readEntries es = .ok k ∧
        k make ⟨(Entries.splitKeys es fields.keys).2⟩ = x := by
    cases hk : fields.readEntries es <;> simp [openRecord, hk]
  exact hr.trans Fields.exists_readEntries_iff

/-- A mapping is read as `x` when each field is read as that of `x`, and the other entries are
those of `x`. -/
theorem openRecord_read_mapping (h : fields.OpenLawful make extra) :
    (openRecord name make fields extra).read (.mapping es) = .ok x ↔
      fields.Holds (fun f a => f.readEntry es = .ok a) (fields.project x) ∧
        (Entries.splitKeys es fields.keys).2 = (extra x).entries := by
  rw [openRecord_read_mapping_eq_ok]
  constructor
  · rintro ⟨vs, hvs, rfl⟩
    rw [h.project_construct, h.extra_construct]
    exact ⟨hvs, rfl⟩
  · rintro ⟨hx, he⟩
    refine ⟨_, hx, ?_⟩
    rw [he]
    exact h.construct_project x

/-- As long as no further entry has the key of a field, the fields are read back one by one and the
further entries as they are. -/
theorem openRecord_readsBack_iff (h : fields.OpenLawful make extra)
    (hd : ∀ key ∈ (extra x).keys, key ∉ fields.keys) :
    (openRecord name make fields extra).ReadsBack x y ↔
      fields.Holds (fun f b => f.ReadsBack (f.get x) b) (fields.project y) ∧
        extra y = extra x := by
  have hs := Entries.splitKeys_append
    (fun _ => (fields.keys_writeEntries_sublist x).subset (a := _)) hd
  refine (openRecord_read_mapping h).trans (and_congr ?_ ?_)
  · refine fields.holds_readEntry_iff h.nodup_keys ?_ _
    intro key hk
    exact Entries.get?_append_of_not_mem_right _ fun he => hd key he hk
  · rw [hs]
    exact ⟨fun h => congrArg OrderedMap.mk h.symm, fun h => congrArg OrderedMap.entries h.symm⟩

/-- **A record with further entries keeps a value exactly when each field does and no further entry
has the key of a field.** -/
theorem openRecord_keeps_iff (h : fields.OpenLawful make extra) :
    (openRecord name make fields extra).Keeps x ↔
      fields.Holds (fun f a => f.Keeps a) (fields.project x) ∧
        ∀ key ∈ (extra x).keys, key ∉ fields.keys := by
  have hx := fields.holds_readsBack_project x
  constructor
  · intro hk
    have hd : ∀ key ∈ (extra x).keys, key ∉ fields.keys := by
      intro key hm
      rw [OrderedMap.keys, ← ((openRecord_read_mapping h).1 hk).2] at hm
      exact (Entries.mem_keys_splitKeys_snd hm).2
    exact ⟨hx.1 ((openRecord_readsBack_iff h hd).1 hk).1, hd⟩
  · rintro ⟨hk, hd⟩
    exact (openRecord_readsBack_iff h hd).2 ⟨hx.2 hk, rfl⟩

theorem StableBelow.openRecord (h : fields.OpenLawful make extra) [hs : fields.StableBelow d] :
    StableBelow d (openRecord name make fields extra) where
  keeps_of_read {n x} hn hr := by
    cases n with
    | mapping es =>
      have hn := hn.mono (Nat.le_succ d)
      obtain ⟨hf, he⟩ := (openRecord_read_mapping h).1 hr
      refine (openRecord_keeps_iff h).2 ⟨hs.holds _ (Fields.Holds.imp ?_ fields _ hf), ?_⟩
      · intro _ f a ha
        exact (Field.readEntry_cases ha).imp_left fun ⟨n, hm, hr⟩ => ⟨n, hn.of_mem_mapping hm, hr⟩
      · intro key hm
        rw [OrderedMap.keys, ← he] at hm
        exact (Entries.mem_keys_splitKeys_snd hm).2
    | _ => cases hr
  null_of_write _ _ h := nomatch h

end OpenRecord

end Codec

end WorkflowDsl
