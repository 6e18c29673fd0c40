import WorkflowDsl.Proofs.Codec.Collection
import WorkflowDsl.Proofs.Codec.Record

/-!
# Values read from changed trees

`Codec.ReadsThrough` says that what is read from a tree is what is read from another one, changed by
a function; so one of them is read just when the other is. A record is read through the changes of
its fields (`Codec.record_readsThrough`), and so is one that keeps the entries of unknown keys
(`Codec.openRecord_readsThrough`).
-/

namespace WorkflowDsl

variable {α ρ γ : Type} {es es' : Object} {n n' : Node} {φ : α → α}

namespace Codec

variable {c : Codec α}

/-- What is read from the tree `n'` is what is read from `n`, changed by `φ`. -/
def ReadsThrough (c : Codec α) (φ : α → α) (n n' : Node) : Prop :=
  ∀ b, c.read n' = .ok b ↔ ∃ a, c.read n = .ok a ∧ φ a = b

/-- A tree is read through what does not change the value that it has. -/
theorem readsThrough_self (h : ∀ a, c.read n = .ok a → φ a = a) : c.ReadsThrough φ n n := by
  intro b
  constructor
  · exact fun hb => ⟨b, hb, h b hb⟩
  · rintro ⟨a, ha, rfl⟩
    rwa [h a ha]

theorem ReadsThrough.rel {P : α → α → Prop} (h : c.ReadsThrough φ n n') (hP : ∀ a, P a (φ a)) :
    Option.Rel P (c.read n).toOption (c.read n').toOption := by
  cases ha : c.read n with
  | ok a =>
    rw [(h (φ a)).2 ⟨a, ha, rfl⟩]
    exact .some (hP a)
  | error e =>
    cases hb : c.read n' with
    | error e' => exact .none
    | ok b =>
      obtain ⟨a, ha', -⟩ := (h b).1 hb
      rw [ha] at ha'
      cases ha'

theorem option_readsThrough (hk : n'.kind = n.kind) (h : c.ReadsThrough φ n n') :
    c.option.ReadsThrough (Option.map φ) n n' := by
  by_cases hn : n = .null
  · subst hn
    obtain rfl : n' = .null := by cases n' <;> first | rfl | cases hk
    refine readsThrough_self fun x hx => ?_
    obtain rfl : none = x := Except.ok.inj hx
    rfl
  · have hn' : n' ≠ .null := by
      rintro rfl
      cases n <;> first | exact hn rfl | cases hk
    intro y
    rw [option_read_of_ne_null hn, option_read_of_ne_null hn']
    constructor
    · intro hy
      obtain ⟨b, hb, rfl⟩ := except_map_eq_ok.1 hy
      obtain ⟨a, ha, rfl⟩ := (h b).1 hb
      exact ⟨some a, except_map_eq_ok.2 ⟨a, ha, rfl⟩, rfl⟩
    · rintro ⟨x, hx, rfl⟩
      obtain ⟨a, ha, rfl⟩ := except_map_eq_ok.1 hx
      exact except_map_eq_ok.2 ⟨φ a, (h _).2 ⟨a, ha, rfl⟩, rfl⟩

section OneOf

variable {f : String → String} {Φ : OneOf α String → OneOf α String}

/-- A text that may stand in the place of a value. -/
theorem oneOf_string_readsThrough [ReadsNoScalar c] (h : ∀ s, Φ (.second s) = .second (f s))
    (s : String) : (oneOf c .string).ReadsThrough Φ (.string s) (.string (f s)) := by
  have hs (t : String) : (oneOf c .string).read (.string t) = .ok (.second t) :=
    oneOf_read_second.2 ⟨fun _ ha => ReadsNoScalar.kind_ne_scalar ha rfl, rfl⟩
  intro y
  rw [hs, hs]
  constructor
  · exact fun hy => ⟨_, rfl, (h s).trans (Except.ok.inj hy)⟩
  · rintro ⟨x, hx, rfl⟩
    rw [← Except.ok.inj hx, h]

/-- A mapping is no such text. -/
theorem oneOf_mapping_readsThrough (hΦ : ∀ a, Φ (.first a) = .first (φ a))
    (h : c.ReadsThrough φ (.mapping es) (.mapping es')) :
    (oneOf c .string).ReadsThrough Φ (.mapping es) (.mapping es') := by
  intro y
  cases y with
  | first b =>
    refine oneOf_read_first.trans ((h b).trans ?_)
    constructor
    · rintro ⟨a, ha, rfl⟩
      exact ⟨.first a, oneOf_read_first.2 ha, hΦ a⟩
    · rintro ⟨x, hx, hy⟩
      cases x with
      | first a => exact ⟨a, oneOf_read_first.1 hx, OneOf.first.inj ((hΦ a).symm.trans hy)⟩
      | second s => cases (oneOf_read_second.1 hx).2
  | second s =>
    constructor
    · intro hy
      cases (oneOf_read_second.1 hy).2
    · rintro ⟨x, hx, hy⟩
      cases x with
      | first a => cases (hΦ a).symm.trans hy
      | second s => cases (oneOf_read_second.1 hx).2

end OneOf

end Codec

/-! ## Fields -/

namespace Field

variable {f : Field ρ α}

/-- The value of the field in the entries `es'` is that in `es`, changed by `φ`. -/
def ReadsThrough (f : Field ρ α) (φ : α → α) (es es' : Object) : Prop :=
  ∀ b, f.readEntry es' = .ok b ↔ ∃ a, f.readEntry es = .ok a ∧ φ a = b

theorem readsThrough_id (h : es.get? f.key = es'.get? f.key) : f.ReadsThrough id es es' := by
  intro b
  rw [← readEntry_congr h]
  constructor
  · exact fun hb => ⟨b, hb, rfl⟩
  · rintro ⟨_, hb, rfl⟩
    exact hb

/-- A field is read through the change of its entry, if it is there, and of its default, if not. -/
theorem readsThrough_of_map {F : Node → Node} (hv : es'.get? f.key = (es.get? f.key).map F)
    (ha : ∀ a ∈ f.absent, φ a = a)
    (hc : ∀ n, es.get? f.key = some n → f.codec.ReadsThrough φ n (F n)) :
    f.ReadsThrough φ es es' := by
  intro b
  cases hg : es.get? f.key with
  | none =>
    rw [hg, Option.map_none] at hv
    rw [readEntry_of_absent hv, exists_congr fun a => and_congr_left fun _ =>
      readEntry_of_absent hg]
    constructor
    · exact fun hb => ⟨b, hb, ha b hb⟩
    · rintro ⟨a, haa, rfl⟩
      rwa [ha a haa]
  | some n =>
    rw [hg, Option.map_some] at hv
    rw [readEntry_of_get? hv, exists_congr fun a => and_congr_left fun _ => readEntry_of_get? hg]
    exact hc n hg b

theorem readsThrough_optional {key : String} {c : Codec α} {get : ρ → Option α} {F : Node → Node}
    (hF : ∀ n, (F n).kind = n.kind) (hv : es'.get? key = (es.get? key).map F)
    (hc : ∀ n, es.get? key = some n → c.ReadsThrough φ n (F n)) :
    (optional key c get).ReadsThrough (Option.map φ) es es' := by
  refine readsThrough_of_map hv (fun a ha => ?_) fun n hn =>
    Codec.option_readsThrough (hF n) (hc n hn)
  obtain rfl : none = a := Option.some.inj ha
  rfl

end Field

namespace Fields

/-- A mask for each field. -/
def Masks : {β : Type} → Fields ρ γ β → Type
  | _, done => Unit
  | _, @more _ _ α _ _ rest => (α → α) × rest.Masks

/-- Hides each value with the mask for its field. -/
def hide : {β : Type} → (fields : Fields ρ γ β) → fields.Masks → fields.Values → fields.Values
  | _, done, _, _ => ()
  | _, more _ rest, ms, vs => (ms.1 vs.1, rest.hide ms.2 vs.2)

/-- Each field is read through its mask. -/
def ReadThrough (es es' : Object) : {β : Type} → (fields : Fields ρ γ β) → fields.Masks → Prop
  | _, done, _ => True
  | _, more f rest, ms => f.ReadsThrough ms.1 es es' ∧ rest.ReadThrough es es' ms.2

theorem holds_readEntry_through : {β : Type} → {fields : Fields ρ γ β} → {ms : fields.Masks} →
    {vs' : fields.Values} → fields.ReadThrough es es' ms →
      (fields.Holds (fun f b => f.readEntry es' = .ok b) vs' ↔
        ∃ vs, fields.Holds (fun f a => f.readEntry es = .ok a) vs ∧ fields.hide ms vs = vs')
  | _, done, _, _, _ => ⟨fun _ => ⟨(), trivial, rfl⟩, fun _ => trivial⟩
  | _, more _ _, _, _, h => by
    constructor
    · rintro ⟨hb, hbs⟩
      obtain ⟨a, ha, hm⟩ := (h.1 _).1 hb
      obtain ⟨as, has, hms⟩ := (holds_readEntry_through h.2).1 hbs
      exact ⟨(a, as), ⟨ha, has⟩, Prod.ext hm hms⟩
    · rintro ⟨⟨a, as⟩, ⟨ha, has⟩, rfl⟩
      exact ⟨(h.1 _).2 ⟨a, ha, rfl⟩, (holds_readEntry_through h.2).2 ⟨as, has, rfl⟩⟩

end Fields

/-! ## Records -/

namespace Codec

section

variable {β : Type} {name : String} {make : β} {fields : Fields ρ ρ β}

/-- The mask of a record. -/
def recordMask (make : β) (fields : Fields ρ ρ β) (ms : fields.Masks) (x : ρ) : ρ :=
  fields.construct make (fields.hide ms (fields.project x))

/-- **A record is read through the masks of its fields.** -/
theorem record_readsThrough (h : fields.Lawful make) (ms : fields.Masks)
    (hf : fields.ReadThrough es es' ms) :
    (record name make fields).ReadsThrough (recordMask make fields ms) (.mapping es)
      (.mapping es') := by
  intro y
  rw [record_read_mapping h, Fields.holds_readEntry_through hf]
  constructor
  · rintro ⟨vs, hvs, hv⟩
    refine ⟨fields.construct make vs, (record_read_mapping h).2 ?_, ?_⟩
    · rwa [h.project_construct]
    · rw [recordMask, h.project_construct, hv, h.construct_project]
  · rintro ⟨x, hx, rfl⟩
    refine ⟨fields.project x, (record_read_mapping h).1 hx, ?_⟩
    rw [recordMask, h.project_construct]

end

section

variable {β : Type} {name : String} {make : β} {fields : Fields ρ (OrderedMap Node → ρ) β}
  {extra : ρ → OrderedMap Node}

/-- The same for a record that keeps the entries of unknown keys. -/
theorem openRecord_readsThrough {φ : ρ → ρ} (h : fields.OpenLawful make extra) (ms : fields.Masks)
    (hφ : ∀ x, φ x = fields.construct make (fields.hide ms (fields.project x)) (extra x))
    (hf : fields.ReadThrough es es' ms)
    (he : (Entries.splitKeys es' fields.keys).2 = (Entries.splitKeys es fields.keys).2) :
    (openRecord name make fields extra).ReadsThrough φ (.mapping es) (.mapping es') := by
  intro y
  rw [openRecord_read_mapping h, Fields.holds_readEntry_through hf, he]
  constructor
  · rintro ⟨⟨vs, hvs, hv⟩, hx⟩
    refine ⟨fields.construct make vs (extra y), (openRecord_read_mapping h).2 ⟨?_, ?_⟩, ?_⟩
    · rwa [h.project_construct]
    · rwa [h.extra_construct]
    · rw [hφ, h.project_construct, h.extra_construct, hv, h.construct_project]
  · rintro ⟨x, hx, rfl⟩
    obtain ⟨hx, hxe⟩ := (openRecord_read_mapping h).1 hx
    rw [hφ, h.project_construct, h.extra_construct]
    exact ⟨⟨fields.project x, hx, rfl⟩, hxe⟩

/-- It is read from nothing but mappings. -/
theorem openRecord_readsThrough_of_ne {φ : ρ → ρ} (hn : ∀ es, n ≠ .mapping es)
    (hk : n'.kind = n.kind) : (openRecord name make fields extra).ReadsThrough φ n n' := by
  have hr {m : Node} (hm : ∀ es, m ≠ .mapping es) (x : ρ) :
      (openRecord name make fields extra).read m ≠ .ok x := by
    cases m with
    | mapping es => exact absurd rfl (hm es)
    | _ => nofun
  have hn' (es : Object) : n' ≠ .mapping es := by
    rintro rfl
    cases n with
    | mapping es => exact hn es rfl
    | _ => cases hk
  intro y
  constructor
  · exact fun hy => absurd hy (hr hn' y)
  · rintro ⟨x, hx, -⟩
    exact absurd hx (hr hn x)

end

end Codec

end WorkflowDsl
