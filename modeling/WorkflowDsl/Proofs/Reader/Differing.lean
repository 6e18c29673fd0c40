import WorkflowDsl.Proofs.Codec.Through
import WorkflowDsl.Proofs.Reader.Inlining
import WorkflowDsl.Proofs.Reader.Mask
import WorkflowDsl.Proofs.Reader.Position

/-!
# Values of trees that differ

`Codec.Survives` says of a value that is read from a tree: from trees that differ from it at some
pointers a value is read as well, and it is the same but for what a mask hides.

This is followed through a type like reading back: a record by its fields, each with the pointers
below its key (`Codec.record_survives`), and lists of named values by the values
(`Codec.namedMap_survives`). Where no pointer leads, the value stays as it is
(`Codec.survives_nil`).
-/

namespace WorkflowDsl

open Pointer (below)
open ResourcePosition (entryPointers listPointers)

/-! ## Outcomes -/

section

variable {ε ε' α β : Type} {mask : α → α} {mask' : β → β} {x : Except ε α} {a : α}

/-- The outcome `x` is a value: `a`, but for what is hidden. -/
def Yields (mask : α → α) (x : Except ε α) (a : α) : Prop := ∃ b, x = .ok b ∧ mask b = mask a

theorem yields_of_ok (h : x = .ok a) : Yields mask x a := ⟨a, h, rfl⟩

theorem Yields.congr {y : Except ε' α} (h : Yields mask x a) (hy : ∀ {b}, y = .ok b ↔ x = .ok b) :
    Yields mask y a := by
  obtain ⟨b, hb, hm⟩ := h
  exact ⟨b, hy.2 hb, hm⟩

theorem Yields.map {f : α → β} (h : Yields mask x a)
    (hf : ∀ {b}, mask b = mask a → mask' (f b) = mask' (f a)) :
    Yields mask' (x.map f) (f a) := by
  obtain ⟨b, hb, hm⟩ := h
  exact ⟨f b, except_map_eq_ok.2 ⟨b, hb, rfl⟩, hf hm⟩

/-- What is hidden by one mask may also be hidden by another. -/
theorem Yields.imp {mask' : α → α} (h : Yields mask x a)
    (hm : ∀ {b}, mask b = mask a → mask' b = mask' a) : Yields mask' x a := by
  obtain ⟨b, hb, h⟩ := h
  exact ⟨b, hb, hm h⟩

/-- Items that are converted one after another are the same, but for what is hidden of each. -/
theorem Yields.mapM {f : β → Except ε α} {bs : List β} {as : List α}
    (h : List.Forall₂ (fun b a => Yields mask (f b) a) bs as) :
    Yields (List.map mask) (bs.mapM f) as := by
  induction h with
  | nil => exact yields_of_ok rfl
  | cons ha _ ih =>
    obtain ⟨a, ha, hm⟩ := ha
    obtain ⟨as, has, hms⟩ := ih
    rw [List.mapM_cons]
    refine ⟨a :: as, except_bind_eq_ok.2 ⟨a, ha, except_bind_eq_ok.2 ⟨as, has, rfl⟩⟩, ?_⟩
    rw [List.map_cons, List.map_cons, hm, hms]

end

variable {E : Difference} {ps : List Pointer} {n : Node} {es es' : Object}

namespace Codec

variable {α : Type} {c : Codec α} {mask : α → α} {a : α}

/-- The value is read from all trees that differ at the pointers, but for what is hidden. -/
def Survives (c : Codec α) (E : Difference) (mask : α → α) (ps : List Pointer) (n : Node) (a : α) :
    Prop :=
  ∀ ⦃n'⦄, E ps n n' → Yields mask (c.read n') a

/-- Values that are read from trees below depth `d` survive when these differ at the pointers that
`f` gives. -/
def SurvivesBelow (d : Nat) (c : Codec α) (E : Difference) (mask : α → α)
    (f : Node → List Pointer) : Prop :=
  ∀ ⦃n a⦄, n.depth < d → c.read n = .ok a → c.Survives E mask (f n) n a

variable (hE : E.Descends)
include hE

/-- What does not differ stays. -/
theorem survives_nil (h : c.read n = .ok a) : c.Survives E mask [] n a := by
  intro n' he
  rw [hE.nil he]
  exact yields_of_ok h

theorem option_survives {x : Option α} (hr : c.option.read n = .ok x)
    (h : ∀ ⦃a⦄, c.read n = .ok a → c.Survives E mask ps n a) :
    c.option.Survives E (Option.map mask) ps n x := by
  intro n' he
  by_cases hn : n = .null
  · subst hn
    have hk := hE.kind he
    cases n' <;> cases hk
    exact yields_of_ok hr
  · obtain ⟨a, ha, rfl⟩ := except_map_eq_ok.1 ((option_read_of_ne_null hn).symm.trans hr)
    rw [option_read_of_ne_null (hE.ne_null he hn)]
    exact (h ha he).map fun hb => congrArg some hb

end Codec

/-! ## Records -/

namespace Field

variable {ρ α : Type} {f : Field ρ α} {mask : α → α} {a : α}

/-- What the field is read from survives when the entries differ at the pointers. -/
def Survives (f : Field ρ α) (E : Difference) (mask : α → α) (ps : List Pointer) (es : Object) :
    Prop :=
  ∀ ⦃n a⦄, es.get? f.key = some n → f.codec.read n = .ok a →
    f.codec.Survives E mask (below f.key ps) n a

/-- A field stays where nothing differs below its key. -/
theorem survives_of_below (hE : E.Descends) (h : below f.key ps = []) :
    f.Survives E mask ps es := by
  intro n a _ hr
  rw [h]
  exact Codec.survives_nil hE hr

theorem survives_optional (hE : E.Descends) {key : String} {c : Codec α} {get : ρ → Option α}
    (h : ∀ ⦃n a⦄, es.get? key = some n → c.read n = .ok a →
      c.Survives E mask (below key ps) n a) :
    (optional key c get).Survives E (Option.map mask) ps es :=
  fun _ _ hn hr => Codec.option_survives hE hr fun _ => h hn

theorem yields (hes : E.Entrywise ps es es') (hf : f.Survives E mask ps es)
    (h : f.readEntry es = .ok a) : Yields mask (f.readEntry es') a := by
  cases hg : es.get? f.key with
  | none =>
    have hg' := hes.agree.get?_eq_none.2 hg
    exact yields_of_ok ((readEntry_congr (hg.trans hg'.symm)).1 h)
  | some n =>
    obtain ⟨n', hn', he⟩ := hes.values hg
    exact (hf hg ((readEntry_of_get? hg).1 h) he).congr (readEntry_of_get? hn')

end Field

namespace Fields

variable {ρ γ : Type}

/-- Each field survives when the entries differ at the pointers. -/
def Survive (E : Difference) (ps : List Pointer) (es : Object) :
    {β : Type} → (fields : Fields ρ γ β) → fields.Masks → Prop
  | _, done, _ => True
  | _, more f rest, ms => f.Survives E ms.1 ps es ∧ rest.Survive E ps es ms.2

/-- Values are read for all fields, each the same but for what is hidden of it. -/
theorem exists_holds_readEntry (hes : E.Entrywise ps es es') :
    {β : Type} → {fields : Fields ρ γ β} → {ms : fields.Masks} → {vs : fields.Values} →
      fields.Survive E ps es ms → fields.Holds (fun f a => f.readEntry es = .ok a) vs →
      ∃ vs', fields.Holds (fun f a => f.readEntry es' = .ok a) vs' ∧
        fields.hide ms vs' = fields.hide ms vs
  | _, done, _, _, _, _ => ⟨(), trivial, rfl⟩
  | _, more _ _, _, _, hf, h =>
    have ⟨a, ha, hm⟩ := Field.yields hes hf.1 h.1
    have ⟨vs, hvs, hms⟩ := exists_holds_readEntry hes hf.2 h.2
    ⟨(a, vs), ⟨ha, hvs⟩, Prod.ext hm hms⟩

end Fields

/-- What is hidden in a map may differ. -/
theorem OrderedMap.maskBy_eq {P : String → Prop} {keys : List String} {f : String → Node → Node}
    {fs gs : Object} (h : Entries.AgreeBut P fs gs) (hn : (Entries.keys fs).Nodup)
    (hk : ∀ {key v v'}, P key → Entries.get? fs key = some v → Entries.get? gs key = some v' →
      key ∈ keys ∧ f key v' = f key v) :
    maskBy keys f ⟨gs⟩ = maskBy keys f ⟨fs⟩ := by
  have hn' : (Entries.keys gs).Nodup := h.keys_eq ▸ hn
  have hm : List.Forall₂ (fun g e => g ∈ gs ∧ e ∈ fs ∧ e.1 = g.1 ∧ (P e.1 ∨ e.2 = g.2)) gs fs :=
    (List.forall₂_and_left _ _).2 ⟨fun _ hg => hg, ((List.forall₂_and_left _ _).2
      ⟨fun _ he => he, h⟩).flip⟩
  refine congrArg mk (List.forall₂_eq_eq_eq ▸ List.forall₂_map_left_iff.2
    (List.forall₂_map_right_iff.2 (hm.imp ?_)))
  rintro ⟨key', v'⟩ ⟨key, v⟩ ⟨hg, he, hkey, hv⟩
  obtain rfl : key = key' := hkey
  refine Prod.ext rfl ?_
  rcases hv with hp | rfl
  · obtain ⟨hks, hf⟩ := hk hp (Entries.get?_of_mem hn he) (Entries.get?_of_mem hn' hg)
    dsimp only
    rw [if_pos hks, if_pos hks, hf]
  · rfl

namespace Codec

section Record

variable {ρ β : Type} {name : String} {make : β} {fields : Fields ρ ρ β} {x : ρ}

/-- **A record is read from entries that differ when each of its fields survives.** -/
theorem record_yields (hr : (record name make fields).read (.mapping es) = .ok x)
    (h : fields.Lawful make) (ms : fields.Masks) (hes : E.Entrywise ps es es')
    (hf : fields.Survive E ps es ms) :
    Yields (recordMask make fields ms) ((record name make fields).read (.mapping es')) x := by
  obtain ⟨vs, hvs, hm⟩ := Fields.exists_holds_readEntry hes hf ((record_read_mapping h).1 hr)
  refine ⟨fields.construct make vs, (record_read_mapping h).2 ?_, ?_⟩
  · rwa [h.project_construct]
  · rw [recordMask, h.project_construct, hm]
    rfl

/-- The same for a record that is also read from sequences, which do not differ. -/
theorem record_survives (hE : E.Descends) (hr : (record name make fields).read n = .ok x)
    (h : fields.Lawful make) (ms : fields.Masks) (hps : Pointer.Deep ps)
    (hn : (∀ es, n ≠ .mapping es) → ps = [])
    (hf : ∀ es, n = .mapping es → fields.Survive E ps es ms) :
    (record name make fields).Survives E (recordMask make fields ms) ps n x := by
  cases n with
  | mapping es =>
    intro n' he
    obtain ⟨es', rfl, hes⟩ := hE.mapping hps he
    exact record_yields hr h ms hes (hf es rfl)
  | _ =>
    rw [hn fun _ => nofun]
    exact survives_nil hE hr

end Record

section OpenRecord

variable {ρ β : Type} {name : String} {make : β} {fields : Fields ρ (OrderedMap Node → ρ) β}
  {extra : ρ → OrderedMap Node} {x : ρ}

/-- The same for a record that keeps the entries of unknown keys. Of these, those that are searched
are masked. -/
theorem openRecord_yields
    (hr : (openRecord name make fields extra).read (.mapping es) = .ok x)
    (h : fields.OpenLawful make extra) (ms : fields.Masks) {keys : List String}
    {f : String → Node → Node} (hes : E.Entrywise ps es es') (hf : fields.Survive E ps es ms)
    (hn : (Entries.keys es).Nodup)
    (hk : ∀ {key v v'}, key ∉ fields.keys → below key ps ≠ [] → es.get? key = some v →
      E (below key ps) v v' → key ∈ keys ∧ f key v' = f key v) :
    Yields
      (fun x => fields.construct make (fields.hide ms (fields.project x))
        ((extra x).maskBy keys f))
      ((openRecord name make fields extra).read (.mapping es')) x := by
  obtain ⟨hx, he⟩ := (openRecord_read_mapping h).1 hr
  obtain ⟨vs, hvs, hm⟩ := Fields.exists_holds_readEntry hes hf hx
  refine ⟨fields.construct make vs ⟨(Entries.splitKeys es' fields.keys).2⟩,
    (openRecord_read_mapping h).2 ⟨?_, ?_⟩, ?_⟩
  · rwa [h.project_construct]
  · rw [h.extra_construct]
  · dsimp only
    have hx : extra x = ⟨(Entries.splitKeys es fields.keys).2⟩ := congrArg OrderedMap.mk he.symm
    rw [h.project_construct, h.extra_construct, hm, hx]
    refine congrArg _ (OrderedMap.maskBy_eq (hes.agree.splitKeys_snd _)
      ((Entries.sublist_splitKeys_snd es fields.keys).map Prod.fst |>.nodup hn) ?_)
    intro key v v' hp hv hv'
    have hnk : key ∉ fields.keys :=
      (Entries.mem_keys_splitKeys_snd (Entries.mem_keys_of_mem (Entries.mem_of_get? hv))).2
    rw [Entries.get?_splitKeys_snd _ hnk] at hv hv'
    obtain ⟨w, hw, he⟩ := hes.values hv
    obtain rfl := Option.some.inj (hw.symm.trans hv')
    exact hk hnk hp hv he

end OpenRecord

/-! ## Lists and maps -/

section Collection

variable {α : Type} {c : Codec α} {mask : α → α} {f : Node → List Pointer} {d : Nat}
  (hE : E.Descends)
include hE

/-- An item of a named map survives with its value. -/
theorem readNamed_survives (hf : ∀ n, Pointer.Deep (f n)) (hc : c.SurvivesBelow d E mask f)
    (hd : n.depth < d) {e : String × α} (hr : readNamed c n = .ok e) {n' : Node}
    (he : E (entryPointers f (some n)) n n') :
    Yields (Prod.map id mask) (readNamed c n') e := by
  obtain ⟨name, a⟩ := e
  obtain ⟨v, rfl, ha⟩ := readNamed_eq_ok.1 hr
  have hn : (Entries.keys [(name, v)]).Nodup := List.nodup_singleton name
  obtain ⟨es', rfl, hes⟩ := hE.entries hn (fun e _ => (hf e.2).ne_nil) he
  obtain ⟨⟨name', v'⟩, rest, ⟨hk, hv'⟩, hrest, rfl⟩ := List.forall₂_cons_left_iff.1 hes
  obtain rfl := List.forall₂_nil_left_iff.1 hrest
  obtain rfl : name = name' := hk
  have hv : v.depth < (Node.mapping [(name, v)]).depth :=
    Node.depth_lt_of_mem_mapping (e := (name, v)) List.mem_cons_self
  refine ((hc (Nat.lt_trans hv hd) ha hv').map (f := Prod.mk name)
    fun h => congrArg (Prod.mk name) h).congr fun {e} => ?_
  rw [readNamed_eq_ok, except_map_eq_ok]
  constructor
  · rintro ⟨w, hw, hb⟩
    obtain ⟨hk, rfl⟩ := Prod.mk.inj (List.cons.inj (Node.mapping.inj hw)).1
    exact ⟨e.2, hb, congrArg (·, e.2) hk⟩
  · rintro ⟨b, hb, rfl⟩
    exact ⟨v', rfl, hb⟩

/-- **A named map survives when its values do.** -/
theorem namedMap_survives (hf : ∀ n, Pointer.Deep (f n)) (hc : c.SurvivesBelow d E mask f)
    (hd : n.depth ≤ d) {m : NamedMap α} (hr : (namedMap c).read n = .ok m) :
    (namedMap c).Survives E (NamedMap.map mask) (listPointers f (some n)) n m := by
  intro n' he
  cases n with
  | sequence ns =>
    obtain ⟨es, hes, rfl⟩ := namedMap_read_sequence.1 hr
    obtain ⟨ns', rfl, hns⟩ := hE.sequence
      (fun _ _ => ResourcePosition.ne_nil_of_mem_entryPointers) he
    have hy : List.Forall₂ (fun n' e => Yields (Prod.map id mask) (readNamed c n') e) ns' es := by
      have hm : List.Forall₂ (fun n n' => n ∈ ns ∧ E (entryPointers f (some n)) n n') ns ns' :=
        (List.forall₂_and_left _ _).2 ⟨fun _ hn => hn, hns⟩
      refine (forall₂_comp hm.flip hes).imp ?_
      rintro n' e ⟨n, ⟨hn, he⟩, hr⟩
      exact readNamed_survives hE hf hc
        (Nat.lt_of_lt_of_le (Node.depth_lt_of_mem_sequence hn) hd) hr he
    refine (Yields.mapM hy).map fun {es'} h => congrArg NamedMap.mk ?_
    show (Entries.ofList es').mapValues mask = (Entries.ofList es).mapValues mask
    rw [Entries.ofList_mapValues, Entries.ofList_mapValues]
    exact congrArg Entries.ofList h
  | _ => cases hr

omit hE in
theorem readEntries_eq_mapM (c : Codec α) (es : Object) :
    readEntries c es = es.mapM fun e => (c.read e.2).map (Prod.mk e.1) := by
  induction es with
  | nil => rfl
  | cons e es ih =>
    rw [readEntries, List.mapM_cons, ih]
    cases c.read e.2 <;> rfl

/-- A map survives when its values do. -/
theorem map_survives (hf : ∀ n, Pointer.Deep (f n)) (hc : c.SurvivesBelow d E mask f)
    (hd : n.depth ≤ d) (hn : ∀ {n'}, E (entryPointers f (some n)) n n' → n.distinctKeys = true)
    {m : OrderedMap α} (hr : (map c).read n = .ok m) :
    (map c).Survives E (OrderedMap.map mask) (entryPointers f (some n)) n m := by
  intro n' he
  cases n with
  | mapping es =>
    have hn := (Node.distinctKeys_mapping.1 (hn he)).1
    obtain ⟨es', rfl, hes⟩ := hE.entries hn (fun e _ => (hf e.2).ne_nil) he
    have hm : List.Forall₂ (fun e e' => e ∈ es ∧ e.1 = e'.1 ∧ E (f e.2) e.2 e'.2) es es' :=
      (List.forall₂_and_left _ _).2 ⟨fun _ he => he, hes⟩
    have hy : List.Forall₂ (fun e' e => Yields (Prod.map id mask)
        ((c.read e'.2).map (Prod.mk e'.1)) e) es' m.entries := by
      refine (forall₂_comp hm.flip (map_read_mapping.1 hr)).imp ?_
      rintro ⟨key', v'⟩ ⟨key'', a⟩ ⟨⟨key, v⟩, ⟨hv, hk', he⟩, hk, hr⟩
      obtain rfl : key = key' := hk'
      obtain rfl : key = key'' := hk
      have hv := Nat.lt_of_lt_of_le (Node.depth_lt_of_mem_mapping hv) hd
      exact (hc hv hr he).map fun h => congrArg (Prod.mk key) h
    show Yields _ ((readEntries c es').map OrderedMap.mk) m
    rw [readEntries_eq_mapM]
    exact (Yields.mapM hy).map fun h => congrArg OrderedMap.mk h
  | _ => cases hr

end Collection

end Codec

end WorkflowDsl
