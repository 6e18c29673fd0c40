import WorkflowDsl.Codec.Basic
import WorkflowDsl.Proofs.Document.Node

/-!
# Reading back what was written

A codec *reads back* `b` from `a` when reading what `a` is written as gives `b`, and it *keeps*
`a` when it reads back `a` itself. Three classes say for which values that holds:

* **`Codec.Lossless`**: all values are kept, and none is written as null;
* **`Codec.Keeping`**: all values are kept, but some may be written as null, as nodes are;
* **`Codec.StableBelow d`**: the values read from trees below depth `d` are kept. A type whose
  values are not all kept may still have a stable codec: reading gives none of the others.

Null is told apart because it also stands for no value (`Codec.option`): a value that is written as
null would be read back as none.
-/

namespace WorkflowDsl

/-! ## Results -/

section Results

variable {ε ε' α β : Type}

theorem except_bind_eq_ok {x : Except ε α} {f : α → Except ε β} {b : β} :
    (x >>= f) = .ok b ↔ ∃ a, x = .ok a ∧ f a = .ok b := by
  cases x with
  | error e =>
    constructor
    · intro h
      cases h
    · rintro ⟨_, h, _⟩
      cases h
  | ok a =>
    refine ⟨fun h => ⟨a, rfl, h⟩, ?_⟩
    rintro ⟨a', h, h'⟩
    cases h
    exact h'

theorem except_bind_eq_error {x : Except ε α} {f : α → Except ε β} {e : ε} :
    (x >>= f) = .error e ↔ x = .error e ∨ ∃ a, x = .ok a ∧ f a = .error e := by
  cases x with
  | error e' =>
    refine ⟨fun h => .inl (congrArg _ (Except.error.inj h)), ?_⟩
    rintro (h | ⟨_, h, _⟩)
    · exact congrArg _ (Except.error.inj h)
    · cases h
  | ok a =>
    refine ⟨fun h => .inr ⟨a, rfl, h⟩, ?_⟩
    rintro (h | ⟨a', h, h'⟩)
    · cases h
    · cases h
      exact h'

theorem except_map_eq_ok {x : Except ε α} {f : α → β} {b : β} :
    x.map f = .ok b ↔ ∃ a, x = .ok a ∧ f a = b := by
  cases x <;> simp [Except.map]

theorem except_mapError_eq_ok {x : Except ε α} {f : ε → ε'} {a : α} :
    x.mapError f = .ok a ↔ x = .ok a := by
  cases x <;> simp [Except.mapError]

theorem except_mapError_eq_error {x : Except ε α} {f : ε → ε'} {e : ε'} :
    x.mapError f = .error e ↔ ∃ e', x = .error e' ∧ f e' = e := by
  cases x <;> simp [Except.mapError]

theorem except_mapError_mapError {ε'' : Type} (x : Except ε α) (f : ε → ε') (g : ε' → ε'') :
    (x.mapError f).mapError g = x.mapError (g ∘ f) := by
  cases x <;> rfl

end Results

namespace Codec

variable {α β : Type} {c : Codec α} {n : Node} {a b : α}

theorem decode_eq_ok : c.decode n = .ok a ↔ c.read n = .ok a := except_mapError_eq_ok

theorem ofDefinition_read_eq_ok {name : String} {read : Node → Except DefinitionError α}
    {write : α → Node} : (ofDefinition name read write).read n = .ok a ↔ read n = .ok a :=
  except_mapError_eq_ok

/-- Reading what `a` is written as gives `b`. -/
def ReadsBack (c : Codec α) (a b : α) : Prop := c.read (c.write a) = .ok b

/-- Reading what `a` is written as gives `a` again. -/
def Keeps (c : Codec α) (a : α) : Prop := c.ReadsBack a a

/-- All values are kept. -/
class Keeping (c : Codec α) : Prop where
  keeps : ∀ a, c.Keeps a

/-- All values are kept, and none is written as null. -/
class Lossless (c : Codec α) : Prop extends Keeping c where
  write_ne_null : ∀ a, c.write a ≠ .null

theorem keeps (c : Codec α) [Keeping c] (a : α) : c.Keeps a := Keeping.keeps a

/-- The values read from trees below depth `d` are kept, and only null is read as a value that is
written as null. -/
class StableBelow (d : Nat) (c : Codec α) : Prop where
  keeps_of_read : ∀ {n : Node} {a : α}, n.Below d → c.read n = .ok a → c.Keeps a
  null_of_write : ∀ {n : Node} {a : α},
    n.Below d → c.read n = .ok a → c.write a = .null → n = .null

instance (d : Nat) [Lossless c] : StableBelow d c where
  keeps_of_read _ _ := c.keeps _
  null_of_write _ _ h := absurd h (Lossless.write_ne_null _)

theorem StableBelow.mono {d d' : Nat} (h : StableBelow d c) (hd : d' ≤ d) : StableBelow d' c where
  keeps_of_read hn := h.keeps_of_read (hn.mono hd)
  null_of_write hn := h.null_of_write (hn.mono hd)

theorem StableBelow.zero : StableBelow 0 c where
  keeps_of_read hn := absurd hn.depth_lt (Nat.not_lt_zero _)
  null_of_write hn := absurd hn.depth_lt (Nat.not_lt_zero _)

/-- Both codecs read trees of fewer than `d` levels alike. -/
def AgreeBelow (d : Nat) (c c' : Codec α) : Prop := ∀ n : Node, n.depth < d → c.read n = c'.read n

theorem AgreeBelow.refl (d : Nat) (c : Codec α) : AgreeBelow d c c := fun _ _ => rfl

theorem AgreeBelow.mono {d d' : Nat} {c c' : Codec α} (h : AgreeBelow d c c') (hd : d' ≤ d) :
    AgreeBelow d' c c' :=
  fun n hn => h n (Nat.lt_of_lt_of_le hn hd)

/-! ## Scalars -/

instance : Keeping node := ⟨fun _ => rfl⟩

instance (d : Nat) : StableBelow d node where
  keeps_of_read _ _ := node.keeps _
  null_of_write _ h hw := (Except.ok.inj h).trans hw

instance : Lossless string where
  keeps _ := rfl
  write_ne_null _ := nofun

instance : Lossless bool where
  keeps _ := rfl
  write_ne_null _ := nofun

instance : Lossless float where
  keeps _ := rfl
  write_ne_null _ := nofun

theorem integer_read {name : String} {least greatest i : Int} (hl : least ≤ i)
    (hg : i ≤ greatest) : (integer name least greatest).read (.number (.int i)) = .ok i := by
  simp [integer, hl, hg]

theorem imap_readsBack_iff {make : α → β} {get : β → α} {x y : β} :
    (c.imap make get).ReadsBack x y ↔ ∃ a, c.ReadsBack (get x) a ∧ make a = y :=
  except_map_eq_ok

/-- A number of bits whose range the integers of a codec cover. -/
theorem Lossless.imap_integer {name : String} {least greatest : Int} {make : Int → β}
    {get : β → Int} (hl : ∀ x, least ≤ get x) (hg : ∀ x, get x ≤ greatest)
    (h : ∀ x, make (get x) = x) : Lossless ((integer name least greatest).imap make get) where
  keeps x := imap_readsBack_iff.2 ⟨get x, integer_read (hl x) (hg x), h x⟩
  write_ne_null _ := nofun

instance : Lossless uint16 :=
  .imap_integer (fun _ => by omega) (fun w => by have := w.toNat_lt; omega) fun _ => by simp

instance : Lossless uint32 :=
  .imap_integer (fun _ => by omega) (fun w => by have := w.toNat_lt; omega) fun _ => by simp

instance : Lossless uint64 :=
  .imap_integer (fun _ => by omega) (fun w => by have := w.toNat_lt; omega) fun _ => by simp

instance [Lossless c] (name : String) : Lossless (c.named name) where
  keeps := c.keeps
  write_ne_null := Lossless.write_ne_null (c := c)

/-- A choice is lossless when each value is the first one with its name. -/
theorem Lossless.choice {name : String} {all : List α} {text : α → String}
    (h : ∀ a, all.find? (text · == text a) = some a) : Lossless (choice name all text) where
  keeps a := by
    show choice.find all text (text a) = .ok a
    rw [choice.find, h a]
  write_ne_null _ := nofun

/-! ## Optional values -/

theorem option_read_of_ne_null (h : n ≠ .null) : c.option.read n = (c.read n).map some := by
  cases n with
  | null => exact absurd rfl h
  | _ => rfl

/-- Only null is read as no value. -/
theorem option_read_eq_some : c.option.read n = .ok (some a) ↔ n ≠ .null ∧ c.read n = .ok a := by
  by_cases h : n = .null
  · subst h
    exact iff_of_false nofun fun h => h.1 rfl
  · rw [option_read_of_ne_null h, except_map_eq_ok]
    simp [h]

theorem option_readsBack_none {x : Option α} : c.option.ReadsBack none x ↔ x = none :=
  ⟨fun h => (Except.ok.inj h).symm, fun h => congrArg Except.ok h.symm⟩

theorem option_readsBack_null (h : c.write a = .null) {x : Option α} :
    c.option.ReadsBack (some a) x ↔ x = none := by
  show c.option.read (c.write a) = _ ↔ _
  rw [h]
  exact option_readsBack_none (c := c)

theorem option_readsBack_some (h : c.write a ≠ .null) {x : Option α} :
    c.option.ReadsBack (some a) x ↔ ∃ b, c.ReadsBack a b ∧ some b = x := by
  show c.option.read (c.write a) = _ ↔ _
  rw [option_read_of_ne_null h]
  exact except_map_eq_ok

theorem option_keeps_none : c.option.Keeps none := option_readsBack_none.2 rfl

theorem option_keeps_some : c.option.Keeps (some a) ↔ c.write a ≠ .null ∧ c.Keeps a := by
  by_cases h : c.write a = .null
  · rw [Keeps, option_readsBack_null h]
    simp [h]
  · rw [Keeps, option_readsBack_some h]
    simp [h, Keeps]

instance [Lossless c] : Keeping c.option where
  keeps
    | none => option_keeps_none
    | some a => option_keeps_some.2 ⟨Lossless.write_ne_null a, c.keeps a⟩

instance (d : Nat) [h : StableBelow d c] : StableBelow d c.option where
  keeps_of_read {n x} hn hr := by
    cases x with
    | none => exact option_keeps_none
    | some a =>
      obtain ⟨h0, ha⟩ := option_read_eq_some.1 hr
      exact option_keeps_some.2 ⟨fun hw => h0 (h.null_of_write hn ha hw), h.keeps_of_read hn ha⟩
  null_of_write {n x} hn hr hw := by
    by_contra h0
    rw [option_read_of_ne_null h0, except_map_eq_ok] at hr
    obtain ⟨a, ha, rfl⟩ := hr
    exact h0 (h.null_of_write hn ha hw)

theorem AgreeBelow.option {d : Nat} {c c' : Codec α} (h : AgreeBelow d c c') :
    AgreeBelow d c.option c'.option := by
  intro n hn
  by_cases h0 : n = .null
  · rw [h0]
    rfl
  · rw [option_read_of_ne_null h0, option_read_of_ne_null h0, h n hn]

end Codec

end WorkflowDsl
