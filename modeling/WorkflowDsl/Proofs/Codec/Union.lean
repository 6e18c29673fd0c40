import WorkflowDsl.Proofs.Codec.Keyed
import WorkflowDsl.Proofs.Collection.Entries

/-!
# Definitions that are named by one key

A `KeyedUnion` is a type of definitions of several kinds, each of which is a mapping that has the
key of its kind and of no other. `KeyedUnion.NamedByKey` says what this comes to, for each mapping
and each other tree. It holds of a union that finds the key before all else, then reads what the
kind asks for (`KeyedUnion.NamedByKey.of_body`).
-/

namespace WorkflowDsl

/-- Definitions of several kinds, as they are read and written. -/
structure KeyedUnion (α : Type) where
  /-- What a definition is called in the refusal of a tree that is no mapping. -/
  definition : String
  /-- What the kinds are called in the refusal of a mapping. -/
  family : String
  kindKeys : List String
  read : Node → Except DefinitionError α
  write : α → Node
  /-- The key of the kind of a definition. -/
  key : α → String
  /-- The other keys that definitions of the kind are read from. -/
  options : α → List String

namespace KeyedUnion

variable {α : Type} {u : KeyedUnion α} {es : Object}

/-- The keys of kinds that a mapping has, in the order of the kinds. -/
def present (u : KeyedUnion α) (es : Object) : List String :=
  u.kindKeys.filter fun key => decide (key ∈ Entries.keys es)

/-- One key of a mapping tells the kind. -/
structure NamedByKey (u : KeyedUnion α) : Prop where
  /-- Only mappings are read. -/
  refuses : ∀ n : Node, (∀ es, n ≠ .mapping es) →
    u.read n = .error (.shapeMismatch u.definition "mapping" n.kind.text)
  /-- Without a key of a kind, all keys are reported as they are written. -/
  unnamed : ∀ es, u.present es = [] →
    u.read (.mapping es) = .error (.ambiguousKind u.family (Entries.keys es))
  /-- Several keys of kinds are reported in the order of the kinds. -/
  ambiguous : ∀ es, 2 ≤ (u.present es).length →
    u.read (.mapping es) = .error (.ambiguousKind u.family (u.present es))
  /-- What is read is of the kind of the only key. -/
  named : ∀ es a, u.read (.mapping es) = .ok a → u.present es = [u.key a]
  /-- It is written under that key, and under no other of a kind. -/
  written : ∀ a, ∃ es, u.write a = .mapping es ∧ u.present es = [u.key a]
  /-- Other entries do not count, wherever they stand. -/
  ignores : ∀ before after key n a, u.read (.mapping (before ++ after)) = .ok a →
    key ∉ u.kindKeys → key ∉ u.options a →
      u.read (.mapping (before ++ (key, n) :: after)) = .ok a

/-- The one key of a kind is among those of the kinds. -/
theorem mem_kindKeys_of_presentKeys {key : String} (h : es.presentKeys u.kindKeys = [key]) :
    key ∈ u.kindKeys := by
  have hm : key ∈ es.presentKeys u.kindKeys := by
    rw [h]
    exact List.mem_singleton_self key
  exact (List.mem_filter.1 hm).1

theorem present_eq_presentKeys (u : KeyedUnion α) (es : Object) :
    u.present es = es.presentKeys u.kindKeys := by
  refine List.filter_congr fun key _ => ?_
  rw [Bool.eq_iff_iff, decide_eq_true_iff, Entries.hasKey_iff]

/-- An entry between others is found under its own key only. -/
theorem get?_between_of_ne {before after : Object} {key k : String} (n : Node) (h : key ≠ k) :
    Entries.get? (before ++ (key, n) :: after) k = Entries.get? (before ++ after) k := by
  rw [Entries.get?_append, Entries.get?_append, Entries.get?_cons, if_neg h]

/-- A union first finds the key of the kind in a mapping, and then reads by it. -/
structure ReadsBy (u : KeyedUnion α) (body : Object → String → Except DefinitionError α) :
    Prop where
  read_eq : ∀ n, u.read n =
    n.toObject u.definition >>= fun es => es.singleKind u.family u.kindKeys >>= body es
  key_of_body : ∀ {es : Object} {key a}, key ∈ u.kindKeys → body es key = .ok a → u.key a = key
  /-- Only what stands under the key and the others of the kind counts. -/
  body_congr : ∀ {es fs : Object} {key a}, key ∈ u.kindKeys → body es key = .ok a →
    (∀ k ∈ key :: u.options a, es.get? k = fs.get? k) → body fs key = .ok a

theorem ReadsBy.read_mapping {body : Object → String → Except DefinitionError α}
    (h : u.ReadsBy body) (es : Object) :
    u.read (.mapping es) = es.singleKind u.family u.kindKeys >>= body es := by
  rw [h.read_eq]
  rfl

/-- **A union that first finds the key of the kind, and then reads by it, is named by that key.** -/
theorem NamedByKey.of_body {body : Object → String → Except DefinitionError α} (h : u.ReadsBy body)
    (hw : ∀ a, ∃ es, u.write a = .mapping es ∧ u.present es = [u.key a]) : u.NamedByKey where
  written := hw
  refuses n hn := by
    rw [h.read_eq]
    cases n with
    | mapping es => exact absurd rfl (hn es)
    | _ => rfl
  unnamed es hp := by
    rw [present_eq_presentKeys] at hp
    rw [h.read_mapping, Entries.singleKind, hp]
    rfl
  ambiguous es hp := by
    rw [present_eq_presentKeys] at hp ⊢
    rw [h.read_mapping, Entries.singleKind]
    split
    · next hk =>
      rw [hk, List.length_singleton] at hp
      omega
    · next hk =>
      rw [hk, List.length_nil] at hp
      omega
    · rfl
  named es a ha := by
    rw [h.read_mapping] at ha
    obtain ⟨key, hk, hb⟩ := except_bind_eq_ok.1 ha
    have hp := Entries.singleKind_eq_ok.1 hk
    rw [present_eq_presentKeys, hp, h.key_of_body (mem_kindKeys_of_presentKeys hp) hb]
  ignores before after key n a ha hkey ho := by
    rw [h.read_mapping] at ha ⊢
    obtain ⟨kind, hk, hb⟩ := except_bind_eq_ok.1 ha
    have hp := Entries.singleKind_eq_ok.1 hk
    have hm : ∀ k ∈ u.kindKeys, key ≠ k := fun k hk he => hkey (he ▸ hk)
    refine except_bind_eq_ok.2 ⟨kind, ?_, ?_⟩
    · rw [Entries.singleKind_eq_ok, ← hp]
      refine List.filter_congr fun k hk => ?_
      exact congrArg Option.isSome (get?_between_of_ne n (hm k hk))
    · refine h.body_congr (mem_kindKeys_of_presentKeys hp) hb fun k hk => ?_
      refine (get?_between_of_ne n ?_).symm
      rcases List.mem_cons.1 hk with rfl | hk
      · exact hm k (mem_kindKeys_of_presentKeys hp)
      · rintro rfl
        exact ho hk

end KeyedUnion

end WorkflowDsl
