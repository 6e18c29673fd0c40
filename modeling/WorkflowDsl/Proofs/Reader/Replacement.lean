import WorkflowDsl.Proofs.Document.Substitution
import WorkflowDsl.Proofs.Reader.Blanking
import WorkflowDsl.Proofs.Reader.LegacyReplacing
import WorkflowDsl.Proofs.Reader.Recording

/-!
# Which texts of a document are replaced

The URIs of the resources of a document stand at its `uriPlaces`, and the references of a legacy
document at the `legacyUriPlaces`. Rewriting a document replaces the relative references among the
texts that stand there, and nothing else (`rebaseResources_eq_mapTextsAt`,
`rebaseLegacyReferences_eq_mapTextsAt`). The places do not depend on the texts, so a document is not
rewritten twice if what its references are replaced by is not relative.
-/

namespace WorkflowDsl

open Pointer (below)
open ResourcePosition

variable {f : String → Option String} {g : String → String} {n : Node} {p q : Pointer}

/-! ## Texts and what they are written in -/

theorem modifyText_eq_mapTextsAt (n : Node) : n.modifyText g = n.mapTextsAt g [[]] := by
  have hr : n.mapTextsAt g [[]] = (n.mapTextsAt g []).modifyText g := by
    cases n with
    | string s =>
      rw [Node.mapTextsAt_string, Node.mapTextsAt_string, if_pos (List.mem_singleton_self _)]
      rfl
    | mapping es =>
      rw [Node.mapTextsAt_mapping, Node.mapTextsAt_mapping]
      rfl
    | sequence ns =>
      rw [Node.mapTextsAt_sequence, Node.mapTextsAt_sequence]
      rfl
    | _ => rfl
  rw [hr, Node.mapTextsAt_nil]

/-- The text that stands in the place of a mapping, or under a key of this. -/
theorem eq_mapTextsAt_of_textOrUnder {F : Node → Node} {key : String}
    (hm : ∀ es, F (.mapping es) = (Node.mapping es).modifyAt (Node.modifyText g) [key])
    (ht : ∀ n, (∀ es, n ≠ .mapping es) → F n = n.modifyText g) (hk : Pointer.index? key = none)
    (hn : n.distinctKeys = true) : F n = n.mapTextsAt g [[], [key]] := by
  cases n with
  | mapping es =>
    rw [hm, Node.modifyAt_eq_mapTextsAt _ (fun n _ => modifyText_eq_mapTextsAt n) hn,
      Node.mapTextsAt_mapping, Node.mapTextsAt_mapping]
    rfl
  | sequence ns =>
    have hb (i : Nat) : below (toString i) [[], [key]] = below (toString i) [[]] := by
      refine Pointer.below_cons_of_ne (fun h => ?_) [] []
      rw [h, Pointer.index?_toString] at hk
      cases hk
    rw [ht _ (by rintro _ ⟨⟩), modifyText_eq_mapTextsAt, Node.mapTextsAt_sequence,
      Node.mapTextsAt_sequence]
    simp only [hb]
  | string s =>
    rw [ht _ (by rintro _ ⟨⟩), Node.mapTextsAt_string, if_pos List.mem_cons_self]
    rfl
  | _ =>
    rw [ht _ (by rintro _ ⟨⟩)]
    rfl

/-! ## Resources -/

/-- Where the URI of a resource may stand. -/
def endpointPlaces (p : Pointer) : List Pointer := [p ++ ["endpoint"], p ++ ["endpoint", "uri"]]

/-- Where the URIs of the resources of a document may stand. -/
def uriPlaces (n : Node) : List Pointer :=
  (resourcePositions n).flatMap fun position => endpointPlaces position.pointer

theorem rebaseEndpoint_eq_mapTextsAt (hn : n.distinctKeys = true) :
    rebaseEndpoint g n = n.mapTextsAt g [[], ["uri"]] := by
  refine eq_mapTextsAt_of_textOrUnder (fun _ => rfl) (fun n h => ?_) (by decide) hn
  cases n with
  | mapping es => exact absurd rfl (h es)
  | _ => rfl

theorem modifyAt_rebaseResource (hn : n.distinctKeys = true) :
    n.modifyAt (rebaseResource g) p = n.mapTextsAt g (endpointPlaces p) :=
  Node.modifyAt_eq_mapTextsAt (endpointPlaces [])
    (fun _ hn => Node.modifyAt_eq_mapTextsAt _ (fun _ => rebaseEndpoint_eq_mapTextsAt) hn) hn

theorem disjoint_endpointPlaces (h : p ≠ q) :
    List.Disjoint (endpointPlaces p) (endpointPlaces q) := by
  simp only [endpointPlaces, List.disjoint_cons_left, List.disjoint_nil_left, and_true,
    List.mem_cons, List.not_mem_nil, or_false, not_or]
  have hlast (p q : Pointer) : p ++ ["endpoint"] ≠ q ++ ["endpoint", "uri"] := by
    intro he
    have hl := congrArg List.getLast? he
    simp at hl
  exact ⟨⟨fun he => h (List.append_cancel_right he), hlast p q⟩, (hlast q p).symm,
    fun he => h (List.append_cancel_right he)⟩

theorem uriPlaces_eq (n : Node) :
    uriPlaces n = (documentPointers true n).flatMap endpointPlaces := by
  rw [uriPlaces, ← pointers_resourcePositions, pointers_true, List.flatMap_map]

/-- Rewriting moves no URI. -/
theorem uriPlaces_rebaseResources (f : String → Option String) (n : Node) :
    uriPlaces (rebaseResources f n) = uriPlaces n := by
  rw [uriPlaces_eq, uriPlaces_eq, documentPointers_rebaseResources]

/-- **Rewriting a document replaces the URIs of its resources, where they are relative.** -/
theorem rebaseResources_eq_mapTextsAt (f : String → Option String) (hn : n.distinctKeys = true) :
    rebaseResources f n = n.mapTextsAt (rebaseReference f) (uriPlaces n) := by
  refine Node.foldl_modifyAt_eq_mapTextsAt (p := ResourcePosition.pointer)
    (fun _ _ => modifyAt_rebaseResource) ?_ hn
  have hd := nodup_documentPointers hn
  rw [← pointers_resourcePositions, pointers_true, List.Nodup, List.pairwise_map] at hd
  exact hd.imp disjoint_endpointPlaces

/-! ## Legacy documents -/

/-- Where the references of a legacy document may stand. -/
def legacyUriPlaces : List Pointer :=
  legacyReferenceFields.map ([·]) ++ [["dataInputSchema", "schema"]]

/-- Where a field may hold a reference. -/
def fieldPlaces (field : String) : List Pointer :=
  if field = "dataInputSchema" then [[field], [field, "schema"]] else [[field]]

theorem modifyAt_rebaseField {field : String} (hn : n.distinctKeys = true) :
    n.modifyAt (Legacy.rebaseField g field) [field] = n.mapTextsAt g (fieldPlaces field) := by
  by_cases hf : field = "dataInputSchema"
  · subst hf
    refine Node.modifyAt_eq_mapTextsAt [[], ["schema"]] (fun n hn => ?_) hn
    refine eq_mapTextsAt_of_textOrUnder (fun _ => rfl) (fun n h => ?_) (by decide) hn
    cases n with
    | mapping es => exact absurd rfl (h es)
    | _ => rfl
  · rw [fieldPlaces, if_neg hf]
    refine Node.modifyAt_eq_mapTextsAt [[]] (fun n _ => ?_) hn
    rw [Legacy.rebaseField_of_ne hf, modifyText_eq_mapTextsAt]

theorem disjoint_fieldPlaces {field field' : String} (h : field ≠ field') :
    List.Disjoint (fieldPlaces field) (fieldPlaces field') := by
  have hhead {field : String} {p : Pointer} (hp : p ∈ fieldPlaces field) :
      p.head? = some field := by
    rw [fieldPlaces] at hp
    split at hp <;> simp only [List.mem_cons, List.not_mem_nil, or_false] at hp
    · rcases hp with rfl | rfl <;> rfl
    · exact hp ▸ rfl
  exact fun p hp hq => h (Option.some.inj ((hhead hp).symm.trans (hhead hq)))

/-- **Rewriting a legacy document replaces its references, where they are relative.** -/
theorem rebaseLegacyReferences_eq_mapTextsAt (f : String → Option String)
    (hn : n.distinctKeys = true) :
    rebaseLegacyReferences f n = n.mapTextsAt (rebaseReference f) legacyUriPlaces := by
  have hf : legacyReferenceFields.Nodup := by decide
  have hp : (legacyReferenceFields.flatMap fieldPlaces).Perm legacyUriPlaces := by decide
  rw [← Node.mapTextsAt_congr fun _ => hp.mem_iff]
  exact Node.foldl_modifyAt_eq_mapTextsAt (p := fun field => [field])
    (F := Legacy.rebaseField (rebaseReference f)) (fun _ _ => modifyAt_rebaseField)
    (hf.imp disjoint_fieldPlaces) hn

/-! ## Rewriting twice -/

theorem rebaseReference_cases (f : String → Option String) (s : String) :
    rebaseReference f s = s ∨
      isRelativeReference s = true ∧ f s = some (rebaseReference f s) := by
  rw [rebaseReference]
  split
  · next hr =>
    cases f s with
    | none => exact .inl rfl
    | some t => exact .inr ⟨hr, rfl⟩
  · exact .inl rfl

/-- What is replaced by a reference that is not relative is not replaced again. -/
theorem rebaseReference_idem (hf : ∀ s t, f s = some t → isRelativeReference t = false)
    (s : String) : rebaseReference f (rebaseReference f s) = rebaseReference f s := by
  rcases rebaseReference_cases f s with h | ⟨-, h⟩
  · rw [h, h]
  · rw [rebaseReference.eq_1 f (rebaseReference f s), hf _ _ h, if_neg Bool.false_ne_true]

/-- **Rewriting touches relative references only**, those of resources and those of the fields of a
legacy document. Where no reference is replaced by a relative one, rewriting twice is rewriting
once. -/
theorem rebase_eq_mapTextsAt (f : String → Option String) (hn : n.distinctKeys = true) :
    rebaseResources f n = n.mapTextsAt (rebaseReference f) (uriPlaces n) ∧
      rebaseLegacyReferences f n = n.mapTextsAt (rebaseReference f) legacyUriPlaces ∧
      (∀ s, rebaseReference f s = s ∨
        isRelativeReference s = true ∧ f s = some (rebaseReference f s)) ∧
      ((∀ s t, f s = some t → isRelativeReference t = false) →
        rebaseResources f (rebaseResources f n) = rebaseResources f n ∧
          rebaseLegacyReferences f (rebaseLegacyReferences f n) = rebaseLegacyReferences f n) := by
  have hr := rebaseResources_eq_mapTextsAt f hn
  have hl := rebaseLegacyReferences_eq_mapTextsAt f hn
  refine ⟨hr, hl, rebaseReference_cases f, fun hf => ⟨?_, ?_⟩⟩
  · rw [rebaseResources_eq_mapTextsAt f (hr ▸ Node.distinctKeys_mapTextsAt hn),
      uriPlaces_rebaseResources, hr, Node.mapTextsAt_idem (rebaseReference_idem hf)]
  · rw [rebaseLegacyReferences_eq_mapTextsAt f (hl ▸ Node.distinctKeys_mapTextsAt hn), hl,
      Node.mapTextsAt_idem (rebaseReference_idem hf)]

/-- A document that has the same text as the URI of a resource and as a payload. -/
def twiceNamed : Node :=
  .mapping [("do", .sequence
    [.mapping [("call", .mapping [("call", .string "grpc"), ("with", .mapping
      [("proto", .mapping [("endpoint", .mapping [("uri", .string "api.proto")])])])])],
    .mapping [("keep", .mapping [("set", .mapping [("endpoint", .string "api.proto")])])]])]

/-- Gives a single text. -/
def absoluteProto (s : String) : Option String :=
  if s = "api.proto" then some "https://example.com/api.proto" else none

theorem rebase_eq_mapTextsAt_twiceNamed :
    let m := rebaseResources absoluteProto twiceNamed
    twiceNamed.distinctKeys = true ∧
      (∀ s t, absoluteProto s = some t → isRelativeReference t = false) ∧
      m = twiceNamed.mapTextsAt (rebaseReference absoluteProto) (uriPlaces twiceNamed) ∧
      m.texts = ["grpc", "https://example.com/api.proto", "api.proto"] ∧
      rebaseResources absoluteProto m = m := by
  intro m
  have hd : twiceNamed.distinctKeys = true := by decide
  have hf : ∀ s t, absoluteProto s = some t → isRelativeReference t = false := by
    have ht : isRelativeReference "https://example.com/api.proto" = false := by decide +kernel
    intro s t h
    rw [absoluteProto] at h
    split at h
    · obtain rfl := Option.some.inj h
      exact ht
    · cases h
  obtain ⟨hr, -, -, hi⟩ := rebase_eq_mapTextsAt absoluteProto hd
  exact ⟨hd, hf, hr, by decide +kernel, (hi hf).1⟩

end WorkflowDsl
