import WorkflowDsl.Proofs.Reader.Outcome

/-!
# Where fetched URLs come from

What is asked for when the schemas of a document are resolved goes back to the references that are
collected of it. Each of these is that of a schema, or stands in an entry that is free-form and has
a key under which other tasks have tasks.
-/

namespace WorkflowDsl

open ResourcePosition (referencesAt searchedReferences)

variable {reference : String}

/-- A resource with the reference stands somewhere in the tree. -/
def Node.Holds (n : Node) (reference : String) : Prop :=
  ∃ p x, n.at? p = some x ∧ resourceUri? x = some reference

theorem Node.holds_of_mem_referencesAt {n : Node} {ps : List Pointer}
    (h : reference ∈ referencesAt ps n) : n.Holds reference := by
  obtain ⟨p, -, h⟩ := List.mem_filterMap.1 h
  obtain ⟨x, hx, hr⟩ := Option.bind_eq_some_iff.1 h
  exact ⟨p, x, hx, hr⟩

/-- A schema in which a reference is found is external by that reference. -/
theorem Collector.FindsIn.exists_names {ss : List PlacedSchema}
    (h : references.FindsIn reference ss) : ∃ s ∈ ss, s.Names reference := by
  obtain ⟨s, hs, hp, hm⟩ := h
  obtain ⟨x, hx, hu⟩ := List.mem_map.1 hm
  exact ⟨s, hs, hp, x, Option.mem_toList.1 hx, hu⟩

/-- A free-form entry of the task is searched, and holds a resource with the reference. -/
def Task.Misreads (t : Task) (reference : String) : Prop :=
  ∃ e ∈ t.freeEntries, e.1 ∈ misreadKeys ∧ e.2.Holds reference

theorem Collector.FindsFree.misreads {t : Task} (h : references.FindsFree reference t) :
    t.Misreads reference := by
  obtain ⟨key, hk, v, hv, hm⟩ := h
  exact ⟨(key, v), Entries.mem_of_get? hv, hk, Node.holds_of_mem_referencesAt hm⟩

namespace Workflow

variable {n : Node} {w : Workflow}

/-- The reference is that of a schema of the document, or stands in a free-form entry of it that is
searched. -/
def Mentions (w : Workflow) (reference : String) : Prop :=
  (∃ s ∈ w.schemas, s.Names reference) ∨ (∃ t ∈ w.allTasks, t.Misreads reference) ∨
    ∃ v, w.extra.get? "export" = some v ∧ v.Holds reference

/-- The references that are collected of a document are mentioned by it. -/
theorem mentions_of_mem_collect (h : reference ∈ w.collect .references) :
    w.Mentions reference := by
  rcases finds_of_mem_collect h with h | ⟨t, ht, h⟩ | ⟨v, hv, h⟩
  · exact .inl h.exists_names
  · exact .inr (.inl ⟨t, ht, h.misreads⟩)
  · exact .inr (.inr ⟨v, hv, Node.holds_of_mem_referencesAt h⟩)

/-- **Every URL that is asked for when a document is resolved is that of a reference that the
document mentions**, whether resolving succeeds or not. -/
theorem mentions_of_mem_outcome {r : Resolver} (hn : n.distinctKeys = true)
    (hr : codec.read n = .ok w) {u : Url} (hu : u ∈ (r.resolveWorkflow w).outcome.2) :
    ∃ reference, resolveReference r.base reference = .ok u ∧ w.Mentions reference := by
  have hw : codec.decode n = .ok w := Codec.decode_eq_ok.2 hr
  obtain ⟨reference, hm, hu⟩ := (r.serves_resolveWorkflow hn hw []).exists_of_mem hu
  rw [schemaReferences_eq hn hr] at hm
  exact ⟨reference, hu, mentions_of_mem_collect hm⟩

end Workflow

end WorkflowDsl
