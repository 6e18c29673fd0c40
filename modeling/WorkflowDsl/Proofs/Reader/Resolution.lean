import WorkflowDsl.Proofs.Model.RoundTrip
import WorkflowDsl.Proofs.Reader.TaskSchemas

/-!
# Schemas of documents that are resolved

A document that is read and resolved has the same schemas at the same places, each of them settled
(`Workflow.settlesAt_of_resolveWorkflow`): at the places that are searched no resource is left, and
a schema that had one holds the document that the resource means, unless that document is null. What
a task does for each event that it listens for is not searched, so that schemas stay external there.

For this the functions that a document declares must have distinct names, as they have in what is
read from a tree with distinct keys. Of functions of one name only the first is found by its name.
-/

namespace WorkflowDsl

open Pointer (below)
open ResourcePosition

variable {r : Resolver}

/-- The tasks of the list `m'` are those of `m` with documents inlined. -/
def Task.ListInlines (r : Resolver) (m m' : NamedMap Task) : Prop :=
  List.Forall₂ (Inlines r) m.values m'.values

/-! ## Components -/

theorem Extension.listInlines {e e' : Extension} (hk : codec.Keeps e)
    (h : codec.ReadsInlined r (extensionPointers false (codec.write e)) e e') :
    List.Forall₂ (Task.ListInlines r) [e.before, e.after] [e'.before, e'.after] := by
  obtain ⟨-, -, hwb, hwa, -⟩ := Codec.holds_child?_write (c := codec) rfl (.computed rfl) e
  obtain ⟨-, -, hkb, hka, -⟩ := (Codec.record_keeps_iff (.computed rfl)).1 hk
  obtain ⟨-, -, hb, ha, -⟩ := Codec.record_readsInlined (.computed rfl) (deep_extensionPointers _) h
  have hb := Task.inlines_of_omitted hb hkb (below_extensionPointers (by decide)) hwb
  have ha := Task.inlines_of_omitted ha hka (below_extensionPointers (by decide)) hwa
  exact .cons hb (.cons ha .nil)

namespace Components

/-- The tasks of the components `c'` are those of `c` with documents inlined. -/
structure Inlines (r : Resolver) (c c' : Components) : Prop where
  lists : List.Forall₂ (Task.ListInlines r)
    (c.extensions.values.flatMap fun e => [e.before, e.after])
    (c'.extensions.values.flatMap fun e => [e.before, e.after])
  functions :
    List.Forall₂ (Task.Inlines r) c.functions.entries.values c'.functions.entries.values

variable {c c' : Components}

theorem inlines_extensions (hk : codec.Keeps c)
    (h : codec.ReadsInlined r (componentPointers false (codec.write c)) c c') :
    List.Forall₂ (Task.ListInlines r) (c.extensions.values.flatMap fun e => [e.before, e.after])
      (c'.extensions.values.flatMap fun e => [e.before, e.after]) := by
  obtain ⟨-, -, -, hw, -⟩ := Codec.holds_child?_write (c := codec) rfl (.computed rfl) c
  obtain ⟨-, -, -, hk, -⟩ := (Codec.record_keeps_iff (.computed rfl)).1 hk
  obtain ⟨-, -, -, he, -⟩ := Codec.record_readsInlined (.computed rfl) (deep_componentPointers _) h
  have he : (Field.omitted "extensions" (.namedMap Extension.codec) {} NamedMap.isEmpty
      Components.extensions).ReadsInlined r (below "extensions" _) c.extensions c'.extensions := he
  rw [below_componentPointers_extensions] at he
  rcases Field.omitted_readsInlined he hk with ⟨hc, hc'⟩ | ⟨hw', hk, he⟩
  · rw [hc, hc']
    exact .nil
  · obtain ⟨hn, hk⟩ := Codec.namedMap_keeps_iff.1 hk
    have hw : (codec.write c).child? "extensions" = _ := hw.trans hw'
    rw [hw] at he
    have hm : List.Forall₂ (fun e e' => e ∈ c.extensions.values ∧
        Extension.codec.ReadsInlined r (extensionPointers false (Extension.codec.write e)) e e')
        c.extensions.values c'.extensions.values :=
      (List.forall₂_and_left _ _).2
        ⟨fun _ he => he, (Codec.namedMap_readsInlined deep_extensionPointers hn he).values⟩
    refine List.rel_flatMap hm fun e e' h => ?_
    obtain ⟨p, hp, rfl⟩ := List.mem_map.1 h.1
    exact Extension.listInlines (hk p hp) h.2

theorem inlines_functions (hk : codec.Keeps c) (hn : c.functions.keys.Nodup)
    (h : codec.ReadsInlined r (componentPointers false (codec.write c)) c c') :
    List.Forall₂ (Task.Inlines r) c.functions.entries.values c'.functions.entries.values := by
  obtain ⟨-, -, -, -, hw, -⟩ := Codec.holds_child?_write (c := codec) rfl (.computed rfl) c
  obtain ⟨-, -, -, -, hk, -⟩ := (Codec.record_keeps_iff (.computed rfl)).1 hk
  obtain ⟨-, -, -, -, hf, -⟩ :=
    Codec.record_readsInlined (.computed rfl) (deep_componentPointers _) h
  have hf : (Field.omitted "functions" (.map Task.codec) {} OrderedMap.isEmpty
      Components.functions).ReadsInlined r (below "functions" _) c.functions c'.functions := hf
  rw [below_componentPointers_functions] at hf
  rcases Field.omitted_readsInlined hf hk with ⟨hc, hc'⟩ | ⟨hw', hk, hf⟩
  · rw [hc, hc']
    exact .nil
  · have hk := Codec.map_keeps_iff.1 hk
    have hw : (codec.write c).child? "functions" = _ := hw.trans hw'
    rw [hw] at hf
    have hm := (Codec.map_readsInlined deep_taskPointers hn hf).values
    refine (List.forall₂_and_left _ _).2 ⟨fun t ht => ?_, hm⟩
    obtain ⟨p, hp, rfl⟩ := List.mem_map.1 ht
    exact hk p hp

/-- The functions that are read from a tree with distinct keys have distinct names. -/
theorem nodup_functions_of_read {n : Node} (hn : n.distinctKeys = true)
    (h : codec.read n = .ok c) : c.functions.keys.Nodup := by
  obtain ⟨-, -, -, -, hf, -⟩ := Codec.record_holds_of_read (.computed rfl)
    (Node.Below.of_distinct hn) h
  rcases hf with ⟨m, hm, hr⟩ | ha
  · exact Codec.nodup_keys_of_map_read hm hr
  · have ha : {} = c.functions := Option.some.inj ha
    rw [← ha]
    exact List.nodup_nil

/-- The components of a document, if it has any, have documents inlined. -/
theorem inlines_of_optional {es : Object} {x y : Option Components}
    (hn : ∀ c, x = some c → c.functions.keys.Nodup)
    (hk : (Field.optional "use" codec Workflow.components).Keeps x)
    (hw : es.get? "use" = (Field.optional "use" codec Workflow.components).written? x)
    (h : (Field.optional "use" codec Workflow.components).ReadsInlined r
      (below "use" (documentPointers false (.mapping es))) x y) :
    List.Forall₂ (Inlines r) x.toList y.toList := by
  have hrel := Field.rel_of_optional_readsInlined (c := codec) (fun _ => nofun) h
  rw [below_documentPointers_use, hw, Field.optional_written?] at hrel
  have hk := Field.optional_keeps_iff.1 hk
  cases hrel with
  | none => exact .nil
  | some hc =>
    have hk := (Codec.option_keeps_some.1 hk).2
    exact .cons ⟨inlines_extensions hk hc, inlines_functions hk (hn _ rfl) hc⟩ .nil

end Components

/-! ## Documents -/

namespace Workflow

variable {n : Node} {w w' : Workflow}

/-- The schemas of a document: those of its own data models, and those of its tasks at any depth. -/
def schemas (w : Workflow) : List PlacedSchema :=
  placed .input (w.input.bind (·.schema)) ++ placed .output (w.output.bind (·.schema))
    ++ w.allTasks.flatMap Task.ownSchemas

theorem nodup_functions_of_read (hn : n.distinctKeys = true) (h : codec.read n = .ok w)
    {c : Components} (hc : w.components = some c) : c.functions.keys.Nodup := by
  cases n with
  | mapping es =>
    obtain ⟨⟨-, -, hu, -⟩, -⟩ := (Codec.openRecord_read_mapping (.computed rfl)).1 h
    have hu : (Field.optional "use" Components.codec Workflow.components).readEntry es =
      .ok w.components := hu
    rw [hc] at hu
    rcases Field.readEntry_cases hu with ⟨m, hm, ho⟩ | ha
    · have ho : Components.codec.option.read m = .ok (some c) := ho
      obtain ⟨-, hr⟩ := Codec.option_read_eq_some.1 ho
      exact Components.nodup_functions_of_read ((Node.distinctKeys_mapping.1 hn).2 _ hm) hr
    · cases ha
  | _ => cases h

section

variable (hk : codec.Keeps w) (hn : ∀ c, w.components = some c → c.functions.keys.Nodup)
  (h : codec.ReadsInlined r (documentPointers false (codec.write w)) w w')
include hk hn h

/-- The tasks of a document, at any depth, are read with documents inlined. -/
theorem inlines_allTasks : List.Forall₂ (Task.Inlines r) w.allTasks w'.allTasks := by
  obtain ⟨hk, he⟩ := (Codec.openRecord_keeps_iff (.computed rfl)).1 hk
  obtain ⟨es, hes, hw, hr⟩ := Codec.openRecord_readsInlined
    (.computed rfl) he (deep_documentPointers _) h
  have hes : codec.write w = .mapping es := hes
  rw [hes] at hr
  obtain ⟨-, -, hwc, hwt, -⟩ := hw
  obtain ⟨-, -, hkc, hkt, -⟩ := hk
  obtain ⟨-, -, hc, ht, -⟩ := hr
  have hc := Components.inlines_of_optional hn hkc hwc hc
  -- The tasks that stand in no other task.
  have hl : List.Forall₂ (Task.ListInlines r) w.outerLists w'.outerLists :=
    .cons (Task.inlines_of_required ht hkt below_documentPointers_do hwt)
      (List.rel_flatMap hc fun _ _ h => h.lists)
  have hf : List.Forall₂ (Task.Inlines r) w.functions w'.functions :=
    List.rel_flatMap hc fun _ _ h => h.functions
  have hts := List.rel_append (List.rel_flatMap hl fun _ _ h => h) hf
  exact List.rel_flatMap hts fun _ _ h => h.subtasks

/-- **The schemas of a document are settled when documents are inlined at all of them.** -/
theorem settlesAt_schemas : List.Forall₂ r.SettlesAt w.schemas w'.schemas := by
  have hts := inlines_allTasks hk hn h
  obtain ⟨hk, he⟩ := (Codec.openRecord_keeps_iff (.computed rfl)).1 hk
  obtain ⟨es, hes, hw, hr⟩ := Codec.openRecord_readsInlined
    (.computed rfl) he (deep_documentPointers _) h
  have hes : codec.write w = .mapping es := hes
  rw [hes] at hr
  obtain ⟨-, hwi, -, -, -, hwo, -⟩ := hw
  obtain ⟨-, hki, -, -, -, hko, -⟩ := hk
  obtain ⟨-, hi, -, -, -, ho, -⟩ := hr
  refine List.rel_append (List.rel_append ?_ ?_) ?_
  · exact Codec.settlesAt_of_optional_model (.computed rfl) rfl
      (below_documentPointers_of_model (by decide)) hwi hki hi
  · exact Codec.settlesAt_of_optional_model (.computed rfl) rfl
      (below_documentPointers_of_model (by decide)) hwo hko ho
  · exact List.rel_flatMap hts fun _ _ h => h.settlesAt_ownSchemas

end

end Workflow

/-- Where external resources are looked for, none is left. -/
theorem Resolver.SettlesAt.resource_eq_none_iff {s s' : PlacedSchema} (h : r.SettlesAt s s') :
    s'.schema.resource = none ↔ s.place.isSearched = false → s.schema.resource = none := by
  obtain ⟨-, h⟩ := h
  cases hp : s.place.isSearched with
  | false =>
    have h : s'.schema = s.schema := by simpa [hp] using h
    simp [h]
  | true =>
    have h : r.Settles s.schema s'.schema := by simpa [hp] using h
    rw [Settles] at h
    split at h
    · next hs => simp [h, hs]
    · obtain ⟨d, -, h⟩ := h
      simp [h]

theorem Resolver.forall_resource_eq_none_iff {ss ss' : List PlacedSchema}
    (h : List.Forall₂ r.SettlesAt ss ss') :
    (∀ s ∈ ss', s.schema.resource = none) ↔
      ∀ s ∈ ss, s.place.isSearched = false → s.schema.resource = none := by
  induction h with
  | nil => simp
  | cons h _ ih => rw [List.forall_mem_cons, List.forall_mem_cons, ih, h.resource_eq_none_iff]

namespace Workflow

variable {n : Node} {w w' : Workflow}

/-- The schemas of a document and of what it is resolved to correspond, each at its place. -/
theorem forall₂_settlesAt (hn : n.distinctKeys = true) (hw : codec.decode n = .ok w)
    (hr : (r.resolveWorkflow w).outcome.1 = .ok w') :
    List.Forall₂ r.SettlesAt w.schemas w'.schemas := by
  have hw := Codec.decode_eq_ok.1 hw
  have hk : codec.Keeps w := Codec.StableBelow.keeps_of_read (Node.Below.of_distinct hn) hw
  obtain ⟨m, hm, hr⟩ := Resolver.inlines_of_resolveWorkflow (Resolution.gives_of_outcome hr)
  rw [pointers_resourcePositions] at hm
  exact settlesAt_schemas hk (fun _ => nodup_functions_of_read hn hw) ⟨m, hm, hr⟩

/-- A document that takes in an order, and listens for answers whose schema is external. -/
def survey (order : Schema) : Workflow :=
  let answer : OutputModel := { schema := some { resource := some (.ofUri "urn:answer") } }
  let task : ListenTask Task :=
    { listener := { strategy := .endless (.any []) }
      subscription := some { output := some answer } }
  { info := { name := "survey", version := "1.0.0" }
    input := some { schema := some order }
    tasks := ⟨[("answers", .ofKind (.listen task))]⟩ }

def surveyResolver : Resolver := { fetcher := fetchFrom [("urn:order", "\x7b\x7d")] }

end Workflow

end WorkflowDsl
