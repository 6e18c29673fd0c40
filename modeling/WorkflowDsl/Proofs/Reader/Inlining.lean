import WorkflowDsl.Proofs.Document.Parsing
import WorkflowDsl.Proofs.Reader.Loading

/-!
# Inlining leads down

Inlining the document of a resource, and changing what stands at a pointer, lead down as
`Editor.LeadsDown` says: a pointer that goes through a key or an index, and further, changes what
stands there. So what is inlined can be followed down a tree. Keys that are distinct stay so
(`Resolver.distinctKeys_of_inlines`).
-/

namespace WorkflowDsl

variable {r : Resolver} {n n' : Node} {p : Pointer}

/-- Changing what stands at a pointer through a key changes what stands under the key. -/
theorem Node.modifyAt_entry (f : Node → Node) (key : String) (p : Pointer) (es : Object) :
    ∃ es' : Object, (mapping es).modifyAt f (key :: p) = mapping es' ∧
      Entries.AgreeBut (· = key) es es' ∧
      ∀ {v}, Entries.get? es key = some v → Entries.get? es' key = some (v.modifyAt f p) := by
  refine ⟨modifyEntry (modifyAt f p) key es, rfl, agreeBut_modifyEntry, fun {v} hv => ?_⟩
  rw [get?_modifyEntry_self, hv]
  rfl

theorem Node.modifyAt_key (f : Node → Node) (key : String) (es : Object) :
    ∃ es' : Object, (mapping es).modifyAt f [key] = mapping es' ∧
      Entries.AgreeBut (· = key) es es' ∧ Entries.get? es' key = (Entries.get? es key).map f :=
  ⟨modifyEntry (modifyAt f []) key es, rfl, agreeBut_modifyEntry, get?_modifyEntry_self⟩

theorem Node.modifyAt_item (f : Node → Node) {ns : List Node} {i : Nat} {v : Node}
    (hv : ns[i]? = some v) (p : Pointer) :
    (sequence ns).modifyAt f (toString i :: p) = sequence (ns.set i (v.modifyAt f p)) := by
  simp only [modifyAt, Pointer.index?_toString]
  rw [List.modify_eq_set_getElem?, hv]
  rfl

theorem Node.length_modifyAt {f : Node → Node} (hf : ∀ ns, f (sequence ns) = sequence ns)
    {ns ns' : List Node} {p : Pointer} (h : (sequence ns).modifyAt f p = sequence ns') :
    ns'.length = ns.length := by
  cases p with
  | nil =>
    rw [modifyAt, hf] at h
    rw [Node.sequence.inj h]
  | cons key p =>
    rw [modifyAt] at h
    split at h
    · rw [← Node.sequence.inj h, List.length_modify]
    · rw [Node.sequence.inj h]

/-- Changing what stands at a pointer leads down. -/
theorem Editor.leadsDown_modifyAt {f : Node → Node} (hf : ∀ n, (f n).kind = n.kind)
    (hs : ∀ ns, f (.sequence ns) = .sequence ns) :
    LeadsDown (fun n p => (.ok (n.modifyAt f p) : Except ReadError Node)) where
  kind h := by
    obtain rfl := Except.ok.inj h
    exact Node.kind_modifyAt hf _ _
  length h := Node.length_modifyAt hs (Except.ok.inj h)
  entry {es key p n'} _ h := by
    obtain rfl := Except.ok.inj h
    obtain ⟨es', he, ha, hv⟩ := Node.modifyAt_entry f key p es
    exact ⟨es', he, ha, fun {v} hg => ⟨v.modifyAt f p, hv hg, rfl⟩⟩
  item {ns i v p n'} hv _ h := by
    obtain rfl := Except.ok.inj h
    exact ⟨v.modifyAt f p, rfl, Node.modifyAt_item f hv p⟩

namespace Resolver

theorem kind_inlineDocument (d n : Node) : (inlineDocument d n).kind = n.kind := by
  cases n <;> rfl

/-- What inlining does at a pointer depends on what stands there alone. -/
theorem inlineAt_eq_ok : r.inlineAt n p = .ok n' ↔
    ((n.at? p).bind resourceUri? = none ∧ n' = n) ∨
      ∃ reference d, (n.at? p).bind resourceUri? = some reference ∧
        r.document reference = .ok d ∧ n' = n.modifyAt (inlineDocument d) p.dropLast := by
  rw [inlineAt]
  cases hr : (n.at? p).bind resourceUri? with
  | none =>
    constructor
    · exact fun h => .inl ⟨rfl, (Except.ok.inj h).symm⟩
    · rintro (⟨-, rfl⟩ | ⟨_, _, h, -⟩)
      · rfl
      · cases h
  | some reference =>
    constructor
    · intro h
      obtain ⟨d, hd, rfl⟩ := except_map_eq_ok.1 h
      exact .inr ⟨reference, d, rfl, hd, rfl⟩
    · rintro (⟨h, -⟩ | ⟨_, d, h, hd, rfl⟩)
      · cases h
      · obtain rfl := Option.some.inj h
        exact except_map_eq_ok.2 ⟨d, hd, rfl⟩

/-- **Inlining leads down.** -/
theorem leadsDown_inlineAt (r : Resolver) : Editor.LeadsDown r.inlineAt where
  kind {n n' p} h := by
    obtain ⟨-, rfl⟩ | ⟨_, d, -, -, rfl⟩ := inlineAt_eq_ok.1 h
    · rfl
    · exact Node.kind_modifyAt (kind_inlineDocument d) _ _
  length {ns ns' p} h := by
    obtain ⟨-, h⟩ | ⟨_, d, -, -, h⟩ := inlineAt_eq_ok.1 h
    · rw [Node.sequence.inj h]
    · exact Node.length_modifyAt (f := inlineDocument d) (fun _ => rfl) h.symm
  entry {es key p n'} hp h := by
    have ha : (Node.mapping es).at? (key :: p) = (Entries.get? es key).bind (·.at? p) := rfl
    obtain ⟨hr, rfl⟩ | ⟨reference, d, hr, hd, rfl⟩ := inlineAt_eq_ok.1 h
    · refine ⟨es, rfl, .refl _ _, fun {v} hv => ⟨v, hv, inlineAt_eq_ok.2 (.inl ⟨?_, rfl⟩)⟩⟩
      rwa [ha, hv] at hr
    · rw [List.dropLast_cons_of_ne_nil hp]
      obtain ⟨es', he, hes, hv'⟩ := Node.modifyAt_entry (inlineDocument d) key p.dropLast es
      refine ⟨es', he, hes, fun {v} hv => ⟨_, hv' hv, inlineAt_eq_ok.2 (.inr ?_)⟩⟩
      rw [ha, hv] at hr
      exact ⟨reference, d, hr, hd, rfl⟩
  item {ns i v p n'} hv hp h := by
    have ha : (Node.sequence ns).at? (toString i :: p) = v.at? p := by
      show ((Pointer.index? (toString i)).bind (ns[·]?)).bind _ = _
      rw [Pointer.index?_toString, Option.bind_some, hv, Option.bind_some]
    obtain ⟨hr, rfl⟩ | ⟨reference, d, hr, hd, rfl⟩ := inlineAt_eq_ok.1 h
    · obtain ⟨hi, rfl⟩ := List.getElem?_eq_some_iff.1 hv
      refine ⟨ns[i], inlineAt_eq_ok.2 (.inl ⟨?_, rfl⟩), by rw [List.set_getElem_self]⟩
      rwa [ha] at hr
    · rw [List.dropLast_cons_of_ne_nil hp]
      rw [ha] at hr
      exact ⟨_, inlineAt_eq_ok.2 (.inr ⟨reference, d, hr, hd, rfl⟩),
        Node.modifyAt_item _ hv p.dropLast⟩

/-! ## Distinct keys -/

theorem distinctKeys_of_document {reference : String} {d : Node}
    (h : r.document reference = .ok d) : d.distinctKeys = true := by
  obtain ⟨_, -, h⟩ := except_bind_eq_ok.1 h
  obtain ⟨_, -, h⟩ := except_bind_eq_ok.1 h
  exact distinctKeys_of_readDetected h

theorem distinctKeys_inlineDocument {d : Node} (hd : d.distinctKeys = true)
    (hn : n.distinctKeys = true) : (inlineDocument d n).distinctKeys = true := by
  cases n with
  | mapping es =>
    obtain ⟨hn, hv⟩ := Node.distinctKeys_mapping.1 hn
    have hp := Entries.swapErase_perm hn "resource"
    have hs : (Entries.keys (Entries.swapErase es "resource")).Nodup :=
      (hp.map Prod.fst).nodup_iff.2 (Entries.nodup_keys_filter hn _)
    refine Node.distinctKeys_mapping.2 ⟨Entries.nodup_keys_insert hs _ _, fun e he => ?_⟩
    rcases Entries.mem_insert he with he | rfl
    · exact hv e (List.mem_filter.1 (hp.mem_iff.1 he)).1
    · exact hd
  | _ => exact hn

/-- **Documents that are inlined leave keys distinct**, since those of texts are. -/
theorem distinctKeys_of_inlines {ps : List Pointer} (h : r.Inlines ps n n')
    (hn : n.distinctKeys = true) : n'.distinctKeys = true := by
  induction ps generalizing n with
  | nil => rwa [Editor.edits_nil.1 h]
  | cons p ps ih =>
    obtain ⟨m, hm, hps⟩ := Editor.edits_cons.1 h
    obtain ⟨-, rfl⟩ | ⟨_, d, -, hd, rfl⟩ := inlineAt_eq_ok.1 hm
    · exact ih hps hn
    · exact ih hps (Node.distinctKeys_modifyAt
        (fun _ => distinctKeys_inlineDocument (distinctKeys_of_document hd)) _ hn)

/-- The entries `es'` are `es` with documents inlined at the pointers below their keys. -/
abbrev InlinesEntries (r : Resolver) : List Pointer → Object → Object → Prop :=
  Difference.Entrywise r.Inlines

end Resolver

end WorkflowDsl
