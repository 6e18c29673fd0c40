import WorkflowDsl.Proofs.Legacy.Reordering
import WorkflowDsl.Proofs.Model.Reordering

/-!
# The order of keys never decides the meaning

Trees that differ only in the order of keys, at any depth, are converted to equal documents, or
neither is converted (`convertsAlike_of_reordered`). The errors may differ, since the first field
that is wrong is the one reported.
-/

namespace WorkflowDsl

namespace Codec

variable {α : Type} [BEq α] {c : Codec α} {n m : Node}

/-- Both trees are converted and the values are equal, or neither tree is. -/
def ConvertsAlike (c : Codec α) (n m : Node) : Prop :=
  (∃ a b, c.decode n = .ok a ∧ c.decode m = .ok b ∧ (a == b) = true) ∨
    ∃ e f, c.decode n = .error e ∧ c.decode m = .error f

theorem IgnoresOrderBelow.convertsAlike [h : c.IgnoresOrderBelow (n.depth + 1)]
    (hn : n.distinctKeys = true) (hr : n.Reordered m) : c.ConvertsAlike n m := by
  have hb := Node.Below.of_distinct hn
  cases ha : c.decode n with
  | ok a =>
    obtain ⟨b, hb, he⟩ := h.read_reordered hb hr (decode_eq_ok.1 ha)
    exact .inl ⟨a, b, ha, decode_eq_ok.2 hb, he⟩
  | error e =>
    cases hc : c.decode m with
    | error f => exact .inr ⟨e, f, ha, hc⟩
    | ok b =>
      have he (a : α) : c.read n ≠ .ok a := fun hx => by
        rw [← decode_eq_ok, ha] at hx
        cases hx
      exact absurd (decode_eq_ok.1 hc) (h.read_ne_ok hb hr he b)

end Codec

/-- **The order of keys never decides what a tree is converted to**, neither as a workflow nor as a
legacy one. -/
theorem convertsAlike_of_reordered {n m : Node} (hn : n.distinctKeys = true) (hr : n.Reordered m) :
    Workflow.codec.ConvertsAlike n m ∧ Legacy.Workflow.codec.ConvertsAlike n m :=
  ⟨Codec.IgnoresOrderBelow.convertsAlike hn hr, Codec.IgnoresOrderBelow.convertsAlike hn hr⟩

/-- A document that is a workflow, with a task of a kind that the language does not define, and a
legacy workflow, with a state that has an unknown key. -/
def stockTree : Node :=
  .mapping
    [("document", .mapping [("version", .string "1.0.0"), ("name", .string "stock")]),
      ("do", .sequence [.mapping [("count", .mapping
        [("then", .string "exit"), ("x-count", .null)])]]),
      ("name", .string "stock"),
      ("states", .sequence [.mapping
        [("type", .string "sleep"), ("name", .string "wait"), ("duration", .string "PT5S"),
          ("x-wait", .null)]])]

/-- The same document with the keys of each mapping the other way round. -/
def stockTreeReversed : Node :=
  .mapping
    [("states", .sequence [.mapping
        [("x-wait", .null), ("duration", .string "PT5S"), ("name", .string "wait"),
          ("type", .string "sleep")]]),
      ("name", .string "stock"),
      ("do", .sequence [.mapping [("count", .mapping
        [("x-count", .null), ("then", .string "exit")])]]),
      ("document", .mapping [("name", .string "stock"), ("version", .string "1.0.0")])]

theorem stockTree_reordered : stockTree.Reordered stockTreeReversed := by
  -- Each mapping matches the reverse of its counterpart entry by entry.
  have hm {es fs : Object} (h : Entries.Matching Node.Reordered es fs.reverse) :
      (Node.mapping es).Reordered (.mapping fs) :=
    Node.reordered_mapping.2 ⟨fs.reverse, h, fs.reverse_perm⟩
  have hs {n m : Node} (h : n.Reordered m) : (Node.sequence [n]).Reordered (.sequence [m]) :=
    Node.reordered_sequence.2 (.cons h .nil)
  refine hm (.cons ⟨rfl, hm ?_⟩ (.cons ⟨rfl, hs (hm ?_)⟩ (.cons ⟨rfl, .refl _⟩
    (.cons ⟨rfl, hs (hm ?_)⟩ .nil))))
  · exact Entries.matching_self.2 fun _ _ => .refl _
  · refine .cons ⟨rfl, hm ?_⟩ .nil
    exact Entries.matching_self.2 fun _ _ => .refl _
  · exact Entries.matching_self.2 fun _ _ => .refl _

theorem convertsAlike_of_reordered_stockTree :
    (stockTree.distinctKeys = true ∧ stockTree.Reordered stockTreeReversed) ∧
      ((Workflow.codec.decode stockTree).isOk ∧ (Legacy.Workflow.codec.decode stockTree).isOk) ∧
      Workflow.codec.ConvertsAlike stockTree stockTreeReversed ∧
      Legacy.Workflow.codec.ConvertsAlike stockTree stockTreeReversed := by
  have hn : stockTree.distinctKeys = true := by decide
  have hr : stockTree.Reordered stockTreeReversed := stockTree_reordered
  exact ⟨⟨hn, hr⟩, ⟨rfl, rfl⟩, convertsAlike_of_reordered hn hr⟩

end WorkflowDsl
