import WorkflowDsl.Proofs.Legacy.State

/-!
# Legacy workflows read back

Every field of a legacy document but the states is kept, and a state is read back as one that is
equal up to the order of its other entries. So whatever is read from a tree with distinct keys is
written as a tree that is read as an equal document (`Workflow.decode_write_beq`).
-/

namespace WorkflowDsl.Legacy

instance (d : Nat) : State.codec.RecoversBelow d := ⟨State.recovers⟩

namespace Workflow

-- One instance for each of the 22 fields, which are found in one search.
set_option synthInstance.maxSize 512 in
instance (d : Nat) : codec.RecoversBelow d := .openRecord (.computed rfl) fun _ _ h => h

/-- **A legacy workflow that is read from a tree is read back as an equal one.** -/
theorem decode_write_beq {n : Node} {w : Workflow} (hn : n.distinctKeys = true)
    (h : codec.decode n = .ok w) :
    ∃ w', codec.decode (codec.write w) = .ok w' ∧ (w' == w) = true := by
  obtain ⟨w', hr, he⟩ := Codec.RecoversBelow.recovers (c := codec)
    (Node.Below.of_distinct hn) (Codec.decode_eq_ok.1 h)
  exact ⟨w', Codec.decode_eq_ok.2 hr, he⟩

/-- A workflow with a state whose two unknown keys change places each time it is read. -/
def sleepTree : Node :=
  .mapping
    [("name", .string "order"), ("x-owner", .string "sales"), ("errors", .string "errors.json"),
      ("states", .sequence [.mapping
        [("type", .string "sleep"), ("name", .string "wait"), ("duration", .string "PT5S"),
          ("end", .bool true), ("x-first", .null), ("x-second", .bool false)]])]

theorem decode_write_beq_sleepTree :
    sleepTree.distinctKeys = true ∧ ∃ w, codec.decode sleepTree = .ok w ∧
      ∃ w', codec.decode (codec.write w) = .ok w' ∧ (w' == w) = true := by
  have hn : sleepTree.distinctKeys = true := by decide
  exact ⟨hn, _, rfl, decode_write_beq hn rfl⟩

end Workflow

end WorkflowDsl.Legacy
