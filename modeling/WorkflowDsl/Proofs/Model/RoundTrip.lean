import WorkflowDsl.Proofs.Model.Task

/-!
# Workflows read back

Components and documents are made of tasks and of definitions that are kept, so that whatever is
read from a tree with distinct keys is kept: it is written as a tree that is read as the same value
again (`Workflow.decode_write_of_decode`). The tree itself need not be the one first read: a default
may have been missing, an unknown key passed over, or an alternative spelling used.
-/

namespace WorkflowDsl

instance (d : Nat) : Task.codec.StableBelow d := Task.stableBelow d

instance (d : Nat) : Extension.codec.StableBelow d := .record (.computed rfl)

instance (d : Nat) : Components.codec.StableBelow d := .record (.computed rfl)

namespace Workflow

instance (d : Nat) : codec.StableBelow d := .openRecord (.computed rfl)

/-- **A workflow read from a tree is kept.** What it is written as is read as the same workflow, and
that is written as the same tree, with all keys in the same order. -/
theorem decode_write_of_decode {n : Node} {w : Workflow} (hn : n.distinctKeys = true)
    (h : codec.decode n = .ok w) :
    ∃ w', codec.decode (codec.write w) = .ok w' ∧ w' = w ∧ codec.write w' = codec.write w := by
  have hk : codec.Keeps w :=
    Codec.StableBelow.keeps_of_read (Node.Below.of_distinct hn) (Codec.decode_eq_ok.1 h)
  exact ⟨w, Codec.decode_eq_ok.2 hk, rfl, rfl⟩

/-- A loop over a task of a kind that the language does not define, with unknown keys. -/
def loopTree : Node :=
  .mapping
    [("x-owner", .string "sales"),
      ("do", .sequence [.mapping [("loop", .mapping
        [("note", .null), ("for", .mapping [("in", .string "${ .items }")]),
          ("do", .sequence [.mapping [("greet", .mapping
            [("then", .string "exit"), ("x-greet", .string "hello")])]])])]]),
      ("document", .mapping [("version", .string "1.0.0"), ("name", .string "loop")])]

theorem decode_write_of_decode_loopTree :
    loopTree.distinctKeys = true ∧ ∃ w, codec.decode loopTree = .ok w ∧
      ∃ w', codec.decode (codec.write w) = .ok w' ∧ w' = w ∧ codec.write w' = codec.write w := by
  have hn : loopTree.distinctKeys = true := by decide
  exact ⟨hn, _, rfl, decode_write_of_decode hn rfl⟩

end Workflow

end WorkflowDsl
