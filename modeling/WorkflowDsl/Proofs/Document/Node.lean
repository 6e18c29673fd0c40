import WorkflowDsl.Document.Node
import WorkflowDsl.Proofs.Collection.Entries

/-!
# Levels of document trees

A text cannot put a key twice into one mapping, but a tree can: `Node.distinctKeys` says that no
mapping inside has one. `Node.Below d` adds that there are fewer than `d` levels. It passes from a
tree to its parts with one level less (`Below.of_mem_sequence`, `Below.of_mem_mapping`), and that is
what inductions over nested definitions go by.
-/

namespace WorkflowDsl

namespace Node

mutual

/-- Whether no mapping inside has a key twice. -/
def distinctKeys : Node → Bool
  | sequence items => distinctKeysItems items
  | mapping entries => decide (Entries.keys entries).Nodup && distinctKeysEntries entries
  | _ => true

def distinctKeysItems : List Node → Bool
  | [] => true
  | n :: ns => n.distinctKeys && distinctKeysItems ns

def distinctKeysEntries : List (String × Node) → Bool
  | [] => true
  | (_, n) :: es => n.distinctKeys && distinctKeysEntries es

end

theorem distinctKeysItems_iff {items : List Node} :
    distinctKeysItems items = true ↔ ∀ n ∈ items, n.distinctKeys = true := by
  induction items with
  | nil => simp [distinctKeysItems]
  | cons n ns ih => simp [distinctKeysItems, ih]

theorem distinctKeysEntries_iff {es : Object} :
    distinctKeysEntries es = true ↔ ∀ e ∈ es, e.2.distinctKeys = true := by
  induction es with
  | nil => simp [distinctKeysEntries]
  | cons e es ih =>
    obtain ⟨k, n⟩ := e
    rw [distinctKeysEntries, Bool.and_eq_true, ih, List.forall_mem_cons]

theorem distinctKeys_sequence {items : List Node} :
    (sequence items).distinctKeys = true ↔ ∀ n ∈ items, n.distinctKeys = true := by
  rw [distinctKeys, distinctKeysItems_iff]

theorem distinctKeys_mapping {es : Object} :
    (mapping es).distinctKeys = true ↔
      (Entries.keys es).Nodup ∧ ∀ e ∈ es, e.2.distinctKeys = true := by
  rw [distinctKeys, Bool.and_eq_true, decide_eq_true_iff, distinctKeysEntries_iff]

/-! ## Depth -/

theorem depthItems_lt_iff {items : List Node} {d : Nat} :
    depthItems items < d + 1 ↔ ∀ n ∈ items, n.depth < d + 1 := by
  induction items with
  | nil => simp [depthItems]
  | cons n ns ih => rw [depthItems, Nat.max_lt, ih, List.forall_mem_cons]

theorem depthEntries_lt_iff {es : Object} {d : Nat} :
    depthEntries es < d + 1 ↔ ∀ e ∈ es, e.2.depth < d + 1 := by
  induction es with
  | nil => simp [depthEntries]
  | cons e es ih =>
    obtain ⟨k, n⟩ := e
    rw [depthEntries, Nat.max_lt, ih, List.forall_mem_cons]

theorem depth_sequence_lt_iff {items : List Node} {d : Nat} :
    (sequence items).depth < d + 2 ↔ ∀ n ∈ items, n.depth < d + 1 := by
  rw [depth, Nat.add_lt_add_iff_right, depthItems_lt_iff]

theorem depth_mapping_lt_iff {es : Object} {d : Nat} :
    (mapping es).depth < d + 2 ↔ ∀ e ∈ es, e.2.depth < d + 1 := by
  rw [depth, Nat.add_lt_add_iff_right, depthEntries_lt_iff]

theorem depth_lt_of_mem_sequence {items : List Node} {n : Node} (h : n ∈ items) :
    n.depth < (sequence items).depth :=
  depth_sequence_lt_iff.1 (Nat.lt_succ_self _) n h

theorem depth_lt_of_mem_mapping {es : Object} {e : String × Node} (h : e ∈ es) :
    e.2.depth < (mapping es).depth :=
  depth_mapping_lt_iff.1 (Nat.lt_succ_self _) e h

/-- Some of the entries are nested no deeper than all of them. -/
theorem depth_mapping_le_of_subset {es fs : Object} (h : ∀ e ∈ es, e ∈ fs) :
    (mapping es).depth ≤ (mapping fs).depth := by
  refine Nat.le_of_lt_succ (depth_mapping_lt_iff.2 fun e he => ?_)
  exact depth_lt_of_mem_mapping (h e he)

/-- A reader that goes by the depth, and reads what is inside with one less, reads the same with
any depth above that of the tree. -/
theorem congr_of_depth_lt {α : Type} {read : Nat → Node → α}
    (step : ∀ {k k' : Nat} {n : Node}, (∀ m : Node, m.depth < n.depth → read k m = read k' m) →
      read (k + 1) n = read (k' + 1) n) {k k' : Nat} {n : Node} (h : n.depth < k)
    (h' : n.depth < k') : read k n = read k' n := by
  induction k generalizing k' n with
  | zero => exact absurd h (Nat.not_lt_zero _)
  | succ k ih =>
    cases k' with
    | zero => exact absurd h' (Nat.not_lt_zero _)
    | succ k' =>
      refine step fun m hm => ?_
      exact ih (Nat.lt_of_lt_of_le hm (Nat.le_of_lt_succ h))
        (Nat.lt_of_lt_of_le hm (Nat.le_of_lt_succ h'))

/-! ## Trees below a depth -/

/-- A tree with distinct keys and fewer than `d` nested levels. -/
structure Below (d : Nat) (n : Node) : Prop where
  distinct : n.distinctKeys = true
  depth_lt : n.depth < d

namespace Below

variable {d : Nat} {n : Node}

theorem mono {d' : Nat} (h : n.Below d) (hd : d ≤ d') : n.Below d' :=
  ⟨h.distinct, Nat.lt_of_lt_of_le h.depth_lt hd⟩

theorem of_distinct (h : n.distinctKeys = true) : n.Below (n.depth + 1) :=
  ⟨h, Nat.lt_succ_self _⟩

theorem of_mem_sequence {items : List Node} (h : (sequence items).Below (d + 1)) (hn : n ∈ items) :
    n.Below d := by
  refine ⟨distinctKeys_sequence.1 h.distinct n hn, ?_⟩
  exact Nat.lt_of_lt_of_le (depth_lt_of_mem_sequence hn) (Nat.le_of_lt_succ h.depth_lt)

theorem of_mem_mapping {es : Object} (h : (mapping es).Below (d + 1)) {e : String × Node}
    (he : e ∈ es) : e.2.Below d := by
  refine ⟨(distinctKeys_mapping.1 h.distinct).2 e he, ?_⟩
  exact Nat.lt_of_lt_of_le (depth_lt_of_mem_mapping he) (Nat.le_of_lt_succ h.depth_lt)

theorem nodup_keys {es : Object} (h : (mapping es).Below d) : (Entries.keys es).Nodup :=
  (distinctKeys_mapping.1 h.distinct).1

/-- Some of the entries of a mapping. -/
theorem of_subset {es fs : Object} (h : (mapping fs).Below d) (hn : (Entries.keys es).Nodup)
    (hs : ∀ e ∈ es, e ∈ fs) : (mapping es).Below d := by
  refine ⟨distinctKeys_mapping.2 ⟨hn, fun e he => ?_⟩, ?_⟩
  · exact (distinctKeys_mapping.1 h.distinct).2 e (hs e he)
  · exact Nat.lt_of_le_of_lt (depth_mapping_le_of_subset hs) h.depth_lt

theorem of_sublist {es fs : Object} (h : (mapping fs).Below d) (hs : es.Sublist fs) :
    (mapping es).Below d :=
  h.of_subset ((hs.map _).nodup h.nodup_keys) fun _ he => hs.subset he

/-- A mapping without one of its keys. -/
theorem swapErase {es : Object} (h : (mapping es).Below d) (key : String) :
    (mapping (Entries.swapErase es key)).Below d := by
  have hp := Entries.swapErase_perm h.nodup_keys key
  refine h.of_subset ?_ fun e he => (List.mem_filter.1 (hp.mem_iff.1 he)).1
  exact (hp.map Prod.fst).nodup_iff.2 (Entries.nodup_keys_filter h.nodup_keys _)

end Below

end Node

end WorkflowDsl
