import WorkflowDsl.Document.Format
import WorkflowDsl.Proofs.Document.Node
import WorkflowDsl.Reader.Error

/-!
# Trees of texts

A repeated key of a text keeps its last value, so no mapping of the tree that a text holds has a key
twice: `DocumentFormat.distinctKeys_of_read`. Both parsers collect the entries of a mapping into
distinct ones (`Node.distinctKeys_mapping_ofList`). That the values inside are such trees is shown
along with the parsing, by induction on what bounds it.
-/

namespace WorkflowDsl

theorem Node.distinctKeys_mapping_ofList {es : List (String × Node)}
    (h : ∀ e ∈ es, e.2.distinctKeys = true) : (mapping (Entries.ofList es)).distinctKeys = true :=
  distinctKeys_mapping.2 ⟨Entries.nodup_keys_ofList es, fun e he => h e (Entries.mem_ofList he)⟩

namespace Json

/-- What is parsed with some fuel has distinct keys. -/
structure ParsesDistinct (fuel : Nat) : Prop where
  value : ∀ {levels cs n rest}, value? levels fuel cs = some (n, rest) → n.distinctKeys = true
  items : ∀ {levels cs ns rest}, items? levels fuel cs = some (ns, rest) →
    ∀ n ∈ ns, n.distinctKeys = true
  entries : ∀ {levels cs es rest}, entries? levels fuel cs = some (es, rest) →
    ∀ e ∈ es, e.2.distinctKeys = true

theorem distinctKeys_of_map {α : Type} {x : Option α} {f : α → Node × List Char} {n : Node}
    {rest : List Char} (h : x.map f = some (n, rest))
    (hf : ∀ a, x = some a → (f a).1.distinctKeys = true) : n.distinctKeys = true := by
  obtain ⟨a, ha, he⟩ := Option.map_eq_some_iff.1 h
  have ha := hf a ha
  rwa [he] at ha

namespace ParsesDistinct

variable {fuel levels : Nat} {cs rest : List Char} (ih : ParsesDistinct fuel)
include ih

theorem value_succ {n : Node} (h : value? levels (fuel + 1) cs = some (n, rest)) :
    n.distinctKeys = true := by
  rw [value?] at h
  split at h
  case h_5 =>
    split at h
    · cases h
    split at h
    · obtain ⟨rfl, -⟩ := Prod.mk.inj (Option.some.inj h)
      rfl
    · exact distinctKeys_of_map h fun _ hn => Node.distinctKeys_sequence.2 (ih.items hn)
  case h_6 =>
    split at h
    · cases h
    split at h
    · obtain ⟨rfl, -⟩ := Prod.mk.inj (Option.some.inj h)
      rfl
    · exact distinctKeys_of_map h fun _ he => Node.distinctKeys_mapping_ofList (ih.entries he)
  all_goals exact distinctKeys_of_map h fun _ _ => rfl

theorem items_succ {ns : List Node} (h : items? levels (fuel + 1) cs = some (ns, rest)) :
    ∀ n ∈ ns, n.distinctKeys = true := by
  rw [items?] at h
  obtain ⟨⟨n, _⟩, hn, h⟩ := Option.bind_eq_some_iff.1 h
  dsimp only at h
  split at h
  · obtain ⟨rfl, -⟩ := Prod.mk.inj (Option.some.inj h)
    exact List.forall_mem_singleton.2 (ih.value hn)
  · obtain ⟨⟨ms, _⟩, hm, h⟩ := Option.bind_eq_some_iff.1 h
    obtain ⟨rfl, -⟩ := Prod.mk.inj (Option.some.inj h)
    exact List.forall_mem_cons.2 ⟨ih.value hn, ih.items hm⟩
  · cases h

theorem entries_succ {es : List (String × Node)}
    (h : entries? levels (fuel + 1) cs = some (es, rest)) : ∀ e ∈ es, e.2.distinctKeys = true := by
  rw [entries?] at h
  split at h
  · obtain ⟨⟨key, _⟩, -, h⟩ := Option.bind_eq_some_iff.1 h
    dsimp only at h
    split at h
    · obtain ⟨⟨n, _⟩, hn, h⟩ := Option.bind_eq_some_iff.1 h
      dsimp only at h
      split at h
      · obtain ⟨rfl, -⟩ := Prod.mk.inj (Option.some.inj h)
        exact List.forall_mem_singleton.2 (ih.value hn)
      · obtain ⟨⟨fs, _⟩, hf, h⟩ := Option.bind_eq_some_iff.1 h
        obtain ⟨rfl, -⟩ := Prod.mk.inj (Option.some.inj h)
        exact List.forall_mem_cons.2 ⟨ih.value hn, ih.entries hf⟩
      · cases h
    · cases h
  · cases h

end ParsesDistinct

theorem parsesDistinct (fuel : Nat) : ParsesDistinct fuel := by
  induction fuel with
  | zero => exact ⟨nofun, nofun, nofun⟩
  | succ fuel ih => exact ⟨ih.value_succ, ih.items_succ, ih.entries_succ⟩

/-- **The tree of a JSON text has distinct keys.** -/
theorem distinctKeys_of_parse? {text : String} {n : Node} (h : parse? text = some n) :
    n.distinctKeys = true := by
  obtain ⟨⟨m, rest⟩, hm, h⟩ := Option.bind_eq_some_iff.1 h
  dsimp only at h
  split at h
  · obtain rfl := Option.some.inj h
    exact (parsesDistinct _).value hm
  · cases h

end Json

namespace Yaml

/-! ## Counting runs -/

section

variable {α β : Type} {P : α → Prop} {Q : β → Prop}

/-- Whatever the run gives has the property. -/
def Ensures (P : α → Prop) (x : StateT Nat Option α) : Prop :=
  ∀ ⦃i a j⦄, x.run i = some (a, j) → P a

theorem ensures_pure {a : α} (h : P a) : Ensures P (pure a) := by
  intro i b j hb
  obtain ⟨rfl, -⟩ := Prod.mk.inj (Option.some.inj hb)
  exact h

theorem ensures_failure : Ensures P failure := fun _ _ _ h => nomatch h

theorem ensures_liftM {x : Option α} (h : ∀ a, x = some a → P a) :
    Ensures P (liftM x : StateT Nat Option α) := by
  intro i a j ha
  obtain ⟨b, hb, ha⟩ := Option.bind_eq_some_iff.1 ha
  obtain ⟨rfl, -⟩ := Prod.mk.inj (Option.some.inj ha)
  exact h _ hb

theorem Ensures.bind {x : StateT Nat Option β} {f : β → StateT Nat Option α} (hx : Ensures Q x)
    (hf : ∀ b, Q b → Ensures P (f b)) : Ensures P (x >>= f) := by
  intro i a j h
  rw [StateT.run_bind] at h
  obtain ⟨⟨b, k⟩, hb, h⟩ := Option.bind_eq_some_iff.1 h
  exact hf b (hx hb) h

theorem ensures_true (x : StateT Nat Option α) : Ensures (fun _ => True) x := fun _ _ _ _ => trivial

theorem ensures_mapM {f : α → StateT Nat Option β} {as : List α}
    (h : ∀ a ∈ as, Ensures Q (f a)) : Ensures (fun bs => ∀ b ∈ bs, Q b) (as.mapM f) := by
  induction as with
  | nil => exact ensures_pure nofun
  | cons a as ih =>
    rw [List.forall_mem_cons] at h
    rw [List.mapM_cons]
    refine h.1.bind fun b hb => (ih h.2).bind fun bs hbs => ensures_pure ?_
    exact List.forall_mem_cons.2 ⟨hb, hbs⟩

end

/-! ## YAML -/

theorem distinctKeys_of_node? {s : String} {n : Node} (h : Plain.node? s = some n) :
    n.distinctKeys = true := by
  rw [Plain.node?] at h
  split at h
  case h_5 x _ =>
    obtain rfl := Option.some.inj h
    rw [Plain.floatNode]
    split <;> rfl
  case h_4 => cases h
  all_goals
    obtain rfl := Option.some.inj h
    rfl

theorem distinctKeys_of_scalarNode? {tag : Option String} {plain : Bool} {text : String} {n : Node}
    (h : scalarNode? tag plain text = some n) : n.distinctKeys = true := by
  unfold scalarNode? at h
  split at h
  · split at h
    · exact distinctKeys_of_node? h
    · obtain rfl := Option.some.inj h
      rfl
  · split at h
    · cases h
    split at h
    · obtain ⟨_, -, rfl⟩ := Option.map_eq_some_iff.1 h
      rfl
    split at h
    · split at h
      · obtain rfl := Option.some.inj h
        rfl
      · cases h
    split at h
    · obtain ⟨x, -, rfl⟩ := Option.map_eq_some_iff.1 h
      rw [Plain.floatNode]
      split <;> rfl
    split at h
    · split at h
      · obtain rfl := Option.some.inj h
        rfl
      · cases h
    · obtain rfl := Option.some.inj h
      rfl

theorem ensures_treeNode (anchors : Anchors) (depth : Nat) (t : Tree) :
    Ensures (·.distinctKeys = true) (treeNode anchors depth t) := by
  induction depth generalizing t with
  | zero =>
    refine (ensures_true _).bind fun t _ => ?_
    split
    · exact ensures_liftM fun _ => distinctKeys_of_scalarNode?
    · exact ensures_failure
  | succ depth ih =>
    refine (ensures_true _).bind fun t _ => ?_
    split
    · exact ensures_liftM fun _ => distinctKeys_of_scalarNode?
    · exact ensures_failure
    · split
      · exact ensures_failure
      · refine (ensures_mapM fun t _ => ih t).bind fun ns hns => ensures_pure ?_
        exact Node.distinctKeys_sequence.2 hns
    · split
      · exact ensures_failure
      · refine (ensures_mapM (Q := fun e => e.2.distinctKeys = true) fun e _ => ?_).bind
          fun es hes => ensures_pure (Node.distinctKeys_mapping_ofList hes)
        exact (ensures_true _).bind fun key _ => (ih e.2).bind fun n hn => ensures_pure hn

/-- **The tree of a YAML text has distinct keys.** -/
theorem distinctKeys_of_parse? {text : String} {n : Node} (h : parse? text = some n) :
    n.distinctKeys = true := by
  obtain ⟨_, -, h⟩ := Option.bind_eq_some_iff.1 h
  obtain ⟨t?, -, h⟩ := Option.bind_eq_some_iff.1 h
  cases t? with
  | none =>
    obtain rfl := Option.some.inj h
    rfl
  | some t =>
    obtain ⟨⟨_, _⟩, hr, rfl⟩ := Option.map_eq_some_iff.1 h
    exact ensures_treeNode _ _ _ hr

end Yaml

/-! ## Formats -/

/-- **The tree of a text has distinct keys.** -/
theorem DocumentFormat.distinctKeys_of_read {format : DocumentFormat} {text : String} {n : Node}
    (h : format.read text = .ok n) : n.distinctKeys = true := by
  rw [DocumentFormat.read] at h
  split at h
  · next hn =>
    obtain rfl := Except.ok.inj h
    cases format with
    | json => exact Json.distinctKeys_of_parse? hn
    | yaml => exact Yaml.distinctKeys_of_parse? hn
  · cases h

theorem distinctKeys_of_readDetected {text : String} {n : Node} (h : readDetected text = .ok n) :
    n.distinctKeys = true := DocumentFormat.distinctKeys_of_read h

end WorkflowDsl
