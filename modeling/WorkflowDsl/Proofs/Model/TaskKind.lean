import WorkflowDsl.Model.TaskKind
import WorkflowDsl.Proofs.Model.Lossless

/-!
# Kinds of tasks read back

A kind is a mapping whose keys belong to its type (`TaskKind.toNode_entries`), and it is read by
that type. What a kind reads back is what its parts read back; the tasks inside enter through their
codec alone, so a kind is stable wherever the tasks inside are one level below
(`TaskKind.readsBack_of_ofObject`), and two codecs of tasks that agree there read it alike
(`TaskKind.ofObject_congr`).
-/

namespace WorkflowDsl

/-! ## Parts that are not always kept -/

instance (d : Nat) : Schema.codec.StableBelow d := .record (.computed rfl)

instance (d : Nat) : InputModel.codec.StableBelow d := .record (.computed rfl)

instance (d : Nat) : OutputModel.codec.StableBelow d := .record (.computed rfl)

instance (d : Nat) : ExportModel.codec.StableBelow d := .record (.computed rfl)

namespace FlowDirective

/-- A directive read from a text is written as that text. -/
theorem text_ofText (s : String) : (ofText s).text = s := by
  rw [ofText]
  split
  · next h => exact (beq_iff_eq.1 h).symm
  split
  · next h => exact (beq_iff_eq.1 h).symm
  split
  · next h => exact (beq_iff_eq.1 h).symm
  · rfl

theorem readsBack_iff {a b : FlowDirective} : codec.ReadsBack a b ↔ ofText a.text = b := by
  refine Codec.imap_readsBack_iff.trans ⟨?_, fun h => ⟨_, rfl, h⟩⟩
  rintro ⟨s, hs, rfl⟩
  rw [Except.ok.inj hs]

theorem write_ne_null (a : FlowDirective) : codec.write a ≠ .null := nofun

instance (d : Nat) : codec.StableBelow d where
  keeps_of_read {n a} _ h := by
    obtain ⟨s, -, rfl⟩ := except_map_eq_ok.1 h
    exact readsBack_iff.2 (congrArg ofText (text_ofText s))
  null_of_write _ _ h := nomatch h

end FlowDirective

instance (d : Nat) : SwitchCase.codec.StableBelow d := .record (.computed rfl)

instance (d : Nat) : TaskFields.codec.StableBelow d := .record (.computed rfl)

/-! ## Processes -/

instance (d : Nat) : WorkflowProcess.codec.StableBelow d := .record (.computed rfl)

namespace Process

/-- Reading a process under its key gives `q`. -/
def ReadsBack (p q : Process) : Prop := ofNode p.key p.toNode = .ok q

/-- Only a workflow may be read back as another one. -/
theorem readsBack_self_or (p : Process) : p.ReadsBack p ∨ ∃ w, p = workflow w := by
  cases p with
  | container c =>
    have hc := (ContainerProcess.codec.keeps c).decodeObject_write "container" rfl
    exact .inl (except_map_eq_ok.2 ⟨c, hc, rfl⟩)
  | script s =>
    have hs := (ScriptProcess.codec.keeps s).decodeObject_write "script" rfl
    exact .inl (except_map_eq_ok.2 ⟨s, hs, rfl⟩)
  | shell s =>
    have hs := (ShellProcess.codec.keeps s).decodeObject_write "shell" rfl
    exact .inl (except_map_eq_ok.2 ⟨s, hs, rfl⟩)
  | workflow w => exact .inr ⟨w, rfl⟩

theorem readsBack_workflow {w : WorkflowProcess} {q : Process} :
    (workflow w).ReadsBack q ↔ ∃ v, WorkflowProcess.codec.ReadsBack w v ∧ workflow v = q := by
  refine except_map_eq_ok.trans (exists_congr fun v => and_congr_left fun _ => ?_)
  rw [Codec.decodeObject_eq_ok]
  exact ⟨fun ⟨_, _, h⟩ => h, fun h => ⟨_, rfl, h⟩⟩

/-- A process that is read from a tree is read back. -/
theorem readsBack_of_ofNode {d : Nat} {key : String} {n : Node} {p : Process} (hn : n.Below d)
    (h : ofNode key n = .ok p) : p.ReadsBack p := by
  rcases p.readsBack_self_or with hp | ⟨w, rfl⟩
  · exact hp
  · have hw : WorkflowProcess.codec.decodeObject key n = .ok w := by
      rw [ofNode] at h
      split at h
      · obtain ⟨_, _, h⟩ := except_map_eq_ok.1 h
        cases h
      split at h
      · obtain ⟨_, _, h⟩ := except_map_eq_ok.1 h
        cases h
      split at h
      · obtain ⟨_, _, h⟩ := except_map_eq_ok.1 h
        cases h
      · obtain ⟨v, hv, h⟩ := except_map_eq_ok.1 h
        cases h
        exact hv
    obtain ⟨_, rfl, hr⟩ := Codec.decodeObject_eq_ok.1 hw
    exact readsBack_workflow.2 ⟨w, Codec.StableBelow.keeps_of_read hn hr, rfl⟩

end Process

namespace Run

theorem read_mapping_eq_ok {es : Object} {r : Run} :
    codec.read (.mapping es) = .ok r ↔
      ∃ key, es.singleKind "process" Process.kindKeys = .ok key ∧
        Process.ofNode key ((es.get? key).getD .null) = .ok r.process ∧
        RunOptions.codec.read (.mapping (es.splitKeys [key]).2) = .ok r.options := by
  refine Codec.ofDefinition_read_eq_ok.trans ⟨fun h => ?_, ?_⟩
  · obtain ⟨key, hk, h⟩ := except_bind_eq_ok.1 (show (es.singleKind _ _ >>= _) = _ from h)
    obtain ⟨process, hp, h⟩ := except_bind_eq_ok.1 h
    obtain ⟨options, ho, h⟩ := except_bind_eq_ok.1 h
    obtain rfl := Except.ok.inj h
    exact ⟨key, hk, hp, Codec.decode_eq_ok.1 ho⟩
  · rintro ⟨key, hk, hp, ho⟩
    show (es.singleKind _ _ >>= _) = _
    exact except_bind_eq_ok.2 ⟨key, hk, except_bind_eq_ok.2 ⟨r.process, hp,
      except_bind_eq_ok.2 ⟨r.options, Codec.decode_eq_ok.2 ho, rfl⟩⟩⟩

/-- The entries of a run: the process under its key, then the options. -/
def entries (r : Run) : Object :=
  (r.process.key, r.process.toNode) :: (RunOptions.codec.write r.options).entries?.getD []

theorem singleKind_entries (r : Run) :
    r.entries.singleKind "process" Process.kindKeys = .ok r.process.key := by
  obtain ⟨process, awaits, returns⟩ := r
  cases process <;> cases awaits <;> cases returns <;> rfl

theorem get?_entries (r : Run) : r.entries.get? r.process.key = some r.process.toNode := by
  rw [entries, Entries.get?_cons, if_pos rfl]

theorem splitKeys_entries (r : Run) :
    .mapping (r.entries.splitKeys [r.process.key]).2 = RunOptions.codec.write r.options := by
  obtain ⟨process, awaits, returns⟩ := r
  cases process <;> cases awaits <;> cases returns <;> rfl

theorem readsBack_iff {r s : Run} :
    codec.ReadsBack r s ↔ r.process.ReadsBack s.process ∧ s.options = r.options := by
  refine Codec.ofDefinition_read_eq_ok.trans ?_
  have ho : RunOptions.codec.decode (.mapping (r.entries.splitKeys [r.process.key]).2) =
      .ok r.options := by
    rw [splitKeys_entries]
    exact Codec.decode_eq_ok.2 (RunOptions.codec.keeps r.options)
  constructor
  · intro h
    obtain ⟨key, hk, h⟩ := except_bind_eq_ok.1 (show (r.entries.singleKind _ _ >>= _) = _ from h)
    rw [singleKind_entries] at hk
    obtain rfl := Except.ok.inj hk
    obtain ⟨process, hp, h⟩ := except_bind_eq_ok.1 h
    have hg : ((r.entries.get? r.process.key).getD .null) = r.process.toNode := by
      rw [get?_entries]
      rfl
    obtain ⟨options, h', h⟩ := except_bind_eq_ok.1 h
    obtain rfl := Except.ok.inj (ho.symm.trans h')
    obtain rfl := Except.ok.inj h
    exact ⟨(congrArg _ hg).symm.trans hp, rfl⟩
  · rintro ⟨hp, hs⟩
    refine except_bind_eq_ok.2 ⟨r.entries, rfl, ?_⟩
    refine except_bind_eq_ok.2 ⟨_, singleKind_entries r, ?_⟩
    refine except_bind_eq_ok.2 ⟨s.process, ?_, ?_⟩
    · rw [get?_entries]
      exact hp
    · refine except_bind_eq_ok.2 ⟨r.options, ho, ?_⟩
      rw [← hs]

instance (d : Nat) : codec.StableBelow d where
  keeps_of_read {n r} hn hr := by
    refine readsBack_iff.2 ⟨?_, rfl⟩
    obtain ⟨es, hes, -⟩ := except_bind_eq_ok.1 (Codec.ofDefinition_read_eq_ok.1 hr)
    obtain rfl := Node.toObject_eq_ok.1 hes
    obtain ⟨key, -, hp, -⟩ := read_mapping_eq_ok.1 hr
    cases hg : es.get? key with
    | some n =>
      rw [hg] at hp
      have hb := (hn.mono (Nat.le_succ d)).of_mem_mapping (Entries.mem_of_get? hg)
      exact Process.readsBack_of_ofNode hb hp
    | none =>
      rw [hg] at hp
      exact Process.readsBack_of_ofNode (d := 1) (n := .null) ⟨rfl, Nat.one_pos⟩ hp
  null_of_write _ _ h := nomatch h

end Run

/-! ## Kinds with tasks inside -/

section

variable {τ : Type} {task task' : Codec τ} {d : Nat}

instance [task.StableBelow d] : (Branching.codec task).StableBelow d := .record (.computed rfl)

instance [task.StableBelow d] : (Subscription.codec task).StableBelow d := .record (.computed rfl)

instance [task.StableBelow d] : (Catcher.codec task).StableBelow d := .record (.computed rfl)

theorem ForTask.stable_succ [task.StableBelow d] : (ForTask.codec task).StableBelow (d + 1) :=
  .record_succ (.computed rfl)

theorem ListenTask.stable_succ [task.StableBelow d] : (ListenTask.codec task).StableBelow (d + 1) :=
  .record_succ (.computed rfl)

theorem TryTask.stable_succ [task.StableBelow d] : (TryTask.codec task).StableBelow (d + 1) :=
  .record_succ (.computed rfl)

theorem Branching.agree (h : task.AgreeBelow d task') :
    (Branching.codec task).AgreeBelow (d + 1) (Branching.codec task') :=
  .record (.more (.required h.namedMap _) (.refl d _))

theorem Subscription.agree (h : task.AgreeBelow d task') :
    (Subscription.codec task).AgreeBelow (d + 1) (Subscription.codec task') :=
  .record (.more (.refl d _) (.more (.refl d _)
    (.more (.omitted h.namedMap _ _ _) (.refl d _))))

theorem Catcher.agree (h : task.AgreeBelow d task') :
    (Catcher.codec task).AgreeBelow (d + 1) (Catcher.codec task') :=
  .record (.more (.refl d _) (.more (.refl d _) (.more (.refl d _) (.more (.refl d _)
    (.more (.refl d _) (.more (.omitted h.namedMap _ _ _) (.refl d _)))))))

theorem ForTask.agree (h : task.AgreeBelow d task') :
    (ForTask.codec task).AgreeBelow (d + 1) (ForTask.codec task') :=
  .record (.more (.refl d _) (.more (.refl d _) (.more (.required h.namedMap _) (.refl d _))))

theorem ListenTask.agree (h : task.AgreeBelow d task') :
    (ListenTask.codec task).AgreeBelow (d + 1) (ListenTask.codec task') :=
  .record (.more (.refl d _)
    (.more (.optional ((Subscription.agree h).mono (Nat.le_succ d)) _) (.refl d _)))

theorem TryTask.agree (h : task.AgreeBelow d task') :
    (TryTask.codec task).AgreeBelow (d + 1) (TryTask.codec task') :=
  .record (.more (.required h.namedMap _)
    (.more (.required ((Catcher.agree h).mono (Nat.le_succ d)) _) (.refl d _)))

namespace TaskKind

theorem single_lawful {α : Type} {key : String} {c : Codec α} :
    (Fields.more (.required key c id) .done : Fields α α (α → α)).Lawful id :=
  ⟨decide_eq_true (List.nodup_singleton key), fun _ => rfl, fun _ => rfl⟩

theorem single_readsBack_iff {α : Type} {definition key : String} {c : Codec α} {a b : α} :
    (single definition key c).ReadsBack a b ↔ c.ReadsBack a b :=
  (Codec.record_readsBack_iff single_lawful).trans (and_iff_left trivial)

theorem single_stable_succ {α : Type} {definition key : String} {c : Codec α} [c.StableBelow d] :
    (single definition key c).StableBelow (d + 1) := .record_succ single_lawful

theorem single_agree {α : Type} {definition key : String} {c c' : Codec α}
    (h : c.AgreeBelow d c') :
    (single definition key c).AgreeBelow (d + 1) (single definition key c') :=
  .record (.more (.required h _) .done)

instance : raiseCodec.Lossless := by
  have : (single "RaiseErrorDefinition" "error" ProblemReference.codec).Lossless :=
    .record single_lawful
  exact .record single_lawful

/-! ## Reading by type -/

theorem type?_of_ofObject {type : TaskType} {owned : Object} {k : TaskKind τ}
    (h : ofObject task type owned = .ok k) : k.type? = some type := by
  cases type <;> obtain ⟨_, _, rfl⟩ := except_map_eq_ok.1 h <;> rfl

/-- Two codecs of tasks that agree below the entries of a kind read it alike. -/
theorem ofObject_congr (h : task.AgreeBelow d task') (type : TaskType) {owned : Object}
    (hd : (Node.mapping owned).depth < d + 1) :
    ofObject task type owned = ofObject task' type owned := by
  have hc {α : Type} {c c' : Codec α} (hc : c.AgreeBelow (d + 1) c') (make : α → TaskKind τ) :
      (c.decode (.mapping owned)).map make = (c'.decode (.mapping owned)).map make := by
    rw [Codec.decode, Codec.decode, hc _ hd]
  cases type with
  | do_ => exact hc (single_agree h.namedMap) do_
  | for_ => exact hc (ForTask.agree h) for_
  | fork => exact hc (single_agree ((Branching.agree h).mono (Nat.le_succ d))) fork
  | listen => exact hc (ListenTask.agree h) listen
  | try_ => exact hc (TryTask.agree h) try_
  | _ => rfl

/-- The entries that a kind is written as. -/
def entries (task : Codec τ) (k : TaskKind τ) : Object := (k.toNode task).entries?.getD []

/-- Reading the entries of a kind by its type gives `k'`; a kind that the language does not define
is read as it is. -/
def ReadsBack (task : Codec τ) (k k' : TaskKind τ) : Prop :=
  match k.type? with
  | some type => ofObject task type (k.entries task) = .ok k'
  | none => k' = k

theorem readsBack_iff_of_type {k k' : TaskKind τ} {type : TaskType} (h : k.type? = some type) :
    k.ReadsBack task k' ↔ ofObject task type (k.entries task) = .ok k' := by
  simp only [ReadsBack, h]

/-! ## Writing -/

/-- A kind is written under distinct keys that belong to its type, among them the one that selects
the type. -/
structure EntriesOf (type : TaskType) (es : Object) : Prop where
  nodup : es.keys.Nodup
  owned : ∀ key ∈ es.keys, key ∈ type.ownedKeys
  selected : type.key ∈ es.keys

theorem entriesOf_writeEntries {ρ γ β : Type} {fields : Fields ρ γ β} {x : ρ} {type : TaskType}
    (hk : fields.keys = type.ownedKeys) (hn : type.ownedKeys.Nodup)
    (hs : type.key ∈ (Entries.keys (fields.writeEntries x))) :
    EntriesOf type (fields.writeEntries x) where
  nodup := (fields.keys_writeEntries_sublist x).nodup (hk ▸ hn)
  owned _ hm := hk ▸ (fields.keys_writeEntries_sublist x).subset hm
  selected := hs

theorem toNode_entries {k : TaskKind τ} {type : TaskType} (h : k.type? = some type) :
    k.toNode task = .mapping (k.entries task) ∧ EntriesOf type (k.entries task) := by
  cases k with
  | extension => cases h
  | _ =>
    obtain rfl := Option.some.inj h
    exact ⟨rfl, entriesOf_writeEntries rfl (by decide) List.mem_cons_self⟩

/-- A kind reads back what its parts read back. -/
theorem readsBack_iff_of_codec {α : Type} {c : Codec α} {make : α → TaskKind τ} {type : TaskType}
    (hr : ∀ owned, ofObject task type owned = (c.decode (.mapping owned)).map make) {x : α}
    (ht : (make x).type? = some type) (hw : (make x).toNode task = c.write x) {k' : TaskKind τ} :
    (make x).ReadsBack task k' ↔ ∃ y, c.ReadsBack x y ∧ make y = k' := by
  rw [readsBack_iff_of_type ht, hr, ← (toNode_entries ht).1, hw, except_map_eq_ok]
  simp only [Codec.decode_eq_ok, Codec.ReadsBack]

variable {k' : TaskKind τ}

theorem call_readsBack {c : Call} :
    (call c).ReadsBack task k' ↔ ∃ y, Call.codec.ReadsBack c y ∧ call y = k' :=
  readsBack_iff_of_codec (fun _ => rfl) rfl rfl

theorem do_readsBack {m : NamedMap τ} :
    (do_ m).ReadsBack task k' ↔ ∃ y, (doCodec task).ReadsBack m y ∧ do_ y = k' :=
  readsBack_iff_of_codec (fun _ => rfl) rfl rfl

theorem emit_readsBack {e : Emission} :
    (emit e).ReadsBack task k' ↔ ∃ y, emitCodec.ReadsBack e y ∧ emit y = k' :=
  readsBack_iff_of_codec (fun _ => rfl) rfl rfl

theorem for_readsBack {t : ForTask τ} :
    (for_ t).ReadsBack task k' ↔ ∃ y, (ForTask.codec task).ReadsBack t y ∧ for_ y = k' :=
  readsBack_iff_of_codec (fun _ => rfl) rfl rfl

theorem fork_readsBack {b : Branching τ} :
    (fork b).ReadsBack task k' ↔ ∃ y, (forkCodec task).ReadsBack b y ∧ fork y = k' :=
  readsBack_iff_of_codec (fun _ => rfl) rfl rfl

theorem listen_readsBack {t : ListenTask τ} :
    (listen t).ReadsBack task k' ↔ ∃ y, (ListenTask.codec task).ReadsBack t y ∧ listen y = k' :=
  readsBack_iff_of_codec (fun _ => rfl) rfl rfl

theorem raise_readsBack {p : ProblemReference} :
    (raise p).ReadsBack task k' ↔ ∃ y, raiseCodec.ReadsBack p y ∧ raise y = k' :=
  readsBack_iff_of_codec (fun _ => rfl) rfl rfl

theorem run_readsBack {r : Run} :
    (run r).ReadsBack task k' ↔ ∃ y, runCodec.ReadsBack r y ∧ run y = k' :=
  readsBack_iff_of_codec (fun _ => rfl) rfl rfl

theorem set_readsBack {m : OrderedMap Node} :
    (set m).ReadsBack task k' ↔ ∃ y, setCodec.ReadsBack m y ∧ set y = k' :=
  readsBack_iff_of_codec (fun _ => rfl) rfl rfl

theorem switch_readsBack {m : NamedMap SwitchCase} :
    (switch m).ReadsBack task k' ↔ ∃ y, switchCodec.ReadsBack m y ∧ switch y = k' :=
  readsBack_iff_of_codec (fun _ => rfl) rfl rfl

theorem try_readsBack {t : TryTask τ} :
    (try_ t).ReadsBack task k' ↔ ∃ y, (TryTask.codec task).ReadsBack t y ∧ try_ y = k' :=
  readsBack_iff_of_codec (fun _ => rfl) rfl rfl

theorem wait_readsBack {d : Duration} :
    (wait d).ReadsBack task k' ↔ ∃ y, waitCodec.ReadsBack d y ∧ wait y = k' :=
  readsBack_iff_of_codec (fun _ => rfl) rfl rfl

/-- **What is read as a kind is read back**, if tasks are stable one level below. -/
theorem readsBack_of_ofObject [task.StableBelow d] {type : TaskType} {owned : Object}
    {k : TaskKind τ} (hn : (Node.mapping owned).Below (d + 1))
    (h : ofObject task type owned = .ok k) : k.ReadsBack task k := by
  have hc {α : Type} {c : Codec α} (hc : c.StableBelow (d + 1)) {make : α → TaskKind τ}
      (h : (c.decode (.mapping owned)).map make = .ok k) : ∃ x, make x = k ∧ c.Keeps x := by
    obtain ⟨x, hx, rfl⟩ := except_map_eq_ok.1 h
    exact ⟨x, rfl, hc.keeps_of_read hn (Codec.decode_eq_ok.1 hx)⟩
  cases type with
  | call =>
    obtain ⟨x, rfl, hx⟩ := hc (c := Call.codec) inferInstance h
    exact call_readsBack.2 ⟨x, hx, rfl⟩
  | do_ =>
    obtain ⟨x, rfl, hx⟩ := hc single_stable_succ h
    exact do_readsBack.2 ⟨x, hx, rfl⟩
  | emit =>
    obtain ⟨x, rfl, hx⟩ := hc single_stable_succ h
    exact emit_readsBack.2 ⟨x, hx, rfl⟩
  | for_ =>
    obtain ⟨x, rfl, hx⟩ := hc ForTask.stable_succ h
    exact for_readsBack.2 ⟨x, hx, rfl⟩
  | fork =>
    obtain ⟨x, rfl, hx⟩ := hc single_stable_succ h
    exact fork_readsBack.2 ⟨x, hx, rfl⟩
  | listen =>
    obtain ⟨x, rfl, hx⟩ := hc ListenTask.stable_succ h
    exact listen_readsBack.2 ⟨x, hx, rfl⟩
  | raise =>
    obtain ⟨x, rfl, hx⟩ := hc (c := raiseCodec) inferInstance h
    exact raise_readsBack.2 ⟨x, hx, rfl⟩
  | run =>
    obtain ⟨x, rfl, hx⟩ := hc single_stable_succ h
    exact run_readsBack.2 ⟨x, hx, rfl⟩
  | set =>
    obtain ⟨x, rfl, hx⟩ := hc single_stable_succ h
    exact set_readsBack.2 ⟨x, hx, rfl⟩
  | switch =>
    obtain ⟨x, rfl, hx⟩ := hc single_stable_succ h
    exact switch_readsBack.2 ⟨x, hx, rfl⟩
  | try_ =>
    obtain ⟨x, rfl, hx⟩ := hc TryTask.stable_succ h
    exact try_readsBack.2 ⟨x, hx, rfl⟩
  | wait =>
    obtain ⟨x, rfl, hx⟩ := hc single_stable_succ h
    exact wait_readsBack.2 ⟨x, hx, rfl⟩

end TaskKind

end

end WorkflowDsl
