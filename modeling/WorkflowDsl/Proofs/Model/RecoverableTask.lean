import WorkflowDsl.Proofs.Model.RecoverablePart
import WorkflowDsl.Proofs.Model.Task

/-!
# Tasks that can be recovered

A task is recovered when its common fields, its kind and the tasks inside of it are, the names of
these are distinct, and its other entries are apart from the rest (`Task.keysApart`). Each of these
is needed: what a task is read back as has all of them, and if it is equal to the task, so has the
task (`Task.keptIff`).
-/

namespace WorkflowDsl

/-! ## Parts with tasks inside -/

section

variable {τ : Type} {task : Codec τ} {r : τ → τ → Bool} {p : τ → Bool}

theorem Branching.keptIff {b : Branching τ}
    (h : ∀ t ∈ b.branches.values, KeptIff task.ReadsBack r (p t) t) :
    KeptIff (codec task).ReadsBack (fun x y => x.branches.equalBy r y.branches)
      (b.branches.allDistinct p) b := by
  have ht := Codec.keptIff_namedMap h
  refine Codec.keptIff_record (.computed rfl) (fun h => ?_) ?_
  · exact ⟨ht.keeps h, Field.Keeping.keeps _, trivial⟩
  · exact fun _ hx he => ht.of_readsBack hx.1 he

theorem ForTask.keptIff {t : ForTask τ}
    (h : ∀ u ∈ t.tasks.values, KeptIff task.ReadsBack r (p u) u) :
    KeptIff (codec task).ReadsBack (fun x y => x.tasks.equalBy r y.tasks)
      (t.tasks.allDistinct p) t := by
  have ht := Codec.keptIff_namedMap h
  refine Codec.keptIff_record (.computed rfl) (fun h => ?_) ?_
  · exact ⟨Field.Keeping.keeps _, Field.Keeping.keeps _, ht.keeps h, trivial⟩
  · exact fun _ hx he => ht.of_readsBack hx.2.2.1 he

theorem Catcher.keptIff {c : Catcher τ}
    (h : ∀ t ∈ c.tasks.values, KeptIff task.ReadsBack r (p t) t) :
    KeptIff (codec task).ReadsBack (fun x y => x.tasks.equalBy r y.tasks)
      (c.tasks.allDistinct p) c := by
  have ht := Codec.keptIff_omittedNamedMap "do" Catcher.tasks h
  refine Codec.keptIff_record (.computed rfl) (fun h => ?_) ?_
  · exact ⟨Field.Keeping.keeps _, Field.Keeping.keeps _, Field.Keeping.keeps _,
      Field.Keeping.keeps _, Field.Keeping.keeps _, ht.keeps h, trivial⟩
  · exact fun _ hx he => ht.of_readsBack hx.2.2.2.2.2.1 he

theorem TryTask.keptIff {t : TryTask τ}
    (h : ∀ u ∈ t.tasks.values, KeptIff task.ReadsBack r (p u) u)
    (hc : ∀ u ∈ t.catcher.tasks.values, KeptIff task.ReadsBack r (p u) u) :
    KeptIff (codec task).ReadsBack
      (fun x y => x.tasks.equalBy r y.tasks && x.catcher.tasks.equalBy r y.catcher.tasks)
      (t.tasks.allDistinct p && t.catcher.tasks.allDistinct p) t := by
  have ht := Codec.keptIff_namedMap h
  have hc := Catcher.keptIff hc
  refine Codec.keptIff_record (.computed rfl) (fun h => ?_) ?_
  · obtain ⟨h1, h2⟩ := Bool.and_eq_true_iff.1 h
    exact ⟨ht.keeps h1, hc.keeps h2, trivial⟩
  · intro x hx he
    obtain ⟨e1, e2⟩ := Bool.and_eq_true_iff.1 he
    exact Bool.and_eq_true_iff.2 ⟨ht.of_readsBack hx.1 e1, hc.of_readsBack hx.2.1 e2⟩

namespace Subscription

def isRecoverable (p : τ → Bool) (s : Subscription τ) : Bool :=
  s.tasks.allDistinct p && s.output.all (·.isRecoverable) && s.export_.all (·.isRecoverable)

theorem keptIff {s : Subscription τ}
    (h : ∀ t ∈ s.tasks.values, KeptIff task.ReadsBack r (p t) t) :
    KeptIff (codec task).ReadsBack
      (fun x y => x.tasks.equalBy r y.tasks && x.output == y.output && x.export_ == y.export_)
      (s.isRecoverable p) s := by
  have ht := Codec.keptIff_omittedNamedMap "do" tasks h
  have ho := Field.keptIff_optional "output" (output : Subscription τ → _)
    (Codec.keptIff_option OutputModel.keptIff Codec.record_write_ne_null s.output)
  have hx := Field.keptIff_optional "export" (export_ : Subscription τ → _)
    (Codec.keptIff_option ExportModel.keptIff Codec.record_write_ne_null s.export_)
  refine Codec.keptIff_record (.computed rfl)
    (fun h => ?_) ?_
  · simp only [isRecoverable, Bool.and_eq_true] at h
    obtain ⟨⟨h1, h2⟩, h3⟩ := h
    exact ⟨Field.Keeping.keeps _, Field.Keeping.keeps _, ht.keeps h1, ho.keeps h2, hx.keeps h3,
      trivial⟩
  · intro x ⟨_, _, h1, h2, h3, _⟩ he
    simp only [Bool.and_eq_true] at he
    obtain ⟨⟨e1, e2⟩, e3⟩ := he
    simp only [isRecoverable, Bool.and_eq_true]
    exact ⟨⟨ht.of_readsBack h1 e1, ho.of_readsBack h2 e2⟩, hx.of_readsBack h3 e3⟩

end Subscription

/-- Equality of what may be lost of a subscription. -/
def Subscription.optionalAgree (r : τ → τ → Bool) :
    Option (Subscription τ) → Option (Subscription τ) → Bool
  | none, none => true
  | some a, some b => a.tasks.equalBy r b.tasks && a.output == b.output && a.export_ == b.export_
  | _, _ => false

theorem ListenTask.keptIff {t : ListenTask τ}
    (h : ∀ s ∈ t.subscription, ∀ u ∈ s.tasks.values, KeptIff task.ReadsBack r (p u) u) :
    KeptIff (codec task).ReadsBack
      (fun x y => Subscription.optionalAgree r x.subscription y.subscription)
      (t.subscription.all (·.isRecoverable p)) t := by
  have hs := Field.keptIff_optional "foreach" (subscription : ListenTask τ → _)
    (Codec.keptIff_optionBy (s := Subscription.optionalAgree r)
      (fun s hs => Subscription.keptIff (h s hs)) Codec.record_write_ne_null fun _ _ he => he)
  refine Codec.keptIff_record (.computed rfl) (fun h => ?_) ?_
  · exact ⟨Field.Keeping.keeps _, hs.keeps h, trivial⟩
  · exact fun _ hx he => hs.of_readsBack hx.2.1 he

end

/-! ## Kinds -/

namespace TaskKind

variable {τ σ : Type}

/-- Whether a kind can be recovered, given whether the tasks inside can. -/
def isRecoverable : TaskKind Bool → Bool
  | do_ tasks => tasks.allDistinct id
  | for_ t => t.tasks.allDistinct id
  | fork b => b.branches.allDistinct id
  | listen t => t.subscription.all (·.isRecoverable id)
  | run r => r.isRecoverable
  | switch cases => cases.allDistinct (·.isRecoverable)
  | try_ t => t.tasks.allDistinct id && t.catcher.tasks.allDistinct id
  | _ => true

theorem equalBy_map {f : τ → σ} {r : σ → τ → Bool} (k l : TaskKind τ) :
    (k.map f).equalBy r l = k.equalBy (fun a b => r (f a) b) l := by
  cases k with
  | do_ => cases l with
    | do_ => exact NamedMap.equalBy_map ..
    | _ => rfl
  | for_ => cases l with
    | for_ => exact congrArg (_ && ·) (NamedMap.equalBy_map ..)
    | _ => rfl
  | fork => cases l with
    | fork => exact congrArg (· && _) (NamedMap.equalBy_map ..)
    | _ => rfl
  | listen s => cases l with
    | listen t =>
      obtain ⟨_, _ | a⟩ := s <;> obtain ⟨_, _ | b⟩ := t <;> try rfl
      have h := NamedMap.equalBy_map r f a.tasks b.tasks
      simp only [map, Option.map_some, equalBy, h]
    | _ => rfl
  | try_ s => cases l with
    | try_ t => simp only [map, equalBy, NamedMap.equalBy_map]
    | _ => rfl
  | _ => cases l <;> rfl

variable {task : Codec τ} {r : τ → τ → Bool} {p : τ → Bool}

/-- A kind is kept as its parts are. -/
theorem keptIff_of_codec {α : Type} {c : Codec α} {make : α → TaskKind τ} {x : α}
    {s : α → α → Bool} {q : Bool} (h : KeptIff c.ReadsBack s q x)
    (hr : ∀ {k'}, (make x).ReadsBack task k' ↔ ∃ y, c.ReadsBack x y ∧ make y = k')
    (he : ∀ y, (make y).equalBy r (make x) = true → s y x = true) :
    KeptIff (ReadsBack task) (equalBy r) q (make x) where
  keeps hq := hr.2 ⟨x, h.keeps hq, rfl⟩
  of_readsBack {k'} hk hb := by
    obtain ⟨y, hy, rfl⟩ := hr.1 hk
    exact h.of_readsBack hy (he y hb)

theorem single_keptIff {α : Type} (definition key : String) {c : Codec α} {s : α → α → Bool}
    {q : Bool} {x : α} (h : KeptIff c.ReadsBack s q x) :
    KeptIff (single definition key c).ReadsBack s q x where
  keeps hq := single_readsBack_iff.2 (h.keeps hq)
  of_readsBack hr he := h.of_readsBack (single_readsBack_iff.1 hr) he

theorem optionalAgree_of_equalBy {s t : ListenTask τ}
    (h : (listen s).equalBy r (listen t) = true) :
    Subscription.optionalAgree r s.subscription t.subscription = true := by
  have h := (Bool.and_eq_true_iff.1 h).2
  obtain ⟨_, _ | a⟩ := s <;> obtain ⟨_, _ | b⟩ := t
  · rfl
  · cases h
  · cases h
  · simp only [Bool.and_eq_true] at h
    obtain ⟨⟨⟨-, ht⟩, ho⟩, hx⟩ := h
    simp only [Subscription.optionalAgree, Bool.and_eq_true]
    exact ⟨⟨ht, ho⟩, hx⟩

/-- **A kind is kept exactly when it is recoverable**, given that of the tasks inside. -/
theorem keptIff {k : TaskKind τ} (h : ∀ t ∈ k.children, KeptIff task.ReadsBack r (p t) t) :
    KeptIff (ReadsBack task) (equalBy r) (k.map p).isRecoverable k := by
  have hp {m : NamedMap τ} : (m.map p).allDistinct id = m.allDistinct p :=
    NamedMap.allDistinct_map p id m
  cases k with
  | call c => exact .of_self (call_readsBack.2 ⟨c, Codec.keeps _ c, rfl⟩)
  | do_ m =>
    have hm := single_keptIff "DoTaskDefinition" "do" (Codec.keptIff_namedMap h)
    rw [map, isRecoverable, hp]
    exact keptIff_of_codec hm do_readsBack fun _ he => he
  | emit e => exact .of_self (emit_readsBack.2 ⟨e, single_readsBack_iff.2 (Codec.keeps _ e), rfl⟩)
  | for_ t =>
    rw [map, isRecoverable, hp]
    refine keptIff_of_codec (ForTask.keptIff h) for_readsBack fun y he => ?_
    exact (Bool.and_eq_true_iff.1 he).2
  | fork b =>
    have hb := single_keptIff "ForkTaskDefinition" "fork" (Branching.keptIff h)
    rw [map, isRecoverable, hp]
    exact keptIff_of_codec hb fork_readsBack fun y he => (Bool.and_eq_true_iff.1 he).1
  | listen t =>
    have ht : KeptIff (ListenTask.codec task).ReadsBack _
        (t.subscription.all (·.isRecoverable p)) t :=
      ListenTask.keptIff (r := r) fun s hs u hu => h u (by
        obtain ⟨listener, _ | s'⟩ := t
        · cases hs
        · cases hs
          exact hu)
    have hq : ((listen t).map p).isRecoverable = t.subscription.all (·.isRecoverable p) := by
      obtain ⟨listener, _ | s⟩ := t
      · rfl
      · show ((s.tasks.map p).allDistinct id && _ && _) = _
        rw [hp]
        rfl
    rw [hq]
    exact keptIff_of_codec ht listen_readsBack fun _ => optionalAgree_of_equalBy
  | raise q => exact .of_self (raise_readsBack.2 ⟨q, Codec.keeps _ q, rfl⟩)
  | run r =>
    have hr := single_keptIff "RunTaskDefinition" "run" r.keptIff
    exact keptIff_of_codec hr run_readsBack fun _ he => he
  | set m => exact .of_self (set_readsBack.2 ⟨m, single_readsBack_iff.2 (Codec.keeps _ m), rfl⟩)
  | switch m =>
    have hm := single_keptIff "SwitchTaskDefinition" "switch"
      (Codec.keptIff_namedMap (m := m) fun c _ => c.keptIff)
    exact keptIff_of_codec hm switch_readsBack fun _ he => NamedMap.equalBy_of_beq he
  | try_ t =>
    have ht := TryTask.keptIff (fun u hu => h u (List.mem_append_left _ hu)) fun u hu =>
      h u (List.mem_append_right _ hu)
    rw [map, isRecoverable, hp, hp]
    refine keptIff_of_codec ht try_readsBack fun y he => ?_
    simp only [equalBy, Bool.and_eq_true] at he
    exact Bool.and_eq_true_iff.2 ⟨he.1.1.1.1.1.1, he.2⟩
  | wait d => exact .of_self (wait_readsBack.2 ⟨d, single_readsBack_iff.2 (Codec.keeps _ d), rfl⟩)
  | extension key definition => exact .of_self rfl

end TaskKind

/-! ## Tasks -/

namespace Task

/-- Whether a task and all tasks inside of it can be recovered. -/
def isRecoverable : Task → Bool :=
  para fun t kind => t.fields.isRecoverable && kind.isRecoverable && keysApart kind t.extra

section

variable {fields fields' : TaskFields} {kind kind' : TaskKind Task} {extra extra' : OrderedMap Node}

theorem keysApart_map {τ σ : Type} (f : τ → σ) (k : TaskKind τ) :
    keysApart (k.map f) extra = keysApart k extra := by
  cases k <;> rfl

theorem isRecoverable_mk :
    (mk fields kind extra).isRecoverable =
      (fields.isRecoverable && (kind.map isRecoverable).isRecoverable && keysApart kind extra) := by
  rw [← keysApart_map isRecoverable kind]
  exact para_mk fields kind extra

theorem equal_mk :
    (mk fields kind extra).equal (mk fields' kind' extra') =
      (fields == fields' && kind.equalBy equal kind' && extra == extra') := by
  have h : (kind.map equal).equalBy (fun p v => p v) kind' = kind.equalBy equal kind' :=
    TaskKind.equalBy_map kind kind'
  rw [← h]
  exact congrFun (para_mk fields kind extra) _

theorem type?_of_equalBy {r : Task → Task → Bool} (h : kind.equalBy r kind' = true) :
    kind.type? = kind'.type? := by
  cases kind <;> cases kind' <;> first | rfl | cases h

/-- Keys that are apart in a task are so in a task equal to it. -/
theorem keysApart_of_equal {r : Task → Task → Bool} (hk : kind.equalBy r kind' = true)
    (he : (extra == extra') = true) (h : keysApart kind extra = true) :
    keysApart kind' extra' = true := by
  have ht := type?_of_equalBy hk
  cases hk' : kind'.type? with
  | some type =>
    obtain ⟨hn, ha⟩ := (keysApart_of_type (ht.trans hk')).1 h
    have hp := OrderedMap.keys_perm_of_beq he hn
    exact (keysApart_of_type hk').2 ⟨hp.nodup hn, fun key hm => ha key (hp.mem_iff.2 hm)⟩
  | none =>
    cases kind' with
    | extension key' definition' =>
      cases kind with
      | extension key definition =>
        obtain ⟨rfl, hr⟩ := keysApart_extension.1 h
        obtain rfl := beq_iff_eq.1 (Bool.and_eq_true_iff.1 hk).1
        refine keysApart_extension.2 ⟨?_, hr⟩
        have hs := (OrderedMap.beq_iff.1 he).1
        obtain ⟨es⟩ := extra'
        exact congrArg OrderedMap.mk (List.length_eq_zero_iff.1 hs.symm)
      | _ => cases ht.trans hk'
    | _ => cases hk'

end

/-- **A task is kept exactly when it is recoverable.** -/
theorem keptIff (t : Task) : KeptIff codec.ReadsBack equal t.isRecoverable t := by
  induction t using Task.induction with
  | step fields kind extra ih =>
    have hf := fields.keptIff
    have hk := TaskKind.keptIff ih
    constructor
    · intro h
      rw [isRecoverable_mk, Bool.and_eq_true, Bool.and_eq_true] at h
      obtain ⟨⟨h1, h2⟩, h3⟩ := h
      exact (readsBack_iff h3).2 ⟨hf.keeps h1, hk.keeps h2, rfl⟩
    · intro t hr he
      have hm : codec.read (.mapping (assemble fields (kind.toNode codec) extra)) = .ok t := by
        rw [← toNode_mk]
        exact hr
      have ha := keysApart_of_ofNodeBy nodup_keys_assemble (read_mapping_eq_ok.1 hm)
      obtain ⟨fields', kind', extra'⟩ := t
      rw [equal_mk, Bool.and_eq_true, Bool.and_eq_true] at he
      obtain ⟨⟨e1, e2⟩, e3⟩ := he
      have ha' := keysApart_of_equal e2 e3 ha
      obtain ⟨r1, r2, -⟩ := (readsBack_iff ha').1 hr
      rw [isRecoverable_mk, Bool.and_eq_true, Bool.and_eq_true]
      exact ⟨⟨hf.of_readsBack r1 e1, hk.of_readsBack r2 e2⟩, ha'⟩

end Task

end WorkflowDsl
