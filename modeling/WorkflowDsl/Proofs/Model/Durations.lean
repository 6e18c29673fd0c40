import WorkflowDsl.Proofs.Model.Nesting
import WorkflowDsl.Proofs.Model.Placement
import WorkflowDsl.Proofs.Model.References

/-!
# Durations of a document

`Workflow.durations` collects the durations that occur in a document, each with the site where it
stands: in tasks at any depth, in the components, in the schedule and at the top.

Where the check of a document finds nothing, the durations at the sites that it looks at are well
formed. It passes over four sites (`DurationSite.isChecked`): the increment of a linear backoff, the
two limits of a retry policy, and the lifetime of a container. There a text may be anything, and
nowhere else (`Workflow.accepted_of_check_iff`).
-/

namespace WorkflowDsl

/-! ## Sites -/

/-- Where a duration stands in a document. -/
inductive DurationSite where
  | wait
  | timeout
  | schedule
  | retryDelay
  | retryJitter
  | backoffIncrement
  | attemptLimit
  | retryLimit
  | containerLifetime
deriving DecidableEq, Repr

/-- Whether the check of a document looks at the duration. -/
def DurationSite.isChecked : DurationSite → Bool
  | backoffIncrement | attemptLimit | retryLimit | containerLifetime => false
  | _ => true

/-- A duration, and where it stands. -/
structure PlacedDuration where
  site : DurationSite
  duration : Duration
deriving DecidableEq, Repr

namespace PlacedDuration

/-- Whether a duration that is given as a text is well formed. -/
def IsAccepted (d : PlacedDuration) : Prop :=
  ∀ text, d.duration = .text text → ∀ field, Format.checkPeriod field text = .ok ()

/-- The duration is well formed if it is looked at. -/
def IsSound (d : PlacedDuration) : Prop := d.site.isChecked = true → d.IsAccepted

end PlacedDuration

/-! ## Durations of a document -/

/-- The duration at a site, if there is one. -/
def DurationSite.durations (site : DurationSite) (d : Option Duration) : List PlacedDuration :=
  d.toList.map (PlacedDuration.mk site)

def Timeout.durations (t : Timeout) : List PlacedDuration := [⟨.timeout, t.after⟩]

/-- The durations of what is written in place of a name. -/
def OneOf.durations {α : Type} (f : α → List PlacedDuration) : OneOf α String → List PlacedDuration
  | .first a => f a
  | .second _ => []

def Backoff.durations : Backoff → List PlacedDuration
  | linear increment => DurationSite.backoffIncrement.durations increment
  | _ => []

def RetryLimit.durations (l : RetryLimit) : List PlacedDuration :=
  DurationSite.attemptLimit.durations (l.attempt.bind (·.duration))
    ++ DurationSite.retryLimit.durations l.duration

def Jitter.durations (j : Jitter) : List PlacedDuration :=
  [⟨.retryJitter, j.least⟩, ⟨.retryJitter, j.most⟩]

def RetryPolicy.durations (p : RetryPolicy) : List PlacedDuration :=
  DurationSite.retryDelay.durations p.delay ++ p.backoff.toList.flatMap Backoff.durations
    ++ p.limit.toList.flatMap RetryLimit.durations ++ p.jitter.toList.flatMap Jitter.durations

def Process.durations : Process → List PlacedDuration
  | container p => DurationSite.containerLifetime.durations (p.lifetime.bind (·.after))
  | _ => []

/-- The durations of a kind, without those of the tasks inside. -/
def TaskKind.durations {τ : Type} : TaskKind τ → List PlacedDuration
  | run r => r.process.durations
  | try_ t => t.catcher.retry.toList.flatMap (OneOf.durations RetryPolicy.durations)
  | wait d => [⟨.wait, d⟩]
  | _ => []

def TaskFields.durations (f : TaskFields) : List PlacedDuration :=
  f.timeout.toList.flatMap (OneOf.durations Timeout.durations)

/-- The durations of a task and the tasks inside of it. -/
def Task.durations : Task → List PlacedDuration :=
  para fun t kind => t.fields.durations ++ kind.durations ++ kind.children.flatten

def Extension.durations (e : Extension) : List PlacedDuration :=
  e.before.values.flatMap Task.durations ++ e.after.values.flatMap Task.durations

def Components.durations (c : Components) : List PlacedDuration :=
  c.extensions.values.flatMap Extension.durations
    ++ c.functions.entries.values.flatMap Task.durations
    ++ c.retries.entries.values.flatMap RetryPolicy.durations
    ++ c.timeouts.entries.values.flatMap Timeout.durations

def Schedule.durations (s : Schedule) : List PlacedDuration :=
  DurationSite.schedule.durations s.every ++ DurationSite.schedule.durations s.after

/-- All durations of a document. -/
def Workflow.durations (w : Workflow) : List PlacedDuration :=
  w.timeout.toList.flatMap (OneOf.durations Timeout.durations)
    ++ w.schedule.toList.flatMap Schedule.durations
    ++ w.components.toList.flatMap Components.durations ++ w.tasks.values.flatMap Task.durations

/-! ## Durations that are looked at -/

/-- The durations at checked sites are well formed. -/
def AllSound (ds : List PlacedDuration) : Prop := ∀ d ∈ ds, d.IsSound

section

variable {α : Type} {site : DurationSite} {field : String}

namespace AllSound

theorem nil : AllSound [] := nofun

theorem append {ds es : List PlacedDuration} (hd : AllSound ds) (he : AllSound es) :
    AllSound (ds ++ es) :=
  List.forall_mem_append.2 ⟨hd, he⟩

theorem flatMap {as : List α} {f : α → List PlacedDuration} (h : ∀ a ∈ as, AllSound (f a)) :
    AllSound (as.flatMap f) :=
  List.forall_mem_flatMap.2 h

theorem option {x : Option α} {f : α → List PlacedDuration} (h : ∀ a ∈ x, AllSound (f a)) :
    AllSound (x.toList.flatMap f) :=
  flatMap fun a ha => h a (Option.mem_toList.1 ha)

/-- A text that the check of a duration finds nothing wrong with is well formed in any field. -/
theorem of_check {d : Duration} (h : d.check field = .ok ()) : AllSound [⟨site, d⟩] := by
  rintro _ hm - text ht
  obtain rfl := List.mem_singleton.1 hm
  obtain rfl : d = .text text := ht
  exact fun g => Format.portable_checkPeriod text field g h

theorem of_forM {d : Option Duration} (h : d.forM (Duration.check field) = .ok ()) :
    AllSound (site.durations d) := by
  cases d with
  | none => exact nil
  | some d => exact of_check (Check.option_forM_eq_ok.1 h d rfl)

theorem of_not_isChecked (hs : site.isChecked = false) (d : Option Duration) :
    AllSound (site.durations d) := by
  intro r hr hk
  obtain ⟨_, _, rfl⟩ := List.mem_map.1 hr
  rw [show site.isChecked = true from hk] at hs
  cases hs

/-- A value, or the name of one, whose check finds nothing. -/
theorem of_reference {check : OneOf α String → Check} {x : Option (OneOf α String)}
    {f : α → List PlacedDuration} (h : x.forM check = .ok ())
    (hc : ∀ a, check (.first a) = .ok () → AllSound (f a)) :
    AllSound (x.toList.flatMap (OneOf.durations f)) := by
  refine option fun y hy => ?_
  have h := Check.option_forM_eq_ok.1 h y hy
  cases y with
  | first a => exact hc a h
  | second name => exact nil

end AllSound

theorem Timeout.allSound_of_check {t : Timeout} (h : t.check field = .ok ()) :
    AllSound t.durations :=
  .of_check h

theorem Jitter.allSound_of_check {j : Jitter} (h : j.check field = .ok ()) :
    AllSound j.durations := by
  obtain ⟨hl, h⟩ := Check.bind_eq_ok.1 h
  exact .append (.of_check hl) (.of_check (Check.bind_eq_ok.1 h).1)

/-- The delay and the jitter of a retry policy are looked at, its backoff and limits are not. -/
theorem RetryPolicy.allSound_of_check {p : RetryPolicy} (h : p.check field = .ok ()) :
    AllSound p.durations := by
  obtain ⟨hd, hj⟩ := Check.bind_eq_ok.1 h
  refine .append (.append (.append (.of_forM hd) (.flatMap fun b _ => ?_)) (.flatMap fun l _ => ?_))
    (.option fun j hm => Jitter.allSound_of_check (Check.option_forM_eq_ok.1 hj j hm))
  · cases b with
    | linear increment => exact .of_not_isChecked rfl _
    | _ => exact .nil
  · exact .append (.of_not_isChecked rfl _) (.of_not_isChecked rfl _)

theorem Process.allSound (p : Process) : AllSound p.durations := by
  cases p with
  | container p => exact .of_not_isChecked rfl _
  | _ => exact .nil

/-! ## Tasks -/

variable {components : Option Components} {path : String} {siblings : List String}

theorem TaskKind.allSound_of_check {k : TaskKind TaskCheck}
    (h : k.check components path siblings = .ok ()) : AllSound k.durations := by
  cases k with
  | run r => exact r.process.allSound
  | try_ t =>
    obtain ⟨-, hr, -⟩ := check_try_eq_ok.1 h
    exact .of_reference hr fun _ => RetryPolicy.allSound_of_check
  | wait d => exact .of_check h
  | _ => exact .nil

theorem TaskKind.durations_map {τ σ : Type} (f : τ → σ) (k : TaskKind τ) :
    (k.map f).durations = k.durations := by
  cases k <;> rfl

theorem TaskFields.allSound_of_check {f : TaskFields}
    (h : f.check components path siblings = .ok ()) : AllSound f.durations :=
  .of_reference (checked_of_check h).timeout fun _ => Timeout.allSound_of_check

namespace Task

theorem durations_mk (fields : TaskFields) (kind : TaskKind Task) (extra : OrderedMap Node) :
    (mk fields kind extra).durations =
      fields.durations ++ kind.durations ++ kind.children.flatMap durations := by
  have h : (mk fields kind extra).durations = fields.durations ++
      (kind.map durations).durations ++ (kind.map durations).children.flatten := para_mk ..
  rw [h, TaskKind.durations_map, TaskKind.children_map, List.flatMap_def]

theorem allSound_of_passes {t : Task} (h : (t.check components).Passes) :
    AllSound t.durations := by
  refine induction_of_passes (P := fun t => AllSound t.durations)
    (fun fields kind extra path siblings hf hk ih => ?_) h
  have hk := TaskKind.allSound_of_check hk
  rw [TaskKind.durations_map] at hk
  rw [durations_mk]
  exact .append (.append (TaskFields.allSound_of_check hf) hk) (.flatMap ih)

end Task

end

/-! ## Documents -/

theorem Extension.allSound_of_check {components : Option Components} {path : String}
    {e : Extension} (h : e.check components path = .ok ()) : AllSound e.durations := by
  have hl {tasks : NamedMap Task} (hm : tasks ∈ [e.before, e.after]) :
      AllSound (tasks.values.flatMap Task.durations) :=
    .flatMap fun t ht => Task.allSound_of_passes (passesAmong_of_check h hm ht).passes
  exact .append (hl List.mem_cons_self) (hl (List.mem_cons_of_mem _ List.mem_cons_self))

theorem Components.Checked.allSound {c : Components} (h : c.Checked) : AllSound c.durations := by
  refine .append (.append (.append ?_ ?_) ?_) ?_
  · refine .flatMap fun e hm => ?_
    obtain ⟨path, he⟩ := h.extensions e hm
    exact Extension.allSound_of_check he
  · exact .flatMap fun t hm => Task.allSound_of_passes (h.functions t hm).passes
  · refine .flatMap fun p hm => ?_
    obtain ⟨field, hp⟩ := h.retries p hm
    exact RetryPolicy.allSound_of_check hp
  · refine .flatMap fun t hm => ?_
    obtain ⟨field, ht⟩ := h.timeouts t hm
    exact Timeout.allSound_of_check ht

theorem Schedule.allSound_of_check {s : Schedule} (h : s.check = .ok ()) :
    AllSound s.durations := by
  obtain ⟨he, h⟩ := Check.bind_eq_ok.1 h
  exact .append (.of_forM he) (.of_forM (Check.bind_eq_ok.1 h).1)

namespace Workflow

/-- **In a document without violations, the durations at checked sites are well formed.** -/
theorem allSound_of_check {w : Workflow} (h : w.check = .ok ()) : AllSound w.durations := by
  have h := checked_of_check h
  refine .append (.append (.append ?_ ?_) ?_) ?_
  · exact .of_reference h.timeout fun _ => Timeout.allSound_of_check
  · exact .option fun s hm => Schedule.allSound_of_check (h.schedule s hm)
  · exact .option fun c hm => (h.components c hm).allSound
  · exact .flatMap fun t hm => Task.allSound_of_passes (Task.passes_of_checkTasks h.tasks hm)

/-- A document whose one task is tried again by a policy. -/
def ofRetry (policy : RetryPolicy) : Workflow :=
  ofTask (.try_
    { tasks := ⟨[("attempt", .ofKind (.set ⟨[("done", .bool true)]⟩))]⟩
      catcher := { retry := some (.first policy) } })

/-- A document without violations whose one duration, at an unchecked site, is ill formed. -/
def illTimed : DurationSite → Workflow
  | .backoffIncrement => ofRetry { backoff := some (.linear (some (.text "soon"))) }
  | .attemptLimit =>
    ofRetry { limit := some { attempt := some { duration := some (.text "soon") } } }
  | .retryLimit => ofRetry { limit := some { duration := some (.text "soon") } }
  | _ =>
    let lifetime : ContainerLifetime := { cleanup := .eventually, after := some (.text "soon") }
    ofTask (.run { process := .container { image := "alpine", lifetime := some lifetime } })

theorem check_illTimed {s : DurationSite} (hs : s.isChecked = false) :
    (illTimed s).check = .ok () ∧ (illTimed s).durations = [⟨s, .text "soon"⟩] := by
  cases s with
  | backoffIncrement => exact ⟨rfl, rfl⟩
  | attemptLimit => exact ⟨rfl, rfl⟩
  | retryLimit => exact ⟨rfl, rfl⟩
  | containerLifetime => exact ⟨rfl, rfl⟩
  | _ => cases hs

/-- **The durations at a site are well formed in all documents without violations exactly when the
check looks at them.** -/
theorem accepted_of_check_iff (s : DurationSite) :
    (∀ w : Workflow, w.check = .ok () → ∀ d ∈ w.durations, d.site = s → d.IsAccepted) ↔
      s.isChecked = true := by
  constructor
  · intro h
    by_contra hs
    obtain ⟨hc, hd⟩ := check_illTimed (Bool.eq_false_iff.2 hs)
    have ha := h _ hc ⟨s, .text "soon"⟩ (by rw [hd]; exact List.mem_cons_self) rfl "soon" rfl ""
    have he : Format.checkPeriod "" "soon" ≠ .ok () := by decide
    exact he ha
  · rintro hs w hc d hd rfl
    exact allSound_of_check hc d hd hs

end Workflow

end WorkflowDsl
