import WorkflowDsl.Proofs.Model.RecoverableTask
import WorkflowDsl.Proofs.Model.RoundTrip

/-!
# Workflows that can be recovered

A document is recovered when its tasks, its components and its data models are, and when no unknown
key is that of a field (`Workflow.keptIff`). Functions are kept under the keys of a map, of which
the order does not count, so that they need distinct keys to begin with.
-/

namespace WorkflowDsl

namespace Extension

def isRecoverable (e : Extension) : Bool :=
  e.before.allDistinct (·.isRecoverable) && e.after.allDistinct (·.isRecoverable)

theorem keptIff (e : Extension) : KeptIff codec.ReadsBack (· == ·) e.isRecoverable e := by
  have hb := Codec.keptIff_omittedNamedMap "before" before (m := e.before)
    fun t _ => t.keptIff
  have ha := Codec.keptIff_omittedNamedMap "after" after (m := e.after)
    fun t _ => t.keptIff
  refine Codec.keptIff_record (.computed rfl) (fun h => ?_) ?_
  · obtain ⟨h1, h2⟩ := Bool.and_eq_true_iff.1 h
    exact ⟨Field.Keeping.keeps _, Field.Keeping.keeps _, hb.keeps h1, ha.keeps h2, trivial⟩
  · intro f ⟨_, _, h1, h2, _⟩ he
    have he' : (f.extend == e.extend && (f.condition == e.condition && (f.before == e.before &&
      f.after == e.after))) = true := he
    simp only [Bool.and_eq_true] at he'
    obtain ⟨_, _, e1, e2⟩ := he'
    exact Bool.and_eq_true_iff.2 ⟨hb.of_readsBack h1 (NamedMap.equalBy_of_beq e1),
      ha.of_readsBack h2 (NamedMap.equalBy_of_beq e2)⟩

end Extension

namespace Components

def isRecoverable (c : Components) : Bool :=
  c.extensions.allDistinct (·.isRecoverable) && c.functions.entries.values.all (·.isRecoverable)

theorem keptIff {c : Components} (hn : c.functions.keys.Nodup) :
    KeptIff codec.ReadsBack (· == ·) c.isRecoverable c := by
  have hx := Codec.keptIff_omittedNamedMap "extensions" extensions (m := c.extensions)
    fun e _ => e.keptIff
  have hf : KeptIff
      (Field.omitted "functions" (.map Task.codec) {} OrderedMap.isEmpty functions).ReadsBack
      (· == ·) (c.functions.entries.values.all (·.isRecoverable)) c.functions := by
    refine Field.keptIff_omitted "functions" functions (Codec.keptIff_map hn Task.keptIff) ?_
    intro h
    rw [h]
    rfl
  refine Codec.keptIff_record (.computed rfl) (fun h => ?_) ?_
  · obtain ⟨h1, h2⟩ := Bool.and_eq_true_iff.1 h
    exact ⟨Field.Keeping.keeps _, Field.Keeping.keeps _, Field.Keeping.keeps _, hx.keeps h1,
      hf.keeps h2, Field.Keeping.keeps _, Field.Keeping.keeps _, Field.Keeping.keeps _, trivial⟩
  · intro d ⟨_, _, _, h1, h2, _⟩ he
    have he' : (d.authentications == c.authentications && (d.catalogs == c.catalogs &&
      (d.problems == c.problems && (d.extensions == c.extensions && (d.functions == c.functions &&
        (d.retries == c.retries && (d.secrets == c.secrets && d.timeouts == c.timeouts)))))))
          = true := he
    simp only [Bool.and_eq_true] at he'
    obtain ⟨_, _, _, e1, e2, _⟩ := he'
    exact Bool.and_eq_true_iff.2 ⟨hx.of_readsBack h1 (NamedMap.equalBy_of_beq e1),
      hf.of_readsBack h2 e2⟩

end Components

namespace Workflow

/-- The keys of the fields. -/
def keys : List String := ["document", "input", "use", "do", "timeout", "output", "schedule"]

/-- Whether what a workflow is written as is read as the same workflow. -/
def isRecoverable (w : Workflow) : Bool :=
  w.input.all (·.isRecoverable) && w.components.all (·.isRecoverable)
    && w.tasks.allDistinct (·.isRecoverable) && w.output.all (·.isRecoverable)
    && w.extra.keys.all (!keys.contains ·)

/-- **A workflow is kept exactly when it is recoverable.** -/
theorem keptIff {w : Workflow} (hn : ∀ c ∈ w.components, c.functions.keys.Nodup) :
    KeptIff codec.ReadsBack (· == ·) w.isRecoverable w := by
  have hi := Field.keptIff_optional "input" input
    (Codec.keptIff_option InputModel.keptIff Codec.record_write_ne_null w.input)
  have hc := Field.keptIff_optional "use" components
    (Codec.keptIff_optionBy (x := w.components) (s := (· == ·))
      (fun c hc => Components.keptIff (hn c hc)) Codec.record_write_ne_null fun _ _ he => he)
  have ht := Codec.keptIff_namedMap (m := w.tasks) fun t _ => t.keptIff
  have ho := Field.keptIff_optional "output" output
    (Codec.keptIff_option OutputModel.keptIff Codec.record_write_ne_null w.output)
  have hb {v : Workflow} (h : (v == w) = true) : (v.info == w.info && (v.input == w.input &&
      (v.components == w.components && (v.tasks == w.tasks && (v.timeout == w.timeout &&
        (v.output == w.output && (v.schedule == w.schedule && v.extra == w.extra))))))) = true := h
  simp only [Bool.and_eq_true] at hb
  refine Codec.keptIff_openRecord (.computed rfl)
    (fun v h => (hb h).2.2.2.2.2.2.2) (fun h => ?_) ?_
  · simp only [Bool.and_eq_true] at h
    obtain ⟨⟨⟨h1, h2⟩, h3⟩, h4⟩ := h
    exact ⟨Field.Keeping.keeps _, hi.keeps h1, hc.keeps h2, ht.keeps h3, Field.Keeping.keeps _,
      ho.keeps h4, Field.Keeping.keeps _, trivial⟩
  · intro v ⟨_, h1, h2, h3, _, h4, _⟩ he
    obtain ⟨_, e1, e2, e3, _, e4, _⟩ := hb he
    simp only [Bool.and_eq_true]
    exact ⟨⟨⟨hi.of_readsBack h1 e1, hc.of_readsBack h2 e2⟩,
      ht.of_readsBack h3 (NamedMap.equalBy_of_beq e3)⟩, ho.of_readsBack h4 e4⟩

end Workflow

end WorkflowDsl
