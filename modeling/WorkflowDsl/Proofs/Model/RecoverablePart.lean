import WorkflowDsl.Proofs.Codec.Exact
import WorkflowDsl.Proofs.Model.TaskKind

/-!
# Parts of tasks that can be recovered

Some parts of a task are not always read back from what they are written as: an optional payload
that is null is written like none, and a jump to a task called `end` like the end of the workflow.
`isRecoverable` finds these and no others (`keptIff`).
-/

namespace WorkflowDsl

/-! ## Data models -/

namespace Schema

/-- The document is not null. -/
def isRecoverable (s : Schema) : Bool := s.document.all (!·.isNull)

theorem keptIff (s : Schema) : KeptIff codec.ReadsBack (· == ·) s.isRecoverable s := by
  have hd := Field.keptIff_optional "document" Schema.document
    (Codec.keptIff_node s.document)
  refine Codec.keptIff_record (.computed rfl) (fun h => ?_) ?_
  · exact ⟨Field.Keeping.keeps _, hd.keeps h, Field.Keeping.keeps _, trivial⟩
  · intro t ⟨_, ht, _⟩ he
    have he' : (t.format == s.format && (t.document == s.document && t.resource == s.resource)) =
      true := he
    simp only [Bool.and_eq_true] at he'
    exact hd.of_readsBack ht he'.2.1

end Schema

/-- A data model is kept when its schema is, and the node beside it is not null. -/
theorem keptIff_dataModel {ρ : Type} [BEq ρ] {name key : String}
    {make : Option Schema → Option Node → ρ} {schema : ρ → Option Schema} {node : ρ → Option Node}
    (h : (Fields.more (.optional "schema" Schema.codec schema) <|
      .more (.optional key .node node) .done).Lawful make)
    (hb : ∀ s t : ρ, (s == t) = true →
      (schema s == schema t) = true ∧ (node s == node t) = true) (m : ρ) :
    KeptIff (Codec.record name make <| .more (.optional "schema" Schema.codec schema) <|
        .more (.optional key .node node) .done).ReadsBack (· == ·)
      ((schema m).all (·.isRecoverable) && (node m).all (!·.isNull)) m := by
  have hs := Field.keptIff_optional "schema" schema
    (Codec.keptIff_option Schema.keptIff Codec.record_write_ne_null (schema m))
  have hn := Field.keptIff_optional key node (Codec.keptIff_node (node m))
  refine Codec.keptIff_record h (fun hp => ?_) ?_
  · obtain ⟨h1, h2⟩ := Bool.and_eq_true_iff.1 hp
    exact ⟨hs.keeps h1, hn.keeps h2, trivial⟩
  · intro t ⟨h1, h2, _⟩ he
    obtain ⟨e1, e2⟩ := hb t m he
    exact Bool.and_eq_true_iff.2 ⟨hs.of_readsBack h1 e1, hn.of_readsBack h2 e2⟩

namespace InputModel

def isRecoverable (m : InputModel) : Bool :=
  m.schema.all (·.isRecoverable) && m.source.all (!·.isNull)

theorem keptIff (m : InputModel) : KeptIff codec.ReadsBack (· == ·) m.isRecoverable m :=
  keptIff_dataModel (.computed rfl) (fun _ _ h => Bool.and_eq_true_iff.1 h) m

end InputModel

namespace OutputModel

def isRecoverable (m : OutputModel) : Bool :=
  m.schema.all (·.isRecoverable) && m.target.all (!·.isNull)

theorem keptIff (m : OutputModel) : KeptIff codec.ReadsBack (· == ·) m.isRecoverable m :=
  keptIff_dataModel (.computed rfl) (fun _ _ h => Bool.and_eq_true_iff.1 h) m

end OutputModel

namespace ExportModel

def isRecoverable (m : ExportModel) : Bool :=
  m.schema.all (·.isRecoverable) && m.target.all (!·.isNull)

theorem keptIff (m : ExportModel) : KeptIff codec.ReadsBack (· == ·) m.isRecoverable m :=
  keptIff_dataModel (.computed rfl) (fun _ _ h => Bool.and_eq_true_iff.1 h) m

end ExportModel

/-! ## Common fields -/

namespace FlowDirective

/-- The texts that are not the names of tasks. -/
def keywords : List String := ["continue", "exit", "end"]

/-- A jump does not lead to a task that is called like another directive. -/
def isRecoverable (d : FlowDirective) : Bool := d.target?.all (!keywords.contains ·)

theorem ofText_text_iff {d : FlowDirective} : ofText d.text = d ↔ d.isRecoverable = true := by
  cases d with
  | goto s =>
    show ofText s = goto s ↔ (!keywords.contains s) = true
    rw [ofText]
    by_cases h1 : s = "continue"
    · subst h1
      decide
    by_cases h2 : s = "exit"
    · subst h2
      decide
    by_cases h3 : s = "end"
    · subst h3
      decide
    simp [keywords, h1, h2, h3]
  | _ => decide

theorem keptIff (d : FlowDirective) : KeptIff codec.ReadsBack (· == ·) d.isRecoverable d where
  keeps h := readsBack_iff.2 (ofText_text_iff.2 h)
  of_readsBack hr he := by
    obtain rfl := beq_iff_eq.1 he
    exact ofText_text_iff.1 (readsBack_iff.1 hr)

end FlowDirective

namespace SwitchCase

def isRecoverable (c : SwitchCase) : Bool := c.next.isRecoverable

theorem keptIff (c : SwitchCase) : KeptIff codec.ReadsBack (· == ·) c.isRecoverable c := by
  refine Codec.keptIff_record (.computed rfl) (fun h => ?_) ?_
  · exact ⟨Field.Keeping.keeps _, c.next.keptIff.keeps h, trivial⟩
  · intro t ⟨_, ht, _⟩ he
    obtain rfl := beq_iff_eq.1 he
    exact t.next.keptIff.of_readsBack ht (beq_self_eq_true _)

end SwitchCase

namespace TaskFields

def isRecoverable (f : TaskFields) : Bool :=
  f.input.all (·.isRecoverable) && f.output.all (·.isRecoverable)
    && f.export_.all (·.isRecoverable) && f.next.all (·.isRecoverable)

theorem keptIff (f : TaskFields) : KeptIff codec.ReadsBack (· == ·) f.isRecoverable f := by
  have hi := Field.keptIff_optional "input" TaskFields.input
    (Codec.keptIff_option InputModel.keptIff Codec.record_write_ne_null f.input)
  have ho := Field.keptIff_optional "output" TaskFields.output
    (Codec.keptIff_option OutputModel.keptIff Codec.record_write_ne_null f.output)
  have hx := Field.keptIff_optional "export" TaskFields.export_
    (Codec.keptIff_option ExportModel.keptIff Codec.record_write_ne_null f.export_)
  have hd := Field.keptIff_optional "then" TaskFields.next
    (Codec.keptIff_option FlowDirective.keptIff FlowDirective.write_ne_null f.next)
  refine Codec.keptIff_record (.computed rfl) (fun h => ?_) ?_
  · simp only [isRecoverable, Bool.and_eq_true] at h
    obtain ⟨⟨⟨h1, h2⟩, h3⟩, h4⟩ := h
    exact ⟨Field.Keeping.keeps _, hi.keeps h1, ho.keeps h2, hx.keeps h3, Field.Keeping.keeps _,
      hd.keeps h4, Field.Keeping.keeps _, trivial⟩
  · intro t ⟨_, h1, h2, h3, _, h4, _⟩ he
    have he' : (t.condition == f.condition && (t.input == f.input && (t.output == f.output &&
      (t.export_ == f.export_ && (t.timeout == f.timeout && (t.next == f.next &&
        t.metadata == f.metadata)))))) = true := he
    simp only [Bool.and_eq_true] at he'
    obtain ⟨_, e1, e2, e3, _, e4, _⟩ := he'
    simp only [isRecoverable, Bool.and_eq_true]
    exact ⟨⟨⟨hi.of_readsBack h1 e1, ho.of_readsBack h2 e2⟩, hx.of_readsBack h3 e3⟩,
      hd.of_readsBack h4 e4⟩

end TaskFields

/-! ## Processes -/

namespace WorkflowProcess

/-- The input is not null. -/
def isRecoverable (p : WorkflowProcess) : Bool := p.input.all (!·.isNull)

theorem keptIff (p : WorkflowProcess) :
    KeptIff codec.ReadsBack (· == ·) p.isRecoverable p := by
  have hn := Field.keptIff_optional "input" WorkflowProcess.input
    (Codec.keptIff_node p.input)
  refine Codec.keptIff_record (.computed rfl) (fun h => ?_) ?_
  · exact ⟨Field.Keeping.keeps _, Field.Keeping.keeps _, Field.Keeping.keeps _, hn.keeps h, trivial⟩
  · intro q ⟨_, _, _, h, _⟩ he
    have he' : (q.workspace == p.workspace && (q.name == p.name && (q.version == p.version &&
      q.input == p.input))) = true := he
    simp only [Bool.and_eq_true] at he'
    exact hn.of_readsBack h he'.2.2.2

end WorkflowProcess

namespace Process

def isRecoverable : Process → Bool
  | workflow p => p.isRecoverable
  | _ => true

theorem keptIff (p : Process) : KeptIff ReadsBack (· == ·) p.isRecoverable p := by
  cases p with
  | workflow w =>
    refine ⟨fun h => readsBack_workflow.2 ⟨w, w.keptIff.keeps h, rfl⟩, fun {q} hr he => ?_⟩
    obtain ⟨v, hv, rfl⟩ := readsBack_workflow.1 hr
    exact w.keptIff.of_readsBack hv he
  | _ => exact .of_self ((readsBack_self_or _).resolve_right nofun)

end Process

namespace Run

def isRecoverable (r : Run) : Bool := r.process.isRecoverable

theorem keptIff (r : Run) : KeptIff codec.ReadsBack (· == ·) r.isRecoverable r where
  keeps h := readsBack_iff.2 ⟨r.process.keptIff.keeps h, rfl⟩
  of_readsBack {s} hr he := by
    have he' : (s.process == r.process && s.options == r.options) = true := he
    rw [Bool.and_eq_true] at he'
    exact r.process.keptIff.of_readsBack (readsBack_iff.1 hr).1 he'.1

end Run

end WorkflowDsl
