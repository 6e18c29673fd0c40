import WorkflowDsl.Proofs.Reader.Serving

/-!
# How legacy workflows are resolved

Nine parts of a legacy workflow may be given by a reference: the slots. Their references are
answered one after the other, and the first that cannot be answered ends the resolution.

A run is followed by `Resolver.Serves`, where the answer of a reference is what its document
converts to. Nine steps, one for each slot, give the outcome of a resolution
(`Resolver.outcome_resolveLegacy`).
-/

namespace WorkflowDsl

/-! ## Slots -/

namespace Legacy

/-- The parts of a workflow that may be given by a reference. -/
inductive Slot where
  | inputSchema
  | secrets
  | constants
  | timeouts
  | errors
  | events
  | functions
  | retries
  | auth
deriving DecidableEq, Repr

namespace Slot

/-- All slots, in the order in which their references are answered. -/
def all : List Slot :=
  [inputSchema, secrets, constants, timeouts, errors, events, functions, retries, auth]

/-- The name under which a document may hold the value of a slot. -/
def field : Slot → String
  | inputSchema => "schema"
  | secrets => "secrets"
  | constants => "constants"
  | timeouts => "timeouts"
  | errors => "errors"
  | events => "events"
  | functions => "functions"
  | retries => "retries"
  | auth => "auth"

abbrev Value : Slot → Type
  | inputSchema | constants => OrderedMap Node
  | secrets => List String
  | timeouts => Timeouts
  | errors => List Error
  | events => List Event
  | functions => List Function
  | retries => List Retry
  | auth => List Authentication

def codec : (s : Slot) → Codec s.Value
  | inputSchema | constants => .object
  | secrets => .list .string
  | timeouts => Timeouts.codec
  | errors => .list Error.codec
  | events => .list Event.codec
  | functions => .list Function.codec
  | retries => .list Retry.codec
  | auth => .list Authentication.codec

end Slot

/-- The schema of the input, or the reference to it, in a definition or in the place of one. -/
def schemaHeld : Referenceable InputSchema → Referenceable (OrderedMap Node)
  | .first definition => definition.schema
  | .second reference => .second reference

/-- What is said about input that does not fit the schema. It is a failure if nothing is said. -/
def failOnErrorsHeld : Referenceable InputSchema → Bool
  | .first definition => definition.failOnErrors
  | .second _ => true

namespace Workflow

/-- What a slot holds. -/
def held (w : Workflow) : (s : Slot) → Option (Referenceable s.Value)
  | .inputSchema => w.inputSchema.map schemaHeld
  | .secrets => w.secrets
  | .constants => w.constants
  | .timeouts => w.timeouts
  | .errors => w.errors
  | .events => w.events
  | .functions => w.functions
  | .retries => w.retries
  | .auth => w.auth

/-- Whether input that does not fit its schema is a failure, if there is a schema. -/
def failOnErrors? (w : Workflow) : Option Bool := w.inputSchema.map failOnErrorsHeld

end Workflow

/-- The reference that is held in a slot. -/
def referenceIn {s : Slot} (x : Option (Referenceable s.Value)) : List (Slot × String) :=
  (x.bind OneOf.second?).toList.map (s, ·)

/-- The references of a workflow, with their slots. -/
def Workflow.references (w : Workflow) : List (Slot × String) :=
  Slot.all.flatMap fun s => referenceIn (w.held s)

end Legacy

open Legacy (Slot Referenceable failOnErrorsHeld referenceIn schemaHeld)
open Resolution (Ends)

/-! ## Answers -/

namespace Resolver

variable {r : Resolver}

/-- The value that a reference means in a slot: what the document, or its entry under the name of
the slot, converts to. -/
def answer (r : Resolver) (s : Slot) (reference : String) : Except ReadError s.Value := do
  let d ← r.document reference
  (s.codec.read ((d.get? s.field).getD d)).mapError fun e =>
    .fetch reference s!"{s.field}: {e.message}"

/-- A reference with an answer, and the URL asked for. -/
def Answers (r : Resolver) (p : Slot × String) (u : Url) : Prop :=
  resolveReference r.base p.2 = .ok u ∧ ∃ a, r.answer p.1 p.2 = .ok a

/-- A reference without an answer, at which a run that has fetched `n` documents stops: with which
error, and after asking for which URL. -/
inductive Fails (r : Resolver) (n : Nat) (s : Slot) (reference : String) :
    ReadError → List Url → Prop where
  | cancelled (hc : r.isCancelled n = true) : Fails r n s reference .cancelled []
  | unanswered {e : ReadError} (hc : r.isCancelled n = false)
      (he : r.answer s reference = .error e) :
    Fails r n s reference e (resolveReference r.base reference).toOption.toList

/-- A slot that holds a reference comes to hold the answer. Others keep what they hold. -/
def Fills (r : Resolver) {s : Slot} (before after : Option (Referenceable s.Value)) : Prop :=
  match before with
  | some (.second reference) => ∃ a, r.answer s reference = .ok a ∧ after = some (.first a)
  | value => after = value

/-- The workflow `w'` is `w` with its references answered. -/
structure Fulfils (r : Resolver) (w w' : Legacy.Workflow) : Prop where
  fills : ∀ s, r.Fills (w.held s) (w'.held s)
  failOnErrors : w'.failOnErrors? = w.failOnErrors?
  /-- Nothing but slots is changed. -/
  frame : { w' with
    inputSchema := w.inputSchema, secrets := w.secrets, constants := w.constants
    timeouts := w.timeouts, errors := w.errors, events := w.events, functions := w.functions
    retries := w.retries, auth := w.auth } = w

/-- The run answers the references of slots one after the other. -/
abbrev ServesSlots (r : Resolver) {α : Type} (x : Resolution α) (refs : List (Slot × String))
    (P : α → Prop) (log : List Url) : Prop :=
  r.Serves r.Answers (fun n p => r.Fails n p.1 p.2) x refs P log

/-! ## Each slot -/

/-- Loading what a slot holds answers its reference. -/
theorem serves_loadField (s : Slot) (reference : String) (log : List Url) :
    r.ServesSlots (r.loadField s.codec s.field reference) [(s, reference)]
      (fun a => r.answer s reference = .ok a) log := by
  cases hc : r.isCancelled log.length with
  | true =>
    have hx : Ends (r.loadField s.codec s.field reference) log (.error .cancelled) ([] ++ []) :=
      (ends_load_of_cancelled hc).bind_error
    exact .stops rfl hx (fun _ hn => absurd hn (Nat.not_lt_zero _)) .nil (.cancelled hc)
  | false =>
    have hx : Ends (r.loadField s.codec s.field reference) log (r.answer s reference)
        (resolveReference r.base reference).toOption.toList :=
      (ends_load hc).bind_ofExcept
    cases ha : r.answer s reference with
    | error e =>
      rw [ha, ← List.nil_append (Option.toList _)] at hx
      have he := Fails.unanswered hc ha
      exact .stops rfl hx (fun _ hn => absurd hn (Nat.not_lt_zero _)) .nil he
    | ok a =>
      obtain ⟨d, hd, -⟩ := except_bind_eq_ok.1 ha
      obtain ⟨u, hu, -⟩ := except_bind_eq_ok.1 hd
      rw [ha, hu] at hx
      refine .all hx (fun n hn => ?_) (.cons ⟨hu, a, ha⟩ .nil) rfl
      obtain rfl : n = 0 := Nat.lt_one_iff.1 hn
      exact hc

/-- Resolving what a slot holds answers the reference there is, if any. -/
theorem serves_resolveField (s : Slot) (x : Option (Referenceable s.Value)) (log : List Url) :
    r.ServesSlots (r.resolveField s.codec s.field x) (referenceIn x) (r.Fills x) log := by
  match x with
  | none => exact serves_pure rfl
  | some (.first a) => exact serves_pure rfl
  | some (.second reference) =>
    exact (serves_loadField s reference log).bind fun ha => serves_pure ⟨_, ha, rfl⟩

theorem serves_resolveInputSchema (x : Option (Referenceable Legacy.InputSchema))
    (log : List Url) :
    r.ServesSlots (r.resolveInputSchema x) (referenceIn (s := .inputSchema) (x.map schemaHeld))
      (fun x' => r.Fills (s := .inputSchema) (x.map schemaHeld) (x'.map schemaHeld) ∧
        x'.map failOnErrorsHeld = x.map failOnErrorsHeld) log := by
  match x with
  | none => exact serves_pure ⟨rfl, rfl⟩
  | some (.first ⟨.first a, b⟩) => exact serves_pure ⟨rfl, rfl⟩
  | some (.first ⟨.second reference, b⟩) =>
    refine (serves_loadField .inputSchema reference log).bind fun ha => ?_
    exact serves_pure ⟨⟨_, ha, rfl⟩, rfl⟩
  | some (.second reference) =>
    refine (serves_loadField .inputSchema reference log).bind fun ha => ?_
    exact serves_pure ⟨⟨_, ha, rfl⟩, rfl⟩

/-! ## Whole workflows -/

theorem serves_resolveLegacy (w : Legacy.Workflow) (log : List Url) :
    r.ServesSlots (r.resolveLegacy w) w.references (r.Fulfils w) log := by
  rw [resolveLegacy]
  refine (serves_resolveInputSchema w.inputSchema log).bind fun h₁ => ?_
  refine (serves_resolveField .secrets w.secrets _).bind fun h₂ => ?_
  refine (serves_resolveField .constants w.constants _).bind fun h₃ => ?_
  refine (serves_resolveField .timeouts w.timeouts _).bind fun h₄ => ?_
  refine (serves_resolveField .errors w.errors _).bind fun h₅ => ?_
  refine (serves_resolveField .events w.events _).bind fun h₆ => ?_
  refine (serves_resolveField .functions w.functions _).bind fun h₇ => ?_
  refine (serves_resolveField .retries w.retries _).bind fun h₈ => ?_
  refine (serves_resolveField .auth w.auth _).bind fun h₉ => ?_
  refine serves_pure { fills := ?_, failOnErrors := h₁.2, frame := rfl }
  intro s
  cases s with
  | inputSchema => exact h₁.1
  | secrets => exact h₂
  | constants => exact h₃
  | timeouts => exact h₄
  | errors => exact h₅
  | events => exact h₆
  | functions => exact h₇
  | retries => exact h₈
  | auth => exact h₉

theorem Fills.referenceIn_eq_nil {s : Slot} {x x' : Option (Referenceable s.Value)}
    (h : r.Fills x x') : referenceIn x' = [] := by
  match x with
  | none =>
    obtain rfl : x' = none := h
    rfl
  | some (.first a) =>
    obtain rfl : x' = some (.first a) := h
    rfl
  | some (.second reference) =>
    obtain ⟨a, -, rfl⟩ := h
    rfl

theorem Fills.eq_of_referenceIn_eq_nil {s : Slot} {x x' : Option (Referenceable s.Value)}
    (h : r.Fills x x') (hx : referenceIn x = []) : x' = x := by
  match x with
  | none => exact h
  | some (.first _) => exact h
  | some (.second _) => exact absurd hx (List.cons_ne_nil _ _)

/-- No references are left. -/
theorem Fulfils.references_eq_nil {w w' : Legacy.Workflow} (h : r.Fulfils w w') :
    w'.references = [] :=
  List.flatMap_eq_nil_iff.2 fun s _ => (h.fills s).referenceIn_eq_nil

/-- A schema that is not given by a reference is determined by what is held of it. -/
theorem eq_of_held {x x' : Option (Referenceable Legacy.InputSchema)}
    (hs : x'.map schemaHeld = x.map schemaHeld)
    (hb : x'.map failOnErrorsHeld = x.map failOnErrorsHeld)
    (hx : referenceIn (s := .inputSchema) (x.map schemaHeld) = []) : x' = x := by
  match x, x' with
  | none, none => rfl
  | some (.second _), _ => exact absurd hx (List.cons_ne_nil _ _)
  | some (.first ⟨.second _, _⟩), _ => exact absurd hx (List.cons_ne_nil _ _)
  | some (.first ⟨.first a, b⟩), some (.first ⟨a', b'⟩) =>
    obtain rfl : a' = .first a := Option.some.inj hs
    obtain rfl : b' = b := Option.some.inj hb
    rfl

/-- Where there is nothing to answer, nothing is changed. -/
theorem Fulfils.eq_of_references_eq_nil {w w' : Legacy.Workflow} (h : r.Fulfils w w')
    (hw : w.references = []) : w' = w := by
  have hnil : ∀ s, referenceIn (w.held s) = [] := fun s =>
    List.flatMap_eq_nil_iff.1 hw s (by cases s <;> decide)
  have heq : ∀ s, w'.held s = w.held s := fun s => (h.fills s).eq_of_referenceIn_eq_nil (hnil s)
  have hi := eq_of_held (heq .inputSchema) h.failOnErrors (hnil .inputSchema)
  refine Eq.trans ?_ h.frame
  cases w'
  congr 1
  · exact heq .secrets
  · exact heq .constants
  · exact heq .timeouts
  · exact heq .errors
  · exact heq .events
  · exact heq .functions
  · exact heq .retries
  · exact heq .auth

/-- Resolving a workflow without references asks for nothing. -/
theorem outcome_of_references_eq_nil {w : Legacy.Workflow} (hw : w.references = []) :
    (r.resolveLegacy w).outcome = (.ok w, []) := by
  cases r.serves_resolveLegacy w [] with
  | all hx _ hu ha =>
    rw [hw] at hu
    cases hu
    rw [hx.outcome, ha.eq_of_references_eq_nil hw]
  | stops hr =>
    rw [hw] at hr
    exact absurd hr (by simp)

/-- Resolving a workflow with references after it has been cancelled asks for nothing either. -/
theorem outcome_of_cancelled {w : Legacy.Workflow} (hc : r.isCancelled 0 = true)
    (hw : w.references ≠ []) : (r.resolveLegacy w).outcome = (.error .cancelled, []) := by
  cases r.serves_resolveLegacy w [] with
  | all _ hn =>
    have h := hn 0 (List.length_pos_of_ne_nil hw)
    exact absurd hc (ne_true_of_eq_false h)
  | @stops p before after e urls last hr hx hn hu he =>
    cases before with
    | cons p before => exact absurd hc (ne_true_of_eq_false (hn 0 (Nat.succ_pos _)))
    | nil =>
      cases hu
      cases he with
      | cancelled => exact hx.outcome
      | unanswered hn => exact absurd hc (ne_true_of_eq_false hn)

end Resolver

end WorkflowDsl
