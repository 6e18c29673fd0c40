import WorkflowDsl.Proofs.Document.Editing
import WorkflowDsl.Reader.Resolution

/-!
# What a run loads

What a reference means (`Resolver.document`) depends on the resolver alone, not on what was asked
for before. So a run that ends well has gone through steps that are functions: `Resolver.inlineAt`
puts the document in the place of the resource that a pointer leads to, and `Resolver.Inlines` does
so for one pointer after another. Resolving a workflow is inlining at the schemas among its
resource positions (`Resolver.inlines_of_resolveWorkflow`).
-/

namespace WorkflowDsl

/-! ## Runs that end well -/

namespace Resolution

variable {α β σ : Type} {a : α} {b : β}

/-- Some run ends with `a`, after whatever was asked for before. -/
def Gives (x : Resolution α) (a : α) : Prop :=
  ∃ log, (StateT.run (ExceptT.run x) log).1 = .ok a

theorem gives_of_outcome {x : Resolution α} (h : x.outcome.1 = .ok a) : x.Gives a := ⟨[], h⟩

theorem gives_pure_iff {a' : α} : (pure a : Resolution α).Gives a' ↔ a = a' :=
  ⟨fun ⟨_, h⟩ => Except.ok.inj h, fun h => ⟨[], congrArg Except.ok h⟩⟩

theorem gives_bind {x : Resolution α} {f : α → Resolution β} (h : (x >>= f).Gives b) :
    ∃ a, x.Gives a ∧ (f a).Gives b := by
  obtain ⟨log, h⟩ := h
  rw [ExceptT.run_bind, StateT.run_bind] at h
  rcases hx : StateT.run (ExceptT.run x) log with ⟨e | a, log'⟩
  · rw [hx] at h
    cases h
  · rw [hx] at h
    exact ⟨a, ⟨log, by rw [hx]⟩, log', h⟩

theorem gives_ofExcept_iff {x : Except ReadError α} : (ofExcept x).Gives a ↔ x = .ok a := by
  cases x with
  | ok a' => exact gives_pure_iff.trans ⟨congrArg _, Except.ok.inj⟩
  | error e => exact ⟨fun ⟨_, h⟩ => (nomatch h), nofun⟩

/-- Where each step ends as a function says, all steps together do. -/
theorem gives_foldlM {f : σ → α → Resolution σ} {g : σ → α → Except ReadError σ}
    (h : ∀ {s t a}, (f s a).Gives t → g s a = .ok t) {as : List α} {s t : σ}
    (ht : (as.foldlM f s).Gives t) : as.foldlM g s = .ok t := by
  induction as generalizing s with
  | nil => exact congrArg Except.ok (gives_pure_iff.1 ht)
  | cons a as ih =>
    obtain ⟨s', hs, ht⟩ := gives_bind ht
    exact except_bind_eq_ok.2 ⟨s', h hs, ih ht⟩

/-! ## What runs ask for -/

/-- How a run ends, and what it has asked for, after all that had been asked for before. -/
def Ends (x : Resolution α) (log : List Url) (result : Except ReadError α)
    (urls : List Url) : Prop :=
  StateT.run (ExceptT.run x) log = (result, log ++ urls)

theorem ends_pure (a : α) (log : List Url) : Ends (pure a) log (.ok a) [] := by
  rw [Ends, List.append_nil]
  rfl

theorem Ends.bind_ok {x : Resolution α} {f : α → Resolution β} {log us us' : List Url} {a : α}
    {result : Except ReadError β} (hx : Ends x log (.ok a) us)
    (hf : Ends (f a) (log ++ us) result us') : Ends (x >>= f) log result (us ++ us') := by
  rw [Ends] at hx hf ⊢
  rw [ExceptT.run_bind, StateT.run_bind, hx, ← List.append_assoc]
  exact hf

theorem Ends.bind_error {x : Resolution α} {f : α → Resolution β} {log us : List Url}
    {e : ReadError} (hx : Ends x log (.error e) us) : Ends (x >>= f) log (.error e) us := by
  rw [Ends] at hx ⊢
  rw [ExceptT.run_bind, StateT.run_bind, hx]
  rfl

theorem ends_ofExcept (x : Except ReadError α) (log : List Url) : Ends (.ofExcept x) log x [] := by
  rw [Ends, List.append_nil]
  cases x <;> rfl

theorem Ends.outcome {x : Resolution α} {result : Except ReadError α} {urls : List Url}
    (h : Ends x [] result urls) : x.outcome = (result, urls) := h

theorem Ends.bind_ofExcept {x : Resolution α} {g : α → Except ReadError β} {log us : List Url}
    {result : Except ReadError α} (hx : Ends x log result us) :
    Ends (x >>= fun a => .ofExcept (g a)) log (result >>= g) us := by
  cases result with
  | error e => exact hx.bind_error
  | ok a =>
    have h := hx.bind_ok (f := fun a => .ofExcept (g a)) (ends_ofExcept (g a) _)
    rw [List.append_nil] at h
    exact h

theorem ends_get (log : List Url) : Ends get log (.ok log) [] := by
  rw [Ends, List.append_nil]
  rfl

end Resolution

namespace Resolver

open Resolution (Ends ends_get ends_ofExcept ends_pure gives_bind gives_pure_iff
  gives_ofExcept_iff)

variable {r : Resolver}

/-- The document that a reference means, whatever has been fetched. -/
def document (r : Resolver) (reference : String) : Except ReadError Node := do
  let u ← resolveReference r.base reference
  let text ← r.fetcher u
  readDetected text

theorem document_of_load {reference : String} {d : Node} (h : (r.load reference).Gives d) :
    r.document reference = .ok d := by
  obtain ⟨log, -, h⟩ := gives_bind h
  dsimp only at h
  split at h
  · obtain ⟨_, ⟨_, h⟩, -⟩ := gives_bind h
    cases h
  · obtain ⟨u, hu, h⟩ := gives_bind h
    obtain ⟨text, ht, h⟩ := gives_bind h
    obtain ⟨-, -, ht⟩ := gives_bind ht
    exact except_bind_eq_ok.2 ⟨u, gives_ofExcept_iff.1 hu,
      except_bind_eq_ok.2 ⟨text, gives_ofExcept_iff.1 ht, gives_ofExcept_iff.1 h⟩⟩

theorem ends_load_of_cancelled {reference : String} {log : List Url}
    (h : r.isCancelled log.length = true) : Ends (r.load reference) log (.error .cancelled) [] := by
  refine (ends_get log).bind_ok ?_
  rw [List.append_nil]
  dsimp only
  rw [if_pos h]
  exact (ends_ofExcept (.error .cancelled) log).bind_error

theorem ends_fetch (u : Url) (log : List Url) : Ends (r.fetch u) log (r.fetcher u) [u] := by
  have h : Ends (modify (· ++ [u])) log (.ok ()) [u] := rfl
  exact h.bind_ok (ends_ofExcept (r.fetcher u) _)

theorem ends_load {reference : String} {log : List Url} (h : r.isCancelled log.length = false) :
    Ends (r.load reference) log (r.document reference)
      (resolveReference r.base reference).toOption.toList := by
  refine (ends_get log).bind_ok ?_
  rw [List.append_nil]
  dsimp only
  rw [if_neg (ne_true_of_eq_false h), document]
  have hu := ends_ofExcept (resolveReference r.base reference) log
  cases hr : resolveReference r.base reference with
  | error e =>
    rw [hr] at hu
    exact hu.bind_error
  | ok u =>
    rw [hr] at hu
    refine hu.bind_ok ?_
    rw [List.append_nil]
    exact (ends_fetch u log).bind_ofExcept

/-- Puts the document that is meant by the resource at a pointer in the place of the resource. -/
def inlineAt (r : Resolver) (n : Node) (p : Pointer) : Except ReadError Node :=
  match (n.at? p).bind resourceUri? with
  | none => .ok n
  | some reference => (r.document reference).map fun d => n.modifyAt (inlineDocument d) p.dropLast

theorem inlineAt_of_resolveSchema {n n' : Node} {p : ResourcePosition}
    (h : (r.resolveSchema n p).Gives n') : r.inlineAt n p.pointer = .ok n' := by
  rw [resolveSchema] at h
  rw [inlineAt]
  cases hr : (n.at? p.pointer).bind resourceUri? with
  | none =>
    rw [hr] at h
    exact congrArg Except.ok (gives_pure_iff.1 h)
  | some reference =>
    rw [hr] at h
    obtain ⟨d, hd, h⟩ := gives_bind h
    have hn := gives_pure_iff.1 h
    exact except_map_eq_ok.2 ⟨d, document_of_load hd, hn⟩

/-- The tree `n'` is `n` with the documents inlined at the pointers, one after another. -/
abbrev Inlines (r : Resolver) : List Pointer → Node → Node → Prop := Editor.Edits r.inlineAt

end Resolver

/-- The pointers of all positions, or of the schemas among them alone. -/
def ResourcePosition.pointers (all : Bool) (ps : List ResourcePosition) : List Pointer :=
  (ps.filter fun p => all || p.isSchema).map (·.pointer)

/-- **A workflow that is resolved is read from what it is written as, with all schemas among its
resource positions inlined.** -/
theorem Resolver.inlines_of_resolveWorkflow {r : Resolver} {w w' : Workflow}
    (h : (r.resolveWorkflow w).Gives w') :
    ∃ n, r.Inlines (ResourcePosition.pointers false (resourcePositions (Workflow.codec.write w)))
        (Workflow.codec.write w) n ∧
      Workflow.codec.read n = .ok w' := by
  obtain ⟨n, hn, h⟩ := Resolution.gives_bind h
  refine ⟨n, ?_, except_mapError_eq_ok.1 (Resolution.gives_ofExcept_iff.1 h)⟩
  show (ResourcePosition.pointers false _).foldlM r.inlineAt _ = _
  rw [ResourcePosition.pointers, List.foldlM_map]
  exact Resolution.gives_foldlM inlineAt_of_resolveSchema hn

end WorkflowDsl
