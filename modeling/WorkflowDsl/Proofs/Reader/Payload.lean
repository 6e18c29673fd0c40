import WorkflowDsl.Proofs.Reader.Provenance
import WorkflowDsl.Proofs.Reader.Survival
import WorkflowDsl.Reader.Reader

/-!
# Payloads

A document carries payloads that are none of the reader's business: values that are set, arguments,
attributes of events, metadata, tasks of kinds that the language does not define, and entries under
unknown keys. `PayloadSite` lists where they stand.

Rewriting the references of a document and resolving it leaves the payloads at a site as they are
if the site is opaque (`PayloadSite.isKept_of_isOpaque`), and so does a reader as a whole
(`Reader.payloadsAt_of_read`). Nothing is fetched because of them
(`PayloadSite.isUnasked_of_isOpaque`). Sites that are not opaque have a key under which other tasks
have tasks, or under which tasks have a data model. They are searched as if they had it as well, so
that payloads there do change (`PayloadSite.not_isKept`), and what they refer to is fetched
(`PayloadSite.not_isUnasked`).
-/

namespace WorkflowDsl

open ResourcePosition (callArgument?)
open Resolution (gives_bind gives_of_outcome gives_ofExcept_iff gives_pure_iff)

/-! ## Sites -/

/-- Where a payload stands. -/
inductive PayloadSite where
  | setValues
  /-- Arguments of a call, without the one that is a resource. -/
  | callArguments
  /-- Attributes of events that are emitted or listened for. -/
  | eventAttributes
  | processArguments
  | metadata
  /-- A task of a kind that the language does not define. -/
  | extensionBody (key : String)
  /-- The entry of a task under an unknown key. -/
  | taskEntry (key : String)
  /-- The entry of a document under an unknown key. -/
  | documentEntry (key : String)

/-- Whether payloads at the site are never looked into. -/
def PayloadSite.isOpaque : PayloadSite → Bool
  | extensionBody key | taskEntry key => key ∉ misreadKeys
  | documentEntry key => key != "export"
  | _ => true

/-- The values under a key. -/
def Entries.under {α : Type} (key : String) (es : Entries α) : List α :=
  (es.filter (·.1 == key)).map (·.2)

def EventSelection.filters : EventSelection → List EventFilter
  | all fs | any fs => fs
  | one f => [f]

/-- The attributes that events are filtered by, also those that end the consumption. -/
def EventStrategy.payloads : EventStrategy → List Node
  | endless s | untilExpression s _ => ofSelection s
  | untilEvents s events => ofSelection s ++ events.payloads
where
  ofSelection (s : EventSelection) : List Node :=
    s.filters.filterMap fun f => f.attributes.map fun m => .mapping m.entries

def Process.payloads : Process → List Node
  | container p => [.mapping p.ports.entries, .mapping p.volumes.entries]
  | script p => [.mapping p.arguments.entries]
  | shell p => [.mapping p.arguments.entries]
  | workflow p => p.input.toList

/-- The payloads of a task at a site, without those of the tasks inside. -/
def Task.payloadsAt (t : Task) : PayloadSite → List Node
  | .setValues =>
    match t.kind with
    | .set values => [.mapping values.entries]
    | _ => []
  | .callArguments =>
    match t.kind with
    | .call c => [.mapping (c.arguments.hide (callArgument? c.function).toList).entries]
    | _ => []
  | .eventAttributes =>
    match t.kind with
    | .emit e => [.mapping e.event.attributes.entries]
    | .listen l => l.listener.strategy.payloads
    | _ => []
  | .processArguments =>
    match t.kind with
    | .run r => r.process.payloads
    | _ => []
  | .metadata => [.mapping t.fields.metadata.entries]
  | .extensionBody key => t.kind.body.under key
  | .taskEntry key => t.extra.entries.under key
  | .documentEntry _ => []

/-- The payloads of a document at a site, without those of its tasks. -/
def Workflow.ownPayloadsAt (w : Workflow) : PayloadSite → List Node
  | .eventAttributes => ((w.schedule.bind (·.events)).map EventStrategy.payloads).getD []
  | .metadata => [.mapping w.info.metadata.entries]
  | .documentEntry key => w.extra.entries.under key
  | _ => []

/-- The payloads at a site, in the document and in its tasks at any depth. -/
def Workflow.payloadsAt (w : Workflow) (site : PayloadSite) : List Node :=
  w.ownPayloadsAt site ++ w.allTasks.flatMap (·.payloadsAt site)

/-! ## Payloads of masked documents -/

variable {all : Bool} {site : PayloadSite}

theorem OrderedMap.under_hide {keys : List String} {key : String} (h : key ∉ keys)
    (m : OrderedMap Node) : (m.hide keys).entries.under key = m.entries.under key := by
  rw [Entries.under, Entries.under, hide, List.filter_map, List.map_map]
  refine List.map_congr_left fun e he => ?_
  have hk : e.1 = key := by simpa using (List.mem_filter.1 he).2
  exact if_neg (hk ▸ h)

theorem Process.payloads_masked (p : Process) : p.masked.payloads = p.payloads := by
  cases p <;> rfl

theorem TaskKind.body_masked {τ : Type} {key : String} (h : key ∉ misreadKeys) (k : TaskKind τ) :
    (k.masked all).body.under key = k.body.under key := by
  cases k with
  | extension k definition =>
    by_cases hk : k = key
    · subst hk
      rw [masked, if_neg h]
    · simp [masked, body, Entries.under, hk]
  | _ => rfl

/-- Payloads at opaque sites are not masked. -/
theorem Task.payloadsAt_masked (h : site.isOpaque = true) (t : Task) :
    (t.masked all).payloadsAt site = t.payloadsAt site := by
  obtain ⟨fields, kind, extra⟩ := t
  rw [masked_mk]
  cases site with
  | extensionBody key =>
    have hk : key ∉ misreadKeys := by simpa [PayloadSite.isOpaque] using h
    refine (TaskKind.body_masked hk _).trans ?_
    cases kind <;> rfl
  | taskEntry key => exact OrderedMap.under_hide (by simpa [PayloadSite.isOpaque] using h) extra
  | callArguments =>
    cases kind with
    | call c =>
      cases all with
      | false => rfl
      | true => exact congrArg (fun m => [Node.mapping m.entries]) (OrderedMap.hide_hide _ _)
    | _ => rfl
  | processArguments =>
    cases kind with
    | run r =>
      cases all with
      | false => rfl
      | true => exact Process.payloads_masked r.process
    | _ => rfl
  | _ => cases kind <;> rfl

theorem Workflow.payloadsAt_masked (h : site.isOpaque = true) (w : Workflow) :
    (w.masked all).payloadsAt site = w.payloadsAt site := by
  have ho : (w.masked all).ownPayloadsAt site = w.ownPayloadsAt site := by
    cases site with
    | documentEntry key =>
      exact OrderedMap.under_hide (by simpa [PayloadSite.isOpaque] using h) w.extra
    | _ => rfl
  have ht : (w.masked all).allTasks = w.allTasks.map (Task.masked all) :=
    w.allTasks_maskedBy (m := .hiding)
  rw [payloadsAt, payloadsAt, ho, ht, List.flatMap_map]
  simp only [Task.payloadsAt_masked h]

/-! ## Opaque payloads -/

/-- The document with its relative references replaced, if they are to be. -/
def rebasedBy (rebase : Option (String → Option String)) (n : Node) : Node :=
  rebase.elim n (rebaseResources · n)

/-- A document that is accepted is so with other references, and has the same payloads at the site;
also when it is resolved. -/
def PayloadSite.IsKept (site : PayloadSite) : Prop :=
  ∀ (n : Node) (w : Workflow) (rebase : Option (String → Option String)) (r : Resolver),
    n.distinctKeys = true → Workflow.codec.decode n = .ok w →
      ∃ w₁, Workflow.codec.decode (rebasedBy rebase n) = .ok w₁ ∧
        w₁.payloadsAt site = w.payloadsAt site ∧
        ∀ w₂, (r.resolveWorkflow w₁).outcome.1 = .ok w₂ → w₂.payloadsAt site = w.payloadsAt site

theorem Workflow.payloadsAt_eq_of_masked {w w' : Workflow} (hs : site.isOpaque = true)
    (h : w'.masked all = w.masked all) : w'.payloadsAt site = w.payloadsAt site := by
  rw [← payloadsAt_masked hs w', h, payloadsAt_masked hs]

variable {n : Node} {w w' : Workflow}

/-- Replacing references keeps a document that is accepted, but for external resources. -/
theorem Workflow.masked_of_rebasedBy (rebase : Option (String → Option String))
    (hn : n.distinctKeys = true) (hw : codec.decode n = .ok w) :
    (rebasedBy rebase n).distinctKeys = true ∧
      ∃ w₁, codec.decode (rebasedBy rebase n) = .ok w₁ ∧ w₁.masked true = w.masked true := by
  cases rebase with
  | none => exact ⟨hn, w, hw, rfl⟩
  | some f => exact ⟨distinctKeys_rebaseResources f hn, masked_of_rebaseResources f hn hw⟩

/-- **Payloads at opaque sites are kept.** -/
theorem PayloadSite.isKept_of_isOpaque (hs : site.isOpaque = true) : site.IsKept := by
  intro n w rebase r hn hw
  obtain ⟨hn₁, w₁, hw₁, hm⟩ := Workflow.masked_of_rebasedBy rebase hn hw
  have h₁ := Workflow.payloadsAt_eq_of_masked hs hm
  refine ⟨w₁, hw₁, h₁, fun w₂ hr => ?_⟩
  have h₂ := Workflow.payloadsAt_eq_of_masked hs
    (Workflow.masked_of_resolveWorkflow hn₁ hw₁ (gives_of_outcome hr))
  exact h₂.trans h₁

/-- A reader reads the document in a text with its references replaced or as they are, and resolves
it if the options ask for that. -/
theorem Reader.steps_of_read {reader : Reader} {format : DocumentFormat} {text : String}
    (hd : reader.document format text = .ok n) (hr : (reader.read format text).outcome.1 = .ok w') :
    ∃ rebase w₁, Workflow.codec.read (rebasedBy rebase n) = .ok w₁ ∧
      (w' = w₁ ∨ ∃ r : Resolver, (r.resolveWorkflow w₁).Gives w') := by
  obtain ⟨n₀, hn₀, h⟩ := gives_bind (gives_of_outcome hr)
  obtain rfl := Except.ok.inj (hd.symm.trans (gives_ofExcept_iff.1 hn₀))
  obtain ⟨n₁, hn₁, h⟩ := gives_bind h
  obtain ⟨rebase, -, hn₁⟩ := except_bind_eq_ok.1 (gives_ofExcept_iff.1 hn₁)
  obtain ⟨w₁, hw₁, h⟩ := gives_bind h
  refine ⟨rebase, w₁, ?_, ?_⟩
  · cases rebase <;>
      · obtain rfl := Except.ok.inj hn₁
        exact except_mapError_eq_ok.1 (gives_ofExcept_iff.1 hw₁)
  · split at h
    · obtain ⟨r, -, h⟩ := gives_bind h
      exact .inr ⟨r, h⟩
    · exact .inl (gives_pure_iff.1 h).symm

/-- **A reader keeps the payloads at opaque sites**, whatever its options are. -/
theorem Reader.payloadsAt_of_read {reader : Reader} {format : DocumentFormat} {text : String}
    (hs : site.isOpaque = true) (hd : reader.document format text = .ok n)
    (hn : n.distinctKeys = true) (hw : Workflow.codec.decode n = .ok w)
    (hr : (reader.read format text).outcome.1 = .ok w') :
    w'.payloadsAt site = w.payloadsAt site := by
  obtain ⟨rebase, w₁, hw₁, h⟩ := steps_of_read hd hr
  obtain ⟨hn₁, w₂, hw₂, hm⟩ := Workflow.masked_of_rebasedBy rebase hn hw
  obtain rfl := Except.ok.inj (hw₁.symm.trans (Codec.decode_eq_ok.1 hw₂))
  have h₁ := Workflow.payloadsAt_eq_of_masked hs hm
  rcases h with rfl | ⟨r, h⟩
  · exact h₁
  · exact (Workflow.payloadsAt_eq_of_masked hs
      (Workflow.masked_of_resolveWorkflow hn₁ hw₂ h)).trans h₁

/-! ## Payloads that are searched -/

/-- A data model whose schema is external. -/
def referringModel (reference : String) : Node :=
  .mapping [("schema", .mapping [("resource", .mapping [("endpoint", .string reference)])])]

/-- Tasks the first of which takes input by an external schema. -/
def referringTasks (reference : String) : Node :=
  .mapping [("do", .sequence [.mapping [("inner",
    .mapping [("input", referringModel reference)])]])]

/-- A document with one task. -/
def carrying (task : Task) (extra : OrderedMap Node) : Workflow where
  info := { name := "carry", version := "1.0.0" }
  tasks := ⟨[("task", task)]⟩
  extra := extra

/-- A document that refers in a payload at the site. -/
def PayloadSite.referring (reference : String) : PayloadSite → Workflow
  | extensionBody key => carrying (.ofKind (.extension key (referringTasks reference))) {}
  | taskEntry key => carrying (.mk {} (.set {}) ⟨[(key, referringTasks reference)]⟩) {}
  | documentEntry key => carrying (.ofKind (.set {})) ⟨[(key, referringModel reference)]⟩
  | _ => carrying (.ofKind (.set {})) {}

theorem PayloadSite.eq_of_not_isOpaque (hs : site.isOpaque = false) :
    site = extensionBody "catch" ∨ site = extensionBody "foreach" ∨ site = taskEntry "catch" ∨
      site = taskEntry "foreach" ∨ site = documentEntry "export" := by
  cases site with
  | extensionBody key => simpa [isOpaque, misreadKeys, or_iff_not_imp_left] using hs
  | taskEntry key => simpa [isOpaque, misreadKeys, or_iff_not_imp_left] using hs
  | documentEntry key => simpa [isOpaque] using hs
  | _ => cases hs

/-- The reference in a payload that is not opaque is replaced. -/
theorem PayloadSite.rebasedBy_referring (hs : site.isOpaque = false) :
    let n := Workflow.codec.write (site.referring "a")
    n.distinctKeys = true ∧ Workflow.codec.decode n = .ok (site.referring "a") ∧
      Workflow.codec.decode (rebasedBy (some fun _ => some "b") n) = .ok (site.referring "b") ∧
      (site.referring "b").payloadsAt site ≠ (site.referring "a").payloadsAt site := by
  have hm : referringModel "b" ≠ referringModel "a" := by simp [referringModel]
  have ht : referringTasks "b" ≠ referringTasks "a" := by simp [referringTasks, referringModel]
  rcases eq_of_not_isOpaque hs with rfl | rfl | rfl | rfl | rfl
  iterate 4 exact ⟨by decide, rfl, rfl, fun h => ht (List.cons.inj h).1⟩
  exact ⟨by decide, rfl, rfl, fun h => hm (List.cons.inj h).1⟩

/-- **Payloads at other sites are not kept.** -/
theorem PayloadSite.not_isKept (hs : site.isOpaque = false) : ¬site.IsKept := by
  intro h
  obtain ⟨hn, hw, hw₁, hne⟩ := rebasedBy_referring hs
  obtain ⟨w₁, hw₁', he, -⟩ := h _ _ (some fun _ => some "b") { fetcher := fetchFrom [] } hn hw
  obtain rfl := Except.ok.inj (hw₁.symm.trans hw₁')
  exact hne he

/-! ## What is fetched -/

theorem Entries.mem_under {α : Type} {es : Entries α} {e : String × α} (h : e ∈ es) :
    e.2 ∈ es.under e.1 :=
  List.mem_map_of_mem (List.mem_filter.2 ⟨h, beq_self_eq_true e.1⟩)

/-- The reference stands in a payload that is searched. -/
def PayloadSite.Offers (site : PayloadSite) (w : Workflow) (reference : String) : Prop :=
  site.isOpaque = false ∧ ∃ v ∈ w.payloadsAt site, v.Holds reference

/-- A task that is misread has the reference in a payload that is searched. -/
theorem Task.Misreads.exists_payload {t : Task} {reference : String} (h : t.Misreads reference) :
    ∃ site : PayloadSite, site.isOpaque = false ∧ ∃ v ∈ t.payloadsAt site, v.Holds reference := by
  obtain ⟨e, he, hk, hv⟩ := h
  have hs : decide (e.1 ∉ misreadKeys) = false := decide_eq_false (not_not_intro hk)
  rcases List.mem_append.1 he with he | he
  · exact ⟨.extensionBody e.1, hs, e.2, Entries.mem_under he, hv⟩
  · exact ⟨.taskEntry e.1, hs, e.2, Entries.mem_under he, hv⟩

/-- **What is asked for when a document is resolved stands in a schema of it or in a payload that is
not opaque.** -/
theorem Workflow.offers_of_mem_outcome {r : Resolver} (hn : n.distinctKeys = true)
    (hw : codec.decode n = .ok w) {u : Url} (hu : u ∈ (r.resolveWorkflow w).outcome.2) :
    ∃ reference, resolveReference r.base reference = .ok u ∧
      ((∃ s ∈ w.schemas, s.Names reference) ∨ ∃ site : PayloadSite, site.Offers w reference) := by
  obtain ⟨reference, hb, h⟩ := mentions_of_mem_outcome hn (Codec.decode_eq_ok.1 hw) hu
  refine ⟨reference, hb, ?_⟩
  rcases h with h | ⟨t, ht, h⟩ | ⟨v, hv, h⟩
  · exact .inl h
  · obtain ⟨site, hs, v, hv, h⟩ := h.exists_payload
    refine .inr ⟨site, hs, v, List.mem_append_right _ ?_, h⟩
    exact List.mem_flatMap.2 ⟨t, ht, hv⟩
  · refine .inr ⟨.documentEntry "export", rfl, v, List.mem_append_left _ ?_, h⟩
    exact Entries.mem_under (Entries.mem_of_get? hv)

/-- Whatever is asked for stands in a schema of the document, or is offered at another site. -/
def PayloadSite.IsUnasked (site : PayloadSite) : Prop :=
  ∀ (n : Node) (w : Workflow) (rebase : Option (String → Option String)) (r : Resolver),
    n.distinctKeys = true → Workflow.codec.decode n = .ok w →
      ∃ w₁, Workflow.codec.decode (rebasedBy rebase n) = .ok w₁ ∧
        ∀ u ∈ (r.resolveWorkflow w₁).outcome.2,
          ∃ reference, resolveReference r.base reference = .ok u ∧
            ((∃ s ∈ w₁.schemas, s.Names reference) ∨ ∃ other ≠ site, other.Offers w₁ reference)

/-- **Nothing is fetched because of a payload at an opaque site.** -/
theorem PayloadSite.isUnasked_of_isOpaque (hs : site.isOpaque = true) : site.IsUnasked := by
  intro n w rebase r hn hw
  obtain ⟨hn₁, w₁, hw₁, -⟩ := Workflow.masked_of_rebasedBy rebase hn hw
  refine ⟨w₁, hw₁, fun u hu => ?_⟩
  obtain ⟨reference, hb, h⟩ := Workflow.offers_of_mem_outcome hn₁ hw₁ hu
  refine ⟨reference, hb, h.imp_right fun ⟨other, ho⟩ => ⟨other, ?_, ho⟩⟩
  rintro rfl
  cases hs.symm.trans ho.1

/-- A document that refers in a payload at a site is resolved by asking for something, though it has
no schema. -/
theorem PayloadSite.asks_referring (hs : site.isOpaque = false) :
    let w := site.referring "urn:b"
    let r : Resolver := { fetcher := fetchFrom [] }
    (Workflow.codec.write w).distinctKeys = true ∧
      Workflow.codec.decode (Workflow.codec.write w) = .ok w ∧ w.schemas = [] ∧
      ∃ u, u ∈ (r.resolveWorkflow w).outcome.2 := by
  rcases eq_of_not_isOpaque hs with rfl | rfl | rfl | rfl | rfl
  all_goals exact ⟨by decide, rfl, rfl, _, .head _⟩

/-- It has no payload at another site that is searched. -/
theorem PayloadSite.payloadsAt_referring {other : PayloadSite} {reference : String}
    (hs : site.isOpaque = false) (ho : other.isOpaque = false) (h : other ≠ site) :
    (site.referring reference).payloadsAt other = [] := by
  rcases eq_of_not_isOpaque hs with rfl | rfl | rfl | rfl | rfl <;>
    rcases eq_of_not_isOpaque ho with rfl | rfl | rfl | rfl | rfl <;>
    first | rfl | exact absurd rfl h

/-- **Payloads at other sites are asked for.** -/
theorem PayloadSite.not_isUnasked (hs : site.isOpaque = false) : ¬site.IsUnasked := by
  intro h
  obtain ⟨hn, hw, hss, u, hu⟩ := asks_referring hs
  obtain ⟨w₁, hw₁, h⟩ := h _ _ none { fetcher := fetchFrom [] } hn hw
  obtain rfl := Except.ok.inj (hw.symm.trans hw₁)
  -- There is no schema, and at other sites no payload that is searched.
  obtain ⟨reference, -, ⟨s, hm, -⟩ | ⟨other, hne, ho, v, hv, -⟩⟩ := h u hu
  · rw [hss] at hm
    cases hm
  · rw [payloadsAt_referring hs ho hne] at hv
    cases hv

end WorkflowDsl
