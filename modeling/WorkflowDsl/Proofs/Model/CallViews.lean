import WorkflowDsl.Proofs.Codec.Rereading
import WorkflowDsl.Proofs.Model.Task

/-!
# Views of calls

Each of the functions `http`, `grpc`, `openapi` and `asyncapi` has arguments of its own type. A call
is built from them (`TypedArguments.call`), and they are read from it again by the view of the
function (`Call.Shows`). Nothing but the conversions relates the two, since a call holds its
arguments as entries.

A call shows the arguments that it was built from exactly when their codec keeps them
(`Call.shows_ofArguments`), and all arguments are kept but those with a payload that is null
(`TypedArguments.isNullFree`). A call is itself always kept, and a task of a call is read back
whatever its common fields are (`Task.exists_readsBack_call`): these may be lost in part, as a null
source of the input is, but the call is not. So the views of a call are the same after its task is
written and read (`TypedArguments.shows_call`).
-/

namespace WorkflowDsl

/-! ## Arguments that are kept -/

/-- **An optional node of a record is kept unless it is null.** -/
theorem Field.optional_node_keeps_iff {ρ : Type} {key : String} {get : ρ → Option Node}
    {x : Option Node} : (optional key .node get).Keeps x ↔ x.all (!·.isNull) = true := by
  rw [optional_keeps_iff]
  cases x with
  | none => exact iff_of_true Codec.option_keeps_none rfl
  | some n =>
    rw [Codec.option_keeps_some, and_iff_left (Codec.node.keeps n)]
    cases n with
    | null => exact iff_of_false (fun h => h rfl) nofun
    | _ => exact iff_of_true nofun rfl

namespace HttpArguments

/-- No payload is null. -/
def isNullFree (a : HttpArguments) : Bool :=
  a.headers.all (!·.isNull) && a.body.all (!·.isNull) && a.query.all (!·.isNull)

theorem keeps_iff {a : HttpArguments} : codec.Keeps a ↔ a.isNullFree = true := by
  rw [isNullFree, Bool.and_eq_true, Bool.and_eq_true]
  refine (Codec.record_keeps_iff (.computed rfl)).trans ⟨?_, ?_⟩
  · rintro ⟨-, -, headers, body, query, -⟩
    exact ⟨⟨Field.optional_node_keeps_iff.1 headers, Field.optional_node_keeps_iff.1 body⟩,
      Field.optional_node_keeps_iff.1 query⟩
  · rintro ⟨⟨headers, body⟩, query⟩
    exact ⟨Field.Keeping.keeps _, Field.Keeping.keeps _, Field.optional_node_keeps_iff.2 headers,
      Field.optional_node_keeps_iff.2 body, Field.optional_node_keeps_iff.2 query,
      Field.Keeping.keeps _, Field.Keeping.keeps _, trivial⟩

end HttpArguments

namespace AsyncApiArguments

/-- No payload is null. -/
def isNullFree (a : AsyncApiArguments) : Bool :=
  a.server.all (!·.isNull) && a.message.all (!·.isNull) && a.subscription.all (!·.isNull)

theorem keeps_iff {a : AsyncApiArguments} : codec.Keeps a ↔ a.isNullFree = true := by
  rw [isNullFree, Bool.and_eq_true, Bool.and_eq_true]
  refine (Codec.record_keeps_iff (.computed rfl)).trans ⟨?_, ?_⟩
  · rintro ⟨-, -, server, -, message, subscription, -⟩
    exact ⟨⟨Field.optional_node_keeps_iff.1 server, Field.optional_node_keeps_iff.1 message⟩,
      Field.optional_node_keeps_iff.1 subscription⟩
  · rintro ⟨⟨server, message⟩, subscription⟩
    exact ⟨Field.Keeping.keeps _, Field.Keeping.keeps _, Field.optional_node_keeps_iff.2 server,
      Field.Keeping.keeps _, Field.optional_node_keeps_iff.2 message,
      Field.optional_node_keeps_iff.2 subscription, Field.Keeping.keeps _, trivial⟩

end AsyncApiArguments

/-! ## Views -/

namespace Call

variable {α : Type} {c : Codec α} {function : String} {call : Call} {a : α}

/-- A call of another function has no arguments of the type. -/
theorem arguments?_of_ne (h : call.function ≠ function) :
    call.arguments? c function = .ok none := by
  rw [arguments?, if_neg]
  simpa using h

/-- A call has the arguments that it was built from exactly when their codec keeps them. -/
theorem arguments?_ofArguments_iff {es : Object} (hw : c.write a = .mapping es) :
    (ofArguments c function a).arguments? c function = .ok (some a) ↔ c.Keeps a := by
  have hes : (c.write a).entries?.getD [] = es := by rw [hw]; rfl
  rw [arguments?, ofArguments, if_pos (beq_self_eq_true _), hes, except_map_eq_ok]
  simp [Codec.decode_eq_ok, Codec.Keeps, Codec.ReadsBack, hw]

/-- What the views of a call show: the arguments of its function, and nothing for any other. -/
structure Views where
  http : Option HttpArguments := none
  grpc : Option GrpcArguments := none
  openApi : Option OpenApiArguments := none
  asyncApi : Option AsyncApiArguments := none

/-- All four views of the call can be read, and they show `v`. -/
structure Shows (call : Call) (v : Views) : Prop where
  http : call.http? = .ok v.http
  grpc : call.grpc? = .ok v.grpc
  openApi : call.openApi? = .ok v.openApi
  asyncApi : call.asyncApi? = .ok v.asyncApi

/-- A call of a function of its own shows nothing. -/
theorem shows_none (h : call.isBuiltin = false) : call.Shows {} := by
  have hf : ∀ f ∈ builtins, call.function ≠ f := by
    rintro f hm rfl
    rw [isBuiltin, List.contains_iff_mem.2 hm] at h
    cases h
  exact ⟨arguments?_of_ne (hf _ (by decide)), arguments?_of_ne (hf _ (by decide)),
    arguments?_of_ne (hf _ (by decide)), arguments?_of_ne (hf _ (by decide))⟩

end Call

/-- The arguments of one of the functions whose arguments have a type of their own. -/
inductive TypedArguments where
  | http (a : HttpArguments)
  | grpc (a : GrpcArguments)
  | openApi (a : OpenApiArguments)
  | asyncApi (a : AsyncApiArguments)

namespace TypedArguments

/-- The call of the function with the arguments. -/
def call : TypedArguments → Call
  | http a => .ofArguments HttpArguments.codec "http" a
  | grpc a => .ofArguments GrpcArguments.codec "grpc" a
  | openApi a => .ofArguments OpenApiArguments.codec "openapi" a
  | asyncApi a => .ofArguments AsyncApiArguments.codec "asyncapi" a

/-- The arguments in the view of the function. -/
def views : TypedArguments → Call.Views
  | http a => { http := some a }
  | grpc a => { grpc := some a }
  | openApi a => { openApi := some a }
  | asyncApi a => { asyncApi := some a }

/-- No optional payload is null. The entries of a map may be. -/
def isNullFree : TypedArguments → Bool
  | http a => a.isNullFree
  | asyncApi a => a.isNullFree
  | grpc _ | openApi _ => true

/-- **A call shows the arguments that it was built from exactly when no payload of these is
null.** -/
theorem call_shows_iff (a : TypedArguments) : a.call.Shows a.views ↔ a.isNullFree = true := by
  have other {α β : Type} {c : Codec α} {d : Codec β} {b : β} {f g : String} (h : g ≠ f) :
      (Call.ofArguments d g b).arguments? c f = .ok none := Call.arguments?_of_ne h
  cases a with
  | http a =>
    have own : (call (http a)).http? = .ok (some a) ↔ a.isNullFree = true :=
      (Call.arguments?_ofArguments_iff rfl).trans a.keeps_iff
    exact ⟨fun h => own.1 h.http,
      fun h => ⟨own.2 h, other (by decide), other (by decide), other (by decide)⟩⟩
  | grpc a =>
    have own : (call (grpc a)).grpc? = .ok (some a) :=
      (Call.arguments?_ofArguments_iff rfl).2 (GrpcArguments.codec.keeps a)
    exact iff_of_true ⟨other (by decide), own, other (by decide), other (by decide)⟩ rfl
  | openApi a =>
    have own : (call (openApi a)).openApi? = .ok (some a) :=
      (Call.arguments?_ofArguments_iff rfl).2 (OpenApiArguments.codec.keeps a)
    exact iff_of_true ⟨other (by decide), other (by decide), own, other (by decide)⟩ rfl
  | asyncApi a =>
    have own : (call (asyncApi a)).asyncApi? = .ok (some a) ↔ a.isNullFree = true :=
      (Call.arguments?_ofArguments_iff rfl).trans a.keeps_iff
    exact ⟨fun h => own.1 h.asyncApi,
      fun h => ⟨other (by decide), other (by decide), other (by decide), own.2 h⟩⟩

/-- A body that is null is read as none. -/
example :
    (call (.http { method := "put", endpoint := .second "pets", body := some .null })).http? =
      .ok (some { method := "put", endpoint := .second "pets" }) := rfl

end TypedArguments

/-! ## Tasks that are read back -/

instance : Schema.codec.Rereading := .record (.computed rfl)

instance : InputModel.codec.Rereading := .record (.computed rfl)

instance : OutputModel.codec.Rereading := .record (.computed rfl)

instance : ExportModel.codec.Rereading := .record (.computed rfl)

instance : FlowDirective.codec.Rereading :=
  inferInstanceAs (Codec.string.imap FlowDirective.ofText FlowDirective.text).Rereading

instance : TaskFields.codec.Rereading := .record (.computed rfl)

/-- **A task of a kind that is read back is read back**, whatever its common fields are. -/
theorem Task.exists_ofNode_toNode {fields : TaskFields} {kind kind' : TaskKind Task}
    {extra : OrderedMap Node} (ha : keysApart kind extra = true)
    (hk : kind.ReadsBack codec kind') :
    ∃ t, ofNode (mk fields kind extra).toNode = .ok t ∧ t.kind = kind' ∧ t.extra = extra := by
  -- The common fields need not be kept, so the task that is read may differ from the written one.
  obtain ⟨fields', hf⟩ := TaskFields.codec.exists_readsBack fields
  have hr : codec.ReadsBack (mk fields kind extra) (mk fields' kind' extra) :=
    (readsBack_iff ha).2 ⟨hf, hk, rfl⟩
  exact ⟨_, Codec.ofDefinition_read_eq_ok.1 hr, rfl, rfl⟩

/-! ## The views of built calls -/

namespace TypedArguments

/-- **The views of a call invert building it.** A call built from arguments without a payload that
is null shows these in the view of its function and nothing in the three others. It is kept, alone
and in a task with any common fields and any other entries under keys of their own, so that it shows
the same after that is written and read. A call of any other function shows nothing. -/
theorem shows_call :
    (∀ a : TypedArguments, a.isNullFree = true →
      a.call.Shows a.views ∧
        Call.codec.decode (Call.codec.write a.call) = .ok a.call ∧
        ∀ (fields : TaskFields) (extra : OrderedMap Node),
          Task.keysApart (.call a.call : TaskKind Task) extra = true →
            ∃ t, Task.ofNode (Task.mk fields (.call a.call) extra).toNode = .ok t ∧
              t.kind = .call a.call ∧ t.extra = extra) ∧
      ∀ c : Call, c.isBuiltin = false → c.Shows {} := by
  refine ⟨fun a h => ⟨a.call_shows_iff.2 h, ?_, fun fields extra ha => ?_⟩, fun c hc => ?_⟩
  · exact Codec.decode_eq_ok.2 (Call.codec.keeps a.call)
  · exact Task.exists_ofNode_toNode ha
      (TaskKind.call_readsBack.2 ⟨a.call, Call.codec.keeps a.call, rfl⟩)
  · exact Call.shows_none hc

/-- Arguments with a policy of their own in the endpoint. -/
def petById : TypedArguments :=
  .http
    { method := "get"
      endpoint := .first
        { uri := "https://pets.io/pet/1"
          authentication := some (.first (.oauth2
            { grant := some .clientCredentials, scopes := ["read:pets"] })) }
      headers := some (.mapping [("accept", .string "application/json"), ("if-match", .null)])
      output := some .response }

/-- A source of the input that is null, which is lost. -/
def lostSource : TaskFields := { input := some { source := some .null } }

def owner : OrderedMap Node := ⟨[("x-owner", .string "sales")]⟩

def greet : Call := { function := "greet" }

theorem shows_call_petById :
    petById.isNullFree = true ∧ petById.call.Shows petById.views ∧
      Call.codec.decode (Call.codec.write petById.call) = .ok petById.call ∧
      Task.keysApart (.call petById.call : TaskKind Task) owner = true ∧
      (∃ t, Task.ofNode (Task.mk lostSource (.call petById.call) owner).toNode = .ok t ∧
        t.kind = .call petById.call ∧ t.extra = owner) ∧
      greet.isBuiltin = false ∧ greet.Shows {} := by
  have hn : petById.isNullFree = true := rfl
  have ha : Task.keysApart (.call petById.call : TaskKind Task) owner = true := by decide
  have hg : greet.isBuiltin = false := rfl
  obtain ⟨hv, hc, ht⟩ := shows_call.1 petById hn
  exact ⟨hn, hv, hc, ha, ht lostSource owner ha, hg, shows_call.2 greet hg⟩

end TypedArguments

end WorkflowDsl
