import WorkflowDsl.Proofs.Check
import WorkflowDsl.Proofs.Codec.NamedMap
import WorkflowDsl.Proofs.Draft.Feeding

/-!
# Verdicts on drafts

What building says about a draft is its `verdict`: nothing, or the error. Where parts are built one
after another the verdict is that of a check that goes through their verdicts in the same order, so
the laws of checks tell which error comes first. This is done here for named lists, which lose the
entries whose name is used again only after all of them have been built
(`collectTasks_eq_ok`, `verdict_collectSeveral`).
-/

namespace WorkflowDsl

/-! ## Verdicts -/

section

variable {α β : Type} {x : Except DefinitionError α} {e : DefinitionError}

/-- What building says: nothing, or the error. -/
def verdict (x : Except DefinitionError α) : Check := x.map fun _ => ()

theorem builds_iff_verdict : Builds x ↔ verdict x = .ok () := by
  cases x with
  | ok a => exact iff_of_true ⟨a, rfl⟩ rfl
  | error e => exact iff_of_false nofun nofun

theorem verdict_eq_error : verdict x = .error e ↔ x = .error e := by
  cases x with
  | ok a => exact iff_of_false nofun nofun
  | error e' =>
    exact ⟨fun h => congrArg _ (Except.error.inj h), fun h => congrArg _ (Except.error.inj h)⟩

@[simp] theorem verdict_error (e : DefinitionError) :
    verdict (.error e : Except DefinitionError α) = .error e := rfl

@[simp] theorem verdict_map (f : α → β) : verdict (x.map f) = verdict x := by cases x <;> rfl

@[simp] theorem verdict_mapError (f : DefinitionError → DefinitionError) :
    verdict (x.mapError f) = (verdict x).mapError f := by cases x <;> rfl

theorem mapError_verdict_eq_ok {f : DefinitionError → DefinitionError} :
    (verdict x).mapError f = .ok () ↔ Builds x :=
  except_mapError_eq_ok.trans builds_iff_verdict.symm

theorem builds_check {c : Check} : Builds c ↔ c = .ok () :=
  ⟨fun ⟨_, h⟩ => h, fun h => ⟨(), h⟩⟩

/-- What comes second says the same whatever the first has built. -/
theorem verdict_bind {f : α → Except DefinitionError β} {c : Check}
    (h : ∀ a, x = .ok a → verdict (f a) = c) : verdict (x >>= f) = verdict x >>= fun _ => c := by
  cases x with
  | ok a => exact h a rfl
  | error e => rfl

theorem verdict_bind_ok {f : α → β} : verdict (x >>= fun a => .ok (f a)) = verdict x := by
  cases x <;> rfl

theorem verdict_check_bind {c : Check} {f : Unit → Except DefinitionError β} :
    verdict (c >>= f) = c >>= fun u => verdict (f u) := by cases c <;> rfl

/-- What is only checked. -/
theorem verdict_check_ok {c : Check} {b : β} : verdict (c >>= fun _ => .ok b) = c := by
  cases c <;> rfl

end

/-! ## Named lists -/

section

variable {α β : Type} {path : String} {build : α → Except DefinitionError β}
  {drafts : List (String × α)}

theorem verdict_buildNamed :
    verdict (buildNamed path build drafts) =
      drafts.forM fun d => (verdict (build d.2)).mapError (.within s!"{path}.{d.1}") := by
  induction drafts with
  | nil => rfl
  | cons d drafts ih =>
    rw [Check.list_forM_cons, ← ih, buildNamed, List.mapM_cons, verdict_bind, verdict_mapError,
      verdict_map]
    intro b _
    exact verdict_map fun bs => b :: bs

theorem buildNamed_eq_ok {bs : List (String × β)} :
    buildNamed path build drafts = .ok bs ↔
      Entries.Matching (fun d b => build d = .ok b) drafts bs := by
  refine mapM_eq_ok.trans (iff_of_eq (congrArg (List.Forall₂ · drafts bs) ?_))
  funext d b
  rw [except_mapError_eq_ok, except_map_eq_ok]
  refine propext ⟨?_, fun ⟨hn, hb⟩ => ⟨b.2, hb, Prod.ext hn rfl⟩⟩
  rintro ⟨b', hb, rfl⟩
  exact ⟨rfl, hb⟩

theorem builds_buildNamed :
    Builds (buildNamed path build drafts) ↔ ∀ d ∈ drafts, Builds (build d.2) := by
  rw [builds_iff_verdict, verdict_buildNamed, Check.list_forM_eq_ok]
  simp only [mapError_verdict_eq_ok]

/-- The first draft that fails decides the error. -/
theorem buildNamed_eq_error {e : DefinitionError} :
    buildNamed path build drafts = .error e ↔
      ∃ before name d after own, drafts = before ++ (name, d) :: after ∧
        (∀ p ∈ before, Builds (build p.2)) ∧ build d = .error own ∧
        e = own.within s!"{path}.{name}" := by
  rw [← verdict_eq_error, verdict_buildNamed, Check.list_forM_eq_error]
  simp only [mapError_verdict_eq_ok]
  constructor
  · rintro ⟨before, ⟨name, d⟩, after, rfl, hbefore, h⟩
    obtain ⟨own, ho, rfl⟩ := except_mapError_eq_error.1 h
    exact ⟨before, name, d, after, own, rfl, hbefore, verdict_eq_error.1 ho, rfl⟩
  · rintro ⟨before, name, d, after, own, rfl, hbefore, ho, rfl⟩
    exact ⟨before, (name, d), after, rfl, hbefore,
      except_mapError_eq_error.2 ⟨own, verdict_eq_error.2 ho, rfl⟩⟩

end

/-! ## Lists of tasks -/

section

variable {τ : Type} {path : String} {tasks : List (String × Built)}

/-- Refuses a list that uses fewer than `min` names. A name counts once. -/
def requireNames (min : Nat) (path : String) (tasks : List (String × τ)) : Check :=
  let names := (Entries.keys tasks).eraseDups
  if names.length < min then .error (.cardinality path min names.length) else .ok ()

theorem requireTasks_eq : requireTasks path tasks = requireNames 1 path tasks := by
  cases tasks with
  | nil => rfl
  | cons t tasks =>
    rw [requireTasks, requireNames, Entries.keys_cons, List.eraseDups_cons]
    rfl

/-- Only the names are looked at. -/
theorem requireNames_mapValues {σ : Type} (f : τ → σ) (min : Nat) (tasks : List (String × τ)) :
    requireNames min path (Entries.mapValues f tasks) = requireNames min path tasks := by
  unfold requireNames
  rw [Entries.keys_mapValues]

theorem requireNames_eq_ok {min : Nat} {tasks : List (String × τ)} :
    requireNames min path tasks = .ok () ↔ min ≤ (Entries.keys tasks).eraseDups.length := by
  unfold requireNames
  by_cases h : (Entries.keys tasks).eraseDups.length < min
  · simp [h]
  · simp [h, Nat.not_lt.1 h]

theorem requireNames_eq_error {min : Nat} {tasks : List (String × τ)} {e : DefinitionError} :
    requireNames min path tasks = .error e ↔
      (Entries.keys tasks).eraseDups.length < min ∧
        e = .cardinality path min (Entries.keys tasks).eraseDups.length := by
  unfold requireNames
  by_cases h : (Entries.keys tasks).eraseDups.length < min
  · simp [h, eq_comm]
  · simp [h]

theorem TaskDraft.buildList_eq (ds : List (String × TaskDraft)) :
    buildList path ds = (buildNamed path build ds).map .ofList := by
  rw [buildList, collectTasks, buildEach_eq]
  unfold buildNamed Entries.mapValues
  rw [List.mapM_map]
  rfl

theorem NamedMap.names_ofList (es : List (String × τ)) :
    (NamedMap.ofList es).names = (Entries.keys es).eraseDups :=
  (NamedMap.Follows.empty.merge es).names_eq

theorem NamedMap.get?_ofList (es : List (String × τ)) (name : String) :
    (NamedMap.ofList es).get? name = Entries.get? es.reverse name :=
  (NamedMap.Follows.empty.merge es).get?_eq name

theorem NamedMap.eq_of_get?_eq {m n : NamedMap τ} (hm : m.names.Nodup) (hn : m.names = n.names)
    (h : ∀ name, m.get? name = n.get? name) : m = n :=
  congrArg NamedMap.mk (Entries.eq_of_get?_eq hn hm h)

theorem collectTasks_eq_ok {m : NamedMap Task} :
    collectTasks path tasks = .ok m ↔
      ∃ ts, Entries.Matching (fun x t => x = .ok t) tasks ts ∧ NamedMap.ofList ts = m := by
  rw [collectTasks, except_map_eq_ok]
  simp only [buildNamed_eq_ok, id]

/-- The list has the names of the drafts, each once. -/
theorem names_of_collectTasks {m : NamedMap Task} (h : collectTasks path tasks = .ok m) :
    m.names = (Entries.keys tasks).eraseDups := by
  obtain ⟨ts, hts, rfl⟩ := collectTasks_eq_ok.1 h
  rw [NamedMap.names_ofList, hts.keys_eq]

theorem collectSeveral_eq :
    collectSeveral path tasks =
      collectTasks path tasks >>= fun m => requireNames 2 path tasks >>= fun _ => .ok m := by
  rw [collectSeveral]
  cases h : collectTasks path tasks with
  | error e => rfl
  | ok m =>
    have hs : m.size = (Entries.keys tasks).eraseDups.length := by
      rw [← names_of_collectTasks h]
      exact (List.length_map _).symm
    show (if m.size < 2 then _ else _) = requireNames 2 path tasks >>= _
    rw [requireNames, hs]
    dsimp only
    split <;> rfl

theorem verdict_collectTasks :
    verdict (collectTasks path tasks) =
      tasks.forM fun t => (verdict t.2).mapError (.within s!"{path}.{t.1}") := by
  rw [collectTasks, verdict_map, verdict_buildNamed]
  rfl

/-- The names are counted once all tasks have been built. -/
theorem verdict_collectSeveral :
    verdict (collectSeveral path tasks) =
      verdict (collectTasks path tasks) >>= fun _ => requireNames 2 path tasks := by
  rw [collectSeveral_eq]
  refine verdict_bind fun m _ => ?_
  cases requireNames 2 path tasks <;> rfl

end

end WorkflowDsl
