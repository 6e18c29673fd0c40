import WorkflowDsl.Proofs.Draft.Verdict

/-!
# The order in which drafts are built

A draft of a task holds drafts of other tasks, to any depth, and each of them checks something of
its own: some before the tasks inside are built, some only afterwards. `KindDraft.stages` writes the
order down for one draft, and `TaskDraft.visits` for a whole tree: all checks, one after another,
each with the path to the draft that makes it.

Building a draft says what going through the visits says (`TaskDraft.verdict_build`). So a draft is
built exactly when every check passes, and otherwise the first that does not decides the error,
whose field carries the whole path (`TaskDraft.build_visits`).
-/

namespace WorkflowDsl

/-! ## Fields of errors -/

/-- A field below a path, outermost first. -/
def dotted (path : List String) (field : String) : String := ".".intercalate (path ++ [field])

theorem dotted_nil : dotted [] = id := rfl

theorem dotted_append (path path' : List String) :
    dotted (path ++ path') = dotted path ∘ dotted path' := by
  funext field
  unfold dotted
  induction path with
  | nil => simp
  | cons segment path ih =>
    have hne (rest : List String) (last : String) : rest ++ [last] ≠ [] := by simp
    rw [Function.comp_apply] at ih ⊢
    rw [List.cons_append, List.cons_append, List.cons_append,
      String.intercalate_cons_of_ne_nil (hne _ _), String.intercalate_cons_of_ne_nil (hne _ _), ih]

theorem dotted_pair (outer inner : String) :
    dotted [s!"{outer}.{inner}"] = dotted [outer, inner] := by
  funext field
  simp [dotted, String.append_assoc]
  rfl

namespace DefinitionError

/-- Changes the field that an error names, and nothing else. Errors that name no field stay. -/
def mapField (f : String → String) : DefinitionError → DefinitionError
  | missingField definition field => missingField definition (f field)
  | invalidFormat field value reason => invalidFormat (f field) value reason
  | cardinality field min actual => cardinality (f field) min actual
  | e => e

@[simp] theorem mapField_id : mapField id = id := by
  funext e
  cases e <;> rfl

theorem mapField_comp (g f : String → String) : mapField g ∘ mapField f = mapField (g ∘ f) := by
  funext e
  cases e <;> rfl

@[simp] theorem kind_mapField (f : String → String) (e : DefinitionError) :
    (e.mapField f).kind = e.kind := by cases e <;> rfl

/-- Placing an error below a parent prefixes its field. -/
theorem within_eq_mapField (parent : String) : within parent = mapField (dotted [parent]) := by
  funext e
  cases e <;> rfl

end DefinitionError

/-! ## Stages -/

/-- A part of what building a draft does. The path leads from the draft to where it happens. -/
inductive Stage (τ : Type) where
  /-- The draft is checked. -/
  | check (path : List String) (check : Check)
  /-- The tasks of a list are built, in their order. -/
  | tasks (path : List String) (tasks : List (String × τ))

namespace Stage

variable {τ σ : Type}

/-- A stage that happens further inside. -/
def below (outer : List String) : Stage τ → Stage τ
  | check path c => check (outer ++ path) c
  | tasks path ts => tasks (outer ++ path) ts

def map (f : τ → σ) : Stage τ → Stage σ
  | check path c => check path c
  | tasks path ts => tasks path (Entries.mapValues f ts)

/-- The drafts of the tasks, if it is them that are built. -/
def drafts : Stage τ → List (String × τ)
  | check _ _ => []
  | tasks _ ts => ts

@[simp] theorem drafts_check (path : List String) (c : Check) :
    (check path c : Stage τ).drafts = [] := rfl

@[simp] theorem drafts_tasks (path : List String) (ts : List (String × τ)) :
    (tasks path ts).drafts = ts := rfl

@[simp] theorem drafts_below (outer : List String) (s : Stage τ) :
    (s.below outer).drafts = s.drafts := by cases s <;> rfl

/-- What a stage says, given what the tasks say. -/
def run (f : τ → Check) : Stage τ → Check
  | check path c => c.mapError (.mapField (dotted path))
  | tasks path ts => ts.forM fun t => (f t.2).mapError (.mapField (dotted (path ++ [t.1])))

theorem run_check (f : τ → Check) (c : Check) : run f (check [] c) = c := by
  rw [run, dotted_nil, DefinitionError.mapField_id]
  cases c <;> rfl

theorem run_below (f : τ → Check) (outer : List String) (s : Stage τ) :
    run f (s.below outer) = (run f s).mapError (.mapField (dotted outer)) := by
  cases s with
  | check path c =>
    rw [below, run, run, dotted_append, ← DefinitionError.mapField_comp, except_mapError_mapError]
  | tasks path ts =>
    rw [below, run, run, Check.list_forM_mapError]
    refine Check.list_forM_congr fun t _ => ?_
    rw [except_mapError_mapError, DefinitionError.mapField_comp, ← dotted_append,
      List.append_assoc]

/-- A list of tasks is collected by building them. -/
theorem run_tasks (path : String) (ts : List (String × Built)) :
    run verdict (tasks [path] ts) = verdict (collectTasks path ts) := by
  rw [verdict_collectTasks]
  refine Check.list_forM_congr fun t _ => ?_
  rw [DefinitionError.within_eq_mapField, dotted_pair]
  rfl

end Stage

section

variable {τ : Type}

/-- Building a catcher: its retry policy is checked before the tasks that handle the problem. -/
def CatcherDraft.stages (d : CatcherDraft τ) : List (Stage τ) :=
  [.check [] (verdict (buildRetry d.retry)), .tasks ["do"] d.tasks]

/-- Building a kind. Without what tells where the tasks are to stand, or what they are for, they are
not built. Where several tasks are needed their names are counted last. -/
def KindDraft.stages : KindDraft τ → List (Stage τ)
  | call c => [.check [] (verdict c.build)]
  | do_ tasks => [.check [] (requireNames 1 "do" tasks), .tasks ["do"] tasks]
  | composite none _ _ => [.check [] (.error (.missingField "CompositeTaskDefinition" "execute"))]
  | composite (some .sequential) tasks _ =>
    [.tasks ["do"] tasks, .check [] (requireNames 2 "do" tasks)]
  | composite (some .concurrent) branches _ | fork branches _ =>
    [.tasks ["fork.branches"] branches, .check [] (requireNames 2 "fork.branches" branches)]
  | emit e => [.check [] ((verdict e.build).mapError (.within "emit.event"))]
  | for_ _ none _ _ _ => [.check [] (.error (.missingField "ForTaskDefinition" "for.in"))]
  | for_ _ (some _) _ _ tasks => [.check [] (requireNames 1 "do" tasks), .tasks ["do"] tasks]
  | listen none _ => [.check [] (.error (.missingField "ListenTaskDefinition" "listen.to"))]
  | listen (some listener) subscription =>
    .check [] ((verdict listener.build).mapError (.within "listen")) ::
      subscription.toList.map fun s => .tasks ["foreach.do"] s.tasks
  | raise problem => [.check [] (verdict (buildRaise problem))]
  | run none _ => [.check [] (.error (.missingField "RunTaskDefinition" "run"))]
  | run (some process) _ => [.check [] (verdict process.build)]
  | set values => [.check [] (if values.isEmpty then .error (.cardinality "set" 1 0) else .ok ())]
  | switch cases => [.check [] (verdict (buildCases cases))]
  | try_ tasks none =>
    [.check [] (requireNames 1 "try" tasks),
      .check [] (.error (.missingField "TryTaskDefinition" "catch"))]
  | try_ tasks (some catcher) =>
    .check [] (requireNames 1 "try" tasks) :: .tasks ["try"] tasks ::
      catcher.stages.map (Stage.below ["catch"])
  | wait none => [.check [] (.error (.missingField "WaitTaskDefinition" "wait"))]
  | wait (some duration) => [.check [] (duration.check "wait")]

namespace Stage

variable {σ : Type} {path : String} {tasks : List (String × Built)}

theorem forM_check (f : σ → Check) (c : Check) : [check [] c].forM (run f) = c := by
  rw [Check.list_forM_singleton, run_check]

theorem forM_below (f : σ → Check) (outer : List String) (stages : List (Stage σ)) :
    (stages.map (below outer)).forM (run f) =
      (stages.forM (run f)).mapError (.mapField (dotted outer)) := by
  rw [Check.list_forM_mapError, Check.list_forM_map]
  exact Check.list_forM_congr fun s _ => run_below f outer s

/-- A list that must not be empty. -/
theorem forM_required :
    [check [] (requireNames 1 path tasks), .tasks [path] tasks].forM (run verdict) =
      requireTasks path tasks >>= fun _ => verdict (collectTasks path tasks) := by
  rw [Check.list_forM_cons, Check.list_forM_singleton, run_tasks, run_check, requireTasks_eq]

/-- A list of several tasks. -/
theorem forM_several :
    [.tasks [path] tasks, check [] (requireNames 2 path tasks)].forM (run verdict) =
      verdict (collectSeveral path tasks) := by
  rw [Check.list_forM_cons, Check.list_forM_singleton, run_tasks, run_check,
    verdict_collectSeveral]

end Stage

theorem SubscriptionDraft.verdict_mapM (s : Option (SubscriptionDraft Built)) :
    verdict (s.mapM build) =
      (s.toList.map fun s => Stage.tasks ["foreach.do"] s.tasks).forM (Stage.run verdict) := by
  cases s with
  | none => rfl
  | some s =>
    rw [Option.toList_some, List.map_singleton, Check.list_forM_singleton, Stage.run_tasks]
    exact verdict_bind_ok.trans (verdict_map _)

theorem CatcherDraft.verdict_build (d : CatcherDraft Built) :
    verdict d.build = d.stages.forM (Stage.run verdict) := by
  rw [build, stages, Check.list_forM_cons, Check.list_forM_singleton, Stage.run_check,
    Stage.run_tasks]
  exact verdict_bind fun retry _ => verdict_bind_ok

/-- **Building a kind says what its stages say, one after another.** -/
theorem KindDraft.verdict_build (k : KindDraft Built) :
    verdict k.build = k.stages.forM (Stage.run verdict) := by
  cases k with
  | call c => rw [stages, Stage.forM_check, build, verdict_map]
  | do_ tasks => rw [stages, Stage.forM_required, build, verdict_check_bind, verdict_map]
  | composite mode tasks compete =>
    rcases mode with _ | _ | _
    · rw [stages, Stage.forM_check, build, verdict_error]
    · rw [stages, Stage.forM_several, build, verdict_map]
    · rw [stages, Stage.forM_several, build, verdict_map]
  | emit e => rw [stages, Stage.forM_check, build, verdict_mapError, verdict_map]
  | for_ each collection index condition tasks =>
    cases collection with
    | none => rw [stages, Stage.forM_check, build, verdict_error]
    | some collection =>
      rw [stages, Stage.forM_required, build, verdict_check_bind, verdict_bind_ok]
  | fork branches compete => rw [stages, Stage.forM_several, build, verdict_map]
  | listen listener subscription =>
    cases listener with
    | none => rw [stages, Stage.forM_check, build, verdict_error]
    | some listener =>
      rw [stages, Check.list_forM_cons, Stage.run_check, ← SubscriptionDraft.verdict_mapM, build,
        ← verdict_mapError]
      exact verdict_bind fun listener _ => verdict_bind_ok
  | raise problem => rw [stages, Stage.forM_check, build, verdict_map]
  | run process options =>
    cases process with
    | none => rw [stages, Stage.forM_check, build, verdict_error]
    | some process => rw [stages, Stage.forM_check, build, verdict_map]
  | set values =>
    rw [stages, Stage.forM_check, build]
    split <;> rfl
  | switch cases => rw [stages, Stage.forM_check, build, verdict_map]
  | try_ tasks catcher =>
    cases catcher with
    | none =>
      rw [stages, Check.list_forM_cons, Stage.forM_check, Stage.run_check, build,
        verdict_check_bind, requireTasks_eq]
      rfl
    | some catcher =>
      rw [stages, Check.list_forM_cons, Check.list_forM_cons, Stage.run_check, Stage.run_tasks,
        Stage.forM_below, ← CatcherDraft.verdict_build, build, verdict_check_bind, requireTasks_eq]
      congr 1
      funext _
      rw [← verdict_mapError, ← DefinitionError.within_eq_mapField]
      exact verdict_bind fun tasks _ => verdict_bind_ok
  | wait duration =>
    cases duration with
    | none => rw [stages, Stage.forM_check, build, verdict_error]
    | some duration => rw [stages, Stage.forM_check, build, verdict_check_ok]

end

/-! ## Visits -/

/-- A check that is made while a draft is built. The path leads to the draft that makes it, by the
keys of the lists and the names of the tasks on the way. -/
structure Visit where
  path : List String
  check : Check

namespace Visit

/-- A visit further inside. -/
def below (outer : List String) (v : Visit) : Visit := ⟨outer ++ v.path, v.check⟩

/-- What a visit says to who has started the building. -/
def outcome (v : Visit) : Check := v.check.mapError (.mapField (dotted v.path))

theorem forM_below (outer : List String) (vs : List Visit) :
    (vs.map (below outer)).forM outcome =
      (vs.forM outcome).mapError (.mapField (dotted outer)) := by
  rw [Check.list_forM_mapError, Check.list_forM_map]
  refine Check.list_forM_congr fun v _ => ?_
  unfold outcome below
  rw [dotted_append, ← DefinitionError.mapField_comp, except_mapError_mapError]

end Visit

/-- The visits of a stage, given those of its drafts. -/
def Stage.visits {τ : Type} :
    (s : Stage τ) → ((t : String × τ) → t ∈ s.drafts → List Visit) → List Visit
  | check path c, _ => [⟨path, c⟩]
  | tasks path ts, inside =>
    ts.attach.flatMap fun ⟨t, ht⟩ => (inside t ht).map (.below (path ++ [t.1]))

/-- A list of drafts that is checked before or after it is built is the only one there. -/
theorem Stage.sizeOf_drafts_pair {path path' : List String} {c : Check}
    {ts : List (String × TaskDraft)} {n : Nat} (h : sizeOf ts < n) :
    (∀ s ∈ [check path c, tasks path' ts], s.drafts = [] ∨ sizeOf s.drafts < n) ∧
      ∀ s ∈ [tasks path' ts, check path c], s.drafts = [] ∨ sizeOf s.drafts < n := by
  simp only [List.forall_mem_cons, drafts_check, drafts_tasks]
  exact ⟨⟨.inl trivial, .inr h, nofun⟩, .inr h, .inl trivial, nofun⟩

theorem CatcherDraft.sizeOf_drafts_lt (d : CatcherDraft TaskDraft) :
    ∀ s ∈ d.stages, s.drafts = [] ∨ sizeOf s.drafts < sizeOf d := by
  obtain ⟨properties, variable_, condition, exception, retry, tasks⟩ := d
  refine (Stage.sizeOf_drafts_pair ?_).1
  show sizeOf tasks < _
  rw [mk.sizeOf_spec]
  omega

/-- The drafts that a stage builds are parts of the kind. -/
theorem KindDraft.sizeOf_drafts_lt (k : KindDraft TaskDraft) :
    ∀ s ∈ k.stages, s.drafts = [] ∨ sizeOf s.drafts < sizeOf k := by
  cases k with
  | do_ tasks => exact (Stage.sizeOf_drafts_pair (by rw [do_.sizeOf_spec]; omega)).1
  | composite mode tasks compete =>
    have h : sizeOf tasks < sizeOf (composite mode tasks compete) := by
      rw [composite.sizeOf_spec]
      omega
    rcases mode with _ | _ | _
    · simp [stages]
    · exact (Stage.sizeOf_drafts_pair h).2
    · exact (Stage.sizeOf_drafts_pair h).2
  | for_ each collection index condition tasks =>
    cases collection with
    | none => simp [stages]
    | some => exact (Stage.sizeOf_drafts_pair (by rw [for_.sizeOf_spec]; omega)).1
  | fork branches compete => exact (Stage.sizeOf_drafts_pair (by rw [fork.sizeOf_spec]; omega)).2
  | listen listener subscription =>
    rcases listener with _ | listener
    · simp [stages]
    · rcases subscription with _ | ⟨item, index, tasks⟩
      · simp [stages]
      · have h : sizeOf tasks < sizeOf (listen (some listener) (some ⟨item, index, tasks⟩)) := by
          simp only [listen.sizeOf_spec, Option.some.sizeOf_spec, SubscriptionDraft.mk.sizeOf_spec]
          omega
        exact (Stage.sizeOf_drafts_pair h).1
  | run process options => cases process <;> simp [stages]
  | try_ tasks catcher =>
    rcases catcher with _ | catcher
    · simp [stages]
    · have hc := catcher.sizeOf_drafts_lt
      simp only [stages, List.forall_mem_cons, List.forall_mem_map, Stage.drafts_check,
        Stage.drafts_tasks, Stage.drafts_below, try_.sizeOf_spec, Option.some.sizeOf_spec]
      refine ⟨.inl trivial, .inr (by omega), fun s hs => (hc s hs).imp_right fun h => by omega⟩
  | wait duration => cases duration <;> simp [stages]
  | _ => simp [stages]

theorem KindDraft.sizeOf_lt {k : KindDraft TaskDraft} {s : Stage TaskDraft} (hs : s ∈ k.stages)
    {t : String × TaskDraft} (ht : t ∈ s.drafts) : sizeOf t.2 < sizeOf k := by
  obtain ⟨name, d⟩ := t
  have hlt := List.sizeOf_lt_of_mem ht
  rw [Prod.mk.sizeOf_spec] at hlt
  rcases k.sizeOf_drafts_lt s hs with h | h
  · rw [h] at ht
    cases ht
  · show sizeOf d < sizeOf k
    omega

/-- All checks that are made while a draft is built, in their order. -/
def TaskDraft.visits : TaskDraft → List Visit
  | finished _ => []
  | pending _ kind =>
    kind.stages.attach.flatMap fun ⟨s, _⟩ => s.visits fun t _ => t.2.visits
decreasing_by
  have hlt := KindDraft.sizeOf_lt ‹_› ‹_›
  rw [pending.sizeOf_spec]
  omega

/-! ## Trees of drafts -/

theorem flatMap_attach {α β : Type} (as : List α) (f : α → List β) :
    (as.attach.flatMap fun a => f a.1) = as.flatMap f := by
  rw [← List.flatMap_map Subtype.val f, List.attach_map_subtype_val]

theorem Stage.visits_tasks {τ : Type} (path : List String) (ts : List (String × τ))
    (f : τ → List Visit) :
    (tasks path ts).visits (fun t _ => f t.2) =
      ts.flatMap fun t => (f t.2).map (.below (path ++ [t.1])) :=
  flatMap_attach ts fun t => (f t.2).map (Visit.below (path ++ [t.1]))

namespace TaskDraft

theorem visits_pending (fields : TaskFields) (kind : KindDraft TaskDraft) :
    (pending fields kind).visits =
      kind.stages.flatMap fun s => s.visits fun t _ => t.2.visits := by
  rw [visits]
  exact flatMap_attach kind.stages fun s => s.visits fun t _ => t.2.visits

/-- The tasks inside are built where the stages say. -/
theorem stages_buildInside (k : KindDraft TaskDraft) :
    (buildInside k).stages = k.stages.map (Stage.map build) := by
  cases k with
  | composite mode tasks compete =>
    rcases mode with _ | _ | _ <;>
      simp [buildInside, buildEach_eq, KindDraft.stages, Stage.map, requireNames_mapValues]
  | for_ each collection index condition tasks =>
    cases collection <;>
      simp [buildInside, buildEach_eq, KindDraft.stages, Stage.map, requireNames_mapValues]
  | listen listener subscription =>
    cases listener <;> rcases subscription with _ | ⟨item, index, tasks⟩ <;>
      simp [buildInside, buildSubscription, buildSubscriber, buildEach_eq, KindDraft.stages,
        Stage.map]
  | run process options => cases process <;> rfl
  | try_ tasks catcher =>
    rcases catcher with _ | ⟨properties, variable_, condition, exception, retry, handlers⟩ <;>
      simp [buildInside, buildCatcher, buildHandler, buildEach_eq, KindDraft.stages,
        CatcherDraft.stages, Stage.map, Stage.below, requireNames_mapValues]
  | wait duration => cases duration <;> rfl
  | _ => simp [buildInside, buildEach_eq, KindDraft.stages, Stage.map, requireNames_mapValues]

/-- One stage: what is said while tasks are built is what is said at the visits of their drafts. -/
theorem run_map_build (s : Stage TaskDraft)
    (ih : ∀ t ∈ s.drafts, verdict t.2.build = t.2.visits.forM Visit.outcome) :
    (s.map build).run verdict = (s.visits fun t _ => t.2.visits).forM Visit.outcome := by
  cases s with
  | check path c => exact (Check.list_forM_singleton _ _).symm
  | tasks path ts =>
    rw [Stage.visits_tasks, Check.list_forM_flatMap, Stage.map, Stage.run, Entries.mapValues,
      Check.list_forM_map]
    refine Check.list_forM_congr fun t ht => ?_
    rw [Visit.forM_below, ← ih t ht]

/-- Building a draft says what its visits say, one after another. -/
theorem verdict_build (d : TaskDraft) : verdict d.build = d.visits.forM Visit.outcome := by
  induction d using visits.induct with
  | case1 task =>
    rw [visits]
    rfl
  | case2 fields kind ih =>
    rw [build, verdict_map, KindDraft.verdict_build, stages_buildInside, Check.list_forM_map,
      visits_pending, Check.list_forM_flatMap]
    exact Check.list_forM_congr fun s hs => run_map_build s fun t ht => ih s hs t ht

/-- **Errors of nested drafts carry the whole path.** A task is built exactly when every draft in
the tree passes its own checks. Otherwise the first check that fails in the order of building
decides the error: its field, if it names one, stands below the keys of the lists and the names of
the tasks on the way to the draft, outermost first, and nothing else is changed. -/
theorem build_visits (d : TaskDraft) :
    (Builds d.build ↔ ∀ v ∈ d.visits, v.check = .ok ()) ∧
      ∀ e, d.build = .error e ↔
        ∃ before v after own, d.visits = before ++ v :: after ∧
          (∀ u ∈ before, u.check = .ok ()) ∧ v.check = .error own ∧
          e = own.mapField (dotted v.path) ∧ e.kind = own.kind := by
  have hpass (vs : List Visit) :
      (∀ v ∈ vs, v.outcome = .ok ()) ↔ ∀ v ∈ vs, v.check = .ok () :=
    forall₂_congr fun v _ => except_mapError_eq_ok
  constructor
  · rw [builds_iff_verdict, verdict_build, Check.list_forM_eq_ok, hpass]
  · intro e
    rw [← verdict_eq_error, verdict_build, Check.list_forM_eq_error]
    constructor
    · rintro ⟨before, v, after, hv, hbefore, he⟩
      obtain ⟨own, ho, rfl⟩ := except_mapError_eq_error.1 he
      exact ⟨before, v, after, own, hv, (hpass _).1 hbefore, ho, rfl,
        DefinitionError.kind_mapField _ own⟩
    · rintro ⟨before, v, after, own, hv, hbefore, ho, rfl, -⟩
      exact ⟨before, v, after, hv, (hpass _).2 hbefore, except_mapError_eq_error.2 ⟨own, ho, rfl⟩⟩

/-- The path goes through lists and catchers alike. -/
example :
    (ofKind (.do_ [("outer", ofKind (.try_ [("inner", ofKind (.set ⟨[("a", .null)]⟩))]
      (some { tasks := [("retry", ofKind (.wait none))] })))])).build =
      .error (.missingField "WaitTaskDefinition" "do.outer.catch.do.retry.wait") := by rfl

end TaskDraft

end WorkflowDsl
