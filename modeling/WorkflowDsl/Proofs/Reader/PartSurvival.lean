import WorkflowDsl.Proofs.Reader.Revision

/-!
# Parts of tasks survive

The parts of a task that hold external resources survive when these are revised: the schema of a
data model (`Codec.model_survives`), the arguments of a call (`Call.yields`) and the source of a
script (`Run.survives`). Nothing else in them is changed.
-/

namespace WorkflowDsl

open Pointer (below)
open ResourcePosition

variable {R : Revision} {n : Node} {es es' : Object}

/-! ## Data models -/

/-- A resource survives as some resource. -/
theorem ExternalResource.survives (hR : R.all = true) {x : ExternalResource}
    (hr : codec.read n = .ok x) : codec.Survives R.Revises (fun _ => .hidden) [[]] n x := by
  intro n' he
  obtain ⟨y, hy⟩ := R.resource hR he hr
  exact ⟨y, hy, rfl⟩

namespace Codec

variable {ρ : Type} {name key : String} {make : Option Schema → Option Node → ρ}
  {schema : ρ → Option Schema} {content : ρ → Option Node} {x : ρ}

/-- **A data model survives but for its schema.** -/
theorem model_survives (h : (modelFields schema key content).Lawful make)
    (hr : (model name make schema key content).read n = .ok x) :
    (model name make schema key content).Survives R.Revises
      (recordMask make (modelFields schema key content)
        (Option.map R.masking.schema, id, ())) (modelSchema n) n x := by
  have hk : "schema" ≠ key := fun hk => (List.nodup_cons.1 h.nodup_keys).1 (hk ▸ List.mem_cons_self)
  refine record_survives R.descends hr h _ (deep_modelSchema n) modelSchema_of_ne_mapping
    fun es _ => ?_
  refine ⟨Field.survives_optional R.descends fun _ _ _ hr => ?_,
    Field.survives_of_below R.descends ?_, trivial⟩
  all_goals rcases modelSchema_cases n with hm | hm <;> rw [hm]
  · exact survives_nil R.descends hr
  · rw [Pointer.below_cons_self]
    exact fun _ he => R.schema he hr
  · rfl
  · exact Pointer.below_cons_of_ne hk _ _

end Codec

/-! ## Calls -/

theorem Codec.map_node_read {m : OrderedMap Node} :
    (map node).read n = .ok m ↔ n = .mapping m.entries := by
  cases n with
  | mapping es =>
    rw [map_read_mapping, Node.mapping.injEq]
    refine ⟨fun h => ?_, fun h => h ▸ Entries.matching_self.2 fun _ _ => rfl⟩
    rw [← List.forall₂_eq_eq_eq]
    exact h.imp fun e e' he => Prod.ext he.1 (Except.ok.inj he.2)
  | _ => exact ⟨nofun, nofun⟩

/-- A map of nodes survives but for the values under the keys of resources. -/
theorem Codec.map_node_survives (hR : R.all = true) {key : String} {m : OrderedMap Node}
    (hr : (map node).read n = .ok m) :
    (map node).Survives R.Revises (OrderedMap.hide [key]) [[key]] n m := by
  intro n' he
  obtain rfl := map_node_read.1 hr
  obtain ⟨es', rfl, hes⟩ := R.shallow hR he
  refine ⟨⟨es'⟩, map_node_read.2 rfl, ?_⟩
  refine congrArg OrderedMap.mk (hes.agree.map_eq fun k v w hk => ?_).symm
  have hk : k = key := by
    by_contra hne
    exact hk (Pointer.below_cons_of_ne (Ne.symm hne) [] [])
  simp [hk]

/-- **A call survives but for the argument that is a resource.** -/
theorem Call.yields (hes : R.Revises.Entrywise (taskPointers R.all (.mapping es)) es es')
    {c : Call} (hr : codec.read (.mapping es) = .ok c) :
    Yields (fun c => if R.all then c.masked else c) (codec.read (.mapping es')) c := by
  have hl : Fields.Lawful Call.mk
      (.more (.required "call" .string (·.function)) <|
        .more (.omitted "with" (.map .node) {} OrderedMap.isEmpty (·.arguments)) <|
        .more (.optional "await" .bool (·.awaits)) .done) :=
    (.computed rfl)
  have hb {key : String} (h : key ∉ taskKeys) :
      below key (taskPointers R.all (.mapping es)) = [] := below_taskPointers_of_not_mem h
  rcases below_taskPointers_with R.all es with hw | ⟨hR, function, key, hc, ha, hw⟩
  · refine (Codec.record_yields hr hl (id, id, id, ()) hes
      ⟨Field.survives_of_below R.descends (hb (by decide)), Field.survives_of_below R.descends hw,
        Field.survives_of_below R.descends (hb (by decide)), trivial⟩).imp ?_
    exact fun h => congrArg (fun c : Call => if R.all then c.masked else c) h
  · have hf := (Field.readEntry_of_get? hc).1 ((Codec.record_read_mapping hl).1 hr).1
    have hf : Except.ok function = Except.ok c.function := hf
    have hac : callArgument? c.function = some key := Except.ok.inj hf ▸ ha
    refine (Codec.record_yields hr hl (id, OrderedMap.hide [key], id, ()) hes
      ⟨Field.survives_of_below R.descends (hb (by decide)), fun _ _ _ hr => ?_,
        Field.survives_of_below R.descends (hb (by decide)), trivial⟩).imp fun {d} h => ?_
    · show (Codec.map .node).Survives R.Revises _ (below "with" _) _ _
      rw [hw]
      exact Codec.map_node_survives hR hr
    · have hd : d.function = c.function := (Call.mk.inj h).1
      have had : callArgument? d.function = some key := hd ▸ hac
      rw [if_pos hR, if_pos hR, masked, masked, hac, had]
      exact h

/-! ## Processes -/

namespace Entries

variable {α : Type} {es fs : Entries α}

/-- The kind of a mapping is told by its keys alone. -/
theorem singleKind_congr (h : keys es = keys fs) (family : String) (candidates : List String) :
    es.singleKind family candidates = fs.singleKind family candidates := by
  have hk : es.hasKey = fs.hasKey := by
    funext key
    rw [Bool.eq_iff_iff, hasKey_iff, hasKey_iff, h]
  rw [singleKind, singleKind, presentKeys, presentKeys, hk, h]

/-- A mapping of a kind has the key of no other. -/
theorem not_mem_keys_of_singleKind {family : String} {candidates : List String}
    {key other : String} (h : es.singleKind family candidates = .ok key)
    (ho : other ∈ candidates) (hne : other ≠ key) : other ∉ keys es := by
  intro hm
  have hm : other ∈ es.presentKeys candidates := List.mem_filter.2 ⟨ho, hasKey_iff.2 hm⟩
  rw [singleKind_eq_ok.1 h, List.mem_singleton] at hm
  exact hne hm

end Entries

/-- A script survives but for its source. -/
theorem ScriptProcess.survives (hR : R.all = true) {p : ScriptProcess}
    (hr : codec.read (.mapping es) = .ok p) :
    codec.Survives R.Revises (fun p => { p with source := p.source.map fun _ => .hidden })
      [["source"]] (.mapping es) p := by
  intro n' he
  obtain ⟨es', rfl, hes⟩ := R.shallow hR he
  have hE := R.descends
  have hb {key : String} (hk : "source" ≠ key) : below key [["source"]] = [] :=
    Pointer.below_cons_of_ne hk [] []
  refine Codec.record_yields hr (.computed rfl)
    (id, id, Option.map fun _ => .hidden, id, id, ()) hes
    ⟨Field.survives_of_below hE (hb (by decide)), Field.survives_of_below hE (hb (by decide)),
      Field.survives_optional hE fun _ _ _ hr => ?_, Field.survives_of_below hE (hb (by decide)),
      Field.survives_of_below hE (hb (by decide)), trivial⟩
  exact ExternalResource.survives hR hr

namespace Run

/-- A run of a script is read as the script, and the options. -/
theorem read_script_eq_ok {r : Run} {fs : Object}
    (hk : es.singleKind "process" Process.kindKeys = .ok "script")
    (hs : es.get? "script" = some (.mapping fs)) :
    codec.read (.mapping es) = .ok r ↔
      ∃ p, ScriptProcess.codec.read (.mapping fs) = .ok p ∧
        RunOptions.codec.read (.mapping (es.splitKeys ["script"]).2) = .ok r.options ∧
        r.process = .script p := by
  have hp {q : Process} : Process.ofNode "script" (.mapping fs) = .ok q ↔
      ∃ p, ScriptProcess.codec.read (.mapping fs) = .ok p ∧ q = .script p := by
    refine except_map_eq_ok.trans (exists_congr fun p => and_congr ?_ eq_comm)
    exact Codec.decodeObject_eq_ok.trans ⟨fun ⟨_, _, h⟩ => h, fun h => ⟨fs, rfl, h⟩⟩
  rw [read_mapping_eq_ok]
  constructor
  · rintro ⟨key, hk', hr, ho⟩
    obtain rfl := Except.ok.inj (hk.symm.trans hk')
    rw [hs, Option.getD_some, hp] at hr
    obtain ⟨p, hr, he⟩ := hr
    exact ⟨p, hr, ho, he⟩
  · rintro ⟨p, hr, ho, he⟩
    refine ⟨"script", hk, ?_, ho⟩
    rw [hs, Option.getD_some, hp]
    exact ⟨p, hr, he⟩

/-- The script of a run stands in an object. -/
theorem exists_get?_script {q : Process}
    (h : Process.ofNode "script" ((es.get? "script").getD .null) = .ok q) :
    ∃ fs, es.get? "script" = some (.mapping fs) := by
  obtain ⟨p, hp, -⟩ := except_map_eq_ok.1 h
  obtain ⟨fs, hs, -⟩ := Codec.decodeObject_eq_ok.1 hp
  cases hg : Entries.get? es "script" with
  | none =>
    rw [hg] at hs
    cases hs
  | some v =>
    rw [hg, Option.getD_some] at hs
    exact ⟨fs, congrArg some hs⟩

/-- A run of a script yields what the script yields, as the options stand beside it. -/
theorem script_yields (hR : R.all = true) (ha : es.AgreeBut (· = "script") es')
    (hk : es.singleKind "process" Process.kindKeys = .ok "script") {fs : Object} {n' : Node}
    (hs : es.get? "script" = some (.mapping fs)) (hs' : es'.get? "script" = some n')
    (he : R.Revises [["source"]] (.mapping fs) n') {r : Run}
    (hr : codec.read (.mapping es) = .ok r) :
    Yields masked (codec.read (.mapping es')) r := by
  have ho : (Entries.splitKeys es ["script"]).2 = (Entries.splitKeys es' ["script"]).2 := by
    refine (ha.splitKeys_snd _).eq fun key hm h => ?_
    exact (Entries.mem_keys_splitKeys_snd hm).2 (h ▸ List.mem_cons_self)
  have hk' := (Entries.singleKind_congr ha.keys_eq _ _).symm.trans hk
  obtain ⟨fs', rfl, -⟩ := R.shallow hR he
  obtain ⟨p, hp, hro, hrp⟩ := (read_script_eq_ok hk hs).1 hr
  have hy := ScriptProcess.survives hR hp he
  have hm : r = ⟨.script p, r.options⟩ := by rw [← hrp]
  rw [hm]
  refine (hy.map (f := fun p => (⟨.script p, r.options⟩ : Run)) fun h => ?_).congr fun {b} => ?_
  · exact congrArg (fun p => (⟨.script p, r.options⟩ : Run)) h
  · rw [read_script_eq_ok hk' hs', except_map_eq_ok, ← ho, hro]
    refine exists_congr fun p => and_congr_right fun _ => ?_
    obtain ⟨process, options⟩ := b
    rw [Except.ok.injEq, Run.mk.injEq, eq_comm, and_comm, eq_comm]

/-- **A run survives but for the source of its script.** -/
theorem survives (hR : R.all = true) {r : Run} (hr : codec.read n = .ok r) :
    codec.Survives R.Revises masked [["script", "source"]] n r := by
  intro n' he
  cases n with
  | mapping es =>
    have hd : Pointer.Deep [["script", "source"]] :=
      fun p hp => List.mem_singleton.1 hp ▸ Nat.lt_succ_self 1
    have hb : below "script" [["script", "source"]] = [["source"]] :=
      Pointer.below_cons_self _ _ _
    obtain ⟨es', rfl, hes⟩ := R.descends.mapping hd he
    have ha : Entries.AgreeBut (· = "script") es es' := hes.agree.imp fun key hk => by
      by_contra hne
      exact hk (Pointer.below_cons_of_ne (Ne.symm hne) _ _)
    obtain ⟨key, hk, hp, -⟩ := read_mapping_eq_ok.1 hr
    by_cases hkey : key = "script"
    · subst hkey
      obtain ⟨fs, hs⟩ := exists_get?_script hp
      obtain ⟨n', hs', he⟩ := hes.values hs
      exact script_yields hR ha hk hs hs' (hb ▸ he) hr
    · have hm := Entries.not_mem_keys_of_singleKind hk
        (show "script" ∈ Process.kindKeys by decide) (Ne.symm hkey)
      have heq : es = es' := ha.eq fun k hk h => hm (h ▸ hk)
      rw [← heq]
      exact yields_of_ok hr
  | _ => cases hr

end Run

end WorkflowDsl
