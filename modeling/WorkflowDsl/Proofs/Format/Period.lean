import Mathlib.Data.List.DropRight
import WorkflowDsl.Format.Period
import WorkflowDsl.Proofs.Format.SemVer

/-!
# Which texts are durations

A `Period` lists the components of a duration, those of the date and those of the time. Its text has
`P` in front, and `T` before the time if there is any. The grammar (`IsPeriodOf`) asks for one
component at least, for designators in their order, each at most once, and for numbers of digits,
with a fraction or not. What a digit is it leaves open: digits of any script are accepted
(`isPeriod_iff`), and among the durations with these are those with digits of ASCII
(`isPeriodOf_isDigit_iff`).

Neither a designator nor a dot is a digit. So the components of a text are found from the left,
whatever is left out (`components_written`).
-/

namespace WorkflowDsl.Format

/-! ## The grammar -/

/-- A component of a duration: a number, perhaps with a fraction, and what it counts. -/
structure Period.Component where
  whole : List Char
  fraction : Option (List Char)
  designator : Char

/-- The components of a duration, in the order written. -/
structure Period where
  date : List Period.Component
  time : List Period.Component

/-- One or more digits. -/
def Digits (digit : Char → Bool) (cs : List Char) : Prop := cs ≠ [] ∧ ∀ c ∈ cs, digit c = true

instance (digit : Char → Bool) (cs : List Char) : Decidable (Digits digit cs) :=
  @instDecidableAnd _ _ inferInstance (List.decidableBAll _ cs)

namespace Period

/-- The number of a component, with a dot before the fraction. -/
def Component.number (c : Component) : List Char := c.whole ++ behind '.' c.fraction

/-- What components look like, one behind another. -/
def written (cs : List Component) : List Char := cs.flatMap fun c => c.number ++ [c.designator]

/-- What a duration looks like. -/
def text (p : Period) : List Char :=
  'P' :: (written p.date ++ if p.time.isEmpty then [] else 'T' :: written p.time)

/-- The number is one of digits. -/
structure Component.IsOf (digit : Char → Bool) (c : Component) : Prop where
  whole : Digits digit c.whole
  fraction : ∀ f ∈ c.fraction, Digits digit f

instance (digit : Char → Bool) (c : Component) : Decidable (c.IsOf digit) :=
  decidable_of_iff (Digits digit c.whole ∧ ∀ f ∈ c.fraction, Digits digit f)
    ⟨fun ⟨hw, hf⟩ => ⟨hw, hf⟩, fun ⟨hw, hf⟩ => ⟨hw, hf⟩⟩

def dateDesignators : List Char := ['Y', 'M', 'W', 'D']

def timeDesignators : List Char := ['H', 'M', 'S']

/-- There are components, their designators stand in order, and their numbers are of digits. -/
structure IsOf (digit : Char → Bool) (p : Period) : Prop where
  date : (p.date.map (·.designator)).Sublist dateDesignators
  time : (p.time.map (·.designator)).Sublist timeDesignators
  numbers : ∀ c ∈ p.date ++ p.time, c.IsOf digit
  ne_nil : p.date ++ p.time ≠ []

end Period

open Period (written dateDesignators timeDesignators)

/-- The text of a duration with given digits. -/
def IsPeriodOf (digit : Char → Bool) (cs : List Char) : Prop :=
  ∃ p : Period, p.IsOf digit ∧ cs = p.text

/-- A text in `$` and braces, but for blanks around it. -/
def IsExpression (s : String) : Prop :=
  ∃ body, (Text.trim s).toList = '$' :: '\x7b' :: (body ++ ['\x7d'])

theorem isRuntimeExpression_iff {s : String} : isRuntimeExpression s = true ↔ IsExpression s := by
  rw [isRuntimeExpression, IsExpression]
  constructor
  · intro h
    split at h
    · next rest hs =>
      obtain ⟨body, hb⟩ := List.getLast?_eq_some_iff.1 (beq_iff_eq.1 h)
      exact ⟨body, by rw [hs, hb]⟩
    · cases h
  · rintro ⟨body, hs⟩
    rw [hs]
    simp

/-! ## Numbers and components -/

section

variable {c d : Char} {cs rest : List Char}

theorem digits?_append (hcs : Digits Text.isDecimalDigit cs)
    (hrest : ∀ c ∈ rest.head?, Text.isDecimalDigit c = false) :
    digits? (cs ++ rest) = some rest := by
  obtain ⟨hne, hcs⟩ := hcs
  have hd : (cs ++ rest).dropWhile Text.isDecimalDigit = rest := by
    rw [List.dropWhile_append_of_pos hcs]
    cases rest with
    | nil => rfl
    | cons c rest =>
      have hc : ¬Text.isDecimalDigit c = true := by
        rw [hrest c rfl]
        exact Bool.false_ne_true
      exact List.dropWhile_cons_of_neg hc
  obtain ⟨c, cs, rfl⟩ := List.exists_cons_of_ne_nil hne
  rw [digits?, hd, List.cons_append, List.head?_cons, Option.any_some,
    if_pos (hcs c List.mem_cons_self)]

theorem digits?_eq_none (h : ∀ c ∈ cs.head?, Text.isDecimalDigit c = false) :
    digits? cs = none := by
  rw [digits?, if_neg]
  cases cs with
  | nil => exact Bool.false_ne_true
  | cons c cs =>
    rw [List.head?_cons, Option.any_some, h c rfl]
    exact Bool.false_ne_true

theorem exists_of_digits? (h : digits? cs = some rest) :
    ∃ ds, Digits Text.isDecimalDigit ds ∧ cs = ds ++ rest := by
  rw [digits?] at h
  split at h
  · next hd =>
    obtain rfl := Option.some.inj h
    refine ⟨cs.takeWhile Text.isDecimalDigit, ⟨?_, fun _ => List.mem_takeWhile_imp⟩,
      List.takeWhile_append_dropWhile.symm⟩
    cases cs with
    | nil => cases hd
    | cons c cs =>
      have hc : Text.isDecimalDigit c = true := hd
      rw [List.takeWhile_cons_of_pos hc]
      exact List.cons_ne_nil _ _
  · cases h

/-- A designator ends a number: it is no digit and no dot. -/
def EndsNumber (c : Char) : Prop := Text.isDecimalDigit c = false ∧ c ≠ '.'

instance : Decidable (EndsNumber c) := inferInstanceAs (Decidable (_ ∧ _))

theorem isDecimalDigit_dot : Text.isDecimalDigit '.' = false := by decide

theorem decimal?_number {k : Period.Component} (hk : k.IsOf Text.isDecimalDigit)
    (hd : EndsNumber d) : decimal? (k.number ++ d :: rest) = some (d :: rest) := by
  obtain ⟨whole, fraction, designator⟩ := k
  obtain ⟨hw, hf⟩ := hk
  dsimp only at hw hf
  have hend : ∀ c ∈ (d :: rest).head?, Text.isDecimalDigit c = false := by
    rintro c ⟨⟩
    exact hd.1
  rw [decimal?, Period.Component.number]
  cases fraction with
  | none =>
    rw [behind, List.append_nil, digits?_append hw hend, Option.map_some]
    split
    · next heq => exact absurd (List.cons.inj heq).1 hd.2
    · rfl
  | some f =>
    have hdot : ∀ c ∈ ('.' :: (f ++ d :: rest)).head?, Text.isDecimalDigit c = false := by
      rintro c ⟨⟩
      exact isDecimalDigit_dot
    rw [behind, List.append_assoc, List.cons_append, digits?_append hw hdot, Option.map_some]
    show some ((digits? (f ++ d :: rest)).getD _) = _
    rw [digits?_append (hf f rfl) hend, Option.getD_some]

theorem exists_of_decimal? (h : decimal? cs = some rest) :
    ∃ whole fraction, Digits Text.isDecimalDigit whole ∧
      (∀ f ∈ fraction, Digits Text.isDecimalDigit f) ∧
        cs = whole ++ behind '.' fraction ++ rest := by
  rw [decimal?, Option.map_eq_some_iff] at h
  obtain ⟨r, hr, h⟩ := h
  obtain ⟨whole, hw, rfl⟩ := exists_of_digits? hr
  have hwhole (he : r = rest) : ∃ whole' fraction, Digits Text.isDecimalDigit whole' ∧
      (∀ f ∈ fraction, Digits Text.isDecimalDigit f) ∧
        whole ++ r = whole' ++ behind '.' fraction ++ rest :=
    ⟨whole, none, hw, nofun, by rw [he, behind, List.append_nil]⟩
  split at h
  · next fraction =>
    cases hd : digits? fraction with
    | none =>
      rw [hd, Option.getD_none] at h
      exact hwhole h
    | some r =>
      rw [hd, Option.getD_some] at h
      obtain rfl := h
      obtain ⟨f, hf, rfl⟩ := exists_of_digits? hd
      refine ⟨whole, some f, hw, ?_, ?_⟩
      · rintro _ ⟨⟩
        exact hf
      · rw [behind, List.append_assoc, List.cons_append]
  · exact hwhole h

/-- A component that stands at the start is taken if it has the designator. -/
theorem component_number {k : Period.Component} (hk : k.IsOf Text.isDecimalDigit)
    (hd : EndsNumber k.designator) (d : Char) :
    component d (k.number ++ k.designator :: rest) =
      if k.designator = d then rest else k.number ++ k.designator :: rest := by
  rw [component, decimal?_number hk hd]
  simp only [beq_iff_eq]

theorem component_of_head? (h : ∀ c ∈ cs.head?, Text.isDecimalDigit c = false) (d : Char) :
    component d cs = cs := by
  rw [component, decimal?, digits?_eq_none h]
  rfl

/-- What is taken is nothing, or a component with the designator. -/
theorem component_cases (d : Char) (cs : List Char) : component d cs = cs ∨
    ∃ k : Period.Component, k.IsOf Text.isDecimalDigit ∧ k.designator = d ∧
      cs = k.number ++ d :: component d cs := by
  rw [component]
  split
  · next c rest h =>
    split
    · next hc =>
      obtain rfl := beq_iff_eq.1 hc
      obtain ⟨whole, fraction, hw, hf, he⟩ := exists_of_decimal? h
      exact .inr ⟨⟨whole, fraction, c⟩, ⟨hw, hf⟩, rfl, he⟩
    · exact .inl rfl
  · exact .inl rfl

/-! ## Lists of components -/

theorem written_cons (k : Period.Component) (ks : List Period.Component) :
    written (k :: ks) = k.number ++ k.designator :: written ks := by
  rw [written, List.flatMap_cons, List.append_assoc]
  rfl

variable {ks : List Period.Component} {ds : List Char}

/-- **All components are taken that stand at the start.** The designators are distinct, so that none
is taken for one that is left out. -/
theorem components_written (hds : ds.Nodup) (hend : ∀ d ∈ ds, EndsNumber d)
    (hs : (ks.map (·.designator)).Sublist ds) (hks : ∀ k ∈ ks, k.IsOf Text.isDecimalDigit)
    (hrest : ∀ c ∈ rest.head?, Text.isDecimalDigit c = false) :
    components ds (written ks ++ rest) = rest := by
  induction ds generalizing ks with
  | nil =>
    obtain rfl := List.map_eq_nil_iff.1 (List.sublist_nil.1 hs)
    rfl
  | cons d ds ih =>
    rw [List.nodup_cons] at hds
    rw [List.forall_mem_cons] at hend
    show components ds (component d (written ks ++ rest)) = rest
    cases ks with
    | nil =>
      have hc : component d (written [] ++ rest) = rest := component_of_head? hrest d
      have hs : (([] : List Period.Component).map (·.designator)).Sublist ds :=
        List.nil_sublist ds
      rw [hc]
      exact ih hds.2 hend.2 hs hks
    | cons k ks =>
      have hk := List.forall_mem_cons.1 hks
      have hek : EndsNumber k.designator :=
        List.forall_mem_cons.2 hend _ (hs.subset List.mem_cons_self)
      rw [written_cons, List.append_assoc, List.cons_append, component_number hk.1 hek]
      rw [List.map_cons] at hs
      split
      · next he =>
        rw [he] at hs
        exact ih hds.2 hend.2 (List.cons_sublist_cons.1 hs) hk.2
      · next he =>
        have hs : ((k :: ks).map (·.designator)).Sublist ds := by
          cases hs with
          | cons _ hs => exact hs
          | cons_cons => exact absurd rfl he
        rw [← List.cons_append, ← List.append_assoc, ← written_cons]
        exact ih hds.2 hend.2 hs hks

/-- What is taken are components with the designators. -/
theorem exists_of_components (ds cs : List Char) : ∃ ks : List Period.Component,
    (ks.map (·.designator)).Sublist ds ∧ (∀ k ∈ ks, k.IsOf Text.isDecimalDigit) ∧
      cs = written ks ++ components ds cs := by
  induction ds generalizing cs with
  | nil => exact ⟨[], List.Sublist.slnil, nofun, rfl⟩
  | cons d ds ih =>
    obtain ⟨ks, hs, hks, he⟩ := ih (component d cs)
    have hc : components (d :: ds) cs = components ds (component d cs) := rfl
    rw [← hc] at he
    rcases component_cases d cs with h | ⟨k, hk, rfl, h⟩
    · rw [h] at he
      exact ⟨ks, hs.cons d, hks, he⟩
    · refine ⟨k :: ks, hs.cons_cons _, List.forall_mem_cons.2 ⟨hk, hks⟩, ?_⟩
      rw [written_cons, List.append_assoc, List.cons_append, ← he, ← h]

/-- Components end with a designator. -/
theorem getLast?_written (h : ks ≠ []) :
    ∃ d ∈ ks.map (·.designator), (written ks).getLast? = some d := by
  obtain ⟨init, k, rfl⟩ : ∃ init k, ks = init ++ [k] :=
    ⟨_, _, (List.dropLast_append_getLast h).symm⟩
  refine ⟨k.designator, by simp, ?_⟩
  simp [written]

theorem written_ne_nil (h : ks ≠ []) : written ks ≠ [] := by
  obtain ⟨d, -, hl⟩ := getLast?_written h
  intro he
  rw [he] at hl
  cases hl

/-! ## Durations -/

/-- Components of a date, perhaps with a `T` and components of a time behind them. There may be none
of either. -/
structure IsFrame (date : List Period.Component) (time? : Option (List Period.Component))
    (cs : List Char) : Prop where
  dateOrder : (date.map (·.designator)).Sublist dateDesignators
  timeOrder : ∀ time ∈ time?, (time.map (·.designator)).Sublist timeDesignators
  numbers : ∀ k ∈ date ++ time?.getD [], k.IsOf Text.isDecimalDigit
  text : cs = 'P' :: (written date ++ behind 'T' (time?.map written))

theorem endsNumber_of_mem : ∀ d ∈ dateDesignators ++ timeDesignators, EndsNumber d ∧ d ≠ 'T' := by
  have h : ((dateDesignators ++ timeDesignators).all fun d => EndsNumber d ∧ d ≠ 'T') = true := by
    decide
  exact fun d hd => of_decide_eq_true (List.all_eq_true.1 h d hd)

-- The definition is opened at once for all texts: for one with `P` in front, what stands behind it
-- would be evaluated down to the table of digits.
theorem isPeriodFrame_cons {rest : List Char} :
    isPeriodFrame ('P' :: rest) = true ↔ components dateDesignators rest = [] ∨
      ∃ time, components dateDesignators rest = 'T' :: time ∧
        components timeDesignators time = [] := by
  rw [isPeriodFrame.eq_def]
  split
  · next r heq =>
    obtain rfl := (List.cons.inj heq).2
    rw [show components ['Y', 'M', 'W', 'D'] rest = components dateDesignators rest from rfl]
    split
    · next hn => exact iff_of_true rfl (.inl hn)
    · next time ht =>
      rw [ht, List.isEmpty_iff]
      constructor
      · exact fun h => .inr ⟨time, rfl, h⟩
      · rintro (h | ⟨_, he, h⟩)
        · cases h
        · obtain rfl := (List.cons.inj he).2
          exact h
    · next hn ht =>
      refine iff_of_false Bool.false_ne_true ?_
      rintro (h | ⟨time, h, -⟩)
      · exact hn h
      · exact ht time h
  · next hne => exact absurd rfl (hne rest)

theorem exists_of_isPeriodFrame (h : isPeriodFrame cs = true) :
    ∃ date time?, IsFrame date time? cs := by
  obtain ⟨rest, rfl⟩ : ∃ rest, cs = 'P' :: rest := by
    rw [isPeriodFrame.eq_def] at h
    split at h
    · next rest => exact ⟨rest, rfl⟩
    · cases h
  obtain ⟨date, hds, hd, he⟩ := exists_of_components dateDesignators rest
  rcases isPeriodFrame_cons.1 h with hn | ⟨time, ht, hn⟩
  · refine ⟨date, none, hds, nofun, ?_, ?_⟩
    · rwa [Option.getD_none, List.append_nil]
    · rw [hn] at he
      rw [he]
      rfl
  · obtain ⟨ks, hts, hk, hke⟩ := exists_of_components timeDesignators time
    refine ⟨date, some ks, hds, ?_, ?_, ?_⟩
    · rintro _ ⟨⟩
      exact hts
    · exact List.forall_mem_append.2 ⟨hd, hk⟩
    · rw [hn, List.append_nil] at hke
      rw [ht, hke] at he
      rw [he]
      rfl

theorem IsFrame.isPeriodFrame {date : List Period.Component}
    {time? : Option (List Period.Component)} (h : IsFrame date time? cs) :
    isPeriodFrame cs = true := by
  obtain ⟨hd, ht, hn, rfl⟩ := h
  rw [List.forall_mem_append] at hn
  have hend := List.forall_mem_append.1 endsNumber_of_mem
  have hdate (rest : List Char) (hrest : ∀ c ∈ rest.head?, Text.isDecimalDigit c = false) :
      components dateDesignators (written date ++ rest) = rest :=
    components_written (by decide) (fun d hd => (hend.1 d hd).1) hd hn.1 hrest
  rw [isPeriodFrame_cons]
  cases time? with
  | none => exact .inl (hdate [] nofun)
  | some time =>
    refine .inr ⟨written time, hdate ('T' :: written time) ?_, ?_⟩
    · rintro c ⟨⟩
      decide
    · have hc : components timeDesignators (written time ++ []) = [] :=
        components_written (by decide) (fun d hd => (hend.2 d hd).1) (ht time rfl) hn.2 nofun
      rwa [List.append_nil] at hc

/-- Where a text ends in a `T`, there are no components behind it. -/
theorem IsFrame.getLast?_eq_iff {date : List Period.Component}
    {time? : Option (List Period.Component)} (h : IsFrame date time? cs) :
    cs.getLast? = some 'T' ↔ time? = some [] := by
  obtain ⟨hd, ht, -, rfl⟩ := h
  have hne (init : List Char) {ks : List Period.Component} {ds : List Char} (hk : ks ≠ [])
      (hs : (ks.map (·.designator)).Sublist ds) (hds : ∀ d ∈ ds, d ≠ 'T') :
      (init ++ written ks).getLast? ≠ some 'T' := by
    obtain ⟨d, hd, hl⟩ := getLast?_written hk
    rw [List.getLast?_append, hl]
    exact fun he => hds d (hs.subset hd) (Option.some.inj he)
  have hend := List.forall_mem_append.1 endsNumber_of_mem
  constructor
  · intro h
    cases time? with
    | none =>
      refine absurd h ?_
      rw [Option.map_none, behind, List.append_nil]
      by_cases hk : date = []
      · subst hk
        decide
      · exact hne ['P'] hk hd fun d hd => (hend.1 d hd).2
    | some time =>
      by_cases hk : time = []
      · rw [hk]
      · refine absurd h ?_
        have he : 'P' :: (written date ++ behind 'T' ((some time).map written)) =
            ('P' :: (written date ++ ['T'])) ++ written time := by
          simp [behind]
        rw [he]
        exact hne _ hk (ht time rfl) fun d hd => (hend.2 d hd).2
  · rintro rfl
    show ('P' :: (written date ++ 'T' :: written [])).getLast? = some 'T'
    rw [← List.cons_append, List.getLast?_append]
    rfl

/-- **The texts that pass as durations are those in which digits of any script count.** -/
theorem isPeriod_iff : isPeriod cs = true ↔ IsPeriodOf Text.isDecimalDigit cs := by
  rw [isPeriod, Bool.and_eq_true, Bool.and_eq_true, decide_eq_true_eq, bne_iff_ne]
  constructor
  · rintro ⟨⟨hl, hT⟩, h⟩
    obtain ⟨date, time?, hf⟩ := exists_of_isPeriodFrame h
    rw [Ne, hf.getLast?_eq_iff] at hT
    obtain ⟨hd, ht, hn, rfl⟩ := hf
    cases time? with
    | none =>
      refine ⟨⟨date, []⟩, ⟨hd, List.nil_sublist _, hn, ?_⟩, rfl⟩
      rintro he
      rw [List.append_nil] at he
      subst he
      exact absurd hl (by decide)
    | some time =>
      have hk : time ≠ [] := fun he => hT (congrArg some he)
      refine ⟨⟨date, time⟩, ⟨hd, ht time rfl, hn, List.append_ne_nil_of_right_ne_nil _ hk⟩, ?_⟩
      rw [Period.text, if_neg (by simpa using hk)]
      rfl
  · rintro ⟨⟨date, time⟩, ⟨hd, ht, hn, hne⟩, rfl⟩
    dsimp only at hd ht hn hne
    have hf : IsFrame date (if time = [] then none else some time) (Period.text ⟨date, time⟩) := by
      rw [Period.text]
      split
      · next hk =>
        subst hk
        exact ⟨hd, nofun, hn, rfl⟩
      · next hk =>
        refine ⟨hd, ?_, hn, ?_⟩
        · rintro _ ⟨⟩
          exact ht
        · rw [if_neg (by simpa using hk)]
          rfl
    have hl : written date ++ (if time.isEmpty then [] else 'T' :: written time) ≠ [] := by
      by_cases hk : time = []
      · rw [hk, List.append_nil] at hne
        exact List.append_ne_nil_of_left_ne_nil (written_ne_nil hne) _
      · rw [if_neg (by simpa using hk)]
        exact List.append_ne_nil_of_right_ne_nil _ (List.cons_ne_nil _ _)
    refine ⟨⟨Nat.succ_lt_succ (List.length_pos_iff.2 hl), ?_⟩, hf.isPeriodFrame⟩
    · rw [Ne, hf.getLast?_eq_iff]
      split
      · exact nofun
      · next hk => exact fun he => hk (Option.some.inj he)

end

/-! ## Durations in ASCII -/

theorem Digits.imp {p q : Char → Bool} {cs : List Char} (h : Digits p cs)
    (hpq : ∀ c ∈ cs, p c = true → q c = true) : Digits q cs :=
  ⟨h.1, fun c hc => hpq c hc (h.2 c hc)⟩

theorem digits_isDigit_iff {cs : List Char} :
    Digits Char.isDigit cs ↔ Digits Text.isDecimalDigit cs ∧ IsAscii cs := by
  constructor
  · intro h
    exact ⟨h.imp fun c _ => isDecimalDigit_of_isDigit,
      isAscii_of_isLabelChar fun c hc => isLabelChar_of_isDigit (h.2 c hc)⟩
  · rintro ⟨h, ha⟩
    exact h.imp fun c hc hd => isDigit_of_isDecimalDigit hd (ha c hc)

namespace Period

variable {k : Component} {ks : List Component} {p : Period}

theorem Component.isOf_isDigit_iff :
    k.IsOf Char.isDigit ↔ k.IsOf Text.isDecimalDigit ∧ IsAscii k.number := by
  obtain ⟨whole, fraction, designator⟩ := k
  have ha : IsAscii (whole ++ behind '.' fraction) ↔
      IsAscii whole ∧ ∀ f ∈ fraction, IsAscii f := by
    rw [isAscii_append]
    refine and_congr_right fun _ => ?_
    cases fraction with
    | none => exact iff_of_true nofun nofun
    | some f =>
      rw [behind, isAscii_cons]
      constructor
      · rintro ⟨-, hf⟩ _ ⟨⟩
        exact hf
      · exact fun h => ⟨by decide, h f rfl⟩
  rw [Component.number, ha]
  constructor
  · rintro ⟨hw, hf⟩
    have hf' (f : List Char) (hm : f ∈ fraction) := digits_isDigit_iff.1 (hf f hm)
    exact ⟨⟨(digits_isDigit_iff.1 hw).1, fun f hm => (hf' f hm).1⟩,
      (digits_isDigit_iff.1 hw).2, fun f hm => (hf' f hm).2⟩
  · rintro ⟨⟨hw, hf⟩, haw, haf⟩
    exact ⟨digits_isDigit_iff.2 ⟨hw, haw⟩, fun f hm => digits_isDigit_iff.2 ⟨hf f hm, haf f hm⟩⟩

theorem isAscii_written {ds : List Char} (hs : (ks.map (·.designator)).Sublist ds)
    (hds : IsAscii ds) : IsAscii (written ks) ↔ ∀ k ∈ ks, IsAscii k.number := by
  have hd : ∀ k ∈ ks, k.designator.toNat < 128 := fun k hk =>
    hds _ (hs.subset (List.mem_map_of_mem hk))
  clear hs
  induction ks with
  | nil => exact iff_of_true nofun nofun
  | cons k ks ih =>
    rw [List.forall_mem_cons] at hd
    rw [written_cons, isAscii_append, isAscii_cons, List.forall_mem_cons]
    exact and_congr_right fun _ => (and_iff_right hd.1).trans (ih hd.2)

theorem IsOf.isAscii_text_iff {digit : Char → Bool} (hp : p.IsOf digit) :
    IsAscii p.text ↔ ∀ k ∈ p.date ++ p.time, IsAscii k.number := by
  have hds : IsAscii dateDesignators := by decide
  have hts : IsAscii timeDesignators := by decide
  have hd := isAscii_written hp.date hds
  have ht := isAscii_written hp.time hts
  have hT : IsAscii (if p.time.isEmpty then [] else 'T' :: written p.time) ↔
      ∀ k ∈ p.time, IsAscii k.number := by
    split
    · next he =>
      rw [List.isEmpty_iff.1 he]
      exact iff_of_true nofun nofun
    · rw [isAscii_cons, ht]
      exact and_iff_right (by decide)
  rw [text, isAscii_cons, isAscii_append, hd, hT, List.forall_mem_append]
  exact and_iff_right (by decide)

/-- The digits of a duration are those of ASCII if and only if it is a text of ASCII. -/
theorem isOf_isDigit_iff : p.IsOf Char.isDigit ↔ p.IsOf Text.isDecimalDigit ∧ IsAscii p.text := by
  constructor
  · intro hp
    have hn (k : Component) (hk : k ∈ p.date ++ p.time) :=
      Component.isOf_isDigit_iff.1 (hp.numbers k hk)
    exact ⟨⟨hp.date, hp.time, fun k hk => (hn k hk).1, hp.ne_nil⟩,
      hp.isAscii_text_iff.2 fun k hk => (hn k hk).2⟩
  · rintro ⟨hp, ha⟩
    have ha := hp.isAscii_text_iff.1 ha
    exact ⟨hp.date, hp.time,
      fun k hk => Component.isOf_isDigit_iff.2 ⟨hp.numbers k hk, ha k hk⟩, hp.ne_nil⟩

end Period

theorem isPeriodOf_isDigit_iff {cs : List Char} :
    IsPeriodOf Char.isDigit cs ↔ IsPeriodOf Text.isDecimalDigit cs ∧ IsAscii cs := by
  constructor
  · rintro ⟨p, hp, rfl⟩
    obtain ⟨hp, ha⟩ := Period.isOf_isDigit_iff.1 hp
    exact ⟨⟨p, hp, rfl⟩, ha⟩
  · rintro ⟨⟨p, hp, rfl⟩, ha⟩
    exact ⟨p, Period.isOf_isDigit_iff.2 ⟨hp, ha⟩, rfl⟩

theorem not_isExpression_of_isPeriodOf {digit : Char → Bool} {s : String}
    (h : IsPeriodOf digit s.toList) : ¬IsExpression s := by
  rintro ⟨body, hb⟩
  obtain ⟨p, -, hp⟩ := h
  have ht : (Text.trim s).toList = s.toList.rdropWhile Text.isBlank := by
    rw [Text.trim, String.toList_ofList, hp, Period.text,
      List.dropWhile_cons_of_neg (by decide)]
    rfl
  obtain ⟨r, hr⟩ := List.rdropWhile_prefix Text.isBlank (l := s.toList)
  rw [← ht, hb, hp] at hr
  cases hr

end WorkflowDsl.Format
