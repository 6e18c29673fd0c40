import WorkflowDsl.Duration
import WorkflowDsl.Proofs.Format.Period

/-!
# Lengths that are read back

The length of a duration is not read by the rules that tell which texts are durations. It is read
from numbers with the character behind each (`Duration.marks`), and a number is one of digits of
ASCII and dots. So the components that are written are found if and only if there are no other
digits (`Format.Period.IsOf.marks_eq_iff`). Then the length is the sum of the components
(`Format.Period.IsOf.toMillis?_text`).
-/

namespace WorkflowDsl

namespace Duration

/-! ## What is read -/

/-- What is read as a date: all before the first `T`, but for the `P`. -/
def datePart (cs : List Char) : List Char :=
  let date := cs.takeWhile (· != 'T')
  if date.head? == some 'P' then date.drop 1 else date

/-- What is read as a time: all behind the first `T`. -/
def timePart (cs : List Char) : List Char := (cs.dropWhile (· != 'T')).drop 1

/-- The numbers of a date and of a time as they are read, each with the character behind it. -/
def marks (s : String) : List (String × Char) × List (String × Char) :=
  (marked [] (datePart s.toList), marked [] (timePart s.toList))

/-- The sum of numbers, each in the unit of the character behind it. -/
def total (unit : Char → Float) (ms : List (String × Char)) : Float :=
  ms.foldl (fun total m => total + (numberValue m.1).toFloat * unit m.2) 0

theorem textMillis_eq (s : String) :
    textMillis s = (total dateUnit (marks s).1 + total timeUnit (marks s).2).toUInt64 := rfl

variable {cs rest number : List Char} {c : Char}

/-- A number is read with the character that ends it. -/
theorem marked_append (hcs : ∀ c ∈ cs, c.isDigit = true ∨ c = '.') (hne : number ++ cs ≠ [])
    (hc : ¬(c.isDigit = true ∨ c = '.')) :
    marked number (cs ++ c :: rest) = (String.ofList (number ++ cs), c) :: marked [] rest := by
  have hcond (c : Char) : (c.isDigit || c == '.') = true ↔ c.isDigit = true ∨ c = '.' := by
    rw [Bool.or_eq_true, beq_iff_eq]
  induction cs generalizing number with
  | nil =>
    rw [List.append_nil] at hne ⊢
    rw [List.nil_append, marked, if_neg ((hcond c).not.2 hc), if_neg (by simpa using hne)]
  | cons d cs ih =>
    rw [List.forall_mem_cons] at hcs
    rw [List.cons_append, marked, if_pos ((hcond d).2 hcs.1), ih hcs.2 (by simp)]
    simp

/-- What is read as numbers are digits of ASCII and dots. -/
theorem isDigit_of_mem_marked (hn : ∀ c ∈ number, c.isDigit = true ∨ c = '.')
    {m : String × Char} (hm : m ∈ marked number cs) :
    ∀ c ∈ m.1.toList, c.isDigit = true ∨ c = '.' := by
  induction cs generalizing number with
  | nil => cases hm
  | cons d cs ih =>
    rw [marked] at hm
    split at hm
    · next hd =>
      refine ih (List.forall_mem_append.2 ⟨hn, List.forall_mem_singleton.2 ?_⟩) hm
      rwa [Bool.or_eq_true, beq_iff_eq] at hd
    · split at hm
      · exact ih (List.forall_mem_nil _) hm
      · rcases List.mem_cons.1 hm with rfl | hm
        · rwa [String.toList_ofList]
        · exact ih (List.forall_mem_nil _) hm

end Duration

namespace Format.Period

/-! ## What is written -/

open Duration (datePart marked numberValue textMillis timePart total)

variable {k : Component} {ks : List Component} {p : Period} {digit : Char → Bool}

/-- The number of a component, and what it counts. -/
def Component.mark (k : Component) : String × Char := (String.ofList k.number, k.designator)

/-- What is to be read of a duration. -/
def marks (p : Period) : List (String × Char) × List (String × Char) :=
  (p.date.map Component.mark, p.time.map Component.mark)

/-- The number of a component as a decimal fraction, to the nearest number of 64 bits. -/
def Component.value (k : Component) : Binary64 :=
  let fraction := k.fraction.getD []
  .ofDecimal ⟨Nat.ofDigitChars 10 (k.whole ++ fraction) 0, -(fraction.length : Int)⟩

/-- The sum of components, each in its unit. -/
def sum (unit : Char → Float) (ks : List Component) : Float :=
  ks.foldl (fun sum k => sum + k.value.toFloat * unit k.designator) 0

/-- The length of a duration in milliseconds. -/
def millis (p : Period) : UInt64 :=
  (sum Duration.dateUnit p.date + sum Duration.timeUnit p.time).toUInt64

theorem Component.IsOf.isDigit_or_dot (hk : k.IsOf Char.isDigit) :
    ∀ c ∈ k.number, c.isDigit = true ∨ c = '.' := by
  obtain ⟨whole, fraction, designator⟩ := k
  obtain ⟨hw, hf⟩ := hk
  refine List.forall_mem_append.2 ⟨fun c hc => .inl (hw.2 c hc), ?_⟩
  cases fraction with
  | none => exact List.forall_mem_nil _
  | some f => exact List.forall_mem_cons.2 ⟨.inr rfl, fun c hc => .inl ((hf f rfl).2 c hc)⟩

/-- The numbers that are written are read. -/
theorem marked_written (hk : ∀ k ∈ ks, k.IsOf Char.isDigit)
    (hd : ∀ k ∈ ks, EndsNumber k.designator) : marked [] (written ks) = ks.map Component.mark := by
  induction ks with
  | nil => rfl
  | cons k ks ih =>
    rw [List.forall_mem_cons] at hk hd
    have hend : ¬(k.designator.isDigit = true ∨ k.designator = '.') := by
      rintro (h | h)
      · rw [EndsNumber, isDecimalDigit_of_isDigit h] at hd
        cases hd.1.1
      · exact hd.1.2 h
    have hne : [] ++ k.number ≠ [] := List.append_ne_nil_of_left_ne_nil hk.1.whole.1 _
    rw [written_cons, Duration.marked_append hk.1.isDigit_or_dot hne hend, ih hk.2 hd.2]
    rfl

theorem IsOf.endsNumber (hp : p.IsOf digit) :
    (∀ k ∈ p.date, EndsNumber k.designator ∧ k.designator ≠ 'T') ∧
      ∀ k ∈ p.time, EndsNumber k.designator ∧ k.designator ≠ 'T' := by
  obtain ⟨hd, ht⟩ := List.forall_mem_append.1 endsNumber_of_mem
  exact ⟨fun k hk => hd _ (hp.date.subset (List.mem_map_of_mem hk)),
    fun k hk => ht _ (hp.time.subset (List.mem_map_of_mem hk))⟩

/-- The date ends at the `T`: there is none inside of it. -/
theorem ne_T_of_mem_written (hk : ∀ k ∈ ks, k.IsOf Text.isDecimalDigit)
    (hd : ∀ k ∈ ks, k.designator ≠ 'T') : ∀ c ∈ written ks, (c != 'T') = true := by
  have hdigits {cs : List Char} (h : Digits Text.isDecimalDigit cs) : ∀ c ∈ cs, c ≠ 'T' := by
    rintro c hc rfl
    exact absurd (h.2 _ hc) (by decide)
  intro c hc
  rw [bne_iff_ne]
  obtain ⟨⟨whole, fraction, designator⟩, hm, hc⟩ := List.mem_flatMap.1 hc
  obtain ⟨hw, hf⟩ := hk _ hm
  rcases List.mem_append.1 hc with hc | hc
  · rcases List.mem_append.1 hc with hc | hc
    · exact hdigits hw c hc
    · cases fraction with
      | none => cases hc
      | some f =>
        rcases List.mem_cons.1 hc with rfl | hc
        · decide
        · exact hdigits (hf f rfl) c hc
  · rw [List.mem_singleton.1 hc]
    exact hd _ hm

section

variable (hp : p.IsOf Text.isDecimalDigit)
include hp

theorem IsOf.datePart_text : datePart p.text = written p.date := by
  obtain ⟨hd, -⟩ := List.forall_mem_append.1 hp.numbers
  have hT := ne_T_of_mem_written hd fun k hk => (hp.endsNumber.1 k hk).2
  have ht : p.text.takeWhile (· != 'T') = 'P' :: written p.date := by
    rw [text, List.takeWhile_cons_of_pos (by decide), List.takeWhile_append_of_pos hT]
    split <;> simp
  rw [datePart, ht]
  rfl

theorem IsOf.timePart_text : timePart p.text = written p.time := by
  obtain ⟨hd, -⟩ := List.forall_mem_append.1 hp.numbers
  have hT := ne_T_of_mem_written hd fun k hk => (hp.endsNumber.1 k hk).2
  rw [timePart, text, List.dropWhile_cons_of_pos (by decide), List.dropWhile_append_of_pos hT]
  split
  · next he =>
    rw [List.isEmpty_iff.1 he]
    rfl
  · rw [List.dropWhile_cons_of_neg (by decide)]
    rfl

theorem IsOf.marks_text : Duration.marks (String.ofList p.text) =
    (marked [] (written p.date), marked [] (written p.time)) := by
  rw [Duration.marks, String.toList_ofList, hp.datePart_text, hp.timePart_text]

/-- **A duration is read as its components if and only if it is a text of ASCII.** -/
theorem IsOf.marks_eq_iff : Duration.marks (String.ofList p.text) = p.marks ↔ IsAscii p.text := by
  rw [hp.marks_text, hp.isAscii_text_iff]
  constructor
  · -- What is read are digits of ASCII, and so are thus the numbers that are written.
    intro h
    obtain ⟨hd, ht⟩ := Prod.mk.inj h
    have hn (m : String × Char) (hm : m ∈ (p.date ++ p.time).map Component.mark) :
        ∀ c ∈ m.1.toList, c.isDigit = true ∨ c = '.' := by
      rw [List.map_append, ← hd, ← ht] at hm
      rcases List.mem_append.1 hm with hm | hm
      · exact Duration.isDigit_of_mem_marked (List.forall_mem_nil _) hm
      · exact Duration.isDigit_of_mem_marked (List.forall_mem_nil _) hm
    intro k hk c hc
    have hm := hn _ (List.mem_map_of_mem hk) c (by rwa [Component.mark, String.toList_ofList])
    rcases hm with h | rfl
    · have h : 48 ≤ c.toNat ∧ c.toNat ≤ 57 := Char.isDigit_iff_toNat.1 h
      omega
    · decide
  · intro ha
    have hk (k : Component) (hk : k ∈ p.date ++ p.time) : k.IsOf Char.isDigit :=
      Component.isOf_isDigit_iff.2 ⟨hp.numbers k hk, ha k hk⟩
    obtain ⟨hd, ht⟩ := List.forall_mem_append.1 hk
    rw [marked_written hd fun k hk => (hp.endsNumber.1 k hk).1,
      marked_written ht fun k hk => (hp.endsNumber.2 k hk).1]
    rfl

end

/-- The number of a component is read as the decimal fraction that it is. -/
theorem Component.IsOf.numberValue_number (hk : k.IsOf Char.isDigit) :
    numberValue (String.ofList k.number) = k.value := by
  obtain ⟨whole, fraction, designator⟩ := k
  obtain ⟨hw, hf⟩ := hk
  dsimp only at hw hf
  have hdot {cs : List Char} (h : Digits Char.isDigit cs) : ∀ c ∈ cs, (c != '.') = true := by
    intro c hc
    rw [bne_iff_ne]
    rintro rfl
    exact absurd (h.2 _ hc) (by decide)
  have ht : (whole ++ behind '.' fraction).takeWhile (· != '.') = whole := by
    rw [List.takeWhile_append_of_pos (hdot hw)]
    cases fraction <;> simp [behind]
  have hd : ((whole ++ behind '.' fraction).dropWhile (· != '.')).drop 1 = fraction.getD [] := by
    rw [List.dropWhile_append_of_pos (hdot hw)]
    cases fraction <;> simp [behind]
  have hall : (fraction.getD []).all Char.isDigit = true := by
    cases fraction with
    | none => rfl
    | some f => exact List.all_eq_true.2 (hf f rfl).2
  have hne : (whole ++ fraction.getD []).isEmpty = false := by
    simp [hw.1]
  rw [numberValue, Component.number, String.toList_ofList, ht, hd]
  simp [hall, hne, Component.value, Nat.ofDigitChars_eq_foldl, Nat.mul_comm]

/-- **The length of a duration of ASCII is the sum of its components.** -/
theorem IsOf.toMillis?_text (hp : p.IsOf Char.isDigit) :
    Duration.toMillis? (.text (String.ofList p.text)) = some p.millis.toNat := by
  obtain ⟨hw, ha⟩ := isOf_isDigit_iff.1 hp
  have htotal (unit : Char → Float) {ks : List Component} (hk : ∀ k ∈ ks, k.IsOf Char.isDigit) :
      total unit (ks.map Component.mark) = sum unit ks := by
    rw [total, List.foldl_map, sum]
    refine List.foldl_ext _ _ _ fun x k hm => ?_
    rw [Component.mark, (hk k hm).numberValue_number]
  obtain ⟨hd, ht⟩ := List.forall_mem_append.1 hp.numbers
  have he : isRuntimeExpression (String.ofList p.text) = false := by
    rw [← Bool.not_eq_true, isRuntimeExpression_iff]
    exact not_isExpression_of_isPeriodOf ⟨p, hp, String.toList_ofList⟩
  rw [Duration.toMillis?, he, if_neg Bool.false_ne_true, Duration.textMillis_eq,
    hw.marks_eq_iff.2 ha, marks, htotal _ hd, htotal _ ht, millis]

end Format.Period

/-! ## Texts that pass -/

open Format

/-- **A text passes as a duration if and only if it is an expression, or a duration in which digits
of any script count. The durations with digits of ASCII are those among them that are texts of
ASCII, and only of these the length is read from the components that are written.** -/
theorem Format.checkPeriod_eq_ok_iff (field value : String) :
    (checkPeriod field value = .ok () ↔
        IsExpression value ∨ IsPeriodOf Text.isDecimalDigit value.toList) ∧
      (IsPeriodOf Char.isDigit value.toList ↔
        checkPeriod field value = .ok () ∧ ¬IsExpression value ∧ IsAscii value.toList) ∧
      ∀ p : Period, p.IsOf Text.isDecimalDigit → value.toList = p.text →
        (Duration.marks value = p.marks ↔ IsAscii value.toList) ∧
          (IsAscii value.toList → Duration.toMillis? (.text value) = some p.millis.toNat) := by
  have hok : checkPeriod field value = .ok () ↔
      IsExpression value ∨ IsPeriodOf Text.isDecimalDigit value.toList := by
    rw [checkPeriod, ← isRuntimeExpression_iff, ← isPeriod_iff, ← Bool.or_eq_true]
    split
    · next h => exact iff_of_true rfl h
    · next h => exact iff_of_false nofun h
  refine ⟨hok, ?_, fun p hp hv => ?_⟩
  · rw [hok, isPeriodOf_isDigit_iff]
    constructor
    · rintro ⟨h, ha⟩
      exact ⟨.inr h, not_isExpression_of_isPeriodOf h, ha⟩
    · rintro ⟨h, hn, ha⟩
      exact ⟨h.resolve_left hn, ha⟩
  · have he : value = String.ofList p.text := by rw [← hv, String.ofList_toList]
    rw [he, String.toList_ofList]
    exact ⟨hp.marks_eq_iff, fun ha => (Period.isOf_isDigit_iff.2 ⟨hp, ha⟩).toMillis?_text⟩

/-- A day and two and a half hours. -/
theorem Format.checkPeriod_eq_ok_iff_dayAndHours :
    checkPeriod "wait" "P1DT2.5H" = .ok () ∧
      Duration.marks "P1DT2.5H" = ([("1", 'D')], [("2.5", 'H')]) := by
  let p : Period := ⟨[⟨['1'], none, 'D'⟩], [⟨['2'], some ['5'], 'H'⟩]⟩
  have hp : p.IsOf Text.isDecimalDigit :=
    ⟨by decide, by decide, by decide, List.cons_ne_nil _ _⟩
  obtain ⟨hok, -, hread⟩ := checkPeriod_eq_ok_iff "wait" "P1DT2.5H"
  have ha : IsAscii "P1DT2.5H".toList := by decide
  exact ⟨hok.2 (.inr ⟨p, hp, rfl⟩), (hread p hp rfl).1.2 ha⟩

/-- An Arabic-Indic digit counts, but is not read as a number. -/
example : Format.isPeriod "P٣D".toList = true ∧ Duration.marks "P٣D" = ([], []) := by decide

end WorkflowDsl
