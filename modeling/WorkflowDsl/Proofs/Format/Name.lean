import Mathlib.Tactic.MkIffOfInductiveProp
import WorkflowDsl.Format.Name

/-!
# Which texts are names

A name is a label of a host name: `IsHostLabel` says so by the characters that a text has, by their
number, and by those at its ends. The check of names goes by a pattern instead: a letter or digit,
and then perhaps up to 61 characters before another letter or digit. Both are the same
(`isLabel_iff`): one character is its own first and last, and of more characters two stand at the
ends, so that 61 between them are 63 together.
-/

namespace WorkflowDsl.Format

/-! ## Labels of host names -/

/-- A letter or digit of ASCII. -/
def IsLetterOrDigit (c : Char) : Prop :=
  ('A' ≤ c ∧ c ≤ 'Z') ∨ ('a' ≤ c ∧ c ≤ 'z') ∨ ('0' ≤ c ∧ c ≤ '9')

/-- A label has from 1 to 63 letters, digits and hyphens, with no hyphen at either end. -/
@[mk_iff isHostLabel_iff]
structure IsHostLabel (s : String) : Prop where
  one_le_length : 1 ≤ s.length
  length_le : s.length ≤ 63
  chars : ∀ c ∈ s.toList, IsLetterOrDigit c ∨ c = '-'
  head_ne : s.toList.head? ≠ some '-'
  last_ne : s.toList.getLast? ≠ some '-'

theorem isAlphanum_iff {c : Char} : c.isAlphanum = true ↔ IsLetterOrDigit c := by
  unfold Char.isAlphanum Char.isAlpha Char.isUpper Char.isLower Char.isDigit IsLetterOrDigit
  simp only [Bool.or_eq_true, decide_eq_true_eq, Bool.and_eq_true, ge_iff_le, Char.le_def,
    or_assoc]

theorem isLabelChar_iff {c : Char} : isLabelChar c = true ↔ IsLetterOrDigit c ∨ c = '-' := by
  simp [isLabelChar, isAlphanum_iff]

theorem not_isLetterOrDigit_hyphen : ¬IsLetterOrDigit '-' := by
  rw [← isAlphanum_iff]
  decide

/-- What is a letter, a digit or a hyphen, but no hyphen, is a letter or a digit. -/
theorem isLetterOrDigit_iff {c : Char} :
    IsLetterOrDigit c ↔ (IsLetterOrDigit c ∨ c = '-') ∧ c ≠ '-' := by
  constructor
  · intro h
    refine ⟨.inl h, ?_⟩
    rintro rfl
    exact not_isLetterOrDigit_hyphen h
  · rintro ⟨h | h, hne⟩
    · exact h
    · exact absurd h hne

/-! ## The pattern -/

/-- A text has no characters, one, or a first and a last one. -/
theorem eq_nil_or_singleton_or_ends (cs : List Char) :
    cs = [] ∨ (∃ c, cs = [c]) ∨ ∃ first middle last, cs = first :: (middle ++ [last]) := by
  rcases cs with _ | ⟨first, _ | ⟨second, rest⟩⟩
  · exact .inl rfl
  · exact .inr (.inl ⟨first, rfl⟩)
  · have hr : second :: rest ≠ [] := List.cons_ne_nil second rest
    refine .inr (.inr ⟨first, (second :: rest).dropLast, (second :: rest).getLast hr, ?_⟩)
    rw [List.dropLast_concat_getLast hr]

theorem isLabel_singleton {c : Char} : isLabel [c] = true ↔ IsLetterOrDigit c := by
  simp [isLabel, isAlphanum_iff]

/-- Two letters or digits stand around at most 61 characters. -/
theorem isLabel_ends {first last : Char} {middle : List Char} :
    isLabel (first :: (middle ++ [last])) = true ↔
      IsLetterOrDigit first ∧ middle.length ≤ 61 ∧
        (∀ c ∈ middle, IsLetterOrDigit c ∨ c = '-') ∧ IsLetterOrDigit last := by
  unfold isLabel
  split
  · next h => simp at h
  · next h => simp at h
  · next h =>
    obtain ⟨rfl, rfl⟩ := List.cons.inj h
    simp only [List.length_append, List.length_singleton, List.dropLast_concat,
      List.getLast?_concat, Option.any_some, Bool.and_eq_true, decide_eq_true_eq,
      List.all_eq_true, isAlphanum_iff, isLabelChar_iff, and_assoc]
    have hl : middle.length + 1 ≤ 62 ↔ middle.length ≤ 61 := by omega
    rw [hl]

/-- **The pattern accepts the labels, and nothing else.** -/
theorem isLabel_iff (s : String) : isLabel s.toList = true ↔ IsHostLabel s := by
  rw [isHostLabel_iff, ← String.length_toList]
  rcases eq_nil_or_singleton_or_ends s.toList with h | ⟨c, h⟩ | ⟨first, middle, last, h⟩
  · rw [h]
    simp [isLabel]
  · rw [h, isLabel_singleton, isLetterOrDigit_iff]
    simp
  · have hl : (first :: (middle ++ [last])).length = middle.length + 2 := by simp
    have hh : (first :: (middle ++ [last])).head? = some first := rfl
    have ht : (first :: (middle ++ [last])).getLast? = some last := by
      rw [← List.cons_append, List.getLast?_concat]
    rw [h, isLabel_ends, isLetterOrDigit_iff, isLetterOrDigit_iff (c := last), hl, hh, ht,
      List.forall_mem_cons, List.forall_mem_append, List.forall_mem_singleton]
    simp only [ne_eq, Option.some.injEq]
    constructor
    · rintro ⟨⟨hf, hf'⟩, hm, hc, hl, hl'⟩
      exact ⟨by omega, by omega, ⟨hf, hc, hl⟩, hf', hl'⟩
    · rintro ⟨-, hm, ⟨hf, hc, hl⟩, hf', hl'⟩
      exact ⟨⟨hf, hf'⟩, by omega, hc, hl, hl'⟩

/-- **A text passes as a name if and only if it is a label of a host name.** Any other is refused,
and named in the refusal. -/
theorem checkName_eq_ok_iff (field value : String) :
    (checkName field value = .ok () ↔ IsHostLabel value) ∧
      (checkName field value = .error (.invalidFormat field value "must be a RFC1123 label") ↔
        ¬IsHostLabel value) := by
  unfold checkName
  rw [← isLabel_iff]
  split
  · next h => simp [h]
  · next h => simp [h]

end WorkflowDsl.Format
