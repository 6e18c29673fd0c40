import Mathlib.Data.List.Basic
import Mathlib.Data.List.TakeWhile
import WorkflowDsl.Url.Host

/-!
# Texts between marks

`Url.splitAt` gives the parts of a text that stand between marks. At a mark it splits the text into
what comes before and what comes behind (`Url.splitAt_append_cons`), so that a text is a single part
or starts with the part before its first mark (`Url.splitAt_cases`).

Letters stand in two ranges of characters (`toNat_of_isAlpha`).
-/

namespace WorkflowDsl

theorem toNat_of_isAlpha {c : Char} (h : c.isAlpha = true) :
    65 ≤ c.toNat ∧ c.toNat ≤ 90 ∨ 97 ≤ c.toNat ∧ c.toNat ≤ 122 := by
  have h : (c.isUpper || c.isLower) = true := h
  rcases Bool.or_eq_true_iff.1 h with h | h
  · have h : 65 ≤ c.val ∧ c.val ≤ 90 := of_decide_eq_true h
    exact .inl ⟨UInt32.le_iff_toNat_le.1 h.1, UInt32.le_iff_toNat_le.1 h.2⟩
  · have h : (decide (97 ≤ c.val) && decide (c.val ≤ 122)) = true := h
    obtain ⟨h₁, h₂⟩ := Bool.and_eq_true_iff.1 h
    exact .inr ⟨UInt32.le_iff_toNat_le.1 (of_decide_eq_true h₁),
      UInt32.le_iff_toNat_le.1 (of_decide_eq_true h₂)⟩

/-! ## The first place of a character -/

section

variable {mark : Char} {cs : List Char}

theorem bne_of_not_mem (h : mark ∉ cs) : ∀ c ∈ cs, (c != mark) = true := by
  intro c hc
  rw [bne_iff_ne]
  rintro rfl
  exact h hc

theorem dropWhile_bne_of_not_mem (h : mark ∉ cs) : cs.dropWhile (· != mark) = [] :=
  List.dropWhile_eq_nil_iff.2 (bne_of_not_mem h)

theorem dropWhile_bne_append_cons (h : mark ∉ cs) (rest : List Char) :
    (cs ++ mark :: rest).dropWhile (· != mark) = mark :: rest := by
  rw [List.dropWhile_append_of_pos (bne_of_not_mem h)]
  simp

end

/-! ## Parts -/

namespace Url

variable {isMark : Char → Bool} {cs : List Char}

theorem splitAt_ne_nil (isMark : Char → Bool) (cs : List Char) : splitAt isMark cs ≠ [] := by
  cases cs with
  | nil => exact List.cons_ne_nil _ _
  | cons c cs =>
    rw [splitAt]
    split
    · exact List.cons_ne_nil _ _
    · split <;> exact List.cons_ne_nil _ _

/-- A text without marks is its only part. -/
theorem splitAt_of_forall (h : ∀ c ∈ cs, isMark c = false) : splitAt isMark cs = [cs] := by
  induction cs with
  | nil => rfl
  | cons c cs ih =>
    rw [List.forall_mem_cons] at h
    rw [splitAt, h.1, if_neg Bool.false_ne_true, ih h.2]

/-- The parts of a text are those before a mark and those behind it. -/
theorem splitAt_append_cons (isMark : Char → Bool) {mark : Char} (hm : isMark mark = true)
    (cs rest : List Char) :
    splitAt isMark (cs ++ mark :: rest) = splitAt isMark cs ++ splitAt isMark rest := by
  induction cs with
  | nil =>
    change splitAt isMark (mark :: rest) = [] :: splitAt isMark rest
    rw [splitAt, if_pos hm]
  | cons c cs ih =>
    rw [List.cons_append, splitAt, splitAt, ih]
    split
    · rfl
    · obtain ⟨part, parts, hp⟩ := List.exists_cons_of_ne_nil (splitAt_ne_nil isMark cs)
      rw [hp]
      rfl

/-- The first part of a text is all of it, or ends at the first mark. -/
theorem splitAt_cases (isMark : Char → Bool) (cs : List Char) :
    ((∀ c ∈ cs, isMark c = false) ∧ splitAt isMark cs = [cs]) ∨
      ∃ part mark rest, cs = part ++ mark :: rest ∧ (∀ c ∈ part, isMark c = false) ∧
        isMark mark = true ∧ splitAt isMark cs = part :: splitAt isMark rest := by
  induction cs with
  | nil => exact .inl ⟨nofun, rfl⟩
  | cons c cs ih =>
    cases hc : isMark c with
    | true =>
      refine .inr ⟨[], c, cs, rfl, nofun, hc, ?_⟩
      rw [splitAt, if_pos hc]
    | false =>
      rcases ih with ⟨hcs, -⟩ | ⟨part, mark, rest, rfl, hpart, hm, -⟩
      · have hall : ∀ x ∈ c :: cs, isMark x = false := List.forall_mem_cons.2 ⟨hc, hcs⟩
        exact .inl ⟨hall, splitAt_of_forall hall⟩
      · have hall : ∀ x ∈ c :: part, isMark x = false := List.forall_mem_cons.2 ⟨hc, hpart⟩
        refine .inr ⟨c :: part, mark, rest, rfl, hall, hm, ?_⟩
        rw [← List.cons_append, splitAt_append_cons isMark hm, splitAt_of_forall hall]
        rfl

/-- What is no mark stands in one of the parts. -/
theorem exists_mem_splitAt {c : Char} (hm : c ∈ cs) (h : isMark c = false) :
    ∃ part ∈ splitAt isMark cs, c ∈ part := by
  induction hn : cs.length using Nat.strongRecOn generalizing cs with
  | ind n ih =>
    rcases splitAt_cases isMark cs with ⟨-, hs⟩ | ⟨part, mark, rest, rfl, -, hmark, hs⟩
    · exact ⟨cs, by rw [hs]; exact List.mem_singleton_self cs, hm⟩
    · rw [hs]
      rcases List.mem_append.1 hm with hm | hm
      · exact ⟨part, List.mem_cons_self, hm⟩
      rcases List.mem_cons.1 hm with rfl | hm
      · rw [h] at hmark
        cases hmark
      · have hlt : rest.length < n := by
          rw [← hn, List.length_append, List.length_cons]
          omega
        obtain ⟨p, hp, hc⟩ := ih _ hlt hm rfl
        exact ⟨p, List.mem_cons_of_mem _ hp, hc⟩

end Url

end WorkflowDsl
