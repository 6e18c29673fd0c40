import Mathlib.Data.List.TakeWhile
import WorkflowDsl.Format.SemVer
import WorkflowDsl.Proofs.Url.Splitting

/-!
# Which texts are versions

A version is a text of the grammar `VersionOf`: three numbers between dots, perhaps the identifiers
of a pre-release behind a hyphen, and perhaps those of a build behind a plus sign. The grammar
leaves open what a number and an identifier of a pre-release are. Of Semantic Versioning 2.0 they
are `NumericIdentifier` and `PreReleaseIdentifier`; what is accepted has `WideNumber` and
`WideIdentifier` instead, in which digits of any script count.

Neither the marks nor the dots can stand in a number or identifier. So cutting a text at its first
marks, and at its dots, finds the parts that the grammar speaks of
(`Format.isVersion_iff`). In ASCII there is no difference between the numbers and
identifiers, and thus none between the versions (`Format.checkVersion_eq_ok_iff`).
-/

namespace WorkflowDsl.Format

/-! ## The grammar -/

/-- Texts of the language `P`, one or more of them, with a dot between each two. -/
inductive Dotted (P : List Char → Prop) : List Char → Prop where
  | last {part : List Char} (h : P part) : Dotted P part
  | more {part rest : List Char} (h : P part) (hrest : Dotted P rest) :
    Dotted P (part ++ '.' :: rest)

/-- Nothing, or the mark and a text of the language `P`. -/
inductive Marked (mark : Char) (P : List Char → Prop) : List Char → Prop where
  | absent : Marked mark P []
  | present {cs : List Char} (h : P cs) : Marked mark P (mark :: cs)

/-- An identifier of a build: letters, digits and hyphens of ASCII. -/
def BuildIdentifier (cs : List Char) : Prop := cs ≠ [] ∧ ∀ c ∈ cs, isLabelChar c = true

/-- The versions with given languages of numbers and of identifiers of a pre-release. -/
inductive VersionOf (number identifier : List Char → Prop) : List Char → Prop where
  | mk {major minor patch preRelease build : List Char} (hmajor : number major)
    (hminor : number minor) (hpatch : number patch)
    (hpre : Marked '-' (Dotted identifier) preRelease)
    (hbuild : Marked '+' (Dotted BuildIdentifier) build) :
    VersionOf number identifier
      (major ++ '.' :: (minor ++ '.' :: (patch ++ (preRelease ++ build))))

/-! ### Semantic Versioning 2.0 -/

/-- Digits of ASCII without a leading zero. -/
def NumericIdentifier (cs : List Char) : Prop :=
  cs ≠ [] ∧ (∀ c ∈ cs, c.isDigit = true) ∧ (cs.head? = some '0' → cs = ['0'])

/-- Letters, digits and hyphens of ASCII. If there are only digits, there is no leading zero. -/
def PreReleaseIdentifier (cs : List Char) : Prop :=
  cs ≠ [] ∧ (∀ c ∈ cs, isLabelChar c = true) ∧
    ((∀ c ∈ cs, c.isDigit = true) → cs.head? = some '0' → cs = ['0'])

/-- A version of Semantic Versioning 2.0. -/
def IsSemVer : List Char → Prop := VersionOf NumericIdentifier PreReleaseIdentifier

/-! ### Digits of any script -/

/-- Zero, or digits of any script behind one of ASCII that is not zero. -/
def WideNumber (cs : List Char) : Prop :=
  cs = ['0'] ∨ ∃ c ds, cs = c :: ds ∧ c.isDigit = true ∧ c ≠ '0' ∧
    ∀ d ∈ ds, Text.isDecimalDigit d = true

/-- A number, or a letter or hyphen behind any digits of any script, and before what may stand in an
identifier of a build. -/
def WideIdentifier (cs : List Char) : Prop :=
  WideNumber cs ∨ ∃ ds c rest, cs = ds ++ c :: rest ∧ (∀ d ∈ ds, Text.isDecimalDigit d = true) ∧
    (c.isAlpha = true ∨ c = '-') ∧ ∀ c ∈ rest, isLabelChar c = true

/-- A version in which digits of any script count. -/
def IsWideVersion : List Char → Prop := VersionOf WideNumber WideIdentifier

/-! ## Marks and dots -/

/-- What the mark and the part behind it look like, if there is a mark. -/
def behind (mark : Char) : Option (List Char) → List Char
  | none => []
  | some cs => mark :: cs

theorem marked_iff {mark : Char} {P : List Char → Prop} {cs : List Char} :
    Marked mark P cs ↔ ∃ part?, cs = behind mark part? ∧ ∀ part ∈ part?, P part := by
  constructor
  · intro h
    cases h with
    | absent => exact ⟨none, rfl, nofun⟩
    | @present cs h => exact ⟨some cs, rfl, fun _ hm => Option.some.inj hm ▸ h⟩
  · rintro ⟨_ | part, rfl, h⟩
    · exact .absent
    · exact .present (h part rfl)

section

variable {mark : Char} {cs part rest : List Char} {P Q : List Char → Prop}

theorem Marked.imp (h : Marked mark P cs) (hpq : ∀ {cs}, P cs → Q cs) : Marked mark Q cs := by
  cases h with
  | absent => exact .absent
  | present h => exact .present (hpq h)

theorem cutAt_of_not_mem (h : mark ∉ cs) : cutAt mark cs = (cs, none) := by
  rw [cutAt, dropWhile_bne_of_not_mem h]

theorem cutAt_append_cons (h : mark ∉ cs) :
    cutAt mark (cs ++ mark :: rest) = (cs, some rest) := by
  have ht : (cs ++ mark :: rest).takeWhile (· != mark) = cs := by
    rw [List.takeWhile_append_of_pos (bne_of_not_mem h)]
    simp
  rw [cutAt, dropWhile_bne_append_cons h]
  dsimp only
  rw [ht]

/-- A text is cut where the mark stands for the first time. -/
theorem cutAt_append_behind (h : mark ∉ cs) (part? : Option (List Char)) :
    cutAt mark (cs ++ behind mark part?) = (cs, part?) := by
  cases part? with
  | none =>
    rw [behind, List.append_nil]
    exact cutAt_of_not_mem h
  | some part => exact cutAt_append_cons h

theorem eq_of_cutAt {part? : Option (List Char)} (h : cutAt mark cs = (part, part?)) :
    cs = part ++ behind mark part? := by
  by_cases hm : mark ∈ cs
  · obtain ⟨before, after, rfl, hb⟩ := List.eq_append_cons_of_mem hm
    rw [cutAt_append_cons hb] at h
    obtain ⟨rfl, rfl⟩ := Prod.mk.inj h
    rfl
  · rw [cutAt_of_not_mem hm] at h
    obtain ⟨rfl, rfl⟩ := Prod.mk.inj h
    exact (List.append_nil cs).symm

theorem dotted_eq_splitAt (cs : List Char) : dotted cs = Url.splitAt (· == '.') cs := by
  induction cs with
  | nil => rfl
  | cons c cs ih =>
    cases h : Url.splitAt (· == '.') cs <;> simp [dotted, Url.splitAt, ih, h]

theorem beq_dot_eq_false (h : '.' ∉ cs) : ∀ c ∈ cs, (c == '.') = false := by
  intro c hc
  rw [beq_eq_false_iff_ne]
  rintro rfl
  exact h hc

theorem dotted_of_not_mem (h : '.' ∉ cs) : dotted cs = [cs] := by
  rw [dotted_eq_splitAt]
  exact Url.splitAt_of_forall (beq_dot_eq_false h)

theorem dotted_append_cons (h : '.' ∉ part) :
    dotted (part ++ '.' :: rest) = part :: dotted rest := by
  rw [dotted_eq_splitAt, dotted_eq_splitAt, Url.splitAt_append_cons (· == '.') rfl,
    Url.splitAt_of_forall (beq_dot_eq_false h)]
  rfl

/-- The first part of a text is all of it, or ends at the first dot. -/
theorem dotted_cases (cs : List Char) :
    dotted cs = [cs] ∨ ∃ part rest, cs = part ++ '.' :: rest ∧ dotted cs = part :: dotted rest := by
  by_cases h : '.' ∈ cs
  · obtain ⟨part, rest, rfl, hp⟩ := List.eq_append_cons_of_mem h
    exact .inr ⟨part, rest, rfl, dotted_append_cons hp⟩
  · exact .inl (dotted_of_not_mem h)

/-- A text with three parts between dots is these parts, with the dots. -/
theorem eq_of_dotted_length (h : (dotted cs).length = 3) :
    ∃ major minor patch, cs = major ++ '.' :: (minor ++ '.' :: patch) ∧
      dotted cs = [major, minor, patch] := by
  rcases dotted_cases cs with hd | ⟨major, rest, rfl, hd⟩
  · rw [hd] at h
    cases h
  rcases dotted_cases rest with hr | ⟨minor, patch, rfl, hr⟩
  · rw [hd, hr] at h
    cases h
  rcases dotted_cases patch with hp | ⟨_, rest, rfl, hp⟩
  · exact ⟨major, minor, patch, rfl, by rw [hd, hr, hp]⟩
  · have hl : (dotted rest).length = 0 := by
      rw [hd, hr, hp] at h
      simpa using h
    rcases dotted_cases rest with hn | ⟨_, _, -, hn⟩ <;> rw [hn] at hl <;> cases hl

theorem Dotted.imp (h : Dotted P cs) (hpq : ∀ {cs}, P cs → Q cs) : Dotted Q cs := by
  induction h with
  | last h => exact .last (hpq h)
  | more h _ ih => exact .more (hpq h) ih

/-- The parts of a text between dots are those of the grammar, if there is no dot in them. -/
theorem forall_mem_dotted_iff (hP : ∀ {cs}, P cs → '.' ∉ cs) :
    (∀ part ∈ dotted cs, P part) ↔ Dotted P cs := by
  constructor
  · induction hn : cs.length using Nat.strongRecOn generalizing cs with
    | ind n ih =>
      intro h
      rcases dotted_cases cs with hd | ⟨part, rest, rfl, hd⟩
      · rw [hd, List.forall_mem_singleton] at h
        exact .last h
      · rw [hd, List.forall_mem_cons] at h
        refine .more h.1 (ih rest.length ?_ rfl h.2)
        rw [← hn, List.length_append, List.length_cons]
        omega
  · intro h
    induction h with
    | last h =>
      rw [dotted_of_not_mem (hP h), List.forall_mem_singleton]
      exact h
    | more h _ ih =>
      rw [dotted_append_cons (hP h), List.forall_mem_cons]
      exact ⟨h, ih⟩

end

/-! ## Numbers and identifiers -/

section

variable {c : Char} {cs : List Char}

theorem isDecimalDigit_of_isDigit (h : c.isDigit = true) : Text.isDecimalDigit c = true := by
  rw [Text.isDecimalDigit, h, Bool.true_or]

theorem isLabelChar_of_isDigit (h : c.isDigit = true) : isLabelChar c = true := by
  rw [isLabelChar, Char.isAlphanum, h, Bool.or_true, Bool.true_or]

theorem isLabelChar_cases :
    isLabelChar c = true ↔ c.isDigit = true ∨ c.isAlpha = true ∨ c = '-' := by
  rw [isLabelChar, Char.isAlphanum, Bool.or_eq_true, Bool.or_eq_true, beq_iff_eq, or_assoc]
  exact or_left_comm

/-- Letters and hyphens are digits of no script. -/
theorem not_isDecimalDigit_of_letter (h : c.isAlpha = true ∨ c = '-') :
    Text.isDecimalDigit c = false := by
  have hz : ∀ first ∈ Text.digitZeros, first = 48 ∨ 128 ≤ first := by decide
  have hc : c.toNat < 48 ∨ 57 < c.toNat ∧ c.toNat < 128 := by
    rcases h with h | rfl
    · have h := toNat_of_isAlpha h
      omega
    · decide
  have hd : c.isDigit = false := by
    rw [← Bool.not_eq_true]
    intro h
    have h : 48 ≤ c.toNat ∧ c.toNat ≤ 57 := Char.isDigit_iff_toNat.1 h
    omega
  rw [Text.isDecimalDigit, hd, Bool.false_or, List.any_eq_false]
  intro first hf
  rw [Bool.and_eq_true, decide_eq_true_eq, decide_eq_true_eq]
  have := hz first hf
  omega

theorem isVersionNumber_iff : isVersionNumber cs = true ↔ WideNumber cs := by
  cases cs with
  | nil => exact iff_of_false nofun (by rintro (h | ⟨_, _, h, -⟩) <;> cases h)
  | cons c ds =>
    rw [isVersionNumber]
    by_cases hc : c = '0'
    · subst hc
      rw [if_pos (beq_self_eq_true '0'), List.isEmpty_iff]
      constructor
      · rintro rfl
        exact .inl rfl
      · rintro (h | ⟨_, _, h, -, h0, -⟩)
        · exact (List.cons.inj h).2
        · exact absurd (List.cons.inj h).1.symm h0
    · rw [if_neg (by rwa [beq_iff_eq]), Bool.and_eq_true, List.all_eq_true]
      constructor
      · rintro ⟨hd, hds⟩
        exact .inr ⟨c, ds, rfl, hd, hc, hds⟩
      · rintro (h | ⟨_, _, h, hd, -, hds⟩)
        · exact absurd (List.cons.inj h).1 hc
        · obtain ⟨rfl, rfl⟩ := List.cons.inj h
          exact ⟨hd, hds⟩

theorem isWordIdentifier_iff : isWordIdentifier cs = true ↔
    ∃ ds c rest, cs = ds ++ c :: rest ∧ (∀ d ∈ ds, Text.isDecimalDigit d = true) ∧
      (c.isAlpha = true ∨ c = '-') ∧ ∀ c ∈ rest, isLabelChar c = true := by
  rw [isWordIdentifier]
  constructor
  · intro h
    split at h
    · cases h
    · next c rest hd =>
      rw [Bool.and_eq_true, Bool.or_eq_true, beq_iff_eq, List.all_eq_true] at h
      refine ⟨cs.takeWhile Text.isDecimalDigit, c, rest, ?_, ?_, h.1, h.2⟩
      · rw [← hd, List.takeWhile_append_dropWhile]
      · exact fun d hm => List.mem_takeWhile_imp hm
  · rintro ⟨ds, c, rest, rfl, hds, hc, hr⟩
    have hn := not_isDecimalDigit_of_letter hc
    rw [List.dropWhile_append_of_pos hds, List.dropWhile_cons_of_neg (by rw [hn]; simp)]
    rw [Bool.and_eq_true, Bool.or_eq_true, beq_iff_eq, List.all_eq_true]
    exact ⟨hc, hr⟩

theorem WideNumber.isDecimalDigit (h : WideNumber cs) : ∀ c ∈ cs, Text.isDecimalDigit c = true := by
  rcases h with rfl | ⟨c, ds, rfl, hc, -, hds⟩
  · exact List.forall_mem_singleton.2 rfl
  · rw [List.forall_mem_cons]
    exact ⟨isDecimalDigit_of_isDigit hc, hds⟩

/-- Neither a mark nor a dot stands in a number. -/
theorem WideNumber.not_mem (h : WideNumber cs) : '.' ∉ cs ∧ '-' ∉ cs ∧ '+' ∉ cs := by
  refine ⟨fun hm => ?_, fun hm => ?_, fun hm => ?_⟩ <;>
    exact absurd (h.isDecimalDigit _ hm) (by decide)

/-- Neither a dot nor a plus sign stands in an identifier. -/
theorem WideIdentifier.not_mem (h : WideIdentifier cs) : '.' ∉ cs ∧ '+' ∉ cs := by
  rcases h with h | ⟨ds, c, rest, rfl, hds, hc, hr⟩
  · exact ⟨h.not_mem.1, h.not_mem.2.2⟩
  · have hall : ∀ x ∈ ds ++ c :: rest, Text.isDecimalDigit x = true ∨ isLabelChar x = true := by
      intro x hx
      rcases List.mem_append.1 hx with hx | hx
      · exact .inl (hds x hx)
      rcases List.mem_cons.1 hx with rfl | hx
      · exact .inr (isLabelChar_cases.2 (.inr hc))
      · exact .inr (hr x hx)
    exact ⟨fun hm => absurd (hall _ hm) (by decide), fun hm => absurd (hall _ hm) (by decide)⟩

theorem BuildIdentifier.not_mem (h : BuildIdentifier cs) : '.' ∉ cs :=
  fun hm => absurd (h.2 _ hm) (by decide)

theorem not_mem_of_dotted {P : List Char → Prop} {m : Char} (hm : m ≠ '.')
    (hP : ∀ {cs}, P cs → m ∉ cs) (h : Dotted P cs) : m ∉ cs := by
  induction h with
  | last h => exact hP h
  | more h _ ih =>
    rw [List.mem_append, List.mem_cons]
    rintro (h' | h' | h')
    · exact hP h h'
    · exact hm h'
    · exact ih h'

theorem isPreRelease_iff : isPreRelease cs = true ↔ Dotted WideIdentifier cs := by
  rw [isPreRelease, List.all_eq_true, ← forall_mem_dotted_iff fun h => h.not_mem.1]
  refine forall₂_congr fun part _ => ?_
  rw [Bool.or_eq_true, isVersionNumber_iff, isWordIdentifier_iff]
  rfl

theorem isBuild_iff : isBuild cs = true ↔ Dotted BuildIdentifier cs := by
  rw [isBuild, List.all_eq_true, ← forall_mem_dotted_iff fun h => h.not_mem]
  refine forall₂_congr fun part _ => ?_
  rw [Bool.and_eq_true, Bool.not_eq_true', List.isEmpty_eq_false_iff, List.all_eq_true]
  rfl

end

/-! ## Versions -/

section

variable {cs : List Char}

theorem isWideVersion_of_isVersion (h : isVersion cs = true) : IsWideVersion cs := by
  obtain ⟨release, build, hb⟩ : ∃ release build, cutAt '+' cs = (release, build) := ⟨_, _, rfl⟩
  obtain ⟨core, pre, hp⟩ : ∃ core pre, cutAt '-' release = (core, pre) := ⟨_, _, rfl⟩
  rw [isVersion, hb] at h
  dsimp only at h
  rw [hp] at h
  simp only [Bool.and_eq_true, beq_iff_eq] at h
  obtain ⟨⟨⟨hl, hn⟩, hpre⟩, hbuild⟩ := h
  obtain ⟨major, minor, patch, rfl, hd⟩ := eq_of_dotted_length hl
  rw [hd] at hn
  simp only [List.all_cons, List.all_nil, Bool.and_true, Bool.and_eq_true,
    isVersionNumber_iff] at hn
  have hv : IsWideVersion (major ++ '.' :: (minor ++ '.' :: (patch ++
      (behind '-' pre ++ behind '+' build)))) := by
    refine .mk hn.1 hn.2.1 hn.2.2 (marked_iff.2 ⟨pre, rfl, ?_⟩) (marked_iff.2 ⟨build, rfl, ?_⟩)
    · rintro part rfl
      exact isPreRelease_iff.1 hpre
    · rintro part rfl
      exact isBuild_iff.1 hbuild
  have he : cs = major ++ '.' :: (minor ++ '.' :: (patch ++
      (behind '-' pre ++ behind '+' build))) := by
    rw [eq_of_cutAt hb, eq_of_cutAt hp]
    simp
  exact he ▸ hv

section

variable {major minor patch : List Char} (hmajor : WideNumber major) (hminor : WideNumber minor)
  (hpatch : WideNumber patch)
include hmajor hminor hpatch

/-- What is in no number is not in the three numbers, unless it is the dot between them. -/
theorem not_mem_core {m : Char} (hm : m ≠ '.') (h : ∀ {cs}, WideNumber cs → m ∉ cs) :
    m ∉ major ++ '.' :: (minor ++ '.' :: patch) := by
  simp only [List.mem_append, List.mem_cons]
  rintro (h' | h' | h' | h' | h')
  · exact h hmajor h'
  · exact hm h'
  · exact h hminor h'
  · exact hm h'
  · exact h hpatch h'

theorem not_mem_release {pre? : Option (List Char)}
    (hpre : ∀ part, pre? = some part → Dotted WideIdentifier part) :
    '+' ∉ major ++ '.' :: (minor ++ '.' :: patch) ++ behind '-' pre? := by
  rw [List.mem_append]
  rintro (hm | hm)
  · exact not_mem_core hmajor hminor hpatch (by decide) (fun h => h.not_mem.2.2) hm
  · cases pre? with
    | none => cases hm
    | some part =>
      rcases List.mem_cons.1 hm with hm | hm
      · cases hm
      · exact not_mem_of_dotted (by decide) (fun h => h.not_mem.2) (hpre part rfl) hm

theorem dotted_core : dotted (major ++ '.' :: (minor ++ '.' :: patch)) = [major, minor, patch] := by
  rw [dotted_append_cons hmajor.not_mem.1, dotted_append_cons hminor.not_mem.1,
    dotted_of_not_mem hpatch.not_mem.1]

end

theorem isVersion_of_isWideVersion (h : IsWideVersion cs) : isVersion cs = true := by
  obtain ⟨hmajor, hminor, hpatch, hpre, hbuild⟩ := h
  next major minor patch preRelease build =>
  obtain ⟨pre?, rfl, hpre?⟩ := marked_iff.1 hpre
  obtain ⟨build?, rfl, hbuild?⟩ := marked_iff.1 hbuild
  have he : major ++ '.' :: (minor ++ '.' :: (patch ++ (behind '-' pre? ++ behind '+' build?))) =
      major ++ '.' :: (minor ++ '.' :: patch) ++ behind '-' pre? ++ behind '+' build? := by
    simp
  have hcore := not_mem_core hmajor hminor hpatch (by decide) fun h => h.not_mem.2.1
  rw [he, isVersion, cutAt_append_behind (not_mem_release hmajor hminor hpatch hpre?)]
  dsimp only
  rw [cutAt_append_behind hcore, dotted_core hmajor hminor hpatch]
  simp only [List.length_cons, List.length_nil, List.all_cons, List.all_nil, Bool.and_true,
    Bool.and_eq_true, beq_iff_eq, isVersionNumber_iff, Option.all_eq_true, isPreRelease_iff,
    isBuild_iff]
  exact ⟨⟨⟨trivial, hmajor, hminor, hpatch⟩, hpre?⟩, hbuild?⟩

/-- **The versions that are accepted are those in which digits of any script count.** -/
theorem isVersion_iff : isVersion cs = true ↔ IsWideVersion cs :=
  ⟨isWideVersion_of_isVersion, isVersion_of_isWideVersion⟩

end

/-! ## Versions in ASCII -/

/-- Texts of ASCII. -/
def IsAscii (cs : List Char) : Prop := ∀ c ∈ cs, c.toNat < 128

instance (cs : List Char) : Decidable (IsAscii cs) := List.decidableBAll _ cs

theorem isAscii_append {cs ds : List Char} : IsAscii (cs ++ ds) ↔ IsAscii cs ∧ IsAscii ds :=
  List.forall_mem_append

theorem isAscii_cons {c : Char} {cs : List Char} :
    IsAscii (c :: cs) ↔ c.toNat < 128 ∧ IsAscii cs :=
  List.forall_mem_cons

section

variable {c : Char} {cs : List Char}

/-- Of the digits of any script, those of ASCII are the usual ones. -/
theorem isDigit_of_isDecimalDigit (h : Text.isDecimalDigit c = true) (hc : c.toNat < 128) :
    c.isDigit = true := by
  have hz : ∀ first ∈ Text.digitZeros, first = 48 ∨ 128 ≤ first := by decide
  rw [Text.isDecimalDigit, Bool.or_eq_true, List.any_eq_true] at h
  rcases h with h | ⟨first, hf, h⟩
  · exact h
  · rw [Bool.and_eq_true, decide_eq_true_eq, decide_eq_true_eq] at h
    have hb : 48 ≤ c.toNat ∧ c.toNat ≤ 57 := by
      have := hz first hf
      omega
    exact Char.isDigit_iff_toNat.2 hb

theorem isAscii_of_isLabelChar (h : ∀ c ∈ cs, isLabelChar c = true) : IsAscii cs := by
  intro c hc
  rcases isLabelChar_cases.1 (h c hc) with h | h | rfl
  · have h : 48 ≤ c.toNat ∧ c.toNat ≤ 57 := Char.isDigit_iff_toNat.1 h
    omega
  · have h := toNat_of_isAlpha h
    omega
  · decide

/-- Without a leading zero, a number in ASCII is one of Semantic Versioning. -/
theorem numericIdentifier_iff : NumericIdentifier cs ↔ WideNumber cs ∧ IsAscii cs := by
  constructor
  · rintro ⟨hne, hd, h0⟩
    refine ⟨?_, isAscii_of_isLabelChar fun c hc => isLabelChar_of_isDigit (hd c hc)⟩
    obtain ⟨c, ds, rfl⟩ := List.exists_cons_of_ne_nil hne
    by_cases hc : c = '0'
    · subst hc
      exact .inl (h0 rfl)
    · rw [List.forall_mem_cons] at hd
      exact .inr ⟨c, ds, rfl, hd.1, hc, fun d hm => isDecimalDigit_of_isDigit (hd.2 d hm)⟩
  · rintro ⟨h, ha⟩
    have hd : ∀ c ∈ cs, c.isDigit = true := fun c hc =>
      isDigit_of_isDecimalDigit (h.isDecimalDigit c hc) (ha c hc)
    rcases h with rfl | ⟨c, ds, rfl, -, hc, -⟩
    · exact ⟨List.cons_ne_nil _ _, hd, fun _ => rfl⟩
    · exact ⟨List.cons_ne_nil _ _, hd, fun h0 => absurd (Option.some.inj h0) hc⟩

/-- An identifier in ASCII is one of Semantic Versioning. -/
theorem preReleaseIdentifier_iff :
    PreReleaseIdentifier cs ↔ WideIdentifier cs ∧ IsAscii cs := by
  constructor
  · rintro ⟨hne, hl, h0⟩
    refine ⟨?_, isAscii_of_isLabelChar hl⟩
    by_cases hd : ∀ c ∈ cs, c.isDigit = true
    · exact .inl (numericIdentifier_iff.1 ⟨hne, hd, h0 hd⟩).1
    -- Otherwise the first character that is no digit is a letter or a hyphen.
    · have hcut : cs.dropWhile Char.isDigit ≠ [] := by rwa [Ne, List.dropWhile_eq_nil_iff]
      obtain ⟨c, rest, hr⟩ := List.exists_cons_of_ne_nil hcut
      have he : cs = cs.takeWhile Char.isDigit ++ c :: rest := by
        rw [← hr, List.takeWhile_append_dropWhile]
      have hc : c.isDigit = false := by
        have := List.head_dropWhile_not Char.isDigit hcut
        simpa [hr] using this
      rw [he] at hl
      have hword := isLabelChar_cases.1 (hl c (List.mem_append_right _ List.mem_cons_self))
      rw [hc] at hword
      refine .inr ⟨_, c, rest, he, ?_, hword.resolve_left nofun, ?_⟩
      · exact fun d hm => isDecimalDigit_of_isDigit (List.mem_takeWhile_imp hm)
      · exact fun d hm => hl d (List.mem_append_right _ (List.mem_cons_of_mem _ hm))
  · rintro ⟨h | ⟨ds, c, rest, rfl, hds, hc, hr⟩, ha⟩
    · obtain ⟨hne, hd, h0⟩ := numericIdentifier_iff.2 ⟨h, ha⟩
      exact ⟨hne, fun c hc => isLabelChar_of_isDigit (hd c hc), fun _ => h0⟩
    · have hmid : c ∈ ds ++ c :: rest := List.mem_append_right _ List.mem_cons_self
      refine ⟨List.ne_nil_of_mem hmid, ?_, fun hd => ?_⟩
      · intro x hx
        rcases List.mem_append.1 hx with hx | hx
        · have := isDigit_of_isDecimalDigit (hds x hx) (ha x (List.mem_append_left _ hx))
          exact isLabelChar_of_isDigit this
        rcases List.mem_cons.1 hx with rfl | hx
        · exact isLabelChar_cases.2 (.inr hc)
        · exact hr x hx
      · have := isDecimalDigit_of_isDigit (hd c hmid)
        rw [not_isDecimalDigit_of_letter hc] at this
        cases this

theorem BuildIdentifier.isAscii (h : BuildIdentifier cs) : IsAscii cs :=
  isAscii_of_isLabelChar h.2

theorem dotted_isAscii_iff {P : List Char → Prop} :
    Dotted (fun part => P part ∧ IsAscii part) cs ↔ Dotted P cs ∧ IsAscii cs := by
  constructor
  · intro h
    refine ⟨h.imp And.left, ?_⟩
    induction h with
    | last h => exact h.2
    | more h _ ih => exact isAscii_append.2 ⟨h.2, isAscii_cons.2 ⟨by decide, ih⟩⟩
  · rintro ⟨h, ha⟩
    induction h with
    | last h => exact .last ⟨h, ha⟩
    | more h _ ih =>
      rw [isAscii_append, isAscii_cons] at ha
      exact .more ⟨h, ha.1⟩ (ih ha.2.2)

theorem marked_isAscii_iff {mark : Char} {P : List Char → Prop} (hm : mark.toNat < 128) :
    Marked mark (fun part => P part ∧ IsAscii part) cs ↔ Marked mark P cs ∧ IsAscii cs := by
  constructor
  · intro h
    cases h with
    | absent => exact ⟨.absent, nofun⟩
    | present h => exact ⟨.present h.1, isAscii_cons.2 ⟨hm, h.2⟩⟩
  · rintro ⟨h, ha⟩
    cases h with
    | absent => exact .absent
    | present h => exact .present ⟨h, (isAscii_cons.1 ha).2⟩

/-- The versions of Semantic Versioning are those of ASCII among the wider ones. -/
theorem isSemVer_iff : IsSemVer cs ↔ IsWideVersion cs ∧ IsAscii cs := by
  have hdash : Dotted PreReleaseIdentifier =
      fun part => Dotted WideIdentifier part ∧ IsAscii part := by
    funext part
    rw [show PreReleaseIdentifier = fun part => WideIdentifier part ∧ IsAscii part from
      funext fun _ => propext preReleaseIdentifier_iff]
    exact propext dotted_isAscii_iff
  constructor
  · rintro ⟨hmajor, hminor, hpatch, hpre, hbuild⟩
    rw [numericIdentifier_iff] at hmajor hminor hpatch
    rw [hdash, marked_isAscii_iff (by decide)] at hpre
    have hb : IsAscii _ := ((marked_isAscii_iff (by decide)).1 (hbuild.imp fun h =>
      dotted_isAscii_iff.1 (h.imp fun h => ⟨h, h.isAscii⟩))).2
    refine ⟨.mk hmajor.1 hminor.1 hpatch.1 hpre.1 hbuild, ?_⟩
    simp only [isAscii_append, isAscii_cons]
    exact ⟨hmajor.2, by decide, hminor.2, by decide, hpatch.2, hpre.2, hb⟩
  · rintro ⟨⟨hmajor, hminor, hpatch, hpre, hbuild⟩, ha⟩
    simp only [isAscii_append, isAscii_cons] at ha
    obtain ⟨amajor, -, aminor, -, apatch, apre, -⟩ := ha
    refine .mk (numericIdentifier_iff.2 ⟨hmajor, amajor⟩) (numericIdentifier_iff.2 ⟨hminor, aminor⟩)
      (numericIdentifier_iff.2 ⟨hpatch, apatch⟩) ?_ hbuild
    rw [hdash, marked_isAscii_iff (by decide)]
    exact ⟨hpre, apre⟩

end

/-- **A text passes as a version if and only if it is one in which digits of any script count. The
versions of Semantic Versioning 2.0 are those of ASCII among them.** -/
theorem checkVersion_eq_ok_iff (field value : String) :
    (checkVersion field value = .ok () ↔ IsWideVersion value.toList) ∧
      (IsSemVer value.toList ↔ checkVersion field value = .ok () ∧ IsAscii value.toList) := by
  have hok : checkVersion field value = .ok () ↔ IsWideVersion value.toList := by
    rw [checkVersion, ← isVersion_iff]
    split
    · next h => exact iff_of_true rfl h
    · next h => exact iff_of_false nofun h
  refine ⟨hok, ?_⟩
  rw [hok]
  exact isSemVer_iff

/-- An Arabic-Indic digit counts, though no version of Semantic Versioning has one. -/
example : isVersion "1.1٣.0".toList = true := by decide

end WorkflowDsl.Format
