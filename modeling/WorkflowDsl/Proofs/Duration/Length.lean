import Mathlib.Algebra.BigOperators.Group.List.Basic
import Mathlib.Algebra.GroupWithZero.Nat
import WorkflowDsl.Proofs.Model.Lossless

/-!
# Lengths of components

The length of a duration is summed up component by component, and each product and each sum stops at
the greatest length. No term is negative, so a sum that has stopped stays where it is: in the end it
is the exact sum, brought down to the greatest length once (`Duration.foldl_addTerm`). So the order
of the components does not matter, and more of a component is never less
(`Duration.toMillis?_parts`).

The components that a length is split into are in range, and none is a zero that could be left out
(`Duration.Parts.Splits`). There is only one such split (`Duration.Parts.Splits.unique`), and its
length is the one that was split (`Duration.ofMillis_splits`).
-/

namespace WorkflowDsl

namespace Duration

/-! ## Saturating sums -/

/-- How many of a unit there are; a component that is left out has none. -/
def count (part : Option UInt64) : Nat := part.elim 0 UInt64.toNat

/-- The exact length of a component in a unit of so many milliseconds. -/
def exactTerm (term : Option UInt64 × Nat) : Nat := count term.1 * term.2

/-- Adds the length of a component to a sum, as far as the greatest length. -/
def addTerm (sum : Nat) (term : Option UInt64 × Nat) : Nat :=
  match term.1 with
  | some n => saturatingAdd sum (saturatingMul n.toNat term.2)
  | none => sum

/-- The components, each with its unit, in the order in which they are added. -/
def Parts.terms (p : Parts) : List (Option UInt64 × Nat) :=
  [(p.days, 86400000), (p.hours, 3600000), (p.minutes, 60000), (p.seconds, 1000),
    (p.milliseconds, 1)]

/-- The exact length of components, which may be more than the greatest length. -/
def Parts.exact (p : Parts) : Nat :=
  86400000 * count p.days + 3600000 * count p.hours + 60000 * count p.minutes
    + 1000 * count p.seconds + count p.milliseconds

theorem Parts.toMillis_eq_foldl (p : Parts) : p.toMillis = p.terms.foldl addTerm 0 := rfl

/-- One more component: the exact sum, unless it is more than the greatest length. -/
theorem addTerm_eq_min {sum : Nat} (h : sum ≤ maxMillis) (term : Option UInt64 × Nat) :
    addTerm sum term = min (sum + exactTerm term) maxMillis := by
  obtain ⟨_ | n, unit⟩ := term
  · have hz : exactTerm (none, unit) = 0 := Nat.zero_mul unit
    rw [hz, Nat.add_zero, Nat.min_eq_left h]
    rfl
  · show min (sum + min (n.toNat * unit) maxMillis) maxMillis =
      min (sum + n.toNat * unit) maxMillis
    omega

/-- **Stopping at the greatest length on the way is the same as stopping there at the end.** -/
theorem foldl_addTerm (terms : List (Option UInt64 × Nat)) {sum : Nat} (h : sum ≤ maxMillis) :
    terms.foldl addTerm sum = min (sum + (terms.map exactTerm).sum) maxMillis := by
  induction terms generalizing sum with
  | nil => exact (Nat.min_eq_left h).symm
  | cons term terms ih =>
    rw [List.foldl_cons, addTerm_eq_min h, ih (Nat.min_le_right _ _), List.map_cons, List.sum_cons]
    omega

theorem foldl_addTerm_zero (terms : List (Option UInt64 × Nat)) :
    terms.foldl addTerm 0 = min (terms.map exactTerm).sum maxMillis := by
  rw [foldl_addTerm terms (Nat.zero_le _), Nat.zero_add]

theorem Parts.sum_exactTerm (p : Parts) : (p.terms.map exactTerm).sum = p.exact := by
  -- Each rewriting is a step of its own: as one step by definition, the products with units of
  -- millions would be evaluated.
  simp -implicitDefEqProofs only [terms, exact, exactTerm, List.map_cons, List.map_nil,
    List.sum_cons, List.sum_nil]
  omega

theorem Parts.toMillis_eq_min (p : Parts) : p.toMillis = min p.exact maxMillis := by
  rw [p.toMillis_eq_foldl, foldl_addTerm_zero, p.sum_exactTerm]

/-- Of each unit there are at most as many in the first as in the second. -/
structure Parts.AtMost (p q : Parts) : Prop where
  days : count p.days ≤ count q.days
  hours : count p.hours ≤ count q.hours
  minutes : count p.minutes ≤ count q.minutes
  seconds : count p.seconds ≤ count q.seconds
  milliseconds : count p.milliseconds ≤ count q.milliseconds

theorem Parts.AtMost.exact_le {p q : Parts} (h : p.AtMost q) : p.exact ≤ q.exact := by
  obtain ⟨hd, hh, hm, hs, hms⟩ := h
  rw [exact, exact]
  omega

/-- **The length of components is their exact length, or the greatest length if that is less.** It
does not come down when there is more of a component. In whatever order the components are added,
they come to the same length, and no sum on the way is more than the greatest length. -/
theorem toMillis?_parts (p : Parts) :
    toMillis? (.parts p) = some (min p.exact (2 ^ 64 - 1)) ∧
      (∀ q : Parts, p.AtMost q → p.toMillis ≤ q.toMillis) ∧
      ∀ terms, terms.Perm p.terms →
        toMillis? (.parts p) = some (terms.foldl addTerm 0) ∧
          ∀ first, first <+: terms → first.foldl addTerm 0 ≤ 2 ^ 64 - 1 := by
  have hlength : toMillis? (.parts p) = some (min p.exact maxMillis) :=
    congrArg some p.toMillis_eq_min
  refine ⟨hlength, fun q hq => ?_, fun terms hperm => ⟨?_, fun first _ => ?_⟩⟩
  · have hle := hq.exact_le
    rw [p.toMillis_eq_min, q.toMillis_eq_min]
    omega
  · rw [hlength, foldl_addTerm_zero, (hperm.map exactTerm).sum_eq, p.sum_exactTerm]
  · rw [foldl_addTerm_zero]
    exact Nat.min_le_right _ _

/-- More days than there is room for, beside two hours or three. -/
theorem toMillis?_parts_manyDays :
    let p : Parts := ⟨some 300000000000, some 2, none, none, none⟩
    let q : Parts := ⟨some 300000000000, some 3, none, none, none⟩
    p.AtMost q ∧ p.toMillis ≤ q.toMillis ∧ p.terms.reverse.Perm p.terms ∧
      toMillis? (.parts p) = some (p.terms.reverse.foldl addTerm 0) ∧
      p.terms.reverse.take 4 <+: p.terms.reverse ∧
      (p.terms.reverse.take 4).foldl addTerm 0 ≤ 2 ^ 64 - 1 := by
  intro p q
  have hmost : p.AtMost q := by constructor <;> decide
  have hperm : p.terms.reverse.Perm p.terms := List.reverse_perm _
  have hfirst : p.terms.reverse.take 4 <+: p.terms.reverse := List.take_prefix _ _
  obtain ⟨-, hle, horder⟩ := toMillis?_parts p
  exact ⟨hmost, hle q hmost, hperm, (horder _ hperm).1, hfirst, (horder _ hperm).2 _ hfirst⟩

/-! ## Splitting -/

/-- Components that a length is split into: each is in range, and zero is left out, but for the
milliseconds of a duration of no length. -/
structure Parts.Splits (p : Parts) (length : UInt64) : Prop where
  exact_eq : p.exact = length.toNat
  hours_lt : ∀ n ∈ p.hours, n < 24
  minutes_lt : ∀ n ∈ p.minutes, n < 60
  seconds_lt : ∀ n ∈ p.seconds, n < 60
  milliseconds_lt : ∀ n ∈ p.milliseconds, n < 1000
  days_ne_zero : p.days ≠ some 0
  hours_ne_zero : p.hours ≠ some 0
  minutes_ne_zero : p.minutes ≠ some 0
  seconds_ne_zero : p.seconds ≠ some 0
  milliseconds_eq_zero_iff : p.milliseconds = some 0 ↔ length = 0

section

variable {n : Nat} {x y : Option UInt64} {bound : UInt64}

theorem count_nonZero (h : n < UInt64.size) : count (nonZero n) = n := by
  rw [nonZero]
  split
  · next hz => exact (beq_iff_eq.1 hz).symm
  · exact UInt64.toNat_ofNat_of_lt' h

theorem nonZero_ne_zero (h : n < UInt64.size) : nonZero n ≠ some 0 := by
  intro hn
  have hz : n = 0 := by
    rw [← count_nonZero h, hn]
    rfl
  rw [hz] at hn
  cases hn

theorem lt_of_count_lt (h : count x < bound.toNat) : ∀ n ∈ x, n < bound := by
  rintro n rfl
  exact UInt64.lt_iff_toNat_lt.2 h

theorem count_lt_of_lt (hb : 0 < bound.toNat) (h : ∀ n ∈ x, n < bound) :
    count x < bound.toNat := by
  cases x with
  | none => exact hb
  | some n => exact UInt64.lt_iff_toNat_lt.1 (h n rfl)

/-- What is no zero is told by how many there are. -/
theorem eq_of_count_eq (hx : x ≠ some 0) (hy : y ≠ some 0) (h : count x = count y) : x = y := by
  have hz {n : UInt64} (h : 0 = n.toNat) : n = 0 := UInt64.toNat_inj.1 h.symm
  cases x with
  | none =>
    cases y with
    | none => rfl
    | some n => exact absurd (congrArg some (hz h)) hy
  | some n =>
    cases y with
    | none => exact absurd (congrArg some (hz (Eq.symm h))) hx
    | some m => exact congrArg some (UInt64.toNat_inj.1 h)

end

/-- A length is split in one way only. -/
theorem Parts.Splits.unique {p q : Parts} {length : UInt64} (hp : p.Splits length)
    (hq : q.Splits length) : p = q := by
  have hexact : p.exact = q.exact := hp.exact_eq.trans hq.exact_eq.symm
  have bound (r : Parts) (hr : r.Splits length) : count r.hours < 24 ∧ count r.minutes < 60 ∧
      count r.seconds < 60 ∧ count r.milliseconds < 1000 :=
    ⟨count_lt_of_lt (by decide) hr.hours_lt, count_lt_of_lt (by decide) hr.minutes_lt,
      count_lt_of_lt (by decide) hr.seconds_lt, count_lt_of_lt (by decide) hr.milliseconds_lt⟩
  obtain ⟨hph, hpm, hps, hpms⟩ := bound p hp
  obtain ⟨hqh, hqm, hqs, hqms⟩ := bound q hq
  rw [exact, exact] at hexact
  -- A zero of milliseconds is there in both or in none.
  have hmillis : p.milliseconds = q.milliseconds := by
    by_cases hz : length = 0
    · rw [hp.milliseconds_eq_zero_iff.2 hz, hq.milliseconds_eq_zero_iff.2 hz]
    · exact eq_of_count_eq (mt hp.milliseconds_eq_zero_iff.1 hz)
        (mt hq.milliseconds_eq_zero_iff.1 hz) (by omega)
  have hdays := eq_of_count_eq hp.days_ne_zero hq.days_ne_zero (by omega)
  have hhours := eq_of_count_eq hp.hours_ne_zero hq.hours_ne_zero (by omega)
  have hminutes := eq_of_count_eq hp.minutes_ne_zero hq.minutes_ne_zero (by omega)
  have hseconds := eq_of_count_eq hp.seconds_ne_zero hq.seconds_ne_zero (by omega)
  cases p
  cases q
  simp_all

/-- The components that `ofMillis` gives. -/
def splitParts (length : UInt64) : Parts where
  days := nonZero (length.toNat / 1000 / 60 / 60 / 24)
  hours := nonZero (length.toNat / 1000 / 60 / 60 % 24)
  minutes := nonZero (length.toNat / 1000 / 60 % 60)
  seconds := nonZero (length.toNat / 1000 % 60)
  milliseconds := if length.toNat == 0 then some 0 else nonZero (length.toNat % 1000)

theorem ofMillis_eq (length : UInt64) : ofMillis length = .parts (splitParts length) := rfl

theorem count_milliseconds_splitParts (length : UInt64) :
    count (splitParts length).milliseconds = length.toNat % 1000 := by
  rw [splitParts]
  split
  · next hz =>
    rw [beq_iff_eq.1 hz]
    rfl
  · exact count_nonZero (Nat.lt_of_le_of_lt (Nat.mod_le _ _) length.toNat_lt)

theorem splits_splitParts (length : UInt64) : (splitParts length).Splits length := by
  have hlt := length.toNat_lt
  have hsize : UInt64.size = 2 ^ 64 := rfl
  have hdays : length.toNat / 1000 / 60 / 60 / 24 < UInt64.size := by omega
  have hhours : length.toNat / 1000 / 60 / 60 % 24 < UInt64.size := by omega
  have hminutes : length.toNat / 1000 / 60 % 60 < UInt64.size := by omega
  have hseconds : length.toNat / 1000 % 60 < UInt64.size := by omega
  have hmillis := count_milliseconds_splitParts length
  refine
    { exact_eq := ?_
      hours_lt := lt_of_count_lt ?_
      minutes_lt := lt_of_count_lt ?_
      seconds_lt := lt_of_count_lt ?_
      milliseconds_lt := lt_of_count_lt ?_
      days_ne_zero := nonZero_ne_zero hdays
      hours_ne_zero := nonZero_ne_zero hhours
      minutes_ne_zero := nonZero_ne_zero hminutes
      seconds_ne_zero := nonZero_ne_zero hseconds
      milliseconds_eq_zero_iff := ?_ }
  · rw [Parts.exact, hmillis, splitParts, count_nonZero hdays, count_nonZero hhours,
      count_nonZero hminutes, count_nonZero hseconds]
    omega
  · rw [splitParts, count_nonZero hhours]
    exact Nat.mod_lt _ (by decide)
  · rw [splitParts, count_nonZero hminutes]
    exact Nat.mod_lt _ (by decide)
  · rw [splitParts, count_nonZero hseconds]
    exact Nat.mod_lt _ (by decide)
  · rw [hmillis]
    exact Nat.mod_lt _ (by decide)
  · have hz : length = 0 ↔ length.toNat = 0 := UInt64.toNat_inj.symm
    rw [hz, splitParts]
    split
    · next h => exact iff_of_true rfl (beq_iff_eq.1 h)
    · next h => exact iff_of_false (nonZero_ne_zero (by omega)) (mt beq_iff_eq.2 h)

theorem toMillis?_ofMillis (length : UInt64) :
    toMillis? (ofMillis length) = some length.toNat := by
  have hle : length.toNat ≤ maxMillis := Nat.le_sub_one_of_lt length.toNat_lt
  rw [ofMillis_eq, toMillis?, Parts.toMillis_eq_min, (splits_splitParts length).exact_eq,
    Nat.min_eq_left hle]

/-- **A length is split into components in range, in the only way, and they are of that length.**
They are read as they are written. The length of seconds and nanoseconds is that of the whole
milliseconds, or the greatest length if that is less. -/
theorem ofMillis_splits (length : UInt64) (seconds nanoseconds : Nat) :
    (∃ p : Parts, ofMillis length = .parts p ∧ ∀ q : Parts, q.Splits length ↔ q = p) ∧
      toMillis? (ofMillis length) = some length.toNat ∧
      codec.decode (codec.write (ofMillis length)) = .ok (ofMillis length) ∧
      toMillis? (ofSeconds seconds nanoseconds) =
        some (min (1000 * seconds + nanoseconds / 10 ^ 6) (2 ^ 64 - 1)) := by
  refine ⟨⟨splitParts length, ofMillis_eq length, fun q => ⟨fun hq => ?_, ?_⟩⟩,
    toMillis?_ofMillis length, Codec.decode_eq_ok.2 (codec.keeps _), ?_⟩
  · exact hq.unique (splits_splitParts length)
  · rintro rfl
    exact splits_splitParts length
  · rw [ofSeconds, toMillis?_ofMillis, Nat.mul_comm seconds]
    refine congrArg some (UInt64.toNat_ofNat_of_lt' ?_)
    exact Nat.lt_of_le_of_lt (Nat.min_le_right _ _) (by decide)

/-- The greatest length, and a length of no time. -/
example : toMillis? (ofMillis (.ofNat maxMillis)) = some (2 ^ 64 - 1) ∧
    ofMillis 0 = .parts ⟨none, none, none, none, some 0⟩ := by decide

end Duration

end WorkflowDsl
