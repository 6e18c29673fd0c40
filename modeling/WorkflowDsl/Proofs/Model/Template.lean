import Mathlib.Data.List.TakeWhile
import WorkflowDsl.Model.Problem
import WorkflowDsl.Proofs.Url.Splitting

/-!
# What templates match

A template is cut into literal pieces by its names in braces (`Segmented`), in one way only
(`segmented_iff`). A text is `Filled` if it is the pieces in order, with a filler between each two.
The texts that match a template are those with fillers on one line (`matchesTemplate_iff`): a
template matches a text with line feeds only as far as it has them in its literal pieces.
-/

namespace WorkflowDsl

/-- What may stand between braces as a name. -/
def IsTemplateName (name : List Char) : Prop := '\x7b' ∉ name ∧ '\x7d' ∉ name

/-- Somewhere in a text, a name stands in braces. -/
def HasSegment (cs : List Char) : Prop :=
  ∃ before name after, cs = before ++ '\x7b' :: (name ++ '\x7d' :: after) ∧ IsTemplateName name

/-- A template and its literal pieces around the names in braces. -/
inductive Segmented : List Char → List (List Char) → Prop where
  | literal {cs : List Char} (h : ¬HasSegment cs) : Segmented cs [cs]
  | segment {before name after : List Char} {literals : List (List Char)}
    (hbefore : ¬HasSegment before) (hname : IsTemplateName name)
    (hafter : Segmented after literals) :
    Segmented (before ++ '\x7b' :: (name ++ '\x7d' :: after)) (before :: literals)

/-- Literal pieces and a text that they are with a filler of the language `P` between each two. -/
inductive Filled (P : List Char → Prop) : List (List Char) → List Char → Prop where
  | last {literal : List Char} : Filled P [literal] literal
  | more {literal filler rest : List Char} {literals : List (List Char)} (hfiller : P filler)
    (hrest : Filled P literals rest) : Filled P (literal :: literals) (literal ++ (filler ++ rest))

/-- A text is the literal pieces of a template with fillers of the language `P`. -/
def Fills (P : List Char → Prop) (template text : String) : Prop :=
  ∃ literals, Segmented template.toList literals ∧ Filled P literals text.toList

/-- A filler on one line. -/
def OnOneLine (filler : List Char) : Prop := '\n' ∉ filler

/-! ## Segments -/

section

variable {cs before name after piece : List Char} {literals parts : List (List Char)}

theorem not_hasSegment_of_append (pre suf : List Char) (h : ¬HasSegment (pre ++ (cs ++ suf))) :
    ¬HasSegment cs := by
  rintro ⟨before, name, after, rfl, hn⟩
  exact h ⟨pre ++ before, name, after ++ suf, by simp, hn⟩

/-- The first closing brace behind an opening one closes a segment. -/
theorem hasSegment_of_mem (ho : '\x7b' ∉ cs) (hc : '\x7d' ∈ cs) : HasSegment ('\x7b' :: cs) := by
  obtain ⟨name, after, rfl, hn⟩ := List.eq_append_cons_of_mem hc
  exact ⟨[], name, after, rfl, fun h => ho (List.mem_append_left _ h), hn⟩

theorem Segmented.append (h : Segmented before literals) (hname : IsTemplateName name)
    (hafter : Segmented after parts) :
    Segmented (before ++ '\x7b' :: (name ++ '\x7d' :: after)) (literals ++ parts) := by
  induction h with
  | literal h => exact .segment h hname hafter
  | segment hbefore hname' _ ih =>
    have := Segmented.segment hbefore hname' ih
    simpa using this

theorem Segmented.ne_nil (h : Segmented cs literals) : literals ≠ [] := by
  cases h <;> exact List.cons_ne_nil _ _

theorem exists_segmented (cs : List Char) : ∃ literals, Segmented cs literals := by
  induction hn : cs.length using Nat.strongRecOn generalizing cs with
  | ind n ih =>
    by_cases h : HasSegment cs
    · obtain ⟨before, name, after, rfl, hname⟩ := h
      simp only [List.length_append, List.length_cons] at hn
      obtain ⟨literals, hb⟩ := ih before.length (by omega) before rfl
      obtain ⟨parts, ha⟩ := ih after.length (by omega) after rfl
      exact ⟨literals ++ parts, hb.append hname ha⟩
    · exact ⟨[cs], .literal h⟩

/-! ## Cutting at braces -/

/-- A piece without a closing brace is literal, with the opening brace before it. -/
theorem add_of_not_mem (h : '\x7d' ∉ piece) (last : List Char) :
    templateParts.add [last] piece = [last ++ '\x7b' :: piece] := by
  rw [templateParts.add, dropWhile_bne_of_not_mem h]
  rfl

/-- A piece with a closing brace ends the literal before it and starts the one behind the brace. -/
theorem add_of_append (h : '\x7d' ∉ name) (last after : List Char) :
    templateParts.add [last] (name ++ '\x7d' :: after) = [last, after] := by
  rw [templateParts.add, dropWhile_bne_append_cons h]
  rfl

theorem add_concat (parts : List (List Char)) (last piece : List Char) :
    templateParts.add (parts ++ [last]) piece = parts ++ templateParts.add [last] piece := by
  rw [templateParts.add, templateParts.add]
  split <;> simp

/-- Only the last of the literals counts when pieces are added. -/
theorem foldl_add_concat (pieces parts : List (List Char)) (last : List Char) :
    pieces.foldl templateParts.add (parts ++ [last]) =
      parts ++ pieces.foldl templateParts.add [last] := by
  induction pieces generalizing parts last with
  | nil => rfl
  | cons piece pieces ih =>
    rw [List.foldl_cons, List.foldl_cons, add_concat]
    by_cases h : '\x7d' ∈ piece
    · obtain ⟨name, after, rfl, hn⟩ := List.eq_append_cons_of_mem h
      have hcut : [last, after] = [last] ++ [after] := rfl
      rw [add_of_append hn, hcut, ← List.append_assoc, ih, ih, List.append_assoc]
    · rw [add_of_not_mem h, ih]

/-- Behind an opening brace that starts no segment, all is literal. -/
theorem foldl_add_of_not_hasSegment (h : ¬HasSegment ('\x7b' :: cs)) (last : List Char) :
    (Url.splitAt (· == '\x7b') cs).foldl templateParts.add [last] = [last ++ '\x7b' :: cs] := by
  induction hn : cs.length using Nat.strongRecOn generalizing cs last with
  | ind n ih =>
    rcases Url.splitAt_cases (· == '\x7b') cs with
      ⟨hp, hs⟩ | ⟨part, mark, rest, rfl, hp, hm, hs⟩
    · have hc : '\x7d' ∉ cs := fun hc => h (hasSegment_of_mem (fun ho => by cases hp _ ho) hc)
      rw [hs, List.foldl_cons, List.foldl_nil, add_of_not_mem hc]
    · obtain rfl := beq_iff_eq.1 hm
      have hpart : ¬HasSegment ('\x7b' :: part) := by
        apply not_hasSegment_of_append [] ('\x7b' :: rest)
        simpa using h
      have hrest : ¬HasSegment ('\x7b' :: rest) := by
        apply not_hasSegment_of_append ('\x7b' :: part) []
        simpa using h
      have hc : '\x7d' ∉ part := fun hc => hpart (hasSegment_of_mem (fun ho => by cases hp _ ho) hc)
      have hlt : rest.length < n := by
        rw [← hn, List.length_append, List.length_cons]
        omega
      rw [hs, List.foldl_cons, add_of_not_mem hc, ih _ hlt hrest _ rfl]
      simp

theorem templateParts_of_not_hasSegment (h : ¬HasSegment cs) : templateParts cs = [cs] := by
  rcases Url.splitAt_cases (· == '\x7b') cs with ⟨-, hs⟩ | ⟨part, mark, rest, rfl, -, hm, hs⟩
  · rw [templateParts, hs]
    rfl
  · obtain rfl := beq_iff_eq.1 hm
    have hrest : ¬HasSegment ('\x7b' :: rest) := by
      apply not_hasSegment_of_append part []
      simpa using h
    rw [templateParts, hs]
    exact foldl_add_of_not_hasSegment hrest part

/-- The pieces behind an opening brace are added to the literals before it. -/
theorem templateParts_append_cons (before tail : List Char) :
    templateParts (before ++ '\x7b' :: tail) =
      (Url.splitAt (· == '\x7b') tail).foldl templateParts.add (templateParts before) := by
  obtain ⟨first, pieces, hf⟩ :=
    List.exists_cons_of_ne_nil (Url.splitAt_ne_nil (· == '\x7b') before)
  rw [templateParts, templateParts, Url.splitAt_append_cons (· == '\x7b') rfl, hf, List.cons_append]
  exact List.foldl_append

theorem templateParts_segment (hbefore : ¬HasSegment before) (hname : IsTemplateName name)
    (after : List Char) :
    templateParts (before ++ '\x7b' :: (name ++ '\x7d' :: after)) =
      before :: templateParts after := by
  have hopen {cs : List Char} (h : ∀ c ∈ cs, (c == '\x7b') = false) :
      ∀ c ∈ name ++ '\x7d' :: cs, (c == '\x7b') = false := by
    intro c hc
    rw [List.mem_append, List.mem_cons] at hc
    rcases hc with hc | rfl | hc
    · rw [beq_eq_false_iff_ne]
      rintro rfl
      exact hname.1 hc
    · rfl
    · exact h c hc
  rw [templateParts_append_cons, templateParts_of_not_hasSegment hbefore]
  rcases Url.splitAt_cases (· == '\x7b') after with ⟨hp, hs⟩ | ⟨part, mark, rest, rfl, hp, hm, hs⟩
  · rw [Url.splitAt_of_forall (hopen hp), List.foldl_cons, List.foldl_nil, add_of_append hname.2,
      templateParts, hs]
    rfl
  · have hcut : Url.splitAt (· == '\x7b') (name ++ '\x7d' :: (part ++ mark :: rest)) =
        (name ++ '\x7d' :: part) :: Url.splitAt (· == '\x7b') rest := by
      have := Url.splitAt_append_cons (· == '\x7b') hm (name ++ '\x7d' :: part) rest
      rw [Url.splitAt_of_forall (hopen hp)] at this
      simpa using this
    rw [hcut, List.foldl_cons, add_of_append hname.2, templateParts, hs]
    exact foldl_add_concat _ [before] part

theorem templateParts_of_segmented (h : Segmented cs literals) : templateParts cs = literals := by
  induction h with
  | literal h => exact templateParts_of_not_hasSegment h
  | segment hbefore hname _ ih => rw [templateParts_segment hbefore hname, ih]

/-- A template is segmented in exactly one way. -/
theorem segmented_iff : Segmented cs literals ↔ literals = templateParts cs := by
  constructor
  · intro h
    exact (templateParts_of_segmented h).symm
  · rintro rfl
    obtain ⟨literals, h⟩ := exists_segmented cs
    rwa [templateParts_of_segmented h]

end

/-! ## Filling -/

section

variable {literals : List (List Char)} {text : List Char}

theorem skip_iff {rest : List (List Char)} :
    matchesParts.skip rest text = true ↔
      ∃ filler cs, text = filler ++ cs ∧ OnOneLine filler ∧ matchesParts rest cs = true := by
  induction text with
  | nil =>
    rw [matchesParts.skip]
    constructor
    · intro h
      exact ⟨[], [], rfl, List.not_mem_nil, h⟩
    · rintro ⟨filler, cs, he, -, h⟩
      obtain ⟨-, rfl⟩ := List.append_eq_nil_iff.1 he.symm
      exact h
  | cons c text ih =>
    rw [matchesParts.skip, Bool.or_eq_true, Bool.and_eq_true, bne_iff_ne, ih]
    constructor
    · rintro (h | ⟨hc, filler, cs, rfl, hf, h⟩)
      · exact ⟨[], _, rfl, List.not_mem_nil, h⟩
      · exact ⟨c :: filler, cs, rfl, List.not_mem_cons_of_ne_of_not_mem (Ne.symm hc) hf, h⟩
    · rintro ⟨_ | ⟨x, filler⟩, cs, he, hf, h⟩
      · exact .inl (by rwa [he])
      · obtain ⟨rfl, rfl⟩ := List.cons.inj he
        refine .inr ⟨?_, filler, cs, rfl, fun hm => hf (List.mem_cons_of_mem _ hm), h⟩
        rintro rfl
        exact hf List.mem_cons_self

theorem matchesParts_iff (hne : literals ≠ []) :
    matchesParts literals text = true ↔ Filled OnOneLine literals text := by
  induction literals generalizing text with
  | nil => exact absurd rfl hne
  | cons literal literals ih =>
    cases literals with
    | nil =>
      rw [matchesParts, beq_iff_eq]
      constructor
      · rintro rfl
        exact .last
      · intro h
        cases h with
        | last => rfl
        | more _ hrest => cases hrest
    | cons next literals =>
      have hnext : next :: literals ≠ [] := List.cons_ne_nil _ _
      rw [matchesParts.eq_3 text literal _ hnext, Bool.and_eq_true, List.isPrefixOf_iff_prefix,
        skip_iff]
      constructor
      · rintro ⟨⟨rest, rfl⟩, filler, cs, he, hf, h⟩
        rw [List.drop_left] at he
        subst he
        exact .more hf ((ih hnext).1 h)
      · intro h
        cases h with
        | @more _ filler rest _ hf hrest =>
          refine ⟨List.prefix_append _ _, filler, rest, ?_, hf, (ih hnext).2 hrest⟩
          exact List.drop_left

theorem Filled.imp {P Q : List Char → Prop} (h : Filled P literals text)
    (hpq : ∀ filler, P filler → (∀ c ∈ filler, c ∈ text) → Q filler) :
    Filled Q literals text := by
  induction h with
  | last => exact .last
  | @more literal filler rest _ hf _ ih =>
    have hfiller : ∀ c ∈ filler, c ∈ literal ++ (filler ++ rest) := fun c hc =>
      List.mem_append_right _ (List.mem_append_left _ hc)
    have hrest : ∀ c ∈ rest, c ∈ literal ++ (filler ++ rest) := fun c hc =>
      List.mem_append_right _ (List.mem_append_right _ hc)
    exact .more (hpq _ hf hfiller) (ih fun f hp hc => hpq f hp fun c h => hrest c (hc c h))

end

/-! ## Templates and filters -/

theorem fills_iff {P : List Char → Prop} {template text : String} :
    Fills P template text ↔ Filled P (templateParts template.toList) text.toList := by
  constructor
  · rintro ⟨literals, hs, hf⟩
    rwa [← segmented_iff.1 hs]
  · intro h
    exact ⟨_, segmented_iff.2 rfl, h⟩

/-- The texts that match are those with fillers on one line. -/
theorem matchesTemplate_iff {template text : String} :
    matchesTemplate template text = true ↔ Fills OnOneLine template text := by
  obtain ⟨literals, h⟩ := exists_segmented template.toList
  have hne : templateParts template.toList ≠ [] := by
    rw [templateParts_of_segmented h]
    exact h.ne_nil
  rw [fills_iff, matchesTemplate, matchesParts_iff hne]

/-- On one line, any filler is one on one line. -/
theorem fills_onOneLine_iff {template text : String} (h : '\n' ∉ text.toList) :
    Fills OnOneLine template text ↔ Fills (fun _ => True) template text := by
  constructor
  · rintro ⟨literals, hs, hf⟩
    exact ⟨literals, hs, hf.imp fun _ _ _ => trivial⟩
  · rintro ⟨literals, hs, hf⟩
    exact ⟨literals, hs, hf.imp fun _ _ hc hm => h (hc _ hm)⟩

theorem fills_of_not_hasSegment {P : List Char → Prop} {template text : String}
    (h : ¬HasSegment template.toList) : Fills P template text ↔ text = template := by
  rw [fills_iff, templateParts_of_not_hasSegment h]
  constructor
  · intro hf
    generalize hl : text.toList = cs at hf
    cases hf with
    | last => exact String.toList_inj.1 hl
    | more _ hrest => cases hrest
  · rintro rfl
    exact .last

theorem ProblemFilter.matchesText_iff {template text : Option String} :
    matchesText template text = true ↔
      ∀ t ∈ template, ∃ s ∈ text, Fills OnOneLine t s := by
  rw [matchesText, Option.all_eq_true]
  refine forall₂_congr fun t _ => ?_
  rw [Option.any_eq_true]
  refine exists_congr fun s => and_congr_right fun _ => matchesTemplate_iff

/-- **A filter accepts a problem if and only if the status and each text that are given match, and a
text matches a template if it is its literal pieces around fillers on one line.** A template
without names in braces matches itself only. -/
theorem ProblemFilter.accepts_iff_fills (template text : String) (f : ProblemFilter) (p : Problem) :
    (matchesTemplate template text = true ↔ Fills OnOneLine template text) ∧
    ('\n' ∉ text.toList →
      (matchesTemplate template text = true ↔ Fills (fun _ => True) template text)) ∧
    (¬HasSegment template.toList → (matchesTemplate template text = true ↔ text = template)) ∧
    (f.accepts p = true ↔ ∀ w ∈ f.properties,
      (∀ status ∈ w.status, status = p.status) ∧
      (∀ t ∈ w.type, Fills OnOneLine t p.type) ∧
      (∀ t ∈ w.instance_, ∃ s ∈ p.instance_, Fills OnOneLine t s) ∧
      (∀ t ∈ w.title, ∃ s ∈ p.title, Fills OnOneLine t s) ∧
      ∀ t ∈ w.detail, ∃ s ∈ p.detail, Fills OnOneLine t s) := by
  refine ⟨matchesTemplate_iff, fun h => ?_, fun h => ?_, ?_⟩
  · rw [matchesTemplate_iff, fills_onOneLine_iff h]
  · rw [matchesTemplate_iff, fills_of_not_hasSegment h]
  · rw [accepts, Option.all_eq_true]
    refine forall₂_congr fun w _ => ?_
    simp only [Bool.and_eq_true, matchesText_iff, Option.all_eq_true, beq_iff_eq,
      Option.mem_some_iff, exists_eq_left', and_assoc]
    exact Iff.rfl

theorem matchesTemplate_iff_of_one_line :
    (matchesTemplate "a\x7bx\x7db" "a-b" = true ↔
      Fills (fun _ => True) "a\x7bx\x7db" "a-b") ∧
    (matchesTemplate "a\x7bb" "a-b" = true ↔ "a-b" = "a\x7bb") := by
  let p : Problem := { type := "urn:a", status := 500 }
  refine ⟨(ProblemFilter.accepts_iff_fills _ _ {} p).2.1 (by decide),
    (ProblemFilter.accepts_iff_fills _ _ {} p).2.2.1 ?_⟩
  rintro ⟨before, name, after, h, -⟩
  have hm : '\x7d' ∈ "a\x7bb".toList := by
    rw [h]
    simp
  revert hm
  decide

/-- A filler of two lines does not match, though any text should. -/
example : matchesTemplate "a\x7bx\x7db" "a\nb" = false := by cbv

end WorkflowDsl
