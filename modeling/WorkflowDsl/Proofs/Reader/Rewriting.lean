import WorkflowDsl.Proofs.Document.Texts
import WorkflowDsl.Proofs.Reader.Rebasing
import WorkflowDsl.Proofs.Url.Trimming

/-!
# Rewritten references

A relative reference that is replaced by the text of the URL that it is joined to means the same as
before (`meaning_rebaseReference`), as long as this text is read as that URL. It is then no relative
reference any more, or one that is replaced by itself. Documents may be rewritten as if only their
own texts were replaced (`rebaseResources_congr` and `rebaseLegacyReferences_congr`, with
`agreeOn_toAbsoluteIn`), so that this has to be so of none but these.
-/

namespace WorkflowDsl

/-! ## Single references -/

section

variable {b : Url} {s : String}

/-- The text of the URL that a reference is joined to. -/
def toAbsolute (b : Url) (s : String) : Option String := (b.join s).toOption.map Url.text

/-- The URL that a reference means, if any. -/
def meaning (base : Option Url) (s : String) : Option Url := (resolveReference base s).toOption

/-- The text of the URL that the reference is joined to is read as this URL. -/
def JoinsBack (b : Url) (s : String) : Prop := ∀ u, b.join s = .ok u → Url.parse u.text = .ok u

instance : Decidable (JoinsBack b s) :=
  match h : b.join s with
  | .ok u => decidable_of_iff (Url.parse u.text = .ok u)
      ⟨fun hu _ hv => Except.ok.inj (h.symm.trans hv) ▸ hu, fun hb => hb u h⟩
  | .error _ => .isTrue fun _ hv => nomatch h.symm.trans hv

/-- A relative reference that is nevertheless a URL is that URL against any base. -/
theorem join_of_isRelativeReference (hr : isRelativeReference s = true) {u : Url}
    (h : Url.parse s = .ok u) : b.join s = .ok u := by
  refine Url.join_of_parse_trim (fun v hv => ?_) h
  rw [isRelativeReference, hv] at hr
  simp [Except.toOption] at hr

theorem toOption_mapError {ε ε' α : Type} (f : ε → ε') (x : Except ε α) :
    (x.mapError f).toOption = x.toOption := by
  cases x <;> rfl

/-- A reference means the URL that it is, or else the one that it is joined to. This is so of the
path of a drive, too, for which a base makes no difference. -/
theorem meaning_some : meaning (some b) s = (Url.parse s).toOption.or (b.join s).toOption := by
  rw [meaning, resolveReference.eq_def, absoluteReference?]
  cases hd : isDrivePath s with
  | true =>
    rw [if_pos rfl]
    show ((b.join s).mapError _).toOption = _
    rw [toOption_mapError, Url.join_of_isDrivePath hd, Option.or_self]
  | false =>
    rw [if_neg Bool.false_ne_true]
    cases (Url.parse s).toOption with
    | some u => rfl
    | none => exact toOption_mapError _ _

theorem meaning_of_parse {u : Url} (h : Url.parse s = .ok u) : meaning (some b) s = some u := by
  rw [meaning_some, h]
  rfl

theorem meaning_of_isRelativeReference (hr : isRelativeReference s = true) :
    meaning (some b) s = (b.join s).toOption := by
  rw [meaning_some]
  cases hp : Url.parse s with
  | error e => rfl
  | ok u =>
    rw [join_of_isRelativeReference hr hp]
    rfl

/-- **A relative reference means the same when it is replaced by the text of its URL.** -/
theorem meaning_rebaseReference (h : JoinsBack b s) :
    meaning (some b) (rebaseReference (toAbsolute b) s) = meaning (some b) s := by
  rw [rebaseReference]
  split
  · next hr =>
    rw [meaning_of_isRelativeReference hr, toAbsolute]
    cases hj : b.join s with
    | error e =>
      show meaning (some b) s = none
      rw [meaning_of_isRelativeReference hr, hj]
      rfl
    | ok u => exact meaning_of_parse (h u hj)
  · rfl

/-- What a reference is replaced by is replaced by itself. -/
theorem rebaseReference_rebaseReference (h : JoinsBack b s) :
    rebaseReference (toAbsolute b) (rebaseReference (toAbsolute b) s) =
      rebaseReference (toAbsolute b) s := by
  by_cases hr : isRelativeReference s = true
  · cases hj : b.join s with
    | error e =>
      have hs : rebaseReference (toAbsolute b) s = s := by
        rw [rebaseReference, if_pos hr, toAbsolute, hj]
        rfl
      rw [hs, hs]
    | ok u =>
      have hs : rebaseReference (toAbsolute b) s = u.text := by
        rw [rebaseReference, if_pos hr, toAbsolute, hj]
        rfl
      rw [hs, rebaseReference]
      split
      · next hu =>
        rw [toAbsolute, join_of_isRelativeReference hu (h u hj)]
        rfl
      · rfl
  · have hs : rebaseReference (toAbsolute b) s = s := if_neg hr
    rw [hs, hs]

end

/-! ## Documents -/

section

variable {T : String → Prop} {f g : String → String} {n : Node}

/-- The functions agree on the texts in `T`, which the first one does not lead out of. -/
structure AgreeOn (T : String → Prop) (f g : String → String) : Prop where
  eq : ∀ s, T s → f s = g s
  closed : ∀ s, T s → T (f s)

namespace AgreeOn

variable (h : AgreeOn T f g)
include h

theorem textsIn_modifyText (hn : n.TextsIn T) : (n.modifyText f).TextsIn T := by
  cases n with
  | string s => exact Node.textsIn_string.2 (h.closed s (Node.textsIn_string.1 hn))
  | _ => exact hn

theorem modifyText_eq (hn : n.TextsIn T) : n.modifyText f = n.modifyText g := by
  cases n with
  | string s => exact congrArg Node.string (h.eq s (Node.textsIn_string.1 hn))
  | _ => rfl

theorem textsIn_rebaseResource (hn : n.TextsIn T) : (rebaseResource f n).TextsIn T := by
  refine Node.textsIn_modifyAt (fun endpoint he => ?_) _ hn
  cases endpoint with
  | mapping => exact Node.textsIn_modifyAt (fun _ => h.textsIn_modifyText) _ he
  | _ => exact h.textsIn_modifyText he

theorem rebaseResource_eq (hn : n.TextsIn T) : rebaseResource f n = rebaseResource g n := by
  refine Node.modifyAt_congr (fun endpoint he => ?_) _ hn
  cases endpoint with
  | mapping => exact Node.modifyAt_congr (fun _ => h.modifyText_eq) _ he
  | _ => exact h.modifyText_eq he

end AgreeOn

/-- Changes one after another that are the same on trees with texts in `T`. -/
theorem foldl_modifyAt_congr {α : Type} {p : α → Pointer} {f g : α → Node → Node}
    (ht : ∀ a n, n.TextsIn T → (f a n).TextsIn T) (h : ∀ a n, n.TextsIn T → f a n = g a n)
    (as : List α) (hn : n.TextsIn T) :
    as.foldl (fun n a => n.modifyAt (f a) (p a)) n =
      as.foldl (fun n a => n.modifyAt (g a) (p a)) n := by
  induction as generalizing n with
  | nil => rfl
  | cons a as ih =>
    rw [List.foldl_cons, List.foldl_cons, ← Node.modifyAt_congr (h a) _ hn]
    exact ih (Node.textsIn_modifyAt (ht a) _ hn)

variable {rebase rebase' : String → Option String}
  (h : AgreeOn T (rebaseReference rebase) (rebaseReference rebase'))
include h

theorem rebaseResources_congr (hn : n.TextsIn T) :
    rebaseResources rebase n = rebaseResources rebase' n :=
  foldl_modifyAt_congr (p := ResourcePosition.pointer) (fun _ _ => h.textsIn_rebaseResource)
    (fun _ _ => h.rebaseResource_eq) _ hn

theorem rebaseLegacyReferences_congr (hn : n.TextsIn T) :
    rebaseLegacyReferences rebase n = rebaseLegacyReferences rebase' n := by
  refine foldl_modifyAt_congr (p := fun field => [field]) (fun field value hv => ?_)
    (fun field value hv => ?_) _ hn
  · cases value with
    | mapping =>
      dsimp only
      split
      · exact Node.textsIn_modifyAt (fun _ => h.textsIn_modifyText) _ hv
      · exact hv
    | _ => exact h.textsIn_modifyText hv
  · cases value with
    | mapping =>
      dsimp only
      split
      · exact Node.modifyAt_congr (fun _ => h.modifyText_eq) _ hv
      · rfl
    | _ => exact h.modifyText_eq hv

end

section

variable {b : Url} {texts : List String}

/-- The text of the URL that a reference is joined to, for some references alone. -/
def toAbsoluteIn (texts : List String) (b : Url) (s : String) : Option String :=
  if s ∈ texts then toAbsolute b s else none

theorem rebaseReference_toAbsoluteIn (s : String) :
    rebaseReference (toAbsoluteIn texts b) s =
      if s ∈ texts then rebaseReference (toAbsolute b) s else s := by
  rw [rebaseReference, toAbsoluteIn]
  split
  · split
    · next hr _ => rw [rebaseReference, if_pos hr]
    · rfl
  · next hr => rw [rebaseReference, if_neg hr, ite_self]

variable (h : ∀ s ∈ texts, JoinsBack b s)
include h

theorem meaning_rebaseReference_toAbsoluteIn (s : String) :
    meaning (some b) (rebaseReference (toAbsoluteIn texts b) s) = meaning (some b) s := by
  rw [rebaseReference_toAbsoluteIn]
  split
  · next hs => exact meaning_rebaseReference (h s hs)
  · rfl

theorem rebaseReference_toAbsoluteIn_idem (s : String) :
    rebaseReference (toAbsoluteIn texts b) (rebaseReference (toAbsoluteIn texts b) s) =
      rebaseReference (toAbsoluteIn texts b) s := by
  by_cases hs : s ∈ texts
  · rw [rebaseReference_toAbsoluteIn s, if_pos hs, rebaseReference_toAbsoluteIn]
    split
    · exact rebaseReference_rebaseReference (h s hs)
    · rfl
  · rw [rebaseReference_toAbsoluteIn s, if_neg hs, rebaseReference_toAbsoluteIn, if_neg hs]

/-- The texts of the document, and what they are replaced by, are replaced as ever. -/
theorem agreeOn_toAbsoluteIn :
    AgreeOn (fun s => s ∈ texts ∨ rebaseReference (toAbsolute b) s = s)
      (rebaseReference (toAbsolute b)) (rebaseReference (toAbsoluteIn texts b)) where
  eq s hs := by
    rw [rebaseReference_toAbsoluteIn]
    split
    · rfl
    · next hn => exact hs.resolve_left hn
  closed s hs := by
    rcases hs with hs | hs
    · exact .inr (rebaseReference_rebaseReference (h s hs))
    · exact .inr (by rw [hs, hs])

end

end WorkflowDsl
