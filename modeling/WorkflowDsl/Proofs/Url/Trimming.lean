import Mathlib.Data.List.DropRight
import WorkflowDsl.Proofs.Url.Authority
import WorkflowDsl.Reader.Reference

/-!
# Blanks around URLs

Unicode has blanks that are no part of the edges that are passed over when a URL is read. At the end
of a text such a blank belongs to the URL: it is encoded, or refused as part of a host. So a text may
be a URL that is none without the blanks around it, but not one of a special scheme
(`Url.join_of_parse_trim`): then it means the same against any base.
-/

namespace WorkflowDsl

/-! ## Edges -/

section

variable {p q : Char → Bool} {c : Char}

/-- A text without the characters at both ends for which `p` holds. -/
def strip (p : Char → Bool) (cs : List Char) : List Char := (cs.dropWhile p).rdropWhile p

theorem rdropWhile_append_cons (h : p c = false) (as bs : List Char) :
    (as ++ c :: bs).rdropWhile p = as ++ c :: bs.rdropWhile p := by
  induction bs using List.reverseRecOn with
  | nil => exact List.rdropWhile_concat_neg _ _ _ (by rw [h]; exact Bool.false_ne_true)
  | append_singleton bs b ih =>
    rw [← List.cons_append, ← List.append_assoc]
    cases hb : p b with
    | true => rw [List.rdropWhile_concat_pos _ _ _ hb, ih, List.rdropWhile_concat_pos _ _ _ hb]
    | false =>
      have hb : ¬p b = true := by rw [hb]; exact Bool.false_ne_true
      rw [List.rdropWhile_concat_neg _ _ _ hb, List.rdropWhile_concat_neg _ _ _ hb,
        List.append_assoc, List.cons_append]

theorem not_of_mem_getLast?_rdropWhile {cs : List Char} (h : c ∈ (cs.rdropWhile p).getLast?) :
    p c = false := by
  obtain ⟨hn, rfl⟩ := List.mem_getLast?_eq_getLast h
  exact Bool.eq_false_iff.2 (List.rdropWhile_last_not p cs hn)

/-- What is taken off an end in two ways, and in one of them alone. -/
theorem exists_rdropWhile_append (cs : List Char) :
    ∃ x, cs.rdropWhile p = (cs.rdropWhile q).rdropWhile p ++ x ∧
      (∀ c ∈ x, p c = true ∨ q c = true) ∧ ∀ c ∈ x.getLast?, p c = false := by
  obtain ⟨r, hr, hq⟩ : ∃ r, cs = cs.rdropWhile q ++ r ∧ ∀ c ∈ r, q c = true :=
    ⟨cs.rtakeWhile q, List.rdropWhile_append_rtakeWhile.symm, fun _ => List.mem_rtakeWhile_imp⟩
  obtain ⟨e, he, hp⟩ : ∃ e, cs.rdropWhile q = (cs.rdropWhile q).rdropWhile p ++ e ∧
      ∀ c ∈ e, p c = true :=
    ⟨_, List.rdropWhile_append_rtakeWhile.symm, fun _ => List.mem_rtakeWhile_imp⟩
  obtain ⟨g, hg, hp'⟩ : ∃ g, cs = cs.rdropWhile p ++ g ∧ ∀ c ∈ g, p c = true :=
    ⟨_, List.rdropWhile_append_rtakeWhile.symm, fun _ => List.mem_rtakeWhile_imp⟩
  have h : cs.rdropWhile p ++ g = (cs.rdropWhile q).rdropWhile p ++ (e ++ r) := by
    rw [← List.append_assoc, ← he, ← hr, ← hg]
  rcases List.append_eq_append_iff.1 h with ⟨x, hx, hx'⟩ | ⟨x, hx, hx'⟩
  · -- All of `x` is taken off by `p` alone, so that there is none.
    cases hl : x.getLast? with
    | none =>
      rw [List.getLast?_eq_none_iff.1 hl, List.append_nil] at hx
      exact ⟨[], by rw [hx, List.append_nil], nofun, nofun⟩
    | some c =>
      have hm : c ∈ ((cs.rdropWhile q).rdropWhile p).getLast? := by
        rw [hx, List.getLast?_append, hl]
        rfl
      have hc : p c = false := not_of_mem_getLast?_rdropWhile hm
      rw [hp' c (hx' ▸ List.mem_append_left _ (List.mem_of_getLast? hl))] at hc
      cases hc
  · refine ⟨x, hx, fun c hc => ?_, fun c hc => ?_⟩
    · rcases List.mem_append.1 (hx' ▸ List.mem_append_left g hc) with hm | hm
      · exact .inl (hp c hm)
      · exact .inr (hq c hm)
    · have hm : c ∈ (cs.rdropWhile p).getLast? := by
        rw [hx, List.getLast?_append, Option.mem_def.1 hc]
        rfl
      exact not_of_mem_getLast?_rdropWhile hm

theorem dropWhile_append_cons {as bs : List Char} (ha : ∀ a ∈ as, p a = true) (hc : p c = false) :
    (as ++ c :: bs).dropWhile p = c :: bs := by
  have hn : ¬p c = true := by
    rw [hc]
    exact Bool.false_ne_true
  rw [List.dropWhile_append_of_pos ha, List.dropWhile_cons_of_neg hn]

theorem exists_of_mem_head?_strip {cs : List Char} (hh : c ∈ (strip p cs).head?) :
    p c = false ∧ ∃ as bs, cs = as ++ c :: bs ∧ ∀ a ∈ as, p a = true := by
  have hd : c ∈ (cs.dropWhile p).head? := by
    obtain ⟨r, hr⟩ := List.rdropWhile_prefix p (l := cs.dropWhile p)
    rw [← hr, List.head?_append, show ((cs.dropWhile p).rdropWhile p).head? = some c from hh]
    rfl
  have hp : p c = false := by
    have h := List.head?_dropWhile_not p cs
    rw [Option.mem_def.1 hd] at h
    simpa using h
  obtain ⟨bs, hbs⟩ := List.head?_eq_some_iff.1 hd
  refine ⟨hp, cs.takeWhile p, bs, ?_, fun _ => List.mem_takeWhile_imp⟩
  rw [← hbs, List.takeWhile_append_dropWhile]

/-- **What is stripped of a text, and what is stripped of it when it has been stripped already.** -/
theorem exists_strip_strip {cs : List Char} (hh : c ∈ (strip p cs).head?) (hc : q c = false) :
    ∃ x, strip p cs = strip p (strip q cs) ++ x ∧
      (∀ c ∈ x, p c = true ∨ q c = true) ∧ ∀ c ∈ x.getLast?, p c = false := by
  obtain ⟨hpc, as, bs, rfl, ha⟩ := exists_of_mem_head?_strip hh
  obtain ⟨x, hx, hxs⟩ := exists_rdropWhile_append (p := p) (q := q) bs
  have hcons (cs : List Char) : (c :: cs).rdropWhile p = c :: cs.rdropWhile p :=
    rdropWhile_append_cons hpc [] cs
  have hq : (as ++ c :: bs).dropWhile q = as.dropWhile q ++ c :: bs := by
    have hd : (c :: bs).dropWhile q = c :: bs :=
      List.dropWhile_cons_of_neg (by rw [hc]; exact Bool.false_ne_true)
    rw [List.dropWhile_append, hd]
    cases as.dropWhile q <;> rfl
  refine ⟨x, ?_, hxs⟩
  have ha' : ∀ a ∈ as.dropWhile q, p a = true := fun a h => ha a (List.dropWhile_subset _ h)
  rw [strip, strip, strip, dropWhile_append_cons ha hpc, hcons, hx, hq, rdropWhile_append_cons hc,
    dropWhile_append_cons ha' hpc, hcons, List.cons_append]

end

theorem Text.toList_trim (s : String) : (Text.trim s).toList = strip Text.isBlank s.toList :=
  String.toList_ofList

namespace Url

/-- The character is passed over at the ends of a text when a URL is read. -/
def isEdge (c : Char) : Bool := c.toNat ≤ 32

/-- The character is passed over, or trimmed. -/
def isOuter (c : Char) : Bool := isEdge c || Text.isBlank c

theorem significant_eq (s : String) :
    significant s = (strip isEdge s.toList).filter (!isTabOrLineBreak ·) := rfl

theorem isEdge_of_isTabOrLineBreak {c : Char} (h : isTabOrLineBreak c = true) :
    isEdge c = true := by
  have h : c = '\t' ∨ c = '\n' ∨ c = '\r' := by
    simp only [isTabOrLineBreak, Bool.or_eq_true, beq_iff_eq] at h
    tauto
  rcases h with rfl | rfl | rfl <;> rfl

theorem filter_of_isEdge {c : Char} (hc : isEdge c = false) :
    [c].filter (!isTabOrLineBreak ·) = [c] := by
  cases ht : isTabOrLineBreak c with
  | true =>
    rw [isEdge_of_isTabOrLineBreak ht] at hc
    cases hc
  | false => rw [List.filter_cons_of_pos (by rw [ht]; rfl), List.filter_nil]

/-- The first character that counts is no edge. -/
theorem head?_significant (s : String) : (significant s).head? = (strip isEdge s.toList).head? := by
  rw [significant_eq]
  cases hs : strip isEdge s.toList with
  | nil => rfl
  | cons c cs =>
    have hm : c ∈ (strip isEdge s.toList).head? := by rw [hs]; rfl
    have hc := (exists_of_mem_head?_strip hm).1
    rw [← List.singleton_append, List.filter_append, filter_of_isEdge hc]
    rfl

/-- **What starts with a letter counts up to what is trimmed, and further if it ends in a wide
blank.** -/
theorem significant_trim {s : String} {c : Char} (hh : c ∈ (significant s).head?)
    (hc : isOuter c = false) :
    ∃ ws, significant s = significant (Text.trim s) ++ ws ∧ (∀ w ∈ ws, isOuter w = true) ∧
      ∀ w ∈ ws.getLast?, w ∈ wideBlanks := by
  rw [head?_significant] at hh
  obtain ⟨x, hx, ho, hl⟩ := exists_strip_strip hh (Bool.or_eq_false_iff.1 hc).2
  refine ⟨x.filter (!isTabOrLineBreak ·), ?_, fun w hw => ?_, ?_⟩
  · rw [significant_eq, significant_eq, Text.toList_trim, hx, List.filter_append]
  · exact Bool.or_eq_true_iff.2 (ho w (List.mem_filter.1 hw).1)
  · rcases List.eq_nil_or_concat x with rfl | ⟨y, w, rfl⟩
    · exact nofun
    · rw [List.concat_eq_append] at ho hl ⊢
      have hw : isEdge w = false := hl w List.getLast?_concat
      rw [List.filter_append, filter_of_isEdge hw, List.getLast?_concat]
      intro w' hw'
      obtain rfl := Option.some.inj hw'
      have hb : Text.isBlank w = true :=
        (ho w (by simp)).resolve_left (by rw [hw]; exact Bool.false_ne_true)
      exact mem_wideBlanks hb (by simpa [isEdge] using hw)

/-! ## Texts with a scheme -/

section

variable {cs ws rest : List Char} {scheme : String} {base : Url}

theorem unstopped_of_isOuter {kind : SchemeKind} (hw : ∀ w ∈ ws, isOuter w = true) :
    Unstopped kind ws := by
  intro w hm
  by_contra h
  have hc := mem_of_isStop (Bool.not_eq_false _ ▸ h)
  have ho := hw w hm
  simp only [List.mem_cons, List.not_mem_nil, or_false] at hc
  rcases hc with rfl | rfl | rfl | rfl <;> cases ho

/-- A scheme starts with a letter, and what is trimmed behind it is no part of it. -/
theorem scheme?_append (hw : ∀ w ∈ ws, isOuter w = true)
    (h : scheme? (cs ++ ws) = some (scheme, rest)) :
    (∃ c ∈ cs.head?, c.isAlpha = true) ∧
      ∃ rest', scheme? cs = some (scheme, rest') ∧ rest = rest' ++ ws := by
  have hcolon : ∀ w ∈ ws, (w == ':') = false := by
    intro w hm
    by_contra hc
    obtain rfl : w = ':' := by simpa using hc
    cases hw ':' hm
  obtain ⟨name, t, rfl, hn, ht⟩ := exists_span (· == ':') cs
  rw [scheme?] at h
  cases t with
  | nil =>
    have hs : span (· == ':') (name ++ [] ++ ws ++ []) = (name ++ [] ++ ws, []) := by
      refine span_append (fun c hc => ?_) fun c hc => absurd hc (Option.not_mem_none c)
      rw [List.append_nil] at hc
      exact (List.mem_append.1 hc).elim (hn c) (hcolon c)
    rw [List.append_nil (name ++ [] ++ ws)] at hs
    rw [hs] at h
    simp at h
  | cons c t =>
    have hc : ∀ x ∈ (c :: t).head?, (x == ':') = true := ht
    have hs : span (· == ':') (name ++ c :: t ++ ws) = (name, c :: (t ++ ws)) := by
      rw [List.append_assoc, List.cons_append]
      exact span_append hn hc
    have hs' : span (· == ':') (name ++ c :: t) = (name, c :: t) := span_append hn hc
    rw [hs] at h
    rw [scheme?, hs']
    dsimp only at h ⊢
    split at h
    · next hname =>
      obtain ⟨rfl, rfl⟩ := Prod.mk.inj (Option.some.inj h)
      rw [Bool.and_eq_true, Bool.and_eq_true] at hname
      refine ⟨?_, t, ?_, rfl⟩
      · obtain ⟨x, hx, ha⟩ := (Option.any_eq_true _ _).1 hname.1.1
        exact ⟨x, by rw [List.head?_append, hx]; rfl, ha⟩
      · rw [if_pos (by rw [hname.1.1, hname.1.2]; rfl)]
        rfl
    · cases h

/-- A reference with a scheme that is not special means the same against any base. -/
theorem join_of_other {s : String} (hs : scheme? (significant s) = some (scheme, rest))
    (hk : schemeKind scheme = .other) : base.join s = parse s := by
  rw [join, parse, parseWith, parseWith, hs]
  dsimp only
  unfold withScheme
  rw [hk]

/-- What is read with the blanks behind it is read without them, since only an authority could end
in them. -/
theorem reads_of_append (kind : SchemeKind) {read : List Char → Except ParseError Url}
    (hr : ∀ {a t t'}, Unstopped kind a → Stops kind t → Stops kind t' →
      Reads (read (a ++ t)) → Reads (read (a ++ t')))
    (hb : ∀ {a c}, c ∈ wideBlanks → Unstopped kind (a ++ [c]) → ¬Reads (read (a ++ [c])))
    (hw : ∀ w ∈ ws, isOuter w = true) (hl : ∀ w ∈ ws.getLast?, w ∈ wideBlanks)
    (h : Reads (read (cs ++ ws))) : Reads (read cs) := by
  rcases List.eq_nil_or_concat ws with rfl | ⟨ws, w, rfl⟩
  · rwa [List.append_nil] at h
  · rw [List.concat_eq_append] at hw hl h
    obtain ⟨a, t, rfl, ha, ht⟩ := exists_span (isStop kind) cs
    cases t with
    | nil =>
      rw [List.append_nil, ← List.append_assoc] at h
      refine absurd h (hb (hl w List.getLast?_concat) fun c hc => ?_)
      rw [List.append_assoc] at hc
      exact (List.mem_append.1 hc).elim (ha c) (unstopped_of_isOuter hw c)
    | cons c t =>
      rw [List.append_assoc, List.cons_append] at h
      have ht' : Stops kind (c :: (t ++ (ws ++ [w]))) := fun x hx => ht x hx
      exact hr ha ht' ht h

/-- What follows the scheme of a file is read without the blanks behind it. -/
theorem reads_file_of_append (hw : ∀ w ∈ ws, isOuter w = true)
    (hl : ∀ w ∈ ws.getLast?, w ∈ wideBlanks) (h : Reads (file none (cs ++ ws))) :
    Reads (file none cs) := by
  match cs with
  | [] => exact ⟨_, rfl⟩
  | [c] =>
    rw [file]
    split <;> exact ⟨_, rfl⟩
  | c :: d :: cs =>
    rw [List.cons_append, List.cons_append, file, List.head?_cons, Option.any_some,
      List.tail_cons] at h
    rw [file, List.head?_cons, Option.any_some, List.tail_cons]
    by_cases hc : isSlash .file c = true
    · rw [if_pos hc] at h ⊢
      by_cases hd : isSlash .file d = true
      · rw [if_pos hd] at h ⊢
        refine reads_of_append .file (fun ha ht ht' h => ?_) (fun hc ha => ?_) hw hl h
        · rw [reads_fileAfterSlashes_append ha ht] at h
          rwa [reads_fileAfterSlashes_append ha ht']
        · exact not_reads_fileAfterSlashes_of_wideBlank hc ha
      · rw [if_neg hd]
        exact ⟨_, rfl⟩
    · rw [if_neg hc]
      exact ⟨_, rfl⟩

/-- What follows a special scheme is read without the blanks behind it. -/
theorem reads_withScheme_of_append (hk : schemeKind scheme ≠ .other)
    (hw : ∀ w ∈ ws, isOuter w = true) (hl : ∀ w ∈ ws.getLast?, w ∈ wideBlanks)
    (h : Reads (withScheme none scheme (cs ++ ws))) : Reads (withScheme none scheme cs) := by
  unfold withScheme at h ⊢
  cases hs : schemeKind scheme with
  | other => exact absurd hs hk
  | special =>
    rw [hs] at h
    obtain ⟨slashes, r, rfl, hsl, hr⟩ := exists_span (fun c => !(c == '/' || c == '\\')) cs
    have hr' : ∀ c ∈ (r ++ ws).head?, (!(c == '/' || c == '\\')) = true := by
      intro c hc
      cases r with
      | cons d r => exact hr c hc
      | nil =>
        have ho := hw c (List.mem_of_head? hc)
        rw [Bool.not_eq_true', ← Bool.not_eq_true, Bool.or_eq_true, beq_iff_eq, beq_iff_eq]
        rintro (rfl | rfl) <;> cases ho
    rw [List.append_assoc, span_append hsl hr'] at h
    rw [span_append hsl hr]
    dsimp only at h ⊢
    refine reads_of_append .special (fun ha ht ht' h => ?_) (fun hc ha => ?_) hw hl h
    · rw [reads_afterSlashes_append hs ha ht] at h
      rwa [reads_afterSlashes_append hs ha ht']
    · exact not_reads_afterSlashes_of_wideBlank hc hs ha
  | file =>
    rw [hs] at h
    dsimp only at h ⊢
    rw [Option.filter_none] at h ⊢
    exact reads_file_of_append hw hl h

theorem not_isOuter_of_isAlpha {c : Char} (h : c.isAlpha = true) : isOuter c = false := by
  have hc := toNat_of_isAlpha h
  rw [← Bool.not_eq_true]
  simp only [isOuter, isEdge, Text.isBlank, Bool.or_eq_true, Bool.and_eq_true, decide_eq_true_eq,
    beq_iff_eq]
  omega

/-- **A text that is no URL without the blanks around it is the same URL against any base.** -/
theorem join_of_parse_trim {s : String} {v : Url} (ht : ∀ u, parse (Text.trim s) ≠ .ok u)
    (h : parse s = .ok v) : base.join s = .ok v := by
  have hp := h
  rw [parse, parseWith] at hp
  cases hs : scheme? (significant s) with
  | none =>
    rw [hs] at hp
    cases hp
  | some x =>
    obtain ⟨scheme, rest⟩ := x
    rw [hs] at hp
    by_cases hk : schemeKind scheme = .other
    · rw [join_of_other hs hk, h]
    · exfalso
      rw [← List.append_nil (significant s)] at hs
      have hnil : ∀ w ∈ ([] : List Char), isOuter w = true := nofun
      obtain ⟨⟨c, hc, ha⟩, -⟩ := scheme?_append hnil hs
      obtain ⟨ws, hws, hw, hl⟩ := significant_trim hc (not_isOuter_of_isAlpha ha)
      rw [List.append_nil, hws] at hs
      obtain ⟨-, rest', hs', rfl⟩ := scheme?_append hw hs
      obtain ⟨u, hu⟩ := reads_withScheme_of_append hk hw hl ⟨v, hp⟩
      refine ht u ?_
      rw [parse, parseWith, hs']
      exact hu

theorem scheme?_letter {a : Char} (ha : a.isAlpha = true) (cs : List Char) :
    scheme? (a :: ':' :: cs) = some (String.ofList [a.toLower], cs) := by
  have hn : (a == ':') = false := by
    rw [beq_eq_false_iff_ne]
    rintro rfl
    cases ha
  have hs : span (· == ':') ([a] ++ ':' :: cs) = ([a], ':' :: cs) := by
    refine span_append (fun c hc => ?_) fun c hc => ?_
    · rwa [List.mem_singleton.1 hc]
    · rw [← Option.some.inj hc]
      rfl
  rw [scheme?, show a :: ':' :: cs = [a] ++ ':' :: cs from rfl, hs]
  simp [ha, Char.isAlphanum]

theorem schemeKind_letter (c : Char) : schemeKind (String.ofList [c]) = .other := by
  have hn (name : String) (h : name.length ≠ 1) : (String.ofList [c] == name) = false := by
    rw [beq_eq_false_iff_ne]
    rintro rfl
    exact h (by simp)
  have hs : ["http", "https", "ws", "wss", "ftp"].contains (String.ofList [c]) = false := by
    simp only [List.contains_cons, List.contains_nil, Bool.or_false, Bool.or_eq_false_iff]
    refine ⟨hn _ (by decide), hn _ (by decide), hn _ (by decide), hn _ (by decide), hn _ ?_⟩
    decide
  rw [schemeKind, hn _ (by decide), hs]
  rfl

/-- The path of a drive has a letter for its scheme. -/
theorem join_of_isDrivePath {s : String} (h : isDrivePath s = true) : base.join s = parse s := by
  rw [isDrivePath] at h
  split at h
  · next a c cs hs =>
    rw [Bool.and_eq_true, Bool.or_eq_true, beq_iff_eq, beq_iff_eq] at h
    obtain ⟨ha, hc⟩ := h
    have hae : isEdge a = false := (Bool.or_eq_false_iff.1 (not_isOuter_of_isAlpha ha)).1
    have hce : isEdge c = false := by rcases hc with rfl | rfl <;> rfl
    have hst : strip isEdge s.toList = [a] ++ [':'] ++ c :: cs.rdropWhile isEdge := by
      rw [strip, hs, List.dropWhile_cons_of_neg (by rw [hae]; exact Bool.false_ne_true)]
      exact rdropWhile_append_cons hce [a, ':'] cs
    have hsig : significant s =
        a :: ':' :: (c :: cs.rdropWhile isEdge).filter (!isTabOrLineBreak ·) := by
      rw [significant_eq, hst, List.filter_append, List.filter_append, filter_of_isEdge hae]
      rfl
    exact join_of_other (by rw [hsig]; exact scheme?_letter ha _) (schemeKind_letter _)
  · cases h

end

end Url

end WorkflowDsl
