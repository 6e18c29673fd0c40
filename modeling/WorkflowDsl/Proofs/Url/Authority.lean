import Mathlib.Data.List.TakeWhile
import WorkflowDsl.Proofs.Codec.Basic
import WorkflowDsl.Proofs.Url.Host

/-!
# Authorities of special URLs

Whether what follows the slashes of a special URL is read depends on its authority alone, which
reaches up to the first slash, question mark or number sign (`Url.afterSlashes_append`). An
authority that ends in a wide blank is none (`Url.not_isAuthority_of_wideBlank`): such a blank stands
in the host, or behind the digits of a port.
-/

namespace WorkflowDsl

namespace Url

variable {scheme : String} {kind : SchemeKind} {a b t cs : List Char}

/-- A value is read. -/
def Reads {α : Type} (x : Except ParseError α) : Prop := ∃ a, x = .ok a

theorem reads_bind {α β : Type} {x : Except ParseError α} {f : α → Except ParseError β} :
    Reads (x >>= f) ↔ ∃ a, x = .ok a ∧ Reads (f a) := by
  simp only [Reads, except_bind_eq_ok]
  exact ⟨fun ⟨b, a, ha, hb⟩ => ⟨a, ha, b, hb⟩, fun ⟨a, ha, b, hb⟩ => ⟨b, a, ha, hb⟩⟩

theorem not_reads_error {α : Type} {e : ParseError} : ¬Reads (.error e : Except ParseError α) :=
  nofun

/-- The character ends an authority. -/
def isStop (kind : SchemeKind) (c : Char) : Bool := isSlash kind c || isQueryOrFragment c

/-- No character of the text ends an authority. -/
def Unstopped (kind : SchemeKind) (cs : List Char) : Prop := ∀ c ∈ cs, isStop kind c = false

/-- The text is empty or starts with what ends an authority. -/
def Stops (kind : SchemeKind) (cs : List Char) : Prop := ∀ c ∈ cs.head?, isStop kind c = true

theorem stops_nil : Stops kind [] := fun _ h => absurd h (Option.not_mem_none _)

theorem Unstopped.of_cons {c : Char} (h : Unstopped kind (c :: cs)) :
    isStop kind c = false ∧ Unstopped kind cs := List.forall_mem_cons.1 h

/-- A text is cut where it stops. -/
theorem span_append {stop : Char → Bool} (ha : ∀ c ∈ a, stop c = false)
    (ht : ∀ c ∈ t.head?, stop c = true) : span stop (a ++ t) = (a, t) := by
  have hp : ∀ c ∈ a, (!stop c) = true := fun c hc => by rw [ha c hc]; rfl
  rw [span, List.takeWhile_append_of_pos hp, List.dropWhile_append_of_pos hp]
  cases t with
  | nil => rw [List.takeWhile_nil, List.dropWhile_nil, List.append_nil]
  | cons c t =>
    have hc : (!stop c) = false := by rw [ht c rfl]; rfl
    rw [List.takeWhile_cons, List.dropWhile_cons, hc]
    simp

theorem exists_span (stop : Char → Bool) (cs : List Char) :
    ∃ a t, cs = a ++ t ∧ (∀ c ∈ a, stop c = false) ∧ ∀ c ∈ t.head?, stop c = true := by
  refine ⟨cs.takeWhile (!stop ·), cs.dropWhile (!stop ·),
    List.takeWhile_append_dropWhile.symm, fun c hc => ?_, fun c hc => ?_⟩
  · simpa using List.mem_takeWhile_imp hc
  · have h := List.head?_dropWhile_not (!stop ·) cs
    rw [Option.mem_def.1 hc] at h
    simpa using h

/-! ## Parts of an authority -/

/-- What stands behind the user name and password. -/
def afterUserInfo (cs : List Char) : List Char :=
  match lastIndex? '@' cs with
  | none => cs
  | some i => cs.drop (i + 1)

theorem lastIndex?_lt {mark : Char} {i : Nat} (h : lastIndex? mark cs = some i) :
    i < cs.length := by
  obtain ⟨j, hj, rfl⟩ := Option.map_eq_some_iff.1 h
  have hl := (List.findIdx?_eq_some_iff_getElem.1 hj).1
  rw [List.length_reverse] at hl
  omega

theorem unstopped_afterUserInfo (h : Unstopped kind cs) : Unstopped kind (afterUserInfo cs) := by
  rw [afterUserInfo]
  cases lastIndex? '@' cs with
  | none => exact h
  | some i => exact fun c hc => h c (List.mem_of_mem_drop hc)

/-- What stands behind the user name and password is read, unless there is nothing. -/
theorem userInfo_append (ha : Unstopped kind a) (ht : Stops kind t) :
    (∃ name password, userInfo kind (a ++ t) = .ok (name, password, afterUserInfo a ++ t)) ∨
      ¬Reads (userInfo kind (a ++ t)) ∧ afterUserInfo a = [] := by
  have hs : span (fun c => isSlash kind c || isQueryOrFragment c) (a ++ t) = (a, t) :=
    span_append ha ht
  rw [userInfo, hs, afterUserInfo]
  dsimp only
  cases lastIndex? '@' a with
  | none => exact .inl ⟨"", "", rfl⟩
  | some i =>
    dsimp only
    by_cases h0 : (i == 0) = true
    · rw [if_pos h0]
      cases hd : a.drop (i + 1) with
      | nil =>
        split
        · exact .inr ⟨not_reads_error, rfl⟩
        · exact .inl ⟨"", "", rfl⟩
      | cons c cs =>
        have hc : isStop kind c = false := ha c (List.mem_of_mem_drop (hd ▸ List.mem_cons_self))
        refine .inl ⟨"", "", if_neg ?_⟩
        show ¬isStop kind c = true
        rw [hc]
        exact Bool.false_ne_true
    · rw [if_neg h0]
      exact .inl ⟨_, _, rfl⟩

/-- What follows an authority stays behind its host. -/
theorem spanHost_append (hb : Unstopped kind b) (ht : Stops kind t) (inside : Bool) :
    spanHost kind inside (b ++ t) =
      ((spanHost kind inside b).1, (spanHost kind inside b).2 ++ t) := by
  induction b generalizing inside with
  | nil =>
    cases t with
    | nil => rfl
    | cons c t =>
      have hc : isStop kind c = true := ht c rfl
      have hc : (isSlash kind c || isQueryOrFragment c) = true := hc
      show spanHost kind inside (c :: t) = ([], c :: t)
      rw [spanHost, if_pos (by rw [hc, Bool.true_or])]
  | cons c b ih =>
    rw [List.cons_append, spanHost, spanHost]
    split
    · rfl
    · rw [ih hb.of_cons.2]

/-- A host ends where its authority does, or before a port. -/
theorem spanHost_cases (hb : Unstopped kind b) (inside : Bool) :
    b = (spanHost kind inside b).1 ++ (spanHost kind inside b).2 ∧
      ∀ c ∈ (spanHost kind inside b).2.head?, c = ':' := by
  induction b generalizing inside with
  | nil => exact ⟨rfl, nofun⟩
  | cons c b ih =>
    obtain ⟨hc, hb⟩ := hb.of_cons
    have hc : (isSlash kind c || isQueryOrFragment c) = false := hc
    rw [spanHost]
    split
    · next h =>
      refine ⟨rfl, fun d hd => ?_⟩
      obtain rfl : c = d := Option.some.inj hd
      rw [hc, Bool.false_or, Bool.and_eq_true] at h
      exact eq_of_beq h.1
    · exact ⟨congrArg (c :: ·) (ih hb _).1, (ih hb _).2⟩

theorem mem_of_isStop {c : Char} (h : isStop kind c = true) : c ∈ ['/', '\\', '?', '#'] := by
  simp only [isStop, isSlash, isQueryOrFragment, Bool.or_eq_true, Bool.and_eq_true,
    beq_iff_eq] at h
  simp only [List.mem_cons]
  tauto

theorem not_isDigit_of_isStop {c : Char} (h : isStop kind c = true) : c.isDigit = false := by
  have hc := mem_of_isStop h
  simp only [List.mem_cons, List.not_mem_nil, or_false] at hc
  rcases hc with rfl | rfl | rfl | rfl <;> rfl

/-- The digits of a port reach up to the end of the authority. -/
theorem reads_port_append (ha : Unstopped .special a) (ht : Stops .special t) :
    Reads (port scheme (a ++ t)) ↔
      (∀ c ∈ a, c.isDigit = true) ∧ a.foldl (fun n c => n * 10 + (c.toNat - 48)) 0 ≤ 65535 := by
  by_cases hd : ∀ c ∈ a, c.isDigit = true
  · have hs : span (!·.isDigit) (a ++ t) = (a, t) := by
      refine span_append (fun c hc => ?_) fun c hc => ?_
      · rw [hd c hc]
        rfl
      · rw [not_isDigit_of_isStop (ht c hc)]
        rfl
    have hh : (t.head?.all fun c => c == '/' || c == '\\' || isQueryOrFragment c) = true := by
      rw [Option.all_eq_true]
      exact ht
    rw [port, hs]
    dsimp only
    rw [hh, if_pos rfl]
    split
    · next hv => exact iff_of_false not_reads_error fun h => absurd h.2 (Nat.not_le.2 hv)
    · next hv => exact iff_of_true ⟨_, rfl⟩ ⟨hd, Nat.not_lt.1 hv⟩
  · refine iff_of_false ?_ fun h => hd h.1
    obtain ⟨d, c, e, rfl, hde, hc⟩ : ∃ d c e, a = d ++ c :: e ∧ (∀ c ∈ d, c.isDigit = true) ∧
        c.isDigit = false := by
      obtain ⟨d, e, rfl, hde, he⟩ := exists_span (!·.isDigit) a
      have hde : ∀ c ∈ d, c.isDigit = true := fun c hc => by simpa using hde c hc
      cases e with
      | nil => exact absurd (by rwa [List.append_nil]) hd
      | cons c e => exact ⟨d, c, e, rfl, hde, by simpa using he c rfl⟩
    have hs : span (!·.isDigit) (d ++ c :: e ++ t) = (d, c :: (e ++ t)) := by
      rw [List.append_assoc, List.cons_append]
      exact span_append (fun c hc => by rw [hde c hc]; rfl) fun c' hc' => by
        rw [← Option.some.inj hc', hc]; rfl
    have hh : (c == '/' || c == '\\' || isQueryOrFragment c) = false :=
      ha c (List.mem_append_right _ List.mem_cons_self)
    rw [port, hs]
    dsimp only
    rw [List.head?_cons, Option.all_some, hh]
    split
    · exact not_reads_error
    · exact not_reads_error

/-! ## Authorities -/

/-- The text denotes a host, and a port if it has one. -/
structure IsAuthority (scheme : String) (cs : List Char) : Prop where
  ne_nil : (spanHost .special false cs).1 ≠ []
  host : Reads (specialHost (spanHost .special false cs).1)
  port : ∀ digits, (spanHost .special false cs).2 = ':' :: digits → Reads (port scheme digits)

theorem reads_afterSlashes (hk : schemeKind scheme = .special) :
    Reads (afterSlashes scheme cs) ↔ ∃ name password rest,
      userInfo .special cs = .ok (name, password, rest) ∧ IsAuthority scheme rest := by
  rw [afterSlashes, hk, reads_bind]
  constructor
  · rintro ⟨⟨name, password, rest⟩, hu, h⟩
    refine ⟨name, password, rest, hu, ?_⟩
    dsimp only at h
    rw [if_pos (by rfl)] at h
    split at h
    · cases not_reads_error h
    · next hne =>
      obtain ⟨_, hm, h⟩ := reads_bind.1 h
      obtain ⟨host, hh, rfl⟩ := except_map_eq_ok.1 hm
      refine ⟨by simpa using hne, ⟨host, hh⟩, fun digits hd => ?_⟩
      rw [if_neg (by simp), hd] at h
      obtain ⟨x, hx, -⟩ := reads_bind.1 h
      exact ⟨x, hx⟩
  · rintro ⟨name, password, rest, hu, hne, ⟨host, hh⟩, hp⟩
    refine ⟨_, hu, ?_⟩
    dsimp only
    rw [if_pos (by rfl), if_neg (by simpa using hne)]
    refine reads_bind.2 ⟨some host, except_map_eq_ok.2 ⟨host, hh, rfl⟩, ?_⟩
    rw [if_neg (by simp)]
    split
    · next digits hd =>
      obtain ⟨x, hx⟩ := hp digits hd
      refine reads_bind.2 ⟨x, hx, ?_⟩
      rw [if_neg (by simp)]
      exact ⟨_, rfl⟩
    · refine reads_bind.2 ⟨_, rfl, ?_⟩
      rw [if_neg (by simp)]
      exact ⟨_, rfl⟩

theorem isAuthority_append (hb : Unstopped .special b) (ht : Stops .special t) :
    IsAuthority scheme (b ++ t) ↔ IsAuthority scheme b := by
  have hs := spanHost_append hb ht false
  have hp : (∀ digits, (spanHost .special false b).2 ++ t = ':' :: digits →
        Reads (Url.port scheme digits)) ↔
      ∀ digits, (spanHost .special false b).2 = ':' :: digits → Reads (Url.port scheme digits) := by
    obtain ⟨he, hc⟩ := spanHost_cases hb false
    cases hr : (spanHost .special false b).2 with
    | nil =>
      refine iff_of_true (fun digits hd => ?_) nofun
      have hd : t = ':' :: digits := hd
      subst hd
      cases ht ':' rfl
    | cons c d =>
      rw [hr] at he hc
      have hd : Unstopped .special d := fun x hx => hb x (he ▸
        List.mem_append_right _ (List.mem_cons_of_mem _ hx))
      have hread : Reads (Url.port scheme (d ++ t)) ↔ Reads (Url.port scheme d) := by
        rw [reads_port_append hd ht, ← List.append_nil d, reads_port_append hd stops_nil,
          List.append_nil]
      constructor
      · rintro h digits hd
        obtain ⟨rfl, rfl⟩ := List.cons.inj hd
        exact hread.1 (h _ rfl)
      · rintro h digits hd
        obtain ⟨rfl, rfl⟩ := List.cons.inj hd
        exact hread.2 (h _ rfl)
  constructor
  · rintro ⟨hn, hh, h⟩
    rw [hs] at hn hh h
    exact ⟨hn, hh, hp.1 h⟩
  · rintro ⟨hn, hh, h⟩
    refine ⟨?_, ?_, ?_⟩ <;> rw [hs]
    · exact hn
    · exact hh
    · exact hp.2 h

/-- **Whether what follows the slashes is read depends on the authority alone.** -/
theorem reads_afterSlashes_append (hk : schemeKind scheme = .special)
    (ha : Unstopped .special a) (ht : Stops .special t) :
    Reads (afterSlashes scheme (a ++ t)) ↔ IsAuthority scheme (afterUserInfo a) := by
  rw [reads_afterSlashes hk]
  rcases userInfo_append ha ht with ⟨name, password, hu⟩ | ⟨hu, ha⟩
  · rw [hu, ← isAuthority_append (unstopped_afterUserInfo ha) ht]
    constructor
    · rintro ⟨_, _, rest, hr, h⟩
      cases hr
      exact h
    · exact fun h => ⟨name, password, _, rfl, h⟩
  · refine iff_of_false ?_ fun h => ?_
    · rintro ⟨_, _, _, hr, -⟩
      exact hu ⟨_, hr⟩
    · rw [ha] at h
      exact h.ne_nil rfl

/-- Whether what follows the slashes of a `file` URL is read depends on the host alone, too. -/
theorem reads_fileAfterSlashes_append (ha : Unstopped .file a) (ht : Stops .file t) :
    Reads (fileAfterSlashes (a ++ t)) ↔ isDrive a = true ∨ a = [] ∨ Reads (specialHost a) := by
  have hs : span (fun c => isSlash .file c || isQueryOrFragment c) (a ++ t) = (a, t) :=
    span_append ha ht
  rw [fileAfterSlashes, hs]
  dsimp only
  split
  · next hd => exact iff_of_true ⟨_, rfl⟩ (.inl hd)
  · next hd =>
    split
    · next he => exact iff_of_true ⟨_, rfl⟩ (.inr (.inl (List.isEmpty_iff.1 he)))
    · next he =>
      rw [reads_bind]
      constructor
      · rintro ⟨_, hm, -⟩
        obtain ⟨host, hh, -⟩ := except_map_eq_ok.1 hm
        exact .inr (.inr ⟨host, hh⟩)
      · rintro (h | rfl | ⟨host, hh⟩)
        · exact absurd h hd
        · exact absurd rfl he
        · exact ⟨_, except_map_eq_ok.2 ⟨host, hh, rfl⟩, _, rfl⟩

/-! ## Wide blanks -/

section

variable {c : Char} (hc : c ∈ wideBlanks)
include hc

theorem afterUserInfo_append_wideBlank (cs : List Char) :
    afterUserInfo (cs ++ [c]) = afterUserInfo cs ++ [c] := by
  have hd := of_mem_wideBlanks hc (fun c => (c == '@') = false) (by decide)
  have hl : lastIndex? '@' (cs ++ [c]) = lastIndex? '@' cs := by
    rw [lastIndex?, lastIndex?, List.reverse_append, List.reverse_singleton,
      List.singleton_append, List.findIdx?_cons, hd, List.length_append]
    cases List.findIdx? (· == '@') cs.reverse with
    | none => rfl
    | some j =>
      show some (cs.length + 1 - 1 - (j + 1)) = some (cs.length - 1 - j)
      congr 1
      omega
  rw [afterUserInfo, afterUserInfo, hl]
  cases hi : lastIndex? '@' cs with
  | none => rfl
  | some i => exact List.drop_append_of_le_length (lastIndex?_lt hi)

/-- An authority does not end in a wide blank. -/
theorem not_isAuthority_of_wideBlank (ha : Unstopped .special (a ++ [c])) :
    ¬IsAuthority scheme (a ++ [c]) := by
  obtain ⟨hdigit, hcolon⟩ :=
    of_mem_wideBlanks hc (fun c => c.isDigit = false ∧ c ≠ ':') (by decide)
  rintro ⟨-, ⟨host, hh⟩, hp⟩
  obtain ⟨he, hr⟩ := spanHost_cases ha false
  generalize (spanHost .special false (a ++ [c])).1 = h at he hh
  generalize (spanHost .special false (a ++ [c])).2 = r at he hr hp
  rcases List.eq_nil_or_concat r with rfl | ⟨r, d, rfl⟩
  · rw [List.append_nil] at he
    rw [← he] at hh
    exact specialHost_of_wideBlank hc a host hh
  · rw [List.concat_eq_append, ← List.append_assoc] at he
    obtain ⟨-, hcd⟩ := List.append_inj' he rfl
    obtain rfl : c = d := List.singleton_inj.1 hcd
    cases r with
    | nil => exact hcolon (hr c rfl)
    | cons x r =>
      obtain rfl : x = ':' := hr x rfl
      have hp := hp (r ++ [c]) (by rw [List.concat_eq_append, List.cons_append])
      have hu : Unstopped .special (r ++ [c]) := fun x hx => ha x (by rw [he]; simp at hx ⊢; tauto)
      rw [← List.append_nil (r ++ [c]), reads_port_append hu stops_nil] at hp
      have hcd := hp.1 c (by simp)
      rw [hdigit] at hcd
      cases hcd

/-- **What follows the slashes is not read if it is an authority that ends in a wide blank.** -/
theorem not_reads_afterSlashes_of_wideBlank (hk : schemeKind scheme = .special)
    (ha : Unstopped .special (a ++ [c])) : ¬Reads (afterSlashes scheme (a ++ [c])) := by
  rw [← List.append_nil (a ++ [c]), reads_afterSlashes_append hk ha stops_nil,
    afterUserInfo_append_wideBlank hc]
  refine not_isAuthority_of_wideBlank hc ?_
  rw [← afterUserInfo_append_wideBlank hc]
  exact unstopped_afterUserInfo ha

/-- Nor is it in a `file` URL. -/
theorem not_reads_fileAfterSlashes_of_wideBlank (ha : Unstopped .file (a ++ [c])) :
    ¬Reads (fileAfterSlashes (a ++ [c])) := by
  have hd := of_mem_wideBlanks hc (fun c => c ≠ ':' ∧ c ≠ '|') (by decide)
  rw [← List.append_nil (a ++ [c]), reads_fileAfterSlashes_append ha stops_nil]
  rintro (h | h | ⟨host, hh⟩)
  · unfold isDrive at h
    split at h
    · next d m he =>
      have hm : c = m := by
        have hl := congrArg List.getLast? he
        rw [List.getLast?_concat] at hl
        exact Option.some.inj hl
      simp [← hm, hd] at h
    · cases h
  · simp at h
  · exact specialHost_of_wideBlank hc a host hh

end

end Url

end WorkflowDsl
