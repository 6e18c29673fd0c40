import WorkflowDsl.Proofs.Url.Splitting
import WorkflowDsl.Text.Blank
import WorkflowDsl.Url.Parser

/-!
# Blanks in hosts

A host of a special URL has no blank outside of ASCII at its end (`Url.specialHost_of_wideBlank`).
Such a blank is no hexadecimal digit, so that it stays apart from what is percent encoded before it;
and UTF-8 tells where a character starts, so that it is the last character of what the host decodes
to (`Url.exists_of_decode`). It is a character of no label (`Url.domainToAscii_of_wideBlank`).
-/

namespace WorkflowDsl

/-! ## Bytes of characters -/

theorem ByteArray.toList_loop (b : ByteArray) (i : Nat) (read : List UInt8) :
    ByteArray.toList.loop b i read = read.reverse ++ b.data.toList.drop i := by
  induction i, read using ByteArray.toList.loop.induct b with
  | case1 i read hi ih =>
    have hl : i < b.data.toList.length := by simpa using hi
    have hg : b.get! i = b.data.toList[i] := getElem!_pos b.data i (by simpa using hi)
    rw [ByteArray.toList.loop, if_pos hi, ih, List.drop_eq_getElem_cons hl, hg]
    simp
  | case2 i read hi =>
    have hl : b.data.toList.length ≤ i := by simpa using hi
    rw [ByteArray.toList.loop, if_neg hi, List.drop_eq_nil_of_le hl, List.append_nil]

theorem ByteArray.toList_eq (b : ByteArray) : b.toList = b.data.toList := by
  rw [ByteArray.toList, ByteArray.toList_loop]
  rfl

theorem List.toList_utf8Encode (cs : List Char) :
    cs.utf8Encode.data.toList = cs.flatMap String.utf8EncodeChar := by
  rw [List.utf8Encode, List.toList_data_toByteArray]

theorem String.toList_toUTF8_singleton (c : Char) :
    (String.singleton c).toUTF8.toList = String.utf8EncodeChar c := by
  have h : (String.singleton c).toUTF8 = [c].utf8Encode := String.toByteArray_singleton
  rw [h, ByteArray.toList_eq, List.toList_utf8Encode, List.flatMap_singleton]

/-- The bytes of a character are the end of those of another one only if the characters are the
same, since no byte but the first of a character can start one. -/
theorem eq_of_utf8EncodeChar_append {c d : Char} {bs : List UInt8}
    (h : String.utf8EncodeChar c = bs ++ String.utf8EncodeChar d) : c = d := by
  have hd : 0 < (String.utf8EncodeChar d).length := by
    rw [String.length_utf8EncodeChar]
    exact d.utf8Size_pos
  have hi : bs.length < (String.utf8EncodeChar c).length := by
    rw [h, List.length_append]
    omega
  have hg : (String.utf8EncodeChar c)[bs.length] = (String.utf8EncodeChar d)[0] := by
    simp [h]
  have hfirst : ((String.utf8EncodeChar c)[bs.length]).IsUTF8FirstByte := by
    rw [hg]
    exact UInt8.isUTF8FirstByte_getElem_utf8EncodeChar.2 rfl
  have hl := UInt8.isUTF8FirstByte_getElem_utf8EncodeChar.1 hfirst
  obtain rfl := List.length_eq_zero_iff.1 hl
  have hu : [c].utf8Encode = [d].utf8Encode := by
    rw [List.utf8Encode_singleton, List.utf8Encode_singleton, h, List.nil_append]
  have hs := congrArg ByteArray.utf8Decode? hu
  rw [List.utf8Decode?_utf8Encode, List.utf8Decode?_utf8Encode] at hs
  simpa using hs

/-- Characters whose bytes end in those of a character end in that character. -/
theorem exists_of_flatMap_utf8EncodeChar {cs : List Char} {c : Char} {bs : List UInt8}
    (h : cs.flatMap String.utf8EncodeChar = bs ++ String.utf8EncodeChar c) :
    ∃ ds, cs = ds ++ [c] := by
  rcases List.eq_nil_or_concat cs with rfl | ⟨ds, d, rfl⟩
  · have hn : bs ++ String.utf8EncodeChar c = [] := h.symm
    exact absurd (List.append_eq_nil_iff.1 hn).2 String.utf8EncodeChar_ne_nil
  · rw [List.concat_eq_append, List.flatMap_append, List.flatMap_singleton] at h
    have hd : d = c := by
      rcases List.append_eq_append_iff.1 h with ⟨as, -, ha⟩ | ⟨as, -, ha⟩
      · exact eq_of_utf8EncodeChar_append ha
      · exact (eq_of_utf8EncodeChar_append ha).symm
    exact ⟨ds, by rw [List.concat_eq_append, hd]⟩

namespace Url

/-! ## Wide blanks -/

/-- The blanks outside of ASCII. -/
def wideBlanks : List Char :=
  ['\u0085', '\u00A0', '\u1680', '\u2000', '\u2001', '\u2002', '\u2003', '\u2004', '\u2005',
    '\u2006', '\u2007', '\u2008', '\u2009', '\u200A', '\u2028', '\u2029', '\u202F', '\u205F',
    '\u3000']

theorem mem_wideBlanks {c : Char} (hb : Text.isBlank c = true) (h : 32 < c.toNat) :
    c ∈ wideBlanks := by
  have hn : c.toNat ∈ wideBlanks.map Char.toNat := by
    simp only [Text.isBlank, Bool.or_eq_true, Bool.and_eq_true, decide_eq_true_eq,
      beq_iff_eq] at hb
    show c.toNat ∈ [0x85, 0xA0, 0x1680, 0x2000, 0x2001, 0x2002, 0x2003, 0x2004, 0x2005, 0x2006,
      0x2007, 0x2008, 0x2009, 0x200A, 0x2028, 0x2029, 0x202F, 0x205F, 0x3000]
    simp only [List.mem_cons, List.not_mem_nil, or_false]
    omega
  obtain ⟨d, hd, he⟩ := List.mem_map.1 hn
  rwa [← Char.toNat_inj.1 he]

variable {c : Char} (hc : c ∈ wideBlanks)
include hc

/-- What is checked of all wide blanks holds of each. -/
theorem of_mem_wideBlanks (p : Char → Prop) [DecidablePred p] (h : wideBlanks.all (p ·) = true) :
    p c :=
  of_decide_eq_true (List.all_eq_true.1 h c hc)

theorem domainChar_of_wideBlank : domainChar c = [c] :=
  of_mem_wideBlanks hc (fun c => domainChar c = [c]) (by decide)

theorem not_isLabelCharacter_of_wideBlank : isLabelCharacter c = false ∧ 128 ≤ c.toNat := by
  obtain ⟨hb, hw⟩ :=
    of_mem_wideBlanks hc (fun c => Text.isBlank c = true ∧ 128 ≤ c.toNat) (by decide)
  refine ⟨?_, hw⟩
  rw [isLabelCharacter, if_neg (Nat.not_lt.2 hw), hb]
  rfl

/-! ## Domains -/

theorem labelToAscii_of_wideBlank {label : List Char} (hm : c ∈ label) :
    labelToAscii? label = none := by
  obtain ⟨hl, hw⟩ := not_isLabelCharacter_of_wideBlank hc
  have ha : label.all (·.toNat < 128) = false :=
    List.all_eq_false.2 ⟨c, hm, by simpa using hw⟩
  unfold labelToAscii?
  split
  · split
    · rw [ha]
      rfl
    · rfl
  · have hn : label.all isLabelCharacter = false := List.all_eq_false.2 ⟨c, hm, by simp [hl]⟩
    rw [if_pos (by rw [hn]; rfl)]

omit hc in
theorem mapM_eq_none {α β : Type} {f : α → Option β} {as : List α} {a : α} (hm : a ∈ as)
    (h : f a = none) : as.mapM f = none := by
  induction as with
  | nil => cases hm
  | cons b as ih =>
    rw [List.mapM_cons]
    rcases List.mem_cons.1 hm with rfl | hm
    · rw [h]
      rfl
    · rw [ih hm]
      cases f b <;> rfl

/-- A name with a wide blank is no domain name. -/
theorem domainToAscii_of_wideBlank {cs : List Char} (hm : c ∈ cs) : domainToAscii? cs = none := by
  have hf : c ∈ cs.flatMap domainChar := by
    refine List.mem_flatMap.2 ⟨c, hm, ?_⟩
    rw [domainChar_of_wideBlank hc]
    exact List.mem_singleton_self c
  have hdot := of_mem_wideBlanks hc (fun c => (c == '.') = false) (by decide)
  obtain ⟨part, hp, hcp⟩ : ∃ part ∈ splitAt (· == '.') (cs.flatMap domainChar), c ∈ part :=
    exists_mem_splitAt hf hdot
  rw [domainToAscii?, mapM_eq_none hp (labelToAscii_of_wideBlank hc hcp)]
  rfl

/-! ## Hosts -/

/-- A wide blank stays apart from what is encoded before it. -/
theorem decodeBytes_append_wideBlank (cs : List Char) :
    decodeBytes (cs ++ [c]) = decodeBytes cs ++ String.utf8EncodeChar c := by
  obtain ⟨hx, hp⟩ := of_mem_wideBlanks hc (fun c => isHexDigit c = false ∧ c ≠ '%') (by decide)
  induction cs using decodeBytes.induct with
  | case1 a b rest h ih =>
    rw [List.cons_append, List.cons_append, List.cons_append, decodeBytes, if_pos h, ih,
      decodeBytes, if_pos h, List.cons_append]
  | case2 a b rest h ih =>
    rw [List.cons_append, List.cons_append, List.cons_append, decodeBytes, if_neg h,
      ← List.cons_append, ← List.cons_append, ih, decodeBytes, if_neg h, List.cons_append]
  | case3 d rest hne ih =>
    have hd : decodeBytes (d :: (rest ++ [c])) =
        (String.singleton d).toUTF8.toList ++ decodeBytes (rest ++ [c]) := by
      match rest, hne with
      | a :: b :: rest, hne =>
        exact decodeBytes.eq_2 _ _ fun _ _ _ hp _ => hne _ _ _ hp rfl
      | [], _ => exact decodeBytes.eq_2 _ _ fun _ _ _ _ h => by cases h
      | [a], _ =>
        -- Three characters that start with `%` are no byte, since the last is no digit.
        by_cases hp : d = '%'
        · subst hp
          show decodeBytes ['%', a, c] = _
          have he : String.utf8EncodeChar '%' = [37] := by decide
          rw [decodeBytes, if_neg (by simp [hx]), String.toList_toUTF8_singleton, he]
          rfl
        · exact decodeBytes.eq_2 _ _ fun _ _ _ h _ => hp h
    rw [List.cons_append, hd, ih, decodeBytes.eq_2 _ _ hne, List.append_assoc]
  | case4 =>
    show decodeBytes [c] = _
    rw [decodeBytes, String.toList_toUTF8_singleton]
    · exact List.append_nil _
    · rintro _ _ _ rfl
      exact absurd rfl hp

/-- What ends in a wide blank is decoded to a text that does. -/
theorem exists_of_decode {cs : List Char} {s : String} (h : decode? (cs ++ [c]) = some s) :
    ∃ ds, s.toList = ds ++ [c] := by
  rw [decode?, String.fromUTF8?] at h
  split at h
  · next hv =>
    have hs : s.toByteArray = ⟨(decodeBytes (cs ++ [c])).toArray⟩ := by
      rw [← Option.some.inj h]
      rfl
    have hb : s.toList.flatMap String.utf8EncodeChar =
        decodeBytes cs ++ String.utf8EncodeChar c := by
      rw [← List.toList_utf8Encode, String.utf8Encode_toList, hs, decodeBytes_append_wideBlank hc]
    exact exists_of_flatMap_utf8EncodeChar hb
  · cases h

/-- **A special URL has no host that ends in a wide blank.** -/
theorem specialHost_of_wideBlank (cs : List Char) (h : Host) :
    specialHost (cs ++ [c]) ≠ .ok h := by
  intro hs
  have hd : (decode? (cs ++ [c])).bind (domainToAscii? ·.toList) = none := by
    cases hd : decode? (cs ++ [c]) with
    | none => rfl
    | some s =>
      obtain ⟨ds, hds⟩ := exists_of_decode hc hd
      refine domainToAscii_of_wideBlank hc ?_
      rw [hds]
      exact List.mem_append_right _ (List.mem_singleton_self c)
  by_cases hb : ∃ rest, cs ++ [c] = '[' :: rest
  · -- The bracket that is opened is not closed at the end.
    obtain ⟨rest, hr⟩ := hb
    have hl := of_mem_wideBlanks hc (· ≠ ']') (by decide)
    have hg : rest.getLast? ≠ some ']' := by
      intro hg
      have hlast : (cs ++ [c]).getLast? = some c := List.getLast?_concat
      rw [hr, List.getLast?_cons, hg] at hlast
      exact hl (Option.some.inj hlast).symm
    rw [hr, specialHost, if_neg (by simpa using hg)] at hs
    cases hs
  · rw [specialHost.eq_2 _ fun rest hr => hb ⟨rest, hr⟩, hd] at hs
    cases hs

end Url

end WorkflowDsl
