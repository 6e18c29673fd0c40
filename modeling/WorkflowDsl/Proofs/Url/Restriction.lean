import Mathlib.Data.List.Infix
import WorkflowDsl.Url.Basic

/-!
# Hosts that are not public

A host is internal (`Url.Host.IsInternal`) if its name is that of the local host or stands below a
domain of local networks, in any case of the letters and with or without the dot of the root, or if
its address lies in one of the networks that are listed. A `Network` holds the addresses that agree
with its own in their first bits. An address of version 6 that stands for one of version 4 is
internal if that is.

What is refused are the URLs without a host and those with an internal host, but for names that end
with the dot of the root (`Url.isRestricted_iff_isInternal`).
-/

namespace WorkflowDsl.Url

/-! ## Networks -/

/-- The addresses that agree with `base` in the first `bits`. -/
structure Network (width : Nat) where
  base : BitVec width
  bits : Nat

instance {width : Nat} : Membership (BitVec width) (Network width) :=
  ⟨fun network a => ∀ i < network.bits, a.getMsbD i = network.base.getMsbD i⟩

section

variable {width bits : Nat} {a b : BitVec width}

theorem mem_network_iff :
    a ∈ (⟨b, bits⟩ : Network width) ↔ ∀ i < bits, a.getMsbD i = b.getMsbD i := Iff.rfl

/-- A network of all bits has a single address. -/
theorem mem_network_width_iff : a ∈ (⟨b, width⟩ : Network width) ↔ a = b :=
  ⟨BitVec.eq_of_getMsbD_eq, fun h => h ▸ fun _ _ => rfl⟩

/-- Where the last bits are shifted out, the first ones are compared. -/
theorem inBlock_iff (h : bits ≤ width) :
    inBlock b bits a = true ↔ a ∈ (⟨b, bits⟩ : Network width) := by
  rw [inBlock, beq_iff_eq, mem_network_iff]
  have hbit (x : BitVec width) {i : Nat} (hi : i < bits) :
      (x >>> (width - bits)).getMsbD (i + (width - bits)) = x.getMsbD i := by
    have hl : i + (width - bits) < width := by omega
    simp [BitVec.getMsbD_ushiftRight, hl]
  constructor
  · intro he i hi
    rw [← hbit a hi, he, hbit b hi]
  · intro he
    refine BitVec.eq_of_getMsbD_eq fun i hi => ?_
    rw [BitVec.getMsbD_ushiftRight, BitVec.getMsbD_ushiftRight]
    by_cases hs : i < width - bits
    · simp [hs]
    · rw [he (i - (width - bits)) (by omega)]

/-- The addresses of a network are its first bits with any others behind them. -/
theorem mem_network_append_iff {m n : Nat} {x : BitVec m} {y : BitVec n} {a : BitVec (m + n)} :
    a ∈ (⟨x ++ y, m⟩ : Network (m + n)) ↔ a = x ++ a.setWidth n := by
  rw [mem_network_iff]
  constructor
  · intro h
    refine BitVec.eq_of_getMsbD_eq fun i hi => ?_
    rw [BitVec.getMsbD_append]
    split
    · next hm =>
      rw [BitVec.getMsbD_setWidth]
      have hs : i - m + (m + n) - n = i := by omega
      simp [hs]
    · next hm => rw [h i (Nat.lt_of_not_le hm), BitVec.getMsbD_append, if_neg hm]
  · intro h i hi
    rw [h, BitVec.getMsbD_append, BitVec.getMsbD_append, if_neg (Nat.not_le.2 hi),
      if_neg (Nat.not_le.2 hi)]

end

/-! ## Addresses -/

namespace Ipv4

/-- The address of four bytes. -/
def ofBytes (a b c d : BitVec 8) : BitVec 32 := a ++ b ++ c ++ d

/-- The networks of version 4 that are not public. -/
def internalNetworks : List (Network 32) :=
  [⟨ofBytes 0 0 0 0, 32⟩, ⟨ofBytes 127 0 0 0, 8⟩, ⟨ofBytes 10 0 0 0, 8⟩, ⟨ofBytes 172 16 0 0, 12⟩,
    ⟨ofBytes 192 168 0 0, 16⟩, ⟨ofBytes 169 254 0 0, 16⟩, ⟨ofBytes 255 255 255 255, 32⟩]

def IsInternal (a : BitVec 32) : Prop := ∃ network ∈ internalNetworks, a ∈ network

end Ipv4

namespace Ipv6

/-- The networks of version 6 that are not public. -/
def internalNetworks : List (Network 128) :=
  [⟨0, 128⟩, ⟨1, 128⟩, ⟨ofPieces [0xFE80, 0, 0, 0, 0, 0, 0, 0], 10⟩,
    ⟨ofPieces [0xFC00, 0, 0, 0, 0, 0, 0, 0], 7⟩]

/-- The address that stands for one of version 4: 80 zeros and 16 ones stand before this. -/
def ofIpv4 (a : BitVec 32) : BitVec 128 := 0xFFFF#96 ++ a

def IsInternal (a : BitVec 128) : Prop :=
  (∃ network ∈ internalNetworks, a ∈ network) ∨ ∃ v4, a = ofIpv4 v4 ∧ Ipv4.IsInternal v4

end Ipv6

theorem isRestrictedIpv4_iff {a : BitVec 32} : isRestrictedIpv4 a = true ↔ Ipv4.IsInternal a := by
  have hw {b : BitVec 32} : a ∈ (⟨b, 32⟩ : Network 32) ↔ a = b := mem_network_width_iff
  simp only [isRestrictedIpv4, Bool.or_eq_true, beq_iff_eq, inBlock_iff (show 8 ≤ 32 by decide),
    inBlock_iff (show 12 ≤ 32 by decide), inBlock_iff (show 16 ≤ 32 by decide), Ipv4.IsInternal,
    Ipv4.internalNetworks, List.mem_cons, List.not_mem_nil, or_false, exists_eq_or_imp,
    exists_eq_left, hw, or_assoc]
  exact Iff.rfl

theorem Ipv6.setWidth_ofIpv4 (v4 : BitVec 32) : (ofIpv4 v4).setWidth 32 = v4 := by
  rw [ofIpv4, BitVec.setWidth_append, dif_pos (Nat.le_refl 32), BitVec.setWidth_eq]

/-- An address of version 4 is found in the one that stands for it. -/
theorem mappedIpv4?_eq_some_iff {a : BitVec 128} {v4 : BitVec 32} :
    mappedIpv4? a = some v4 ↔ a = Ipv6.ofIpv4 v4 := by
  have hb : inBlock (0xFFFF#128 <<< 32) 96 a = true ↔ a = Ipv6.ofIpv4 (a.setWidth 32) :=
    (inBlock_iff (by decide)).trans (mem_network_append_iff (x := 0xFFFF#96) (y := 0#32))
  rw [mappedIpv4?]
  split
  · next h =>
    rw [hb] at h
    constructor
    · rintro ⟨⟩
      exact h
    · rintro rfl
      rw [Ipv6.setWidth_ofIpv4]
  · next h =>
    refine iff_of_false nofun ?_
    rintro rfl
    exact h (hb.2 (by rw [Ipv6.setWidth_ofIpv4]))

/-- The first bit of a link-local or unique local address is one. -/
theorem Ipv6.ofIpv4_not_mem {network : Network 128} {v4 : BitVec 32} (hn : 0 < network.bits)
    (hb : network.base.getMsbD 0 = true) : ofIpv4 v4 ∉ network := by
  intro h
  have hz : (ofIpv4 v4).getMsbD 0 = false := by
    rw [ofIpv4, BitVec.getMsbD_append]
    rfl
  have ho := h 0 hn
  rw [hb, hz] at ho
  cases ho

theorem isRestrictedIpv6_iff {a : BitVec 128} : isRestrictedIpv6 a = true ↔ Ipv6.IsInternal a := by
  have hw {b : BitVec 128} : a ∈ (⟨b, 128⟩ : Network 128) ↔ a = b := mem_network_width_iff
  simp only [isRestrictedIpv6, Bool.or_eq_true, beq_iff_eq, Ipv6.IsInternal,
    Ipv6.internalNetworks, List.mem_cons, List.not_mem_nil, or_false, exists_eq_or_imp,
    exists_eq_left, hw, or_assoc]
  refine or_congr_right (or_congr_right ?_)
  cases hm : mappedIpv4? a with
  | some v4 =>
    obtain rfl := mappedIpv4?_eq_some_iff.1 hm
    rw [or_iff_right (Ipv6.ofIpv4_not_mem (by decide) (by decide)),
      or_iff_right (Ipv6.ofIpv4_not_mem (by decide) (by decide))]
    constructor
    · exact fun h => ⟨v4, rfl, isRestrictedIpv4_iff.1 h⟩
    · rintro ⟨v4', he, h⟩
      rw [mappedIpv4?_eq_some_iff.2 he] at hm
      obtain rfl := Option.some.inj hm
      exact isRestrictedIpv4_iff.2 h
  | none =>
    have hno : ¬∃ v4, a = Ipv6.ofIpv4 v4 ∧ Ipv4.IsInternal v4 := by
      rintro ⟨v4, he, -⟩
      rw [mappedIpv4?_eq_some_iff.2 he] at hm
      cases hm
    rw [or_iff_left hno, Bool.or_eq_true, inBlock_iff (by decide), inBlock_iff (by decide)]
    exact Iff.rfl

/-! ## Names -/

theorem endsWith_iff {s t : String} : s.endsWith t = true ↔ t.toList <:+ s.toList := by
  rw [String.endsWith, String.Slice.endsWith_string_iff, String.copy_toSlice]

/-- The names of the local host and below the domains of local networks, in any case of the
letters. -/
def IsLocal (base : List Char) : Prop :=
  base.map Char.toLower = "localhost".toList ∨
    ∃ domain ∈ [".localhost", ".local", ".internal"], domain.toList <:+ base.map Char.toLower

/-- A local name, with the dot of the root or without it. -/
def IsInternalName (name : String) : Prop :=
  ∃ base, (name.toList = base ∨ name.toList = base ++ ['.']) ∧ IsLocal base

/-- The name ends with the dot of the root. -/
def EndsInRoot (name : String) : Prop := ['.'] <:+ name.toList

/-- No local domain ends with the dot of the root. -/
theorem IsLocal.not_root {base : List Char} (h : IsLocal base) : ¬['.'] <:+ base := by
  intro hr
  have hr : ['.'] <:+ base.map Char.toLower := hr.map Char.toLower
  obtain he | ⟨domain, hd, hs⟩ := h
  · rw [he] at hr
    revert hr
    decide
  · have hends : ∀ domain ∈ [".localhost", ".local", ".internal"],
        1 ≤ domain.toList.length ∧ ¬['.'] <:+ domain.toList := by decide
    obtain ⟨hl, hn⟩ := hends domain hd
    exact hn (List.suffix_of_suffix_length_le hr hs hl)

theorem isRestrictedDomain_iff {name : String} :
    isRestrictedDomain name = true ↔ IsInternalName name ∧ ¬EndsInRoot name := by
  have hbase : isRestrictedDomain name = true ↔ IsLocal name.toList := by
    simp only [isRestrictedDomain, Bool.or_eq_true, beq_iff_eq, List.any_eq_true, endsWith_iff,
      String.toList_map, IsLocal, ← String.toList_inj]
  rw [hbase]
  constructor
  · exact fun h => ⟨⟨_, .inl rfl, h⟩, h.not_root⟩
  · rintro ⟨⟨base, he | he, h⟩, hr⟩
    · exact he ▸ h
    · rw [EndsInRoot, he] at hr
      exact absurd (List.suffix_append base ['.']) hr

/-! ## Hosts -/

namespace Host

def IsInternal : Host → Prop
  | domain name => IsInternalName name
  | ipv4 a => Ipv4.IsInternal a
  | ipv6 a => Ipv6.IsInternal a

/-- The host is a name that ends with the dot of the root. -/
def IsRooted : Host → Prop
  | domain name => EndsInRoot name
  | ipv4 _ | ipv6 _ => False

theorem isRestricted_iff {h : Host} : h.isRestricted = true ↔ h.IsInternal ∧ ¬h.IsRooted := by
  cases h with
  | domain name => exact isRestrictedDomain_iff
  | ipv4 a => exact isRestrictedIpv4_iff.trans (and_iff_left not_false).symm
  | ipv6 a => exact isRestrictedIpv6_iff.trans (and_iff_left not_false).symm

end Host

/-- Nothing says that what the URL leads to is public: it has no host, or an internal one. -/
def IsInternal (u : Url) : Prop := ∀ h ∈ u.host?, h.IsInternal

/-- Refused is what is internal, but for the names that end with the dot of the root, which no
rule about names looks behind. -/
theorem isRestricted_iff_isInternal (u : Url) :
    u.isRestricted = true ↔ u.IsInternal ∧ ¬∃ h ∈ u.host?, h.IsRooted := by
  cases hu : u.host? with
  | none => simp [isRestricted, IsInternal, hu]
  | some h => simp [isRestricted, IsInternal, hu, Host.isRestricted_iff]

/-- The dot of the root opens the way to the local host. -/
example : (isRestrictedDomain "printer.LOCAL", isRestrictedDomain "printer.LOCAL.") =
    (true, false) := by cbv

end WorkflowDsl.Url
