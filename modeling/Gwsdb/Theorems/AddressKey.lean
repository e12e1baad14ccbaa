import Gwsdb.Lemmas.IpAddr

/-!
# One address, one key

The text that `normalizeIPAddress` gives is the key of an address in the database. An IPv6 text is written anew from its digits;
an IPv4 text is the key as it stands, so zeros in front of an octet make another key.
-/

namespace Gwsdb.Net

open Digits
open JsNumber (isDigit isDigit_iff)

/-- Two texts that agree octet for octet once their octets are filled up to three digits have octets of the same lengths. -/
def SamePadding (a b : List Char) : Prop :=
  (a.splitOn '.').map (List.leftpad 3 '0') = (b.splitOn '.').map (List.leftpad 3 '0') →
    (a.splitOn '.').map List.length = (b.splitOn '.').map List.length

instance (a b : List Char) : Decidable (SamePadding a b) := inferInstanceAs (Decidable (_ → _))

/-! ## Octets -/

/-- An octet text: one to three digits, at most 255. -/
structure IsOctet (o : List Char) : Prop where
  length_le : o.length ≤ 3
  digits : ∀ c ∈ o, IsDigit 10 c
  value_le : value 10 o ≤ 255

/-- An IPv4 text is four octets between dots. -/
theorem octets_of_isIPv4 {a : List Char} (h : isIPv4 a = true) : (a.splitOn '.').length = 4 ∧ ∀ o ∈ a.splitOn '.', IsOctet o := by
  unfold isIPv4 at h
  simp only [Bool.and_eq_true, decide_eq_true_eq, List.all_eq_true] at h
  obtain ⟨hlen, hall⟩ := h
  refine ⟨hlen, fun o ho => ?_⟩
  obtain ⟨⟨⟨-, h₁⟩, h₂⟩, h₃⟩ := hall o ho
  refine ⟨h₁, fun c hc => ?_, h₃⟩
  obtain ⟨d, hd, hlt⟩ := isDigit_iff.1 (h₂ c hc)
  exact isDigit_of_digitValue_lt hd hlt

/-- Two IPv4 texts have one number exactly when they agree octet for octet once the octets are filled up. -/
theorem ipv4Value_eq_iff {a b : List Char} (ha : isIPv4 a = true) (hb : isIPv4 b = true) :
    ipv4Value a = ipv4Value b ↔ (a.splitOn '.').map (List.leftpad 3 '0') = (b.splitOn '.').map (List.leftpad 3 '0') := by
  obtain ⟨hlena, halla⟩ := octets_of_isIPv4 ha
  obtain ⟨hlenb, hallb⟩ := octets_of_isIPv4 hb
  unfold ipv4Value
  obtain ⟨a₁, a₂, a₃, a₄, hsa⟩ := List.length_eq_four.1 hlena
  obtain ⟨b₁, b₂, b₃, b₄, hsb⟩ := List.length_eq_four.1 hlenb
  rw [hsa] at halla ⊢
  rw [hsb] at hallb ⊢
  have hoctet : ∀ {o p : List Char}, IsOctet o → IsOctet p → (o.leftpad 3 '0' = p.leftpad 3 '0' ↔ value 10 o = value 10 p) :=
    fun ho hp => leftpad_eq_iff (by decide) (by decide) ho.digits hp.digits ho.length_le hp.length_le
  have ha₁ := halla a₁ (by simp)
  have ha₂ := halla a₂ (by simp)
  have ha₃ := halla a₃ (by simp)
  have ha₄ := halla a₄ (by simp)
  have hb₁ := hallb b₁ (by simp)
  have hb₂ := hallb b₂ (by simp)
  have hb₃ := hallb b₃ (by simp)
  have hb₄ := hallb b₄ (by simp)
  simp only [List.foldl_cons, List.foldl_nil, List.map_cons, List.map_nil, List.cons.injEq, and_true, hoctet ha₁ hb₁,
    hoctet ha₂ hb₂, hoctet ha₃ hb₃, hoctet ha₄ hb₄]
  have := ha₁.value_le
  have := ha₂.value_le
  have := ha₃.value_le
  have := ha₄.value_le
  have := hb₁.value_le
  have := hb₂.value_le
  have := hb₃.value_le
  have := hb₄.value_le
  omega

theorem leftpad_inj {o p : List Char} (hlen : o.length = p.length) (h : o.leftpad 3 '0' = p.leftpad 3 '0') : o = p := by
  unfold List.leftpad at h
  rw [hlen] at h
  exact List.append_cancel_left h

/-- Texts that agree up to zeros in front of their octets, with octets of the same lengths, are the same. -/
theorem eq_of_octets {os ps : List (List Char)} (h : os.map (List.leftpad 3 '0') = ps.map (List.leftpad 3 '0'))
    (hlen : os.map List.length = ps.map List.length) : os = ps := by
  induction os generalizing ps with
  | nil => exact (List.map_eq_nil_iff.1 h.symm).symm
  | cons o os ih =>
    cases ps with
    | nil => cases h
    | cons p ps =>
      simp only [List.map_cons, List.cons.injEq] at h hlen
      rw [leftpad_inj hlen.1 h.1, ih h.2 hlen.2]

/-! ## The main result -/

/-- Two accepted texts of one family that stand for one address have one key, exactly when they are IPv6 texts or do not differ in
the zeros in front of an octet. -/
theorem one_key_iff {a b na nb : List Char} (ha : normalizeIPAddress a = some na) (hb : normalizeIPAddress b = some nb)
    (hfamily : isIPv4 a = isIPv4 b) : (ipToHex a = ipToHex b → na = nb) ↔ (isIPv4 a = false ∨ SamePadding a b) := by
  unfold normalizeIPAddress at ha hb
  unfold ipToHex
  rw [← hfamily] at hb ⊢
  cases h4 : isIPv4 a with
  | false =>
    rw [h4] at ha hb
    simp only [Bool.false_eq_true, if_false] at ha hb ⊢
    refine iff_of_true (fun hhex => ?_) (Or.inl trivial)
    rw [hhex, hb] at ha
    exact (Option.some.inj ha).symm
  | true =>
    have h4b : isIPv4 b = true := hfamily ▸ h4
    simp only [h4, if_true, Option.some.injEq] at ha hb ⊢
    subst ha hb
    have hvalue : digits 16 32 (ipv4Value a) = digits 16 32 (ipv4Value b) ↔ ipv4Value a = ipv4Value b := by
      have hbound : 2 ^ 32 ≤ 16 ^ 32 := by decide
      exact ⟨digits_inj (by decide) ((ipv4Value_lt h4).trans_le hbound) ((ipv4Value_lt h4b).trans_le hbound), fun h => by rw [h]⟩
    rw [hvalue, ipv4Value_eq_iff h4 h4b]
    simp only [Bool.true_eq_false, false_or]
    constructor
    · intro h hfilled
      rw [h hfilled]
    · intro h hfilled
      have hparts := eq_of_octets hfilled (h hfilled)
      rw [← @List.intercalate_splitOn _ a _ _ '.', hparts, List.intercalate_splitOn]

/-- Two texts of one IPv6 address are one key. -/
theorem one_key_compressed : ipToHex "2001:DB8:0:0::01".toList = ipToHex "2001:db8::1".toList ∧
    normalizeIPAddress "2001:DB8:0:0::01".toList = some "2001:db8::1".toList := by
  have hsame : ipToHex "2001:DB8:0:0::01".toList = ipToHex "2001:db8::1".toList := by decide +kernel
  have hshort : normalizeIPAddress "2001:db8::1".toList = some "2001:db8::1".toList := by decide +kernel
  obtain ⟨key, hkey⟩ := Option.isSome_iff_exists.1
    (show (normalizeIPAddress "2001:DB8:0:0::01".toList).isSome = true by decide +kernel)
  have heq := (one_key_iff hkey hshort (by decide)).2 (Or.inl (by decide)) hsame
  exact ⟨hsame, hkey.trans (congrArg some heq)⟩

/-- Two texts of one IPv4 address are two keys. -/
theorem padded_octet_splits : isIPv4 "008.8.8.8".toList = true ∧ isIPv4 "8.8.8.8".toList = true ∧
    ipToHex "008.8.8.8".toList = ipToHex "8.8.8.8".toList ∧
    normalizeIPAddress "008.8.8.8".toList ≠ normalizeIPAddress "8.8.8.8".toList := by
  decide +kernel

end Gwsdb.Net
