import Gwsdb.Lemmas.DnsWire
import Gwsdb.Lemmas.IpAddr
import Gwsdb.Net.DnsQuery

/-!
# Writing names

The reverse name of an address is a list of short labels between dots, which determines the address (`labelsOf_injective`), and
`encodeQName` writes them the way the decoder reads names (`nameAt_encoded`).
-/

namespace Gwsdb.Net

open Digits
open Dns (Label NameAt field)

/-! ## Numbers of two bytes -/

@[simp] theorem setUint16_length (v : Nat) : (setUint16 v).length = 2 := rfl

/-- A number of two bytes is read where it is written. -/
theorem field_setUint16 {v : Nat} (hv : v < 65536) (pre post : List UInt8) :
    field 2 (pre ++ setUint16 v ++ post) pre.length = some v := by
  have hbytes : ((pre ++ setUint16 v ++ post).drop pre.length).take 2 = setUint16 v := by
    rw [List.append_assoc, List.drop_left]
    rfl
  unfold field
  rw [hbytes, if_pos (by simp only [List.length_append, setUint16_length]; omega)]
  simp only [setUint16, List.foldl_cons, List.foldl_nil, UInt8.toNat_ofNat']
  congr 1
  omega

/-! ## Labels -/

/-- A text that a label can hold: one to sixty-three characters of one byte each, and no dot. -/
structure IsLabel (p : List Char) : Prop where
  nonempty : 0 < p.length
  short : p.length ≤ 63
  noDot : '.' ∉ p
  byte : ∀ c ∈ p, c.toNat < 256

/-- The bytes of a text. -/
def bytesOf (p : List Char) : List UInt8 := p.map fun c => UInt8.ofNat c.toNat

@[simp] theorem bytesOf_length (p : List Char) : (bytesOf p).length = p.length := List.length_map _

/-- The label of a text. -/
def toLabel (p : List Char) (h : IsLabel p) : Label :=
  ⟨bytesOf p, by rw [bytesOf_length]; exact h.nonempty, by rw [bytesOf_length]; exact h.short⟩

/-- A label has the text it was made of. -/
theorem toLabel_text {p : List Char} (h : IsLabel p) : (toLabel p h).text = String.ofList p := by
  unfold Label.text toLabel bytesOf
  rw [List.map_map, List.map_congr_left, List.map_id]
  intro c hc
  have hbyte := h.byte c hc
  simp only [Function.comp_apply, UInt8.toNat_ofNat', id_eq]
  rw [Nat.mod_eq_of_lt hbyte, Char.ofNat_toNat]

/-- The dotted text of labels. -/
theorem dotted_toLabel {ps : List (List Char)} (hps : ∀ p ∈ ps, IsLabel p) :
    Dns.dotted (ps.pmap toLabel hps) = String.ofList (['.'].intercalate ps) := by
  have htexts : ((ps.pmap toLabel hps).map Label.text).map String.toList = ps := by
    rw [List.map_map, List.map_pmap, List.pmap_eq_self]
    intro p hp
    rw [Function.comp_apply, toLabel_text, String.toList_ofList]
  refine String.toList_inj.1 ?_
  rw [Dns.dotted, String.toList_intercalate, htexts, String.toList_ofList, String.toList_ofList]

/-- A dotted list of labels is taken apart again. -/
theorem splitOn_labels {ps : List (List Char)} (hps : ∀ p ∈ ps, IsLabel p) (hne : ps ≠ []) :
    (['.'].intercalate ps).splitOn '.' = ps := List.splitOn_intercalate '.' (fun p hp => (hps p hp).noDot) hne

/-- Labels joined by dots are found again. -/
theorem labels_injective {ps qs : List (List Char)} (hps : ∀ p ∈ ps, IsLabel p) (hqs : ∀ q ∈ qs, IsLabel q) (hp : ps ≠ [])
    (hq : qs ≠ []) (h : ['.'].intercalate ps = ['.'].intercalate qs) : ps = qs := by
  rw [← splitOn_labels hps hp, h, splitOn_labels hqs hq]

/-- `encodeQName` of a dotted list of labels. -/
theorem encodeQName_labels {ps : List (List Char)} (hps : ∀ p ∈ ps, IsLabel p) (hne : ps ≠ []) :
    encodeQName (['.'].intercalate ps) = (ps.flatMap fun p => UInt8.ofNat p.length :: bytesOf p) ++ [0] := by
  unfold encodeQName
  rw [splitOn_labels hps hne]
  congr 1
  refine List.flatMap_congr fun p hp => ?_
  have hpos := (hps p hp).nonempty
  rw [if_neg (by omega)]
  rfl

/-- The labels are written after any bytes, and the name ends after its zero. -/
theorem nameAt_encoded {ps : List (List Char)} (hps : ∀ p ∈ ps, IsLabel p) (pre post : List UInt8) :
    NameAt (pre ++ ((ps.flatMap fun p => UInt8.ofNat p.length :: bytesOf p) ++ [0]) ++ post) pre.length
      (ps.pmap toLabel hps) 0 (pre.length + (ps.flatMap fun p => UInt8.ofNat p.length :: bytesOf p).length + 1) := by
  induction ps generalizing pre with
  | nil => exact .root (by simp)
  | cons p ps ih =>
    have hp := hps p List.mem_cons_self
    have hrest := ih (fun q hq => hps q (List.mem_cons_of_mem _ hq)) (pre ++ UInt8.ofNat p.length :: bytesOf p)
    have hshort := hp.short
    simp only [List.length_append, List.length_cons, bytesOf_length, List.append_assoc,
      List.cons_append, List.nil_append] at hrest
    simp only [List.flatMap_cons, List.pmap_cons, List.length_append, List.length_cons, bytesOf_length, List.append_assoc,
      List.cons_append, List.nil_append]
    refine @NameAt.label _ _ (UInt8.ofNat p.length) _ _ _ _ ?_ ?_ ?_ ?_
    · simp
    · simp only [UInt8.toNat_ofNat', toLabel, bytesOf_length]
      omega
    · simp [toLabel]
    · simp only [toLabel, bytesOf_length]
      convert hrest using 1 <;> omega

/-! ## Reverse names -/

/-- The labels of the reverse name of an address. -/
def labelsOf (ip : List Char) : List (List Char) :=
  if isIPv4 ip then (ip.splitOn '.').reverse ++ ["in-addr".toList, "arpa".toList]
  else (((expandIPv6 ip).getD []).reverse.map fun c => [c]) ++ ["ip6".toList, "arpa".toList]

/-- Two joined lists are joined by one more dot. -/
theorem intercalate_append {ps qs : List (List Char)} (hp : ps ≠ []) (hq : qs ≠ []) :
    ['.'].intercalate (ps ++ qs) = ['.'].intercalate ps ++ '.' :: ['.'].intercalate qs := by
  induction ps with
  | nil => exact absurd rfl hp
  | cons p ps ih =>
    cases ps with
    | nil => rw [List.singleton_append, List.intercalate_cons_of_ne_nil hq, List.intercalate_singleton, List.append_assoc]; rfl
    | cons p' ps =>
      rw [List.cons_append, List.intercalate_cons_of_ne_nil (by simp), ih (by simp), List.intercalate_cons_cons]
      simp only [List.append_assoc]

/-- An IPv4 text has four octets of one to three digits. -/
theorem isIPv4_octets {ip : List Char} (h : isIPv4 ip = true) :
    (ip.splitOn '.').length = 4 ∧ ∀ o ∈ ip.splitOn '.', 1 ≤ o.length ∧ o.length ≤ 3 ∧ ∀ c ∈ o, JsNumber.isDigit 10 c = true := by
  unfold isIPv4 at h
  simp only [Bool.and_eq_true, decide_eq_true_eq, List.all_eq_true] at h
  exact ⟨h.1, fun o ho => ⟨(h.2 o ho).1.1.1, (h.2 o ho).1.1.2, (h.2 o ho).1.2⟩⟩

/-- Every other accepted text is expanded. -/
theorem expandIPv6_of_isIPAddress {ip : List Char} (h : isIPAddress ip = true) (hv4 : ¬isIPv4 ip = true) :
    ∃ hex, expandIPv6 ip = some hex := by
  unfold isIPAddress at h
  rw [Bool.or_eq_true] at h
  exact Option.isSome_iff_exists.1 (h.resolve_left hv4)

/-- Every accepted text stands for an address. -/
theorem addrOf_of_isIPAddress {ip : List Char} (h : isIPAddress ip = true) : ∃ a, addrOf ip = some a := by
  unfold addrOf
  by_cases hv4 : isIPv4 ip = true
  · exact ⟨_, if_pos hv4⟩
  · obtain ⟨hex, hx⟩ := expandIPv6_of_isIPAddress h hv4
    rw [if_neg hv4, hx]
    exact ⟨_, rfl⟩

/-- The reverse name of an accepted text is the labels of the address, joined by dots. -/
theorem reverseName_eq {ip : List Char} (h : isIPAddress ip = true) : reverseName ip = .ok (['.'].intercalate (labelsOf ip)) := by
  unfold reverseName labelsOf
  by_cases hv4 : isIPv4 ip = true
  · have hlength := (isIPv4_octets hv4).1
    have hdot : '.' ∈ ip := by
      by_contra hm
      rw [List.splitOn_eq_singleton hm] at hlength
      cases hlength
    have hne : (ip.splitOn '.').reverse ≠ [] := by simp [← List.length_eq_zero_iff, hlength]
    rw [if_pos ⟨hdot, colon_notMem_of_isIPv4 hv4⟩, if_pos hv4, if_neg (by omega), intercalate_append hne (by simp)]
    simp [List.intercalate]
  · obtain ⟨hex, hx⟩ := expandIPv6_of_isIPAddress h hv4
    have hcolon := (expandIPv6_spec hx).2.2
    rw [if_neg fun hboth => hboth.2 hcolon, if_neg hv4, hx]
    have hne : (hex.reverse.map fun c => [c]) ≠ [] := by
      have hlength := (expandIPv6_spec hx).1
      simp only [ne_eq, List.map_eq_nil_iff, List.reverse_eq_nil_iff]
      rintro rfl
      cases hlength
    simp only [Option.getD_some]
    rw [intercalate_append hne (by simp)]
    simp [reverseNibblesDotted, List.intercalate]

example : (reverseName "8.8.4.4".toList).toOption = some "4.4.8.8.in-addr.arpa".toList := by decide +kernel

/-- The labels of an IPv4 address are its octets from the last. -/
theorem labelsOf_ipv4 {ip : List Char} (h : isIPv4 ip = true) :
    labelsOf ip = (ip.splitOn '.').reverse ++ ["in-addr".toList, "arpa".toList] := if_pos h

/-- Those of an IPv6 address are its hex digits from the last. -/
theorem labelsOf_ipv6 {ip hex : List Char} (hv4 : ¬isIPv4 ip = true) (h : expandIPv6 ip = some hex) :
    labelsOf ip = (hex.reverse.map fun c => [c]) ++ ["ip6".toList, "arpa".toList] := by
  rw [labelsOf, if_neg hv4, h, Option.getD_some]

theorem labelsOf_ne_nil (ip : List Char) : labelsOf ip ≠ [] := by
  unfold labelsOf
  split <;> simp

theorem isLabel_arpa : IsLabel "arpa".toList := ⟨by decide, by decide, by decide, by simp⟩

/-- Digits make a label. -/
theorem isLabel_digits {p : List Char} (hpos : 0 < p.length) (hshort : p.length ≤ 63) (h : ∀ c ∈ p, ∃ d, digitValue c = some d) :
    IsLabel p := by
  refine ⟨hpos, hshort, fun hdot => ?_, fun c hc => ?_⟩
  · obtain ⟨d, hd⟩ := h '.' hdot
    exact absurd hd (by decide +revert)
  · obtain ⟨d, hd⟩ := h c hc
    exact (toNat_lt_of_digitValue hd).trans (by decide)

/-- They are labels. -/
theorem isLabel_labelsOf {ip : List Char} (h : isIPAddress ip = true) : ∀ p ∈ labelsOf ip, IsLabel p := by
  intro p hp
  by_cases hv4 : isIPv4 ip = true
  · rw [labelsOf_ipv4 hv4, List.mem_append, List.mem_reverse] at hp
    rcases hp with hp | hp
    · obtain ⟨hpos, hshort, hdigits⟩ := (isIPv4_octets hv4).2 p hp
      refine isLabel_digits hpos (by omega) fun c hc => ?_
      obtain ⟨d, hd, -⟩ := JsNumber.isDigit_iff.1 (hdigits c hc)
      exact ⟨d, hd⟩
    · rcases List.mem_pair.1 hp with rfl | rfl
      · exact ⟨by decide, by decide, by decide, by simp⟩
      · exact isLabel_arpa
  · obtain ⟨hex, hx⟩ := expandIPv6_of_isIPAddress h hv4
    rw [labelsOf_ipv6 hv4 hx, List.mem_append, List.mem_map] at hp
    rcases hp with ⟨c, hc, rfl⟩ | hp
    · obtain ⟨d, hlt, rfl⟩ := (expandIPv6_spec hx).2.1 c (List.mem_reverse.1 hc)
      refine isLabel_digits (by simp) (by simp) fun c' hc' => ⟨d, ?_⟩
      rw [List.mem_singleton.1 hc']
      exact digitValue_digitChar hlt
    · rcases List.mem_pair.1 hp with rfl | rfl
      · exact ⟨by decide, by decide, by decide, by simp⟩
      · exact isLabel_arpa

/-- The bytes that labels take. -/
theorem encoded_length (ps : List (List Char)) :
    (ps.flatMap fun p => UInt8.ofNat p.length :: bytesOf p).length = (ps.map fun p => p.length + 1).sum := by
  rw [List.length_flatMap]
  congr 1
  exact List.map_congr_left fun p _ => by rw [List.length_cons, bytesOf_length]

/-- The size of a name is at most its number of labels times the greatest one. -/
theorem sum_map_le {ps : List (List Char)} {n : Nat} (h : ∀ p ∈ ps, p.length + 1 ≤ n) :
    (ps.map fun p => p.length + 1).sum ≤ ps.length * n := by
  have hle := List.sum_le_card_nsmul (ps.map fun p => p.length + 1) n (List.forall_mem_map.2 h)
  rwa [List.length_map, smul_eq_mul] at hle

/-- The labels of a reverse name and the zero take at most seventy-four bytes. -/
theorem labelsOf_size {ip : List Char} (h : isIPAddress ip = true) : ((labelsOf ip).map fun p => p.length + 1).sum + 1 ≤ 74 := by
  by_cases hv4 : isIPv4 ip = true
  · obtain ⟨hlength, hoctets⟩ := isIPv4_octets hv4
    have hle : (((ip.splitOn '.').reverse).map fun p => p.length + 1).sum ≤ (ip.splitOn '.').reverse.length * 4 :=
      sum_map_le fun p hp => by
        have hshort := (hoctets p (List.mem_reverse.1 hp)).2.1
        omega
    rw [List.length_reverse, hlength] at hle
    rw [labelsOf_ipv4 hv4, List.map_append, List.sum_append]
    have hzone : ((["in-addr".toList, "arpa".toList]).map fun p => p.length + 1).sum = 13 := by decide
    omega
  · obtain ⟨hex, hx⟩ := expandIPv6_of_isIPAddress h hv4
    have hlength := (expandIPv6_spec hx).1
    have hle : ((hex.reverse.map fun c => [c]).map fun p => p.length + 1).sum ≤ (hex.reverse.map fun c => [c]).length * 2 :=
      sum_map_le fun p hp => by
        obtain ⟨c, -, rfl⟩ := List.mem_map.1 hp
        exact le_rfl
    rw [List.length_map, List.length_reverse, hlength] at hle
    rw [labelsOf_ipv6 hv4 hx, List.map_append, List.sum_append]
    have hzone : ((["ip6".toList, "arpa".toList]).map fun p => p.length + 1).sum = 9 := by decide
    omega

/-- The reverse name determines the address. -/
theorem labelsOf_injective {ip ip' : List Char} (h : isIPAddress ip = true) (h' : isIPAddress ip' = true)
    (heq : labelsOf ip = labelsOf ip') : addrOf ip = addrOf ip' := by
  by_cases hv4 : isIPv4 ip = true <;> by_cases hv4' : isIPv4 ip' = true
  · rw [labelsOf_ipv4 hv4, labelsOf_ipv4 hv4', List.append_cancel_right_eq, List.reverse_inj] at heq
    rw [← @List.intercalate_splitOn _ ip _ _ '.', heq, List.intercalate_splitOn]
  · obtain ⟨hex, hx⟩ := expandIPv6_of_isIPAddress h' hv4'
    rw [labelsOf_ipv4 hv4, labelsOf_ipv6 hv4' hx] at heq
    exact absurd (List.append_inj_right' heq rfl) (by decide)
  · obtain ⟨hex, hx⟩ := expandIPv6_of_isIPAddress h hv4
    rw [labelsOf_ipv6 hv4 hx, labelsOf_ipv4 hv4'] at heq
    exact absurd (List.append_inj_right' heq rfl) (by decide)
  · obtain ⟨hex, hx⟩ := expandIPv6_of_isIPAddress h hv4
    obtain ⟨hex', hx'⟩ := expandIPv6_of_isIPAddress h' hv4'
    rw [labelsOf_ipv6 hv4 hx, labelsOf_ipv6 hv4' hx', List.append_cancel_right_eq] at heq
    have hhex : hex = hex' := List.reverse_injective (List.map_injective_iff.2 (fun a b hab => List.head_eq_of_cons_eq hab) heq)
    rw [addrOf, addrOf, if_neg hv4, if_neg hv4', hx, hx', hhex]

end Gwsdb.Net
