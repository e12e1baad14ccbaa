import Gwsdb.Net.IpAddr

/-!
# Address texts and numbers

The hex text of an accepted address is the thirty-two digits of its number (`ipToHex_eq`), and the range read from a CIDR
text is the block of its prefix (`prefixToRange_of_cidrText`), so that comparing hex texts decides whether the prefix
contains the address (`mem_range_iff`).
-/

namespace Gwsdb.Net

open Digits
open JsNumber (isDigit isDigit_iff)

/-! ## IPv4 -/

/-- The number of an IPv4 text has 32 bits. -/
theorem ipv4Value_lt {ip : List Char} (h : isIPv4 ip = true) : ipv4Value ip < 2 ^ 32 := by
  unfold isIPv4 at h
  unfold ipv4Value
  simp only [Bool.and_eq_true, decide_eq_true_eq, List.all_eq_true] at h
  obtain ⟨hlen, hall⟩ := h
  obtain ⟨a, b, c, d, hs⟩ := List.length_eq_four.1 hlen
  rw [hs] at hall ⊢
  have ha := (hall a (by simp)).2
  have hb := (hall b (by simp)).2
  have hc := (hall c (by simp)).2
  have hd := (hall d (by simp)).2
  simp only [List.foldl_cons, List.foldl_nil]
  omega

/-- A character of a joined text that is no separator is in one of the parts. -/
theorem mem_of_mem_intercalate {sep c : Char} {ps : List (List Char)} (hc : c ∈ [sep].intercalate ps) (hne : c ≠ sep) :
    ∃ p ∈ ps, c ∈ p := by
  induction ps with
  | nil => cases hc
  | cons p ps ih =>
    cases ps with
    | nil => exact ⟨p, by simp, by simpa using hc⟩
    | cons q ps =>
      rw [List.intercalate_cons_cons, List.mem_append, List.mem_append, List.mem_singleton] at hc
      rcases hc with (hc | hc) | hc
      · exact ⟨p, by simp, hc⟩
      · exact absurd hc hne
      · obtain ⟨r, hr, hm⟩ := ih hc
        exact ⟨r, List.mem_cons_of_mem _ hr, hm⟩

/-- A character of a text other than the separator is in one of its parts. -/
theorem mem_splitOn {sep c : Char} {s : List Char} (hc : c ∈ s) (hne : c ≠ sep) : ∃ p ∈ s.splitOn sep, c ∈ p := by
  rw [← @List.intercalate_splitOn _ s _ _ sep] at hc
  exact mem_of_mem_intercalate hc hne

/-- An IPv4 text has no colon. -/
theorem colon_notMem_of_isIPv4 {ip : List Char} (h : isIPv4 ip = true) : ':' ∉ ip := by
  intro hm
  obtain ⟨part, hp, hc⟩ := mem_splitOn hm (by decide : ':' ≠ '.')
  unfold isIPv4 at h
  simp only [Bool.and_eq_true, decide_eq_true_eq, List.all_eq_true] at h
  have := ((h.2 part hp).1).2 ':' hc
  exact absurd this (by decide)

/-! ## IPv6 -/

/-- A text that is cut at a double colon has one. -/
theorem mem_of_cutDouble {s : List Char} (h : cutDouble s ≠ none) : ':' ∈ s := by
  induction s with
  | nil => exact absurd rfl h
  | cons c s ih =>
    unfold cutDouble at h
    split at h
    · rename_i hc
      rw [hc.1]
      exact List.mem_cons_self
    · refine List.mem_cons_of_mem _ (ih fun hs => h ?_)
      rw [hs]
      rfl

/-- So has one with eight groups. -/
theorem colon_mem_of_groupsOf {ip : List Char} {groups : List (List Char)} (h : groupsOf ip = some groups) : ':' ∈ ip := by
  unfold groupsOf at h
  split at h
  · split at h
    · cases h
    · rename_i hlen
      by_contra hm
      apply hlen
      unfold parts
      split
      · decide
      · rw [List.splitOn_eq_singleton hm]
        simp
  · rename_i hcut
    exact mem_of_cutDouble (by rw [hcut]; exact Option.some_ne_none _)

/-- The groups of a text are eight. -/
theorem groupsOf_length {ip : List Char} {groups : List (List Char)} (h : groupsOf ip = some groups) : groups.length = 8 := by
  unfold groupsOf at h
  split at h
  · split at h
    · cases h
    · simp only [Option.some.injEq] at h
      rw [← h]
      omega
  · split at h
    · cases h
    split at h
    · cases h
    · simp only [Option.some.injEq] at h
      rw [← h]
      simp only [List.length_append, List.length_replicate]
      omega

/-- A group filled up to four digits: four lower-case hex digits. -/
theorem group_digits {g : List Char} (h : isGroup g = true) :
    ((g.leftpad 4 '0').map Char.toLower).length = 4 ∧ ∀ c ∈ (g.leftpad 4 '0').map Char.toLower, IsDigit 16 c := by
  unfold isGroup at h
  simp only [Bool.and_eq_true, decide_eq_true_eq, List.all_eq_true] at h
  obtain ⟨⟨h₁, h₂⟩, hall⟩ := h
  constructor
  · simp only [List.length_map, List.length_leftpad]
    omega
  · intro c hc
    obtain ⟨x, hx, rfl⟩ := List.mem_map.1 hc
    rw [List.leftpad, List.mem_append] at hx
    rcases hx with hx | hx
    · rw [List.eq_of_mem_replicate hx]
      exact ⟨0, by decide, rfl⟩
    · obtain ⟨d, hd, hlt⟩ := isDigit_iff.1 (hall x hx)
      exact ⟨d, hlt, (digitValue_toLower hd).2⟩

/-- What `expandIPv6` gives: thirty-two lower-case hex digits, for a text with a colon. -/
theorem expandIPv6_spec {ip hex : List Char} (h : expandIPv6 ip = some hex) :
    hex.length = 32 ∧ (∀ c ∈ hex, IsDigit 16 c) ∧ ':' ∈ ip := by
  unfold expandIPv6 at h
  split at h
  · cases h
  obtain ⟨groups, hg, h⟩ := Option.bind_eq_some_iff.1 h
  split at h
  · rename_i hall
    rw [List.all_eq_true] at hall
    cases h
    refine ⟨?_, ?_, colon_mem_of_groupsOf hg⟩
    · rw [List.length_flatMap, List.map_congr_left fun g hm => (group_digits (hall g hm)).1]
      simp [groupsOf_length hg]
    · intro c hc
      obtain ⟨g, hm, hc⟩ := List.mem_flatMap.1 hc
      exact (group_digits (hall g hm)).2 c hc
  · cases h

/-! ## Hex texts -/

/-- The number of an address has as many bits as its family. -/
theorem addrOf_lt {ip : List Char} {a : Addr} (h : addrOf ip = some a) : a.value < 2 ^ width a.isIPv6 := by
  unfold addrOf at h
  split at h
  · cases h
    exact ipv4Value_lt ‹_›
  · obtain ⟨hex, hx, rfl⟩ := Option.map_eq_some_iff.1 h
    obtain ⟨hlen, hdig, -⟩ := expandIPv6_spec hx
    have := (digits_value (b := 16) (by decide) hdig).1
    rw [hlen] at this
    exact this.trans_eq (by decide : 16 ^ 32 = 2 ^ 128)

/-- The hex text of an address is the thirty-two digits of its number. -/
theorem ipToHex_eq (ip : List Char) : ipToHex ip = (addrOf ip).map fun a => digits 16 32 a.value := by
  unfold ipToHex addrOf
  split
  · rfl
  · cases hx : expandIPv6 ip with
    | none => rfl
    | some hex =>
      obtain ⟨hlen, hdig, -⟩ := expandIPv6_spec hx
      have := (digits_value (b := 16) (by decide) hdig).2
      rw [hlen] at this
      simp [this]

/-- An accepted address is an IPv6 one if and only if its text has a colon. -/
theorem addrOf_isIPv6 {ip : List Char} {a : Addr} (h : addrOf ip = some a) : a.isIPv6 = decide (':' ∈ ip) := by
  unfold addrOf at h
  split at h
  · cases h
    exact (decide_eq_false (colon_notMem_of_isIPv4 ‹_›)).symm
  · obtain ⟨hex, hx, rfl⟩ := Option.map_eq_some_iff.1 h
    exact (decide_eq_true (expandIPv6_spec hx).2.2).symm

/-! ## Prefixes -/

/-- A text is cut at a slash unless it has none. -/
theorem cutSlash_eq_none {s : List Char} : cutSlash s = none ↔ '/' ∉ s := by
  induction s with
  | nil => simp [cutSlash]
  | cons c s ih =>
    unfold cutSlash
    cases hs : cutSlash s with
    | some cut =>
      have hm : '/' ∈ s := by
        by_contra hm
        rw [ih.2 hm] at hs
        cases hs
      simp [hm]
    | none => simp [ih.1 hs, eq_comm]

/-- The last slash is the one after which none comes. -/
theorem cutSlash_append (s : List Char) {t : List Char} (h : '/' ∉ t) : cutSlash (s ++ '/' :: t) = some (s, t) := by
  induction s with
  | nil =>
    rw [List.nil_append]
    unfold cutSlash
    rw [cutSlash_eq_none.2 h]
    rfl
  | cons c s ih =>
    rw [List.cons_append]
    unfold cutSlash
    rw [ih]

/-- What comes before the last slash and what comes after it. -/
theorem cutSlash_eq_some {s head tail : List Char} (h : cutSlash s = some (head, tail)) :
    s = head ++ '/' :: tail ∧ '/' ∉ tail := by
  induction s generalizing head with
  | nil => cases h
  | cons c s ih =>
    unfold cutSlash at h
    cases hs : cutSlash s with
    | some cut =>
      rw [hs] at h
      cases h
      obtain ⟨heq, hlast⟩ := ih hs
      exact ⟨by rw [heq, List.cons_append], hlast⟩
    | none =>
      rw [hs] at h
      simp only [Option.ite_none_right_eq_some, Option.some.injEq, Prod.mk.injEq] at h
      obtain ⟨rfl, rfl, rfl⟩ := h
      exact ⟨rfl, cutSlash_eq_none.1 hs⟩

/-- The addresses of a block of `2 ^ k` aligned numbers are those between its ends. -/
theorem block_iff (x v k : Nat) :
    (v - v % 2 ^ k ≤ x ∧ x ≤ v - v % 2 ^ k + (2 ^ k - 1)) ↔ x / 2 ^ k = v / 2 ^ k := by
  have hpos : 0 < 2 ^ k := Nat.two_pow_pos k
  have hv := Nat.div_add_mod v (2 ^ k)
  have hstart : v - v % 2 ^ k = 2 ^ k * (v / 2 ^ k) := by omega
  rw [hstart, mul_comm (2 ^ k), Nat.div_eq_iff hpos]
  omega

/-- The end of a block has no more bits than its addresses. -/
theorem block_end_lt {v k w : Nat} (hv : v < 2 ^ w) (hk : k ≤ w) : v - v % 2 ^ k + (2 ^ k - 1) < 2 ^ w := by
  have hpos : 0 < 2 ^ k := Nat.two_pow_pos k
  obtain ⟨c, hc⟩ := Nat.pow_dvd_pow 2 hk
  have hlt : v / 2 ^ k < c := Nat.div_lt_of_lt_mul (by rwa [hc] at hv)
  have hle : 2 ^ k * (v / 2 ^ k + 1) ≤ 2 ^ k * c := Nat.mul_le_mul_left _ hlt
  have := Nat.div_add_mod v (2 ^ k)
  rw [mul_add] at hle
  omega

/-- Setting the low bits of a number leads to the end of its block. -/
theorem or_mask (v k : Nat) : v ||| (2 ^ k - 1) = v - v % 2 ^ k + (2 ^ k - 1) := by
  have hpos : 0 < 2 ^ k := Nat.two_pow_pos k
  have hv := Nat.div_add_mod v (2 ^ k)
  have hblock : 2 ^ k * (v / 2 ^ k) ||| (2 ^ k - 1) = 2 ^ k * (v / 2 ^ k) + (2 ^ k - 1) :=
    (Nat.two_pow_add_eq_or_of_lt (by omega) _).symm
  have hself : v = 2 ^ k * (v / 2 ^ k) ||| v % 2 ^ k := by
    rw [← Nat.two_pow_add_eq_or_of_lt (Nat.mod_lt v hpos), hv]
  have hlow : v % 2 ^ k ||| (2 ^ k - 1) = 2 ^ k - 1 := by
    apply Nat.eq_of_testBit_eq
    intro i
    rw [Nat.testBit_or, Nat.testBit_mod_two_pow, Nat.testBit_two_pow_sub_one]
    by_cases h : i < k <;> simp [h]
  calc v ||| (2 ^ k - 1) = 2 ^ k * (v / 2 ^ k) ||| (v % 2 ^ k ||| (2 ^ k - 1)) := by rw [← Nat.or_assoc, ← hself]
    _ = 2 ^ k * (v / 2 ^ k) + (2 ^ k - 1) := by rw [hlow, hblock]
    _ = v - v % 2 ^ k + (2 ^ k - 1) := by omega

/-- An address is of the family of its text. -/
theorem addrOf_family {addr : List Char} {a : Addr} (ha : addrOf addr = some a) : a.isIPv6 = !isIPv4 addr := by
  unfold addrOf at ha
  split at ha
  · rename_i h4
    rw [h4]
    cases ha
    rfl
  · rename_i h4
    obtain ⟨hex, -, rfl⟩ := Option.map_eq_some_iff.1 ha
    simpa using h4

/-- The range read from a text with a slash is that of the address before the slash and of the number after it. -/
theorem prefixToRange_eq (addr : List Char) {len : List Char} (hlen : '/' ∉ len) :
    prefixToRange (addr ++ '/' :: len) = (addrOf addr).bind fun a => (JsNumber.integer len).bind fun n =>
      if n < 0 ∨ width a.isIPv6 < n then none else some (Prefix.range ⟨a, n.toNat⟩) := by
  unfold prefixToRange
  rw [cutSlash_append addr hlen, Option.bind_some]
  simp only [ipToHex_eq]
  cases ha : addrOf addr with
  | none => cases JsNumber.integer len <;> simp
  | some a =>
    have hvalue : value 16 (digits 16 32 a.value) = a.value := by
      refine value_digits (by decide) ((addrOf_lt ha).trans_le ?_)
      unfold width
      split <;> decide
    cases JsNumber.integer len with
    | none => rfl
    | some n =>
      simp only [Option.bind_some, Option.map_some, hvalue, ← addrOf_family ha, Nat.and_two_pow_sub_one_eq_mod, or_mask]
      rfl

/-- So is the number of a prefix's address. -/
theorem CidrText.value_lt {s : List Char} {p : Prefix} (h : CidrText s p) : p.addr.value < 2 ^ width p.addr.isIPv6 := by
  obtain ⟨hparsed, -, -, -⟩ := h
  exact addrOf_lt hparsed

/-- The text of a prefix gives its range. -/
theorem prefixToRange_of_cidrText {s : List Char} {p : Prefix} (h : CidrText s p) : prefixToRange s = some p.range := by
  obtain ⟨hparsed, hne, hdec, hfits⟩ := h
  have hslash : '/' ∉ _ := fun hm => absurd (hdec '/' hm) (by decide)
  rw [prefixToRange_eq _ hslash, hparsed, Option.bind_some, JsNumber.integer_digits hne hdec, Option.bind_some, if_neg (by omega),
    Int.toNat_natCast]

/-- A prefix of an accepted address has a text. -/
theorem cidrText_cidr {addr : List Char} {a : Addr} (ha : addrOf addr = some a) {len : Nat} (hl : len ≤ width a.isIPv6) :
    CidrText (cidr addr len) ⟨a, len⟩ := by
  have htext : (Nat.repr len).toList = Nat.toDigits 10 len := String.toList_ofList
  have hvalue : value 10 (Nat.repr len).toList = len := by rw [htext, value_toDigits (by decide) (by decide)]
  have hspell := @CidrText.intro addr (Nat.repr len).toList a ha
    (by rw [htext]; exact Nat.toDigits_ne_nil)
    (fun c hc => by
      rw [htext] at hc
      obtain ⟨d, hd, rfl⟩ := isDigit_of_mem_toDigits (by decide) c hc
      exact isDigit_iff.2 ⟨d, digitValue_digitChar (by omega), hd⟩)
    (hvalue.trans_le hl)
  rwa [hvalue] at hspell

/-- The hex text of an address lies between the bounds of a prefix of its family if and only if the
prefix contains the address. -/
theorem mem_range_iff {p : Prefix} (hp : p.addr.value < 2 ^ width p.addr.isIPv6) {a : Addr}
    (ha : a.value < 2 ^ width a.isIPv6) (hf : p.addr.isIPv6 = a.isIPv6) :
    (p.range.start ≤ digits 16 32 a.value ∧ digits 16 32 a.value ≤ p.range.end) ↔ p.Contains a := by
  have hw : 2 ^ width p.addr.isIPv6 ≤ 16 ^ 32 := by
    unfold width
    split <;> decide
  have hend := (block_end_lt hp (Nat.sub_le _ p.len)).trans_le hw
  have ha' : a.value < 16 ^ 32 := ha.trans_le (by rwa [← hf])
  unfold Prefix.range
  simp only
  rw [digits_le_iff (by decide) (by omega) ha', digits_le_iff (by decide) ha' hend, block_iff]
  unfold Prefix.Contains
  rw [hf]
  simp

/-! ## Many addresses -/

/-- The text of an address in 8.8.0.0/16: 250 of them under each third octet. -/
def addressText (i : Nat) : List Char := "8.8.".toList ++ Nat.toDigits 10 (i / 250) ++ '.' :: Nat.toDigits 10 (i % 250)

/-- The first 501 of the addresses are 8.8.0.0 to 8.8.2.0. -/
def address (i : Nat) : String := String.ofList (addressText i)

theorem notMem_toDigits {b : Nat} (hb : 1 < b) {c : Char} (hc : ¬IsDigit b c) (n : Nat) : c ∉ Nat.toDigits b n :=
  fun h => hc (isDigit_of_mem_toDigits hb c h)

/-- Different numbers make different addresses. -/
theorem address_injective : Function.Injective address := by
  intro i j h
  have htext : addressText i = addressText j := String.ofList_injective h
  have hdot : ∀ n, '.' ∉ Nat.toDigits 10 n := notMem_toDigits (by decide) (not_isDigit (by decide) (by decide))
  unfold addressText at htext
  rw [List.append_assoc, List.append_assoc, List.append_cancel_left_eq,
    List.append_cons_inj_of_notMem (hdot _) (hdot _)] at htext
  have hhigh := toDigits_injective (by decide) (by decide) htext.1
  have hlow := toDigits_injective (by decide) (by decide) htext.2.2
  omega

end Gwsdb.Net
