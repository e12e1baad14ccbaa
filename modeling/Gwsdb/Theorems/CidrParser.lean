import Gwsdb.Lemmas.IpAddr

/-!
# What the CIDR parser accepts

`prefixToRange` leaves the length after the last slash to JavaScript's `Number`, which reads more than digits: the empty text is
zero, and so is a blank one. So the parser accepts more than CIDR exactly for the lengths that are no digits but denote a number
of bits of the address (`prefixToRange_accepts_iff`).
-/

namespace Gwsdb.Net

open JsNumber (isDigit)

/-- A length that denotes a number of bits of the address before the last slash is written with digits only. -/
def PlainLength (s : List Char) : Prop :=
  ∀ addr len a n, s = addr ++ '/' :: len → '/' ∉ len → addrOf addr = some a → JsNumber.integer len = some n → 0 ≤ n →
    n ≤ width a.isIPv6 → len ≠ [] ∧ ∀ c ∈ len, isDigit 10 c = true

/-- The parts of a CIDR text are those around its last slash. -/
theorem cidrText_iff {addr len : List Char} (hlen : '/' ∉ len) :
    (∃ p, CidrText (addr ++ '/' :: len) p) ↔
      ∃ a, addrOf addr = some a ∧ (len ≠ [] ∧ ∀ c ∈ len, isDigit 10 c = true) ∧ Digits.value 10 len ≤ width a.isIPv6 := by
  constructor
  · rintro ⟨p, hp⟩
    generalize htext : addr ++ '/' :: len = s at hp
    obtain ⟨hparsed, hne, hdec, hfits⟩ := hp
    rename_i addr' len' a
    have hlen' : '/' ∉ len' := fun hm => absurd (hdec '/' hm) (by decide)
    have hcut := cutSlash_append addr hlen
    rw [htext, cutSlash_append addr' hlen'] at hcut
    cases hcut
    exact ⟨a, hparsed, ⟨hne, hdec⟩, hfits⟩
  · rintro ⟨a, hparsed, ⟨hne, hdec⟩, hfits⟩
    exact ⟨_, CidrText.intro hparsed hne hdec hfits⟩

/-- What is read around the last slash: an accepted address, and a text that denotes a number of its bits. -/
theorem prefixToRange_ne_none_iff {addr len : List Char} (hlen : '/' ∉ len) :
    prefixToRange (addr ++ '/' :: len) ≠ none ↔
      ∃ a n, addrOf addr = some a ∧ JsNumber.integer len = some n ∧ 0 ≤ n ∧ n ≤ width a.isIPv6 := by
  rw [prefixToRange_eq addr hlen]
  cases addrOf addr with
  | none => simp
  | some a =>
    cases JsNumber.integer len with
    | none => simp
    | some n =>
      rw [Option.bind_some, Option.bind_some]
      split
      · rename_i hout
        refine iff_of_false (fun hne => hne rfl) ?_
        rintro ⟨a', n', ha, hn, hpos, hfits⟩
        cases ha
        cases hn
        omega
      · rename_i hin
        exact iff_of_true (Option.some_ne_none _) ⟨a, n, rfl, rfl, by omega, by omega⟩

/-- The CIDR parser accepts CIDR texts only, exactly where a length that denotes a number of bits is written with digits. -/
theorem prefixToRange_accepts_iff (s : List Char) :
    (prefixToRange s ≠ none ↔ ∃ p, CidrText s p) ↔ PlainLength s := by
  constructor
  · rintro haccepts addr len a n rfl hlen hparsed hnum hpos hfits
    have hrange := (prefixToRange_ne_none_iff hlen).2 ⟨a, n, hparsed, hnum, hpos, hfits⟩
    obtain ⟨-, -, hplain, -⟩ := (cidrText_iff hlen).1 (haccepts.1 hrange)
    exact hplain
  · intro hplain
    constructor
    · intro hrange
      cases hcut : cutSlash s with
      | none =>
        rw [prefixToRange, hcut] at hrange
        exact absurd rfl hrange
      | some cut =>
        obtain ⟨rfl, hlen⟩ := @cutSlash_eq_some s cut.1 cut.2 hcut
        obtain ⟨a, n, hparsed, hnum, hpos, hfits⟩ := (prefixToRange_ne_none_iff hlen).1 hrange
        obtain ⟨hne, hdec⟩ := hplain _ _ a n rfl hlen hparsed hnum hpos hfits
        rw [JsNumber.integer_digits hne hdec] at hnum
        cases hnum
        exact (cidrText_iff hlen).2 ⟨a, hparsed, ⟨hne, hdec⟩, by omega⟩
    · rintro ⟨p, hp⟩
      rw [prefixToRange_of_cidrText hp]
      exact Option.some_ne_none _

/-- A text that ends in its slash is read as a prefix of length zero: every IPv4 address. -/
theorem no_length_is_every_address :
    prefixToRange "8.8.8.0/".toList =
        some ⟨List.replicate 32 '0', List.replicate 24 '0' ++ List.replicate 8 'f', 0, false⟩ ∧
      ¬∀ s, (prefixToRange s ≠ none ↔ ∃ p, CidrText s p) := by
  refine ⟨by decide +kernel, fun hall => ?_⟩
  have hrange : prefixToRange "8.8.8.0/".toList ≠ none := by decide +kernel
  have htext : "8.8.8.0/".toList = "8.8.8.0".toList ++ '/' :: [] := by decide
  rw [htext] at hrange
  obtain ⟨a, -, ⟨hne, -⟩, -⟩ := (cidrText_iff (by decide)).1 ((hall _).1 hrange)
  exact hne rfl

end Gwsdb.Net
