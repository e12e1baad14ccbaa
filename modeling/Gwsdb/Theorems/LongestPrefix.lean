import Gwsdb.Lemmas.AsnCache

/-!
# Longest-prefix match

Rows of the cache hold the ranges of the prefixes saved (`Caches`), so the row of the greatest length whose range holds the hex
text of an address is that of the longest saved prefix that contains the address.
-/

namespace Gwsdb.Web

open Keyed (Table)
open Gwsdb.Net

/-- The rows of a table are those of the prefixes saved, each with the range of its prefix. -/
structure Caches (saved : List ASNCacheEntry) (db : Table String ASNCacheRow) : Prop where
  sound : ∀ announced row, db.get? announced = some row →
    (∃ e ∈ saved, e.announced = announced) ∧ ∃ p, CidrText announced.toList p ∧ row.range = p.range
  complete : ∀ e ∈ saved, ∃ row, db.get? e.announced = some row

theorem caches_empty : Caches [] Table.empty := by
  constructor
  · intro announced row h
    rw [Table.get?_empty] at h
    cases h
  · intro e he
    cases he

/-- After a save of a prefix there is a row of it, and the rows of other prefixes are there as before. -/
theorem exists_get?_saveASN {db : Table String ASNCacheRow} {e : ASNCacheEntry} {p : Prefix} (he : CidrText e.announced.toList p)
    {announced : String} (h : announced = e.announced ∨ ∃ row, db.get? announced = some row) :
    ∃ row, (saveASN db e).get? announced = some row := by
  unfold saveASN
  rw [prefixToRange_of_cidrText he]
  simp only
  rw [Table.get?_alter]
  split
  · cases db.get? e.announced with
    | none => exact ⟨_, rfl⟩
    | some row => exact ⟨_, rfl⟩
  · rename_i hne
    rcases h with heq | hrow
    · exact absurd heq hne
    · exact hrow

/-- A save keeps the rows those of the prefixes saved. -/
theorem Caches.save {saved : List ASNCacheEntry} {db : Table String ASNCacheRow} (h : Caches saved db) {e : ASNCacheEntry}
    {p : Prefix} (he : CidrText e.announced.toList p) : Caches (saved ++ [e]) (saveASN db e) := by
  constructor
  · intro announced row hrow
    rcases get?_saveASN hrow with hold | ⟨rfl, -, -, hrange⟩
    · obtain ⟨⟨e', he', heq⟩, hp⟩ := h.sound announced row hold
      exact ⟨⟨e', List.mem_append_left _ he', heq⟩, hp⟩
    · refine ⟨⟨e, by simp, rfl⟩, ?_⟩
      rcases hrange with hnew | ⟨old, hold, heq⟩
      · rw [prefixToRange_of_cidrText he, Option.some.injEq] at hnew
        exact ⟨p, he, hnew.symm⟩
      · rw [heq]
        exact (h.sound _ old hold).2
  · intro e' he'
    rw [List.mem_append, List.mem_singleton] at he'
    rcases he' with he' | rfl
    · exact exists_get?_saveASN he (Or.inr (h.complete e' he'))
    · exact exists_get?_saveASN he (Or.inl rfl)

/-- A sequence of saves makes rows of the prefixes saved. -/
theorem caches_foldl {saved : List ASNCacheEntry} (hvalid : ∀ e ∈ saved, ∃ p, CidrText e.announced.toList p) :
    Caches saved (saved.foldl saveASN Table.empty) := by
  induction saved using List.reverseRecOn with
  | nil => exact caches_empty
  | append_singleton saved e ih =>
    obtain ⟨p, hp⟩ := hvalid e (by simp)
    rw [List.foldl_append]
    exact (ih fun e' he' => hvalid e' (List.mem_append_left _ he')).save hp

/-- A row is that of the longest of the prefixes saved that contain an address. -/
structure LongestMatch (saved : List ASNCacheEntry) (a : Addr) (announced : String) (row : ASNCacheRow) (p : Prefix) : Prop where
  cached : ∃ e ∈ saved, e.announced = announced
  spelled : CidrText announced.toList p
  len_eq : row.prefixLen = p.len
  contains : p.Contains a
  longest : ∀ e ∈ saved, ∀ q, CidrText e.announced.toList q → q.Contains a → q.len ≤ p.len

/-- A saved prefix has a row, which covers the hex text of an address exactly when the prefix contains the address. -/
theorem Caches.exists_row {saved : List ASNCacheEntry} {db : Table String ASNCacheRow} (h : Caches saved db) {e : ASNCacheEntry}
    (he : e ∈ saved) {q : Prefix} (hq : CidrText e.announced.toList q) {ip : String} {a : Addr} (ha : addrOf ip.toList = some a) :
    ∃ row, db.get? e.announced = some row ∧ row.prefixLen = q.len ∧
      (row.Covers (decide (':' ∈ ip.toList)) (Digits.digits 16 32 a.value) ↔ q.Contains a) := by
  obtain ⟨row, hrow⟩ := h.complete e he
  obtain ⟨-, p, hp, hrange⟩ := h.sound _ row hrow
  have hsame := prefixToRange_of_cidrText hp
  rw [prefixToRange_of_cidrText hq, Option.some.injEq] at hsame
  rw [← hsame] at hrange
  exact ⟨row, hrow, congrArg IPRange.prefixLen hrange, covers_iff_contains hrange hq.value_lt ha⟩

/-! ## The main result -/

/-- After any sequence of saves of CIDR prefixes, the row a lookup selects is that of the longest saved prefix that contains the
address, and there is none exactly when no saved prefix contains it. -/
theorem asn_longest_match {saved : List ASNCacheEntry} (hvalid : ∀ e ∈ saved, ∃ p, CidrText e.announced.toList p) {ip : String}
    {a : Addr} (ha : addrOf ip.toList = some a) {point : List Char} (hpoint : ipToHex ip.toList = some point) :
    (∀ announced row, selectASN (saved.foldl saveASN Table.empty) (decide (':' ∈ ip.toList)) point = some (announced, row) →
      ∃ p, LongestMatch saved a announced row p) ∧
    (selectASN (saved.foldl saveASN Table.empty) (decide (':' ∈ ip.toList)) point = none ↔
      ∀ e ∈ saved, ∀ p, CidrText e.announced.toList p → ¬p.Contains a) := by
  have hcaches := caches_foldl hvalid
  generalize saved.foldl saveASN Table.empty = db at hcaches ⊢
  rw [ipToHex_eq, ha, Option.map_some, Option.some.injEq] at hpoint
  subst hpoint
  refine ⟨fun announced row hsel => ?_, fun hnone e he q hq hc => ?_, fun hnone => ?_⟩
  · obtain ⟨hrow, hcov⟩ := selectASN_some hsel
    obtain ⟨hcached, p, hp, hrange⟩ := hcaches.sound _ row hrow
    refine ⟨p, hcached, hp, congrArg IPRange.prefixLen hrange, (covers_iff_contains hrange hp.value_lt ha).1 hcov, ?_⟩
    intro e he q hq hc
    obtain ⟨row', hrow', hlen, hcov'⟩ := hcaches.exists_row he hq ha
    have hmem : (e.announced, row') ∈ db.entries.filter fun e => e.2.Covers (decide (':' ∈ ip.toList))
        (Digits.digits 16 32 a.value) :=
      List.mem_filter.2 ⟨(Table.mem_entries_iff db _ row').2 hrow', decide_eq_true (hcov'.2 hc)⟩
    have hle := List.le_of_mem_argmax hmem hsel
    have hlen' : row.prefixLen = p.len := congrArg IPRange.prefixLen hrange
    simp only at hle
    omega
  · obtain ⟨row, hrow, -, hcov⟩ := hcaches.exists_row he hq ha
    exact selectASN_ne_none hrow (hcov.2 hc) hnone
  · by_contra hsome
    obtain ⟨⟨announced, row⟩, hsel⟩ := Option.ne_none_iff_exists'.1 hsome
    obtain ⟨hrow, hcov⟩ := selectASN_some hsel
    obtain ⟨⟨e, he, rfl⟩, p, hp, hrange⟩ := hcaches.sound _ row hrow
    exact hnone e he p hp ((covers_iff_contains hrange hp.value_lt ha).1 hcov)

/-- A cached prefix. -/
def savedPrefix (announced : String) : ASNCacheEntry :=
  ⟨⟨15169, "GOOGLE, US", announced, "US"⟩, "8.8.8.8", true, 3600, 0⟩

/-- Three of them: one with host bits set, the shorter one around it, and one of IPv6. -/
def savedPrefixes : List ASNCacheEntry := [savedPrefix "8.8.8.9/24", savedPrefix "8.8.0.0/16", savedPrefix "2001:4860::/32"]

theorem cidrText_savedPrefixes : ∀ e ∈ savedPrefixes, ∃ p, CidrText e.announced.toList p := by
  have hdecimal : ∀ len ∈ ["24".toList, "16".toList, "32".toList], len.all (JsNumber.isDigit 10) = true := by decide
  intro e he
  simp only [savedPrefixes, List.mem_cons, List.not_mem_nil, or_false] at he
  rcases he with rfl | rfl | rfl
  · exact ⟨_, @CidrText.intro "8.8.8.9".toList "24".toList ⟨false, 0x08080809⟩ (by decide +kernel) (by decide)
      (List.all_eq_true.1 (hdecimal _ (by decide))) (by decide)⟩
  · exact ⟨_, @CidrText.intro "8.8.0.0".toList "16".toList ⟨false, 0x08080000⟩ (by decide +kernel) (by decide)
      (List.all_eq_true.1 (hdecimal _ (by decide))) (by decide)⟩
  · exact ⟨_, @CidrText.intro "2001:4860::".toList "32".toList ⟨true, 0x20014860 * 2 ^ 96⟩ (by decide +kernel) (by decide)
      (List.all_eq_true.1 (hdecimal _ (by decide))) (by decide)⟩

/-- The row made of the first. -/
def savedRow : ASNCacheRow :=
  ⟨false, Digits.digits 16 32 0x08080800, Digits.digits 16 32 0x080808ff, 24, some 15169,
    some "GOOGLE, US", some "US", true, 3600, 0⟩

/-- Of two saved prefixes that contain the address the longer one is selected, and none for an address that the one prefix of its
family does not contain. -/
theorem asn_longest_match_nested :
    selectASN (savedPrefixes.foldl saveASN Table.empty) false (Digits.digits 16 32 0x08080808) = some ("8.8.8.9/24", savedRow) ∧
      (∃ p, LongestMatch savedPrefixes ⟨false, 0x08080808⟩ "8.8.8.9/24" savedRow p) ∧
      selectASN (savedPrefixes.foldl saveASN Table.empty) true (Digits.digits 16 32 (0x20014861 * 2 ^ 96)) = none ∧
      ∀ e ∈ savedPrefixes, ∀ p, CidrText e.announced.toList p → ¬p.Contains ⟨true, 0x20014861 * 2 ^ 96⟩ := by
  have hinside := @asn_longest_match savedPrefixes cidrText_savedPrefixes "8.8.8.8" ⟨false, 0x08080808⟩ (by decide +kernel)
    (Digits.digits 16 32 0x08080808) (by decide +kernel)
  have houtside := @asn_longest_match savedPrefixes cidrText_savedPrefixes "2001:4861::" ⟨true, 0x20014861 * 2 ^ 96⟩
    (by decide +kernel) (Digits.digits 16 32 (0x20014861 * 2 ^ 96)) (by decide +kernel)
  have hsel : selectASN (savedPrefixes.foldl saveASN Table.empty) false (Digits.digits 16 32 0x08080808) =
      some ("8.8.8.9/24", savedRow) := by decide +kernel
  have hnone : selectASN (savedPrefixes.foldl saveASN Table.empty) true (Digits.digits 16 32 (0x20014861 * 2 ^ 96)) = none := by
    decide +kernel
  exact ⟨hsel, hinside.1 _ savedRow hsel, hnone, houtside.2.1 hnone⟩

end Gwsdb.Web
