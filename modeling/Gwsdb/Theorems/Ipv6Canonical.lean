import Gwsdb.Lemmas.AddrText

/-!
# The conventional IPv6 text

`normalizeIPAddress` writes an IPv6 address as RFC 5952 says, whatever text it was read from: the text depends on the number only,
it is read back as that number, and it is written as itself.
-/

namespace Gwsdb.Net

open Digits
open Gwsdb.Scan (rfc5952)

/-- The last `k` sixteen-bit groups of a number, the highest first. -/
def words : Nat → Nat → List Nat
  | 0, _ => []
  | k + 1, v => words k (v / 2 ^ 16) ++ [v % 2 ^ 16]

/-- The text of RFC 5952 of some groups: in hex, in lower case, without zeros in front. The leftmost of the longest runs of at
least two zero groups is written `::`; where there is no such run, no group is left out. -/
inductive CanonicalText (gs : List Nat) : List Char → Prop
  | plain (single : ∀ i, Runs.run (· = 0) gs i < 2) : CanonicalText gs ([':'].intercalate (gs.map (Nat.toDigits 16)))
  | compressed {start length : Nat} (run : Runs.FirstLongest (· = 0) gs start length) (long : 2 ≤ length) :
      CanonicalText gs ([':'].intercalate ((gs.take start).map (Nat.toDigits 16)) ++ "::".toList ++
        [':'].intercalate ((gs.drop (start + length)).map (Nat.toDigits 16)))

theorem words_length (k v : Nat) : (words k v).length = k := by
  induction k generalizing v with
  | zero => rfl
  | succ k ih => rw [words, List.length_append, ih, List.length_singleton]

theorem isWord_words {k v g : Nat} (hg : g ∈ words k v) : IsWord g := by
  induction k generalizing v with
  | zero => cases hg
  | succ k ih =>
    rw [words, List.mem_append, List.mem_singleton] at hg
    rcases hg with hg | rfl
    · exact ih hg
    · exact Nat.mod_lt v (by decide)

/-- The hex digits of a number are those of its groups. -/
theorem digits_words (k v : Nat) : digits 16 (k * 4) v = (words k v).flatMap (digits 16 4) := by
  induction k generalizing v with
  | zero => rfl
  | succ k ih =>
    have hpow : (2 : Nat) ^ 16 = 16 ^ 4 := by decide
    rw [Nat.succ_mul, digits_add, words, List.flatMap_append, List.flatMap_singleton, hpow, digits_mod, ih]

/-- What `netip` prints is the text of RFC 5952. -/
theorem canonicalText_rfc5952 (gs : List Nat) : CanonicalText gs (rfc5952 gs) := by
  have hrun := Runs.firstLongest_spec (· = 0) gs
  unfold rfc5952
  simp only
  split
  · refine CanonicalText.plain fun i => ?_
    have := hrun.longest i
    omega
  · rw [← List.map_take, ← List.map_drop]
    exact CanonicalText.compressed hrun (by omega)

/-- An accepted IPv6 text is written as the text of RFC 5952 of its number, which is read as that number and written as itself. -/
theorem normalize_canonical {s hex : List Char} (h : expandIPv6 s = some hex) :
    ∃ text, normalizeIPAddress s = some text ∧ CanonicalText (words 8 (value 16 hex)) text ∧ expandIPv6 text = some hex ∧
      normalizeIPAddress text = some text := by
  obtain ⟨hlen, hdig, -⟩ := expandIPv6_spec h
  have hhex := (digits_value (b := 16) (by decide) hdig).2
  rw [hlen, digits_words 8] at hhex
  generalize hgs : words 8 (value 16 hex) = gs at hhex ⊢
  have h8 : gs.length = 8 := by rw [← hgs, words_length]
  have hwords : ∀ g ∈ gs, IsWord g := by
    intro g hg
    rw [← hgs] at hg
    exact isWord_words hg
  refine ⟨rfc5952 gs, ?_, canonicalText_rfc5952 gs, ?_, normalize_rfc5952 h8 hwords⟩
  · rw [← hhex] at h
    exact normalize_of_expand h hwords
  · rw [expandIPv6_rfc5952 h8 hwords, hhex]

example : normalizeIPAddress "2001:DB8:0:0:1::".toList = some "2001:db8:0:0:1::".toList := by decide +kernel

/-- Zeros in front of the groups go, and of two runs of zeros the first is compressed. -/
theorem normalize_canonical_two_runs : ∃ text, normalizeIPAddress "2001:0DB8:0:0:1:0:0:1".toList = some text ∧
    CanonicalText (words 8 0x20010db8000000000001000000000001) text ∧
    expandIPv6 text = some (digits 16 32 0x20010db8000000000001000000000001) ∧ normalizeIPAddress text = some text := by
  have hexpand : expandIPv6 "2001:0DB8:0:0:1:0:0:1".toList =
    some (digits 16 32 0x20010db8000000000001000000000001) := by decide +kernel
  have hcanonical := normalize_canonical hexpand
  rwa [value_digits (by decide) (by decide)] at hcanonical

end Gwsdb.Net
