import Gwsdb.Scan.FetchPool
import Mathlib.Tactic

/-!
# Dates read back

A date column holds the text of `toISOString`, which `new Date` reads back as the same instant. The pool endpoints show it to the
second, and `FetchPool` reads that back as the second of the instant.
-/

namespace IsoTime

/-- A day of a year is what its month and its day of the month say: the months before it, and the days before it in its
month, which has as many days. -/
theorem monthDay_spec {lens : List Nat} {m k : Nat} (hk : k < lens.sum) :
    (lens.take ((monthDay lens m k).1 - m)).sum + ((monthDay lens m k).2 - 1) = k ∧
      m ≤ (monthDay lens m k).1 ∧ 1 ≤ (monthDay lens m k).2 ∧
          (monthDay lens m k).2 ≤ lens.getD ((monthDay lens m k).1 - m) 0 := by
  induction lens generalizing m k with
  | nil => simp at hk
  | cons len lens ih =>
    rw [List.sum_cons] at hk
    rw [monthDay]
    split
    · simp only [Nat.sub_self, List.take_zero, List.sum_nil, List.getD_cons_zero]
      omega
    · obtain ⟨hsum, hm, hd, hlen⟩ := ih (m := m + 1) (k := k - len) (by omega)
      have hsucc : (monthDay lens (m + 1) (k - len)).1 - m = (monthDay lens (m + 1) (k - len)).1 - (m + 1) + 1 := by omega
      rw [hsucc, List.take_succ_cons, List.sum_cons, List.getD_cons_succ]
      omega

end IsoTime

namespace Gwsdb.Store

open Digits (digits value)
open IsoTime

/-- The fields of an instant, put together again. -/
theorem instant_fields (t : Int) (ms : Nat) :
    instant (yearFromTime t) (monthDayFromTime t).1 (monthDayFromTime t).2 (timeInDay t / 3600000) (timeInDay t / 60000 % 60)
      (timeInDay t / 1000 % 60) ms = t / 1000 * 1000 + ms := by
  obtain ⟨hsum, hm, hd, -⟩ := monthDay_spec (m := 1) (dayOfYear_lt t)
  have hge := (yearFromDay_spec (day t)).1
  unfold instant monthDayFromTime
  simp only
  generalize hmd : monthDay (monthLengths (leap (yearFromTime t))) 1 (day t - dayFromYear (yearFromTime t)).toNat = md at *
  have hday : dayFromYear (yearFromTime t) + (((monthLengths (leap (yearFromTime t))).take (md.1 - 1)).sum + (md.2 - 1) : Nat) =
      day t := by
    rw [hsum]
    unfold yearFromTime at hge ⊢
    omega
  have hday' : dayFromYear (yearFromTime t) + (((monthLengths (leap (yearFromTime t))).take (md.1 - 1)).sum : Nat) +
      ((md.2 : Int) - 1) = day t := by
    omega
  rw [hday']
  unfold day timeInDay
  omega

/-- Digits of the right number are read as their value. -/
theorem field_digits {w n : Nat} (hn : n < 10 ^ w) (s : List Char) : field w (digits 10 w n ++ s) = some (n, s) := by
  have htake : (digits 10 w n ++ s).take w = digits 10 w n := List.take_left' (Digits.digits_length 10 w n)
  have hdrop : (digits 10 w n ++ s).drop w = s := List.drop_left' (Digits.digits_length 10 w n)
  have hall : (digits 10 w n).all (JsNumber.isDigit 10) = true := by
    rw [List.all_eq_true]
    intro c hc
    obtain ⟨d, hd, rfl⟩ := Digits.isDigit_of_mem_digits (by decide) c hc
    exact JsNumber.isDigit_iff.2 ⟨d, Digits.digitValue_digitChar (by omega), hd⟩
  unfold field
  rw [htake, hdrop, if_pos ⟨Digits.digits_length 10 w n, hall⟩, Digits.value_digits (by decide) hn]

theorem sep_cons (c : Char) (s : List Char) : sep c (c :: s) = some s := if_pos rfl

/-- The instants of the years that a text has room for. -/
def InRange (t : Int) : Prop := -999999 ≤ yearFromTime t ∧ yearFromTime t ≤ 999999

/-- A year is read from its text. -/
theorem year_yearText {t : Int} (ht : InRange t) (s : List Char) :
    year (yearText (yearFromTime t) ++ s) = some (yearFromTime t, s) := by
  obtain ⟨hlow, hhigh⟩ := ht
  unfold yearText
  split
  · rename_i hfour
    have hlt : (yearFromTime t).toNat < 10 ^ 4 := by omega
    have hfield := field_digits hlt s
    obtain ⟨c, rest, hc, heq⟩ : ∃ c rest, Digits.IsDigit 10 c ∧ digits 10 4 (yearFromTime t).toNat ++ s = c :: rest := by
      cases hdigits : digits 10 4 (yearFromTime t).toNat with
      | nil =>
        have hlength := Digits.digits_length 10 4 (yearFromTime t).toNat
        rw [hdigits] at hlength
        cases hlength
      | cons c rest => exact ⟨c, rest ++ s, Digits.isDigit_of_mem_digits (by decide) c (hdigits ▸ List.mem_cons_self), rfl⟩
    rw [heq] at hfield ⊢
    have hsigns := sign_lt_digit (by decide) hc
    unfold year
    split
    · exact absurd hsigns.1 (by simp_all)
    · exact absurd hsigns.2 (by simp_all)
    · rw [hfield, Option.map_some]
      simp only [Int.toNat_of_nonneg hfour.1]
  · rename_i hfour
    have hlt : (yearFromTime t).natAbs < 10 ^ 6 := by omega
    by_cases hneg : yearFromTime t < 0
    · rw [if_pos hneg, List.cons_append, year, field_digits hlt, Option.map_some]
      have habs : -((yearFromTime t).natAbs : Int) = yearFromTime t := by omega
      simp only [habs]
    · rw [if_neg hneg, List.cons_append, year, field_digits hlt, Option.map_some]
      have habs : ((yearFromTime t).natAbs : Int) = yearFromTime t := by omega
      simp only [habs]

/-- A date that is written and read is the same date. -/
theorem parseDate_isoChars {t : Int} (ht : InRange t) : parseDate (isoChars t) = some t := by
  obtain ⟨hm, hm', hd, hd'⟩ := monthDayFromTime_bounds t
  have hday : timeInDay t < 86400000 := by unfold timeInDay; omega
  unfold parseDate isoChars
  simp only [year_yearText ht, Option.bind_eq_bind, Option.bind_some, sep_cons,
    field_digits (show (monthDayFromTime t).1 < 10 ^ 2 by omega), field_digits (show (monthDayFromTime t).2 < 10 ^ 2 by omega),
    field_digits (show timeInDay t / 3600000 < 10 ^ 2 by omega), field_digits (show timeInDay t / 60000 % 60 < 10 ^ 2 by omega),
    field_digits (show timeInDay t / 1000 % 60 < 10 ^ 2 by omega), field_digits (show timeInDay t % 1000 < 10 ^ 3 by omega)]
  rw [if_neg (by simp only [ne_eq, not_true_eq_false, false_or]; omega), instant_fields]
  congr 1
  unfold timeInDay
  omega

example : parseDate "2025-08-31T23:59:59.999Z".toList = some 1756684799999 := by decide +kernel

/-- The text of an instant is not empty. -/
theorem isoText_ne_empty (t : Int) : isoText t ≠ "" := by
  intro hempty
  have hnil : isoChars t = [] := by rw [← String.toList_ofList (l := isoChars t)]; exact congrArg String.toList hempty
  have hmem : '-' ∈ isoChars t := by simp [isoChars]
  rw [hnil] at hmem
  cases hmem

/-- A date that a column holds is read as it was written. -/
theorem fromSQLiteDateTime_isoText {t : Int} (ht : InRange t) : fromSQLiteDateTime (some (isoText t)) = some (some t) := by
  have hparse : parseDate (isoText t).toList = some t := by
    rw [isoText, String.toList_ofList]
    exact parseDate_isoChars ht
  rw [fromSQLiteDateTime, Option.bind_some, if_neg (isoText_ne_empty t), hparse]

end Gwsdb.Store

namespace Gwsdb.Scan

open Digits (digits value)
open Gwsdb.Store (field_digits sep_cons instant_fields formatTime)
open IsoTime

/-- Two digits are read as a number below a hundred. -/
theorem getnum_digits {n : Nat} (hn : n < 100) (fixed : Bool) (s : List Char) :
    getnum fixed (digits 10 2 n ++ s) = some (n, s) := by
  have hvalue := Digits.value_digits (b := 10) (w := 2) (by decide) hn
  have hdigit : ∀ c ∈ digits 10 2 n, JsNumber.isDigit 10 c = true := by
    intro c hc
    obtain ⟨d, hd, rfl⟩ := Digits.isDigit_of_mem_digits (by decide) c hc
    exact JsNumber.isDigit_iff.2 ⟨d, Digits.digitValue_digitChar (by omega), hd⟩
  have htwo : digits 10 2 n = [Nat.digitChar (n / 10 % 10), Nat.digitChar (n % 10)] := rfl
  rw [htwo] at hvalue hdigit ⊢
  rw [List.cons_append, List.cons_append, List.nil_append, getnum, if_pos (hdigit _ List.mem_cons_self),
    if_pos (hdigit _ (List.mem_cons_of_mem _ List.mem_cons_self)), hvalue]

/-- So is a field, within its bound. -/
theorem getField_digits {n bound : Nat} (hn : n < bound) (hbound : bound ≤ 100) (fixed : Bool) (s : List Char) :
    getField fixed bound (digits 10 2 n ++ s) = some (n, s) := by
  rw [getField, getnum_digits (hn.trans_le hbound), Option.bind_some]
  exact if_pos hn

/-- One blank before digits is skipped. -/
theorem skipBlank_digits (w n : Nat) (s : List Char) :
    skipBlank (' ' :: (digits 10 (w + 1) n ++ s)) = some (digits 10 (w + 1) n ++ s) := by
  cases hdigits : digits 10 (w + 1) n with
  | nil =>
    have hlength := Digits.digits_length 10 (w + 1) n
    rw [hdigits] at hlength
    cases hlength
  | cons c rest =>
    obtain ⟨d, hd, rfl⟩ := Digits.isDigit_of_mem_digits (b := 10) (by decide) c (hdigits ▸ List.mem_cons_self)
    have hblank : Nat.digitChar d ≠ ' ' := by interval_cases d <;> decide
    simp [skipBlank, hblank]

/-- The instants of the years that `getUTCFullYear` shows with four digits. -/
def PlainYear (t : Int) : Prop := 1000 ≤ yearFromTime t ∧ yearFromTime t ≤ 9999

instance (t : Int) : Decidable (PlainYear t) := inferInstanceAs (Decidable (_ ∧ _))

/-- A year of four digits is printed with four digits. -/
theorem toString_year {t : Int} (ht : PlainYear t) : (toString (yearFromTime t)).toList = digits 10 4 (yearFromTime t).toNat := by
  obtain ⟨hlow, hhigh⟩ := ht
  obtain ⟨n, hn⟩ := Int.eq_ofNat_of_zero_le (show 0 ≤ yearFromTime t by omega)
  rw [hn] at hlow hhigh ⊢
  have htext : (toString (n : Int)).toList = Nat.toDigits 10 n := String.toList_ofList
  have hfour : 4 ≤ (Nat.toDigits 10 n).length := by
    have hle := Nat.length_toDigits_le_iff (b := 10) (n := n) (k := 3) (by decide) (by decide)
    omega
  have hpad : (Nat.toDigits 10 n).leftpad 4 '0' = Nat.toDigits 10 n := by
    rw [List.leftpad, Nat.sub_eq_zero_of_le hfour]
    rfl
  rw [htext, Int.toNat_natCast, ← Digits.leftpad_toDigits (by decide) (by decide) (by decide) (by omega), hpad]

/-- What the pool endpoints show of an instant is read as its second. -/
theorem parsePoolTime_formatTime {t : Int} (ht : PlainYear t) :
    parsePoolTime (formatTime (some (some t))).toList = some (t / 1000 * 1000 * 1000000) := by
  obtain ⟨hm, hm', hd, hd'⟩ := monthDayFromTime_bounds t
  have hlen := (monthDay_spec (m := 1) (dayOfYear_lt t)).2.2.2
  have hday : timeInDay t < 86400000 := by unfold timeInDay; omega
  have hyear : (yearFromTime t).toNat < 10 ^ 4 := by unfold PlainYear at ht; omega
  have hcast : ((yearFromTime t).toNat : Int) = yearFromTime t := by unfold PlainYear at ht; omega
  unfold parsePoolTime formatTime
  simp only [String.toList_ofList, toString_year ht]
  rw [← List.append_nil (digits 10 2 (timeInDay t / 1000 % 60))]
  simp only [Option.bind_eq_bind, field_digits hyear, Option.bind_some, sep_cons,
    getField_digits (show (monthDayFromTime t).1 <
      13 by omega) (by decide), getnum_digits (show (monthDayFromTime t).2 < 100 by omega),
    skipBlank_digits, getField_digits (show timeInDay t / 3600000 < 24 by omega) (by decide),
    getField_digits (show timeInDay t / 60000 % 60 < 60 by omega) (by decide),
    getField_digits (show timeInDay t / 1000 % 60 < 60 by omega) (by decide), fraction, hcast]
  rw [if_neg ?_, instant_fields]
  · congr 1
    omega
  · unfold monthDayFromTime at *
    simp only [ne_eq, not_true_eq_false, false_or]
    omega

example : formatTime (some (some 1756684799999)) = "2025-08-31 23:59:59" := by decide +kernel

end Gwsdb.Scan
