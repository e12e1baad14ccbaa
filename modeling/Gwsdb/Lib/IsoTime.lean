import Gwsdb.Lib.Digits
import Mathlib.Tactic
import Mathlib.Data.String.Basic

/-!
# ISO 8601 time text

The text of an instant (milliseconds since 1970, UTC) in the form `YYYY-MM-DDTHH:mm:ss.sssZ`, with a sign and six digits for a
year outside 0 to 9999, as ECMAScript defines it. The main fact is `isoText_lt_iff`: between instants of the years 0 to 9999 the
order of the texts, character by character, is the order of the instants: texts of equal shape are ordered by their first
different field, and a field as its number.
-/

namespace IsoTime

open Digits

/-! ## The calendar -/

/-- The day number of the first day of a year. -/
def dayFromYear (y : Int) : Int := 365 * (y - 1970) + (y - 1969) / 4 - (y - 1901) / 100 + (y - 1601) / 400

/-- One in a leap year, zero otherwise. -/
def leap (y : Int) : Int := if (y % 4 = 0 ∧ y % 100 ≠ 0) ∨ y % 400 = 0 then 1 else 0

/-- The year of a day: cycles of 400, 100, 4 and 1 years since the start of year 1. -/
def yearFromDay (d : Int) : Int :=
  let n := d + 719162
  let r := n % 146097
  let b := min (r / 36524) 3
  let c := (r - 36524 * b) / 1461
  let e := min ((r - 36524 * b) % 1461 / 365) 3
  400 * (n / 146097) + 100 * b + 4 * c + e + 1

/-- The lengths of the months of a year with `l` leap days. -/
def monthLengths (l : Int) : List Nat := [31, 28 + l.toNat, 31, 30, 31, 30, 31, 31, 30, 31, 30, 31]

/-- The month and the day of the month of the `k`-th day among months of the given lengths, numbered from `m` on. -/
def monthDay : List Nat → Nat → Nat → Nat × Nat
  | [], m, k => (m, k + 1)
  | len :: lens, m, k => if k < len then (m, k + 1) else monthDay lens (m + 1) (k - len)

/-- A year has 365 days, or one more. -/
theorem dayFromYear_succ (y : Int) : dayFromYear (y + 1) = dayFromYear y + 365 + leap y := by
  unfold dayFromYear leap
  split <;> omega

/-- The first day of a year within its cycles of 400, 100, 4 and 1 years. -/
theorem dayFromYear_cycle {a b c e : Int} (hb : 0 ≤ b ∧ b ≤ 3) (hc : 0 ≤ c ∧ c ≤ 24) (he : 0 ≤ e ∧ e ≤ 3) :
    dayFromYear (400 * a + 100 * b + 4 * c + e + 1) = -719162 + 146097 * a + 36524 * b + 1461 * c + 365 * e := by
  have h4 : (400 * a + 100 * b + 4 * c + e + 1 - 1969) / 4 = 100 * a + 25 * b + c - 492 := by omega
  have h100 : (400 * a + 100 * b + 4 * c + e + 1 - 1901) / 100 = 4 * a + b - 19 := by omega
  have h400 : (400 * a + 100 * b + 4 * c + e + 1 - 1601) / 400 = a - 4 := by omega
  unfold dayFromYear
  rw [h4, h100, h400]
  omega

/-- `yearFromDay` gives the year whose days hold the day. -/
theorem yearFromDay_spec (d : Int) : dayFromYear (yearFromDay d) ≤ d ∧ d < dayFromYear (yearFromDay d + 1) := by
  unfold yearFromDay
  simp only []
  generalize hn : d + 719162 = n
  generalize hr : n % 146097 = r
  generalize hb : min (r / 36524) 3 = b
  generalize hc : (r - 36524 * b) / 1461 = c
  generalize he : min ((r - 36524 * b) % 1461 / 365) 3 = e
  generalize ha : n / 146097 = a
  have hb' : 0 ≤ b ∧ b ≤ 3 := by omega
  have hc' : 0 ≤ c ∧ c ≤ 24 := by omega
  have he' : 0 ≤ e ∧ e ≤ 3 := by omega
  rw [dayFromYear_succ (400 * a + 100 * b + 4 * c + e + 1), dayFromYear_cycle hb' hc' he']
  constructor
  · omega
  · unfold leap
    split <;> omega

/-- A year has one more day or none. -/
theorem leap_cases (y : Int) : leap y = 0 ∨ leap y = 1 := by
  unfold leap
  split
  · exact Or.inr rfl
  · exact Or.inl rfl

/-- Later years begin later. -/
theorem dayFromYear_mono {y z : Int} (h : y ≤ z) : dayFromYear y ≤ dayFromYear z := by
  induction z, h using Int.leInduction with
  | base => exact le_refl _
  | succ z _ ih =>
    rw [dayFromYear_succ]
    have := leap_cases z
    omega

/-- Later days are in no earlier year. -/
theorem yearFromDay_mono {d d' : Int} (h : d ≤ d') : yearFromDay d ≤ yearFromDay d' := by
  by_contra hlt
  have h₁ := (yearFromDay_spec d).1
  have h₂ := (yearFromDay_spec d').2
  have := dayFromYear_mono (show yearFromDay d' + 1 ≤ yearFromDay d by omega)
  omega

/-! ## The fields of an instant -/

/-- The day number of an instant. -/
def day (t : Int) : Int := t / 86400000

/-- The milliseconds of an instant within its day. -/
def timeInDay (t : Int) : Nat := (t % 86400000).toNat

/-- The year of an instant. -/
def yearFromTime (t : Int) : Int := yearFromDay (day t)

/-- The month (1 to 12) and the day of the month (from 1) of an instant. -/
def monthDayFromTime (t : Int) : Nat × Nat :=
  monthDay (monthLengths (leap (yearFromTime t))) 1 (day t - dayFromYear (yearFromTime t)).toNat

/-- The month and the day of a month are in their bounds. -/
theorem monthDay_bounds {lens : List Nat} {m k : Nat} (hk : k < lens.sum) (hl : ∀ len ∈ lens, len ≤ 31) :
    m ≤ (monthDay lens m k).1 ∧ (monthDay lens m k).1 < m + lens.length ∧ 1 ≤ (monthDay lens m k).2 ∧
      (monthDay lens m k).2 ≤ 31 := by
  induction lens generalizing m k with
  | nil => simp at hk
  | cons len lens ih =>
    have hlen := hl len (by simp)
    simp only [List.sum_cons] at hk
    simp only [monthDay, List.length_cons]
    split
    · omega
    · have := ih (m := m + 1) (k := k - len) (by omega) (fun n hn => hl n (by simp [hn]))
      omega

/-- A later day has a later month, or the same month and a later day of it. -/
theorem monthDay_lt {lens : List Nat} {m k k' : Nat} (hk : k < k') (hl : ∀ len ∈ lens, len ≤ 31) (hk' : k' < lens.sum) :
    (monthDay lens m k).1 < (monthDay lens m k').1 ∨
      (monthDay lens m k).1 = (monthDay lens m k').1 ∧ (monthDay lens m k).2 < (monthDay lens m k').2 := by
  induction lens generalizing m k k' with
  | nil => simp at hk'
  | cons len lens ih =>
    have hl' : ∀ n ∈ lens, n ≤ 31 := fun n hn => hl n (by simp [hn])
    simp only [List.sum_cons] at hk'
    simp only [monthDay]
    split
    · split
      · right; simp only [true_and]; omega
      · left
        have := (monthDay_bounds (m := m + 1) (k := k' - len) (by omega) hl').1
        simp only
        omega
    · rw [if_neg (by omega)]
      exact ih (by omega) hl' (by omega)

/-- No month has more than 31 days. -/
theorem monthLengths_le (y : Int) : ∀ len ∈ monthLengths (leap y), len ≤ 31 := by
  rcases leap_cases y with h | h <;> rw [h] <;> decide

/-- The months make the year. -/
theorem monthLengths_sum (y : Int) : ((monthLengths (leap y)).sum : Int) = 365 + leap y := by
  rcases leap_cases y with h | h <;> rw [h] <;> decide

/-- The day of the year of an instant lies within its year. -/
theorem dayOfYear_lt (t : Int) :
    (day t - dayFromYear (yearFromTime t)).toNat < (monthLengths (leap (yearFromTime t))).sum := by
  obtain ⟨h₁, h₂⟩ := yearFromDay_spec (day t)
  rw [dayFromYear_succ] at h₂
  have := monthLengths_sum (yearFromTime t)
  unfold yearFromTime at *
  omega

/-- Month and day of an instant are in their bounds. -/
theorem monthDayFromTime_bounds (t : Int) :
    1 ≤ (monthDayFromTime t).1 ∧ (monthDayFromTime t).1 ≤ 12 ∧ 1 ≤ (monthDayFromTime t).2 ∧ (monthDayFromTime t).2 ≤ 31 := by
  have h := monthDay_bounds (m := 1) (dayOfYear_lt t) (monthLengths_le (yearFromTime t))
  have hlen : (monthLengths (leap (yearFromTime t))).length = 12 := rfl
  unfold monthDayFromTime
  omega

/-- Later instants are in no earlier year. -/
theorem yearFromTime_mono {t u : Int} (h : t ≤ u) : yearFromTime t ≤ yearFromTime u :=
  yearFromDay_mono (by unfold day; omega)

/-- A later day is later in its first different field: year, month, day of the month. -/
theorem date_lt {t u : Int} (h : day t < day u) :
    yearFromTime t < yearFromTime u ∨ yearFromTime t = yearFromTime u ∧
      ((monthDayFromTime t).1 < (monthDayFromTime u).1 ∨
        (monthDayFromTime t).1 = (monthDayFromTime u).1 ∧ (monthDayFromTime t).2 < (monthDayFromTime u).2) := by
  have hy : yearFromTime t ≤ yearFromTime u := yearFromDay_mono h.le
  rcases lt_or_eq_of_le hy with hlt | heq
  · exact Or.inl hlt
  · right
    refine ⟨heq, ?_⟩
    have hu := dayOfYear_lt u
    have hge := (yearFromDay_spec (day t)).1
    unfold monthDayFromTime
    rw [heq]
    apply monthDay_lt _ (monthLengths_le _) hu
    rw [← heq]
    unfold yearFromTime at *
    omega

/-! ## The text of an instant -/

/-- The text of a year: four digits for the years 0 to 9999, otherwise a sign and six. -/
def yearText (y : Int) : List Char :=
  if 0 ≤ y ∧ y ≤ 9999 then digits 10 4 y.toNat else (if y < 0 then '-' else '+') :: digits 10 6 y.natAbs

/-- The text of an instant. -/
def isoChars (t : Int) : List Char :=
  yearText (yearFromTime t) ++ '-' :: (digits 10 2 (monthDayFromTime t).1 ++ '-' :: (digits 10 2 (monthDayFromTime t).2 ++
    'T' :: (digits 10 2 (timeInDay t / 3600000) ++ ':' :: (digits 10 2 (timeInDay t / 60000 % 60) ++
      ':' :: (digits 10 2 (timeInDay t / 1000 % 60) ++ '.' :: (digits 10 3 (timeInDay t % 1000) ++ ['Z']))))))

/-- The text of an instant, as a string. -/
def isoText (t : Int) : String := String.ofList (isoChars t)

/-- One field of two texts of equal shape: a number in digits, a separator, and the rest. -/
theorem field_lt_iff {w a b : Nat} (ha : a < 10 ^ w) (hb : b < 10 ^ w) (c : Char) (x y : List Char) :
    digits 10 w a ++ c :: x < digits 10 w b ++ c :: y ↔ a < b ∨ a = b ∧ x < y := by
  rw [append_lt_append_iff (by rw [digits_length, digits_length]), digits_lt_iff (by decide) ha hb, List.cons_lt_cons_iff]
  constructor
  · rintro (h | ⟨h, h' | ⟨-, h'⟩⟩)
    · exact Or.inl h
    · exact absurd h' (lt_irrefl _)
    · exact Or.inr ⟨digits_inj (by decide) ha hb h, h'⟩
  · rintro (h | ⟨rfl, h'⟩)
    · exact Or.inl h
    · exact Or.inr ⟨rfl, Or.inr ⟨rfl, h'⟩⟩

/-- An instant of the years 0 to 9999. -/
def FourDigitYear (t : Int) : Prop := 0 ≤ yearFromTime t ∧ yearFromTime t ≤ 9999

instance (t : Int) : Decidable (FourDigitYear t) := inferInstanceAs (Decidable (_ ∧ _))

/-- A later instant is later in its first different field. -/
theorem fields_lt {t u : Int} (h : t < u) :
    day t < day u ∨ day t = day u ∧ timeInDay t < timeInDay u := by
  unfold day timeInDay
  omega

/-- A year of four digits is below ten thousand. -/
theorem FourDigitYear.toNat_le {t : Int} (h : FourDigitYear t) : (yearFromTime t).toNat < 10 ^ 4 := by
  obtain ⟨h₀, h₁⟩ := h
  omega

/-- It is written with four digits. -/
theorem yearText_of {t : Int} (h : FourDigitYear t) : yearText (yearFromTime t) = digits 10 4 (yearFromTime t).toNat := if_pos h

/-- The text of the date of an instant. -/
def dateChars (t : Int) : List Char :=
  yearText (yearFromTime t) ++ '-' :: (digits 10 2 (monthDayFromTime t).1 ++ '-' :: digits 10 2 (monthDayFromTime t).2)

/-- The text of the time of the day, to the second. -/
def timeChars (t : Int) : List Char :=
  digits 10 2 (timeInDay t / 3600000) ++ ':' ::
    (digits 10 2 (timeInDay t / 60000 % 60) ++ ':' :: digits 10 2 (timeInDay t / 1000 % 60))

/-- The text of an instant is its date, its time and its milliseconds. -/
theorem isoChars_eq (t : Int) : isoChars t = dateChars t ++ 'T' ::
    (timeChars t ++ '.' :: (digits 10 3 (timeInDay t % 1000) ++ ['Z'])) := by
  simp [isoChars, dateChars, timeChars, List.append_assoc]

/-- A date has ten characters. -/
theorem dateChars_length {t : Int} (ht : FourDigitYear t) : (dateChars t).length = 10 := by
  unfold dateChars
  rw [yearText_of ht]
  simp [digits_length]

/-- A later day has a later text, whatever comes after it. -/
theorem dateChars_append_lt {t u : Int} (ht : FourDigitYear t) (hu : FourDigitYear u) (h : day t < day u) (a b : List Char) :
    dateChars t ++ a < dateChars u ++ b := by
  have bt := monthDayFromTime_bounds t
  have bu := monthDayFromTime_bounds u
  have yt := ht.toNat_le
  have yu := hu.toNat_le
  rw [append_lt_append_iff (by rw [dateChars_length ht, dateChars_length hu])]
  left
  unfold dateChars
  rw [yearText_of ht, yearText_of hu, field_lt_iff (by omega) (by omega), field_lt_iff (by omega) (by omega),
    digits_lt_iff (by decide) (by omega) (by omega)]
  rcases date_lt h with hy | ⟨hy, hm | ⟨hm, hdd⟩⟩
  · have hnonneg := ht.1
    exact Or.inl (by omega)
  · exact Or.inr ⟨by rw [hy], Or.inl hm⟩
  · exact Or.inr ⟨by rw [hy], Or.inr ⟨hm, hdd⟩⟩

/-- It depends on the day only. -/
theorem dateChars_congr {t u : Int} (h : day t = day u) : dateChars t = dateChars u := by
  have hy : yearFromTime t = yearFromTime u := by unfold yearFromTime; rw [h]
  have hmd : monthDayFromTime t = monthDayFromTime u := by unfold monthDayFromTime; rw [hy, h]
  unfold dateChars
  rw [hy, hmd]

/-- A time has eight characters. -/
theorem timeChars_length (t : Int) : (timeChars t).length = 8 := by
  simp [timeChars, digits_length]

/-- A later second of the day has a later text. -/
theorem timeChars_lt {t u : Int} (h : timeInDay t / 1000 < timeInDay u / 1000) : timeChars t < timeChars u := by
  have ct : timeInDay t < 86400000 := by unfold timeInDay; omega
  have cu : timeInDay u < 86400000 := by unfold timeInDay; omega
  unfold timeChars
  rw [field_lt_iff (by omega) (by omega), field_lt_iff (by omega) (by omega), digits_lt_iff (by decide) (by omega) (by omega)]
  rcases lt_or_eq_of_le (show timeInDay t / 3600000 ≤ timeInDay u / 3600000 by omega) with h₁ | h₁
  · exact Or.inl h₁
  refine Or.inr ⟨h₁, ?_⟩
  rcases lt_or_eq_of_le (show timeInDay t / 60000 % 60 ≤ timeInDay u / 60000 % 60 by omega) with h₂ | h₂
  · exact Or.inl h₂
  · exact Or.inr ⟨h₂, by omega⟩

/-- It depends on the second only. -/
theorem timeChars_congr {t u : Int} (h : timeInDay t / 1000 = timeInDay u / 1000) : timeChars t = timeChars u := by
  have h₁ : timeInDay t / 3600000 = timeInDay u / 3600000 := by omega
  have h₂ : timeInDay t / 60000 % 60 = timeInDay u / 60000 % 60 := by omega
  unfold timeChars
  rw [h, h₁, h₂]

/-- A later time of one day has a later text. -/
theorem isoChars_lt_of_day_eq {t u : Int} (hd : day t = day u) (h : timeInDay t < timeInDay u) : isoChars t < isoChars u := by
  rw [isoChars_eq, isoChars_eq, dateChars_congr hd, append_lt_append_iff rfl, List.cons_lt_cons_iff]
  refine Or.inr ⟨rfl, Or.inr ⟨rfl, ?_⟩⟩
  rw [append_lt_append_iff (by rw [timeChars_length, timeChars_length])]
  rcases lt_or_eq_of_le (show timeInDay t / 1000 ≤ timeInDay u / 1000 by omega) with hs | hs
  · exact Or.inl (timeChars_lt hs)
  refine Or.inr ⟨timeChars_congr hs, ?_⟩
  rw [List.cons_lt_cons_iff, append_lt_append_iff (by rw [digits_length, digits_length]),
    digits_lt_iff (by decide) (by omega) (by omega)]
  exact Or.inr ⟨rfl, Or.inl (by omega)⟩

/-- Instants of the years 0 to 9999: a later instant has a later text. -/
theorem isoChars_lt {t u : Int} (ht : FourDigitYear t) (hu : FourDigitYear u) (h : t < u) : isoChars t < isoChars u := by
  rcases fields_lt h with hd | ⟨hd, htod⟩
  · rw [isoChars_eq, isoChars_eq]
    exact dateChars_append_lt ht hu hd _ _
  · exact isoChars_lt_of_day_eq hd htod

/-- Instants of the years 0 to 9999 are ordered as their texts. -/
theorem isoText_lt {t u : Int} (ht : FourDigitYear t) (hu : FourDigitYear u) (h : t < u) : isoText t < isoText u := by
  unfold isoText
  rw [String.lt_iff_toList_lt, String.toList_ofList, String.toList_ofList]
  exact isoChars_lt ht hu h

/-- The text of an instant to the minute. -/
def minuteChars (t : Int) : List Char :=
  dateChars t ++ 'T' :: (digits 10 2 (timeInDay t / 3600000) ++ ':' :: digits 10 2 (timeInDay t / 60000 % 60))

/-- The text of an instant is the minute, the seconds and the milliseconds. -/
theorem isoChars_eq_minute (t : Int) : isoChars t =
    minuteChars t ++ ':' :: (digits 10 2 (timeInDay t / 1000 % 60) ++ '.' :: (digits 10 3 (timeInDay t % 1000) ++ ['Z'])) := by
  simp [isoChars, dateChars, minuteChars, List.append_assoc]

/-- The text to the minute has sixteen characters. -/
theorem minuteChars_length {t : Int} (ht : FourDigitYear t) : (minuteChars t).length = 16 := by
  unfold minuteChars
  rw [List.length_append, dateChars_length ht]
  simp [digits_length]

/-- A later minute has a later text. -/
theorem minuteChars_lt {t u : Int} (ht : FourDigitYear t) (hu : FourDigitYear u) (ht' : t % 60000 = 0)
    (hu' : u % 60000 = 0) (h : t < u) :
    minuteChars t < minuteChars u := by
  have hlt := isoChars_lt ht hu h
  have hseconds : timeInDay t / 1000 % 60 = timeInDay u / 1000 % 60 := by
    unfold timeInDay
    omega
  have hms : timeInDay t % 1000 = timeInDay u % 1000 := by
    unfold timeInDay
    omega
  rw [isoChars_eq_minute, isoChars_eq_minute, append_lt_append_iff
    (by rw [minuteChars_length ht, minuteChars_length hu]), hseconds, hms] at hlt
  rcases hlt with hlt | ⟨-, hrest⟩
  · exact hlt
  · exact absurd hrest (lt_irrefl _)

/-- The instants from the start of year 0 to the end of year 9999 are those of four-digit years. -/
theorem fourDigitYear_of_bounds {t : Int} (h₀ : -62167219200000 ≤ t) (h₁ : t < 253402300800000) : FourDigitYear t := by
  have e₀ : yearFromTime (-62167219200000) = 0 := by decide
  have e₁ : yearFromTime 253402300799999 = 9999 := by decide
  constructor
  · rw [← e₀]; exact yearFromTime_mono h₀
  · rw [← e₁]; exact yearFromTime_mono (by omega)

/-! ## Years outside 0 to 9999 -/

/-- In any one year a later instant has a later text. -/
theorem isoText_lt_of_year_eq {t u : Int} (hy : yearFromTime t = yearFromTime u) (h : t < u) : isoText t < isoText u := by
  unfold isoText
  rw [String.lt_iff_toList_lt, String.toList_ofList, String.toList_ofList]
  rcases fields_lt h with hd | ⟨hd, htod⟩
  · have bt := monthDayFromTime_bounds t
    have bu := monthDayFromTime_bounds u
    have hfields := ((date_lt hd).resolve_left (by omega)).2
    unfold isoChars
    rw [hy, append_lt_append_iff rfl, List.cons_lt_cons_iff]
    refine Or.inr ⟨rfl, Or.inr ⟨rfl, ?_⟩⟩
    rw [field_lt_iff (by omega) (by omega), field_lt_iff (by omega) (by omega)]
    exact hfields.imp_right fun ⟨hm, hd⟩ => ⟨hm, Or.inl hd⟩
  · exact isoChars_lt_of_day_eq hd htod

/-- Any other year is written with a sign and six digits. -/
theorem yearText_signed {t : Int} (h : ¬FourDigitYear t) :
    yearText (yearFromTime t) = (if yearFromTime t < 0 then '-' else '+') :: digits 10 6 (yearFromTime t).natAbs := if_neg h

/-- A sign comes before every digit. -/
theorem sign_lt_digit {b : Nat} (hb : b ≤ 16) {c : Char} (hc : IsDigit b c) : '+' < c ∧ '-' < c := by
  obtain ⟨d, hd, rfl⟩ := hc
  have hd' : d < 16 := hd.trans_le hb
  clear hd hb
  interval_cases d <;> decide

/-- The first character of a year of four digits. -/
theorem yearText_head {t : Int} (h : FourDigitYear t) : ∃ c s, IsDigit 10 c ∧ yearText (yearFromTime t) = c :: s := by
  rw [yearText_of h]
  cases hdigits : digits 10 4 (yearFromTime t).toNat with
  | nil =>
    have hlength := digits_length 10 4 (yearFromTime t).toNat
    rw [hdigits] at hlength
    cases hlength
  | cons c s => exact ⟨c, s, isDigit_of_mem_digits (by decide) c (hdigits ▸ List.mem_cons_self), rfl⟩

/-- The text of a year outside 0 to 9999 comes before that of any year within, whatever comes after them. -/
theorem isoChars_append_lt {t u : Int} (ht : ¬FourDigitYear t) (hu : FourDigitYear u) (a b : List Char) :
    isoChars t ++ a < yearText (yearFromTime u) ++ b := by
  obtain ⟨c, s, hc, htext⟩ := yearText_head hu
  have hsign := sign_lt_digit (by decide) hc
  unfold isoChars
  rw [htext, yearText_signed ht]
  refine List.cons_lt_cons_iff.2 (Or.inl ?_)
  split
  · exact hsign.2
  · exact hsign.1

/-- The text of a year after 9999 comes first. -/
theorem isoText_lt_of_late {t u : Int} (ht : 9999 < yearFromTime t) (hu : yearFromTime u ≤ 9999) : isoText t < isoText u := by
  have hnot : ¬FourDigitYear t := fun h => by have := h.2; omega
  unfold isoText
  rw [String.lt_iff_toList_lt, String.toList_ofList, String.toList_ofList]
  by_cases hu' : FourDigitYear u
  · have hlt := isoChars_append_lt hnot hu' [] (isoChars u |>.drop (yearText (yearFromTime u)).length)
    rw [List.append_nil] at hlt
    convert hlt using 1
    unfold isoChars
    rw [List.drop_left]
  · unfold isoChars
    rw [yearText_signed hnot, yearText_signed hu', if_neg (by omega), if_pos (by unfold FourDigitYear at hu'; omega)]
    exact List.cons_lt_cons_iff.2 (Or.inl (by decide))

/-- Before the year zero the text of an earlier year comes later. -/
theorem isoText_lt_of_negative {t u : Int} (hu : yearFromTime u < 0) (hyear : -10 ^ 6 < yearFromTime t)
    (h : yearFromTime t < yearFromTime u) :
    isoText u < isoText t := by
  unfold isoText
  rw [String.lt_iff_toList_lt, String.toList_ofList, String.toList_ofList]
  have hsigned : ∀ {v : Int}, yearFromTime v < 0 → ¬FourDigitYear v := fun hv hfour => absurd hfour.1 (not_le.2 hv)
  unfold isoChars
  rw [yearText_signed (hsigned hu), yearText_signed (hsigned (h.trans hu)), if_pos hu, if_pos (h.trans hu), List.cons_append,
    List.cons_append]
  refine List.cons_lt_cons_iff.2 (Or.inr ⟨rfl, ?_⟩)
  exact (field_lt_iff (by omega) (by omega) _ _ _).2 (Or.inl (by omega))

example : isoText 0 = "1970-01-01T00:00:00.000Z" := by decide
example : isoText 1756684799999 = "2025-08-31T23:59:59.999Z" := by decide
example : isoText (-62198755200001) = "-000002-12-31T23:59:59.999Z" := by decide

end IsoTime
