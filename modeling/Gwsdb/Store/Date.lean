import Gwsdb.Lib.IsoTime
import Gwsdb.Lib.JsNumber

/-!
# Dates and their texts

JavaScript's `Date` as `src/store.ts` and `src/html.ts` use it. A date is an instant in milliseconds, or the invalid date. Columns
hold the texts of `toISOString`, which SQLite compares character by character.
-/

namespace Gwsdb.Store

open Digits (digits value)
open JsNumber (isDigit)
open IsoTime

/-- A `Date`: an instant, or none for the invalid date. -/
abbrev JsDate := Option Int

/-- `a >= b` on dates, false when one of them is invalid. -/
def JsDate.ge : JsDate → JsDate → Bool
  | some a, some b => decide (b ≤ a)
  | _, _ => false

/-- `toISOString`, which throws on the invalid date. -/
def toISOString : JsDate → Except String String
  | some t => .ok (isoText t)
  | none => .error "Invalid time value"

/-- `toSQLiteDateTime` of a date that is there. -/
def toSQLiteDateTime (d : JsDate) : Except String String := toISOString d

/-- `w` digits and the text after them. -/
def field (w : Nat) (s : List Char) : Option (Nat × List Char) :=
  if (s.take w).length = w ∧ (s.take w).all (isDigit 10) then some (value 10 (s.take w), s.drop w) else none

/-- The text after a separator. -/
def sep (c : Char) : List Char → Option (List Char)
  | [] => none
  | d :: s => if d = c then some s else none

/-- A year: four digits, or a sign and six. -/
def year : List Char → Option (Int × List Char)
  | '+' :: s => (field 6 s).map fun (y, s) => ((y : Int), s)
  | '-' :: s => (field 6 s).map fun (y, s) => (-(y : Int), s)
  | s => (field 4 s).map fun (y, s) => ((y : Int), s)

/-- The instant of a calendar date and a time of the day. -/
def instant (y : Int) (month day hour minute second ms : Nat) : Int :=
  let days := dayFromYear y + ((monthLengths (leap y)).take (month - 1)).sum + (day - 1)
  days * 86400000 + ((hour * 60 + minute) * 60 + second) * 1000 + ms

/-- `new Date(text)` for the texts of `toISOString`; any other text gives the invalid date. -/
def parseDate (s : List Char) : JsDate := do
  let (y, s) ← year s
  let (month, s) ← field 2 (← sep '-' s)
  let (day, s) ← field 2 (← sep '-' s)
  let (hour, s) ← field 2 (← sep 'T' s)
  let (minute, s) ← field 2 (← sep ':' s)
  let (second, s) ← field 2 (← sep ':' s)
  let (ms, s) ← field 3 (← sep '.' s)
  if s ≠ ['Z'] ∨ month = 0 ∨ 12 < month ∨ day = 0 ∨ 31 < day then none
  else some (instant y month day hour minute second ms)

/-- `fromSQLiteDateTime`: no date for NULL and for the empty text. -/
def fromSQLiteDateTime (s : Option String) : Option JsDate :=
  s.bind fun s => if s = "" then none else some (parseDate s.toList)

/-- `formatTime`: date and time to the second in UTC, `-` for no date. -/
def formatTime : Option JsDate → String
  | none => "-"
  | some none => "NaN-NaN-NaN NaN:NaN:NaN"
  | some (some t) => String.ofList ((toString (yearFromTime t)).toList ++ '-' :: (digits 10 2 (monthDayFromTime t).1 ++
      '-' :: (digits 10 2 (monthDayFromTime t).2 ++ ' ' :: (digits 10 2 (timeInDay t / 3600000) ++
      ':' :: (digits 10 2 (timeInDay t / 60000 % 60) ++ ':' :: digits 10 2 (timeInDay t / 1000 % 60))))))

end Gwsdb.Store
