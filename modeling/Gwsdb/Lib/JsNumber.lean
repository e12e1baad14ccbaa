import Gwsdb.Lib.Digits
import Mathlib.Data.List.TakeWhile

/-!
# Reading a number from text

ECMAScript's `Number(text)` as far as it decides which integer the text denotes. A text is trimmed; the empty text is zero; `0x`,
`0o` and `0b` introduce digits of those bases; anything else is a decimal with an optional sign, fraction and exponent. The exact
value is then rounded to the nearest double, ties to even. `integer` is the result for texts whose number is an integer of small
magnitude (every integer below 2^52 is such a one); a text that is no number, or whose number is no integer, gives none.
-/

namespace JsNumber

open Digits

/-- White space and line terminators, which are trimmed at both ends. -/
def isSpace (c : Char) : Bool :=
  let n := c.toNat
  (9 ≤ n && n ≤ 13) || n == 32 || n == 0xA0 || n == 0x1680 || (0x2000 ≤ n && n ≤ 0x200A) || n == 0x2028 || n == 0x2029 ||
    n == 0x202F || n == 0x205F || n == 0x3000 || n == 0xFEFF

/-- The text without white space at its ends. -/
def trim (s : List Char) : List Char := ((s.dropWhile isSpace).reverse.dropWhile isSpace).reverse

/-- A digit of a base, in either case. -/
def isDigit (b : Nat) (c : Char) : Bool := (digitValue c).any (· < b)

/-- The number written by one or more digits of a base. -/
def natural (b : Nat) (s : List Char) : Option Nat := if s ≠ [] ∧ s.all (isDigit b) then some (value b s) else none

/-- A number written with an optional sign. -/
def signed {α : Type} (read : List Char → Option α) : List Char → Option (Bool × α)
  | '+' :: s => (read s).map (false, ·)
  | '-' :: s => (read s).map (true, ·)
  | s => (read s).map (false, ·)

/-- The exponent after the digits of a decimal. -/
def exponent : List Char → Option (Bool × Nat)
  | [] => some (false, 0)
  | c :: s => if c = 'e' ∨ c = 'E' then signed (natural 10) s else none

/-- An unsigned decimal as a fraction: digits with at most one point among them, at least one digit, and an exponent. -/
def decimal (s : List Char) : Option (Nat × Nat) :=
  let (whole, s) := s.span (isDigit 10)
  let (part, s) := match s with
    | '.' :: s => s.span (isDigit 10)
    | s => ([], s)
  if whole ++ part = [] then none
  else (exponent s).map fun (negative, e) =>
    let m := value 10 (whole ++ part)
    if negative then (m, 10 ^ (part.length + e)) else (m * 10 ^ e, 10 ^ part.length)

/-- The exact value of a text, a sign and a fraction; none for a text that is no finite number. -/
def fraction (s : List Char) : Option (Bool × Nat × Nat) :=
  match trim s with
  | [] => some (false, 0, 1)
  | '0' :: c :: s =>
    if c = 'x' ∨ c = 'X' then (natural 16 s).map (false, ·, 1)
    else if c = 'o' ∨ c = 'O' then (natural 8 s).map (false, ·, 1)
    else if c = 'b' ∨ c = 'B' then (natural 2 s).map (false, ·, 1)
    else signed decimal ('0' :: c :: s)
  | s => signed decimal s

/-- The integer a fraction rounds to as a double, if it rounds to one. The doubles next to an integer `n` between `2 ^ k` and
`2 ^ (k + 1)` are `2 ^ (k - 52)` away, half of that below a power of two; those next to zero are `2 ^ (-1074)` away. -/
def nearest (m d : Nat) : Option Nat :=
  let n := (2 * m + d) / (2 * d)
  let k := Nat.log 2 n
  if n = 0 then if m * 2 ^ 1075 ≤ d then some 0 else none
  else if n * d ≤ m then if (m - n * d) * 2 ^ 53 ≤ 2 ^ k * d then some n else none
  else if n = 2 ^ k then if (n * d - m) * 2 ^ 54 ≤ 2 ^ k * d then some n else none
  else if (n * d - m) * 2 ^ 53 ≤ 2 ^ k * d then some n else none

/-- The integer a text denotes. -/
def integer (s : List Char) : Option Int :=
  (fraction s).bind fun (negative, m, d) => (nearest m d).map fun n => if negative then -n else n

/-! ## Digits only -/

/-- A digit of a base is a character whose value is below it. -/
theorem isDigit_iff {b : Nat} {c : Char} : isDigit b c = true ↔ ∃ d, digitValue c = some d ∧ d < b := by
  unfold isDigit
  cases digitValue c <;> simp

/-- A decimal digit is neither white space nor a sign nor a letter after a zero. -/
theorem digit_facts {c : Char} (h : isDigit 10 c = true) : isSpace c = false ∧ c ∉ ['+', '-', 'x', 'X', 'o', 'O', 'b', 'B'] := by
  obtain ⟨d, hd, hlt⟩ := isDigit_iff.1 h
  obtain ⟨d, hlt, rfl⟩ := isDigit_of_digitValue_lt hd hlt
  interval_cases d <;> decide

theorem dropWhile_eq_self {s : List Char} (h : ∀ c ∈ s, isSpace c = false) : s.dropWhile isSpace = s := by
  cases s with
  | nil => rfl
  | cons c s => rw [List.dropWhile_cons, h c List.mem_cons_self]; rfl

/-- Digits are not trimmed. -/
theorem trim_digits {s : List Char} (h : ∀ c ∈ s, isDigit 10 c = true) : trim s = s := by
  have hspace : ∀ c ∈ s, isSpace c = false := fun c hc => (digit_facts (h c hc)).1
  rw [trim, dropWhile_eq_self hspace, dropWhile_eq_self fun c hc => hspace c (List.mem_reverse.1 hc), List.reverse_reverse]

/-- A text of digits is a whole number. -/
theorem decimal_digits {s : List Char} (hne : s ≠ []) (h : ∀ c ∈ s, isDigit 10 c = true) : decimal s = some (value 10 s, 1) := by
  have hspan : s.span (isDigit 10) = (s, []) := by
    rw [List.span_eq_takeWhile_dropWhile, List.takeWhile_eq_self_iff.2 h, List.dropWhile_eq_nil_iff.2 h]
  rw [decimal, hspan]
  simp only [List.append_nil, if_neg hne, exponent, Option.map_some]
  simp

/-- Without a sign it is positive. -/
theorem signed_digits {s : List Char} (hne : s ≠ []) (h : ∀ c ∈ s, isDigit 10 c = true) :
    signed decimal s = some (false, value 10 s, 1) := by
  have hread : (decimal s).map (false, ·) = some (false, value 10 s, 1) := by rw [decimal_digits hne h, Option.map_some]
  rw [signed]
  · exact hread
  · rintro t rfl
    exact absurd (digit_facts (h '+' List.mem_cons_self)).2 (by decide)
  · rintro t rfl
    exact absurd (digit_facts (h '-' List.mem_cons_self)).2 (by decide)

/-- So is the fraction it denotes. -/
theorem fraction_digits {s : List Char} (hne : s ≠ []) (h : ∀ c ∈ s, isDigit 10 c = true) :
    fraction s = some (false, value 10 s, 1) := by
  rw [fraction, trim_digits h]
  split
  · exact absurd rfl hne
  · rename_i c t
    have hc := (digit_facts (h c (by simp))).2
    simp only [List.mem_cons, List.not_mem_nil, or_false, not_or] at hc
    rw [if_neg (by tauto), if_neg (by tauto), if_neg (by tauto), signed_digits hne h]
  · exact signed_digits hne h

/-- A whole number is its own nearest one. -/
theorem nearest_one (m : Nat) : nearest m 1 = some m := by
  have hn : (2 * m + 1) / (2 * 1) = m := by omega
  simp only [nearest, hn, Nat.mul_one, Nat.le_refl, if_true, Nat.sub_self, Nat.zero_mul, Nat.zero_le]
  split
  · rename_i h0
    rw [h0, Nat.zero_mul, if_pos (Nat.zero_le 1)]
  · rfl

/-- A text of digits only denotes their value. -/
theorem integer_digits {s : List Char} (hne : s ≠ []) (h : ∀ c ∈ s, isDigit 10 c = true) :
    integer s = some (value 10 s : Int) := by
  rw [integer, fraction_digits hne h, Option.bind_some]
  simp [nearest_one]

example : integer "024".toList = some 24 := by decide +kernel
example : integer " 2.4e1 ".toList = some 24 := by decide +kernel
example : integer "24.5".toList = none := by decide +kernel

end JsNumber
