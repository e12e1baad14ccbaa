import Mathlib.Data.Nat.Log
import Mathlib.Data.String.Basic
import Mathlib.Tactic

/-!
# Numbers in fixed-width digits

A number written with a fixed count of digits in a base up to sixteen, the letters in lower case. Texts of one width are ordered
as their numbers (`digits_lt_iff`, `digits_le_iff`) and determine them (`digits_inj`); reading a text back gives its number
(`value_digits`), and writing what was read gives the text (`digits_value`).
-/

namespace Digits

/-- The last `w` digits of a number in base `b`, most significant first. -/
def digits (b : Nat) : Nat → Nat → List Char
  | 0, _ => []
  | w + 1, n => digits b w (n / b) ++ [Nat.digitChar (n % b)]

@[simp] theorem digits_length (b w n : Nat) : (digits b w n).length = w := by
  induction w generalizing n with
  | zero => rfl
  | succ w ih => simp [digits, ih]

/-- The value of a digit of a base up to sixteen, in either case. -/
def digitValue (c : Char) : Option Nat :=
  if '0' ≤ c ∧ c ≤ '9' then some (c.toNat - '0'.toNat)
  else if 'a' ≤ c ∧ c ≤ 'f' then some (c.toNat - 'a'.toNat + 10)
  else if 'A' ≤ c ∧ c ≤ 'F' then some (c.toNat - 'A'.toNat + 10)
  else none

/-- The value of a text of digits in base `b`. -/
def value (b : Nat) (s : List Char) : Nat := s.foldl (fun v c => v * b + (digitValue c).getD 0) 0

/-- A character that `digits` writes in base `b`. -/
def IsDigit (b : Nat) (c : Char) : Prop := ∃ d < b, c = Nat.digitChar d

theorem isDigit_of_mem_digits {b : Nat} (hb : 0 < b) {w n : Nat} : ∀ c ∈ digits b w n, IsDigit b c := by
  induction w generalizing n with
  | zero => exact fun c hc => nomatch hc
  | succ w ih =>
    intro c hc
    rcases List.mem_append.1 hc with hc | hc
    · exact ih c hc
    · exact ⟨n % b, Nat.mod_lt n hb, List.mem_singleton.1 hc⟩

/-- The digits of a number are those of its high part and those of its low part. -/
theorem digits_add (b m n v : Nat) : digits b (m + n) v = digits b m (v / b ^ n) ++ digits b n v := by
  induction n generalizing v with
  | zero => simp [digits]
  | succ n ih =>
    rw [← Nat.add_assoc, digits, ih, digits, Nat.div_div_eq_div_mul, ← pow_succ', List.append_assoc]

/-- The last digits of a number are those of its remainder. -/
theorem digits_mod (b w v : Nat) : digits b w (v % b ^ w) = digits b w v := by
  induction w generalizing v with
  | zero => rfl
  | succ w ih =>
    have hlow : v % b ^ (w + 1) % b = v % b := Nat.mod_mod_of_dvd v (Dvd.intro_left _ (pow_succ b w).symm)
    have hhigh : v % b ^ (w + 1) / b = v / b % b ^ w := by rw [pow_succ', Nat.mod_mul_right_div_self]
    rw [digits, digits, hlow, hhigh, ih]

/-! ## One digit -/

theorem digitValue_digitChar {d : Nat} (h : d < 16) : digitValue (Nat.digitChar d) = some d := by
  interval_cases d <;> decide

/-- A character without a value is a digit in no base. -/
theorem not_isDigit {b : Nat} (hb : b ≤ 16) {c : Char} (hc : digitValue c = none) : ¬IsDigit b c := by
  rintro ⟨d, hd, rfl⟩
  rw [digitValue_digitChar (hd.trans_le hb)] at hc
  exact absurd hc (Option.some_ne_none d)

theorem digitChar_lt_iff {a b : Nat} (ha : a < 16) (hb : b < 16) : Nat.digitChar a < Nat.digitChar b ↔ a < b := by
  interval_cases a <;> interval_cases b <;> decide

theorem digitChar_inj {a b : Nat} (ha : a < 16) (hb : b < 16) (h : Nat.digitChar a = Nat.digitChar b) : a = b := by
  have := digitValue_digitChar ha
  rw [h, digitValue_digitChar hb] at this
  exact (Option.some.inj this).symm

theorem toNat_lt_of_digitValue {c : Char} {d : Nat} (h : digitValue c = some d) : c.toNat < 128 := by
  unfold digitValue at h
  by_contra hge
  have hgt : ∀ x : Char, x.toNat < 128 → ¬c ≤ x := fun x hx hle => hge (lt_of_le_of_lt hle hx)
  simp [hgt '9' (by decide), hgt 'f' (by decide), hgt 'F' (by decide)] at h

/-- What holds of the ASCII characters one by one. -/
theorem ascii_all {P : Char → Prop} (h : ∀ n < 128, P (Char.ofNat n)) : ∀ c : Char, c.toNat < 128 → P c := by
  intro c hc
  have hchar := h c.toNat hc
  rwa [Char.ofNat_toNat] at hchar

/-- A hex digit in either case is, in lower case, a digit of its value. -/
theorem digitValue_toLower {c : Char} {d : Nat} (h : digitValue c = some d) : d < 16 ∧ c.toLower = Nat.digitChar d := by
  have hall := ascii_all (P := fun c => ∀ d ∈ digitValue c, d < 16 ∧ c.toLower = Nat.digitChar d) (by decide)
  exact hall c (toNat_lt_of_digitValue h) d h

/-- A decimal digit is written in one way. -/
theorem isDigit_of_digitValue_lt {c : Char} {d : Nat} (h : digitValue c = some d) (hd : d < 10) : IsDigit 10 c := by
  have hall := ascii_all (P := fun c => ∀ d ∈ digitValue c, d < 10 → c = Nat.digitChar d) (by decide)
  exact ⟨d, hd, hall c (toNat_lt_of_digitValue h) d h hd⟩

/-! ## Texts of one width -/

/-- Texts of equal length are ordered by their first parts, and by their second where the first agree. -/
theorem append_lt_append_iff {a b x y : List Char} (h : a.length = b.length) :
    a ++ x < b ++ y ↔ a < b ∨ a = b ∧ x < y := by
  induction a generalizing b with
  | nil =>
    have hb : b = [] := List.eq_nil_of_length_eq_zero h.symm
    subst hb
    simp
  | cons c a ih =>
    cases b with
    | nil => simp at h
    | cons d b =>
      simp only [List.length_cons, Nat.add_right_cancel_iff] at h
      simp only [List.cons_append, List.cons_lt_cons_iff, ih h, List.cons.injEq]
      tauto

variable {b : Nat}

/-- Digits of one width determine the number. -/
theorem digits_inj (hb : b ≤ 16) {w m n : Nat} (hm : m < b ^ w) (hn : n < b ^ w) (h : digits b w m = digits b w n) :
    m = n := by
  induction w generalizing m n with
  | zero => simp at hm hn; omega
  | succ w ih =>
    have hpos : 0 < b := Nat.pos_of_ne_zero fun h0 => by simp [h0] at hm
    rw [pow_succ] at hm hn
    obtain ⟨h₁, h₂⟩ := List.append_inj h (by rw [digits_length, digits_length])
    have h₃ := ih (Nat.div_lt_of_lt_mul (by rwa [mul_comm])) (Nat.div_lt_of_lt_mul (by rwa [mul_comm])) h₁
    have h₄ := digitChar_inj ((Nat.mod_lt m hpos).trans_le hb) ((Nat.mod_lt n hpos).trans_le hb) (by simpa using h₂)
    rw [← Nat.div_add_mod m b, ← Nat.div_add_mod n b, h₃, h₄]

/-- Digits of one width are ordered as their numbers. -/
theorem digits_lt_iff (hb : b ≤ 16) {w m n : Nat} (hm : m < b ^ w) (hn : n < b ^ w) :
    digits b w m < digits b w n ↔ m < n := by
  induction w generalizing m n with
  | zero => simp at hm hn; subst hm hn; simp [digits]
  | succ w ih =>
    have hpos : 0 < b := Nat.pos_of_ne_zero fun h0 => by simp [h0] at hm
    have hm' : m / b < b ^ w := Nat.div_lt_of_lt_mul (by rwa [pow_succ, mul_comm] at hm)
    have hn' : n / b < b ^ w := Nat.div_lt_of_lt_mul (by rwa [pow_succ, mul_comm] at hn)
    have em := Nat.div_add_mod m b
    have en := Nat.div_add_mod n b
    have lm := Nat.mod_lt m hpos
    have ln := Nat.mod_lt n hpos
    unfold digits
    rw [append_lt_append_iff (by rw [digits_length, digits_length]), ih hm' hn', List.cons_lt_cons_iff,
      digitChar_lt_iff (lm.trans_le hb) (ln.trans_le hb)]
    constructor
    · rintro (h | ⟨h, h' | ⟨-, h'⟩⟩)
      · exact Nat.lt_of_div_lt_div h
      · have := digits_inj hb hm' hn' h
        rw [this] at em
        omega
      · simp at h'
    · intro h
      rcases lt_or_eq_of_le (Nat.div_le_div_right (c := b) h.le) with h' | h'
      · exact Or.inl h'
      · rw [h'] at em
        exact Or.inr ⟨by rw [h'], Or.inl (by omega)⟩

theorem digits_le_iff (hb : b ≤ 16) {w m n : Nat} (hm : m < b ^ w) (hn : n < b ^ w) :
    digits b w m ≤ digits b w n ↔ m ≤ n :=
  not_lt.symm.trans ((not_congr (digits_lt_iff hb hn hm)).trans not_lt)

/-! ## Reading -/

theorem value_append (b : Nat) (s : List Char) (c : Char) :
    value b (s ++ [c]) = value b s * b + (digitValue c).getD 0 := by
  simp [value]

/-- The value of a text is that of its parts, the first one raised by the digits of the second. -/
theorem value_append_text (b : Nat) (s t : List Char) : value b (s ++ t) = value b s * b ^ t.length + value b t := by
  induction t using List.reverseRecOn with
  | nil => simp [value]
  | append_singleton t c ih =>
    rw [← List.append_assoc, value_append, ih, value_append, List.length_append, List.length_singleton]
    ring

/-- Letters count the same in either case. -/
theorem value_toLower {b : Nat} {s : List Char} (h : ∀ c ∈ s, digitValue c ≠ none) :
    value b (s.map Char.toLower) = value b s := by
  induction s using List.reverseRecOn with
  | nil => rfl
  | append_singleton s c ih =>
    obtain ⟨d, hd⟩ := Option.ne_none_iff_exists'.1 (h c (by simp))
    obtain ⟨hlt, hlower⟩ := digitValue_toLower hd
    rw [List.map_append, List.map_singleton, value_append, value_append, ih fun c hc => h c (by simp [hc]), hlower,
      digitValue_digitChar hlt, hd]

/-- Reading the digits of a number gives the number. -/
theorem value_digits (hb : b ≤ 16) {w n : Nat} (hn : n < b ^ w) : value b (digits b w n) = n := by
  induction w generalizing n with
  | zero => simp at hn; simp [digits, value, hn]
  | succ w ih =>
    have hpos : 0 < b := Nat.pos_of_ne_zero fun h0 => by simp [h0] at hn
    unfold digits
    rw [value_append, ih (Nat.div_lt_of_lt_mul (by rwa [pow_succ, mul_comm] at hn)),
      digitValue_digitChar ((Nat.mod_lt n hpos).trans_le hb), Option.getD_some, mul_comm, Nat.div_add_mod]

/-- A text of `w` digits is the digits of its value, and the value is below `b ^ w`. -/
theorem digits_value (hb : b ≤ 16) {s : List Char} (hs : ∀ c ∈ s, IsDigit b c) :
    value b s < b ^ s.length ∧ digits b s.length (value b s) = s := by
  induction s using List.reverseRecOn with
  | nil => exact ⟨by simp [value], rfl⟩
  | append_singleton s c ih =>
    obtain ⟨d, hd, rfl⟩ := hs c (by simp)
    obtain ⟨hlt, hdig⟩ := ih fun c hc => hs c (by simp [hc])
    have hpos : 0 < b := by omega
    have hv : value b (s ++ [Nat.digitChar d]) = d + b * value b s := by
      rw [value_append, digitValue_digitChar (by omega), Option.getD_some, mul_comm, add_comm]
    rw [hv, List.length_append, List.length_singleton]
    constructor
    · calc d + b * value b s < b + b * value b s := by omega
        _ = b * (value b s + 1) := by ring
        _ ≤ b * b ^ s.length := Nat.mul_le_mul_left b hlt
        _ = b ^ (s.length + 1) := by ring
    · unfold digits
      rw [Nat.add_mul_div_left d (value b s) hpos, Nat.div_eq_of_lt hd, zero_add, hdig, Nat.add_mul_mod_self_left,
        Nat.mod_eq_of_lt hd]

example : digits 16 4 0xbeef = ['b', 'e', 'e', 'f'] := by decide

/-- Zeros in front of a numeral do not change its value. -/
theorem value_leftpad (b w : Nat) (s : List Char) : value b (s.leftpad w '0') = value b s := by
  have hzeros : ∀ k, (List.replicate k '0').foldl (fun v c => v * b + (digitValue c).getD 0) 0 = 0 := by
    intro k
    induction k with
    | zero => rfl
    | succ k ih =>
      rw [List.replicate_succ', List.foldl_append, ih, List.foldl_cons, List.foldl_nil, Nat.zero_mul]
      rfl
  unfold value List.leftpad
  rw [List.foldl_append, hzeros]

/-- Numerals filled up to one length have one value exactly when they are the same. -/
theorem leftpad_eq_iff (hb : 0 < b) (hb' : b ≤ 16) {w : Nat} {s t : List Char}
    (hs : ∀ c ∈ s, IsDigit b c) (ht : ∀ c ∈ t, IsDigit b c)
    (hsw : s.length ≤ w) (htw : t.length ≤ w) : s.leftpad w '0' = t.leftpad w '0' ↔ value b s = value b t := by
  have hfilled : ∀ s : List Char, (∀ c ∈ s, IsDigit b c) → s.length ≤ w → digits b w (value b s) = s.leftpad w '0' := by
    intro s hs hsw
    have hdigits : ∀ c ∈ s.leftpad w '0', IsDigit b c := by
      intro c hc
      rcases List.mem_append.1 hc with hc | hc
      · exact ⟨0, hb, List.eq_of_mem_replicate hc⟩
      · exact hs c hc
    have hspec := (digits_value hb' hdigits).2
    rwa [List.length_leftpad, max_eq_left hsw, value_leftpad] at hspec
  constructor
  · intro h
    rw [← value_leftpad b w s, h, value_leftpad]
  · intro h
    rw [← hfilled s hs hsw, ← hfilled t ht htw, h]

/-! ## Numerals without zeros in front -/

/-- Every number has digits: one, or those of its quotient and one more. -/
theorem toDigits_induction {P : Nat → List Char → Prop} (hb : 1 < b) (hone : ∀ n < b, P n [n.digitChar])
    (hmore : ∀ n, b ≤ n → P (n / b) (Nat.toDigits b (n / b)) → P n (Nat.toDigits b (n / b) ++ [(n % b).digitChar])) (n : Nat) :
    P n (Nat.toDigits b n) := by
  induction n using Nat.strong_induction_on with
  | _ n ih =>
    rw [Nat.toDigits_eq_if hb]
    split
    · exact hone n ‹_›
    · rename_i hge
      exact hmore n (Nat.le_of_not_lt hge) (ih (n / b) (Nat.div_lt_self (by omega) hb))

theorem value_toDigits (hb : 1 < b) (hb' : b ≤ 16) (n : Nat) : value b (Nat.toDigits b n) = n := by
  refine toDigits_induction (P := fun n s => value b s = n) hb (fun n hn => ?_) (fun n hn ih => ?_) n
  · have hone := value_append b [] n.digitChar
    rw [digitValue_digitChar (by omega)] at hone
    simpa [value] using hone
  · have hmod : n % b < 16 := (Nat.mod_lt n (by omega)).trans_le hb'
    rw [value_append, ih, digitValue_digitChar hmod, Option.getD_some, mul_comm, Nat.div_add_mod]

theorem toDigits_injective (hb : 1 < b) (hb' : b ≤ 16) : Function.Injective (Nat.toDigits b) := by
  intro m n h
  have hvalue := value_toDigits hb hb' m
  rw [h, value_toDigits hb hb'] at hvalue
  exact hvalue.symm

theorem isDigit_of_mem_toDigits (hb : 1 < b) {n : Nat} : ∀ c ∈ Nat.toDigits b n, IsDigit b c := by
  refine toDigits_induction (P := fun _ s => ∀ c ∈ s, IsDigit b c) hb (fun n hn c hc => ?_) (fun n hn ih c hc => ?_) n
  · rw [List.mem_singleton.1 hc]
    exact ⟨n, hn, rfl⟩
  · rcases List.mem_append.1 hc with hc | hc
    · exact ih c hc
    · rw [List.mem_singleton.1 hc]
      exact ⟨n % b, Nat.mod_lt n (by omega), rfl⟩

/-- Filled up with zeros, a numeral is the digits of its number. -/
theorem leftpad_toDigits (hb : 1 < b) (hb' : b ≤ 16) {w n : Nat} (hw : 0 < w) (hn : n < b ^ w) :
    (Nat.toDigits b n).leftpad w '0' = digits b w n := by
  have hlength : (Nat.toDigits b n).length ≤ w := (Nat.length_toDigits_le_iff hb hw).2 hn
  have hdigits : ∀ c ∈ (Nat.toDigits b n).leftpad w '0', IsDigit b c := by
    intro c hc
    rcases List.mem_append.1 hc with hc | hc
    · exact ⟨0, by omega, List.eq_of_mem_replicate hc⟩
    · exact isDigit_of_mem_toDigits hb c hc
  have hspec := (digits_value hb' hdigits).2
  rw [List.length_leftpad, max_eq_left hlength, value_leftpad, value_toDigits hb hb'] at hspec
  exact hspec.symm

end Digits
