import Gwsdb.Lib.JsNumber

/-!
# Lower case

ECMAScript's `toLowerCase`: every character is replaced by its lower-case mapping, which does not depend on the locale, and a
capital sigma at the end of a word by the final one. The mappings and the properties of characters are those of the Unicode
Character Database, of any version: `CaseData` has the columns and what is relied on of them. What is in lower case stays as
it is (`toLowerCase_eq_self`).
-/

namespace JsCase

open JsNumber (isSpace trim)

/-- The columns of the character database that `toLowerCase` reads. -/
structure CaseData where
  /-- The lower-case mapping of a character. -/
  lower : Char → List Char
  /-- `Cased`. -/
  cased : Char → Bool
  /-- `Case_Ignorable`. -/
  caseIgnorable : Char → Bool
  lower_ascii : ∀ c, c.toNat < 128 → lower c = [c.toLower]
  lower_sigma : lower 'Σ' = ['σ'] ∧ lower 'ς' = ['ς']
  lower_lower : ∀ c, ∀ d ∈ lower c, lower d = [d]
  lower_ne_nil : ∀ c, lower c ≠ []
  lower_isSpace : ∀ c, isSpace c = false → ∀ d ∈ lower c, isSpace d = false

namespace CaseData

variable (u : CaseData)

/-- A cased character comes next, after characters that do not count. -/
def casedNext : List Char → Bool
  | [] => false
  | c :: s => u.cased c || (u.caseIgnorable c && casedNext s)

/-- The mapping of a character between what is before it, in reverse, and what is after it. -/
def lowerAt (before : List Char) (c : Char) (after : List Char) : List Char :=
  if c = 'Σ' ∧ u.casedNext before ∧ ¬u.casedNext after then ['ς'] else u.lower c

/-- The lower case of a text after what is before it, in reverse. -/
def lowerFrom : List Char → List Char → List Char
  | _, [] => []
  | before, c :: s => u.lowerAt before c s ++ lowerFrom (c :: before) s

/-- `toLowerCase`. -/
def toLowerCase (s : List Char) : List Char := u.lowerFrom [] s

/-- A character is in lower case. -/
def IsLower (c : Char) : Prop := u.lower c = [c]

variable {u}

/-- What a character is replaced by is in lower case; it is something, and no white space unless the character is. -/
theorem lowerAt_spec (before : List Char) (c : Char) (after : List Char) : u.lowerAt before c after ≠ [] ∧
    ∀ d ∈ u.lowerAt before c after, u.IsLower d ∧ (isSpace c = false → isSpace d = false) := by
  unfold lowerAt
  split
  · refine ⟨List.cons_ne_nil _ _, fun d hd => ?_⟩
    rw [List.mem_singleton.1 hd]
    exact ⟨u.lower_sigma.2, fun _ => by decide⟩
  · exact ⟨u.lower_ne_nil c, fun d hd => ⟨u.lower_lower c d hd, fun hc => u.lower_isSpace c hc d hd⟩⟩

/-- A character of lower case stays. -/
theorem lowerAt_eq_self {c : Char} (h : u.IsLower c) (before after : List Char) : u.lowerAt before c after = [c] := by
  have hsigma : c ≠ 'Σ' := by
    rintro rfl
    have heq := u.lower_sigma.1
    rw [h] at heq
    exact absurd heq (by decide)
  rw [lowerAt, if_neg fun hfinal => hsigma hfinal.1, h]

/-- What is in lower case stays as it is. -/
theorem toLowerCase_eq_self {s : List Char} (h : ∀ c ∈ s, u.IsLower c) : u.toLowerCase s = s := by
  have hfrom : ∀ before, u.lowerFrom before s = s := by
    induction s with
    | nil => exact fun before => rfl
    | cons c s ih =>
      intro before
      obtain ⟨hc, hs⟩ := List.forall_mem_cons.1 h
      rw [lowerFrom, lowerAt_eq_self hc, ih hs, List.singleton_append]
  exact hfrom []

/-- The result is of lower case. -/
theorem isLower_of_mem {s : List Char} : ∀ c ∈ u.toLowerCase s, u.IsLower c := by
  have hfrom : ∀ before, ∀ c ∈ u.lowerFrom before s, u.IsLower c := by
    induction s with
    | nil => exact fun before c hc => nomatch hc
    | cons d s ih =>
      intro before c hc
      rcases List.mem_append.1 hc with hc | hc
      · exact ((lowerAt_spec before d s).2 c hc).1
      · exact ih (d :: before) c hc
  exact hfrom []

/-- A text that does not begin with white space does not in lower case either. -/
theorem head_toLowerCase {s : List Char} (h : ∀ c ∈ s.head?, isSpace c = false) :
    ∀ c ∈ (u.toLowerCase s).head?, isSpace c = false := by
  cases s with
  | nil => exact fun c hc => nomatch hc
  | cons d s =>
    obtain ⟨hne, hmem⟩ := lowerAt_spec (u := u) [] d s
    intro c hc
    obtain ⟨e, t, ht⟩ := List.exists_cons_of_ne_nil hne
    rw [toLowerCase, lowerFrom, ht] at hc
    have hce : e = c := Option.some.inj hc
    rw [← hce]
    exact (hmem e (by rw [ht]; exact List.mem_cons_self)).2 (h d rfl)

/-- So is an ASCII character that is its own lower case. -/
theorem isLower_of_ascii {c : Char} (h : c.toNat < 128) (hc : c.toLower = c) : u.IsLower c := by
  rw [IsLower, u.lower_ascii c h, hc]

end CaseData

/-! ## ASCII letters -/

/-- The lower case of the ASCII letters and of sigma. -/
def asciiLower (c : Char) : List Char := if c = 'Σ' then ['σ'] else [c.toLower]

/-- A capital ASCII letter becomes a letter that stays as it is. -/
theorem toLower_spec {c : Char} (h : c.isUpper = true) : asciiLower c.toLower = [c.toLower] ∧ isSpace c.toLower = false := by
  have hall := Digits.ascii_all
    (P := fun c => c.isUpper = true → asciiLower c.toLower = [c.toLower] ∧ isSpace c.toLower = false) (by decide)
  have hrange : 'A'.val ≤ c.val ∧ c.val ≤ 'Z'.val := of_decide_eq_true h
  exact hall c (lt_of_le_of_lt hrange.2 (by decide)) h

/-- The lower case of a character is of lower case, and not empty. -/
theorem asciiLower_spec (c : Char) : asciiLower c ≠ [] ∧
    ∀ d ∈ asciiLower c, asciiLower d = [d] ∧ (isSpace c = false → isSpace d = false) := by
  by_cases hsigma : c = 'Σ'
  · rw [hsigma]
    exact ⟨List.cons_ne_nil _ _, fun d hd => by rw [List.mem_singleton.1 hd]; decide⟩
  · have hlower : asciiLower c = [c.toLower] := if_neg hsigma
    refine ⟨hlower ▸ List.cons_ne_nil _ _, fun d hd => ?_⟩
    rw [hlower] at hd
    rw [List.mem_singleton.1 hd]
    by_cases hupper : c.isUpper = true
    · exact ⟨(toLower_spec hupper).1, fun _ => (toLower_spec hupper).2⟩
    · have hsame : c.toLower = c := dif_neg fun hrange => hupper (decide_eq_true hrange)
      rw [hsame] at hlower ⊢
      exact ⟨hlower, id⟩

/-- On ASCII it is the usual one. -/
theorem asciiLower_ascii (c : Char) (h : c.toNat < 128) : asciiLower c = [c.toLower] := by
  refine if_neg ?_
  rintro rfl
  exact absurd h (by decide)

theorem asciiLower_sigma : asciiLower 'Σ' = ['σ'] ∧ asciiLower 'ς' = ['ς'] := by decide

/-- The columns for texts of ASCII characters: letters are cased, and the apostrophe, the dot, the colon, the circumflex and
the grave accent do not count. -/
def asciiData : CaseData where
  lower := asciiLower
  cased c := c.isAlpha
  caseIgnorable c := c.toNat ∈ [0x27, 0x2E, 0x3A, 0x5E, 0x60]
  lower_ascii := asciiLower_ascii
  lower_sigma := asciiLower_sigma
  lower_lower c d hd := ((asciiLower_spec c).2 d hd).1
  lower_ne_nil c := (asciiLower_spec c).1
  lower_isSpace c hc d hd := ((asciiLower_spec c).2 d hd).2 hc

/-! ## Trimming -/

/-- A trimmed text does not begin with white space. -/
theorem head_trim (s : List Char) : ∀ c ∈ (trim s).head?, isSpace c = false := by
  intro c hc
  unfold trim at hc
  generalize hstart : s.dropWhile isSpace = t at hc
  have hprefix : (t.reverse.dropWhile isSpace).reverse <+: t := by
    have hsuffix := List.reverse_prefix.2 (List.dropWhile_suffix isSpace (l := t.reverse))
    rwa [List.reverse_reverse] at hsuffix
  obtain ⟨r, hr⟩ := hprefix
  have hhead : t.head? = some c := by
    rw [← hr, List.head?_append, Option.mem_def.1 hc]
    rfl
  have hkeep := List.head?_dropWhile_not isSpace s
  rw [hstart, hhead] at hkeep
  simpa using hkeep

/-- A text that neither begins nor ends with white space stays as it is. -/
theorem trim_eq_self {s : List Char} (hhead : ∀ c ∈ s.head?, isSpace c = false) (hlast : ∀ c ∈ s.getLast?, isSpace c = false) :
    trim s = s := by
  have hkeep : ∀ t : List Char, (∀ c ∈ t.head?, isSpace c = false) → t.dropWhile isSpace = t := by
    intro t ht
    cases t with
    | nil => rfl
    | cons c t => rw [List.dropWhile_cons, ht c rfl]; rfl
  rw [trim, hkeep s hhead, hkeep s.reverse (by rwa [List.head?_reverse]), List.reverse_reverse]

end JsCase
