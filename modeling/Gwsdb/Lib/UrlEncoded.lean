import Gwsdb.Lib.Digits

/-!
# Percent-encoded text

Characters that are not kept are written as their bytes in UTF-8, each as `%` and two digits. A form writes a space as `+`, and
joins names and values with `=` and `&`. What was written is read back (`decode_encode`, `parse_serialize`).
-/

namespace UrlEncoded

open Digits (digits digitValue)

/-! ## Texts -/

/-- A byte. -/
def percent (b : UInt8) : List Char := '%' :: (digits 16 2 b.toNat).map Char.toUpper

/-- A character, given which ones are kept. -/
def encodeChar (keep : Char → Bool) (c : Char) : List Char := if keep c then [c] else (String.utf8EncodeChar c).flatMap percent

/-- A text. -/
def encode (keep : Char → Bool) (s : List Char) : List Char := s.flatMap (encodeChar keep)

/-- A text of a form. -/
def encodeForm (keep : Char → Bool) (s : List Char) : List Char := s.flatMap fun c => if c = ' ' then ['+'] else encodeChar keep c

/-- The bytes that are read: `+` is a space, and a `%` without two digits is itself. -/
def bytes : List Char → List UInt8
  | '%' :: h :: l :: cs =>
    match digitValue h, digitValue l with
    | some a, some b => UInt8.ofNat (16 * a + b) :: bytes cs
    | _, _ => String.utf8EncodeChar '%' ++ bytes (h :: l :: cs)
  | '+' :: cs => String.utf8EncodeChar ' ' ++ bytes cs
  | c :: cs => String.utf8EncodeChar c ++ bytes cs
  | [] => []

/-- The text that is read, if the bytes are UTF-8. -/
def decode (s : List Char) : Option (List Char) := (bytes s).toByteArray.utf8Decode?.map Array.toList

/-- No character is kept that reading takes for something else. -/
structure Keeps (keep : Char → Bool) : Prop where
  percent : keep '%' = false
  plus : keep '+' = false

variable {keep : Char → Bool}

/-- A capital hex digit has the value of the digit. -/
theorem digitValue_toUpper {d : Nat} (h : d < 16) : digitValue (Nat.digitChar d).toUpper = some d := by
  interval_cases d <;> decide

/-- A byte is written with two capital hex digits. -/
theorem percent_eq (b : UInt8) : percent b = ['%', (Nat.digitChar (b.toNat / 16)).toUpper,
    (Nat.digitChar (b.toNat % 16)).toUpper] := by
  have hlt : b.toNat / 16 < 16 := Nat.div_lt_of_lt_mul b.toNat_lt
  unfold percent
  rw [digits, digits, digits, Nat.mod_eq_of_lt hlt]
  rfl

/-- An escaped byte is read. -/
theorem bytes_percent (b : UInt8) (s : List Char) : bytes (percent b ++ s) = b :: bytes s := by
  have hlt : b.toNat / 16 < 16 := Nat.div_lt_of_lt_mul b.toNat_lt
  rw [percent_eq]
  show bytes ('%' :: _ :: _ :: s) = _
  rw [bytes, digitValue_toUpper hlt, digitValue_toUpper (Nat.mod_lt _ (by decide))]
  simp only [Nat.div_add_mod, UInt8.ofNat_toNat]

/-- So are several. -/
theorem bytes_flatMap_percent (bs : List UInt8) (s : List Char) : bytes (bs.flatMap percent ++ s) = bs ++ bytes s := by
  induction bs with
  | nil => rfl
  | cons b bs ih => rw [List.flatMap_cons, List.append_assoc, bytes_percent, ih, List.cons_append]

/-- A character that is neither an escape nor a blank is read as its bytes. -/
theorem bytes_cons {c : Char} (hpercent : c ≠ '%') (hplus : c ≠ '+') (s : List Char) :
    bytes (c :: s) = String.utf8EncodeChar c ++ bytes s := by
  rw [bytes]
  · rintro h l cs rfl -
    exact hpercent rfl
  · rintro rfl
    exact hplus rfl

/-- A character is read as it was written, escaped or not. -/
theorem bytes_encodeChar (hkeep : Keeps keep) (c : Char) (s : List Char) :
    bytes (encodeChar keep c ++ s) = String.utf8EncodeChar c ++ bytes s := by
  unfold encodeChar
  split
  · rename_i hc
    refine bytes_cons ?_ ?_ s
    · rintro rfl
      exact Bool.false_ne_true (hkeep.percent ▸ hc)
    · rintro rfl
      exact Bool.false_ne_true (hkeep.plus ▸ hc)
  · exact bytes_flatMap_percent _ s

/-- The text of bytes in UTF-8. -/
theorem decode_of_bytes {s t : List Char} (h : bytes s = t.flatMap String.utf8EncodeChar) : decode s = some t := by
  unfold decode
  rw [h, show (t.flatMap String.utf8EncodeChar).toByteArray = t.utf8Encode from rfl, List.utf8Decode?_utf8Encode]
  rfl

/-- What was written is read back. -/
theorem decode_encode (hkeep : Keeps keep) (s : List Char) : decode (encode keep s) = some s := by
  have hbytes : ∀ s rest : List Char, bytes (encode keep s ++ rest) = s.flatMap String.utf8EncodeChar ++ bytes rest := by
    intro s rest
    induction s with
    | nil => rfl
    | cons c s ih =>
      unfold encode at ih ⊢
      rw [List.flatMap_cons, List.append_assoc, bytes_encodeChar hkeep, ih, List.flatMap_cons, List.append_assoc]
  have h := hbytes s []
  rw [List.append_nil] at h
  exact decode_of_bytes (h.trans (List.append_nil _))

/-- Also from a form. -/
theorem decode_encodeForm (hkeep : Keeps keep) (s : List Char) : decode (encodeForm keep s) = some s := by
  have hbytes : ∀ s rest : List Char, bytes (encodeForm keep s ++ rest) = s.flatMap String.utf8EncodeChar ++ bytes rest := by
    intro s rest
    induction s with
    | nil => rfl
    | cons c s ih =>
      unfold encodeForm at ih ⊢
      rw [List.flatMap_cons, List.append_assoc, List.flatMap_cons, List.append_assoc, ← ih]
      split
      · rename_i hspace
        rw [hspace]
        rfl
      · exact bytes_encodeChar hkeep c _
  have h := hbytes s []
  rw [List.append_nil] at h
  exact decode_of_bytes (h.trans (List.append_nil _))

/-- What is written consists of characters that are kept, `%` and capital digits. -/
theorem mem_encodeChar {c x : Char} (h : x ∈ encodeChar keep c) :
    keep x = true ∨ x = '%' ∨ ∃ d < 16, x = (Nat.digitChar d).toUpper := by
  unfold encodeChar at h
  split at h
  · rename_i hc
    rw [List.mem_singleton.1 h]
    exact Or.inl hc
  · obtain ⟨b, -, hx⟩ := List.mem_flatMap.1 h
    have hlt : b.toNat / 16 < 16 := Nat.div_lt_of_lt_mul b.toNat_lt
    rw [percent_eq] at hx
    simp only [List.mem_cons, List.not_mem_nil, or_false] at hx
    rcases hx with rfl | rfl | rfl
    · exact Or.inr (Or.inl rfl)
    · exact Or.inr (Or.inr ⟨_, hlt, rfl⟩)
    · exact Or.inr (Or.inr ⟨_, Nat.mod_lt _ (by decide), rfl⟩)

/-- So a character that is none of these is not written. -/
theorem notMem_encode {x : Char} (hkeep : keep x = false) (hpercent : x ≠ '%') (hdigit : ∀ d < 16, x ≠ (Nat.digitChar d).toUpper)
    (s : List Char) : x ∉ encode keep s := by
  intro h
  obtain ⟨c, -, hx⟩ := List.mem_flatMap.1 h
  rcases mem_encodeChar hx with hk | rfl | ⟨d, hd, rfl⟩
  · exact Bool.false_ne_true (hkeep ▸ hk)
  · exact hpercent rfl
  · exact hdigit d hd rfl

/-- A character that is not kept does not occur. -/
theorem notMem_encodeForm {x : Char} (hkeep : keep x = false) (hpercent : x ≠ '%') (hplus : x ≠ '+')
    (hdigit : ∀ d < 16, x ≠ (Nat.digitChar d).toUpper) (s : List Char) : x ∉ encodeForm keep s := by
  intro h
  obtain ⟨c, -, hx⟩ := List.mem_flatMap.1 h
  split at hx
  · exact hplus (List.mem_singleton.1 hx)
  · rcases mem_encodeChar hx with hk | rfl | ⟨d, hd, rfl⟩
    · exact Bool.false_ne_true (hkeep ▸ hk)
    · exact hpercent rfl
    · exact hdigit d hd rfl

/-! ## Forms -/

/-- A name and its value. -/
def pair (keep : Char → Bool) (p : String × String) : List Char := encodeForm keep p.1.toList ++ '=' :: encodeForm keep p.2.toList

/-- The form. -/
def serialize (keep : Char → Bool) (ps : List (String × String)) : List Char := ['&'].intercalate (ps.map (pair keep))

/-- The name and the value that are read from a part. -/
def readPair (part : List Char) : Option (String × String) := do
  let name ← decode (part.takeWhile (· ≠ '='))
  let value ← decode ((part.dropWhile (· ≠ '=')).drop 1)
  return (String.ofList name, String.ofList value)

/-- The form that is read; none where bytes are not UTF-8. -/
def parse (s : List Char) : Option (List (String × String)) := ((s.splitOn '&').filter (· ≠ [])).mapM readPair

/-- The separators are written otherwise. -/
structure FormKeeps (keep : Char → Bool) : Prop extends Keeps keep where
  equals : keep '=' = false
  ampersand : keep '&' = false

/-- A pair is read as it was written. -/
theorem readPair_pair (hkeep : FormKeeps keep) (p : String × String) : readPair (pair keep p) = some p := by
  have hname : ∀ c ∈ encodeForm keep p.1.toList, (decide (c ≠ '=')) = true := by
    intro c hc
    refine decide_eq_true ?_
    rintro rfl
    exact notMem_encodeForm hkeep.equals (by decide) (by decide) (by decide) _ hc
  have htake : (pair keep p).takeWhile (· ≠ '=') = encodeForm keep p.1.toList := by
    unfold pair
    rw [List.takeWhile_append_of_pos hname]
    simp
  have hdrop : (pair keep p).dropWhile (· ≠ '=') = '=' :: encodeForm keep p.2.toList := by
    unfold pair
    rw [List.dropWhile_append_of_pos hname]
    simp
  unfold readPair
  rw [htake, hdrop, List.drop_one, List.tail_cons, decode_encodeForm hkeep.toKeeps, decode_encodeForm hkeep.toKeeps]
  simp

/-- So are several. -/
theorem mapM_readPair (hkeep : FormKeeps keep) (ps : List (String × String)) : (ps.map (pair keep)).mapM readPair = some ps := by
  induction ps with
  | nil => rfl
  | cons p ps ih => rw [List.map_cons, List.mapM_cons, readPair_pair hkeep, ih]; rfl

/-- A form is read back. -/
theorem parse_serialize (hkeep : FormKeeps keep) (ps : List (String × String)) : parse (serialize keep ps) = some ps := by
  cases ps with
  | nil => rfl
  | cons p ps =>
    have hfree : ∀ part ∈ (p :: ps).map (pair keep), '&' ∉ part := by
      intro part hpart
      obtain ⟨q, -, rfl⟩ := List.mem_map.1 hpart
      intro h
      have hnot : ∀ s : String, '&' ∉ encodeForm keep s.toList := fun s =>
        notMem_encodeForm hkeep.ampersand (by decide) (by decide) (by decide) s.toList
      rcases List.mem_append.1 h with h | h
      · exact hnot _ h
      · rcases List.mem_cons.1 h with h | h
        · exact absurd h (by decide)
        · exact hnot _ h
    have hparts : ((p :: ps).map (pair keep)).filter (· ≠ []) = (p :: ps).map (pair keep) := by
      refine List.filter_eq_self.2 fun part hpart => ?_
      obtain ⟨q, -, rfl⟩ := List.mem_map.1 hpart
      simp [pair]
    unfold parse serialize
    rw [List.splitOn_intercalate '&' hfree (by simp), hparts, mapM_readPair hkeep]

end UrlEncoded
