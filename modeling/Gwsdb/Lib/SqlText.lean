import Gwsdb.Lib.Runs
import Mathlib.Tactic

/-!
# Texts in SQLite

The functions of SQLite on texts, positions counted from one: `instr`, `substr`, `replace`, `ltrim`, `lower` and the JSON
functions on arrays of strings. Words that a separator stands between can be found in the text with the separator at both ends: a
list of words is found where it is among the words, so a run of one word is found where it first is as long.
-/

namespace SqlText

/-! ## Functions -/

section Functions

variable {α : Type} [DecidableEq α]

/-- `instr`: the position of the first occurrence of a pattern, zero if there is none. -/
def instr : List α → List α → Nat
  | [], pat => if pat = [] then 1 else 0
  | c :: s, pat => if pat <+: c :: s then 1 else if instr s pat = 0 then 0 else instr s pat + 1

/-- `substr` from a position on. -/
def substrFrom (s : List α) (start : Nat) : List α := s.drop (start - 1)

/-- `substr` from a position on, of a length. -/
def substr (s : List α) (start length : Nat) : List α := (substrFrom s start).take length

/-- The text with the occurrences of a pattern replaced that do not begin in its first characters. -/
def replaceAfter (pat rep : List α) : Nat → List α → List α
  | _, [] => []
  | skip + 1, _ :: s => replaceAfter pat rep skip s
  | 0, c :: s => if pat <+: c :: s then rep ++ replaceAfter pat rep (pat.length - 1) s else c :: replaceAfter pat rep 0 s

/-- `replace`: a pattern replaced from left to right. -/
def replace (s pat rep : List α) : List α := if pat = [] then s else replaceAfter pat rep 0 s

/-- `ltrim`: the text without the characters of a set at its start. -/
def ltrim (s set : List α) : List α := s.dropWhile fun c => c ∈ set

end Functions

/-- `lower`, of ASCII letters only. -/
def lower (s : List Char) : List Char := s.map Char.toLower

/-- A character stands for itself in a JSON string. -/
def IsPlain (c : Char) : Prop := c ≠ '"' ∧ c ≠ '\\' ∧ ' ' ≤ c

instance (c : Char) : Decidable (IsPlain c) := inferInstanceAs (Decidable (_ ∧ _))

/-- The strings of a JSON array from within the first, whose characters so far are given in reverse. -/
def jsonElements : List Char → List Char → Option (List (List Char))
  | [], _ => none
  | '"' :: s, part => match s with
    | [']'] => some [part.reverse]
    | ',' :: '"' :: s => (jsonElements s []).map (part.reverse :: ·)
    | _ => none
  | c :: s, part => if IsPlain c then jsonElements s (c :: part) else none

/-- The strings of a JSON array of plain strings that is written without blanks; none of another text. -/
def jsonStrings : List Char → Option (List (List Char))
  | ['[', ']'] => some []
  | '[' :: '"' :: s => jsonElements s []
  | _ => none

/-- `json_array_length`. -/
def jsonArrayLength (json : List Char) : Option Nat := (jsonStrings json).map List.length

/-- `json_extract` of the element with an index. -/
def jsonExtract (json : List Char) (i : Nat) : Option (List Char) := (jsonStrings json).bind (·[i]?)

/-! ## Replacing one character -/

/-- A character replaced by the one that joins the parts between it. -/
theorem jsonElements_replace {s : List Char} {c : Char} (hplain : ∀ d ∈ s, IsPlain d) (part : List Char) :
    jsonElements (replace s [c] "\",\"".toList ++ "\"]".toList) part = some ((s.splitOn c).modifyHead (part.reverse ++ ·)) := by
  have hrep : "\",\"".toList = ['"', ',', '"'] := rfl
  have hend : "\"]".toList = ['"', ']'] := rfl
  rw [replace, if_neg (List.cons_ne_nil c []), hrep, hend]
  induction s generalizing part with
  | nil => simp [replaceAfter, jsonElements]
  | cons d s ih =>
    obtain ⟨hd, hs⟩ := List.forall_mem_cons.1 hplain
    rw [replaceAfter, List.splitOn_cons_eq_if_modifyHead]
    by_cases hc : d = c
    · subst hc
      have hrest := ih hs []
      rw [if_pos ⟨s, rfl⟩, if_pos (beq_self_eq_true d), List.length_singleton, Nat.sub_self]
      simp only [List.cons_append, List.nil_append, jsonElements, hrest]
      cases s.splitOn d <;> simp
    · have hnot : ¬[c] <+: d :: s := fun h => hc (by simpa using h : c = d).symm
      have hrest := ih hs (d :: part)
      rw [if_neg hnot, if_neg (by simpa using hc), List.cons_append, jsonElements, if_pos hd, hrest]
      · cases s.splitOn c <;> simp
      · exact hd.1

/-! ## Words -/

section Words

variable {α : Type} {sep : α}

/-- Words, each with a separator after it. -/
def closed (sep : α) (ws : List (List α)) : List α := ws.flatMap (· ++ [sep])

/-- Words with separators between them and at both ends. -/
def padded (sep : α) (ws : List (List α)) : List α := sep :: closed sep ws

/-- One word more, between separators. -/
theorem padded_cons (w : List α) (ws : List (List α)) : padded sep (w :: ws) = sep :: (w ++ padded sep ws) := by
  simp [padded, closed]

/-- Two lists of words, each closed by its separators. -/
theorem closed_append (xs ys : List (List α)) : closed sep (xs ++ ys) = closed sep xs ++ closed sep ys := by
  unfold closed
  rw [List.flatMap_append]

/-- Without the last separator the words are joined. -/
theorem dropLast_closed (ws : List (List α)) : (closed sep ws).dropLast = [sep].intercalate ws := by
  induction ws with
  | nil => rfl
  | cons w ws ih =>
    cases ws with
    | nil => simp [closed]
    | cons w' ws =>
      have hne : closed sep (w' :: ws) ≠ [] := by simp [closed]
      have hcons : closed sep (w :: w' :: ws) = w ++ ([sep] ++ closed sep (w' :: ws)) := by simp [closed]
      rw [hcons, List.intercalate_cons_cons, ← ih, ← List.append_assoc, List.dropLast_append_of_ne_nil hne]

/-- Joined words with a separator on both sides are padded. -/
theorem padded_of_joined {ws : List (List α)} (hws : ws ≠ []) : sep :: ([sep].intercalate ws ++ [sep]) = padded sep ws := by
  rw [padded, ← dropLast_closed]
  have hlast : (closed sep ws).getLast? = some sep := by
    obtain ⟨init, w, rfl⟩ := List.eq_nil_or_concat ws |>.resolve_left hws
    simp [closed]
  rw [List.dropLast_append_getLast? sep hlast]

/-- A word ends at the first separator. -/
theorem word_prefix_iff {p w x y : List α} (hp : sep ∉ p) (hw : sep ∉ w) : p ++ sep :: x <+: w ++ sep :: y ↔ p = w ∧ x <+: y := by
  induction p generalizing w with
  | nil =>
    cases w with
    | nil => simp
    | cons b w =>
      rw [List.mem_cons, not_or] at hw
      simp [hw.1]
  | cons a p ih =>
    rw [List.mem_cons, not_or] at hp
    cases w with
    | nil => simp [Ne.symm hp.1]
    | cons b w =>
      rw [List.mem_cons, not_or] at hw
      rw [List.cons_append, List.cons_append, List.cons_prefix_cons, ih hp.2 hw.2, List.cons.injEq, and_assoc]

/-- Padded words are a prefix exactly when the words are. -/
theorem padded_prefix_iff {ps ws : List (List α)} (hps : ∀ p ∈ ps, sep ∉ p) (hws : ∀ w ∈ ws, sep ∉ w) :
    padded sep ps <+: padded sep ws ↔ ps <+: ws := by
  induction ps generalizing ws with
  | nil => simp [padded, closed]
  | cons p ps ih =>
    obtain ⟨hp, hps'⟩ := List.forall_mem_cons.1 hps
    cases ws with
    | nil =>
      rw [padded_cons]
      simp [padded, closed]
    | cons w ws =>
      obtain ⟨hw, hws'⟩ := List.forall_mem_cons.1 hws
      have htail := ih hps' hws'
      rw [padded, padded, List.cons_prefix_cons] at htail
      rw [padded_cons, padded_cons, List.cons_prefix_cons, padded, padded, word_prefix_iff hp hw, List.cons_prefix_cons]
      simpa using fun _ => htail

end Words

/-! ## Finding words -/

section Finding

variable {α : Type} [DecidableEq α] {sep : α}

/-- A pattern that does not begin here is found one later. -/
theorem instr_cons_of_ne {c : α} {s pat : List α} (h : ¬pat <+: c :: s) :
    instr (c :: s) pat = if instr s pat = 0 then 0 else instr s pat + 1 := by
  rw [instr, if_neg h]

/-- A character is found in the texts that have it. -/
theorem instr_singleton_pos_iff {c : α} {s : List α} : 0 < instr s [c] ↔ c ∈ s := by
  induction s with
  | nil => simp [instr]
  | cons d s ih =>
    by_cases hc : c = d
    · subst hc
      rw [instr, if_pos ⟨s, rfl⟩]
      simp
    · have hnot : ¬[c] <+: d :: s := fun h => hc (List.cons_prefix_cons.1 h).1
      rw [instr_cons_of_ne hnot, List.mem_cons, or_iff_right hc, ← ih]
      split <;> omega

/-- Where a word is passed over, what begins with the separator is not found. -/
theorem instr_word {w s pat : List α} (hw : sep ∉ w) :
    instr (w ++ s) (sep :: pat) = if instr s (sep :: pat) = 0 then 0 else w.length + instr s (sep :: pat) := by
  induction w with
  | nil => split <;> simp [*]
  | cons c w ih =>
    rw [List.mem_cons, not_or] at hw
    have hnot : ¬sep :: pat <+: c :: (w ++ s) := fun h => hw.1 (List.cons_prefix_cons.1 h).1
    rw [List.cons_append, instr_cons_of_ne hnot, ih hw.2]
    by_cases hzero : instr s (sep :: pat) = 0
    · simp [hzero]
    · rw [if_neg hzero, if_neg (by omega), if_neg hzero, List.length_cons]
      omega

/-- Words that do not begin here are found a word later. -/
theorem instr_padded_cons {w : List α} {ps ws : List (List α)} (hps : ∀ p ∈ ps, sep ∉ p) (hws : ∀ w' ∈ w :: ws, sep ∉ w')
    (hnot : ¬ps <+: w :: ws) : instr (padded sep (w :: ws)) (padded sep ps) =
      if instr (padded sep ws) (padded sep ps) = 0 then 0 else w.length + 1 + instr (padded sep ws) (padded sep ps) := by
  have hprefix := mt (padded_prefix_iff hps hws).1 hnot
  rw [padded_cons] at hprefix ⊢
  have hword := @instr_word _ _ sep w (padded sep ws) (closed sep ps) (hws w List.mem_cons_self)
  rw [← padded] at hword
  rw [instr_cons_of_ne hprefix, hword]
  by_cases hzero : instr (padded sep ws) (padded sep ps) = 0
  · simp [hzero]
  · rw [if_neg hzero, if_neg (by omega), if_neg hzero]
    omega

/-- Words that are nowhere among the words are not found. -/
theorem instr_padded_eq_zero {ps ws : List (List α)} (hps : ∀ p ∈ ps, sep ∉ p) (hws : ∀ w ∈ ws, sep ∉ w)
    (h : ∀ i, ¬ps <+: ws.drop i) : instr (padded sep ws) (padded sep ps) = 0 := by
  induction ws with
  | nil =>
    have hne : ps ≠ [] := fun hnil => h 0 (by simp [hnil])
    have hnot : ¬padded sep ps <+: [sep] := fun hprefix => hne (List.prefix_nil.1 ((padded_prefix_iff hps hws).1 hprefix))
    show instr [sep] (padded sep ps) = 0
    rw [instr_cons_of_ne hnot]
    simp [instr, padded]
  | cons w ws ih =>
    rw [instr_padded_cons hps hws (h 0), ih (fun w' hw' => hws w' (List.mem_cons_of_mem w hw')) fun i => h (i + 1), if_pos rfl]

/-- Words are found after the words before them. -/
theorem instr_padded {ps ws : List (List α)} (hps : ∀ p ∈ ps, sep ∉ p) (hws : ∀ w ∈ ws, sep ∉ w) {i : Nat}
    (hat : ps <+: ws.drop i) (hfirst : ∀ j < i, ¬ps <+: ws.drop j) :
    instr (padded sep ws) (padded sep ps) = (closed sep (ws.take i)).length + 1 := by
  induction i generalizing ws with
  | zero =>
    have hprefix : padded sep ps <+: sep :: closed sep ws := (padded_prefix_iff hps hws).2 hat
    rw [padded.eq_def sep ws, instr, if_pos hprefix]
    rfl
  | succ i ih =>
    have hnot := hfirst 0 (Nat.succ_pos i)
    cases ws with
    | nil => exact absurd (by simpa using hat) hnot
    | cons w ws =>
      have hrest := ih (fun w' hw' => hws w' (List.mem_cons_of_mem w hw')) hat fun j hj => hfirst (j + 1) (by omega)
      rw [instr_padded_cons hps hws hnot, hrest, if_neg (Nat.succ_ne_zero _)]
      simp only [List.take_succ_cons, closed, List.flatMap_cons, List.length_append, List.length_singleton]
      omega

/-! ## Finding runs -/

/-- So many copies of a word stand at a position as the run there is long. -/
theorem replicate_prefix_iff {z : List α} {ws : List (List α)} {n i : Nat} :
    List.replicate n z <+: ws.drop i ↔ n ≤ Runs.run (· = z) ws i := by
  unfold Runs.run
  generalize ws.drop i = l
  induction n generalizing l with
  | zero => simp
  | succ n ih =>
    cases l with
    | nil => simp
    | cons w l =>
      rw [List.replicate_succ, List.cons_prefix_cons, ih, List.takeWhile_cons]
      by_cases hw : w = z
      · simp [hw]
      · simp [hw, Ne.symm hw]

variable {z : List α} {ws : List (List α)} {start length : Nat}

/-- A run is found where it is no longer than the longest. -/
theorem instr_run_pos_iff (hz : sep ∉ z) (hws : ∀ w ∈ ws, sep ∉ w) (h : Runs.FirstLongest (· = z) ws start length) {n : Nat} :
    0 < instr (padded sep ws) (padded sep (List.replicate n z)) ↔ n ≤ length := by
  have hps : ∀ p ∈ List.replicate n z, sep ∉ p := fun p hp => by rwa [List.eq_of_mem_replicate hp]
  constructor
  · intro hpos
    by_contra hlong
    have hzero := instr_padded_eq_zero hps hws fun i hprefix => hlong ((replicate_prefix_iff.1 hprefix).trans (h.longest i))
    omega
  · intro hle
    have hsome : ∃ i, List.replicate n z <+: ws.drop i := ⟨start, replicate_prefix_iff.2 (hle.trans h.length_eq.ge)⟩
    rw [instr_padded hps hws (Nat.find_spec hsome) fun j hj => Nat.find_min hsome hj]
    exact Nat.succ_pos _

/-- The longest run is found where it first is. -/
theorem instr_longest_run (hz : sep ∉ z) (hws : ∀ w ∈ ws, sep ∉ w) (h : Runs.FirstLongest (· = z) ws start length) :
    instr (padded sep ws) (padded sep (List.replicate length z)) = (closed sep (ws.take start)).length + 1 := by
  have hsep : ∀ p ∈ List.replicate length z, sep ∉ p := fun p hp => by rwa [List.eq_of_mem_replicate hp]
  refine instr_padded hsep hws (replicate_prefix_iff.2 h.length_eq.ge) fun j hj hprefix => ?_
  exact absurd (replicate_prefix_iff.1 hprefix) (not_le.2 (h.first j hj))

end Finding

end SqlText
