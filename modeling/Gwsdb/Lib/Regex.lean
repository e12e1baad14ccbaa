import Mathlib.Data.List.TakeDrop
import Mathlib.Data.List.TakeWhile
import Mathlib.Tactic

/-!
# Regular expressions with groups

The expressions of ECMAScript as far as texts, greedy repetitions of a character class, sequences, alternatives and capturing
groups go. `candidates` is the order in which backtracking tries them; `exec` takes the first that uses up the text, as between
`^` and `$`. `Matches` says which texts an expression matches. `exec` finds a match if there is one (`exec_isSome_iff`), and where
an expression is `Unambiguous` it finds that one (`exec_eq_some_iff`).
-/

/-- An expression. -/
inductive Regex
  | text (s : List Char)
  | many (p : Char → Bool) (least : Nat) (most : Option Nat)
  | seq (a b : Regex)
  | alt (a b : Regex)
  | group (k : Nat) (a : Regex)

namespace Regex

/-- The texts of the groups that took part in a match, by their numbers. -/
abbrev Groups := List (Nat × List Char)

instance : Append Regex := ⟨seq⟩

/-- The expression or nothing. -/
def opt (a : Regex) : Regex := .alt a (.text [])

/-! ## Matching -/

/-- The matches of an expression at the start of a text, in the order they are tried: what is left of the text, and the groups. -/
def candidates : Regex → List Char → List (List Char × Groups)
  | text s, t => if s <+: t then [(t.drop s.length, [])] else []
  | many p least most, t =>
    let longest := most.elim (t.takeWhile p).length (min (t.takeWhile p).length)
    ((List.range (longest + 1)).reverse.filter fun k => least ≤ k).map fun k => (t.drop k, [])
  | seq a b, t => (a.candidates t).flatMap fun first => (b.candidates first.1).map fun second => (second.1, first.2 ++ second.2)
  | alt a b, t => a.candidates t ++ b.candidates t
  | group k a, t => (a.candidates t).map fun found => (found.1, (k, t.take (t.length - found.1.length)) :: found.2)

/-- The groups of the first match that uses up the text. -/
def exec (a : Regex) (t : List Char) : Option Groups := ((a.candidates t).find? fun found => found.1 = []).map (·.2)

/-- An expression matches a text with groups. -/
inductive Matches : Regex → List Char → Groups → Prop
  | text {s : List Char} : Matches (.text s) s []
  | many {p : Char → Bool} {least : Nat} {most : Option Nat} {w : List Char}
    (all : ∀ c ∈ w, p c = true) (atLeast : least ≤ w.length)
      (atMost : ∀ m ∈ most, w.length ≤ m) : Matches (.many p least most) w []
  | seq {a b : Regex} {v w : List Char} {g h : Groups} (first : Matches a v g) (second : Matches b w h) :
      Matches (.seq a b) (v ++ w) (g ++ h)
  | left {a b : Regex} {w : List Char} {g : Groups} (left : Matches a w g) : Matches (.alt a b) w g
  | right {a b : Regex} {w : List Char} {g : Groups} (right : Matches b w g) : Matches (.alt a b) w g
  | group {k : Nat} {a : Regex} {w : List Char} {g : Groups} (inner : Matches a w g) : Matches (.group k a) w ((k, w) :: g)

variable {a b : Regex} {s t w : List Char} {g : Groups} {p : Char → Bool} {least : Nat} {most : Option Nat} {k : Nat}

/-- A text matches itself. -/
theorem matches_text : Matches (.text s) w g ↔ w = s ∧ g = [] := by
  constructor
  · rintro ⟨⟩
    exact ⟨rfl, rfl⟩
  · rintro ⟨rfl, rfl⟩
    exact .text

/-- A run of a class matches characters of it, in its bounds. -/
theorem matches_many : Matches (.many p least most) w g ↔
    (∀ c ∈ w, p c = true) ∧ least ≤ w.length ∧ (∀ m ∈ most, w.length ≤ m) ∧ g = [] := by
  constructor
  · rintro ⟨⟩
    exact ⟨‹_›, ‹_›, ‹_›, rfl⟩
  · rintro ⟨hall, hleast, hmost, rfl⟩
    exact .many hall hleast hmost

/-- Two patterns in a row match two parts. -/
theorem matches_append : Matches (a ++ b) w g ↔
    ∃ v₁ v₂ g₁ g₂, w = v₁ ++ v₂ ∧ g = g₁ ++ g₂ ∧ Matches a v₁ g₁ ∧ Matches b v₂ g₂ := by
  constructor
  · intro h
    cases h with
    | seq first second => exact ⟨_, _, _, _, rfl, rfl, first, second⟩
  · rintro ⟨v₁, v₂, g₁, g₂, rfl, rfl, first, second⟩
    exact .seq first second

/-- An alternative matches what either side does. -/
theorem matches_alt : Matches (.alt a b) w g ↔ Matches a w g ∨ Matches b w g := by
  constructor
  · intro h
    cases h with
    | left h => exact Or.inl h
    | right h => exact Or.inr h
  · rintro (h | h)
    · exact .left h
    · exact .right h

/-- A group matches what is in it, and captures it. -/
theorem matches_group : Matches (.group k a) w g ↔ ∃ inner, g = (k, w) :: inner ∧ Matches a w inner := by
  constructor
  · intro h
    cases h with
    | group inner => exact ⟨_, rfl, inner⟩
  · rintro ⟨inner, rfl, h⟩
    exact .group h

/-! ## What is tried -/

/-- The candidates of a run are what is left after each match. -/
theorem mem_candidates_many {rest : List Char} : (rest, g) ∈ (many p least most).candidates t ↔
    ∃ w, t = w ++ rest ∧ Matches (.many p least most) w g := by
  unfold candidates
  simp only [List.mem_map, List.mem_filter, List.mem_reverse, List.mem_range, decide_eq_true_eq, Prod.mk.injEq, matches_many]
  constructor
  · rintro ⟨k, ⟨hk, hleast⟩, rfl, rfl⟩
    have hrun : k ≤ (t.takeWhile p).length ∧ ∀ m ∈ most, k ≤ m := by
      cases most with
      | none => exact ⟨Nat.lt_succ_iff.1 hk, fun m hm => nomatch hm⟩
      | some m =>
        have hmin := le_min_iff.1 (Nat.lt_succ_iff.1 hk)
        exact ⟨hmin.1, fun m' hm' => Option.some.inj hm' ▸ hmin.2⟩
    have hlength : (t.take k).length = k := by
      rw [List.length_take, min_eq_left (hrun.1.trans (List.takeWhile_sublist p).length_le)]
    refine ⟨t.take k, (List.take_append_drop k t).symm, fun c hc => ?_, by rw [hlength]; exact hleast, fun m hm => ?_, rfl⟩
    · have hmany : t.take k <+: t.takeWhile p :=
        List.prefix_of_prefix_length_le (List.take_prefix k t) (List.takeWhile_prefix p) (hlength.trans_le hrun.1)
      exact List.all_eq_true.1 List.all_takeWhile c (hmany.subset hc)
    · rw [hlength]
      exact hrun.2 m hm
  · rintro ⟨w, rfl, hall, hleast, hmost, rfl⟩
    refine ⟨w.length, ⟨Nat.lt_succ_iff.2 ?_, hleast⟩, List.drop_left, rfl⟩
    have hrun : w.length ≤ ((w ++ rest).takeWhile p).length := by
      rw [List.takeWhile_append_of_pos hall, List.length_append]
      exact Nat.le_add_right _ _
    cases most with
    | none => exact hrun
    | some m => exact le_min hrun (hmost m rfl)

/-- What is tried are the matches of the beginnings of the text. -/
theorem mem_candidates {rest : List Char} : (rest, g) ∈ a.candidates t ↔ ∃ w, t = w ++ rest ∧ Matches a w g := by
  induction a generalizing t rest g with
  | text s =>
    unfold candidates
    simp only [matches_text]
    constructor
    · intro h
      split at h
      · rename_i hs
        obtain ⟨r, rfl⟩ := hs
        rw [List.drop_left, List.mem_singleton, Prod.mk.injEq] at h
        exact ⟨s, by rw [h.1], rfl, h.2⟩
      · cases h
    · rintro ⟨w, rfl, rfl, rfl⟩
      rw [if_pos (List.prefix_append _ _), List.drop_left]
      exact List.mem_singleton_self _
  | many p least most => exact mem_candidates_many
  | seq a b iha ihb =>
    unfold candidates
    simp only [List.mem_flatMap, List.mem_map, Prod.mk.injEq]
    constructor
    · rintro ⟨⟨mid, g₁⟩, hfirst, ⟨_, g₂⟩, hsecond, rfl, rfl⟩
      obtain ⟨v₁, rfl, h₁⟩ := iha.1 hfirst
      obtain ⟨v₂, rfl, h₂⟩ := ihb.1 hsecond
      exact ⟨v₁ ++ v₂, (List.append_assoc _ _ _).symm, .seq h₁ h₂⟩
    · rintro ⟨w, rfl, h⟩
      obtain ⟨v₁, v₂, g₁, g₂, rfl, rfl, h₁, h₂⟩ := matches_append.1 h
      exact ⟨(v₂ ++ rest, g₁), iha.2 ⟨v₁, List.append_assoc _ _ _, h₁⟩, (rest, g₂), ihb.2 ⟨v₂, rfl, h₂⟩, rfl, rfl⟩
  | alt a b iha ihb =>
    unfold candidates
    rw [List.mem_append, iha, ihb, ← exists_or]
    simp only [matches_alt, and_or_left]
  | group k a ih =>
    unfold candidates
    simp only [List.mem_map, Prod.mk.injEq, matches_group]
    constructor
    · rintro ⟨⟨_, inner⟩, hfound, rfl, rfl⟩
      obtain ⟨w, rfl, h⟩ := ih.1 hfound
      exact ⟨w, rfl, inner, by simp, h⟩
    · rintro ⟨w, rfl, inner, rfl, h⟩
      exact ⟨(rest, inner), ih.2 ⟨w, rfl, h⟩, rfl, by simp⟩

/-- What is found is a match. -/
theorem matches_of_exec (h : a.exec t = some g) : Matches a t g := by
  obtain ⟨⟨rest, g'⟩, hfind, rfl⟩ := Option.map_eq_some_iff.1 h
  have hrest : rest = [] := by simpa using List.find?_some hfind
  obtain ⟨w, rfl, hw⟩ := mem_candidates.1 (List.mem_of_find?_eq_some hfind)
  rw [hrest, List.append_nil]
  exact hw

/-- A match is found if there is one. -/
theorem exec_isSome_iff : (a.exec t).isSome = true ↔ ∃ g, Matches a t g := by
  constructor
  · intro h
    obtain ⟨g, hg⟩ := Option.isSome_iff_exists.1 h
    exact ⟨g, matches_of_exec hg⟩
  · rintro ⟨g, h⟩
    unfold exec
    rw [Option.isSome_map, List.find?_isSome]
    exact ⟨([], g), mem_candidates.2 ⟨t, (List.append_nil t).symm, h⟩, rfl⟩

/-! ## One match at most -/

/-- The expression matches a text in one way at most. -/
def Unambiguous (a : Regex) : Prop := ∀ w g h, Matches a w g → Matches a w h → g = h

/-- An unambiguous pattern is executed as it matches. -/
theorem exec_eq_some_iff (ha : Unambiguous a) : a.exec t = some g ↔ Matches a t g := by
  refine ⟨matches_of_exec, fun h => ?_⟩
  obtain ⟨g', hg'⟩ := Option.isSome_iff_exists.1 (exec_isSome_iff.2 ⟨g, h⟩)
  rw [hg', ha t g' g (matches_of_exec hg') h]

/-- A text is unambiguous. -/
theorem unambiguous_text : Unambiguous (.text s) := by
  intro w g h hg hh
  rw [(matches_text.1 hg).2, (matches_text.1 hh).2]

/-- So is a run. -/
theorem unambiguous_many : Unambiguous (.many p least most) := by
  intro w g h hg hh
  rw [(matches_many.1 hg).2.2.2, (matches_many.1 hh).2.2.2]

/-- So is a group of an unambiguous pattern. -/
theorem Unambiguous.group (ha : Unambiguous a) : Unambiguous (.group k a) := by
  intro w g h hg hh
  obtain ⟨g', rfl, hg'⟩ := matches_group.1 hg
  obtain ⟨h', rfl, hh'⟩ := matches_group.1 hh
  rw [ha w g' h' hg' hh']

/-- Alternatives that match different texts. -/
theorem Unambiguous.alt (ha : Unambiguous a) (hb : Unambiguous b) (hab : ∀ w g h, Matches a w g → ¬Matches b w h) :
    Unambiguous (.alt a b) := by
  intro w g h hg hh
  rcases matches_alt.1 hg with hg | hg <;> rcases matches_alt.1 hh with hh | hh
  · exact ha w g h hg hh
  · exact absurd hh (hab w g h hg)
  · exact absurd hg (hab w h g hh)
  · exact hb w g h hg hh

/-- A sequence whose parts can be told apart. -/
theorem Unambiguous.append (ha : Unambiguous a) (hb : Unambiguous b) (hab : ∀ v₁ v₂ w₁ w₂ g₁ g₂ h₁ h₂, Matches a v₁ g₁ →
    Matches a w₁ h₁ → Matches b v₂ g₂ → Matches b w₂ h₂ → v₁ ++ v₂ = w₁ ++ w₂ → v₁ = w₁) : Unambiguous (a ++ b) := by
  intro w g h hg hh
  obtain ⟨v₁, v₂, g₁, g₂, rfl, rfl, hg₁, hg₂⟩ := matches_append.1 hg
  obtain ⟨w₁, w₂, h₁, h₂, heq, rfl, hh₁, hh₂⟩ := matches_append.1 hh
  have hfirst := hab v₁ v₂ w₁ w₂ g₁ g₂ h₁ h₂ hg₁ hh₁ hg₂ hh₂ heq
  subst hfirst
  rw [List.append_cancel_left heq] at hg₂
  rw [ha v₁ g₁ h₁ hg₁ hh₁, hb w₂ g₂ h₂ hg₂ hh₂]

/-- The expression matches texts of one length only. -/
def Width (a : Regex) (n : Nat) : Prop := ∀ w g, Matches a w g → w.length = n

/-- A text has its length. -/
theorem width_text : Width (.text s) s.length := fun w g h => by rw [(matches_text.1 h).1]

/-- A run with equal bounds has that length. -/
theorem width_many {n : Nat} : Width (.many p n (some n)) n := by
  intro w g h
  obtain ⟨-, hleast, hmost, -⟩ := matches_many.1 h
  exact le_antisymm (hmost n rfl) hleast

/-- A group is as long as what is in it. -/
theorem Width.group {n : Nat} (ha : Width a n) : Width (.group k a) n := by
  intro w g h
  obtain ⟨inner, -, h⟩ := matches_group.1 h
  exact ha w inner h

/-- Two patterns in a row are as long as both. -/
theorem Width.append {m n : Nat} (ha : Width a m) (hb : Width b n) : Width (a ++ b) (m + n) := by
  intro w g h
  obtain ⟨v₁, v₂, g₁, g₂, rfl, -, h₁, h₂⟩ := matches_append.1 h
  rw [List.length_append, ha v₁ g₁ h₁, hb v₂ g₂ h₂]

/-- After a part of one length the rest is another part. -/
theorem Unambiguous.append_of_width {n : Nat} (ha : Unambiguous a) (hb : Unambiguous b) (hn : Width a n) :
    Unambiguous (a ++ b) := by
  refine ha.append hb fun v₁ v₂ w₁ w₂ g₁ g₂ h₁ h₂ hg₁ hh₁ _ _ heq => ?_
  exact (List.append_inj heq ((hn v₁ g₁ hg₁).trans (hn w₁ h₁ hh₁).symm)).1

/-- A part that does not have the character with which the rest begins, if there is a rest. -/
theorem Unambiguous.append_of_stop {c : Char} (ha : Unambiguous a) (hb : Unambiguous b) (hword : ∀ w g, Matches a w g → c ∉ w)
    (hstop : ∀ w g, Matches b w g → w = [] ∨ w.head? = some c) : Unambiguous (a ++ b) := by
  have htake : ∀ v₁ v₂ g₁ g₂, Matches a v₁ g₁ → Matches b v₂ g₂ → (v₁ ++ v₂).takeWhile (· ≠ c) = v₁ := by
    intro v₁ v₂ g₁ g₂ h₁ h₂
    have hall : ∀ d ∈ v₁, decide (d ≠ c) = true := fun d hd => decide_eq_true fun heq => hword v₁ g₁ h₁ (heq ▸ hd)
    rw [List.takeWhile_append_of_pos hall]
    rcases hstop v₂ g₂ h₂ with rfl | hhead
    · simp
    · obtain ⟨v₂, rfl⟩ := List.head?_eq_some_iff.1 hhead
      simp
  refine ha.append hb fun v₁ v₂ w₁ w₂ g₁ g₂ h₁ h₂ hg₁ hh₁ hg₂ hh₂ heq => ?_
  rw [← htake v₁ v₂ g₁ g₂ hg₁ hg₂, heq, htake w₁ w₂ h₁ h₂ hh₁ hh₂]

end Regex
