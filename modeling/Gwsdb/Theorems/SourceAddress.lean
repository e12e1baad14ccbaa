import Gwsdb.Scan.NetErr
import Mathlib.Data.List.TakeWhile
import Mathlib.Tactic

/-!
# The source address leaves no trace

What is replaced before a network call does not depend on the text from the call on: no match that starts before it ends in it. So
the text after the calls before it is the same for every source address, and there the address is taken out with its arrow.
-/

namespace Gwsdb.Scan

/-! ## The statements -/

/-- White space, one character or more. -/
def IsSpaces (s : List Char) : Prop := s ≠ [] ∧ ∀ c ∈ s, isRegexSpace c = true

/-- One character or more, none of them white space. -/
def IsSource (s : List Char) : Prop := s ≠ [] ∧ ∀ c ∈ s, isRegexSpace c = false

/-- Spaces are a text of spaces that is not empty. -/
theorem isSpaces_iff {s : List Char} : IsSpaces s ↔ s ≠ [] ∧ s.all isRegexSpace = true := by
  rw [List.all_eq_true]
  rfl

/-- A source is a text without spaces that is not empty. -/
theorem isSource_iff {s : List Char} : IsSource s ↔ s ≠ [] ∧ s.all (fun c => !isRegexSpace c) = true := by
  rw [List.all_eq_true, IsSource]
  simp

/-- The text ends in what Go writes before the source address: a verb, white space, a network and white space. -/
def EndsInCall (p : List Char) : Prop :=
  ∃ before, ∃ verb ∈ verbs, ∃ space, ∃ network ∈ networks, ∃ space', IsSpaces space ∧ IsSpaces space' ∧
    p = before ++ (verb ++ (space ++ (network ++ space')))

/-- The text starts with a verb and white space. -/
def StartsCall (y : List Char) : Prop := ∃ verb ∈ verbs, ∃ c z, isRegexSpace c = true ∧ y = verb ++ c :: z

/-! ## Reading up to a stop -/

section Reading

variable {p : Char → Bool} {y : List Char}

/-- A character that fails the test ends the run before it. -/
theorem takeWhile_append_stop {c : Char} (h : p c = false) (b z : List Char) :
    (b ++ c :: z).takeWhile p = b.takeWhile p ∧ (b ++ c :: z).dropWhile p = b.dropWhile p ++ c :: z := by
  induction b with
  | nil => simp [h]
  | cons a b ih =>
    rw [List.cons_append, List.takeWhile_cons, List.takeWhile_cons, List.dropWhile_cons, List.dropWhile_cons]
    split
    · exact ⟨by rw [ih.1], ih.2⟩
    · exact ⟨rfl, rfl⟩

/-- A text that no space begins adds nothing to the spaces before it. -/
theorem spaces_append {c : Char} (h : isRegexSpace c = false) (b z : List Char) :
    spaces (b ++ c :: z) = (spaces b).map fun x => (x.1, x.2 ++ c :: z) := by
  obtain ⟨htake, hdrop⟩ := takeWhile_append_stop h b z
  unfold spaces
  rw [htake, hdrop]
  split <;> rfl

/-- Spaces are read whole, up to the first character that is none. -/
theorem spaces_self {s : List Char} (hs : IsSpaces s) {c : Char} (h : isRegexSpace c = false) (z : List Char) :
    spaces (s ++ c :: z) = some (s, c :: z) := by
  have hall : spaces s = some (s, []) := by
    unfold spaces
    rw [List.takeWhile_eq_self_iff.2 hs.2, List.dropWhile_eq_nil_iff.2 hs.2, if_neg hs.1]
  rw [spaces_append h, hall]
  rfl

/-- A word is found in a text as it is in what comes before `y`, when it does not reach into `y`. -/
theorem word_append {words : List (List Char)} {b : List Char}
    (h : ∀ w ∈ words, ∀ u, u ≠ [] → w = b ++ u → ¬u <+: y) :
    word words (b ++ y) = (word words b).map fun x => (x.1, x.2 ++ y) := by
  have hsame : ∀ w ∈ words, w.isPrefixOf (b ++ y) = w.isPrefixOf b := by
    intro w hw
    rw [Bool.eq_iff_iff, List.isPrefixOf_iff_prefix, List.isPrefixOf_iff_prefix]
    constructor
    · rintro ⟨r, hr⟩
      rcases List.append_eq_append_iff.1 hr with ⟨u, hb, -⟩ | ⟨u, hwu, hy⟩
      · exact ⟨u, hb.symm⟩
      · rcases List.eq_nil_or_concat u with rfl | ⟨_, _, hu⟩
        · exact ⟨[], by rw [hwu, List.append_nil, List.append_nil]⟩
        · exact absurd ⟨r, hy.symm⟩ (h w hw u (by simp [hu]) hwu)
    · exact fun hprefix => hprefix.trans (List.prefix_append b y)
  unfold word
  rw [List.find?_congr hsame, Option.map_map]
  refine Option.map_congr fun w hw => ?_
  have hfound := List.find?_some hw
  have hprefix := List.isPrefixOf_iff_prefix.1 hfound
  rw [Function.comp_apply, List.drop_append_of_le_length hprefix.length_le]

/-! ## Arrows -/

/-- Before an arrow nothing counts. -/
theorem afterArrow_append_arrow (s u : List Char) : afterArrow (s ++ '-' :: '>' :: u) = afterArrow ('-' :: '>' :: u) := by
  have hsome : (afterArrow ('-' :: '>' :: u)).isSome = true := by
    rw [afterArrow, Option.isSome_or]
    simp
  induction s with
  | nil => rfl
  | cons c s ih =>
    rw [List.cons_append, afterArrow, ih, Option.or_of_isSome hsome]

/-- A text without a dash has no arrow. -/
theorem afterArrow_eq_none {s : List Char} (h : ∀ c ∈ s, c ≠ '-') : afterArrow s = none := by
  induction s with
  | nil => rfl
  | cons c s ih =>
    obtain ⟨hc, hs⟩ := List.forall_mem_cons.1 h
    rw [afterArrow, ih hs, if_neg (fun h => hc h.1)]
    rfl

/-- After the last arrow comes all the text without arrows that follows. -/
theorem afterArrow_append {v : List Char} (hminus : ∀ c ∈ v, c ≠ '-') (hgreater : v.head? ≠ some '>') (s : List Char) :
    afterArrow (s ++ v) = (afterArrow s).map (· ++ v) := by
  induction s with
  | nil => exact afterArrow_eq_none hminus
  | cons c s ih =>
    rw [List.cons_append, afterArrow, afterArrow, ih]
    cases s with
    | nil => simp [hgreater, afterArrow]
    | cons d s =>
      rw [Option.map_or]
      congr 1
      by_cases harrow : c = '-' ∧ (d :: s).head? = some '>'
      · have harrow' : c = '-' ∧ (d :: s ++ v).head? = some '>' := harrow
        rw [if_pos harrow, if_pos harrow']
        rfl
      · have harrow' : ¬(c = '-' ∧ (d :: s ++ v).head? = some '>') := harrow
        rw [if_neg harrow, if_neg harrow']
        rfl

end Reading

/-! ## Before a call -/

/-- The characters of a verb are not white space, and no part of an arrow. -/
theorem verb_plain : ∀ v ∈ verbs, v ≠ [] ∧ ∀ c ∈ v, isRegexSpace c = false ∧ c ≠ '-' ∧ c ≠ '>' := by
  have hall : ∀ v ∈ verbs, v ≠ [] ∧ v.all (fun c => !isRegexSpace c && (c ≠ '-' && c ≠ '>')) = true := by decide
  intro v hv
  obtain ⟨hne, hplain⟩ := hall v hv
  exact ⟨hne, fun c hc => by simpa using List.all_eq_true.1 hplain c hc⟩

/-- No network reaches into a verb that follows. -/
theorem network_before_verb : ∀ w ∈ networks, ∀ u ∈ w.tails, u ≠ [] → ∀ v ∈ verbs, u.length ≤ v.length ∧ ¬u <+: v := by decide

/-- A verb reaches into a verb that follows in one way only. -/
theorem verb_before_verb : ∀ w ∈ verbs, ∀ u ∈ w.tail.tails, u ≠ [] → ∀ v ∈ verbs,
    u.length ≤ v.length ∧ (u <+: v → w = "read".toList ∧ u = "d".toList ∧ v = "dial".toList) := by decide

/-- A verb is split by its last character. -/
theorem prefix_of_append {u v z : List Char} (hle : u.length ≤ v.length) (h : u <+: v ++ z) : u <+: v :=
  List.prefix_of_prefix_length_le h (List.prefix_append v z) hle

section Call

variable {y : List Char}

/-- Spaces are read the same with a call behind the text. -/
theorem spaces_startsCall (hy : StartsCall y) (b : List Char) : spaces (b ++ y) = (spaces b).map fun x => (x.1, x.2 ++ y) := by
  obtain ⟨verb, hverb, c, z, -, rfl⟩ := hy
  obtain ⟨hne, hplain⟩ := verb_plain verb hverb
  obtain ⟨d, v, rfl⟩ := List.exists_cons_of_ne_nil hne
  exact spaces_append (hplain d List.mem_cons_self).1 b (v ++ c :: z)

/-- So is the network. -/
theorem network_startsCall (hy : StartsCall y) (b : List Char) :
    word networks (b ++ y) = (word networks b).map fun x => (x.1, x.2 ++ y) := by
  obtain ⟨verb, hverb, c, z, -, rfl⟩ := hy
  refine word_append fun w hw u hu hwu hprefix => ?_
  obtain ⟨hle, hnot⟩ := network_before_verb w hw u ((List.mem_tails u w).2 ⟨b, hwu.symm⟩) hu verb hverb
  exact hnot (prefix_of_append hle hprefix)

/-- So is the source with its arrow. -/
theorem sourceArrow_startsCall (hy : StartsCall y) (b : List Char) : sourceArrow (b ++ y) = (sourceArrow b).map (· ++ y) := by
  obtain ⟨verb, hverb, c, z, hc, rfl⟩ := hy
  obtain ⟨hne, hplain⟩ := verb_plain verb hverb
  have hminus : ∀ d ∈ verb, d ≠ '-' := fun d hd => (hplain d hd).2.1
  have hstop : (!isRegexSpace c) = false := by rw [hc]; rfl
  have hrun : ∀ d ∈ verb, (!isRegexSpace d) = true := fun d hd => by rw [(hplain d hd).1]; rfl
  obtain ⟨htake, hdrop⟩ := takeWhile_append_stop (p := fun c => !isRegexSpace c) hstop (b ++ verb) z
  unfold sourceArrow
  rw [← List.append_assoc, htake, hdrop]
  by_cases hb : ∀ d ∈ b, (!isRegexSpace d) = true
  · -- the run before the verb goes on to its end
    have hall : ∀ d ∈ b ++ verb, (!isRegexSpace d) = true := List.forall_mem_append.2 ⟨hb, hrun⟩
    rw [List.takeWhile_eq_self_iff.2 hall, List.dropWhile_eq_nil_iff.2 hall, List.takeWhile_eq_self_iff.2 hb,
      List.dropWhile_eq_nil_iff.2 hb]
    cases b with
    | nil =>
      have hnone : afterArrow ([] ++ verb).tail = none := afterArrow_eq_none fun d hd => hminus d (List.mem_of_mem_tail hd)
      rw [hnone]
      rfl
    | cons d b =>
      have hgreater : verb.head? ≠ some '>' := fun hhead => (hplain '>' (List.mem_of_head? hhead)).2.2 rfl
      rw [List.cons_append, List.tail_cons, List.tail_cons, afterArrow_append hminus hgreater, Option.map_map, Option.map_map]
      refine Option.map_congr fun x _ => ?_
      simp
  · have hlength : (b.takeWhile fun d => !isRegexSpace d).length ≠ b.length := fun h =>
      hb (List.takeWhile_eq_self_iff.1 ((List.takeWhile_prefix _).eq_of_length h))
    have hne' : b.dropWhile (fun d => !isRegexSpace d) ≠ [] := fun h => hb (List.dropWhile_eq_nil_iff.1 h)
    rw [List.takeWhile_append, if_neg hlength, List.dropWhile_append, if_neg (by simpa using hne'), Option.map_map]
    refine Option.map_congr fun x _ => ?_
    simp

/-- A match of its parts one after the other. -/
theorem matchSrcAddr_eq (s : List Char) : matchSrcAddr s =
    (word verbs s).bind fun v => (spaces v.2).bind fun sp => (word networks sp.2).bind fun n => (spaces n.2).bind fun sp' =>
      (sourceArrow sp'.2).map fun rest => (v.1 ++ sp.1 ++ n.1 ++ sp'.1, rest) := by
  simp only [Option.map_eq_bind]
  rfl

/-- What a match before a call is does not depend on the text from the call on, which it leaves over. -/
theorem matchSrcAddr_startsCall (hy : StartsCall y) {b : List Char} (hb : b ≠ []) :
    matchSrcAddr (b ++ y) = (matchSrcAddr b).map fun x => (x.1, x.2 ++ y) := by
  by_cases hreach : ∃ w ∈ verbs, ∃ u, u ≠ [] ∧ w = b ++ u ∧ u <+: y
  · -- "rea" before "dial"
    obtain ⟨w, hw, u, hu, hwu, hprefix⟩ := hreach
    obtain ⟨verb, hverb, c, z, -, rfl⟩ := hy
    obtain ⟨a, b, rfl⟩ := List.exists_cons_of_ne_nil hb
    have htail : u ∈ w.tail.tails := (List.mem_tails _ _).2 ⟨b, by rw [hwu]; rfl⟩
    obtain ⟨hle, honly⟩ := verb_before_verb w hw u htail hu verb hverb
    obtain ⟨rfl, rfl, rfl⟩ := honly (prefix_of_append hle hprefix)
    have hrea : a :: b = "rea".toList := (List.append_left_inj "d".toList).1 hwu.symm
    rw [hrea]
    rfl
  · push Not at hreach
    rw [matchSrcAddr_eq, matchSrcAddr_eq, word_append hreach]
    simp only [Option.bind_map, Option.map_bind, Function.comp_def, spaces_startsCall hy, network_startsCall hy,
      sourceArrow_startsCall hy, Option.map_map]

end Call

/-! ## Replacing -/

/-- Reading a word leaves no longer text. -/
theorem length_word {words : List (List Char)} {s : List Char} {x : List Char × List Char} (h : word words s = some x) :
    x.2.length ≤ s.length := by
  obtain ⟨w, -, rfl⟩ := Option.map_eq_some_iff.1 h
  simp

/-- Reading spaces leaves a shorter text. -/
theorem length_spaces {s : List Char} {x : List Char × List Char} (h : spaces s = some x) : x.2.length < s.length := by
  unfold spaces at h
  split at h
  · cases h
  · rename_i hne
    cases h
    have hsum := congrArg List.length (List.takeWhile_append_dropWhile (p := isRegexSpace) (l := s))
    rw [List.length_append] at hsum
    have hpos := List.length_pos_of_ne_nil hne
    simp only
    omega

/-- Reading up to an arrow leaves no longer text. -/
theorem length_afterArrow {s r : List Char} (h : afterArrow s = some r) : r.length ≤ s.length := by
  induction s with
  | nil => cases h
  | cons c s ih =>
    rw [afterArrow, Option.or_eq_some_iff] at h
    rcases h with h | ⟨-, h⟩
    · have hle := ih h
      rw [List.length_cons]
      omega
    · split at h
      · cases h
        simp
        omega
      · cases h

/-- So does reading a source with its arrow. -/
theorem length_sourceArrow {s r : List Char} (h : sourceArrow s = some r) : r.length ≤ s.length := by
  obtain ⟨x, hx, rfl⟩ := Option.map_eq_some_iff.1 h
  have hle := length_afterArrow hx
  have hsum := congrArg List.length (List.takeWhile_append_dropWhile (p := fun c => !isRegexSpace c) (l := s))
  rw [List.length_append] at hsum
  rw [List.length_tail] at hle
  rw [List.length_append]
  omega

/-- A match takes something. -/
theorem length_matchSrcAddr {s : List Char} {x : List Char × List Char} (h : matchSrcAddr s = some x) :
    x.2.length < s.length := by
  rw [matchSrcAddr_eq] at h
  simp only [Option.bind_eq_some_iff, Option.map_eq_some_iff] at h
  obtain ⟨v, hv, sp, hsp, n, hn, sp', hsp', r, hr, rfl⟩ := h
  have h₁ := length_word hv
  have h₂ := length_spaces hsp
  have h₃ := length_word hn
  have h₄ := length_spaces hsp'
  have h₅ := length_sourceArrow hr
  simp only
  omega

/-- Fuel for all characters is enough. -/
theorem replaceSrcAddrs_fuel {fuel fuel' : Nat} {s : List Char} (h : s.length ≤ fuel) (h' : s.length ≤ fuel') :
    replaceSrcAddrs fuel s = replaceSrcAddrs fuel' s := by
  induction fuel generalizing fuel' s with
  | zero =>
    obtain rfl := List.eq_nil_of_length_eq_zero (Nat.le_zero.1 h)
    cases fuel' <;> rfl
  | succ fuel ih =>
    cases s with
    | nil => cases fuel' <;> rfl
    | cons c s =>
      cases fuel' with
      | zero => simp at h'
      | succ fuel' =>
        rw [List.length_cons] at h h'
        rw [replaceSrcAddrs, replaceSrcAddrs]
        cases hmatch : matchSrcAddr (c :: s) with
        | none =>
          simp only
          rw [@ih fuel' s (by omega) (by omega)]
        | some x =>
          have hless := length_matchSrcAddr hmatch
          rw [List.length_cons] at hless
          simp only
          rw [@ih fuel' x.2 (by omega) (by omega)]

/-- The text with all matches replaced. -/
def replaced (s : List Char) : List Char := replaceSrcAddrs s.length s

/-- A match is replaced, and the rest after it. -/
theorem replaced_match {s : List Char} {x : List Char × List Char} (h : matchSrcAddr s = some x) :
    replaced s = x.1 ++ replaced x.2 := by
  cases s with
  | nil => cases h
  | cons c s =>
    have hless := length_matchSrcAddr h
    rw [List.length_cons] at hless
    unfold replaced
    rw [List.length_cons, replaceSrcAddrs, h]
    simp only
    rw [replaceSrcAddrs_fuel (by omega) (le_refl _)]

/-- Where nothing matches the character is kept. -/
theorem replaced_skip {c : Char} {s : List Char} (h : matchSrcAddr (c :: s) = none) : replaced (c :: s) = c :: replaced s := by
  unfold replaced
  rw [List.length_cons, replaceSrcAddrs, h]

/-- Texts that start with a call and are the same when replaced are so after any text. -/
theorem replaced_append {y y' : List Char} (hy : StartsCall y) (hy' : StartsCall y')
    (h : replaced y = replaced y') (b : List Char) :
    replaced (b ++ y) = replaced (b ++ y') := by
  induction hn : b.length using Nat.strong_induction_on generalizing b with
  | _ n ih =>
    subst hn
    cases b with
    | nil => exact h
    | cons c b =>
      have hmatch := matchSrcAddr_startsCall hy (List.cons_ne_nil c b)
      have hmatch' := matchSrcAddr_startsCall hy' (List.cons_ne_nil c b)
      cases hb : matchSrcAddr (c :: b) with
      | none =>
        rw [hb] at hmatch hmatch'
        have hrest := ih b.length (Nat.lt_succ_self _) b rfl
        exact (replaced_skip hmatch).trans ((congrArg (c :: ·) hrest).trans (replaced_skip hmatch').symm)
      | some x =>
        rw [hb] at hmatch hmatch'
        rw [replaced_match hmatch, replaced_match hmatch', ih _ (length_matchSrcAddr hb) x.2 rfl]

/-! ## At the call -/

/-- A verb is read as itself. -/
theorem word_verb : ∀ v ∈ verbs, ∀ t, word verbs (v ++ t) = some (v, t) := by
  intro v hv t
  simp only [verbs, List.mem_cons, List.not_mem_nil, or_false] at hv
  rcases hv with rfl | rfl | rfl <;> rfl

/-- A network with a space behind it is read as itself. -/
theorem word_network {c : Char} (hc : isRegexSpace c = true) :
    ∀ n ∈ networks, ∀ t, word networks (n ++ c :: t) = some (n, c :: t) := by
  intro n hn t
  have h4 : ('4' == c) = false := by rw [beq_eq_false_iff_ne]; rintro rfl; cases hc
  have h6 : ('6' == c) = false := by rw [beq_eq_false_iff_ne]; rintro rfl; cases hc
  simp only [networks, List.mem_cons, List.not_mem_nil, or_false] at hn
  rcases hn with rfl | rfl | rfl | rfl | rfl
  · rfl
  · rfl
  · rfl
  · rfl
  · simp [word, networks, List.isPrefixOf, h4, h6]

/-- After the arrow that follows a source address, or the last one in the same run, nothing of the address is left. -/
theorem sourceArrow_source {s : List Char} (hs : IsSource s) (q : List Char) : sourceArrow (s ++ '-' :: '>' :: q) =
    (afterArrow ('-' :: '>' :: q.takeWhile fun c => !isRegexSpace c)).map (· ++ q.dropWhile fun c => !isRegexSpace c) := by
  obtain ⟨hne, hplain⟩ := hs
  have hrun : ∀ c ∈ s, (!isRegexSpace c) = true := fun c hc => by rw [hplain c hc]; rfl
  have htake : ('-' :: '>' :: q).takeWhile (fun c => !isRegexSpace c) = '-' :: '>' :: q.takeWhile fun c => !isRegexSpace c := rfl
  have hdrop : ('-' :: '>' :: q).dropWhile (fun c => !isRegexSpace c) = q.dropWhile fun c => !isRegexSpace c := rfl
  obtain ⟨c, s, rfl⟩ := List.exists_cons_of_ne_nil hne
  unfold sourceArrow
  rw [List.takeWhile_append_of_pos hrun, List.dropWhile_append_of_pos hrun, htake, hdrop, List.cons_append, List.tail_cons,
    afterArrow_append_arrow]

/-- A call with its source address is matched, and what is kept and left does not depend on the address. -/
theorem matchSrcAddr_call {verb space network space' s : List Char} (hverb : verb ∈ verbs) (hspace : IsSpaces space)
    (hnetwork : network ∈ networks) (hspace' : IsSpaces space') (hs : IsSource s) (q : List Char) :
    matchSrcAddr (verb ++ (space ++ (network ++ (space' ++ (s ++ '-' :: '>' :: q))))) =
      ((afterArrow ('-' :: '>' :: q.takeWhile fun c => !isRegexSpace c)).map (· ++ q.dropWhile fun c => !isRegexSpace c)).map
        fun rest => (verb ++ space ++ network ++ space', rest) := by
  rw [matchSrcAddr_eq, word_verb verb hverb, Option.bind_some]
  obtain ⟨n, network', hn, hnplain⟩ : ∃ n network', network = n :: network' ∧ isRegexSpace n = false := by
    have hhead : ∀ w ∈ networks, w.head?.any (fun n => !isRegexSpace n) = true := by decide
    have hplain := hhead network hnetwork
    cases network with
    | nil => exact absurd hplain Bool.false_ne_true
    | cons n network' => exact ⟨n, network', rfl, by simpa using hplain⟩
  have hsp : spaces (space ++ (network ++ (space' ++ (s ++ '-' :: '>' :: q)))) =
      some (space, network ++ (space' ++ (s ++ '-' :: '>' :: q))) := by
    rw [hn]
    exact spaces_self hspace hnplain _
  have hnet : word networks (network ++ (space' ++ (s ++ '-' :: '>' :: q))) =
      some (network, space' ++ (s ++ '-' :: '>' :: q)) := by
    obtain ⟨c, sp, rfl⟩ := List.exists_cons_of_ne_nil hspace'.1
    exact word_network (hspace'.2 c List.mem_cons_self) network hnetwork _
  have hsp' : spaces (space' ++ (s ++ '-' :: '>' :: q)) = some (space', s ++ '-' :: '>' :: q) := by
    obtain ⟨c, src, rfl⟩ := List.exists_cons_of_ne_nil hs.1
    exact spaces_self hspace' (hs.2 c List.mem_cons_self) _
  rw [hsp, Option.bind_some, hnet, Option.bind_some, hsp', Option.bind_some, sourceArrow_source hs]

/-- Two calls that differ in their sources are replaced by one text. -/
theorem replaced_call {verb space network space' s s' : List Char} (hverb : verb ∈ verbs) (hspace : IsSpaces space)
    (hnetwork : network ∈ networks) (hspace' : IsSpaces space') (hs : IsSource s) (hs' : IsSource s') (q : List Char) :
    replaced (verb ++ (space ++ (network ++ (space' ++ (s ++ '-' :: '>' :: q))))) =
      replaced (verb ++ (space ++ (network ++ (space' ++ (s' ++ '-' :: '>' :: q))))) := by
  have hsome : (afterArrow ('-' :: '>' :: q.takeWhile fun c => !isRegexSpace c)).isSome = true := by
    rw [afterArrow, Option.isSome_or]
    simp
  obtain ⟨rest, hrest⟩ := Option.isSome_iff_exists.1 hsome
  have hmatch := fun {s} (hs : IsSource s) => matchSrcAddr_call hverb hspace hnetwork hspace' hs q
  rw [hrest] at hmatch
  rw [replaced_match (hmatch hs), replaced_match (hmatch hs')]

/-- The stored error is the same for all source addresses, whatever stands before the call and after the arrow. -/
theorem source_hidden {p q s₁ s₂ : String} (hp : EndsInCall p.toList) (h₁ : IsSource s₁.toList) (h₂ : IsSource s₂.toList) :
    sanitizeNetErr (p ++ s₁ ++ "->" ++ q) = sanitizeNetErr (p ++ s₂ ++ "->" ++ q) := by
  obtain ⟨before, verb, hverb, space, network, hnetwork, space', hspace, hspace', hp⟩ := hp
  have htext : ∀ s : String, (p ++ s ++ "->" ++ q).toList =
      before ++ (verb ++ (space ++ (network ++ (space' ++ (s.toList ++ '-' :: '>' :: q.toList))))) := by
    intro s
    rw [String.toList_append, String.toList_append, String.toList_append, hp]
    simp
  have hstarts : ∀ t, StartsCall (verb ++ (space ++ t)) := by
    intro t
    obtain ⟨c, sp, rfl⟩ := List.exists_cons_of_ne_nil hspace.1
    exact ⟨verb, hverb, c, sp ++ t, hspace.2 c List.mem_cons_self, rfl⟩
  unfold sanitizeNetErr
  rw [htext, htext]
  exact congrArg String.ofList (replaced_append (hstarts _) (hstarts _)
    (replaced_call hverb hspace hnetwork hspace' h₁ h₂ q.toList) before)

example : sanitizeNetErr "sni=example.com error=read ip6 [2001:db8::a1]:5000->[2404::1]:443: i/o timeout" =
    "sni=example.com error=read ip6 [2404::1]:443: i/o timeout" := by decide +kernel

/-- Two attempts, the first one read from either address. -/
theorem source_hidden_read :
    sanitizeNetErr ("sni=g.cn error=read ip6 " ++ "[2001:db8::a1]:5000" ++ "->" ++
      "[2404::1]:443: i/o timeout; write udp [::1]:53->[::2]:53") =
      sanitizeNetErr ("sni=g.cn error=read ip6 " ++ "10.0.0.2" ++ "->" ++
          "[2404::1]:443: i/o timeout; write udp [::1]:53->[::2]:53") :=
  source_hidden
    ⟨"sni=g.cn error=".toList, "read".toList, by decide, [' '], "ip6".toList, by decide, [' '], isSpaces_iff.2 (by decide),
      isSpaces_iff.2 (by decide), by decide⟩
    (isSource_iff.2 (by decide)) (isSource_iff.2 (by decide))

end Gwsdb.Scan
