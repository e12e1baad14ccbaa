import Gwsdb.Web.Geo

/-!
# Siblings of hostnames

A `Name` is what `siblingPattern` and the first three patterns of `decode` have in common: a start, the index of a server in a
base, and whether there is a dot at the end. A text is the one of at most one name (`Name.text_inj`), the patterns say different
things of its start only (`exec_server`), and `siblingHostname` writes the index in the other base (`siblingHostname_name`). So a
hostname and its sibling are the same server to `decode` as well, unless the start is `any`: there the fourth pattern reads `f`
and decimal digits as hexadecimal ones, but not `x` and hexadecimal digits (`sibling_agrees_iff`).
-/

namespace Gwsdb.Web.Geo

open Digits
open Regex
open JsNumber (isSpace natural isDigit_iff)
open JsCase (CaseData)

/-! ## Names -/

/-- The base of a server index. -/
inductive Base
  | decimal
  | hexadecimal
  deriving DecidableEq

namespace Base

def radix : Base → Nat
  | decimal => 10
  | hexadecimal => 16

/-- The letter in front of an index. -/
def letter : Base → Char
  | decimal => 'f'
  | hexadecimal => 'x'

def other : Base → Base
  | decimal => hexadecimal
  | hexadecimal => decimal

/-- How many digits an index has at least and at most. -/
def bounds : Base → Nat × Nat
  | decimal => (1, 3)
  | hexadecimal => (2, 2)

/-- An index of a base. -/
def IsIndex (b : Base) (ds : Text) : Prop := (∀ c ∈ ds, IsDigit b.radix c) ∧ b.bounds.1 ≤ ds.length ∧ ds.length ≤ b.bounds.2

/-- An index as `siblingHostname` writes it. -/
def write : Base → Nat → Text
  | decimal, n => Nat.toDigits 10 n
  | hexadecimal, n => (Nat.toDigits 16 n).leftpad 2 '0'

/-- The other of the other base is the base itself. -/
@[simp] theorem other_other (b : Base) : b.other.other = b := by cases b <;> rfl

/-- Both bases are decimal or larger, and hexadecimal at most. -/
theorem radix_spec (b : Base) : 10 ≤ b.radix ∧ b.radix ≤ 16 := by cases b <;> decide

end Base

/-- The domain, with or without a dot. -/
def ending (dot : Bool) : Text := ".1e100.net".toList ++ if dot then ".".toList else []

/-- What a hostname says of a server. -/
structure Name where
  start : Text
  base : Base
  digits : Text
  dot : Bool
  isIndex : base.IsIndex digits

namespace Name

/-- The hostname. -/
def text (n : Name) : Text := n.start ++ "-in-".toList ++ (n.base.letter :: n.digits) ++ ending n.dot

/-- The number of the server. -/
def index (n : Name) : Nat := value n.base.radix n.digits

/-- The start is one of `siblingPattern`. -/
def HasStart (n : Name) : Prop := n.start ≠ [] ∧ ∀ c ∈ n.start, isDot c = true

/-- The hostname of the server in the other base. -/
def siblingText (n : Name) : Text :=
  n.start ++ "-in-".toList ++ (n.base.other.letter :: n.base.other.write n.index) ++ ending n.dot

/-- The groups of the index in a match of `marker`. -/
def groups (n : Name) (k : Nat) : Groups := [(if n.base = .decimal then k else k + 1, n.digits)]

end Name

/-! ## Digits -/

/-- A hexadecimal digit is a digit of base 16. -/
theorem isHex_iff {c : Char} : isHex c = true ↔ IsDigit 16 c := by
  constructor
  · intro h
    have hall := ascii_all (P := fun c => isHex c = true → ∃ d < 16, c = Nat.digitChar d) (by decide)
    have hlt : c.toNat < 128 := by
      by_contra hge
      have hgt : ∀ x : Char, x.toNat < 128 → ¬c ≤ x := fun x hx hle => hge (lt_of_le_of_lt hle hx)
      simp [isHex, isDecimal, hgt '9' (by decide), hgt 'f' (by decide)] at h
    exact hall c hlt h
  · rintro ⟨d, hd, rfl⟩
    interval_cases d <;> decide

/-- A decimal digit is a digit of base 10. -/
theorem isDecimal_iff {c : Char} : isDecimal c = true ↔ IsDigit 10 c := by
  constructor
  · intro h
    obtain ⟨d, hd, rfl⟩ := isHex_iff.1 (show isHex c = true by rw [isHex, h, Bool.true_or])
    by_contra hnot
    have hge : 10 ≤ d := Nat.le_of_not_lt fun hlt => hnot ⟨d, hlt, rfl⟩
    interval_cases d <;> exact absurd h (by decide)
  · rintro ⟨d, hd, rfl⟩
    interval_cases d <;> decide

/-- A digit is no separator, and it is in lower case. -/
theorem digit_spec {b : Nat} (hb : b ≤ 16) {c : Char} (h : IsDigit b c) : c ≠ '-' ∧ c ≠ '.' ∧ c.toNat < 128 ∧ c.toLower = c := by
  obtain ⟨d, hd, rfl⟩ := h
  have hd' := hd.trans_le hb
  interval_cases d <;> decide

/-- A text of digits is read as its value. -/
theorem natural_digits {b : Nat} (hb : b ≤ 16) {s : Text} (hne : s ≠ []) (h : ∀ c ∈ s, IsDigit b c) :
    natural b s = some (value b s) := by
  refine if_pos ⟨hne, List.all_eq_true.2 fun c hc => ?_⟩
  obtain ⟨d, hd, rfl⟩ := h c hc
  exact isDigit_iff.2 ⟨d, digitValue_digitChar (hd.trans_le hb), hd⟩

namespace Base

variable {b : Base}

/-- What is written for a number is an index, and it is the one of that number. -/
theorem write_spec {n : Nat} (hn : n ≤ 0xff) : b.IsIndex (b.write n) ∧ value b.radix (b.write n) = n := by
  cases b with
  | decimal =>
    have hlength : (Nat.toDigits 10 n).length ≤ 3 := (Nat.length_toDigits_le_iff (by decide) (by decide)).2 (by omega)
    exact ⟨⟨isDigit_of_mem_toDigits (by decide), Nat.length_toDigits_pos, hlength⟩, value_toDigits (by decide) (by decide) n⟩
  | hexadecimal =>
    have hlt : n < 16 ^ 2 := Nat.lt_succ_of_le hn
    rw [write, leftpad_toDigits (by decide) (by decide) (by decide) hlt]
    exact ⟨⟨isDigit_of_mem_digits (by decide), (digits_length 16 2 n).ge, (digits_length 16 2 n).le⟩,
      value_digits (by decide) hlt⟩

/-- An index has a digit. -/
theorem IsIndex.ne_nil {ds : Text} (h : b.IsIndex ds) : ds ≠ [] := by
  rintro rfl
  have hleast := h.2.1
  cases b <;> exact absurd hleast (by decide)

/-- The marker of an index has no separator. -/
theorem IsIndex.marker_spec {ds : Text} (h : b.IsIndex ds) : '-' ∉ b.letter :: ds ∧ '.' ∉ b.letter :: ds := by
  constructor
  all_goals
    intro hmem
    rcases List.mem_cons.1 hmem with heq | hin
    · cases b <;> exact absurd heq (by decide)
    · have hdigit := digit_spec b.radix_spec.2 (h.1 _ hin)
      tauto

end Base

namespace Name

/-- The name in the other base. -/
def sibling (n : Name) (h : n.index ≤ 0xff) : Name :=
    ⟨n.start, n.base.other, n.base.other.write n.index, n.dot, (Base.write_spec h).1⟩

/-- The sibling's name is spelled as the sibling text. -/
theorem text_sibling (n : Name) (h : n.index ≤ 0xff) : (n.sibling h).text = n.siblingText := rfl

/-- Siblings have one index. -/
theorem index_sibling (n : Name) (h : n.index ≤ 0xff) : (n.sibling h).index = n.index := (Base.write_spec h).2

/-- Written twice, the sibling is itself again. -/
theorem siblingText_sibling_sibling (n : Name) (h : n.index ≤ 0xff) (h' : (n.sibling h).index ≤ 0xff) :
    ((n.sibling h).sibling h').siblingText = n.siblingText := by
  have hindex : ((n.sibling h).sibling h').index = n.index := (index_sibling _ h').trans (n.index_sibling h)
  have hbase : ((n.sibling h).sibling h').base = n.base := n.base.other_other
  unfold siblingText
  rw [hindex, hbase]
  rfl

end Name

/-! ## One name -/

/-- A text is split at its first separator in one way. -/
theorem split_first {c : Char} {x y x' y' : Text} (hx : c ∉ x) (hx' : c ∉ x') (h : x ++ c :: y = x' ++ c :: y') :
    x = x' ∧ y = y' := by
  have htake : ∀ x y : Text, c ∉ x → (x ++ c :: y).takeWhile (· ≠ c) = x := by
    intro x y hx
    have hword : ∀ d ∈ x, decide (d ≠ c) = true := fun d hd => decide_eq_true fun heq => hx (heq ▸ hd)
    rw [List.takeWhile_append_of_pos hword]
    simp
  have hfirst : x = x' := by rw [← htake x y hx, h, htake x' y' hx']
  subst hfirst
  exact ⟨rfl, (List.cons.inj (List.append_cancel_left h)).2⟩

/-- A text is split at its last separator in one way. -/
theorem split_last {c : Char} {x y x' y' : Text} (hy : c ∉ y) (hy' : c ∉ y') (h : x ++ c :: y = x' ++ c :: y') :
    x = x' ∧ y = y' := by
  have hrev := congrArg List.reverse h
  simp only [List.reverse_append, List.reverse_cons, List.append_assoc, List.singleton_append] at hrev
  obtain ⟨hy, hx⟩ := split_first (by simpa using hy) (by simpa using hy') hrev
  exact ⟨List.reverse_injective hx, List.reverse_injective hy⟩

/-- The start, the marker and the dot of a hostname. -/
theorem text_split {x m x' m' : Text} {d d' : Bool} (hm : '-' ∉ m ∧ '.' ∉ m) (hm' : '-' ∉ m' ∧ '.' ∉ m')
    (h : x ++ "-in-".toList ++ m ++ ending d = x' ++ "-in-".toList ++ m' ++ ending d') : x = x' ∧ m = m' ∧ d = d' := by
  have hlast : ∀ (x m : Text) (d : Bool), x ++ "-in-".toList ++ m ++ ending d =
      (x ++ "-in".toList) ++ '-' :: (m ++ ending d) := by
    intro x m d
    have hin : "-in-".toList = "-in".toList ++ ['-'] := rfl
    simp [hin]
  have hfree : ∀ (m : Text) (d : Bool), '-' ∉ m → '-' ∉ m ++ ending d := by
    intro m d hm hmem
    rcases List.mem_append.1 hmem with hin | hin
    · exact hm hin
    · cases d <;> exact absurd hin (by decide)
  rw [hlast, hlast] at h
  obtain ⟨hx, hrest⟩ := split_last (hfree m d hm.1) (hfree m' d' hm'.1) h
  have hcons : ∀ d, ending d = '.' :: ("1e100.net".toList ++ if d then ".".toList else []) := fun d => rfl
  rw [hcons, hcons] at hrest
  obtain ⟨hmarker, hdot⟩ := split_first hm.2 hm'.2 hrest
  refine ⟨List.append_cancel_right hx, hmarker, ?_⟩
  cases d <;> cases d' <;> first | rfl | exact absurd hdot (by decide)

/-- A text is the one of at most one name. -/
theorem Name.text_inj {m n : Name} (h : m.text = n.text) : m = n := by
  obtain ⟨hstart, hmarker, hdot⟩ := text_split m.isIndex.marker_spec n.isIndex.marker_spec h
  obtain ⟨hletter, hdigits⟩ := List.cons.inj hmarker
  have hbase : m.base = n.base := by
    generalize m.base = b at hletter
    generalize n.base = b' at hletter
    cases b <;> cases b' <;> first | rfl | exact absurd hletter (by decide)
  cases m
  cases n
  cases hstart
  cases hbase
  cases hdigits
  cases hdot
  rfl

/-! ## Matches -/

/-- The marker part of a pattern matches a base's letter with an index behind it. -/
theorem matches_marker {k : Nat} {w : Text} {g : Groups} : Matches (marker k) w g ↔
    ∃ (b : Base) (ds : Text), b.IsIndex ds ∧ w = b.letter :: ds ∧ g = [(if b = .decimal then k else k + 1, ds)] := by
  unfold marker
  simp only [matches_alt, matches_append, matches_text, matches_group, matches_many, isDecimal_iff, isHex_iff]
  constructor
  · rintro (⟨_, ds, _, _, rfl, rfl, ⟨rfl, rfl⟩, _, rfl, hall, hleast, hmost, rfl⟩ |
      ⟨_, ds, _, _, rfl, rfl, ⟨rfl, rfl⟩, _, rfl, hall, hleast, hmost, rfl⟩)
    · exact ⟨.decimal, ds, ⟨hall, hleast, hmost 3 rfl⟩, rfl, rfl⟩
    · exact ⟨.hexadecimal, ds, ⟨hall, hleast, hmost 2 rfl⟩, rfl, rfl⟩
  · rintro ⟨b, ds, ⟨hall, hleast, hmost⟩, rfl, rfl⟩
    cases b with
    | decimal => exact Or.inl ⟨['f'], ds, [], _, rfl, rfl, ⟨rfl, rfl⟩, [], rfl, hall, hleast, fun m hm =>
      Option.some.inj hm ▸ hmost, rfl⟩
    | hexadecimal =>
      exact Or.inr ⟨['x'], ds, [], _, rfl, rfl, ⟨rfl, rfl⟩, [], rfl, hall, hleast, fun m hm => Option.some.inj hm ▸ hmost, rfl⟩

/-- The domain part matches 1e100.net, with or without a final dot, and captures nothing. -/
theorem matches_domain {w : Text} {g : Groups} : Matches domain w g ↔ (∃ dot, w = ending dot) ∧ g = [] := by
  unfold domain opt
  simp only [matches_append, matches_alt, matches_text]
  constructor
  · rintro ⟨_, _, _, _, rfl, rfl, ⟨rfl, rfl⟩, ⟨rfl, rfl⟩ | ⟨rfl, rfl⟩⟩
    · exact ⟨⟨true, rfl⟩, rfl⟩
    · exact ⟨⟨false, rfl⟩, rfl⟩
  · rintro ⟨⟨dot, rfl⟩, rfl⟩
    cases dot
    · exact ⟨_, _, [], [], rfl, rfl, ⟨rfl, rfl⟩, Or.inr ⟨rfl, rfl⟩⟩
    · exact ⟨_, _, [], [], rfl, rfl, ⟨rfl, rfl⟩, Or.inl ⟨rfl, rfl⟩⟩

section Server

variable {head : Regex} {k : Nat}

/-- A pattern of servers matches the names whose starts its head matches. -/
theorem matches_server {w : Text} {g : Groups} : Matches (head ++ .text "-in-".toList ++ marker k ++ domain) w g ↔
    ∃ (n : Name) (g' : Groups), w = n.text ∧ Matches head n.start g' ∧ g = g' ++ n.groups k := by
  constructor
  · intro h
    obtain ⟨_, _, _, _, rfl, rfl, h, hdomain⟩ := matches_append.1 h
    obtain ⟨_, _, _, _, rfl, rfl, h, hmarker⟩ := matches_append.1 h
    obtain ⟨start, _, g', _, rfl, rfl, hhead, hin⟩ := matches_append.1 h
    obtain ⟨rfl, rfl⟩ := matches_text.1 hin
    obtain ⟨b, ds, hindex, rfl, rfl⟩ := matches_marker.1 hmarker
    obtain ⟨⟨dot, rfl⟩, rfl⟩ := matches_domain.1 hdomain
    exact ⟨⟨start, b, ds, dot, hindex⟩, g', rfl, hhead, by simp [Name.groups]⟩
  · rintro ⟨n, g', rfl, hhead, rfl⟩
    have hmarker := (matches_marker (k := k)).2 ⟨n.base, n.digits, n.isIndex, rfl, rfl⟩
    have hin : Matches (.text "-in-".toList) "-in-".toList [] := .text
    have h := ((hhead.seq hin).seq hmarker).seq (matches_domain.2 ⟨⟨n.dot, rfl⟩, rfl⟩)
    rw [List.append_nil, List.append_nil] at h
    exact h

/-- On a name such a pattern finds what its head finds on the start. -/
theorem exec_server (hhead : Unambiguous head) (n : Name) :
    (head ++ .text "-in-".toList ++ marker k ++ domain).exec n.text = (head.exec n.start).map (· ++ n.groups k) := by
  have hname : ∀ g, Matches (head ++ .text "-in-".toList ++ marker k ++ domain) n.text g →
      ∃ g', head.exec n.start = some g' ∧ g = g' ++ n.groups k := by
    intro g h
    obtain ⟨n', g', htext, hstart, rfl⟩ := matches_server.1 h
    obtain rfl := Name.text_inj htext
    exact ⟨g', (exec_eq_some_iff hhead).2 hstart, rfl⟩
  cases hg : (head ++ .text "-in-".toList ++ marker k ++ domain).exec n.text with
  | some g =>
    obtain ⟨g', hstart, rfl⟩ := hname g (matches_of_exec hg)
    rw [hstart, Option.map_some]
  | none =>
    cases hstart : head.exec n.start with
    | none => rfl
    | some g' =>
      have hsome := exec_isSome_iff.2 ⟨_, (matches_server (k := k)).2 ⟨n, g', rfl, matches_of_exec hstart, rfl⟩⟩
      rw [hg] at hsome
      exact absurd hsome Bool.false_ne_true

end Server

/-- Two groups of characters of a class, each of one length. -/
theorem groups_spec {p q : Char → Bool} {j k m n : Nat} :
    Unambiguous (.group j (.many p m (some m)) ++ .group k (.many q n (some n))) ∧
      Width (.group j (.many p m (some m)) ++ .group k (.many q n (some n))) (m + n) :=
  ⟨unambiguous_many.group.append_of_width unambiguous_many.group width_many.group, width_many.group.append width_many.group⟩

/-- The first pattern's head matches a text in one way. -/
theorem unambiguous_head1 : Unambiguous head1 := by
  obtain ⟨hcodes, hwidth⟩ := @groups_spec isLetter isDecimal 1 2 3 2
  exact (hcodes.append_of_width unambiguous_text hwidth).append_of_width unambiguous_many.group (hwidth.append width_text)

/-- The second pattern's head matches a text in one way. -/
theorem unambiguous_head2 : Unambiguous head2 := unambiguous_many.group

/-- The letters of the third head have no separator, which the tag of the cluster begins with. -/
theorem unambiguous_head3 : Unambiguous head3 := by
  obtain ⟨hcodes, hwidth⟩ := @groups_spec isLetter isLetter 1 2 2 3
  have hletters := hcodes.append_of_width (b := .group 3 (.many isLetter 1 (some 3))) unambiguous_many.group hwidth
  have htag : Unambiguous (.text "-".toList ++ .group 4 (.many (fun c => isLetter c || isDecimal c) 1 none)) :=
    unambiguous_text.append_of_width unambiguous_many.group width_text
  refine hletters.append_of_stop (c := '-') (htag.alt unambiguous_text ?_) ?_ ?_
  · intro w g h hg hh
    obtain ⟨_, _, _, _, rfl, -, htext, -⟩ := matches_append.1 hg
    rw [(matches_text.1 htext).1] at hh
    exact absurd (matches_text.1 hh).1 (by simp)
  · intro w g hg hmem
    simp only [matches_append, matches_group, matches_many] at hg
    have hletter : isLetter '-' = false := by decide
    obtain ⟨_, w₃, _, _, rfl, -, ⟨w₁, w₂, _, _, rfl, -, ⟨_, -, h₁, -⟩, ⟨_, -, h₂, -⟩⟩, ⟨_, -, h₃, -⟩⟩ := hg
    simp only [List.mem_append] at hmem
    rcases hmem with (hmem | hmem) | hmem
    · exact absurd (h₁ _ hmem) (by simp [hletter])
    · exact absurd (h₂ _ hmem) (by simp [hletter])
    · exact absurd (h₃ _ hmem) (by simp [hletter])
  · intro w g hg
    rcases matches_alt.1 hg with hg | hg
    · obtain ⟨_, _, _, _, rfl, -, htext, -⟩ := matches_append.1 hg
      rw [(matches_text.1 htext).1]
      exact Or.inr rfl
    · exact Or.inl (matches_text.1 hg).1

/-- The fourth pattern matches the names any-in- with two to six hexadecimal digits. -/
theorem matches_pattern4 {w : Text} : (∃ g, Matches pattern4 w g) ↔ ∃ (ds : Text) (dot : Bool),
    (∀ c ∈ ds, IsDigit 16 c) ∧ 2 ≤ ds.length ∧ ds.length ≤ 6 ∧ w = "any".toList ++ "-in-".toList ++ ds ++ ending dot := by
  have hany : "any-in-".toList = "any".toList ++ "-in-".toList := rfl
  unfold pattern4
  constructor
  · rintro ⟨g, h⟩
    obtain ⟨_, _, _, _, rfl, -, h, hdomain⟩ := matches_append.1 h
    obtain ⟨_, ds, _, _, rfl, -, hstart, hdigits⟩ := matches_append.1 h
    obtain ⟨rfl, -⟩ := matches_text.1 hstart
    obtain ⟨⟨dot, rfl⟩, -⟩ := matches_domain.1 hdomain
    obtain ⟨_, -, hinner⟩ := matches_group.1 hdigits
    obtain ⟨hhex, hleast, hmost, -⟩ := matches_many.1 hinner
    exact ⟨ds, dot, fun c hc => isHex_iff.1 (hhex c hc), hleast, hmost 6 rfl, by rw [hany]⟩
  · rintro ⟨ds, dot, hhex, hleast, hmost, rfl⟩
    have hmany : Matches (.many isHex 2 (some 6)) ds [] :=
      .many (fun c hc => isHex_iff.2 (hhex c hc)) hleast fun m hm => Option.some.inj hm ▸ hmost
    have h := (Matches.seq (.text (s := "any-in-".toList)) (.group (k := 1) hmany)).seq (matches_domain.2 ⟨⟨dot, rfl⟩, rfl⟩)
    exact ⟨_, h⟩

/-- The fourth pattern matches the names with the start `any` and a decimal index, whose marker it reads as hexadecimal digits. -/
theorem exec_pattern4 (n : Name) : (pattern4.exec n.text).isSome = true ↔ n.start = "any".toList ∧ n.base = .decimal := by
  rw [exec_isSome_iff, matches_pattern4]
  constructor
  · rintro ⟨ds, dot, hhex, -, -, htext⟩
    have hfree : '-' ∉ ds ∧ '.' ∉ ds := ⟨fun hc => (digit_spec le_rfl (hhex _ hc)).1 rfl, fun hc =>
      (digit_spec le_rfl (hhex _ hc)).2.1 rfl⟩
    obtain ⟨hstart, hmarker, -⟩ := text_split n.isIndex.marker_spec hfree htext
    refine ⟨hstart, ?_⟩
    have hletter := isHex_iff.2 (hhex n.base.letter (by rw [← hmarker]; exact List.mem_cons_self))
    cases hb : n.base with
    | decimal => rfl
    | hexadecimal =>
      rw [hb] at hletter
      exact absurd hletter (by decide)
  · rintro ⟨hstart, hbase⟩
    obtain ⟨hdigits, hleast, hmost⟩ := n.isIndex
    rw [hbase] at hdigits hleast hmost
    refine ⟨'f' :: n.digits, n.dot, List.forall_mem_cons.2 ⟨⟨15, by decide, rfl⟩, fun c hc => ?_⟩, Nat.succ_le_succ hleast,
      (Nat.succ_le_succ hmost).trans (by decide), by rw [Name.text, hstart, hbase]; rfl⟩
    obtain ⟨d, hd, rfl⟩ := hdigits c hc
    exact ⟨d, hd.trans (by decide), rfl⟩

/-! ## Decoding names -/

/-- What a group captured is the first entry with its number. -/
@[simp] theorem captured_cons (g : Groups) (j k : Nat) (t : Text) :
    captured ((j, t) :: g) k = if k = j then t else captured g k := by
  unfold captured
  rw [List.lookup_cons]
  by_cases hk : k = j
  · rw [if_pos hk, beq_iff_eq.2 hk]
    rfl
  · rw [if_neg hk, beq_eq_false_iff_ne.2 hk]

/-- Without groups nothing is captured. -/
@[simp] theorem captured_nil (k : Nat) : captured [] k = [] := rfl

/-- The groups of the head come before those of the index. -/
theorem captured_head {g : Groups} {n : Name} {j k : Nat} (h : j < k) : captured (g ++ n.groups k) j = captured g j := by
  have hnone : (n.groups k).lookup j = none := by
    have hne : j ≠ if n.base = .decimal then k else k + 1 := by
      split <;> omega
    rw [Name.groups, List.lookup_cons, beq_eq_false_iff_ne.2 hne]
    rfl
  rw [captured, captured, List.lookup_append, hnone, Option.or_none]

section Decode

variable {u : CaseData} {airportCodes regionalCodes : Text → Option Place} {h s : Text} {m n : Name}

/-- Two locations agree but for the hostname and the index. -/
structure SamePlace (a b : Location) : Prop where
  matched : a.matched = b.matched
  airportCode : a.airportCode = b.airportCode
  cluster : a.cluster = b.cluster
  city : a.city = b.city
  country : a.country = b.country

/-- Hostnames of one start are decoded alike, unless the fourth pattern tells them apart. -/
theorem decode_samePlace (hm : normal u h = m.text) (hn : normal u s = n.text) (hstart : n.start = m.start)
    (hany : m.start ≠ "any".toList) :
    SamePlace (decode u airportCodes regionalCodes s) (decode u airportCodes regionalCodes h) := by
  have hfourth : ∀ k : Name, k.start ≠ "any".toList → pattern4.exec k.text = none := by
    intro k hk
    rw [← Option.not_isSome_iff_eq_none, exec_pattern4]
    exact fun hboth => hk hboth.1
  unfold decode pattern1 pattern2 pattern3
  simp only [hm, hn, exec_server unambiguous_head1, exec_server unambiguous_head2, exec_server unambiguous_head3, hstart]
  cases head1.exec m.start with
  | some g =>
    simp only [Option.map_some, Location.at, captured_head (show 1 < 4 by decide), captured_head (show 2 < 4 by decide),
      captured_head (show 3 < 4 by decide)]
    exact ⟨rfl, rfl, rfl, rfl, rfl⟩
  | none =>
    cases head2.exec m.start with
    | some g =>
      simp only [Option.map_some, Option.map_none, Location.at, captured_head (show 1 < 2 by decide)]
      exact ⟨rfl, rfl, rfl, rfl, rfl⟩
    | none =>
      cases head3.exec m.start with
      | some g =>
        simp only [Option.map_some, Option.map_none, Location.at, captured_head (show 2 < 5 by decide),
          captured_head (show 4 < 5 by decide)]
        exact ⟨rfl, rfl, rfl, rfl, rfl⟩
      | none =>
        simp only [Option.map_none, hfourth m hany, hfourth n (hstart ▸ hany)]
        exact ⟨rfl, rfl, rfl, rfl, rfl⟩

/-- With the start `any` a hostname is recognized if its index is decimal. -/
theorem decode_any (hn : normal u h = n.text) (hany : n.start = "any".toList) :
    (decode u airportCodes regionalCodes h).matched = decide (n.base = .decimal) := by
  have h1 : head1.exec "any".toList = none := by decide
  have h2 : head2.exec "any".toList = none := by decide
  have h3 : head3.exec "any".toList = none := by decide
  unfold decode pattern1 pattern2 pattern3
  simp only [hn, exec_server unambiguous_head1, exec_server unambiguous_head2, exec_server unambiguous_head3, hany, h1, h2, h3,
    Option.map_none]
  have hfourth := exec_pattern4 n
  cases hexec : pattern4.exec n.text with
  | some g =>
    rw [hexec] at hfourth
    exact (decide_eq_true (hfourth.1 rfl).2).symm
  | none =>
    rw [hexec] at hfourth
    exact (decide_eq_false fun hbase => Bool.false_ne_true (hfourth.2 ⟨hany, hbase⟩)).symm

end Decode

/-! ## Siblings of names -/

section Sibling

variable {u : CaseData} {h s : Text} {n : Name}

/-- A text that spells a name is a host name of Google's. -/
theorem isHostname_name (hn : normal u h = n.text) : isHostname u h = true := by
  rw [isHostname, hn, List.isSuffixOf_iff_suffix]
  have htext : ∀ dot, n.start ++ "-in-".toList ++ (n.base.letter :: n.digits) ++ ending dot =
      n.start ++ "-in-".toList ++ (n.base.letter :: n.digits) ++ ".1e100.net".toList ++ if dot then ".".toList else [] :=
    fun dot => (List.append_assoc _ _ _).symm
  rw [Name.text, htext, withoutDot]
  generalize n.start ++ "-in-".toList ++ (n.base.letter :: n.digits) = x
  cases n.dot with
  | true =>
    have hdot : ".".toList = ['.'] := rfl
    simp [hdot]
  | false =>
    simp

/-- The sibling pattern matches the names that have a start, and captures their parts. -/
theorem matches_siblingPattern {w : Text} {g : Groups} : Matches siblingPattern w g ↔
    ∃ n : Name, w = n.text ∧ n.HasStart ∧ g = [(1, n.start ++ "-in-".toList)] ++ n.groups 2 ++ [(4, ending n.dot)] := by
  unfold siblingPattern
  constructor
  · intro h
    obtain ⟨_, _, _, _, rfl, rfl, h, hdomain⟩ := matches_append.1 h
    obtain ⟨_, _, _, _, rfl, rfl, hhead, hmarker⟩ := matches_append.1 h
    obtain ⟨_, rfl, hinner⟩ := matches_group.1 hhead
    obtain ⟨start, _, _, _, rfl, rfl, hstart, hin⟩ := matches_append.1 hinner
    obtain ⟨hdots, hleast, -, rfl⟩ := matches_many.1 hstart
    obtain ⟨rfl, rfl⟩ := matches_text.1 hin
    obtain ⟨b, ds, hindex, rfl, rfl⟩ := matches_marker.1 hmarker
    obtain ⟨_, rfl, hending⟩ := matches_group.1 hdomain
    obtain ⟨⟨dot, rfl⟩, rfl⟩ := matches_domain.1 hending
    exact ⟨⟨start, b, ds, dot, hindex⟩, rfl, ⟨List.length_pos_iff.1 hleast, hdots⟩, rfl⟩
  · rintro ⟨n, rfl, ⟨hne, hdots⟩, rfl⟩
    have hmany : Matches (.many isDot 1 none) n.start [] := .many hdots (List.length_pos_iff.2 hne) fun m hm => nomatch hm
    have hin : Matches (.text "-in-".toList) "-in-".toList [] := .text
    have hmarker := (matches_marker (k := 2)).2 ⟨n.base, n.digits, n.isIndex, rfl, rfl⟩
    have hdomain : Matches domain (ending n.dot) [] := matches_domain.2 ⟨⟨n.dot, rfl⟩, rfl⟩
    exact (((hmany.seq hin).group (k := 1)).seq hmarker).seq (hdomain.group (k := 4))

/-- On a name the pattern finds the start, the index and the ending. -/
theorem exec_siblingPattern (hstart : n.HasStart) :
    siblingPattern.exec n.text = some ([(1, n.start ++ "-in-".toList)] ++ n.groups 2 ++ [(4, ending n.dot)]) := by
  obtain ⟨g, hg⟩ := Option.isSome_iff_exists.1 (exec_isSome_iff.2 ⟨_, matches_siblingPattern.2 ⟨n, rfl, hstart, rfl⟩⟩)
  obtain ⟨n', htext, -, hgroups⟩ := matches_siblingPattern.1 (matches_of_exec hg)
  obtain rfl := Name.text_inj htext
  rw [hg, hgroups]

/-- A name that has a start has a sibling when its index fits in a byte. -/
theorem siblingHostname_name (hn : normal u h = n.text) (hstart : n.HasStart) :
    siblingHostname u h = if n.index ≤ 0xff then some n.siblingText else none := by
  unfold siblingHostname
  rw [isHostname_name hn, hn, exec_siblingPattern hstart]
  obtain ⟨start, base, ds, dot, hds⟩ := n
  cases base with
  | decimal =>
    have hnatural : natural 10 ds = some (value 10 ds) := natural_digits (by decide) hds.ne_nil hds.1
    by_cases hlarge : 0xff < value 10 ds
    · simp [Name.groups, hds.ne_nil, hnatural, Name.index, Base.radix, hlarge, Nat.not_le.2 hlarge]
    · simp [Name.groups, hds.ne_nil, hnatural, Name.index, Base.radix, hlarge, Nat.not_lt.1 hlarge, Name.siblingText, Base.other,
        Base.letter, Base.write]
  | hexadecimal =>
    have hnatural : natural 16 ds = some (value 16 ds) := natural_digits (by decide) hds.ne_nil hds.1
    have hsmall : value 16 ds ≤ 0xff := by
      have hlt := (digits_value (b := 16) (by decide) hds.1).1
      have hlength : ds.length = 2 := le_antisymm hds.2.2 hds.2.1
      rw [hlength] at hlt
      exact Nat.lt_succ_iff.1 hlt
    simp [Name.groups, hnatural, Name.index, Base.radix, hsmall, Name.siblingText, Base.other, Base.letter, Base.write]

/-- A hostname with a sibling is one of a name. -/
theorem name_of_sibling (hs : siblingHostname u h = some s) :
    ∃ n : Name, normal u h = n.text ∧ n.HasStart ∧ n.index ≤ 0xff ∧ s = n.siblingText := by
  have hfound : (siblingPattern.exec (normal u h)).isSome = true := by
    unfold siblingHostname at hs
    split at hs
    · cases hs
    · obtain ⟨g, hg, -⟩ := Option.bind_eq_some_iff.1 hs
      rw [hg]
      rfl
  obtain ⟨g, hg⟩ := exec_isSome_iff.1 hfound
  obtain ⟨n, htext, hstart, -⟩ := matches_siblingPattern.1 hg
  rw [siblingHostname_name htext hstart] at hs
  split at hs
  · exact ⟨n, htext, hstart, ‹_›, (Option.some.inj hs).symm⟩
  · cases hs

/-- A plain text in lower case is in lower case in every alphabet. -/
theorem isLower_of_ascii {t : Text} (ht : t.all (fun c => decide (c.toNat < 128) && decide (c.toLower = c)) = true) :
    ∀ c ∈ t, u.IsLower c := by
  intro c hc
  have hboth := List.all_eq_true.1 ht c hc
  rw [Bool.and_eq_true, decide_eq_true_eq, decide_eq_true_eq] at hboth
  exact CaseData.isLower_of_ascii hboth.1 hboth.2

/-- The start of the sibling comes out of `toLowerCase`; the rest of it is ASCII. -/
theorem isLower_of_mem_siblingText (hn : normal u h = n.text) (hindex : n.index ≤ 0xff) : ∀ c ∈ n.siblingText, u.IsLower c := by
  intro c hc
  simp only [Name.siblingText, List.mem_append, List.mem_cons] at hc
  rcases hc with ((hc | hc) | rfl | hc) | hc
  · have hmem : c ∈ n.text := List.mem_append_left _ (List.mem_append_left _ (List.mem_append_left _ hc))
    rw [← hn] at hmem
    exact CaseData.isLower_of_mem (s := JsNumber.trim h) c hmem
  · exact isLower_of_ascii (by decide) c hc
  · exact isLower_of_ascii (t := [n.base.other.letter]) (by cases n.base <;> decide) _ List.mem_cons_self
  · have hdigit := digit_spec n.base.other.radix_spec.2 ((Base.write_spec hindex).1.1 c hc)
    exact CaseData.isLower_of_ascii hdigit.2.2.1 hdigit.2.2.2
  · exact isLower_of_ascii (t := ending n.dot) (by cases n.dot <;> decide) c hc

/-- A sibling's text begins with no space. -/
theorem head_siblingText (hn : normal u h = n.text) (hstart : n.HasStart) : ∀ c ∈ n.siblingText.head?, isSpace c = false := by
  intro c hc
  have hfirst : ∀ r, (n.start ++ r).head? = n.start.head? := by
    intro r
    obtain ⟨d, t, ht⟩ := List.exists_cons_of_ne_nil hstart.1
    rw [ht]
    rfl
  have hsame : n.siblingText.head? = (normal u h).head? := by
    rw [hn, Name.siblingText, Name.text, List.append_assoc, List.append_assoc, hfirst,
      List.append_assoc, List.append_assoc, hfirst]
  rw [hsame] at hc
  exact CaseData.head_toLowerCase (JsCase.head_trim h) c hc

/-- A sibling's text ends with no space. -/
theorem last_siblingText (n : Name) : ∀ c ∈ n.siblingText.getLast?, isSpace c = false := by
  intro c hc
  rw [Name.siblingText, List.getLast?_append] at hc
  cases hd : n.dot <;> rw [hd] at hc <;> cases hc <;> decide

/-- The sibling has no white space at its ends, and it is in lower case. -/
theorem normal_sibling (hn : normal u h = n.text) (hstart : n.HasStart) (hindex : n.index ≤ 0xff) :
    normal u n.siblingText = n.siblingText := by
  rw [normal, JsCase.trim_eq_self (head_siblingText hn hstart) (last_siblingText n),
    CaseData.toLowerCase_eq_self (isLower_of_mem_siblingText hn hindex)]

end Sibling

/-! ## Hostnames -/

section Hostnames

variable (u : CaseData) (airportCodes regionalCodes : Text → Option Place)

/-- A hostname of the servers `any`: nothing after the start has a separator. -/
def IsAny (h : Text) : Prop := ∃ rest, normal u h = "any-in-".toList ++ rest ∧ '-' ∉ rest

/-- Two hostnames name one server, in the two bases. -/
def SameServer (a b : Text) : Prop :=
  ∃ m n : Name, a = m.text ∧ b = n.text ∧ n.start = m.start ∧ n.dot = m.dot ∧ n.base = m.base.other ∧ n.index = m.index

/-- A hostname and another one are siblings: the other one has a sibling, which has the other one as its sibling, they name one
server, and they are decoded alike. -/
structure AreSiblings (h s : Text) : Prop where
  hasSibling : (siblingHostname u s).isSome = true
  again : (siblingHostname u s).bind (siblingHostname u) = some s
  server : SameServer (normal u h) (normal u s)
  place : SamePlace (decode u airportCodes regionalCodes s) (decode u airportCodes regionalCodes h)

variable {u} {airportCodes regionalCodes}

/-- A host name is an any name when its name starts so. -/
theorem isAny_iff {h : Text} {n : Name} (hn : normal u h = n.text) : IsAny u h ↔ n.start = "any".toList := by
  have hany : "any-in-".toList = "any".toList ++ "-in".toList ++ ['-'] := rfl
  have htext : n.text = n.start ++ "-in".toList ++ '-' :: ((n.base.letter :: n.digits) ++ ending n.dot) := by
    have hin : "-in-".toList = "-in".toList ++ ['-'] := rfl
    simp [Name.text, hin]
  have hfree : '-' ∉ (n.base.letter :: n.digits) ++ ending n.dot := by
    intro hmem
    rcases List.mem_append.1 hmem with hin | hin
    · exact n.isIndex.marker_spec.1 hin
    · cases hdot : n.dot <;> rw [hdot] at hin <;> exact absurd hin (by decide)
  constructor
  · rintro ⟨rest, hrest, hno⟩
    rw [hn, htext, hany, List.append_assoc _ ['-'], List.singleton_append] at hrest
    exact List.append_cancel_right (split_last hfree hno hrest).1
  · intro hstart
    refine ⟨(n.base.letter :: n.digits) ++ ending n.dot, ?_, hfree⟩
    rw [hn, htext, hstart, hany, List.append_assoc _ ['-'], List.singleton_append]

/-- A hostname and its sibling are siblings if and only if the servers are not `any`. -/
theorem sibling_agrees_iff {h s : Text} (hs : siblingHostname u h = some s) :
    AreSiblings u airportCodes regionalCodes h s ↔ ¬IsAny u h := by
  obtain ⟨n, hn, hstart, hindex, rfl⟩ := name_of_sibling hs
  have hindex' : (n.sibling hindex).index ≤ 0xff := (n.index_sibling hindex).trans_le hindex
  have hn' : normal u n.siblingText = (n.sibling hindex).text := by rw [normal_sibling hn hstart hindex, Name.text_sibling]
  have hs' : siblingHostname u n.siblingText = some (n.sibling hindex).siblingText := by
    rw [siblingHostname_name hn' hstart, if_pos hindex']
  rw [isAny_iff hn]
  constructor
  · intro hsiblings hany
    have hmatched := hsiblings.place.matched
    rw [decode_any hn hany, decode_any hn' hany] at hmatched
    change decide (n.base.other = .decimal) = decide (n.base = .decimal) at hmatched
    cases hb : n.base <;> rw [hb] at hmatched <;> exact absurd hmatched (by decide)
  · intro hany
    refine ⟨by rw [hs']; rfl, ?_, ⟨n, n.sibling hindex, hn, hn', rfl, rfl, rfl, n.index_sibling hindex⟩, ?_⟩
    · have hn'' : normal u (n.sibling hindex).siblingText = ((n.sibling hindex).sibling hindex').text := by
        rw [normal_sibling hn' hstart hindex', Name.text_sibling]
      have hindex'' : ((n.sibling hindex).sibling hindex').index ≤ 0xff := (Name.index_sibling _ hindex').trans_le hindex'
      rw [hs', Option.bind_some, siblingHostname_name hn'' hstart, if_pos hindex'', n.siblingText_sibling_sibling hindex hindex']
    · exact decode_samePlace hn hn' rfl hany

/-- A server in Dallas. -/
theorem sibling_agrees_iff_dfw : AreSiblings JsCase.asciiData
    (fun code => if code = "dfw".toList then some ⟨"Dallas-Fort Worth, TX".toList, "United States".toList⟩ else none)
      (fun _ => none)
    " DFW06s16-in-f31.1e100.net.".toList "dfw06s16-in-x1f.1e100.net.".toList := by
  refine (sibling_agrees_iff (by decide +kernel)).2 ?_
  rintro ⟨rest, hrest, -⟩
  have hnormal : normal JsCase.asciiData " DFW06s16-in-f31.1e100.net.".toList =
    "dfw06s16-in-f31.1e100.net.".toList := by decide +kernel
  rw [hnormal] at hrest
  exact absurd (congrArg List.head? hrest) (by simp)

/-- A server `any` whose decimal index has hexadecimal digits only: the marker counts as one of them. -/
theorem sibling_any : siblingHostname JsCase.asciiData "any-in-f31.1e100.net".toList = some "any-in-x1f.1e100.net".toList ∧
    ¬AreSiblings JsCase.asciiData (fun _ => none)
        (fun _ => none) "any-in-f31.1e100.net".toList "any-in-x1f.1e100.net".toList := by
  refine ⟨by decide +kernel, fun h => ?_⟩
  exact absurd h.place.matched (by decide +kernel)

end Hostnames

end Gwsdb.Web.Geo
