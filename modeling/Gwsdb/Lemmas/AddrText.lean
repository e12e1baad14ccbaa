import Gwsdb.Lemmas.IpAddr
import Gwsdb.Scan.IpRange

/-!
# Printing and parsing addresses

`normalizeIPAddress` reads the text that `netip.Addr.String` prints: the parser finds the groups that were printed, and the text
it writes anew is the one it read. An IPv4-mapped text has a group with dots in it, which the parser refuses.
-/

namespace Gwsdb.Net

open Digits
open JsNumber (isDigit isDigit_iff)
open Gwsdb.Scan (rfc5952 dotted)
open Runs (FirstLongest)

/-! ## Finding the `::` -/

/-- A character that is no colon is in front of the cut. -/
theorem cutDouble_cons_of_ne {c : Char} (hc : c ≠ ':') (s : List Char) :
    cutDouble (c :: s) = (cutDouble s).map fun cut => (c :: cut.1, cut.2) := by
  rw [cutDouble, if_neg (fun h => hc h.1)]

/-- Text without a colon is before the cut. -/
theorem cutDouble_append_of_notMem {h : List Char} (hh : ':' ∉ h) (s : List Char) :
    cutDouble (h ++ s) = (cutDouble s).map fun cut => (h ++ cut.1, cut.2) := by
  induction h with
  | nil =>
    rw [List.nil_append]
    cases cutDouble s <;> rfl
  | cons c h ih =>
    rw [List.mem_cons, not_or] at hh
    rw [List.cons_append, cutDouble_cons_of_ne (Ne.symm hh.1), ih hh.2, Option.map_map]
    rfl

/-- A colon that no colon follows is no `::`. -/
theorem cutDouble_colon {s : List Char} (h : s.head? ≠ some ':') :
    cutDouble (':' :: s) = (cutDouble s).map fun cut => (':' :: cut.1, cut.2) := by
  rw [cutDouble, if_neg (fun hboth => h hboth.2)]

/-- Groups of a text between colons: not empty, and without a colon in them. -/
def AreGroups (hs : List (List Char)) : Prop := ∀ h ∈ hs, h ≠ [] ∧ ':' ∉ h

theorem AreGroups.tail {h : List Char} {hs : List (List Char)} (hall : AreGroups (h :: hs)) : AreGroups hs :=
  fun h' hm => hall h' (List.mem_cons_of_mem _ hm)

/-- Joined groups do not begin with a colon. -/
theorem head?_intercalate_ne {h : List Char} {hs : List (List Char)} (hall : AreGroups (h :: hs)) (s : List Char) :
    ([':'].intercalate (h :: hs) ++ s).head? ≠ some ':' := by
  obtain ⟨hne, hcolon⟩ := hall h List.mem_cons_self
  cases h with
  | nil => exact absurd rfl hne
  | cons c h =>
    rw [List.mem_cons, not_or] at hcolon
    rw [List.intercalate_cons_cons_left, List.cons_append, List.head?_cons]
    exact fun heq => hcolon.1 (Option.some.inj heq).symm

/-- Groups joined by colons are before the cut. -/
theorem cutDouble_intercalate {hs : List (List Char)} (hall : AreGroups hs) (s : List Char) :
    cutDouble ([':'].intercalate hs ++ s) = (cutDouble s).map fun cut => ([':'].intercalate hs ++ cut.1, cut.2) := by
  induction hs with
  | nil =>
    rw [List.intercalate_nil, List.nil_append]
    cases cutDouble s <;> rfl
  | cons h hs ih =>
    have hh := (hall h List.mem_cons_self).2
    cases hs with
    | nil =>
      rw [List.intercalate_singleton]
      exact cutDouble_append_of_notMem hh s
    | cons h' hs =>
      have hrest := ih hall.tail
      rw [List.intercalate_cons_cons, List.append_assoc, List.append_assoc, cutDouble_append_of_notMem hh, List.singleton_append,
        cutDouble_colon (head?_intercalate_ne hall.tail s), hrest, Option.map_map, Option.map_map]
      refine Option.map_congr fun cut _ => ?_
      simp

/-- There is no `::` in joined groups. -/
theorem cutDouble_groups {hs : List (List Char)} (hall : AreGroups hs) : cutDouble ([':'].intercalate hs) = none := by
  have hcut := cutDouble_intercalate hall []
  rw [List.append_nil] at hcut
  rw [hcut]
  rfl

/-- Nor in joined groups after a colon. -/
theorem cutDouble_colon_groups {hs : List (List Char)} (hall : AreGroups hs) :
    cutDouble (':' :: [':'].intercalate hs) = none := by
  cases hs with
  | nil => rfl
  | cons h hs =>
    have hhead := head?_intercalate_ne hall []
    rw [List.append_nil] at hhead
    rw [cutDouble_colon hhead, cutDouble_groups hall]
    rfl

/-- Joined groups are taken apart again. -/
theorem parts_groups {hs : List (List Char)} (hall : AreGroups hs) : parts ([':'].intercalate hs) = hs := by
  cases hs with
  | nil => rfl
  | cons h hs =>
    have hne : [':'].intercalate (h :: hs) ≠ [] := by
      obtain ⟨hne, -⟩ := hall h List.mem_cons_self
      cases h with
      | nil => exact absurd rfl hne
      | cons c h =>
        rw [List.intercalate_cons_cons_left]
        exact List.cons_ne_nil _ _
    rw [parts, if_neg hne]
    exact List.splitOn_intercalate ':' (fun h hm => (hall h hm).2) (List.cons_ne_nil _ _)

/-- Eight joined groups are read. -/
theorem groupsOf_groups {hs : List (List Char)} (hall : AreGroups hs) (h8 : hs.length = 8) :
    groupsOf ([':'].intercalate hs) = some hs := by
  rw [groupsOf, cutDouble_groups hall]
  simp only
  rw [parts_groups hall, if_neg (by omega)]

/-- Groups around a `::` are read, with zeros between them. -/
theorem groupsOf_double {before after : List (List Char)} (hbefore : AreGroups before) (hafter : AreGroups after)
    (hlt : before.length + after.length < 8) :
    groupsOf ([':'].intercalate before ++ [':', ':'] ++ [':'].intercalate after) =
      some (before ++ List.replicate (8 - before.length - after.length) ['0'] ++ after) := by
  have hcut : cutDouble ([':'].intercalate before ++ [':', ':'] ++ [':'].intercalate after) =
      some ([':'].intercalate before, [':'].intercalate after) := by
    rw [List.append_assoc, cutDouble_intercalate hbefore]
    simp [cutDouble]
  rw [groupsOf, hcut]
  simp only
  rw [cutDouble_colon_groups hafter, parts_groups hbefore, parts_groups hafter, if_neg (by simp), if_neg (by omega)]

/-! ## Hex groups -/

/-- A sixteen-bit group. -/
def IsWord (g : Nat) : Prop := g < 16 ^ 4

/-- Hex numerals are groups. -/
theorem areGroups_hex (gs : List Nat) : AreGroups (gs.map (Nat.toDigits 16)) := by
  intro h hm
  obtain ⟨g, -, rfl⟩ := List.mem_map.1 hm
  exact ⟨Nat.toDigits_ne_nil, notMem_toDigits (by decide) (not_isDigit (by decide) (by decide)) g⟩

/-- A hex numeral of two bytes is a group of one to four digits. -/
theorem isGroup_toDigits {g : Nat} (hg : IsWord g) : isGroup (Nat.toDigits 16 g) = true := by
  have hlength : (Nat.toDigits 16 g).length ≤ 4 := (Nat.length_toDigits_le_iff (by decide) (by decide)).2 hg
  have hpos : 0 < (Nat.toDigits 16 g).length := Nat.length_toDigits_pos
  have hdigits : (Nat.toDigits 16 g).all (isDigit 16) = true := by
    refine List.all_eq_true.2 fun c hc => isDigit_iff.2 ?_
    obtain ⟨d, hd, rfl⟩ := isDigit_of_mem_toDigits (by decide) c hc
    exact ⟨d, digitValue_digitChar hd, hd⟩
  unfold isGroup
  simp only [hdigits, Bool.and_true, Bool.and_eq_true, decide_eq_true_eq]
  exact ⟨hpos, hlength⟩

/-- A group is filled up to the four digits of its number. -/
theorem expand_toDigits {g : Nat} (hg : IsWord g) : ((Nat.toDigits 16 g).leftpad 4 '0').map Char.toLower = digits 16 4 g := by
  have hlower : ∀ c ∈ (Nat.toDigits 16 g).leftpad 4 '0', c.toLower = c := by
    intro c hc
    rcases List.mem_append.1 hc with hc | hc
    · rw [List.eq_of_mem_replicate hc]
      rfl
    · obtain ⟨d, hd, rfl⟩ := isDigit_of_mem_toDigits (by decide) c hc
      exact (digitValue_toLower (digitValue_digitChar hd)).2
  rw [List.map_congr_left hlower, List.map_id', leftpad_toDigits (by decide) (by decide) (by decide) hg]

/-- A text of hex groups has digits and colons only. -/
theorem mem_hexText {gs : List Nat} {c : Char} (hc : c ∈ [':'].intercalate (gs.map (Nat.toDigits 16))) :
    c = ':' ∨ IsDigit 16 c := by
  by_cases hcolon : c = ':'
  · exact Or.inl hcolon
  · obtain ⟨h, hm, hin⟩ := mem_of_mem_intercalate hc hcolon
    obtain ⟨g, -, rfl⟩ := List.mem_map.1 hm
    exact Or.inr (isDigit_of_mem_toDigits (by decide) c hin)

/-- A text that is read as the hex groups of some numbers is expanded to their digits. -/
theorem expandIPv6_of_groups {text : List Char} {gs : List Nat} (hgroups : groupsOf text = some (gs.map (Nat.toDigits 16)))
    (hwords : ∀ g ∈ gs, IsWord g) (hchars : ∀ c ∈ text, c = ':' ∨ IsDigit 16 c) : expandIPv6 text =
        some (gs.flatMap (digits 16 4)) := by
  have hzone : '%' ∉ text := by
    intro hm
    rcases hchars '%' hm with heq | hdigit
    · exact absurd heq (by decide)
    · exact not_isDigit (by decide) (by decide) hdigit
  have hall : (gs.map (Nat.toDigits 16)).all isGroup = true := by
    refine List.all_eq_true.2 fun h hm => ?_
    obtain ⟨g, hg, rfl⟩ := List.mem_map.1 hm
    exact isGroup_toDigits (hwords g hg)
  rw [expandIPv6, if_neg hzone, hgroups, Option.bind_some, if_pos hall, List.flatMap_map]
  congr 1
  exact List.flatMap_congr fun g hg => expand_toDigits (hwords g hg)

/-! ## Compressing zeros -/

/-- One step of the search for the longest run of zeros. -/
theorem longestZeros_succ (groups : List (List Char)) (fuel i : Nat) (best : Nat × Nat) :
    longestZeros groups (fuel + 1) i best =
      if groups.length ≤ i then best
      else if Runs.run (· = ['0']) groups i = 0 then longestZeros groups fuel (i + 1) best
      else longestZeros groups fuel (i + Runs.run (· = ['0']) groups i)
        (if best.2 < Runs.run (· = ['0']) groups i then (i, Runs.run (· = ['0']) groups i) else best) := rfl

/-- The loop of `normalizeIPAddress` goes from the end of one run to the next. -/
theorem longestZeros_spec {groups : List (List Char)} {fuel i : Nat} {best : Nat × Nat}
    (h : Runs.Scanned (· = ['0']) groups i best) (hfuel : groups.length ≤ i + fuel) :
    FirstLongest (· = ['0']) groups (longestZeros groups fuel i best).1 (longestZeros groups fuel i best).2 := by
  induction fuel generalizing i best with
  | zero => exact h.finish (by omega)
  | succ fuel ih =>
    rw [longestZeros_succ]
    split
    · exact h.finish ‹_›
    split
    · rename_i hzero
      have hnext := h.next (k := i + 1) fun j hj hlt => by rw [show j = i by omega]
      rw [hzero, if_neg (Nat.not_lt_zero _)] at hnext
      exact ih hnext (by omega)
    · rename_i hpos
      refine ih (h.next fun j hj hlt => ?_) (by omega)
      have hrest := @Runs.run_add _ (· = ['0']) groups i (j - i) (by omega)
      rw [show i + (j - i) = j by omega] at hrest
      omega

/-- The first longest run of zeros among numbers is that of their hex groups. -/
theorem firstLongest_hex (gs : List Nat) :
    FirstLongest (· = ['0']) (gs.map (Nat.toDigits 16)) (Runs.firstLongest (· = 0) gs).1 (Runs.firstLongest (· = 0) gs).2 := by
  have hzero : (fun h => decide (h = ['0'])) ∘ Nat.toDigits 16 = fun g : Nat => decide (g = 0) := by
    funext g
    have hiff : Nat.toDigits 16 g = ['0'] ↔ g = 0 :=
      (toDigits_injective (by decide) (by decide)).eq_iff (a := g) (b := 0)
    simp [hiff]
  rw [Runs.firstLongest_map, hzero]
  exact Runs.firstLongest_spec _ gs

/-- What is expanded to the digits of some groups is written as RFC 5952 says. -/
theorem normalize_of_expand {text : List Char} {gs : List Nat} (h : expandIPv6 text = some (gs.flatMap (digits 16 4)))
    (hwords : ∀ g ∈ gs, IsWord g) : normalizeIPAddress text = some (rfc5952 gs) := by
  have hv6 : isIPv4 text = false := by
    rw [Bool.eq_false_iff]
    exact fun hv4 => colon_notMem_of_isIPv4 hv4 (expandIPv6_spec h).2.2
  have hchunks : (Chunks.chunks 4 (gs.flatMap (digits 16 4))).map (fun g => Nat.toDigits 16 (value 16 g)) =
      gs.map (Nat.toDigits 16) := by
    have hcut : Chunks.chunks 4 (gs.map (digits 16 4)).flatten = gs.map (digits 16 4) := by
      refine Chunks.chunks_flatten_of_length (by decide) fun c hc => ?_
      obtain ⟨g, -, rfl⟩ := List.mem_map.1 hc
      exact digits_length 16 4 g
    rw [List.flatMap_def, hcut, List.map_map]
    refine List.map_congr_left fun g hg => ?_
    rw [Function.comp_apply, value_digits (by decide) (hwords g hg)]
  obtain ⟨hstart, hlength⟩ := (longestZeros_spec Runs.Scanned.start (Nat.zero_add _).ge).unique (firstLongest_hex gs)
  rw [normalizeIPAddress, if_neg (by simp [hv6]), h, Option.map_some]
  simp only [hchunks, hstart, hlength]
  rfl

/-! ## Printed texts -/

/-- The groups of a printed text are found again. -/
theorem groupsOf_rfc5952 {gs : List Nat} (h8 : gs.length = 8) : groupsOf (rfc5952 gs) = some (gs.map (Nat.toDigits 16)) := by
  unfold rfc5952
  simp only
  split
  · exact groupsOf_groups (areGroups_hex gs) (by rw [List.length_map, h8])
  rename_i hlong
  generalize hs : (Runs.firstLongest (· = 0) gs).1 = s
  have hlength := (Runs.firstLongest_spec (· = 0) gs).length_eq
  rw [hs] at hlength
  rw [← hlength] at hlong ⊢
  have hsplit := Runs.split_run (· = 0) gs s
  have hzeros : (gs.drop s).takeWhile (· = 0) = List.replicate (Runs.run (· = 0) gs s) 0 := by
    refine List.eq_replicate_of_mem fun g hg => ?_
    have hzero := List.all_eq_true.1 List.all_takeWhile g hg
    simpa using hzero
  have hsum := congrArg List.length hsplit
  rw [hzeros, h8, List.length_append, List.length_append, List.length_replicate] at hsum
  rw [← List.map_take, ← List.map_drop, groupsOf_double (areGroups_hex _) (areGroups_hex _)
    (by simp only [List.length_map]; omega)]
  rw [List.length_map, List.length_map,
    show 8 - (gs.take s).length - (gs.drop (s + Runs.run (· = 0) gs s)).length = Runs.run (· = 0) gs s by omega]
  conv_rhs => rw [← hsplit, hzeros, List.map_append, List.map_append, List.map_replicate]
  rfl

/-- A printed text consists of hex digits and colons. -/
theorem mem_rfc5952 {gs : List Nat} {c : Char} (hc : c ∈ rfc5952 gs) : c = ':' ∨ IsDigit 16 c := by
  unfold rfc5952 at hc
  simp only at hc
  split at hc
  · exact mem_hexText hc
  · rw [← List.map_take, ← List.map_drop, List.mem_append, List.mem_append] at hc
    rcases hc with (hc | hc) | hc
    · exact mem_hexText hc
    · simp at hc
      exact Or.inl hc
    · exact mem_hexText hc

/-- A printed text is expanded to the digits of its groups. -/
theorem expandIPv6_rfc5952 {gs : List Nat} (h8 : gs.length = 8) (hwords : ∀ g ∈ gs, IsWord g) :
    expandIPv6 (rfc5952 gs) = some (gs.flatMap (digits 16 4)) :=
  expandIPv6_of_groups (groupsOf_rfc5952 h8) hwords fun _ hc => mem_rfc5952 hc

/-- The text of eight groups is the one that `normalizeIPAddress` keeps. -/
theorem normalize_rfc5952 {gs : List Nat} (h8 : gs.length = 8) (hwords : ∀ g ∈ gs, IsWord g) :
    normalizeIPAddress (rfc5952 gs) = some (rfc5952 gs) :=
  normalize_of_expand (expandIPv6_rfc5952 h8 hwords) hwords

/-- Two bytes make a group. -/
theorem groups_length (bytes : List UInt8) : (Scan.groups bytes).length = bytes.length / 2 := by
  induction bytes using Scan.groups.induct with
  | case1 hi lo bytes ih =>
    rw [Scan.groups, List.length_cons, ih, List.length_cons, List.length_cons]
    omega
  | case2 bytes h =>
    rcases bytes with _ | ⟨b, _ | ⟨c, bytes⟩⟩
    · rfl
    · simp [Scan.groups]
    · exact absurd rfl (h b c bytes)

/-- The groups of bytes are numbers of two bytes. -/
theorem isWord_groups (bytes : List UInt8) : ∀ g ∈ Scan.groups bytes, IsWord g := by
  induction bytes using Scan.groups.induct with
  | case1 hi lo bytes ih =>
    intro g hg
    rw [Scan.groups, List.mem_cons] at hg
    rcases hg with rfl | hg
    · have hhi := hi.toNat_lt
      have hlo := lo.toNat_lt
      unfold IsWord
      omega
    · exact ih g hg
  | case2 bytes h =>
    intro g hg
    rw [Scan.groups] at hg
    · cases hg
    · exact h

/-- A byte in decimal is an octet that the parser takes. -/
theorem isOctet_toDigits (b : UInt8) : 1 ≤ (Nat.toDigits 10 b.toNat).length ∧ (Nat.toDigits 10 b.toNat).length ≤ 3 ∧
    (Nat.toDigits 10 b.toNat).all (isDigit 10) = true ∧ value 10 (Nat.toDigits 10 b.toNat) ≤ 255 := by
  have hb := b.toNat_lt
  refine ⟨Nat.length_toDigits_pos, (Nat.length_toDigits_le_iff (by decide) (by decide)).2 (by omega), ?_, ?_⟩
  · refine List.all_eq_true.2 fun c hc => isDigit_iff.2 ?_
    obtain ⟨d, hd, rfl⟩ := isDigit_of_mem_toDigits (by decide) c hc
    exact ⟨d, digitValue_digitChar (by omega), hd⟩
  · rw [value_toDigits (by decide) (by decide)]
    omega

/-- Four bytes in decimal are an IPv4 text. -/
theorem isIPv4_dotted {bytes : List UInt8} (h : bytes.length = 4) : isIPv4 (dotted bytes) = true := by
  have hsplit : (dotted bytes).splitOn '.' = bytes.map fun b => Nat.toDigits 10 b.toNat := by
    refine List.splitOn_intercalate '.' (fun o ho => ?_) ?_
    · obtain ⟨b, -, rfl⟩ := List.mem_map.1 ho
      exact notMem_toDigits (by decide) (not_isDigit (by decide) (by decide)) _
    · rw [← List.length_pos_iff, List.length_map, h]
      decide
  unfold isIPv4
  simp only [hsplit, List.length_map, h, decide_true, Bool.true_and, List.all_map, List.all_eq_true, Function.comp_apply,
    Bool.and_eq_true, decide_eq_true_eq]
  intro b _
  obtain ⟨h₁, h₂, h₃, h₄⟩ := isOctet_toDigits b
  exact ⟨⟨⟨h₁, h₂⟩, List.all_eq_true.1 h₃⟩, h₄⟩

/-- Four bytes are written with dots. -/
theorem dot_mem_dotted {bytes : List UInt8} (h : bytes.length = 4) : '.' ∈ dotted bytes := by
  obtain ⟨a, b, c, d, rfl⟩ := List.length_eq_four.1 h
  simp [dotted, List.intercalate_cons_cons]

/-- An IPv4-mapped text is refused: the part with the dots is no group. -/
theorem normalize_mapped {bytes : List UInt8} (h : bytes.length = 4) :
    normalizeIPAddress ("::ffff:".toList ++ dotted bytes) = none := by
  have hdot := dot_mem_dotted h
  have hcolon := colon_notMem_of_isIPv4 (isIPv4_dotted h)
  have hne : dotted bytes ≠ [] := List.ne_nil_of_mem hdot
  have hafter : AreGroups ["ffff".toList, dotted bytes] := by
    intro g hg
    simp only [List.mem_cons, List.not_mem_nil, or_false] at hg
    rcases hg with rfl | rfl
    · exact ⟨by decide, by decide⟩
    · exact ⟨hne, hcolon⟩
  have htext : "::ffff:".toList ++ dotted bytes =
      [':'].intercalate [] ++ [':', ':'] ++ [':'].intercalate ["ffff".toList, dotted bytes] := by
    simp [List.intercalate_cons_cons]
  have hv6 : isIPv4 ("::ffff:".toList ++ dotted bytes) = false := by
    rw [Bool.eq_false_iff]
    exact fun hv4 => colon_notMem_of_isIPv4 hv4 (by simp)
  have hgroup : isGroup (dotted bytes) = false := by
    rw [Bool.eq_false_iff]
    intro hall
    unfold isGroup at hall
    have hdigit := List.all_eq_true.1 (Bool.and_eq_true_iff.1 hall).2 '.' hdot
    exact absurd hdigit (by decide)
  have hexpand : expandIPv6 ("::ffff:".toList ++ dotted bytes) = none := by
    unfold expandIPv6
    split
    · rfl
    · have hbefore : AreGroups [] := by
        intro g hg
        cases hg
      rw [htext, groupsOf_double hbefore hafter (by simp), Option.bind_some]
      simp [hgroup]
  rw [normalizeIPAddress, hexpand, hv6]
  rfl

/-- The printed text of an address is the one that `normalizeIPAddress` keeps, unless the address is IPv4-mapped. -/
theorem normalize_string (a : Scan.Addr) : normalizeIPAddress a.string = if a.is4In6 then none else some a.string := by
  unfold Scan.Addr.string
  rcases a.size with h4 | h16
  · have hmapped : a.is4In6 = false := by simp [Scan.Addr.is4In6, h4]
    have his4 : a.is4 = true := by simp [Scan.Addr.is4, h4]
    rw [his4, hmapped]
    simp only [if_true, Bool.false_eq_true, if_false]
    rw [normalizeIPAddress, if_pos (isIPv4_dotted h4)]
  · have his4 : a.is4 = false := by simp [Scan.Addr.is4, h16]
    rw [his4]
    simp only [Bool.false_eq_true, if_false]
    cases a.is4In6 with
    | true =>
      simp only [if_true]
      exact normalize_mapped (by rw [List.length_drop, h16])
    | false =>
      simp only [Bool.false_eq_true, if_false]
      exact normalize_rfc5952 (by rw [groups_length, h16]) (isWord_groups a.bytes)

end Gwsdb.Net
