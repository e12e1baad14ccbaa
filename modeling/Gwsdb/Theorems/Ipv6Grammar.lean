import Gwsdb.Lemmas.AddrText

/-!
# What the IPv6 parser accepts

`expandIPv6` looks for the first and the last `::`, cuts and splits the text, and counts the parts. It accepts the texts of a
grammar (`Ipv6Text`): parts that are hex groups put the colons in the right places.
-/

namespace Gwsdb.Net

open Digits
open JsNumber (isDigit isDigit_iff)

/-! ## The grammar -/

/-- A hex digit. -/
def IsHex (c : Char) : Prop := c ∈ "0123456789abcdefABCDEF".toList

/-- Groups of one to four hex digits. -/
def HexGroups (gs : List (List Char)) : Prop := ∀ g ∈ gs, 1 ≤ g.length ∧ g.length ≤ 4 ∧ ∀ c ∈ g, IsHex c

/-- The IPv6 texts without a zone and without a dotted part, and the eight groups each stands for: all eight between colons, or at
most seven with one `::` for the missing ones, which are zero. -/
inductive Ipv6Text : List Char → List (List Char) → Prop
  | full {gs : List (List Char)} (groups : HexGroups gs) (eight : gs.length = 8) : Ipv6Text ([':'].intercalate gs) gs
  | short {before after : List (List Char)} {zeros : Nat} (groups : HexGroups (before ++ after)) (missing : 0 < zeros)
      (eight : before.length + zeros + after.length = 8) :
      Ipv6Text ([':'].intercalate before ++ "::".toList ++ [':'].intercalate after)
        (before ++ List.replicate zeros ['0'] ++ after)

/-- The number of eight groups. -/
def number (gs : List (List Char)) : Nat := gs.foldl (fun v g => v * 2 ^ 16 + value 16 g) 0

/-! ## Reading -/

theorem isDigit_iff_isHex {c : Char} : isDigit 16 c = true ↔ IsHex c := by
  constructor
  · intro h
    obtain ⟨d, hd, -⟩ := isDigit_iff.1 h
    have hall := ascii_all (P := fun c => isDigit 16 c = true → c ∈ "0123456789abcdefABCDEF".toList) (by decide)
    exact hall c (toNat_lt_of_digitValue hd) h
  · have hall : "0123456789abcdefABCDEF".toList.all (isDigit 16) = true := by decide
    exact List.all_eq_true.1 hall c

theorem isHex_zero : IsHex '0' := by
  unfold IsHex
  decide

theorem isGroup_iff {g : List Char} : isGroup g = true ↔ 1 ≤ g.length ∧ g.length ≤ 4 ∧ ∀ c ∈ g, IsHex c := by
  unfold isGroup
  simp only [Bool.and_eq_true, decide_eq_true_eq, List.all_eq_true, isDigit_iff_isHex, and_assoc]

/-- What comes before the first `::` and what comes after it. -/
theorem cutDouble_eq_some {s head tail : List Char} (h : cutDouble s = some (head, tail)) : s = head ++ "::".toList ++ tail := by
  induction s generalizing head with
  | nil => cases h
  | cons c s ih =>
    unfold cutDouble at h
    split at h
    · rename_i hc
      cases s with
      | nil => cases hc.2
      | cons d s =>
        obtain ⟨rfl, hd⟩ := hc
        cases hd
        cases h
        rfl
    · obtain ⟨⟨head', tail'⟩, hcut, heq⟩ := Option.map_eq_some_iff.1 h
      cases heq
      rw [ih hcut]
      rfl

/-- Joining the parts of a text gives the text. -/
theorem intercalate_parts (s : List Char) : [':'].intercalate (parts s) = s := by
  unfold parts
  split
  · rename_i h
    rw [h]
    rfl
  · exact List.intercalate_splitOn _

theorem HexGroups.areGroups {gs : List (List Char)} (h : HexGroups gs) : AreGroups gs := by
  intro g hg
  obtain ⟨hpos, -, hhex⟩ := h g hg
  refine ⟨fun hnil => ?_, fun hm => absurd (hhex ':' hm) (by unfold IsHex; decide)⟩
  rw [hnil] at hpos
  cases hpos

/-- The groups read from a text of the grammar are those it stands for. -/
theorem groupsOf_ipv6Text {s : List Char} {gs : List (List Char)} (h : Ipv6Text s gs) : groupsOf s = some gs := by
  cases h with
  | full groups eight => exact groupsOf_groups groups.areGroups eight
  | @short before after zeros groups missing eight =>
    have hbefore : HexGroups before := fun g hg => groups g (List.mem_append_left _ hg)
    have hafter : HexGroups after := fun g hg => groups g (List.mem_append_right _ hg)
    have hzeros : 8 - before.length - after.length = zeros := by omega
    have hread := groupsOf_double hbefore.areGroups hafter.areGroups (by omega)
    rw [hzeros] at hread
    exact hread

/-- Hex groups read from a text make it one of the grammar. -/
theorem ipv6Text_of_groupsOf {s : List Char} {gs : List (List Char)} (h : groupsOf s = some gs) (hgs : HexGroups gs) :
    Ipv6Text s gs := by
  unfold groupsOf at h
  split at h
  · split at h
    · cases h
    · rename_i height
      cases h
      have htext := Ipv6Text.full hgs (not_not.1 height)
      rwa [intercalate_parts] at htext
  · rename_i head tail hcut
    split at h
    · cases h
    split at h
    · cases h
    · rename_i hlt
      cases h
      have hsub : HexGroups (parts head ++ parts tail) := fun g hg => hgs g (by
        rcases List.mem_append.1 hg with hg | hg
        · exact List.mem_append_left _ (List.mem_append_left _ hg)
        · exact List.mem_append_right _ hg)
      have htext := @Ipv6Text.short (parts head) (parts tail)
        (8 - (parts head).length - (parts tail).length) hsub (by omega) (by omega)
      rw [intercalate_parts, intercalate_parts] at htext
      rwa [cutDouble_eq_some hcut]

/-! ## Accepted texts -/

theorem Ipv6Text.hexGroups {s : List Char} {gs : List (List Char)} (h : Ipv6Text s gs) : HexGroups gs := by
  cases h with
  | full groups eight => exact groups
  | short groups missing eight =>
    intro g hg
    rw [List.mem_append, List.mem_append] at hg
    rcases hg with (hg | hg) | hg
    · exact groups g (List.mem_append_left _ hg)
    · rw [List.eq_of_mem_replicate hg]
      refine ⟨by decide, by decide, fun c hc => ?_⟩
      rw [List.mem_singleton.1 hc]
      exact isHex_zero
    · exact groups g (List.mem_append_right _ hg)

/-- There is no zone in a text of the grammar. -/
theorem Ipv6Text.zone_notMem {s : List Char} {gs : List (List Char)} (h : Ipv6Text s gs) : '%' ∉ s := by
  have hjoin : ∀ {hs : List (List Char)}, HexGroups hs → '%' ∉ [':'].intercalate hs := by
    intro hs hhs hm
    obtain ⟨g, hg, hin⟩ := mem_of_mem_intercalate hm (by decide)
    exact absurd ((hhs g hg).2.2 '%' hin) (by unfold IsHex; decide)
  cases h with
  | full groups eight => exact hjoin groups
  | short groups missing eight =>
    rw [List.mem_append, List.mem_append]
    rintro ((hm | hm) | hm)
    · exact hjoin (fun g hg => groups g (List.mem_append_left _ hg)) hm
    · exact absurd hm (by decide)
    · exact hjoin (fun g hg => groups g (List.mem_append_right _ hg)) hm

/-- The filled-up groups are the digits of their number. -/
theorem value_filled {gs : List (List Char)} (h : HexGroups gs) :
    value 16 (gs.flatMap fun g => (g.leftpad 4 '0').map Char.toLower) = number gs := by
  induction gs using List.reverseRecOn with
  | nil => rfl
  | append_singleton gs g ih =>
    have hg := isGroup_iff.2 (h g (by simp))
    have hdigits : ∀ c ∈ g.leftpad 4 '0', digitValue c ≠ none := by
      intro c hc
      rcases List.mem_append.1 hc with hc | hc
      · rw [List.eq_of_mem_replicate hc]
        decide
      · obtain ⟨d, hd, -⟩ := isDigit_iff.1 (isDigit_iff_isHex.2 ((h g (by simp)).2.2 c hc))
        rw [hd]
        exact Option.some_ne_none d
    have hnumber : number (gs ++ [g]) = number gs * 2 ^ 16 + value 16 g := by simp [number]
    rw [List.flatMap_append, List.flatMap_singleton, value_append_text, ih fun g hg => h g (by simp [hg]), (group_digits hg).1,
      value_toLower hdigits, value_leftpad, hnumber]
    rfl

/-- The IPv6 parser accepts exactly the texts of the grammar, and gives the thirty-two digits of their number. -/
theorem expandIPv6_accepts_iff (s hex : List Char) :
    expandIPv6 s = some hex ↔ ∃ gs, Ipv6Text s gs ∧ hex = digits 16 32 (number gs) := by
  have hread : ∀ gs, groupsOf s = some gs → HexGroups gs → '%' ∉ s →
      expandIPv6 s = some (gs.flatMap fun g => (g.leftpad 4 '0').map Char.toLower) := by
    intro gs hgroups hgs hzone
    rw [expandIPv6, if_neg hzone, hgroups, Option.bind_some, if_pos (List.all_eq_true.2 fun g hg => isGroup_iff.2 (hgs g hg))]
  have hdigits : ∀ gs, HexGroups gs → expandIPv6 s = some (gs.flatMap fun g => (g.leftpad 4 '0').map Char.toLower) →
      (gs.flatMap fun g => (g.leftpad 4 '0').map Char.toLower) = digits 16 32 (number gs) := by
    intro gs hgs hexpand
    obtain ⟨hlen, hdig, -⟩ := expandIPv6_spec hexpand
    have hvalue := (digits_value (b := 16) (by decide) hdig).2
    rw [hlen, value_filled hgs] at hvalue
    exact hvalue.symm
  constructor
  · intro hexpand
    have hcopy := hexpand
    unfold expandIPv6 at hcopy
    split at hcopy
    · cases hcopy
    obtain ⟨gs, hgroups, hcopy⟩ := Option.bind_eq_some_iff.1 hcopy
    split at hcopy
    · rename_i hall
      cases hcopy
      have hgs : HexGroups gs := fun g hg => isGroup_iff.1 (List.all_eq_true.1 hall g hg)
      exact ⟨gs, ipv6Text_of_groupsOf hgroups hgs, hdigits gs hgs hexpand⟩
    · cases hcopy
  · rintro ⟨gs, htext, hhex⟩
    have hexpand := hread gs (groupsOf_ipv6Text htext) htext.hexGroups htext.zone_notMem
    rw [hhex, ← hdigits gs htext.hexGroups hexpand]
    exact hexpand

example : expandIPv6 "1:::2".toList = none := by decide +kernel

end Gwsdb.Net
