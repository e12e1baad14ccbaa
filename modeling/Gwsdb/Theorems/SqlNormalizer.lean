import Gwsdb.Store.Normalization
import Gwsdb.Theorems.Ipv6Grammar

/-!
# The migration writes what the code writes

The query of the migration takes an accepted text apart into the groups that `expandIPv6` finds, writes each of them as the group
of its number, and cuts the first longest run of zero groups out of the joined text. So the new text of a row is the one
`normalizeIPAddress` gives (`migration_normalizes`).
-/

namespace Gwsdb.Store.Normalization

open SqlText
open Digits
open Gwsdb.Net
open Gwsdb.Scan (rfc5952)
open JsNumber (isDigit isDigit_iff)

/-! ## One group -/

/-- Zeros in front do not count. -/
theorem value_ltrim (b : Nat) (s : Text) : value b (ltrim s "0".toList) = value b s := by
  induction s with
  | nil => rfl
  | cons c s ih =>
    unfold ltrim at ih ⊢
    rw [List.dropWhile_cons]
    split
    · rename_i hc
      have hzero : c = '0' := by simpa using hc
      have hcons := value_append_text b ['0'] s
      rw [hzero, ih, ← List.singleton_append, hcons]
      simp [value, digitValue]
    · rfl

/-- Digits without a zero in front are those of their number. -/
theorem toDigits_value {s : Text} (hs : ∀ c ∈ s, IsDigit 16 c) (hne : s ≠ []) (hhead : s.head? ≠ some '0') :
    Nat.toDigits 16 (value 16 s) = s := by
  obtain ⟨hlt, hdigits⟩ := digits_value (by decide) hs
  have hfilled := leftpad_toDigits (b := 16) (by decide) (by decide) (List.length_pos_iff.2 hne) hlt
  rw [hdigits, List.leftpad] at hfilled
  cases hk : s.length - (Nat.toDigits 16 (value 16 s)).length with
  | zero =>
    rw [hk] at hfilled
    exact hfilled
  | succ k =>
    rw [hk, List.replicate_succ] at hfilled
    exact absurd (by rw [← hfilled]; rfl) hhead

theorem isHex_of_isGroup {g : Text} (h : isGroup g = true) : ∀ c ∈ g, isDigit 16 c = true := by
  unfold isGroup at h
  simp only [Bool.and_eq_true, List.all_eq_true] at h
  exact h.2

/-- A group is written as the hex digits of its number. -/
theorem part_eq {g : Text} (h : isGroup g = true) : part g = Nat.toDigits 16 (value 16 g) := by
  have hhex := isHex_of_isGroup h
  unfold part
  rw [← value_ltrim 16 g]
  split
  · rename_i hnil
    rw [hnil]
    rfl
  · rename_i hne
    have hsub : ∀ c ∈ ltrim g "0".toList, isDigit 16 c = true := fun c hc => hhex c ((List.dropWhile_sublist _).subset hc)
    have hvalue : value 16 (lower (ltrim g "0".toList)) = value 16 (ltrim g "0".toList) := by
      refine value_toLower fun c hc => ?_
      obtain ⟨d, hd, -⟩ := isDigit_iff.1 (hsub c hc)
      rw [hd]
      exact Option.some_ne_none d
    rw [← hvalue]
    refine (toDigits_value (fun c hc => ?_) (by simpa [lower] using hne) fun hhead => ?_).symm
    · obtain ⟨x, hx, rfl⟩ := List.mem_map.1 hc
      obtain ⟨d, hd, hlt⟩ := isDigit_iff.1 (hsub x hx)
      exact ⟨d, hlt, (digitValue_toLower hd).2⟩
    · -- a digit that is zero in lower case is the zero that was taken off
      obtain ⟨x, t, ht⟩ := List.exists_cons_of_ne_nil hne
      have hx := hsub x (by rw [ht]; exact List.mem_cons_self)
      have hzero := ascii_all (P := fun c => c.toLower = '0' → c = '0') (by decide)
      obtain ⟨d, hd, -⟩ := isDigit_iff.1 hx
      rw [ht] at hhead
      have hlower : x.toLower = '0' := by simpa [lower] using hhead
      have hkeep := List.head?_dropWhile_not (fun c => decide (c ∈ "0".toList)) g
      unfold ltrim at ht
      rw [ht, hzero x (toNat_lt_of_digitValue hd) hlower] at hkeep
      simp at hkeep

/-- A group filled up to four digits is the digits of its number, which has sixteen bits. -/
theorem filled_spec {g : Text} (h : isGroup g = true) :
    IsWord (value 16 g) ∧ (g.leftpad 4 '0').map Char.toLower = digits 16 4 (value 16 g) := by
  obtain ⟨hlength, hdigits⟩ := group_digits h
  have hvalue : value 16 ((g.leftpad 4 '0').map Char.toLower) = value 16 g := by
    rw [value_toLower, value_leftpad]
    intro c hc
    rcases List.mem_append.1 hc with hc | hc
    · rw [List.eq_of_mem_replicate hc]
      decide
    · obtain ⟨d, hd, -⟩ := isDigit_iff.1 (isHex_of_isGroup h c hc)
      rw [hd]
      exact Option.some_ne_none d
  obtain ⟨hlt, hfilled⟩ := digits_value (b := 16) (by decide) hdigits
  rw [hlength, hvalue] at hlt hfilled
  exact ⟨hlt, hfilled.symm⟩

/-- An accepted text is one of the grammar, and it is written as RFC 5952 says of the numbers of its groups. -/
theorem accepted_groups {ip : Text} (h : (expandIPv6 ip).isSome = true) : ∃ groups, Ipv6Text ip groups ∧ groups.length = 8 ∧
    (∀ g ∈ groups, isGroup g = true) ∧ normalizeIPAddress ip = some (rfc5952 (groups.map (value 16))) := by
  obtain ⟨hex, hhex⟩ := Option.isSome_iff_exists.1 h
  have hexpand := hhex
  unfold expandIPv6 at hhex
  split at hhex
  · cases hhex
  obtain ⟨groups, hgroups, hhex⟩ := Option.bind_eq_some_iff.1 hhex
  split at hhex
  · rename_i hall
    rw [List.all_eq_true] at hall
    cases hhex
    refine ⟨groups, ipv6Text_of_groupsOf hgroups fun g hg => isGroup_iff.1 (hall g hg), groupsOf_length hgroups, hall, ?_⟩
    refine normalize_of_expand ?_ fun n hn => ?_
    · rw [hexpand, List.flatMap_map]
      exact congrArg some (List.flatMap_congr fun g hg => (filled_spec (hall g hg)).2)
    · obtain ⟨g, hg, rfl⟩ := List.mem_map.1 hn
      exact (filled_spec (hall g hg)).1
  · cases hhex

/-! ## The groups of a text -/

/-- The position of the first `::` is after the text before it. -/
theorem instr_double (s : Text) : instr s "::".toList = ((cutDouble s).map fun cut => cut.1.length + 1).getD 0 := by
  have hdouble : "::".toList = [':', ':'] := rfl
  rw [hdouble]
  induction s with
  | nil => rfl
  | cons c s ih =>
    rw [instr, cutDouble, ih]
    by_cases hc : c = ':' ∧ s.head? = some ':'
    · obtain ⟨rfl, hs⟩ := hc
      obtain ⟨s', rfl⟩ := List.head?_eq_some_iff.1 hs
      rw [if_pos ⟨s', rfl⟩, if_pos ⟨rfl, rfl⟩]
      rfl
    · have hnot : ¬[':', ':'] <+: c :: s := by
        rintro ⟨r, hr⟩
        cases hr
        exact hc ⟨rfl, rfl⟩
      rw [if_neg hnot, if_neg hc]
      cases cutDouble s <;> simp

/-- The row of an accepted text in `halves` has its groups on both sides. -/
theorem half_of_ipv6Text {ip : Text} {groups : List Text} (h : Ipv6Text ip groups) :
    ∃ before after zeros, HexGroups (before ++ after) ∧ groups = before ++ List.replicate zeros "0".toList ++ after ∧
      (⟨ip, instr ip "::".toList⟩ : Source).half = ⟨ip, [':'].intercalate before, [':'].intercalate after⟩ := by
  cases h with
  | full hex eight =>
    refine ⟨groups, [], 0, by simpa using hex, by simp, ?_⟩
    rw [instr_double, cutDouble_groups hex.areGroups]
    rfl
  | @short before after zeros hex missing eight =>
    have hbefore : HexGroups before := fun g hg => hex g (List.mem_append_left _ hg)
    refine ⟨before, after, zeros, hex, rfl, ?_⟩
    have hcut : cutDouble ([':'].intercalate before ++ "::".toList ++ [':'].intercalate after) =
        some ([':'].intercalate before, [':'].intercalate after) := by
      rw [List.append_assoc, cutDouble_intercalate hbefore.areGroups]
      simp [cutDouble]
    rw [instr_double, hcut]
    simp [Source.half, substr, substrFrom]

theorem isPlain_of_hexGroups {gs : List Text} (h : HexGroups gs) : ∀ c ∈ [':'].intercalate gs, IsPlain c := by
  have hall : "0123456789abcdefABCDEF".toList.all (fun c => decide (IsPlain c)) = true := by decide
  intro c hc
  by_cases hcolon : c = ':'
  · rw [hcolon]
    decide
  · obtain ⟨g, hg, hin⟩ := mem_of_mem_intercalate hc hcolon
    simpa using List.all_eq_true.1 hall c ((h g hg).2.2 c hin)

/-- The JSON array of a half has its groups. -/
theorem jsonStrings_groupsJson {gs : List Text} (h : HexGroups gs) :
    jsonStrings (groupsJson ([':'].intercalate gs)) = some gs := by
  have hparts := parts_groups h.areGroups
  unfold groupsJson
  split
  · rename_i hnil
    rw [hnil] at hparts
    rw [← hparts]
    rfl
  · rename_i hne
    rw [parts, if_neg hne] at hparts
    have hstrings := jsonElements_replace (c := ':') (isPlain_of_hexGroups h) []
    rw [hparts] at hstrings
    have hquote : "[\"".toList = ['[', '"'] := rfl
    have hopen : ∀ s, jsonStrings ("[\"".toList ++ s) = jsonElements s [] := fun s => rfl
    rw [hopen]
    refine hstrings.trans ?_
    cases gs <;> simp

/-- The raw groups of an accepted text are its groups. -/
theorem rawGroup_of_half {ip : Text} {before after : List Text} {zeros : Nat} (hex : HexGroups (before ++ after))
    (h8 : (before ++ List.replicate zeros "0".toList ++ after).length = 8) {i : Nat} (hi : i < 8) :
    (⟨ip, [':'].intercalate before, [':'].intercalate after⟩ : Half).arraySize.rawGroup i =
      (before ++ List.replicate zeros "0".toList ++ after)[i]? := by
  have hhead := jsonStrings_groupsJson fun g hg => hex g (List.mem_append_left after hg)
  have htail := jsonStrings_groupsJson fun g hg => hex g (List.mem_append_right before hg)
  simp only [List.length_append, List.length_replicate] at h8
  unfold ArraySize.rawGroup Half.arraySize jsonArrayLength jsonExtract
  simp only [hhead, htail, Option.map_some, Option.bind_some, Option.bind_eq_bind]
  by_cases hfirst : i < before.length
  · rw [if_pos hfirst, List.append_assoc, List.getElem?_append_left hfirst]
  rw [if_neg hfirst]
  by_cases hlast : (8 : Int) - after.length ≤ i
  · have hlen : (before ++ List.replicate zeros "0".toList).length = 8 - after.length := by simp; omega
    have hindex : ((i : Int) - (8 - after.length)).toNat = i - (8 - after.length) := by omega
    rw [if_pos hlast, hindex, List.getElem?_append_right (by omega), hlen]
  · rw [if_neg hlast, List.append_assoc, List.getElem?_append_right (by omega), List.getElem?_append_left (by simp; omega),
      List.getElem?_replicate, if_pos (by omega)]

/-- The groups in the order of their indices. -/
theorem mapM_indices {groups : List Text} (h8 : groups.length = 8) {f : Nat → Option Text} (hf : ∀ i < 8, f i = groups[i]?) :
    (indices.mapM fun i => (f i).map part) = some (groups.map part) := by
  have hsame : ∀ l : List Nat, (∀ i ∈ l, i < 8) → (l.mapM fun i => (f i).map part) = l.mapM fun i => groups[i]?.map part := by
    intro l hl
    induction l with
    | nil => rfl
    | cons i l ih =>
      obtain ⟨hi, hl⟩ := List.forall_mem_cons.1 hl
      rw [List.mapM_cons, List.mapM_cons, ih hl, hf i hi]
  rw [hsame indices (by decide)]
  match groups, h8 with
  | [_, _, _, _, _, _, _, _], _ => rfl

/-! ## The longest run of zeros -/

/-- The patterns are runs of zero groups with colons around them. -/
theorem runs_padded : ∀ r ∈ runs, r.2 = padded ':' (List.replicate r.1 "0".toList) := by decide

/-- Of the runs up to a length the longest one is chosen. -/
theorem longest_pattern : ∀ length ≤ 8,
    ((((runs.filter fun r => r.1 ≤ length).insertionSort fun a b => b.1 ≤ a.1).head?).map (·.2)).getD [] =
      if length < 2 then [] else padded ':' (List.replicate length "0".toList) := by decide

variable {ws : List Text} {start length : Nat}

theorem choose_pattern (hne : ws ≠ []) (hws : ∀ w ∈ ws, ':' ∉ w) (h : Runs.FirstLongest (· = "0".toList) ws start length)
    (hlength : length ≤ 8) : (choose ([':'].intercalate ws)).pattern =
      if length < 2 then [] else padded ':' (List.replicate length "0".toList) := by
  have hpadded : ":".toList ++ [':'].intercalate ws ++ ":".toList = padded ':' ws := padded_of_joined hne
  have hfilter : (runs.filter fun r => 0 < instr (padded ':' ws) r.2) = runs.filter fun r => r.1 ≤ length := by
    refine List.filter_congr fun r hr => ?_
    rw [runs_padded r hr, decide_eq_decide]
    exact instr_run_pos_iff (by decide) hws h
  rw [← longest_pattern length hlength, ← hfilter, ← hpadded]
  rfl

/-- Between the first character and the last one of a part before the pattern. -/
theorem cut_before (c : Char) (x r : Text) :
    (if x.length + 1 = 1 then [] else substr (c :: (x ++ r)) 2 (x.length + 1 - 2)) = x.dropLast := by
  split
  · rename_i hzero
    rw [List.eq_nil_of_length_eq_zero (Nat.succ.inj hzero)]
    rfl
  · rw [substr, substrFrom, List.drop_succ_cons, List.drop_zero, List.dropLast_eq_take, List.take_append_of_le_length (by omega)]
    rfl

/-- After the pattern, but for the last character. -/
theorem cut_after (c : Char) (x run y : Text) :
    (if (c :: (x ++ (run ++ y))).length < x.length + 1 + (c :: run).length then []
      else substr (c :: (x ++ (run ++ y))) (x.length + 1 + (c :: run).length)
        ((c :: (x ++ (run ++ y))).length - (x.length + 1) - (c :: run).length)) = y.dropLast := by
  have hlen : (c :: (x ++ (run ++ y))).length = x.length + 1 + run.length + y.length := by
    simp only [List.length_cons, List.length_append]
    omega
  rw [hlen, List.length_cons]
  split
  · rename_i hend
    rw [List.eq_nil_of_length_eq_zero (show y.length = 0 by omega)]
    rfl
  · have hdrop : (c :: (x ++ (run ++ y))).drop (x.length + 1 + (run.length + 1) - 1) = y := by
      rw [show x.length + 1 + (run.length + 1) - 1 = (x ++ run).length + 1 by simp; omega, List.drop_succ_cons,
        ← List.append_assoc, List.drop_left]
    rw [substr, substrFrom, hdrop, List.dropLast_eq_take]
    congr 1
    omega

/-- The text around the run that is cut out: the groups before it and the groups after it. -/
theorem newIp_eq (hne : ws ≠ []) (hws : ∀ w ∈ ws, ':' ∉ w) (h : Runs.FirstLongest (· = "0".toList) ws start length)
    (hlength : length ≤ 8) : (choose ([':'].intercalate ws)).newIp =
      if length < 2 then [':'].intercalate ws
      else [':'].intercalate (ws.take start) ++ "::".toList ++ [':'].intercalate (ws.drop (start + length)) := by
  have hpattern := choose_pattern hne hws h hlength
  have hpadded : (choose ([':'].intercalate ws)).padded = padded ':' ws := padded_of_joined hne
  unfold Chosen.newIp
  rw [hpattern, hpadded]
  split
  · rfl
  rename_i hlong
  rw [if_neg (show padded ':' (List.replicate length "0".toList) ≠ [] from List.cons_ne_nil _ _)]
  simp only [instr_longest_run (by decide) hws h]
  have hzeros : (ws.drop start).takeWhile (· = "0".toList) = List.replicate length "0".toList := by
    refine List.eq_replicate_iff.2 ⟨h.length_eq, fun w hw => ?_⟩
    simpa using List.all_eq_true.1 List.all_takeWhile w hw
  have hsplit := Runs.split_run (· = "0".toList) ws start
  rw [hzeros, h.length_eq] at hsplit
  have htext : padded ':' ws = ':' :: (closed ':' (ws.take start) ++
      (closed ':' (List.replicate length "0".toList) ++ closed ':' (ws.drop (start + length)))) := by
    rw [padded, ← closed_append, ← closed_append, ← List.append_assoc, hsplit]
  have hpat : padded ':' (List.replicate length "0".toList) = ':' :: closed ':' (List.replicate length "0".toList) := rfl
  rw [htext, hpat, cut_before, cut_after, dropLast_closed, dropLast_closed]

/-- Groups without zeros in front are written anew as RFC 5952 says. -/
theorem newIp_hex {gs : List Nat} (h8 : gs.length = 8) :
    (choose ([':'].intercalate (gs.map (Nat.toDigits 16)))).newIp = rfc5952 gs := by
  have hne : gs.map (Nat.toDigits 16) ≠ [] := by
    rw [ne_eq, List.map_eq_nil_iff]
    rintro rfl
    cases h8
  have hrun := firstLongest_hex gs
  have hlength : (Runs.firstLongest (· = 0) gs).2 ≤ 8 := by
    rw [← (Runs.firstLongest_spec (· = 0) gs).length_eq, ← h8]
    exact (List.takeWhile_sublist _).length_le.trans (List.length_drop ▸ Nat.sub_le _ _)
  rw [newIp_eq hne (fun w hw => (areGroups_hex gs w hw).2) hrun hlength]
  rfl

/-! ## The rows -/

/-- A row among rows with different keys is found by its key. -/
theorem filter_key {α : Type} {key : α → Text} {l : List α} (h : (l.map key).Nodup) {r : α} (hr : r ∈ l) :
    l.filter (fun x => key x = key r) = [r] := by
  induction l with
  | nil => cases hr
  | cons x l ih =>
    rw [List.map_cons, List.nodup_cons] at h
    rcases List.mem_cons.1 hr with rfl | hr
    · have hnone : l.filter (fun x => key x = key r) = [] := by
        refine List.filter_eq_nil_iff.2 fun y hy heq => h.1 ?_
        rw [← of_decide_eq_true heq]
        exact List.mem_map_of_mem hy
      rw [List.filter_cons_of_pos (by simp), hnone]
    · have hx : key x ≠ key r := fun heq => h.1 (heq ▸ List.mem_map_of_mem hr)
      rw [List.filter_cons_of_neg (by simpa using hx), ih h.2 hr]

/-- The groups of a row, among those of rows with other texts, in their order. -/
theorem groups_of_row {rows : List ArraySize} (h : (rows.map (·.oldIp)).Nodup) {r : ArraySize} (hr : r ∈ rows) :
    ((expandedGroups rows).filter fun g => g.oldIp = r.oldIp).insertionSort (fun a b => a.i ≤ b.i) =
      indices.map fun i => ⟨r.oldIp, i, r.rawGroup i⟩ := by
  have hfilter : ∀ rows : List ArraySize, ((expandedGroups rows).filter fun g => g.oldIp = r.oldIp) =
      expandedGroups (rows.filter fun x => x.oldIp = r.oldIp) := by
    intro rows
    induction rows with
    | nil => rfl
    | cons x rows ih =>
      have hcons : ∀ rows, expandedGroups (x :: rows) =
          (indices.map fun i => ⟨x.oldIp, i, x.rawGroup i⟩) ++ expandedGroups rows :=
        fun rows => List.flatMap_cons
      rw [hcons, List.filter_append, ih, List.filter_map]
      by_cases hx : x.oldIp = r.oldIp
      · rw [List.filter_cons_of_pos (by simpa using hx), hcons]
        simp [Function.comp_def, hx]
      · rw [List.filter_cons_of_neg (by simpa using hx)]
        simp [Function.comp_def, hx]
  rw [hfilter, filter_key h hr, expandedGroups, List.flatMap_singleton]
  refine List.Pairwise.insertionSort_eq ?_
  rw [List.pairwise_map]
  show indices.Pairwise fun a b => a ≤ b
  decide

theorem sources_nodup (ips : List Text) : ((sources ips).map (·.oldIp)).Nodup := by
  refine List.Nodup.map_on (fun a ha b hb heq => ?_) (List.nodup_dedup _)
  unfold sources at ha hb
  rw [List.mem_dedup, List.mem_map] at ha hb
  obtain ⟨x, -, rfl⟩ := ha
  obtain ⟨y, -, rfl⟩ := hb
  cases heq
  rfl

/-- The row of an IP with a colon. -/
theorem rows_of_source {ips : List Text} {r : Source} (hr : r ∈ sources ips) :
    (ipv6Normalization ips).filter (fun row => row.1 = r.oldIp) =
      [(r.oldIp, ((indices.mapM fun i => (r.half.arraySize.rawGroup i).map part).map ":".toList.intercalate).map
        fun base => (choose base).newIp)] := by
  have hnodup := sources_nodup ips
  have hkeys : (((sources ips).map fun r => r.half.arraySize).map (·.oldIp)).Nodup := by
    rw [List.map_map]
    exact hnodup
  unfold ipv6Normalization normalizedGroups
  rw [List.map_map, List.map_map, List.filter_map]
  have hkey : (sources ips).filter (fun x => x.oldIp = r.oldIp) = [r] := filter_key hnodup hr
  have hrow := groups_of_row hkeys (List.mem_map_of_mem (f := fun r => r.half.arraySize) hr)
  have hone : (sources ips).filter (fun x => decide (x.half.arraySize.oldIp = r.oldIp)) = [r] := hkey
  simp only [Function.comp_def]
  rw [hone, List.map_singleton, hrow, List.mapM_map]
  rfl

/-- For every accepted IPv6 text among the IPs, the migration has one row, and its new text is the one
`normalizeIPAddress` gives. -/
theorem migration_normalizes {ips : List Text} {ip : Text} (hip : ip ∈ ips) (h : (expandIPv6 ip).isSome = true) :
    (ipv6Normalization ips).filter (fun row => row.1 = ip) = [(ip, normalizeIPAddress ip)] ∧
        (normalizeIPAddress ip).isSome = true := by
  obtain ⟨groups, htext, h8, hgroups, hnormal⟩ := accepted_groups h
  obtain ⟨before, after, zeros, hex, rfl, hhalf⟩ := half_of_ipv6Text htext
  have hsource : (⟨ip, instr ip "::".toList⟩ : Source) ∈ sources ips := by
    unfold sources
    rw [List.mem_dedup]
    refine List.mem_map_of_mem (List.mem_filter.2 ⟨hip, decide_eq_true ?_⟩)
    obtain ⟨hex, hhex⟩ := Option.isSome_iff_exists.1 h
    exact instr_singleton_pos_iff.2 (expandIPv6_spec hhex).2.2
  have hwords : (before ++ List.replicate zeros "0".toList ++ after).map part =
      ((before ++ List.replicate zeros "0".toList ++ after).map (value 16)).map (Nat.toDigits 16) := by
    rw [List.map_map]
    exact List.map_congr_left fun g hg => part_eq (hgroups g hg)
  have hparts := mapM_indices h8 fun i hi => @rawGroup_of_half ip _ _ _ hex h8 i hi
  refine ⟨(rows_of_source hsource).trans ?_, by rw [hnormal]; rfl⟩
  have hnumbers : ((before ++ List.replicate zeros "0".toList ++ after).map (value 16)).length = 8 := by rw [List.length_map, h8]
  have hnew := newIp_hex hnumbers
  rw [hhalf, hparts, hwords, hnormal, ← hnew]
  rfl

example : ipv6Normalization ["2001:DB8::0:0:1".toList, "8.8.8.8".toList] =
    [("2001:DB8::0:0:1".toList, some "2001:db8::1".toList)] := by decide +kernel

/-- An address written in capitals, with a run of zeros that is not the one cut out. -/
theorem migration_normalizes_row : (ipv6Normalization ["2001:DB8:0:0:1::".toList, "8.8.8.8".toList]).filter
    (fun row => row.1 = "2001:DB8:0:0:1::".toList) =
      [("2001:DB8:0:0:1::".toList, normalizeIPAddress "2001:DB8:0:0:1::".toList)] ∧
    (normalizeIPAddress "2001:DB8:0:0:1::".toList).isSome = true :=
  migration_normalizes List.mem_cons_self (by decide +kernel)

end Gwsdb.Store.Normalization
