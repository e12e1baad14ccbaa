import Gwsdb.Lib.SqlText
import Mathlib.Data.List.Dedup
import Mathlib.Data.List.Sort

/-!
# The migration of IPv6 texts

The query of `migrations/0011_normalize_ipv6.sql` that fills `ipv6_normalization`, one definition for each of its tables. A text
with a quote, a backslash or a control character makes no JSON array of plain strings: what SQLite does with such a row is left
open, and its columns from there on are none.
-/

namespace Gwsdb.Store.Normalization

open SqlText

/-- A text. -/
abbrev Text := List Char

/-- A row of `sources`. -/
structure Source where
  oldIp : Text
  compressionAt : Nat
  deriving DecidableEq

/-- `sources`: the IPs of `ip_checks` with a colon. -/
def sources (ips : List Text) : List Source :=
  ((ips.filter fun ip => 0 < instr ip ":".toList).map fun ip => ⟨ip, instr ip "::".toList⟩).dedup

/-- A row of `halves`. -/
structure Half where
  oldIp : Text
  head : Text
  tail : Text

/-- `halves`: the text before the first `::` and the text after it. -/
def Source.half (r : Source) : Half where
  oldIp := r.oldIp
  head := if r.compressionAt = 0 then r.oldIp else substr r.oldIp 1 (r.compressionAt - 1)
  tail := if r.compressionAt = 0 then [] else substrFrom r.oldIp (r.compressionAt + 2)

/-- The JSON array of the groups of a half. -/
def groupsJson (half : Text) : Text :=
  if half = [] then "[]".toList else "[\"".toList ++ (replace half ":".toList "\",\"".toList ++ "\"]".toList)

/-- A row of `array_sizes`, with the columns of `arrays`. -/
structure ArraySize where
  oldIp : Text
  headJson : Text
  tailJson : Text
  headCount : Option Nat
  tailCount : Option Nat

/-- `arrays` and `array_sizes`. -/
def Half.arraySize (r : Half) : ArraySize where
  oldIp := r.oldIp
  headJson := groupsJson r.head
  tailJson := groupsJson r.tail
  headCount := jsonArrayLength (groupsJson r.head)
  tailCount := jsonArrayLength (groupsJson r.tail)

/-- `indices`. -/
def indices : List Nat := [0, 1, 2, 3, 4, 5, 6, 7]

/-- A row of `expanded_groups`. -/
structure ExpandedGroup where
  oldIp : Text
  i : Nat
  rawGroup : Option Text

/-- `raw_group`: a group of the head, a group of the tail counted from the end, or a zero between them. -/
def ArraySize.rawGroup (r : ArraySize) (i : Nat) : Option Text := do
  let headCount ← r.headCount
  let tailCount ← r.tailCount
  if i < headCount then jsonExtract r.headJson i
  else if (8 : Int) - tailCount ≤ i then jsonExtract r.tailJson ((i : Int) - (8 - tailCount)).toNat
  else some "0".toList

/-- `expanded_groups`. -/
def expandedGroups (rows : List ArraySize) : List ExpandedGroup :=
  rows.flatMap fun r => indices.map fun i => ⟨r.oldIp, i, r.rawGroup i⟩

/-- A group without zeros in front, in lower case. -/
def part (rawGroup : Text) : Text := if ltrim rawGroup "0".toList = [] then "0".toList else lower (ltrim rawGroup "0".toList)

/-- A row of `normalized_groups`. -/
structure NormalizedGroup where
  oldIp : Text
  base : Option Text

/-- `normalized_groups`: the groups of a text in the order of their indices, joined by `group_concat`. -/
def normalizedGroups (rows : List ArraySize) : List NormalizedGroup :=
  rows.map fun r =>
    let groups := ((expandedGroups rows).filter fun g => g.oldIp = r.oldIp).insertionSort fun a b => a.i ≤ b.i
    ⟨r.oldIp, (groups.mapM fun g : ExpandedGroup => g.rawGroup.map part).map ":".toList.intercalate⟩

/-- `runs`: runs of zero groups, as they stand in a text with colons at both ends. -/
def runs : List (Nat × Text) :=
  [(8, ":0:0:0:0:0:0:0:0:".toList), (7, ":0:0:0:0:0:0:0:".toList), (6, ":0:0:0:0:0:0:".toList), (5, ":0:0:0:0:0:".toList),
    (4, ":0:0:0:0:".toList), (3, ":0:0:0:".toList), (2, ":0:0:".toList)]

/-- A row of `chosen`. -/
structure Chosen where
  base : Text
  padded : Text
  pattern : Text

/-- `chosen`: the longest run that occurs in the text, the empty text if there is none. -/
def choose (base : Text) : Chosen where
  base := base
  padded := ":".toList ++ base ++ ":".toList
  pattern := ((((runs.filter fun r => 0 < instr (":".toList ++ base ++ ":".toList) r.2).insertionSort fun a b =>
    b.1 ≤ a.1).head?).map
    (·.2)).getD []

/-- `new_ip`: the first occurrence of the run cut out. -/
def Chosen.newIp (r : Chosen) : Text :=
  if r.pattern = [] then r.base
  else
    let at' := instr r.padded r.pattern
    (if at' = 1 then [] else substr r.padded 2 (at' - 2)) ++ "::".toList ++
      if r.padded.length < at' + r.pattern.length then []
      else substr r.padded (at' + r.pattern.length) (r.padded.length - at' - r.pattern.length)

/-- The rows of `ipv6_normalization`, the old text and the new one, for the IPs of `ip_checks`. -/
def ipv6Normalization (ips : List Text) : List (Text × Option Text) :=
  (normalizedGroups ((sources ips).map fun r => r.half.arraySize)).map fun r =>
    (r.oldIp, r.base.map fun base => (choose base).newIp)

end Gwsdb.Store.Normalization
