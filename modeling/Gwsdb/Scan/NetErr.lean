import Mathlib.Data.List.Basic
import Mathlib.Data.String.Basic

/-!
# Errors without the source address

`SanitizeNetErr` of `internal/ingest/ingest.go`: Go's network errors name the local address before an arrow, and that part is
taken out. The regular expression `((?:read|write|dial)\s+(?:tcp|udp|ip[46]?)\s+)\S+->` is spelled out: white space and what is
none of it exclude each other, so that its parts match in one way only, the last one up to the last arrow before white space.
-/

namespace Gwsdb.Scan

/-- `\s`. -/
def isRegexSpace (c : Char) : Bool := c = ' ' || c = '\t' || c = '\n' || c = '\r' || c = '\x0c'

/-- The first of the words that the text starts with, and the text after it. -/
def word (words : List (List Char)) (s : List Char) : Option (List Char × List Char) :=
  (words.find? (·.isPrefixOf s)).map fun w => (w, s.drop w.length)

/-- `\s+`: the white space that the text starts with, and the text after it. -/
def spaces (s : List Char) : Option (List Char × List Char) :=
  if s.takeWhile isRegexSpace = [] then none else some (s.takeWhile isRegexSpace, s.dropWhile isRegexSpace)

/-- The text after the last arrow. -/
def afterArrow : List Char → Option (List Char)
  | [] => none
  | c :: s => (afterArrow s).or (if c = '-' ∧ s.head? = some '>' then some s.tail else none)

/-- `read`, `write` and `dial`. -/
def verbs : List (List Char) := ["read".toList, "write".toList, "dial".toList]

/-- `tcp`, `udp` and `ip[46]?`. -/
def networks : List (List Char) := ["tcp".toList, "udp".toList, "ip4".toList, "ip6".toList, "ip".toList]

/-- `\S+->`: the text after the last arrow of the characters before white space, none of it before the second character. -/
def sourceArrow (s : List Char) : Option (List Char) :=
  (afterArrow (s.takeWhile fun c => !isRegexSpace c).tail).map (· ++ s.dropWhile fun c => !isRegexSpace c)

/-- A match of `netErrSrcAddrRE` where the text starts: its first group, and the text after the match. -/
def matchSrcAddr (s : List Char) : Option (List Char × List Char) := do
  let (verb, s) ← word verbs s
  let (space, s) ← spaces s
  let (network, s) ← word networks s
  let (space', s) ← spaces s
  let rest ← sourceArrow s
  return (verb ++ space ++ network ++ space', rest)

/-- `ReplaceAllString` with the first group; `fuel` bounds the characters that are left. -/
def replaceSrcAddrs : Nat → List Char → List Char
  | 0, s => s
  | _, [] => []
  | fuel + 1, c :: s =>
    match matchSrcAddr (c :: s) with
    | some (kept, rest) => kept ++ replaceSrcAddrs fuel rest
    | none => c :: replaceSrcAddrs fuel s

/-- `SanitizeNetErr`. -/
def sanitizeNetErr (s : String) : String := String.ofList (replaceSrcAddrs s.toList.length s.toList)

end Gwsdb.Scan
