import Gwsdb.Lib.Chunks
import Gwsdb.Lib.JsNumber
import Mathlib.Data.List.Basic

/-!
# Address texts

`src/ipAddr.ts`: the parsers of IPv4, IPv6 and CIDR texts. A text is a list of characters. Over them, an accepted address is a
number of a family (`addrOf`), and a prefix contains the addresses that agree with it in its leading bits.
-/

namespace Gwsdb.Net

open Digits
open JsNumber (isDigit)

/-! ## Parsing -/

/-- `isIPv4`: four decimal numbers of up to three digits, none above 255. -/
def isIPv4 (s : List Char) : Bool :=
  let octets := s.splitOn '.'
  octets.length = 4 && octets.all fun o => 1 ≤ o.length && o.length ≤ 3 && o.all (isDigit 10) && value 10 o ≤ 255

/-- The text before the first `::` and the text after it. -/
def cutDouble : List Char → Option (List Char × List Char)
  | [] => none
  | c :: s => if c = ':' ∧ s.head? = some ':' then some ([], s.tail) else (cutDouble s).map fun (head, tail) => (c :: head, tail)

/-- The groups between the colons of a text; none of the empty text. -/
def parts (s : List Char) : List (List Char) := if s = [] then [] else s.splitOn ':'

/-- The eight groups of an IPv6 text, a `::` filled up with zeros. A second `::` may begin with the last colon of the first. -/
def groupsOf (ip : List Char) : Option (List (List Char)) :=
  match cutDouble ip with
  | none => if (parts ip).length ≠ 8 then none else some (parts ip)
  | some (head, tail) =>
    if (cutDouble (':' :: tail)).isSome then none
    else if 8 ≤ (parts head).length + (parts tail).length then none
    else some (parts head ++ List.replicate (8 - (parts head).length - (parts tail).length) ['0'] ++ parts tail)

/-- One to four hex digits. -/
def isGroup (g : List Char) : Bool := 1 ≤ g.length && g.length ≤ 4 && g.all (isDigit 16)

/-- `expandIPv6`: the thirty-two lower-case hex digits of an IPv6 text. -/
def expandIPv6 (ip : List Char) : Option (List Char) :=
  if '%' ∈ ip then none
  else (groupsOf ip).bind fun groups =>
    if groups.all isGroup then some (groups.flatMap fun g => (g.leftpad 4 '0').map Char.toLower) else none

/-- `isIPAddress`. -/
def isIPAddress (s : List Char) : Bool := isIPv4 s || (expandIPv6 s).isSome

/-- The first longest run of zero groups from position `i` on, as its start and length, against the best one so far. -/
def longestZeros (groups : List (List Char)) : Nat → Nat → Nat × Nat → Nat × Nat
  | 0, _, best => best
  | fuel + 1, i, best =>
    let run := ((groups.drop i).takeWhile (· = ['0'])).length
    if groups.length ≤ i then best
    else if run = 0 then longestZeros groups fuel (i + 1) best
    else longestZeros groups fuel (i + run) (if best.2 < run then (i, run) else best)

/-- `normalizeIPAddress`: the conventional text of an address, the first longest run of zero groups compressed. -/
def normalizeIPAddress (s : List Char) : Option (List Char) :=
  if isIPv4 s then some s
  else (expandIPv6 s).map fun hex =>
    let groups := (Chunks.chunks 4 hex).map fun g => Nat.toDigits 16 (value 16 g)
    let (bestStart, bestLength) := longestZeros groups groups.length 0 (0, 0)
    if bestLength < 2 then [':'].intercalate groups
    else [':'].intercalate (groups.take bestStart) ++ [':', ':'] ++ [':'].intercalate (groups.drop (bestStart + bestLength))

/-- The number of an IPv4 text. -/
def ipv4Value (ip : List Char) : Nat := (ip.splitOn '.').foldl (fun v octet => v * 256 + value 10 octet) 0

/-- `ipToHex`: an address as thirty-two hex digits, an IPv4 address in the low thirty-two bits. -/
def ipToHex (ip : List Char) : Option (List Char) :=
  if isIPv4 ip then some (digits 16 32 (ipv4Value ip)) else expandIPv6 ip

/-- The text before the last slash and the text after it. -/
def cutSlash : List Char → Option (List Char × List Char)
  | [] => none
  | c :: s => match cutSlash s with
    | some (head, tail) => some (c :: head, tail)
    | none => if c = '/' then some ([], s) else none

/-- `IPRange`: the bounds of a prefix as hex texts, both inclusive. -/
structure IPRange where
  start : List Char
  «end» : List Char
  prefixLen : Nat
  isIPv6 : Bool
  deriving DecidableEq

/-- `prefixToRange`: the addresses of a CIDR text. -/
def prefixToRange (cidr : List Char) : Option IPRange :=
  (cutSlash cidr).bind fun (addr, length) =>
    let isV6 := !isIPv4 addr
    let addrBits : Nat := if isV6 then 128 else 32
    (JsNumber.integer length).bind fun prefixLen =>
      if prefixLen < 0 ∨ addrBits < prefixLen then none
      else (ipToHex addr).map fun hex =>
        let hostBits := addrBits - prefixLen.toNat
        let hostMask := 2 ^ hostBits - 1
        ⟨digits 16 32 (value 16 hex - (value 16 hex &&& hostMask)), digits 16 32 (value 16 hex ||| hostMask),
          prefixLen.toNat, isV6⟩

/-! ## Addresses as numbers -/

/-- An address: its family and its number. -/
structure Addr where
  isIPv6 : Bool
  value : Nat
  deriving DecidableEq

/-- The bits of an address of a family. -/
def width (isIPv6 : Bool) : Nat := if isIPv6 then 128 else 32

/-- The address a text stands for. -/
def addrOf (ip : List Char) : Option Addr :=
  if isIPv4 ip then some ⟨false, ipv4Value ip⟩ else (expandIPv6 ip).map fun hex => ⟨true, value 16 hex⟩

/-- A prefix: the family and number of one of its addresses, and how many leading bits its addresses share. -/
structure Prefix where
  addr : Addr
  len : Nat
  deriving DecidableEq

/-- The addresses of a prefix agree with it in the family and the leading bits. -/
def Prefix.Contains (p : Prefix) (a : Addr) : Prop :=
  p.addr.isIPv6 = a.isIPv6 ∧ a.value / 2 ^ (width a.isIPv6 - p.len) = p.addr.value / 2 ^ (width a.isIPv6 - p.len)

instance (p : Prefix) (a : Addr) : Decidable (p.Contains a) := inferInstanceAs (Decidable (_ ∧ _))

/-- The range of a prefix: the first and the last of its addresses. -/
def Prefix.range (p : Prefix) : IPRange :=
  let size := 2 ^ (width p.addr.isIPv6 - p.len)
  let first := p.addr.value - p.addr.value % size
  ⟨digits 16 32 first, digits 16 32 (first + (size - 1)), p.len, p.addr.isIPv6⟩

/-- A CIDR text and the prefix it spells: an accepted address, a slash, and decimal digits for a length within the address. -/
inductive CidrText : List Char → Prefix → Prop
  | intro {addr len : List Char} {a : Addr} (parsed : addrOf addr = some a) (nonempty : len ≠ [])
      (decimal : ∀ c ∈ len, isDigit 10 c = true) (fits : value 10 len ≤ width a.isIPv6) :
      CidrText (addr ++ '/' :: len) ⟨a, value 10 len⟩

/-- The CIDR text of an address text and a prefix length. -/
def cidr (addr : List Char) (len : Nat) : List Char := addr ++ '/' :: (Nat.repr len).toList

end Gwsdb.Net
