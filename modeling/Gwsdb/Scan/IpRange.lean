import Gwsdb.Lib.Runs
import Mathlib.Tactic

/-!
# Drawing addresses

`internal/scan/iprange.go` and what it uses of Go's `net/netip`: an address is its four or sixteen bytes, and a
prefix is an address with a number of leading bits. `String` prints an address as RFC 5952 says, an IPv4-mapped one
with its last four bytes in decimal.
-/

namespace Gwsdb.Scan

/-! ## `net/netip` -/

/-- `netip.Addr`, without zone. -/
structure Addr where
  bytes : List UInt8
  size : bytes.length = 4 ∨ bytes.length = 16

/-- `Is4`. -/
def Addr.is4 (a : Addr) : Bool := a.bytes.length = 4

/-- `Is4In6`: an address of ::ffff:0:0/96. -/
def Addr.is4In6 (a : Addr) : Bool := a.bytes.length = 16 && a.bytes.take 12 = [0, 0, 0, 0, 0, 0, 0, 0, 0, 0, 0xff, 0xff]

/-- The bytes of an IPv4 address in decimal. -/
def dotted (bytes : List UInt8) : List Char := ['.'].intercalate (bytes.map fun b => Nat.toDigits 10 b.toNat)

/-- The sixteen-bit groups of an IPv6 address. -/
def groups : List UInt8 → List Nat
  | hi :: lo :: bytes => (hi.toNat * 256 + lo.toNat) :: groups bytes
  | _ => []

/-- The text of RFC 5952: groups in hex without zeros in front, the first longest run of zero groups as
`::` unless it is one group. -/
def rfc5952 (gs : List Nat) : List Char :=
  let hex := gs.map (Nat.toDigits 16)
  let (start, length) := Runs.firstLongest (· = 0) gs
  if length < 2 then [':'].intercalate hex
  else [':'].intercalate (hex.take start) ++ [':', ':'] ++ [':'].intercalate (hex.drop (start + length))

/-- `String`. -/
def Addr.string (a : Addr) : List Char :=
  if a.is4 then dotted a.bytes
  else if a.is4In6 then "::ffff:".toList ++ dotted (a.bytes.drop 12)
  else rfc5952 (groups a.bytes)

/-- `netip.Prefix`, a valid one. -/
structure Prefix where
  addr : Addr
  bits : Nat
  bits_le : bits ≤ 8 * addr.bytes.length

/-- A byte with its `n` highest bits set. -/
def leadingBits (n : Nat) : UInt8 := UInt8.ofNat (0xFF <<< (8 - n))

/-- The bytes of an address, all but the first `bits` bits cleared. -/
def maskBytes (bits : Nat) (bytes : List UInt8) : List UInt8 := bytes.mapIdx fun i b => b &&& leadingBits (min 8 (bits - 8 * i))

/-- `Masked`. -/
def Prefix.masked (p : Prefix) : Prefix where
  addr := ⟨maskBytes p.bits p.addr.bytes, by simpa [maskBytes] using p.addr.size⟩
  bits := p.bits
  bits_le := by simpa [maskBytes] using p.bits_le

/-- `Contains`. -/
def Prefix.Contains (p : Prefix) (a : Addr) : Prop :=
  a.bytes.length = p.addr.bytes.length ∧ maskBytes p.bits a.bytes = maskBytes p.bits p.addr.bytes

instance (p : Prefix) (a : Addr) : Decidable (p.Contains a) := inferInstanceAs (Decidable (_ ∧ _))

/-! ## Ranges -/

/-- `IPRangeSource`. -/
structure IPRangeSource where
  v4 : List Prefix
  v6 : List Prefix
  prefixes : List Prefix

/-- `unicode.IsSpace`. -/
def isSpace (c : Char) : Bool :=
  let n := c.toNat
  (9 ≤ n && n ≤ 13) || n == 0x20 || n == 0x85 || n == 0xA0 || n == 0x1680 || (0x2000 ≤ n && n ≤ 0x200A) || n == 0x2028 ||
    n == 0x2029 || n == 0x202F || n == 0x205F || n == 0x3000

/-- `strings.TrimSpace`. -/
def trimSpace (s : List Char) : List Char := ((s.dropWhile isSpace).reverse.dropWhile isSpace).reverse

/-- A line of a range file. What `netip.ParsePrefix` accepts is an argument. -/
def loadLine (parsePrefix : List Char → Option Prefix) (src : IPRangeSource) (text : List Char) : IPRangeSource :=
  let line := trimSpace text
  if line = [] ∨ line.head? = some '#' then src
  else match parsePrefix line with
    | none => src
    | some parsed =>
      let p := parsed.masked
      if p.addr.is4 then { src with prefixes := src.prefixes ++ [p], v4 := src.v4 ++ [p] }
      else { src with prefixes := src.prefixes ++ [p], v6 := src.v6 ++ [p] }

/-- A range file: its lines, or the error of opening or reading it. -/
structure RangeFile where
  path : String
  lines : Except String (List (List Char))

/-- `LoadIPRanges`. -/
def LoadIPRanges (parsePrefix : List Char → Option Prefix) (files : List RangeFile) : Except String IPRangeSource := do
  let src ← files.foldlM (fun src file => file.lines.map fun lines => lines.foldl (loadLine parsePrefix) src) ⟨[], [], []⟩
  if src.prefixes.length = 0 then
    .error ("no valid CIDR prefixes loaded from [" ++ " ".intercalate (files.map (·.path)) ++ "]")
  else .ok src

/-- `randomAddrInPrefix`; `draws` are the bytes of `rand.Intn(256)`, one call after the other. -/
def randomAddrInPrefix (p : Prefix) (draws : Nat → UInt8) : Addr :=
  let bits := p.bits
  let firstFullHostByte := (bits + 7) / 8
  let b := p.addr.bytes.mapIdx fun i x => if firstFullHostByte ≤ i then draws (i - firstFullHostByte) else x
  let rem := bits % 8
  if rem ≠ 0 then
    let mask := leadingBits rem
    let drawn := draws (p.addr.bytes.length - firstFullHostByte)
    ⟨b.modify (bits / 8) fun x => (x &&& mask) ||| (drawn &&& ~~~mask), by simpa [b] using p.addr.size⟩
  else ⟨b, by simpa [b] using p.addr.size⟩

/-- `getIP`: the text of a random address of the prefix picked by `rand.Intn`. -/
def IPRangeSource.getIP (src : IPRangeSource) (ipv6 : Bool) (pick : Nat) (draws : Nat → UInt8) : Option (List Char) :=
  ((if ipv6 then src.v6 else src.v4)[pick]?).map fun p => (randomAddrInPrefix p draws).string

end Gwsdb.Scan
