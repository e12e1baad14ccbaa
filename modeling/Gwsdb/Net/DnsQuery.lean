import Gwsdb.Net.DnsWire
import Gwsdb.Net.IpAddr

/-!
# PTR queries

`reverseName` of `src/resolver.ts`, and `encodeQName` and `buildPTRQuery` of `src/dnsWire.ts`. A name is a list of characters, a
message a list of bytes. What throws is an error with the text of what was thrown.
-/

namespace Gwsdb.Net

/-! ## Reverse names -/

/-- `reverseNibblesDotted`. -/
def reverseNibblesDotted (fullHex : List Char) : List Char := ['.'].intercalate (fullHex.reverse.map fun c => [c])

/-- `reverseName`. -/
def reverseName (ip : List Char) : Except String (List Char) :=
  if '.' ∈ ip ∧ ':' ∉ ip then
    let parts := ip.splitOn '.'
    if parts.length ≠ 4 then .error ("invalid IP: " ++ String.ofList ip)
    else .ok (['.'].intercalate parts.reverse ++ ".in-addr.arpa".toList)
  else
    match expandIPv6 ip with
    | none => .error ("invalid IP: " ++ String.ofList ip)
    | some full => .ok (reverseNibblesDotted full ++ ".ip6.arpa".toList)

/-! ## Messages -/

/-- `DataView.setUint16`: two bytes, the highest first. -/
def setUint16 (v : Nat) : List UInt8 := [UInt8.ofNat (v / 256), UInt8.ofNat v]

/-- `encodeQName`: each part after its length, and a zero. -/
def encodeQName (name : List Char) : List UInt8 :=
  ((name.splitOn '.').flatMap fun p =>
    if p.length = 0 then [] else UInt8.ofNat p.length :: p.map fun c => UInt8.ofNat c.toNat) ++ [0]

/-- The message of `buildPTRQuery`: id, flags, counts, name, type and class. -/
def ptrMessage (id : Nat) (name : List Char) : List UInt8 :=
  setUint16 (id &&& 0xffff) ++ setUint16 0x0100 ++ setUint16 1 ++ [0, 0, 0, 0, 0, 0] ++
    encodeQName name ++ setUint16 12 ++ setUint16 1

/-- `buildPTRQuery`: the message after its length. -/
def buildPTRQuery (id : Nat) (ip : List Char) : Except String (List UInt8) := do
  let name ← reverseName ip
  let msg := ptrMessage id name
  return setUint16 msg.length ++ msg

end Gwsdb.Net
