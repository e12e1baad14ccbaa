import Gwsdb.Lib.DnsMessage

/-!
# The DNS decoder

`skipName`, `decodeName` and `parseMessage` of `src/dnsWire.ts`. A message is a list of bytes, a name is read byte by byte from an
offset in it. What throws is an error with the text of what was thrown.
-/

namespace Gwsdb.Net

/-- `DataView.getUint16` and `DataView.getUint32`, for two and four bytes: out of bounds they throw a RangeError. -/
def getUint (w : Nat) (buf : List UInt8) (o : Nat) : Except String Nat :=
  match Dns.field w buf o with
  | some v => .ok v
  | none => .error "Offset is outside the bounds of the DataView"

/-- `skipName`. -/
def skipName (buf : List UInt8) (o : Nat) : Nat :=
  if _h : o < buf.length then
    let len := buf[o]
    if len = 0 then o + 1
    else if len &&& 0xc0 = 0xc0 then o + 2
    else skipName buf (o + 1 + len.toNat)
  else o
termination_by buf.length - o

/-- `String.fromCharCode` of the bytes of a label. -/
def fromCharCode (bytes : List UInt8) : String := String.ofList (bytes.map fun b => Char.ofNat b.toNat)

/-- The loop of `decodeName`: the labels read so far, where the name ends once a pointer was followed, and the pointers followed.
A byte after the end of the message counts as zero. -/
def decodeLoop (buf : List UInt8) (o : Nat) (labels : List String) (next : Option Nat) (jumps : Nat) :
    Except String (List String × Nat) :=
  if _h : o < buf.length then
    let len := buf[o]
    if len = 0 then .ok (labels, next.getD (o + 1))
    else if len &&& 0xc0 = 0xc0 then
      if 20 < jumps then .error "dns: compression pointer loop"
      else
        decodeLoop buf ((len &&& 0x3f).toNat <<< 8 ||| (buf[o + 1]?.getD 0).toNat) labels (some (next.getD (o + 2))) (jumps + 1)
    else decodeLoop buf (o + 1 + len.toNat) (labels ++ [fromCharCode ((buf.drop (o + 1)).take len.toNat)]) next jumps
  else .ok (labels, next.getD o)
termination_by (21 - jumps) * (buf.length + 1) + (buf.length - o)
decreasing_by
  · have hsplit : 21 - jumps = (21 - (jumps + 1)) + 1 := by omega
    rw [hsplit, Nat.add_mul]
    omega
  · omega

/-- `decodeName`. -/
def decodeName (buf : List UInt8) (offset : Nat) : Except String (String × Nat) :=
  (decodeLoop buf offset [] none 0).map fun read => (".".intercalate read.1, read.2)

structure DNSAnswer where
  type : Nat
  ttl : Nat
  data : String
  deriving DecidableEq

structure DNSResponse where
  id : Nat
  rcode : Nat
  answers : List DNSAnswer
  deriving DecidableEq

/-- The loop of `parseMessage` over the questions. -/
def skipQuestions (buf : List UInt8) : Nat → Nat → Nat
  | 0, o => o
  | count + 1, o => skipQuestions buf count (skipName buf o + 4)

/-- The loop of `parseMessage` over the answers. -/
def readAnswers (buf : List UInt8) : Nat → Nat → List DNSAnswer → Except String (List DNSAnswer)
  | 0, _, answers => .ok answers
  | count + 1, start, answers => do
    let o := skipName buf start
    let type ← getUint 2 buf o
    let ttl ← getUint 4 buf (o + 4)
    let rdlength ← getUint 2 buf (o + 8)
    let rdataOffset := o + 10
    if type = 12 then
      let (name, _) ← decodeName buf rdataOffset
      readAnswers buf count (rdataOffset + rdlength) (answers ++ [⟨type, ttl, name⟩])
    else readAnswers buf count (rdataOffset + rdlength) answers

/-- `parseMessage`. -/
def parseMessage (buf : List UInt8) : Except String DNSResponse :=
  if buf.length < 12 then .error "dns: message too short"
  else do
    let id ← getUint 2 buf 0
    let rcode := (buf[3]?.getD 0 &&& 0x0f).toNat
    let qdcount ← getUint 2 buf 4
    let ancount ← getUint 2 buf 6
    let answers ← readAnswers buf ancount (skipQuestions buf qdcount 12) []
    .ok ⟨id, rcode, answers⟩

end Gwsdb.Net
