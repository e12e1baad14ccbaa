import Mathlib.Data.List.Basic
import Mathlib.Tactic

/-!
# DNS messages on the wire

Section 4 of RFC 1035 as relations between a message and its bytes. A name is written as labels up to the empty one, or up to a
pointer to a name that was written before. `WrittenIn` says that a message starts with its header, its questions and its answers;
each name is reached by at most as many pointers as its parameter says. What is written in the first bytes of a message is written
in every cut of it that keeps them.
-/

namespace Dns

/-! ## Numbers -/

/-- The number in `w` bytes, the highest first, or `none` where they end before. -/
def field (w : Nat) (buf : List UInt8) (o : Nat) : Option Nat :=
  if o + w ≤ buf.length then some (((buf.drop o).take w).foldl (fun v b => v * 256 + b.toNat) 0) else none

/-- A field lies in the buffer. -/
theorem field_eq_some {w : Nat} {buf : List UInt8} {o v : Nat} (h : field w buf o = some v) : o + w ≤ buf.length := by
  unfold field at h
  split at h
  · assumption
  · cases h

/-- A number before the cut is read as it was. -/
theorem field_take_of_le {w : Nat} {buf : List UInt8} {o k : Nat} (h : o + w ≤ k) : field w (buf.take k) o = field w buf o := by
  have hbytes : ((buf.take k).drop o).take w = (buf.drop o).take w := by
    rw [List.drop_take, List.take_take, Nat.min_eq_left (by omega)]
  unfold field
  rw [hbytes]
  refine if_congr ?_ rfl rfl
  rw [List.length_take]
  omega

/-- A number that the cut goes through is not there. -/
theorem field_take_of_lt {w : Nat} {buf : List UInt8} {o k : Nat} (h : k < o + w) : field w (buf.take k) o = none := by
  unfold field
  refine if_neg ?_
  rw [List.length_take]
  omega

/-! ## Names -/

/-- A label of a name: one to sixty-three bytes. -/
structure Label where
  bytes : List UInt8
  pos : 0 < bytes.length
  short : bytes.length ≤ 63

/-- The text of a label, a character for each byte. -/
def Label.text (l : Label) : String := String.ofList (l.bytes.map fun b => Char.ofNat b.toNat)

/-- The dotted text of a name. -/
def dotted (name : List Label) : String := ".".intercalate (name.map Label.text)

/-- The offset that the two bytes of a pointer stand for. -/
def pointee (hi lo : UInt8) : Nat := (hi.toNat - 192) * 256 + lo.toNat

/-- The name is written at an offset: after as many pointers, and with the bytes there ending before `next`. -/
inductive NameAt (buf : List UInt8) : Nat → List Label → Nat → Nat → Prop
  | root {o : Nat} : buf[o]? = some 0 → NameAt buf o [] 0 (o + 1)
  | label {o : Nat} {len : UInt8} {l : Label} {name : List Label} {jumps next : Nat} : buf[o]? = some len →
      len.toNat = l.bytes.length → (buf.drop (o + 1)).take l.bytes.length = l.bytes →
      NameAt buf (o + 1 + l.bytes.length) name jumps next → NameAt buf o (l :: name) jumps next
  | pointer {o : Nat} {hi lo : UInt8} {name : List Label} {jumps next : Nat} : buf[o]? = some hi → 192 ≤ hi.toNat →
      buf[o + 1]? = some lo → NameAt buf (pointee hi lo) name jumps next → next ≤ o → NameAt buf o name (jumps + 1) (o + 2)

/-- The bytes from an offset on, read as a name, lead through `n` pointers; a byte that is missing counts as zero. -/
inductive Follows (buf : List UInt8) : Nat → Nat → Prop
  | start (o : Nat) : Follows buf o 0
  | label {o n : Nat} {len : UInt8} : buf[o]? = some len → 0 < len.toNat → len.toNat < 192 → Follows buf (o + 1 + len.toNat) n →
      Follows buf o n
  | pointer {o n : Nat} {hi : UInt8} : buf[o]? = some hi → 192 ≤ hi.toNat →
      Follows buf (pointee hi (buf[o + 1]?.getD 0)) n → Follows buf o (n + 1)

theorem lt_of_getElem?_eq_some {buf : List UInt8} {o : Nat} {b : UInt8} (h : buf[o]? = some b) : o < buf.length :=
  (List.getElem?_eq_some_iff.1 h).1

/-- After a label the pointers are those that follow it. -/
theorem follows_label_iff {buf : List UInt8} {o n : Nat} {len : UInt8} (h : buf[o]? = some len) (hpos : 0 < len.toNat)
    (hlt : len.toNat < 192) : Follows buf o n ↔ Follows buf (o + 1 + len.toNat) n := by
  constructor
  · intro hf
    cases hf with
    | start => exact .start _
    | label hlen _ _ hrest =>
      rw [h] at hlen
      cases hlen
      exact hrest
    | pointer hhi hge _ =>
      rw [h] at hhi
      cases hhi
      omega
  · exact .label h hpos hlt

/-- A pointer is one more than those that follow it. -/
theorem follows_pointer_iff {buf : List UInt8} {o n : Nat} {hi : UInt8} (h : buf[o]? = some hi) (hge : 192 ≤ hi.toNat) :
    Follows buf o (n + 1) ↔ Follows buf (pointee hi (buf[o + 1]?.getD 0)) n := by
  constructor
  · intro hf
    cases hf with
    | label hlen _ hlt _ =>
      rw [h] at hlen
      cases hlen
      omega
    | pointer hhi _ hrest =>
      rw [h] at hhi
      cases hhi
      exact hrest
  · exact .pointer h hge

/-- No pointer follows where a name ends. -/
theorem not_follows {buf : List UInt8} {o n : Nat} (h : ∀ b, buf[o]? = some b → b.toNat = 0) : ¬Follows buf o (n + 1) := by
  intro hf
  cases hf with
  | label hlen hpos _ _ =>
    have hzero := h _ hlen
    omega
  | pointer hhi hge _ =>
    have hzero := h _ hhi
    omega

/-- A name has at least one byte. -/
theorem NameAt.lt_next {buf : List UInt8} {o : Nat} {name : List Label} {jumps next : Nat} (h : NameAt buf o name jumps next) :
    o < next := by
  induction h with
  | root _ => omega
  | label _ _ _ _ ih => omega
  | pointer _ _ _ _ _ _ => omega

/-- A name before the cut is still there: its pointers go back. -/
theorem NameAt.take {buf : List UInt8} {o : Nat} {name : List Label} {jumps next k : Nat} (h : NameAt buf o name jumps next)
    (hk : next ≤ k) : NameAt (buf.take k) o name jumps next := by
  induction h with
  | root h =>
    refine .root ?_
    rw [List.getElem?_take_of_lt (by omega)]
    exact h
  | @label o len l name jumps next hlen hl hbytes hrest ih =>
    have hlt := hrest.lt_next
    refine .label ?_ hl ?_ (ih hk)
    · rw [List.getElem?_take_of_lt (by omega)]
      exact hlen
    · rw [List.drop_take, List.take_take, Nat.min_eq_left (by omega)]
      exact hbytes
  | pointer hhi hge hlo _ hback ih =>
    refine .pointer ?_ hge ?_ (ih (by omega)) hback
    · rw [List.getElem?_take_of_lt (by omega)]
      exact hhi
    · rw [List.getElem?_take_of_lt (by omega)]
      exact hlo

/-! ## Records -/

/-- The type of a PTR record. -/
def typePTR : Nat := 12

/-- What a record holds: the target of a PTR record, or the bytes of one of another type. -/
inductive RData where
  | ptr (target : List Label)
  | other (type : Nat) (notPTR : type ≠ typePTR) (bytes : List UInt8)

/-- The type of a record. -/
def RData.type : RData → Nat
  | .ptr _ => typePTR
  | .other type _ _ => type

structure Question where
  name : List Label
  qtype : Nat
  qclass : Nat

/-- A resource record; `rdlength` is the number of bytes its data takes. -/
structure Record where
  owner : List Label
  rclass : Nat
  ttl : Nat
  rdlength : Nat
  data : RData

structure Message where
  id : Nat
  rcode : Nat
  questions : List Question
  answers : List Record

/-! ## Sections -/

variable (limit : Nat) (buf : List UInt8)

/-- The name is written at an offset, with no more pointers than allowed. -/
def OwnerAt (o : Nat) (name : List Label) (next : Nat) : Prop := ∃ jumps ≤ limit, NameAt buf o name jumps next

/-- The data is written in the bytes from `o` to `next`. -/
def RDataAt (o : Nat) (next : Nat) : RData → Prop
  | .ptr target => OwnerAt limit buf o target next
  | .other _ _ bytes => next ≤ buf.length ∧ (buf.drop o).take bytes.length = bytes ∧ next = o + bytes.length

/-- The question is written in the bytes from `o` to `next`. -/
inductive QuestionAt : Nat → Question → Nat → Prop
  | mk {o n : Nat} {q : Question} : OwnerAt limit buf o q.name n → field 2 buf n = some q.qtype →
      field 2 buf (n + 2) = some q.qclass → QuestionAt o q (n + 4)

/-- The record is written in the bytes from `o` to `next`. -/
inductive RecordAt : Nat → Record → Nat → Prop
  | mk {o n : Nat} {r : Record} : OwnerAt limit buf o r.owner n → field 2 buf n = some r.data.type →
      field 2 buf (n + 2) = some r.rclass → field 4 buf (n + 4) = some r.ttl → field 2 buf (n + 8) = some r.rdlength →
      RDataAt limit buf (n + 10) (n + 10 + r.rdlength) r.data → RecordAt o r (n + 10 + r.rdlength)

/-- Items written one after the other. -/
inductive SectionAt {ι : Type} (At : Nat → ι → Nat → Prop) : Nat → List ι → Nat → Prop
  | nil (o : Nat) : SectionAt At o [] o
  | cons {o n next : Nat} {i : ι} {is : List ι} : At o i n → SectionAt At n is next → SectionAt At o (i :: is) next

/-- The message is written in the bytes, its answers in those before `next`. -/
structure Message.WrittenIn (m : Message) (next : Nat) : Prop where
  id : field 2 buf 0 = some m.id
  rcode : ∃ b, buf[3]? = some b ∧ b.toNat % 16 = m.rcode
  qdcount : field 2 buf 4 = some m.questions.length
  ancount : field 2 buf 6 = some m.answers.length
  nscount : ∃ n, field 2 buf 8 = some n
  arcount : ∃ n, field 2 buf 10 = some n
  sections : ∃ o, SectionAt (QuestionAt limit buf) 12 m.questions o ∧ SectionAt (RecordAt limit buf) o m.answers next

variable {limit buf}

/-- A section is read in two parts. -/
theorem SectionAt.append {ι : Type} {At : Nat → ι → Nat → Prop} {o next : Nat} {is js : List ι}
    (h : SectionAt At o (is ++ js) next) : ∃ n, SectionAt At o is n ∧ SectionAt At n js next := by
  induction is generalizing o with
  | nil => exact ⟨o, .nil o, h⟩
  | cons i is ih =>
    cases h with
    | cons hi his =>
      obtain ⟨n, hleft, hright⟩ := ih his
      exact ⟨n, .cons hi hleft, hright⟩

/-- A section does not end before its start. -/
theorem SectionAt.le {ι : Type} {At : Nat → ι → Nat → Prop} (hAt : ∀ o i n, At o i n → o ≤ n) {o next : Nat} {is : List ι}
    (h : SectionAt At o is next) : o ≤ next := by
  induction h with
  | nil o => exact le_refl o
  | cons hi _ ih => exact (hAt _ _ _ hi).trans ih

/-- An owner name has at least one byte. -/
theorem OwnerAt.lt_next {o next : Nat} {name : List Label} (h : OwnerAt limit buf o name next) : o < next := by
  obtain ⟨_, -, hname⟩ := h
  exact hname.lt_next

/-- It stands in every prefix that holds it. -/
theorem OwnerAt.take {o next : Nat} {name : List Label} (h : OwnerAt limit buf o name next) {k : Nat} (hk : next ≤ k) :
    OwnerAt limit (buf.take k) o name next := by
  obtain ⟨jumps, hle, hname⟩ := h
  exact ⟨jumps, hle, hname.take hk⟩

/-- So does the data of a record. -/
theorem RDataAt.take {o next : Nat} {d : RData} (h : RDataAt limit buf o next d) {k : Nat} (hk : next ≤ k) :
    RDataAt limit (buf.take k) o next d := by
  cases d with
  | ptr target => exact OwnerAt.take h hk
  | other type hne bytes =>
    obtain ⟨hle, hbytes, hnext⟩ := h
    refine ⟨?_, ?_, hnext⟩
    · rw [List.length_take]
      omega
    · rw [List.drop_take, List.take_take, Nat.min_eq_left (by omega)]
      exact hbytes

/-- A question has at least one byte. -/
theorem QuestionAt.lt_next {o next : Nat} {q : Question} (h : QuestionAt limit buf o q next) : o < next := by
  cases h with
  | mk hname _ _ =>
    have hlt := hname.lt_next
    omega

/-- It stands in every prefix that holds it. -/
theorem QuestionAt.take {o next : Nat} {q : Question} (h : QuestionAt limit buf o q next) {k : Nat} (hk : next ≤ k) :
    QuestionAt limit (buf.take k) o q next := by
  cases h with
  | mk hname htype hclass =>
    refine .mk (hname.take (by omega)) ?_ ?_
    · rwa [field_take_of_le (by omega)]
    · rwa [field_take_of_le (by omega)]

/-- A record has at least one byte. -/
theorem RecordAt.lt_next {o next : Nat} {r : Record} (h : RecordAt limit buf o r next) : o < next := by
  cases h with
  | mk hname _ _ _ _ _ =>
    have hlt := hname.lt_next
    omega

/-- It stands in every prefix that holds it. -/
theorem RecordAt.take {o next : Nat} {r : Record} (h : RecordAt limit buf o r next) {k : Nat} (hk : next ≤ k) :
    RecordAt limit (buf.take k) o r next := by
  cases h with
  | mk hname htype hclass httl hlen hdata =>
    refine .mk (hname.take (by omega)) ?_ ?_ ?_ ?_ (hdata.take hk)
    · rwa [field_take_of_le (by omega)]
    · rwa [field_take_of_le (by omega)]
    · rwa [field_take_of_le (by omega)]
    · rwa [field_take_of_le (by omega)]

/-- A section before the cut is still there. -/
theorem SectionAt.take {ι : Type} {At At' : Nat → ι → Nat → Prop} {k : Nat} (hlt : ∀ o i n, At o i n → o < n)
    (hAt : ∀ o i n, At o i n → n ≤ k → At' o i n) {o next : Nat} {is : List ι} (h : SectionAt At o is next) (hk : next ≤ k) :
    SectionAt At' o is next := by
  induction h with
  | nil o => exact .nil o
  | cons hi his ih =>
    have hle := his.le fun o i n hi => (hlt o i n hi).le
    exact .cons (hAt _ _ _ hi (hle.trans hk)) (ih hk)

end Dns
