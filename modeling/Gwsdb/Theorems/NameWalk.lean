import Gwsdb.Lib.Rounds
import Gwsdb.Lemmas.DnsWire

/-!
# Walking over a name

The two walks over a name as loops of rounds. Both end within a number of rounds that the length of the message bounds, whatever
the bytes are, and a name that is read ends where it is skipped to.
-/

namespace Gwsdb.Net

open Dns

variable {buf : List UInt8}

/-- One round of the loop of `skipName`. -/
def skipRound (buf : List UInt8) (o : Nat) : Nat ⊕ Nat :=
  if _h : o < buf.length then
    let len := buf[o]
    if len = 0 then .inr (o + 1)
    else if len &&& 0xc0 = 0xc0 then .inr (o + 2)
    else .inl (o + 1 + len.toNat)
  else .inr o

/-- The variables of the loop of `decodeName`. -/
structure NameCursor where
  o : Nat
  labels : List String
  next : Option Nat
  jumps : Nat

/-- The variables before the first round. -/
def NameCursor.start (offset : Nat) : NameCursor := ⟨offset, [], none, 0⟩

/-- One round of the loop of `decodeName`. -/
def decodeRound (buf : List UInt8) (c : NameCursor) : NameCursor ⊕ Except String (List String × Nat) :=
  if _h : c.o < buf.length then
    let len := buf[c.o]
    if len = 0 then .inr (.ok (c.labels, c.next.getD (c.o + 1)))
    else if len &&& 0xc0 = 0xc0 then
      if 20 < c.jumps then .inr (.error "dns: compression pointer loop")
      else
        .inl ⟨(len &&& 0x3f).toNat <<< 8 ||| (buf[c.o + 1]?.getD 0).toNat, c.labels, some (c.next.getD (c.o + 2)), c.jumps + 1⟩
    else .inl ⟨c.o + 1 + len.toNat, c.labels ++ [fromCharCode ((buf.drop (c.o + 1)).take len.toNat)], c.next, c.jumps⟩
  else .inr (.ok (c.labels, c.next.getD c.o))

/-! ## What a round does -/

/-- A round of skipping that goes on has passed a label. -/
theorem skipRound_inl {o o' : Nat} (h : skipRound buf o = .inl o') : o < buf.length ∧ o < o' := by
  unfold skipRound at h
  split at h
  · rename_i ho
    simp only at h
    split at h
    · cases h
    · split at h
      · cases h
      · cases h
        exact ⟨ho, by omega⟩
  · cases h

/-- A round of reading that goes on has passed a label, or followed a pointer where at most twenty were followed before. -/
theorem decodeRound_inl {c c' : NameCursor} (h : decodeRound buf c = .inl c') : c.o < buf.length ∧
    ((c'.jumps = c.jumps ∧ c.o < c'.o ∧ ∀ k, Follows buf c'.o k → Follows buf c.o k) ∨
      (c'.jumps = c.jumps + 1 ∧ c.jumps ≤ 20 ∧ ∀ k, Follows buf c'.o k → Follows buf c.o (k + 1))) := by
  unfold decodeRound at h
  split at h
  · rename_i ho
    simp only at h
    refine ⟨ho, ?_⟩
    have hbyte : buf[c.o]? = some buf[c.o] := List.getElem?_eq_getElem ho
    split at h
    · cases h
    · rename_i hzero
      split at h
      · rename_i hpointer
        split at h
        · cases h
        · cases h
          have hge := (isPointer_iff _).1 hpointer
          refine .inr ⟨rfl, by omega, fun k hk => ?_⟩
          rw [pointee_eq hge] at hk
          exact .pointer hbyte hge hk
      · rename_i hpointer
        cases h
        have hpos := toNat_pos_of_ne_zero hzero
        exact .inl ⟨rfl, by simp only; omega, fun k hk => .label hbyte hpos (toNat_lt_of_not_pointer hpointer) hk⟩
  · cases h

/-- A name is skipped round by round. -/
theorem skipName_skipRound (o : Nat) : skipName buf o = Sum.elim (skipName buf) id (skipRound buf o) := by
  unfold skipRound
  rw [skipName]
  split
  · simp only
    split
    · rfl
    · split <;> rfl
  · rfl

/-- The loop of `decodeName` from the variables of a round on. -/
def NameCursor.read (buf : List UInt8) (c : NameCursor) : Except String (List String × Nat) :=
  decodeLoop buf c.o c.labels c.next c.jumps

/-- A name is read round by round. -/
theorem read_decodeRound (c : NameCursor) : c.read buf = Sum.elim (NameCursor.read buf) id (decodeRound buf c) := by
  unfold decodeRound NameCursor.read
  rw [decodeLoop]
  split
  · simp only
    split
    · rfl
    · split
      · split <;> rfl
      · rfl
  · rfl

/-! ## Both walks end -/

/-- The bytes left to walk over, counted again for each pointer that may still be followed. -/
def NameCursor.left (buf : List UInt8) (c : NameCursor) : Nat := (21 - c.jumps) * (buf.length + 1) + (buf.length - c.o)

/-- A round leaves less to do. -/
theorem left_lt {c c' : NameCursor} (h : decodeRound buf c = .inl c') : c'.left buf < c.left buf := by
  unfold NameCursor.left
  obtain ⟨ho, ⟨hjumps, hlt, -⟩ | ⟨hjumps, hfew, -⟩⟩ := decodeRound_inl h
  · rw [hjumps]
    omega
  · have hsplit : 21 - c.jumps = (21 - c'.jumps) + 1 := by omega
    rw [hsplit, Nat.add_mul]
    omega

/-- Skipping ends within as many rounds as there are bytes, and one. -/
theorem skip_ends (buf : List UInt8) (offset : Nat) :
    Rounds.after (skipRound buf) (buf.length + 1) offset = .inr (skipName buf offset) := by
  refine Rounds.after_eq_of_measure (fun o => buf.length - o) (fun o o' h => ?_) skipName_skipRound (by omega)
  obtain ⟨ho, hlt⟩ := skipRound_inl h
  omega

/-- Reading ends within as many rounds for each pointer that may be followed. -/
theorem read_ends (buf : List UInt8) (offset : Nat) :
    Rounds.after (decodeRound buf) (22 * (buf.length + 1)) (.start offset) = .inr ((NameCursor.start offset).read buf) := by
  refine Rounds.after_eq_of_measure (NameCursor.left buf) (fun c c' h => left_lt h) read_decodeRound ?_
  simp only [NameCursor.left, NameCursor.start]
  omega

/-- What reading has done so far: it followed at most 21 pointers, and the bytes from the offset on lead through them. -/
structure Followed (buf : List UInt8) (offset : Nat) (c : NameCursor) : Prop where
  few : c.jumps ≤ 21
  follows : ∀ k, Follows buf c.o k → Follows buf offset (k + c.jumps)

/-- A round goes on where the name leads. -/
theorem Followed.round {offset : Nat} {c c' : NameCursor} (h : decodeRound buf c = .inl c') (hc : Followed buf offset c) :
    Followed buf offset c' := by
  obtain ⟨-, ⟨hjumps, -, hfollows⟩ | ⟨hjumps, hfew, hfollows⟩⟩ := decodeRound_inl h
  · exact ⟨hjumps ▸ hc.few, fun k hk => hjumps ▸ hc.follows k (hfollows k hk)⟩
  · refine ⟨by omega, fun k hk => ?_⟩
    rw [hjumps, show k + (c.jumps + 1) = k + 1 + c.jumps by omega]
    exact hc.follows (k + 1) (hfollows k hk)

/-- So do many rounds. -/
theorem followed_of_after {offset n : Nat} {c : NameCursor} (h : Rounds.after (decodeRound buf) n (.start offset) = .inl c) :
    Followed buf offset c :=
  Rounds.invariant (fun _ _ => Followed.round) h ⟨Nat.zero_le 21, fun _ hk => hk⟩

/-! ## Both walks end at the same offset -/

/-- A name that is read ends after the first pointer in it, or where it is skipped to. -/
theorem next_of_decodeLoop {o : Nat} {labels : List String} {next : Option Nat} {jumps : Nat} {read : List String × Nat}
    (h : decodeLoop buf o labels next jumps = .ok read) : read.2 = next.getD (skipName buf o) := by
  induction o, labels, next, jumps using decodeLoop.induct buf with
  | case1 o labels next jumps ho len hzero =>
    have hbyte : buf[o]? = some 0 := (List.getElem?_eq_getElem ho).trans (congrArg some hzero)
    rw [decodeLoop_root hbyte] at h
    cases h
    rw [skipName_root hbyte]
  | case2 o labels next jumps ho len _ hpointer hmany =>
    rw [decodeLoop_pointer (List.getElem?_eq_getElem ho) ((isPointer_iff _).1 hpointer), if_pos hmany] at h
    cases h
  | case3 o labels next jumps ho len _ hpointer hfew ih =>
    have hge := (isPointer_iff _).1 hpointer
    rw [decodeLoop_pointer (List.getElem?_eq_getElem ho) hge, if_neg hfew, ← pointee_eq hge] at h
    rw [ih h, skipName_pointer (List.getElem?_eq_getElem ho) hge]
    rfl
  | case4 o labels next jumps ho len hzero hpointer ih =>
    have hlt := toNat_lt_of_not_pointer hpointer
    have hpos := toNat_pos_of_ne_zero hzero
    rw [decodeLoop_label (List.getElem?_eq_getElem ho) hpos hlt] at h
    rw [ih h, skipName_label (List.getElem?_eq_getElem ho) hpos hlt]
  | case5 o labels next jumps ho =>
    rw [decodeLoop_end (by omega)] at h
    cases h
    rw [skipName_end (by omega)]

/-- A name that is read ends where it is skipped to. -/
theorem next_of_decodeName {o : Nat} {read : String × Nat} (h : decodeName buf o = .ok read) : read.2 = skipName buf o := by
  unfold decodeName at h
  cases hloop : decodeLoop buf o [] none 0 with
  | error e =>
    rw [hloop] at h
    cases h
  | ok found =>
    rw [hloop] at h
    cases h
    exact next_of_decodeLoop hloop

/-- Both walks end on every message from every offset. Reading follows at most 21 pointers, throws exactly where the bytes lead
through more, and otherwise ends where skipping does. -/
theorem walks_end (buf : List UInt8) (offset : Nat) :
    Rounds.after (skipRound buf) (buf.length + 1) offset = .inr (skipName buf offset) ∧
      Rounds.after (decodeRound buf) (22 * (buf.length + 1)) (.start offset) = .inr (decodeLoop buf offset [] none 0) ∧
      (∀ n c, Rounds.after (decodeRound buf) n (.start offset) = .inl c → c.jumps ≤ 21 ∧ Follows buf offset c.jumps) ∧
      ((∃ e, decodeName buf offset = .error e) ↔ Follows buf offset 22) ∧
      ∀ name next, decodeName buf offset = .ok (name, next) → next = skipName buf offset := by
  refine ⟨skip_ends buf offset, read_ends buf offset, fun n c h => ?_, decodeName_error_iff offset, fun name next h => ?_⟩
  · have hc := followed_of_after h
    have hfollows := hc.follows 0 (.start c.o)
    rw [Nat.zero_add] at hfollows
    exact ⟨hc.few, hfollows⟩
  · exact next_of_decodeName h

end Gwsdb.Net
