import Gwsdb.Net.DnsWire

/-!
# Reading what is written

`skipName` ends where a written name ends, `decodeName` reads its labels, and it throws exactly where the bytes lead through too
many pointers. `readAnswers` finds the PTR records of a written section.
-/

namespace Gwsdb.Net

open Dns

/-! ## Bytes -/

/-- What holds of the first 256 numbers as bytes holds of every byte. -/
theorem forall_byte {P : UInt8 → Prop} (h : ∀ n < 256, P (UInt8.ofNat n)) (b : UInt8) : P b := by
  have hb := h b.toNat b.toNat_lt
  rwa [UInt8.ofNat_toNat] at hb

/-- The two highest bits are set. -/
theorem isPointer_iff (b : UInt8) : b &&& 0xc0 = 0xc0 ↔ 192 ≤ b.toNat :=
  forall_byte (P := fun b => b &&& 0xc0 = 0xc0 ↔ 192 ≤ b.toNat) (by decide +kernel) b

/-- The lower six bits of a pointer's first byte. -/
theorem toNat_and_0x3f (b : UInt8) : 192 ≤ b.toNat → (b &&& 0x3f).toNat = b.toNat - 192 :=
  forall_byte (P := fun b => 192 ≤ b.toNat → (b &&& 0x3f).toNat = b.toNat - 192) (by decide +kernel) b

/-- The lower four bits of a byte. -/
theorem toNat_and_0x0f (b : UInt8) : (b &&& 0x0f).toNat = b.toNat % 16 :=
  forall_byte (P := fun b => (b &&& 0x0f).toNat = b.toNat % 16) (by decide +kernel) b

/-- The target of a pointer, as the source computes it. -/
theorem pointee_eq {hi : UInt8} (h : 192 ≤ hi.toNat) (lo : UInt8) : (hi &&& 0x3f).toNat <<< 8 ||| lo.toNat = pointee hi lo := by
  rw [← Nat.shiftLeft_add_eq_or_of_lt (by simpa using lo.toNat_lt), toNat_and_0x3f hi h, Nat.shiftLeft_eq]
  rfl

/-! ## Names -/

variable {buf : List UInt8}

/-- A byte without both upper bits is below 192. -/
theorem toNat_lt_of_not_pointer {b : UInt8} (h : ¬b &&& 0xc0 = 0xc0) : b.toNat < 192 := by
  have hge := mt (isPointer_iff b).2 h
  omega

theorem toNat_pos_of_ne_zero {b : UInt8} (h : ¬b = 0) : 0 < b.toNat := by
  rcases Nat.eq_zero_or_pos b.toNat with hzero | hpos
  · exact absurd (UInt8.toNat_inj.1 hzero) h
  · exact hpos

/-- A byte of a prefix of the buffer is a byte of the buffer. -/
theorem getElem?_of_take {k o : Nat} {b : UInt8} (h : (buf.take k)[o]? = some b) : buf[o]? = some b := by
  rw [List.getElem?_take] at h
  split at h
  · exact h
  · cases h

theorem getElem_of_getElem? {o : Nat} {b : UInt8} (h : buf[o]? = some b) : ∃ hlt : o < buf.length, buf[o] = b :=
  List.getElem?_eq_some_iff.1 h

/-- One label, or the end of a name. -/
theorem skipName_label {o : Nat} {len : UInt8} (h : buf[o]? = some len) (hpos : 0 < len.toNat) (hlt : len.toNat < 192) :
    skipName buf o = skipName buf (o + 1 + len.toNat) := by
  obtain ⟨ho, rfl⟩ := getElem_of_getElem? h
  have hzero : buf[o] ≠ 0 := fun h0 => by simp [h0] at hpos
  rw [skipName, dif_pos ho]
  simp only
  rw [if_neg hzero, if_neg (mt (isPointer_iff _).1 (by omega))]

/-- The root label ends a name. -/
theorem skipName_root {o : Nat} (h : buf[o]? = some 0) : skipName buf o = o + 1 := by
  obtain ⟨ho, hzero⟩ := getElem_of_getElem? h
  rw [skipName, dif_pos ho]
  simp only
  rw [if_pos hzero]

/-- A pointer ends a name after two bytes. -/
theorem skipName_pointer {o : Nat} {hi : UInt8} (h : buf[o]? = some hi) (hge : 192 ≤ hi.toNat) : skipName buf o = o + 2 := by
  obtain ⟨ho, rfl⟩ := getElem_of_getElem? h
  have hzero : buf[o] ≠ 0 := fun h0 => by simp [h0] at hge
  rw [skipName, dif_pos ho]
  simp only
  rw [if_neg hzero, if_pos ((isPointer_iff _).2 hge)]

/-- Behind the buffer nothing is skipped. -/
theorem skipName_end {o : Nat} (h : buf.length ≤ o) : skipName buf o = o := by
  rw [skipName, dif_neg (by omega)]

/-- A written name is skipped. -/
theorem skipName_of_nameAt {o : Nat} {name : List Label} {jumps next : Nat} (h : NameAt buf o name jumps next) :
    skipName buf o = next := by
  induction h with
  | root h => exact skipName_root h
  | @label o len l name jumps next hlen hl _ _ ih =>
    have hpos := l.pos
    have hshort := l.short
    rw [skipName_label hlen (by omega) (by omega), hl]
    exact ih
  | pointer hhi hge _ _ _ _ => exact skipName_pointer hhi hge

/-- The decoder goes past a label and keeps its text. -/
theorem decodeLoop_label {o : Nat} {len : UInt8} (h : buf[o]? = some len) (hpos : 0 < len.toNat) (hlt : len.toNat < 192)
    (labels : List String) (next : Option Nat) (jumps : Nat) : decodeLoop buf o labels next jumps =
      decodeLoop buf (o + 1 + len.toNat) (labels ++ [fromCharCode ((buf.drop (o + 1)).take len.toNat)]) next jumps := by
  obtain ⟨ho, rfl⟩ := getElem_of_getElem? h
  have hzero : buf[o] ≠ 0 := fun h0 => by simp [h0] at hpos
  rw [decodeLoop, dif_pos ho]
  simp only
  rw [if_neg hzero, if_neg (mt (isPointer_iff _).1 (by omega))]

/-- At the root the decoder has the name. -/
theorem decodeLoop_root {o : Nat} (h : buf[o]? = some 0) (labels : List String) (next : Option Nat) (jumps : Nat) :
    decodeLoop buf o labels next jumps = .ok (labels, next.getD (o + 1)) := by
  obtain ⟨ho, hzero⟩ := getElem_of_getElem? h
  rw [decodeLoop, dif_pos ho]
  simp only
  rw [if_pos hzero]

/-- At a pointer the decoder jumps, unless it has jumped too often. -/
theorem decodeLoop_pointer {o : Nat} {hi : UInt8} (h : buf[o]? = some hi) (hge : 192 ≤ hi.toNat) (labels : List String)
    (next : Option Nat) (jumps : Nat) : decodeLoop buf o labels next jumps =
      if 20 < jumps then .error "dns: compression pointer loop"
      else decodeLoop buf (pointee hi (buf[o + 1]?.getD 0)) labels (some (next.getD (o + 2))) (jumps + 1) := by
  obtain ⟨ho, rfl⟩ := getElem_of_getElem? h
  have hzero : buf[o] ≠ 0 := fun h0 => by simp [h0] at hge
  rw [decodeLoop, dif_pos ho]
  simp only
  rw [if_neg hzero, if_pos ((isPointer_iff _).2 hge), pointee_eq hge]

/-- Behind the buffer the decoder stops with what it has. -/
theorem decodeLoop_end {o : Nat} (h : buf.length ≤ o) (labels : List String) (next : Option Nat) (jumps : Nat) :
    decodeLoop buf o labels next jumps = .ok (labels, next.getD o) := by
  rw [decodeLoop, dif_neg (by omega)]

/-- A written name is read, when its pointers and those followed before are at most 21. -/
theorem decodeLoop_of_nameAt {o : Nat} {name : List Label} {jumps next : Nat} (h : NameAt buf o name jumps next) {before : Nat}
    (hle : before + jumps ≤ 21) (labels : List String) (after : Option Nat) :
    decodeLoop buf o labels after before = .ok (labels ++ name.map Label.text, after.getD next) := by
  induction h generalizing before labels after with
  | root h =>
    rw [decodeLoop_root h, List.map_nil, List.append_nil]
  | @label o len l name jumps next hlen hl hbytes _ ih =>
    have hpos := l.pos
    have hshort := l.short
    rw [decodeLoop_label hlen (by omega) (by omega), hl, hbytes, ih hle, List.map_cons, List.append_assoc]
    rfl
  | pointer hhi hge hlo _ _ ih =>
    rw [decodeLoop_pointer hhi hge, if_neg (by omega), hlo, Option.getD_some, ih (by omega), Option.getD_some]

/-- A name that stands in the buffer with few enough jumps is decoded. -/
theorem decodeName_of_nameAt {o : Nat} {name : List Label} {jumps next : Nat}
    (h : NameAt buf o name jumps next) (hle : jumps ≤ 21) :
    decodeName buf o = .ok (dotted name, next) := by
  unfold decodeName
  rw [decodeLoop_of_nameAt h (by omega)]
  rfl

/-- Reading a name throws exactly where it leads through more pointers than 21. -/
theorem decodeLoop_error_iff (o : Nat) (labels : List String) (next : Option Nat) {jumps : Nat} (hle : jumps ≤ 21) :
    (∃ e, decodeLoop buf o labels next jumps = .error e) ↔ Follows buf o (22 - jumps) := by
  induction o, labels, next, jumps using decodeLoop.induct buf with
  | case1 o labels next jumps ho len hzero =>
    have hbyte : buf[o]? = some 0 := (List.getElem?_eq_getElem ho).trans (congrArg some hzero)
    rw [decodeLoop_root hbyte, show 22 - jumps = 21 - jumps + 1 by omega]
    have hnone : ¬Follows buf o (21 - jumps + 1) := not_follows fun b hb => by
      rw [hbyte] at hb
      cases hb
      rfl
    simp [hnone]
  | case2 o labels next jumps ho len _ hpointer hmany =>
    have hge := (isPointer_iff _).1 hpointer
    rw [decodeLoop_pointer (List.getElem?_eq_getElem ho) hge, if_pos hmany, show 22 - jumps = 0 + 1 by omega,
      follows_pointer_iff (List.getElem?_eq_getElem ho) hge]
    simp [Follows.start]
  | case3 o labels next jumps ho len _ hpointer hfew ih =>
    have hge := (isPointer_iff _).1 hpointer
    rw [decodeLoop_pointer (List.getElem?_eq_getElem ho) hge, if_neg hfew, show 22 - jumps = 22 - (jumps + 1) + 1 by omega,
      follows_pointer_iff (List.getElem?_eq_getElem ho) hge, ← pointee_eq hge]
    exact ih (by omega)
  | case4 o labels next jumps ho len hzero hpointer ih =>
    have hlt := toNat_lt_of_not_pointer hpointer
    have hpos := toNat_pos_of_ne_zero hzero
    rw [decodeLoop_label (List.getElem?_eq_getElem ho) hpos hlt, follows_label_iff (List.getElem?_eq_getElem ho) hpos hlt]
    exact ih hle
  | case5 o labels next jumps ho =>
    rw [decodeLoop_end (by omega), show 22 - jumps = 21 - jumps + 1 by omega]
    have hnone : ¬Follows buf o (21 - jumps + 1) := not_follows fun b hb => absurd (lt_of_getElem?_eq_some hb) ho
    simp [hnone]

/-- The decoder fails exactly on a name with more jumps than that. -/
theorem decodeName_error_iff (o : Nat) : (∃ e, decodeName buf o = .error e) ↔ Follows buf o 22 := by
  rw [← decodeLoop_error_iff o [] none (Nat.zero_le 21)]
  unfold decodeName
  cases decodeLoop buf o [] none 0 <;> simp [Except.map]

/-! ## Records -/

/-- The answer that a record stands for: of the types, only PTR is decoded. -/
def answerOf (r : Record) : Option DNSAnswer :=
  match r.data with
  | .ptr target => some ⟨12, r.ttl, dotted target⟩
  | .other _ _ _ => none

/-- A field of the buffer is read. -/
theorem getUint_of_field {w o v : Nat} (h : field w buf o = some v) : getUint w buf o = .ok v := by
  unfold getUint
  rw [h]

/-- A field that a cut goes through is not. -/
theorem getUint_take_error {w o k : Nat} (h : k < o + w) : ∃ e, getUint w (buf.take k) o = .error e := by
  unfold getUint
  rw [field_take_of_lt h]
  exact ⟨_, rfl⟩

/-- The owner name of a record is skipped. -/
theorem skipName_of_ownerAt {limit o next : Nat} {name : List Label} (h : OwnerAt limit buf o name next) :
    skipName buf o = next := by
  obtain ⟨_, -, hname⟩ := h
  exact skipName_of_nameAt hname

/-- A record whose fixed fields are `type`, `ttl` and `rdlength`. -/
theorem readAnswers_succ {o n type ttl rdlength : Nat} (hskip : skipName buf o = n) (htype : field 2 buf n = some type)
    (httl : field 4 buf (n + 4) = some ttl) (hlen : field 2 buf (n + 8) = some rdlength)
    (count : Nat) (answers : List DNSAnswer) :
    readAnswers buf (count + 1) o answers =
      if type = 12 then
        (decodeName buf (n + 10)).bind fun read =>
          readAnswers buf count (n + 10 + rdlength) (answers ++ [⟨type, ttl, read.1⟩])
      else readAnswers buf count (n + 10 + rdlength) answers := by
  subst hskip
  rw [readAnswers]
  simp only [getUint_of_field htype, getUint_of_field httl, getUint_of_field hlen]
  rfl

/-- The bytes end before the fixed fields do. -/
theorem readAnswers_short {o k : Nat} (h : k < skipName (buf.take k) o + 10) (count : Nat) (answers : List DNSAnswer) :
    ∃ e, readAnswers (buf.take k) (count + 1) o answers = .error e := by
  rw [readAnswers]
  simp only
  cases htype : getUint 2 (buf.take k) (skipName (buf.take k) o) with
  | error e => exact ⟨e, rfl⟩
  | ok type =>
    cases httl : getUint 4 (buf.take k) (skipName (buf.take k) o + 4) with
    | error e => exact ⟨e, rfl⟩
    | ok ttl =>
      obtain ⟨e, hlen⟩ := @getUint_take_error buf 2 (skipName (buf.take k) o + 8) k h
      rw [hlen]
      exact ⟨e, rfl⟩

/-- Reading a last record throws exactly when it is a PTR record and reading its name does. -/
theorem readAnswers_last_error_iff {o n type ttl rdlength : Nat} (hskip : skipName buf o = n)
    (htype : field 2 buf n = some type) (httl : field 4 buf (n + 4) = some ttl) (hlen : field 2 buf (n + 8) = some rdlength)
    (answers : List DNSAnswer) :
    (∃ e, readAnswers buf 1 o answers = .error e) ↔ type = typePTR ∧ Follows buf (n + 10) 22 := by
  rw [readAnswers_succ hskip htype httl hlen, ← decodeName_error_iff]
  by_cases hptr : type = 12
  · rw [if_pos hptr]
    have hPTR : type = typePTR := hptr
    cases decodeName buf (n + 10) with
    | error e => simp [hPTR, Except.bind]
    | ok read => simp [Except.bind, readAnswers]
  · rw [if_neg hptr]
    have hPTR : type ≠ typePTR := hptr
    simp [hPTR, readAnswers]

/-- A written record is read. -/
theorem readAnswers_of_recordAt {limit o next : Nat} {r : Record} (h : RecordAt limit buf o r next) (hlimit : limit ≤ 21)
    (count : Nat) (answers : List DNSAnswer) :
    readAnswers buf (count + 1) o answers = readAnswers buf count next (answers ++ (answerOf r).toList) := by
  cases h with
  | mk howner htype _ httl hlen hdata =>
    rw [readAnswers_succ (skipName_of_ownerAt howner) htype httl hlen]
    unfold answerOf
    cases hr : r.data with
    | ptr target =>
      rw [hr] at hdata
      obtain ⟨jumps, hle, hname⟩ := hdata
      rw [RData.type, if_pos (show typePTR = 12 from rfl), decodeName_of_nameAt hname (by omega)]
      rfl
    | other type hne bytes =>
      rw [RData.type, if_neg (show ¬type = 12 from hne)]
      simp

/-- The records of a section are read one after the other. -/
theorem readAnswers_of_section {limit o next : Nat} {rs : List Record} (h : SectionAt (RecordAt limit buf) o rs next)
    (hlimit : limit ≤ 21) (count : Nat) (answers : List DNSAnswer) :
    readAnswers buf (rs.length + count) o answers = readAnswers buf count next (answers ++ rs.filterMap answerOf) := by
  induction h generalizing answers with
  | nil o => simp
  | @cons o n next r rs hr _ ih =>
    rw [List.length_cons, Nat.add_right_comm, readAnswers_of_recordAt hr hlimit, ih, List.append_assoc]
    cases hanswer : answerOf r with
    | none => simp [hanswer]
    | some answer => simp [hanswer]

/-- The questions of a section are skipped. -/
theorem skipQuestions_of_section {limit o next : Nat} {qs : List Question} (h : SectionAt (QuestionAt limit buf) o qs next) :
    skipQuestions buf qs.length o = next := by
  induction h with
  | nil o => rfl
  | cons hq _ ih =>
    cases hq with
    | mk hname _ _ =>
      rw [List.length_cons, skipQuestions, skipName_of_ownerAt hname]
      exact ih

/-! ## Cuts -/

/-- In the first bytes of a message a name ends where it did, or not before their end. -/
theorem skipName_take (k o : Nat) : skipName (buf.take k) o = skipName buf o ∨ k ≤ skipName (buf.take k) o := by
  induction o using skipName.induct (buf.take k) with
  | case1 o ho len hzero =>
    have hbyte : (buf.take k)[o]? = some 0 := (List.getElem?_eq_getElem ho).trans (congrArg some hzero)
    have hfull : buf[o]? = some 0 := getElem?_of_take hbyte
    exact Or.inl ((skipName_root hbyte).trans (skipName_root hfull).symm)
  | case2 o ho len _ hpointer =>
    have hge := (isPointer_iff _).1 hpointer
    have hbyte := List.getElem?_eq_getElem ho
    exact Or.inl ((skipName_pointer hbyte hge).trans (skipName_pointer (getElem?_of_take hbyte) hge).symm)
  | case3 o ho len hzero hpointer ih =>
    have hlt := toNat_lt_of_not_pointer hpointer
    have hpos := toNat_pos_of_ne_zero hzero
    have hbyte := List.getElem?_eq_getElem ho
    rw [skipName_label hbyte hpos hlt, skipName_label (getElem?_of_take hbyte) hpos hlt]
    exact ih
  | case4 o ho =>
    rw [List.length_take] at ho
    rw [@skipName_end (buf.take k) o (by rw [List.length_take]; omega)]
    rcases Nat.lt_or_ge o k with hlt | hge
    · exact Or.inl (skipName_end (by omega)).symm
    · exact Or.inr hge

/-- Behind a cut the skipping stays behind it. -/
theorem skipQuestions_past {k o : Nat} (h : k ≤ o) (count : Nat) : k ≤ skipQuestions (buf.take k) count o := by
  induction count generalizing o with
  | zero => exact h
  | succ count ih =>
    refine ih ?_
    rw [skipName_end (by rw [List.length_take]; omega)]
    omega

/-- In a prefix the questions are skipped as in the whole buffer, or the skipping ends behind the cut. -/
theorem skipQuestions_take (k o count : Nat) :
    skipQuestions (buf.take k) count o = skipQuestions buf count o ∨ k ≤ skipQuestions (buf.take k) count o := by
  induction count generalizing o with
  | zero => exact Or.inl rfl
  | succ count ih =>
    rw [skipQuestions, skipQuestions]
    rcases @skipName_take buf k o with hsame | hpast
    · rw [hsame]
      exact ih _
    · exact Or.inr (skipQuestions_past (by omega) count)

/-- A section that is cut before the data of its last record cannot be read. -/
theorem readAnswers_cut {limit o next : Nat} {rs : List Record} (h : SectionAt (RecordAt limit buf) o rs next) {last : Record}
    (hlast : rs.getLast? = some last) {k : Nat} (hk : k + last.rdlength < next) (answers : List DNSAnswer) :
    ∃ e, readAnswers (buf.take k) rs.length o answers = .error e := by
  induction h generalizing answers with
  | nil o => cases hlast
  | @cons o n next r rs hr hrs ih =>
    rw [List.length_cons]
    by_cases hshort : k < skipName (buf.take k) o + 10
    · exact readAnswers_short hshort _ _
    cases hr with
    | mk howner htype hclass httl hlen hdata =>
      rename_i n
      have hskip : skipName (buf.take k) o = n :=
        ((skipName_take k o).resolve_right (by omega)).trans (skipName_of_ownerAt howner)
      rw [hskip] at hshort
      have hrest : ∀ answers, ∃ e, readAnswers (buf.take k) rs.length (n + 10 + r.rdlength) answers = .error e := by
        intro answers
        cases rs with
        | nil =>
          cases hrs
          rw [List.getLast?_singleton] at hlast
          cases hlast
          omega
        | cons r' rs =>
          rw [List.getLast?_cons_cons] at hlast
          exact ih hlast hk answers
      rw [readAnswers_succ hskip (by rwa [field_take_of_le (by omega)]) (by rwa [field_take_of_le (by omega)])
        (by rwa [field_take_of_le (by omega)])]
      split
      · cases decodeName (buf.take k) (n + 10) with
        | error e => exact ⟨e, rfl⟩
        | ok read => exact hrest _
      · exact hrest _

/-! ## Messages -/

/-- Without a header there is no message. -/
theorem parseMessage_short (h : buf.length < 12) : parseMessage buf = .error "dns: message too short" := by
  rw [parseMessage, if_pos h]

/-- The first bytes of a message, when they hold its header. -/
theorem parseMessage_take {limit next : Nat} {m : Message} (h : m.WrittenIn limit buf next) {k : Nat} (hk : 12 ≤ k) :
    parseMessage (buf.take k) =
      (readAnswers (buf.take k) m.answers.length (skipQuestions (buf.take k) m.questions.length 12) []).map fun answers =>
        ⟨m.id, m.rcode, answers⟩ := by
  obtain ⟨_, har⟩ := h.arcount
  have hlength := field_eq_some har
  obtain ⟨b, hb, hrcode⟩ := h.rcode
  have hlong : ¬(buf.take k).length < 12 := by
    rw [List.length_take]
    omega
  have hid : getUint 2 (buf.take k) 0 = .ok m.id := getUint_of_field ((field_take_of_le (by omega)).trans h.id)
  have hqd : getUint 2 (buf.take k) 4 = .ok m.questions.length := getUint_of_field ((field_take_of_le (by omega)).trans h.qdcount)
  have han : getUint 2 (buf.take k) 6 = .ok m.answers.length := getUint_of_field ((field_take_of_le (by omega)).trans h.ancount)
  have hbyte : ((buf.take k)[3]?.getD 0 &&& 0x0f).toNat = m.rcode := by
    rw [List.getElem?_take_of_lt (by omega), hb, Option.getD_some, toNat_and_0x0f, hrcode]
  rw [parseMessage, if_neg hlong]
  simp only [hid, hqd, han, hbyte]
  rfl

end Gwsdb.Net
