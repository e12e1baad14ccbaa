import Gwsdb.Lemmas.DnsQuery

/-!
# Encoding PTR queries

`buildPTRQuery` writes, for every accepted address and every id of two bytes, one message after its length, and in it one question
whose name the decoder reads back as the reverse name. Two queries with the same bytes are for one id and one address.
-/

namespace Gwsdb.Net

open Dns (Label NameAt field)

/-- The bytes are a query for a name: its message comes after its length, with the id and one question in the header.
The name of the question is written without pointers in at most 255 bytes, the decoder skips it and reads it, and type
and class are the last four. -/
structure IsPTRQuery (id : Nat) (name : List Char) (frame : List UInt8) : Prop where
  length : field 2 frame 0 = some (frame.drop 2).length
  id : field 2 (frame.drop 2) 0 = some id
  qdcount : field 2 (frame.drop 2) 4 = some 1
  otherCounts : ∀ o ∈ [6, 8, 10], field 2 (frame.drop 2) o = some 0
  labels : ∃ labels : List Label, NameAt (frame.drop 2) 12 labels 0 ((frame.drop 2).length - 4)
  size : (frame.drop 2).length - 4 - 12 ≤ 255
  skipped : skipName (frame.drop 2) 12 = (frame.drop 2).length - 4
  qtype : field 2 (frame.drop 2) ((frame.drop 2).length - 4) = some 12
  qclass : field 2 (frame.drop 2) ((frame.drop 2).length - 2) = some 1
  decoded : decodeName (frame.drop 2) 12 = .ok (String.ofList name, (frame.drop 2).length - 4)

/-! ## The message -/

/-- A query is 16 bytes longer than its name. -/
theorem ptrMessage_length (id : Nat) (name : List Char) : (ptrMessage id name).length = 16 + (encodeQName name).length := by
  simp only [ptrMessage, List.length_append, setUint16_length, List.length_cons, List.length_nil]
  omega

theorem and_0xffff {id : Nat} (h : id ≤ 65535) : id &&& 0xffff = id := by
  rw [show 0xffff = 2 ^ 16 - 1 from rfl, Nat.and_two_pow_sub_one_eq_mod, Nat.mod_eq_of_lt (by omega)]

/-- The header: id, one question, nothing else. -/
theorem ptrMessage_header {id : Nat} (h : id ≤ 65535) (name : List Char) :
    field 2 (ptrMessage id name) 0 = some id ∧ field 2 (ptrMessage id name) 4 = some 1 ∧
      ∀ o ∈ [6, 8, 10], field 2 (ptrMessage id name) o = some 0 := by
  have hshort : ∀ o ≤ 10, o + 2 ≤ (ptrMessage id name).length := by
    intro o ho
    rw [ptrMessage_length]
    omega
  refine ⟨?_, ?_, ?_⟩
  · have hid := @field_setUint16 id (by omega) []
      (setUint16 0x0100 ++ setUint16 1 ++ [0, 0, 0, 0, 0, 0] ++ encodeQName name ++ setUint16 12 ++ setUint16 1)
    unfold ptrMessage
    rw [and_0xffff h]
    simpa only [List.nil_append, List.length_nil, List.append_assoc] using hid
  · rw [field, if_pos (hshort 4 (by decide))]
    rfl
  · intro o ho
    simp only [List.mem_cons, List.not_mem_nil, or_false] at ho
    rcases ho with rfl | rfl | rfl <;> rw [field, if_pos (hshort _ (by decide))] <;> rfl

/-- The labels of the name are written after the header. -/
theorem ptrMessage_name {ps : List (List Char)} (hps : ∀ p ∈ ps, IsLabel p) (hne : ps ≠ []) (id : Nat) :
    NameAt (ptrMessage id (['.'].intercalate ps)) 12 (ps.pmap toLabel hps) 0
      ((ptrMessage id (['.'].intercalate ps)).length - 4) := by
  have hname := nameAt_encoded hps (setUint16 (id &&& 0xffff) ++ setUint16 0x0100 ++ setUint16 1 ++ [0, 0, 0, 0, 0, 0])
    (setUint16 12 ++ setUint16 1)
  rw [← encodeQName_labels hps hne, ← List.append_assoc] at hname
  have hend : (ptrMessage id (['.'].intercalate ps)).length - 4 =
      12 + (ps.flatMap fun p => UInt8.ofNat p.length :: bytesOf p).length + 1 := by
    rw [ptrMessage_length, encodeQName_labels hps hne, List.length_append, List.length_singleton]
    omega
  rw [hend]
  exact hname

/-- Type and class are the last four bytes. -/
theorem ptrMessage_type (id : Nat) (name : List Char) :
    field 2 (ptrMessage id name) ((ptrMessage id name).length - 4) = some 12 ∧
      field 2 (ptrMessage id name) ((ptrMessage id name).length - 2) = some 1 := by
  have htype := @field_setUint16 12 (by decide)
    (setUint16 (id &&& 0xffff) ++ setUint16 0x0100 ++ setUint16 1 ++ [0, 0, 0, 0, 0, 0] ++ encodeQName name) (setUint16 1)
  have hclass := @field_setUint16 1 (by decide)
    (setUint16 (id &&& 0xffff) ++ setUint16 0x0100 ++ setUint16 1 ++ [0, 0, 0, 0, 0, 0] ++ encodeQName name ++ setUint16 12) []
  rw [List.append_nil] at hclass
  rw [ptrMessage_length, show 16 + (encodeQName name).length - 4 = 12 + (encodeQName name).length by omega,
    show 16 + (encodeQName name).length - 2 = 12 + (encodeQName name).length + 2 by omega]
  simp only [List.length_append, setUint16_length, List.length_cons, List.length_nil] at htype hclass
  exact ⟨htype, hclass⟩

/-! ## The query -/

/-- The query is the message with its length before it. -/
theorem buildPTRQuery_eq {ip : List Char} (hip : isIPAddress ip = true) (id : Nat) :
    buildPTRQuery id ip = .ok (setUint16 (ptrMessage id (['.'].intercalate (labelsOf ip))).length ++
      ptrMessage id (['.'].intercalate (labelsOf ip))) := by
  unfold buildPTRQuery
  rw [reverseName_eq hip]
  rfl

/-- It is a query for the name. -/
theorem isPTRQuery {ip : List Char} (hip : isIPAddress ip = true) {id : Nat} (hid : id ≤ 65535) :
    IsPTRQuery id (['.'].intercalate (labelsOf ip)) (setUint16 (ptrMessage id (['.'].intercalate (labelsOf ip))).length ++
      ptrMessage id (['.'].intercalate (labelsOf ip))) := by
  have hlabels := isLabel_labelsOf hip
  have hname := ptrMessage_name hlabels (labelsOf_ne_nil ip) id
  have hlength := ptrMessage_length id (['.'].intercalate (labelsOf ip))
  have hsize := labelsOf_size hip
  rw [encodeQName_labels hlabels (labelsOf_ne_nil ip), List.length_append, List.length_singleton, encoded_length] at hlength
  generalize hmsg : ptrMessage id (['.'].intercalate (labelsOf ip)) = msg at *
  have hdrop : (setUint16 msg.length ++ msg).drop 2 = msg := rfl
  obtain ⟨hid', hqdcount, hcounts⟩ := hmsg ▸ ptrMessage_header hid (['.'].intercalate (labelsOf ip))
  obtain ⟨htype, hclass⟩ := hmsg ▸ ptrMessage_type id (['.'].intercalate (labelsOf ip))
  refine ⟨?_, ?_, ?_, ?_, ?_, ?_, ?_, ?_, ?_, ?_⟩ <;> rw [hdrop]
  · exact @field_setUint16 msg.length (by omega) [] msg
  · exact hid'
  · exact hqdcount
  · exact hcounts
  · exact ⟨_, hname⟩
  · omega
  · exact skipName_of_nameAt hname
  · exact htype
  · exact hclass
  · rw [← dotted_toLabel hlabels]
    exact decodeName_of_nameAt hname (by decide)

/-- Every accepted address and every id of two bytes have their query, and no other address or id has the same bytes. -/
theorem ptrQuery_encodes {ip ip' : List Char} (hip : isIPAddress ip = true) (hip' : isIPAddress ip' = true) {id id' : Nat}
    (hid : id ≤ 65535) (hid' : id' ≤ 65535) :
    (∃ name frame, reverseName ip = .ok name ∧ buildPTRQuery id ip = .ok frame ∧ IsPTRQuery id name frame) ∧
      (buildPTRQuery id ip = buildPTRQuery id' ip' → id = id' ∧ ∃ a, addrOf ip = some a ∧ addrOf ip' = some a) := by
  refine ⟨⟨_, _, reverseName_eq hip, buildPTRQuery_eq hip id, isPTRQuery hip hid⟩, fun heq => ?_⟩
  have hquery := isPTRQuery hip hid
  have hquery' := isPTRQuery hip' hid'
  rw [buildPTRQuery_eq hip, buildPTRQuery_eq hip', Except.ok.injEq] at heq
  rw [← heq] at hquery'
  refine ⟨Option.some.inj (hquery.id.symm.trans hquery'.id), ?_⟩
  have hname := hquery.decoded.symm.trans hquery'.decoded
  rw [Except.ok.injEq, Prod.mk.injEq] at hname
  have hlabels := labels_injective (isLabel_labelsOf hip) (isLabel_labelsOf hip') (labelsOf_ne_nil ip) (labelsOf_ne_nil ip')
    (String.ofList_injective hname.1)
  obtain ⟨a, ha⟩ := addrOf_of_isIPAddress hip
  exact ⟨a, ha, (labelsOf_injective hip hip' hlabels).symm.trans ha⟩

theorem ptrQuery_encodes_google :
    (∃ name frame, reverseName "8.8.8.8".toList = .ok name ∧
      buildPTRQuery 1 "8.8.8.8".toList = .ok frame ∧ IsPTRQuery 1 name frame) ∧
      (buildPTRQuery 1 "8.8.8.8".toList = buildPTRQuery 2 "2001:4860:4860::8888".toList →
        1 = 2 ∧ ∃ a, addrOf "8.8.8.8".toList = some a ∧ addrOf "2001:4860:4860::8888".toList = some a) :=
  ptrQuery_encodes (by decide +kernel) (by decide +kernel) (by decide) (by decide)

end Gwsdb.Net
