import Gwsdb.Lemmas.DnsWire

/-!
# What the decoder recovers

Of every message that is written as RFC 1035 says, with at most twenty pointers to a name, `parseMessage` returns the id, the
response code and the PTR answers.
-/

namespace Gwsdb.Net

open Dns

/-- A written message is read: its id, its response code, and its PTR answers in order. -/
theorem parse_recovers {m : Message} {buf : List UInt8} {next : Nat} (h : m.WrittenIn 20 buf next) :
    parseMessage buf = .ok ⟨m.id, m.rcode, m.answers.filterMap answerOf⟩ := by
  obtain ⟨_, har⟩ := h.arcount
  obtain ⟨o, hquestions, hanswers⟩ := h.sections
  have hparse := parseMessage_take h (field_eq_some har)
  rw [List.take_length] at hparse
  have hread := readAnswers_of_section hanswers (by decide) 0 []
  rw [hparse, skipQuestions_of_section hquestions, ← Nat.add_zero m.answers.length, hread]
  rfl

/-! ## The answer for 8.8.8.8 -/

/-- The response to the PTR query for 8.8.8.8: its question, and one answer whose owner is a pointer
to the name of the question. -/
def dnsGoogle : List UInt8 :=
  [0, 1, 0x81, 0x80, 0, 1, 0, 1, 0, 0, 0, 0] ++
    [1, 56, 1, 56, 1, 56, 1, 56, 7, 105, 110, 45, 97, 100, 100, 114, 4, 97, 114, 112, 97, 0, 0, 12, 0, 1] ++
      [0xc0, 12, 0, 12, 0, 1, 0, 0, 0x54, 0x60, 0, 12, 3, 100, 110, 115, 6, 103, 111, 111, 103, 108, 101, 0]

/-- The labels of the name 8.8.8.8.in-addr.arpa. -/
def reverseLabels : List Label :=
  [⟨[56], by decide, by decide⟩, ⟨[56], by decide, by decide⟩, ⟨[56], by decide, by decide⟩, ⟨[56], by decide, by decide⟩,
    ⟨[105, 110, 45, 97, 100, 100, 114], by decide, by decide⟩, ⟨[97, 114, 112, 97], by decide, by decide⟩]

/-- The labels of the name dns.google. -/
def googleLabels : List Label := [⟨[100, 110, 115], by decide, by decide⟩, ⟨[103, 111, 111, 103, 108, 101], by decide, by decide⟩]

/-- What the response says: dns.google, for six hours. -/
def dnsGoogleMessage : Message := ⟨1, 0, [⟨reverseLabels, 12, 1⟩], [⟨reverseLabels, 1, 21600, 12, .ptr googleLabels⟩]⟩

theorem reverseLabels_written : NameAt dnsGoogle 12 reverseLabels 0 34 :=
  .label rfl rfl rfl (.label rfl rfl rfl (.label rfl rfl rfl
    (.label rfl rfl rfl (.label rfl rfl rfl (.label rfl rfl rfl (.root rfl))))))

theorem googleLabels_written : NameAt dnsGoogle 50 googleLabels 0 62 := .label rfl rfl rfl (.label rfl rfl rfl (.root rfl))

theorem dnsGoogle_written : dnsGoogleMessage.WrittenIn 20 dnsGoogle 62 where
  id := by decide
  rcode := ⟨0x80, rfl, rfl⟩
  qdcount := by decide
  ancount := by decide
  nscount := ⟨0, by decide⟩
  arcount := ⟨0, by decide⟩
  sections := by
    have howner : NameAt dnsGoogle 38 reverseLabels 1 40 := .pointer rfl (by decide) rfl reverseLabels_written (by decide)
    have hquestion : QuestionAt 20 dnsGoogle 12 ⟨reverseLabels, 12, 1⟩ 38 :=
      .mk ⟨0, by decide, reverseLabels_written⟩ (by decide) (by decide)
    have hanswer : RecordAt 20 dnsGoogle 38 ⟨reverseLabels, 1, 21600, 12, .ptr googleLabels⟩ 62 :=
      .mk ⟨1, by decide, howner⟩ (by decide) (by decide) (by decide) (by decide) ⟨0, by decide, googleLabels_written⟩
    exact ⟨38, .cons hquestion (.nil 38), .cons hanswer (.nil 62)⟩

theorem parse_recovers_dnsGoogle : parseMessage dnsGoogle = .ok ⟨1, 0, [⟨12, 21600, "dns.google"⟩]⟩ :=
  parse_recovers dnsGoogle_written

end Gwsdb.Net
