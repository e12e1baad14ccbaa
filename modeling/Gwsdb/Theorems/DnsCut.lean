import Gwsdb.Lemmas.DnsWire
import Gwsdb.Store.PtrQueries
import Gwsdb.Theorems.DnsDecode

/-!
# Cut messages

`parseMessage` compares no length with the end of the message: what stops it is a number that is not there. So a message that is
cut before the data of its last record is rejected, and one that is cut within that data is read, a name as far as it goes.
-/

namespace Gwsdb.Store

open Dns
open Gwsdb.Net

/-- A message that is cut before the data of its last record is not read. -/
theorem parse_cut_before {m : Message} {buf : List UInt8} {next : Nat} (h : m.WrittenIn 20 buf next) {last : Record}
    (hlast : m.answers.getLast? = some last) {k : Nat} (hk : k + last.rdlength < next) : ∃ e,
        parseMessage (buf.take k) = .error e := by
  rcases Nat.lt_or_ge k 12 with hshort | hlong
  · refine ⟨_, parseMessage_short ?_⟩
    rw [List.length_take]
    omega
  obtain ⟨o, hquestions, hanswers⟩ := h.sections
  have hread : ∃ e, readAnswers (buf.take k) m.answers.length (skipQuestions (buf.take k) m.questions.length 12)
      [] = .error e := by
    rcases @skipQuestions_take buf k 12 m.questions.length with hsame | hpast
    · rw [hsame, skipQuestions_of_section hquestions]
      exact readAnswers_cut hanswers hlast hk []
    · -- the questions are cut, and there is an answer to read after them
      cases hall : m.answers with
      | nil =>
        rw [hall] at hlast
        cases hlast
      | cons r rs =>
        refine readAnswers_short ?_ _ _
        rw [@skipName_end (buf.take k) _ (by rw [List.length_take]; omega)]
        omega
  obtain ⟨e, he⟩ := hread
  rw [parseMessage_take h hlong, he]
  exact ⟨e, rfl⟩

/-- A message that is cut within the data of its last record is read, unless the name there leads through too many
pointers. All that comes before the data is in the bytes that are left. -/
theorem parse_cut_within {m : Message} {buf : List UInt8} (h : m.WrittenIn 20 buf buf.length) {last : Record}
    (hlast : m.answers.getLast? = some last) {k : Nat} (hge : buf.length ≤ k + last.rdlength) :
    (∃ e, parseMessage (buf.take k) = .error e) ↔
      last.data.type = typePTR ∧ Follows (buf.take k) (buf.length - last.rdlength) 22 := by
  obtain ⟨o, hquestions, hanswers⟩ := h.sections
  have hsplit : m.answers = m.answers.dropLast ++ [last] := by
    rw [List.dropLast_append_getLast? last (by rw [hlast]; rfl)]
  rw [hsplit] at hanswers
  obtain ⟨n, hinit, hrecord⟩ := hanswers.append
  have hbefore : 12 ≤ o := hquestions.le fun _ _ _ hq => hq.lt_next.le
  have hupto : o ≤ n := hinit.le fun _ _ _ hr => hr.lt_next.le
  cases hrecord with
  | @cons _ n' _ _ _ hlastAt hend =>
    cases hend
    generalize hbytes : buf.length = next at hlastAt hge ⊢
    cases hlastAt with
    | mk howner htype hclass httl hlen hdata =>
      rename_i i
      have hi := howner.lt_next
      have hquestions' := hquestions.take (fun _ _ _ hq => hq.lt_next) (fun _ _ _ hq hn => hq.take hn) (show o ≤ k by omega)
      have hinit' := hinit.take (fun _ _ _ hr => hr.lt_next) (fun _ _ _ hr hn => hr.take hn) (show n ≤ k by omega)
      have hread := readAnswers_of_section hinit' (by decide) 1 []
      have hlength : m.answers.length = m.answers.dropLast.length + 1 := by
        conv_lhs => rw [hsplit]
        simp
      have hskip := skipName_of_ownerAt (howner.take (show i ≤ k by omega))
      have hlastread := readAnswers_last_error_iff hskip (by rwa [field_take_of_le (by omega)])
        (by rwa [field_take_of_le (by omega)])
        (by rwa [field_take_of_le (by omega)]) ([] ++ m.answers.dropLast.filterMap answerOf)
      rw [parseMessage_take h (by omega), skipQuestions_of_section hquestions', hlength, hread,
        show i + 10 + last.rdlength - last.rdlength = i + 10 by omega, ← hlastread]
      cases readAnswers (buf.take k) 1 n ([] ++ m.answers.dropLast.filterMap answerOf) <;> simp [Except.map]

/-- A message whose last bytes belong to an answer, cut anywhere, is rejected exactly when the cut is before the data of that
answer, or the answer is a PTR record and what is left of its name leads through more pointers than the decoder follows. -/
theorem cut_rejected_iff {m : Message} {buf : List UInt8} (h : m.WrittenIn 20 buf buf.length) {last : Record}
    (hlast : m.answers.getLast? = some last) (k : Nat) :
    Rejected (buf.take k) ↔
      k + last.rdlength < buf.length ∨ last.data.type = typePTR ∧ Follows (buf.take k) (buf.length - last.rdlength) 22 := by
  rw [rejected_iff]
  rcases Nat.lt_or_ge (k + last.rdlength) buf.length with hlt | hge
  · simp only [hlt, true_or, iff_true]
    exact parse_cut_before h hlast hlt
  · rw [parse_cut_within h hlast hge]
    simp [Nat.not_lt.2 hge]

/-- The answer for 8.8.8.8 without its last thirteen bytes, that is without its data. -/
theorem cut_rejected_dnsGoogle : Rejected (dnsGoogle.take 49) ↔ 49 + 12 < dnsGoogle.length ∨
    typePTR = typePTR ∧ Follows (dnsGoogle.take 49) (dnsGoogle.length - 12) 22 :=
  cut_rejected_iff dnsGoogle_written (List.getLast?_singleton) 49

/-- The answer for 8.8.8.8 without its last four bytes is read, with a name that the whole of it does not have. -/
theorem cut_name_is_read : dnsGoogleMessage.WrittenIn 20 dnsGoogle dnsGoogle.length ∧ 58 < dnsGoogle.length ∧
    ¬Rejected (dnsGoogle.take 58) ∧ parseMessage (dnsGoogle.take 58) = .ok ⟨1, 0, [⟨12, 21600, "dns.goo"⟩]⟩ ∧
      ⟨12, 21600, "dns.goo"⟩ ∉ dnsGoogleMessage.answers.filterMap answerOf := by
  have hparse : parseMessage (dnsGoogle.take 58) = .ok ⟨1, 0, [⟨12, 21600, "dns.goo"⟩]⟩ := by decide +kernel
  refine ⟨dnsGoogle_written, by decide, ?_, hparse, by decide⟩
  rw [rejected_iff, hparse]
  rintro ⟨e, he⟩
  cases he

end Gwsdb.Store
