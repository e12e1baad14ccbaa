import Gwsdb.Lemmas.IpAddr
import Gwsdb.Web.AsnCache

/-!
# Rows of the ASN cache

What a save leaves of a table and what a lookup selects from it. A row whose range is that of a prefix covers the hex text of an
address exactly when the prefix contains the address (`covers_iff_contains`).
-/

namespace Gwsdb.Web

open Keyed (Table)
open Gwsdb.Net

/-! ## Saving -/

/-- The range a row holds. -/
def ASNCacheRow.range (row : ASNCacheRow) : IPRange := ⟨row.rangeStart, row.rangeEnd, row.prefixLen, row.isIPv6⟩

/-- A row after a save is an old row, or the one of the saved prefix: it tells what was saved, and its range is that of the
prefix, or the one it had. -/
theorem get?_saveASN_row {db : Table String ASNCacheRow} {e : ASNCacheEntry} {announced : String} {row : ASNCacheRow}
    (h : (saveASN db e).get? announced = some row) :
    db.get? announced = some row ∨
      announced = e.announced ∧ row.asName.getD "" = e.asName ∧ row.lookupOk = e.lookupOk ∧ row.ttlSeconds = e.ttlSeconds ∧
        row.checkedAt = e.checkedAt ∧
        (prefixToRange announced.toList = some row.range ∨ ∃ old, db.get? announced = some old ∧ row.range = old.range) := by
  have hname : ∀ name : String, (if name = "" then none else some name : Option String).getD "" = name := by
    intro name
    split
    · exact (‹name = ""›).symm
    · rfl
  unfold saveASN at h
  split at h
  · exact Or.inl h
  · rename_i range hrange
    rw [Table.get?_alter] at h
    split at h
    · rename_i heq
      subst heq
      right
      cases hold : db.get? e.announced with
      | none =>
        rw [hold] at h
        cases h
        exact ⟨rfl, hname _, rfl, rfl, rfl, Or.inl hrange⟩
      | some old =>
        rw [hold] at h
        cases h
        exact ⟨rfl, hname _, rfl, rfl, rfl, Or.inr ⟨old, rfl, rfl⟩⟩
    · exact Or.inl h

/-- What a row tells after a save. -/
theorem get?_saveASN {db : Table String ASNCacheRow} {e : ASNCacheEntry} {announced : String} {row : ASNCacheRow}
    (h : (saveASN db e).get? announced = some row) :
    db.get? announced = some row ∨
      announced = e.announced ∧ row.asName.getD "" = e.asName ∧ row.lookupOk = e.lookupOk ∧
        (prefixToRange announced.toList = some row.range ∨ ∃ old, db.get? announced = some old ∧ row.range = old.range) := by
  rcases get?_saveASN_row h with hold | ⟨hannounced, hname, hlook, -, -, hrange⟩
  · exact Or.inl hold
  · exact Or.inr ⟨hannounced, hname, hlook, hrange⟩

/-! ## Selecting -/

/-- A row with the range of a prefix covers the hex text of an address exactly when the prefix contains the address. -/
theorem covers_iff_contains {row : ASNCacheRow} {p : Prefix} (hrange : row.range = p.range)
    (hp : p.addr.value < 2 ^ width p.addr.isIPv6) {ip : String} {a : Addr} (ha : addrOf ip.toList = some a) :
    row.Covers (decide (':' ∈ ip.toList)) (Digits.digits 16 32 a.value) ↔ p.Contains a := by
  have hfamily : row.isIPv6 = p.addr.isIPv6 := congrArg IPRange.isIPv6 hrange
  have hstart : row.rangeStart = p.range.start := congrArg IPRange.start hrange
  have hend : row.rangeEnd = p.range.end := congrArg IPRange.end hrange
  unfold ASNCacheRow.Covers
  rw [← addrOf_isIPv6 ha, hfamily, hstart, hend]
  constructor
  · rintro ⟨hf, hbounds⟩
    exact (mem_range_iff hp (addrOf_lt ha) hf).1 hbounds
  · intro hc
    exact ⟨hc.1, (mem_range_iff hp (addrOf_lt ha) hc.1).2 hc⟩

/-- The row selected is a row that covers the point. -/
theorem selectASN_some {db : Table String ASNCacheRow} {isIPv6 : Bool} {point : List Char} {e : String × ASNCacheRow}
    (h : selectASN db isIPv6 point = some e) : db.get? e.1 = some e.2 ∧ e.2.Covers isIPv6 point := by
  obtain ⟨hmem, hcov⟩ := List.mem_filter.1 (List.argmax_mem h)
  exact ⟨(Table.mem_entries_iff db _ _).1 hmem, of_decide_eq_true hcov⟩

/-- Where a row covers the point, a row is selected. -/
theorem selectASN_ne_none {db : Table String ASNCacheRow} {isIPv6 : Bool} {point : List Char} {announced : String}
    {row : ASNCacheRow} (hrow : db.get? announced = some row) (hcov : row.Covers isIPv6 point) :
    selectASN db isIPv6 point ≠ none := by
  intro hnone
  have hmem : (announced, row) ∈ db.entries.filter fun e => e.2.Covers isIPv6 point :=
    List.mem_filter.2 ⟨(Table.mem_entries_iff db _ row).2 hrow, decide_eq_true hcov⟩
  rw [List.argmax_eq_none.1 hnone] at hmem
  cases hmem

end Gwsdb.Web
