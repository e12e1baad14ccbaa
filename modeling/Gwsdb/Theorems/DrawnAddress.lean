import Gwsdb.Lemmas.AddrText
import Gwsdb.Web.Requests

/-!
# Addresses the scanner draws

The text of a drawn address is what the server keeps it under, except for IPv4-mapped addresses, which the server
refuses. The draws in a prefix reach each of its addresses and no other; so all of them are accepted when the prefix
has no address in ::ffff:0:0/96.
-/

namespace Gwsdb.Scan

/-! ## Drawing -/

/-- A byte with the masked bits of `x` and the other bits of `d`. -/
def blend (m x d : UInt8) : UInt8 := (x &&& m) ||| (d &&& ~~~m)

/-- Under the mask a blended byte is the prefix's. -/
theorem blend_and (m x d : UInt8) : blend m x d &&& m = x &&& m := by
  unfold blend
  apply UInt8.eq_of_toBitVec_eq
  ext i hi
  simp
  cases m.toBitVec[i] <;> simp

/-- A byte that agrees with `x` in the masked bits. -/
theorem blend_self {m x d : UInt8} (h : d &&& m = x &&& m) : blend m x d = d := by
  unfold blend
  rw [← h]
  apply UInt8.eq_of_toBitVec_eq
  ext i hi
  simp
  cases m.toBitVec[i] <;> simp

/-- A full mask leaves the prefix's byte. -/
theorem blend_all (x d : UInt8) : blend (leadingBits 8) x d = x := by
  have h8 : leadingBits 8 = -1 := rfl
  unfold blend
  rw [h8]
  simp

/-- An empty one leaves the drawn byte. -/
theorem blend_none (x d : UInt8) : blend (leadingBits 0) x d = d := by
  have h0 : leadingBits 0 = 0 := rfl
  unfold blend
  rw [h0]
  simp

/-- The byte drawn for a position: the bytes after the bits of the prefix are drawn first, the byte that its last bit is in at the
end. -/
def drawnByte (p : Prefix) (draws : Nat → UInt8) (i : Nat) : UInt8 :=
  if (p.bits + 7) / 8 ≤ i then draws (i - (p.bits + 7) / 8) else draws (p.addr.bytes.length - (p.bits + 7) / 8)

/-- Each byte of a drawn address has the bits of the prefix, and drawn bits after them. -/
theorem getElem?_randomAddrInPrefix (p : Prefix) (draws : Nat → UInt8) (i : Nat) :
    (randomAddrInPrefix p draws).bytes[i]? =
      p.addr.bytes[i]?.map fun x => blend (leadingBits (min 8 (p.bits - 8 * i))) x (drawnByte p draws i) := by
  have hbyte : (randomAddrInPrefix p draws).bytes[i]? = p.addr.bytes[i]?.map fun x =>
      let host := if (p.bits + 7) / 8 ≤ i then draws (i - (p.bits + 7) / 8) else x
      if p.bits % 8 ≠ 0 ∧ p.bits / 8 = i then
        blend (leadingBits (p.bits % 8)) host (draws (p.addr.bytes.length - (p.bits + 7) / 8))
      else host := by
    unfold randomAddrInPrefix blend
    simp only
    split
    · rename_i hrem
      simp only [List.getElem?_modify, List.getElem?_mapIdx, Option.map_eq_map, Option.map_map]
      refine Option.map_congr fun x _ => ?_
      have hiff : (p.bits % 8 ≠ 0 ∧ p.bits / 8 = i) ↔ p.bits / 8 = i := and_iff_right hrem
      simp only [Function.comp_apply, hiff]
    · rename_i hrem
      simp only [List.getElem?_mapIdx]
      refine Option.map_congr fun x _ => ?_
      simp only [hrem, false_and, if_false]
  rw [hbyte]
  refine Option.map_congr fun x _ => ?_
  simp only
  unfold drawnByte
  rcases Nat.lt_or_ge p.bits (8 * (i + 1)) with hlt | hge
  · rcases Nat.lt_or_ge (8 * i) p.bits with hin | hout
    · -- the byte with the last bit of the prefix
      rw [if_neg (show ¬(p.bits + 7) / 8 ≤ i by omega), if_pos (show p.bits % 8 ≠ 0 ∧ p.bits / 8 = i by omega),
        if_neg (show ¬(p.bits + 7) / 8 ≤ i by omega), show min 8 (p.bits - 8 * i) = p.bits % 8 by omega]
    · rw [if_pos (show (p.bits + 7) / 8 ≤ i by omega), if_neg (show ¬(p.bits % 8 ≠ 0 ∧ p.bits / 8 = i) by omega),
        if_pos (show (p.bits + 7) / 8 ≤ i by omega), show min 8 (p.bits - 8 * i) = 0 by omega, blend_none]
  · rw [if_neg (show ¬(p.bits + 7) / 8 ≤ i by omega), if_neg (show ¬(p.bits % 8 ≠ 0 ∧ p.bits / 8 = i) by omega),
      show min 8 (p.bits - 8 * i) = 8 by omega, blend_all]

/-- A drawn address is as long as the prefix's. -/
theorem length_randomAddrInPrefix (p : Prefix) (draws : Nat → UInt8) :
    (randomAddrInPrefix p draws).bytes.length = p.addr.bytes.length := by
  unfold randomAddrInPrefix
  simp only
  split <;> simp

theorem getElem?_maskBytes (bits : Nat) (bytes : List UInt8) (i : Nat) :
    (maskBytes bits bytes)[i]? = bytes[i]?.map fun b => b &&& leadingBits (min 8 (bits - 8 * i)) := by
  unfold maskBytes
  rw [List.getElem?_mapIdx]

theorem Addr.ext {a b : Addr} (h : a.bytes = b.bytes) : a = b := by
  cases a
  cases b
  cases h
  rfl

/-- The addresses drawn from a prefix are in it. -/
theorem contains_randomAddrInPrefix (p : Prefix) (draws : Nat → UInt8) : p.Contains (randomAddrInPrefix p draws) := by
  refine ⟨length_randomAddrInPrefix p draws, List.ext_getElem? fun i => ?_⟩
  rw [getElem?_maskBytes, getElem?_maskBytes, getElem?_randomAddrInPrefix, Option.map_map]
  refine Option.map_congr fun x _ => ?_
  exact blend_and _ _ _

/-- The draws that give an address. -/
def drawsOf (p : Prefix) (a : Addr) (j : Nat) : UInt8 :=
  a.bytes[if (p.bits + 7) / 8 + j < p.addr.bytes.length then (p.bits + 7) / 8 + j else p.bits / 8]?.getD 0

/-- Drawing an address's own bytes gives its host bytes. -/
theorem drawnByte_drawsOf {p : Prefix} {a : Addr} {i : Nat} (hi : i < p.addr.bytes.length) (hhost : p.bits < 8 * (i + 1)) :
    drawnByte p (drawsOf p a) i = a.bytes[i]?.getD 0 := by
  unfold drawnByte drawsOf
  by_cases hfull : (p.bits + 7) / 8 ≤ i
  · rw [if_pos hfull, if_pos (by omega), show (p.bits + 7) / 8 + (i - (p.bits + 7) / 8) = i by omega]
  · rw [if_neg hfull, if_neg (by omega), show p.bits / 8 = i by omega]

/-- Every address of a prefix can be drawn. -/
theorem randomAddrInPrefix_drawsOf {p : Prefix} {a : Addr} (h : p.Contains a) : randomAddrInPrefix p (drawsOf p a) = a := by
  obtain ⟨hlength, hmask⟩ := h
  refine Addr.ext (List.ext_getElem? fun i => ?_)
  have hbyte := congrArg (·[i]?) hmask
  simp only [getElem?_maskBytes] at hbyte
  rw [getElem?_randomAddrInPrefix]
  cases hx : p.addr.bytes[i]? with
  | none =>
    rw [hx] at hbyte
    exact (Option.map_eq_none_iff.1 hbyte).symm
  | some x =>
    rw [hx] at hbyte
    obtain ⟨y, hy, heq⟩ := Option.map_eq_some_iff.1 hbyte
    rw [hy, Option.map_some, Option.some.injEq]
    rcases Nat.lt_or_ge p.bits (8 * (i + 1)) with hhost | hnetwork
    · rw [drawnByte_drawsOf (List.getElem?_eq_some_iff.1 hx).1 hhost, hy, Option.getD_some]
      exact blend_self heq
    · -- the prefix fixes the whole byte
      rw [show min 8 (p.bits - 8 * i) = 8 by omega] at heq ⊢
      rw [blend_all, ← blend_all y x, blend_self heq.symm]

/-! ## Accepting -/

/-- `/ingest` accepts the text as the IP of a check, and keeps the check under the text as it is. -/
def Accepted (text : List Char) : Prop :=
  (Web.normalize (String.ofList text)).isSome = true ∧ Web.normalize (String.ofList text) = some (String.ofList text)

/-- An address is accepted by its text unless it is a mapped one. -/
theorem accepted_string_iff (a : Addr) : Accepted a.string ↔ a.is4In6 = false := by
  have htext : Web.normalize (String.ofList a.string) = if a.is4In6 then none else some (String.ofList a.string) := by
    rw [Web.normalize, String.toList_ofList, Net.normalize_string]
    split <;> rfl
  unfold Accepted
  rw [htext]
  cases a.is4In6 <;> simp

/-- Whatever is drawn from a prefix is accepted exactly when the prefix contains no IPv4-mapped address. -/
theorem drawn_accepted_iff (p : Prefix) :
    (∀ draws, Accepted (randomAddrInPrefix p draws).string) ↔ ∀ a, p.Contains a → a.is4In6 = false := by
  constructor
  · intro h a ha
    rw [← randomAddrInPrefix_drawsOf ha]
    exact (accepted_string_iff _).1 (h (drawsOf p a))
  · intro h draws
    exact (accepted_string_iff _).2 (h _ (contains_randomAddrInPrefix p draws))

/-- The prefix ::ffff:8.8.8.0/120. -/
def mappedPrefix : Prefix := ⟨⟨[0, 0, 0, 0, 0, 0, 0, 0, 0, 0, 0xff, 0xff, 8, 8, 8, 0], Or.inr rfl⟩, 120, by decide⟩

/-- A range file with that prefix is loaded, and the address ::ffff:8.8.8.8 drawn from it is refused by `/ingest`. -/
theorem mapped_draw_refused :
    (LoadIPRanges (fun _ => some mappedPrefix) [⟨"ranges.txt", .ok ["::ffff:8.8.8.0/120".toList]⟩]).map
      (·.v6.map (·.bits)) = .ok [120] ∧
      (randomAddrInPrefix mappedPrefix fun _ => 8).string = "::ffff:8.8.8.8".toList ∧
      ¬Accepted (randomAddrInPrefix mappedPrefix fun _ => 8).string ∧
      Web.readIngest ⟨some [⟨some "::ffff:8.8.8.8", true, some 12, none, none, some 0, .text "SNI"⟩], some false,
        some (some [])⟩ =
        .error (.text 400 "checks contain an invalid IP") := by
  refine ⟨by decide +kernel, by decide +kernel, ?_, ?_⟩
  · rw [accepted_string_iff]
    decide
  · have hrefused : Web.normalize "::ffff:8.8.8.8" = none := by decide +kernel
    unfold Web.readIngest
    simp [hrefused]

end Gwsdb.Scan
