import Gwsdb.Theorems.DrawnAddress
import Mathlib.SetTheory.Cardinal.Finite

/-!
# Draws are uniform

A sequence of draws is as long as the calls of `rand.Intn` that the address takes. To change each draw by the difference
of the draws of two addresses turns the sequences for the one into those for the other, so every address of a prefix is
drawn by equally many sequences.
-/

namespace Gwsdb.Scan

/-- The number of bytes drawn for an address: one for each byte after the bits of the prefix, and one for the byte that its last
bit is in when it does not end a byte. -/
def drawCount (p : Prefix) : Nat := (p.addr.bytes.length - (p.bits + 7) / 8) + if p.bits % 8 ≠ 0 then 1 else 0

/-- A sequence of draws for the prefix. -/
abbrev Draws (p : Prefix) : Type := Fin (drawCount p) → UInt8

/-- A sequence of draws, and zeros after it. -/
def Draws.extend {p : Prefix} (s : Draws p) (j : Nat) : UInt8 := if h : j < drawCount p then s ⟨j, h⟩ else 0

/-- The address that a sequence of draws gives. -/
def Draws.addr {p : Prefix} (s : Draws p) : Addr := randomAddrInPrefix p s.extend

/-- The sequences of draws that give an address. -/
def Draws.Giving (p : Prefix) (a : Addr) : Type := {s : Draws p // s.addr = a}

/-! ## The draws that are looked at -/

/-- A byte that is not all of the prefix is drawn by one of the counted calls. -/
theorem drawnByte_congr {p : Prefix} {draws draws' : Nat → UInt8} (h : ∀ j < drawCount p, draws j = draws' j) {i : Nat}
    (hi : i < p.addr.bytes.length) (hhost : p.bits < 8 * (i + 1)) : drawnByte p draws i = drawnByte p draws' i := by
  unfold drawCount at h
  unfold drawnByte
  split
  · exact h _ (by omega)
  · have hbits := p.bits_le
    exact h _ (by rw [if_pos (by omega)]; omega)

/-- The address depends on the counted draws only. -/
theorem randomAddrInPrefix_congr {p : Prefix} {draws draws' : Nat → UInt8} (h : ∀ j < drawCount p, draws j = draws' j) :
    randomAddrInPrefix p draws = randomAddrInPrefix p draws' := by
  refine Addr.ext (List.ext_getElem? fun i => ?_)
  rw [getElem?_randomAddrInPrefix, getElem?_randomAddrInPrefix]
  cases hx : p.addr.bytes[i]? with
  | none => rfl
  | some x =>
    rw [Option.map_some, Option.map_some, Option.some.injEq]
    rcases Nat.lt_or_ge p.bits (8 * (i + 1)) with hhost | hnetwork
    · rw [drawnByte_congr h (List.getElem?_eq_some_iff.1 hx).1 hhost]
    · rw [show min 8 (p.bits - 8 * i) = 8 by omega, blend_all, blend_all]

/-- An address of finitely many draws is that of the sequence they begin. -/
theorem addr_of_draws (p : Prefix) (draws : Nat → UInt8) :
    Draws.addr (fun i : Fin (drawCount p) => draws i) = randomAddrInPrefix p draws := by
  refine randomAddrInPrefix_congr fun j hj => ?_
  rw [Draws.extend, dif_pos hj]

/-! ## Changing the draws -/

/-- Where two draws agree in the bits that are not masked, a third changed by their difference agrees in them with the other. -/
theorem blend_xor {m x d e : UInt8} (f : UInt8) (h : blend m x d = blend m x e) : blend m x (d ^^^ (e ^^^ f)) = blend m x f := by
  unfold blend at h ⊢
  apply UInt8.eq_of_toBitVec_eq
  ext i hi
  have hbit := congrArg (fun b : UInt8 => b.toBitVec[i]) h
  simp only [UInt8.toBitVec_or, UInt8.toBitVec_and, UInt8.toBitVec_not, UInt8.toBitVec_xor, BitVec.getElem_or, BitVec.getElem_and,
    BitVec.getElem_not, BitVec.getElem_xor] at hbit ⊢
  cases hm : m.toBitVec[i] with
  | true => simp
  | false =>
    simp only [hm, Bool.and_false, Bool.false_or, Bool.not_false, Bool.and_true] at hbit ⊢
    rw [hbit, ← Bool.xor_assoc, Bool.xor_self, Bool.false_xor]

/-- Draws of one address differ by nothing that shows: adding their difference to other draws leaves the address of those. -/
theorem randomAddrInPrefix_xor {p : Prefix} {d e : Nat → UInt8} (f : Nat → UInt8)
    (h : randomAddrInPrefix p d = randomAddrInPrefix p e) :
    (randomAddrInPrefix p fun j => d j ^^^ (e j ^^^ f j)) = randomAddrInPrefix p f := by
  refine Addr.ext (List.ext_getElem? fun i => ?_)
  have hbyte := congrArg (fun a : Addr => a.bytes[i]?) h
  simp only [getElem?_randomAddrInPrefix] at hbyte ⊢
  have hdrawn : drawnByte p (fun j => d j ^^^ (e j ^^^ f j)) i = drawnByte p d i ^^^ (drawnByte p e i ^^^ drawnByte p f i) := by
    unfold drawnByte
    split <;> rfl
  rw [hdrawn]
  cases hx : p.addr.bytes[i]? with
  | none => rfl
  | some x =>
    rw [hx, Option.map_some, Option.map_some, Option.some.injEq] at hbyte
    rw [Option.map_some, Option.map_some, blend_xor _ hbyte]

variable {p : Prefix}

/-- A sequence for one address, changed to one for another. -/
def Draws.change (s : Draws p) (a b : Addr) : Draws p := fun i => s i ^^^ (drawsOf p a i ^^^ drawsOf p b i)

/-- The change back undoes the change. -/
theorem change_change (s : Draws p) (a b : Addr) : (s.change a b).change b a = s := by
  funext i
  unfold Draws.change
  rw [UInt8.xor_comm (drawsOf p b i), UInt8.xor_assoc, UInt8.xor_self, UInt8.xor_zero]

/-- The change takes draws of one address to draws of the other. -/
theorem addr_change {a b : Addr} (ha : p.Contains a) (hb : p.Contains b) {s : Draws p} (h : s.addr = a) :
    (s.change a b).addr = b := by
  have hsame : randomAddrInPrefix p s.extend = randomAddrInPrefix p (drawsOf p a) := h.trans (randomAddrInPrefix_drawsOf ha).symm
  calc
    (s.change a b).addr = randomAddrInPrefix p fun j => s.extend j ^^^ (drawsOf p a j ^^^ drawsOf p b j) :=
      randomAddrInPrefix_congr fun j hj => by rw [Draws.extend, Draws.extend, dif_pos hj, dif_pos hj]; rfl
    _ = randomAddrInPrefix p (drawsOf p b) := randomAddrInPrefix_xor (drawsOf p b) hsame
    _ = b := randomAddrInPrefix_drawsOf hb

/-- Two addresses of a prefix are given by equally many sequences. -/
theorem card_giving_eq {a b : Addr} (ha : p.Contains a) (hb : p.Contains b) :
    Nat.card (Draws.Giving p a) = Nat.card (Draws.Giving p b) :=
  Nat.card_congr
    { toFun := fun s => ⟨s.1.change a b, addr_change ha hb s.2⟩
      invFun := fun s => ⟨s.1.change b a, addr_change hb ha s.2⟩
      left_inv := fun s => Subtype.ext (change_change s.1 a b)
      right_inv := fun s => Subtype.ext (change_change s.1 b a) }

/-- Every address of the prefix is drawn. -/
theorem card_giving_pos {a : Addr} (ha : p.Contains a) : 0 < Nat.card (Draws.Giving p a) := by
  have hfinite : Finite UInt8 := Finite.of_injective UInt8.toFin fun _ _ h => UInt8.toFin_inj.1 h
  have hgiving : Finite (Draws.Giving p a) := Subtype.finite
  have hnonempty : Nonempty (Draws.Giving p a) :=
    ⟨⟨fun i => drawsOf p a i, (addr_of_draws p (drawsOf p a)).trans (randomAddrInPrefix_drawsOf ha)⟩⟩
  exact Nat.card_pos

/-- Every draw is an address of the prefix, of the family of the prefix, and takes as many bytes as counted. Each address of the
prefix is given by the same number of sequences of draws, which is not zero. -/
theorem draws_uniform (p : Prefix) :
    (∀ draws, p.Contains (randomAddrInPrefix p draws) ∧ (randomAddrInPrefix p draws).bytes.length = p.addr.bytes.length ∧
      Draws.addr (fun i : Fin (drawCount p) => draws i) = randomAddrInPrefix p draws) ∧
    ∀ a b, p.Contains a → p.Contains b →
      0 < Nat.card (Draws.Giving p a) ∧ Nat.card (Draws.Giving p a) = Nat.card (Draws.Giving p b) :=
  ⟨fun draws => ⟨contains_randomAddrInPrefix p draws, length_randomAddrInPrefix p draws, addr_of_draws p draws⟩,
    fun _ _ ha hb => ⟨card_giving_pos ha, card_giving_eq ha hb⟩⟩

end Gwsdb.Scan
