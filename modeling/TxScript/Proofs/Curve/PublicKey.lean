import TxScript.Curve.PrivateKey
import TxScript.Proofs.Curve.Der

/-!
# Reading a written public key

A key is read back from either form. The short form leaves the second coordinate out: of the two
square roots, the parity picks the right one.
-/

namespace TxScript.Curve

open scoped Fin.CommRing

theorem FieldElement.ofBytes?_toBytes (a : FieldElement) : ofBytes? a.toBytes = some a := by
  have hwidth : fieldPrime < LittleEndian.limit 32 := by decide
  have hdecode : BigEndian.decode a.toBytes = a.val :=
    BigEndian.decode_encode (by have := a.isLt; omega)
  unfold ofBytes?
  simp only [hdecode]
  exact dif_pos a.isLt

@[simp] theorem FieldElement.length_toBytes (a : FieldElement) : a.toBytes.length = 32 :=
  BigEndian.length_encode 32 a.val

/-- The prime is odd, so a coordinate and its negative differ in parity. -/
theorem FieldElement.odd_zero_sub {y : FieldElement} (h : y ≠ 0) :
    (0 - y).val % 2 = 1 ↔ ¬ y.val % 2 = 1 := by
  have hpos : 0 < y.val := Nat.pos_of_ne_zero fun hz => h (Fin.ext hz)
  have hlt := y.isLt
  have hval : (0 - y).val = fieldPrime - y.val := by
    show (fieldPrime - y.val + 0) % fieldPrime = _
    rw [Nat.add_zero, Nat.mod_eq_of_lt (by omega)]
  have hodd : fieldPrime % 2 = 1 := by decide
  rw [hval]
  omega

namespace Point

theorem ofX?_onCurve {x y : FieldElement} (h : OnCurve x y) :
    ofX? x (decide (y.val % 2 = 1)) = some (affine x y) := by
  have hcubic : cubic x = y * y := h.symm
  unfold ofX?
  rw [hcubic]
  rcases squareRoot?_mul_self y with hsame | hneg
  · simp [hsame]
  · by_cases hy : y = 0
    · rw [hy, sub_zero] at hneg
      rw [hy, hneg]
      simp
    · have hparity := FieldElement.odd_zero_sub hy
      have hpicked : ¬ decide ((0 - y).val % 2 = 1) = decide (y.val % 2 = 1) := by
        rw [decide_eq_decide, hparity]
        exact fun hiff => not_iff_self hiff
      rw [hneg, Option.map_some, if_neg hpicked, sub_sub_cancel]

theorem onCurve_of_ofX? {x : FieldElement} {odd : Bool} {p : Point} (h : ofX? x odd = some p) :
    ∃ y, p = affine x y ∧ OnCurve x y := by
  obtain ⟨root, hroot, rfl⟩ := Option.map_eq_some_iff.1 h
  have hsquare : root * root = cubic x := by
    unfold squareRoot? at hroot
    dsimp only at hroot
    split at hroot
    · rename_i hsquare
      cases hroot
      exact hsquare
    · cases hroot
  refine ⟨_, rfl, ?_⟩
  unfold OnCurve
  split
  · exact hsquare
  · rw [← hsquare]
    ring

end Point

namespace PublicKey

theorem readCompressed_onCurve {x y : FieldElement} (h : Point.OnCurve x y) :
    readCompressed (if y.val % 2 = 1 then 0x03 else 0x02) x.toBytes = some (.affine x y) := by
  have hread := Point.ofX?_onCurve h
  unfold readCompressed
  by_cases hodd : y.val % 2 = 1
  · simpa [hodd, FieldElement.ofBytes?_toBytes] using hread
  · simpa [hodd, FieldElement.ofBytes?_toBytes] using hread

theorem readUncompressed_append (x y : FieldElement) :
    readUncompressed 0x04 (x.toBytes ++ y.toBytes) = some (.affine x y) := by
  have hx : (x.toBytes ++ y.toBytes).take 32 = x.toBytes :=
    List.take_left' (FieldElement.length_toBytes x)
  have hy : (x.toBytes ++ y.toBytes).drop 32 = y.toBytes :=
    List.drop_left' (FieldElement.length_toBytes x)
  unfold readUncompressed
  rw [if_pos rfl, hx, hy, FieldElement.ofBytes?_toBytes, FieldElement.ofBytes?_toBytes]
  rfl

/-- A key is read back from its own form. -/
theorem ofBytes_toBytes (key : PublicKey) : ofBytes key.toBytes = .ok key := by
  rcases key with ⟨x, y, hcurve, compressed⟩
  have hx := FieldElement.length_toBytes x
  have hkey (c : Bool) : ofPoint? c (.affine x y) = some ⟨x, y, hcurve, c⟩ :=
    ofPoint?_eq_some.2 ⟨rfl, rfl⟩
  cases compressed with
  | true =>
      show ofBytes ((if y.val % 2 = 1 then 0x03 else 0x02) :: x.toBytes) = _
      unfold ofBytes
      simp only [hx, if_true, readCompressed_onCurve hcurve, Option.bind_some, hkey]
  | false =>
      have hlength : (x.toBytes ++ y.toBytes).length = 64 := by simp
      show ofBytes (0x04 :: (x.toBytes ++ y.toBytes)) = _
      unfold ofBytes
      simp [hlength, readUncompressed_append, hkey]

end PublicKey

end TxScript.Curve
