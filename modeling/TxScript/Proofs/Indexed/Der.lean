import Mathlib.Data.List.TakeWhile
import TxScript.Curve.Signature
import TxScript.Proofs.Indexed.Row

/-!
# Reading signatures by position

An integer of a signature lies behind a marker and a length, inside of a sequence that has both of
its own. What is left of it without its leading zeros is copied to the end of an array of the width
of a scalar, so that the width has to be known before the array is cut.
-/

namespace TxScript.Indexed

open Curve

/-- The number that the bytes of an integer spell, if it has the width of a scalar. -/
def scalar? (part : Part) (value : Bytes) : Option (Except SignatureFault Nat) := do
  let zeros := (value.findIdx? (· ≠ 0)).getD value.length
  let digits ← Row.slice? value zeros value.length
  if 32 < digits.length then return .error (.tooWide part)
  else
    let start ← diff? 32 digits.length
    let scalar ← Row.overwrite? (List.replicate 32 0) start 32 digits
    return .ok (BigEndian.decode scalar)

/-- One integer at the front of the data, and what follows it. -/
def readInteger? (part : Part) (data : Bytes) : Option (Except SignatureFault (Nat × Bytes)) :=
  if data.length < 2 then some (.error (.noInteger part))
  else do
    let marker ← data[0]?
    if marker ≠ 0x02 then return .error (.noInteger part)
    else
      let length ← data[1]?
      if length = 0 then return .error (.emptyInteger part)
      else
        match Row.slice? data 2 (2 + length.toNat) with
        | none => return .error (.integerOverrun part)
        | some value =>
          match ← scalar? part value with
          | .error e => return .error e
          | .ok n =>
            let rest ← Row.slice? data (2 + length.toNat) data.length
            return .ok (n, rest)

def ofDer? (bs : Bytes) : Option (Except SignatureFault Signature) :=
  if bs.length < 8 then some (.error .tooShort)
  else do
    let marker ← bs[0]?
    if marker ≠ 0x30 then return .error .noSequence
    else
      let length ← bs[1]?
      match Row.slice? bs 2 (2 + length.toNat) with
      | none => return .error .sequenceOverrun
      | some body =>
        match ← readInteger? .r body with
        | .error e => return .error e
        | .ok (r, rest) =>
          match ← readInteger? .s rest with
          | .error e => return .error e
          | .ok (s, _) => return Signature.ofNats r s

/-! ## The same readings -/

/-- The part from the first byte on that is not zero. -/
theorem slice?_digits (value : Bytes) :
    Row.slice? value ((value.findIdx? (· ≠ 0)).getD value.length) value.length
      = some (value.dropWhile (· = 0)) := by
  rw [← List.findIdx_eq_getD_findIdx?, Row.slice?,
    if_pos ⟨List.findIdx_le_length, Nat.le_refl _⟩, List.take_length,
    List.dropWhile_eq_drop_findIdx_not]
  simp

theorem scalar?_eq (part : Part) (value : Bytes) :
    scalar? part value
      = some (if 32 < (value.dropWhile (· = 0)).length then .error (.tooWide part)
        else .ok (BigEndian.decode (value.dropWhile (· = 0)))) := by
  unfold scalar?
  dsimp only
  rw [slice?_digits, Option.bind_eq_bind, Option.bind_some]
  by_cases hwide : 32 < (value.dropWhile (· = 0)).length
  · rw [if_pos hwide, if_pos hwide]
    rfl
  · have hfits := Nat.le_of_not_lt hwide
    simp only [if_neg hwide, diff?_of_le hfits, Row.overwrite?_end hfits,
      BigEndian.decode_zeros_append, Option.bind_eq_bind, Option.bind_some]
    rfl

/-- The slice behind a marker and a length. -/
theorem slice?_body (marker length : UInt8) (rest : Bytes) :
    Row.slice? (marker :: length :: rest) 2 (2 + length.toNat)
      = if rest.length < length.toNat then none else some (rest.take length.toNat) := by
  by_cases h : rest.length < length.toNat
  · rw [if_pos h, Row.slice?_of_lt (by simp only [List.length_cons]; omega)]
  · rw [if_neg h, Row.slice?_of_le (by simp only [List.length_cons]; omega)]
    rfl

theorem slice?_rest {marker length : UInt8} {rest : Bytes} (h : length.toNat ≤ rest.length) :
    Row.slice? (marker :: length :: rest) (2 + length.toNat) (marker :: length :: rest).length
      = some (rest.drop length.toNat) := by
  rw [Row.slice?, if_pos ⟨by simp only [List.length_cons]; omega, Nat.le_refl _⟩, List.take_length,
    Nat.add_comm]
  rfl

theorem readInteger?_eq (part : Part) (data : Bytes) :
    readInteger? part data = some (Signature.readInteger part data) := by
  rcases data with _ | ⟨marker, _ | ⟨length, rest⟩⟩
  · rfl
  · rfl
  have hlong : ¬ (marker :: length :: rest).length < 2 := by simp
  rw [readInteger?, if_neg hlong, Signature.readInteger]
  simp only [List.getElem?_cons_zero, List.getElem?_cons_succ, Option.bind_eq_bind,
    Option.bind_some, slice?_body, scalar?_eq]
  -- both readers ask the same questions in the same order: marker, length, room, width
  by_cases hmarker : marker = 0x02
  · by_cases hlength : length = 0
    · simp only [hmarker, hlength, ne_eq, not_true, if_false, if_true]
      rfl
    · by_cases hover : rest.length < length.toNat
      · simp only [hmarker, hlength, hover, ne_eq, not_true, if_false, if_true]
        rfl
      · have hrest := @slice?_rest marker length rest (Nat.le_of_not_lt hover)
        simp only [hmarker] at hrest
        by_cases hwide : 32 < ((rest.take length.toNat).dropWhile (· = 0)).length
        · simp only [hmarker, hlength, hover, hwide, ne_eq, not_true, if_false, if_true]
          rfl
        · simp only [hmarker, hlength, hover, hwide, hrest, ne_eq, not_true, if_false,
            Option.bind_some]
          rfl
  · simp only [hmarker, ne_eq, not_false_eq_true, if_true]
    rfl

theorem ofDer?_eq (bs : Bytes) : ofDer? bs = some (Signature.ofDer bs) := by
  unfold ofDer? Signature.ofDer
  by_cases hshort : bs.length < 8
  · rw [if_pos hshort, if_pos hshort]
  rw [if_neg hshort, if_neg hshort]
  rcases bs with _ | ⟨marker, _ | ⟨length, rest⟩⟩
  · exact absurd (by decide) hshort
  · exact absurd (by simp) hshort
  simp only [List.getElem?_cons_zero, List.getElem?_cons_succ, Option.bind_eq_bind,
    Option.bind_some, slice?_body, readInteger?_eq]
  by_cases hmarker : marker = 0x30
  · by_cases hover : rest.length < length.toNat
    · simp only [hmarker, hover, ne_eq, not_true, if_false, if_true]
      rfl
    · simp only [hmarker, hover, ne_eq, not_true, if_false]
      cases Signature.readInteger .r (rest.take length.toNat) with
      | error e => rfl
      | ok found =>
          dsimp only
          show _ = some (Signature.readInteger .s found.2 >>= _)
          cases Signature.readInteger .s found.2 <;> rfl
  · simp only [hmarker, ne_eq, not_false_eq_true, if_true]
    rfl

end TxScript.Indexed
