import TxScript.Curve.Field
import TxScript.Hash.Digest

/-!
# Signatures and their written form

A signature is a pair of scalars, neither of them zero. It is written in strict DER with its second
part in the lower half of the group order. Reading is more generous: integers may carry leading
zeros, a high second part is kept, and bytes after the declared sequence are ignored.
-/

namespace TxScript.Curve

structure Signature where
  r : Scalar
  s : Scalar
  r_ne_zero : r ≠ 0
  s_ne_zero : s ≠ 0
  deriving DecidableEq

/-- The two integers of a signature. -/
inductive Part where
  | r
  | s
  deriving DecidableEq, Repr

def Part.name : Part → String
  | .r => "R"
  | .s => "S"

/-- Why bytes are no signature. -/
inductive SignatureFault where
  | tooShort
  | noSequence
  | sequenceOverrun
  | noInteger (part : Part)
  | emptyInteger (part : Part)
  | integerOverrun (part : Part)
  | tooWide (part : Part)
  | outOfRange
  deriving DecidableEq, Repr

def SignatureFault.message (fault : SignatureFault) : String :=
  let malformed (reason : String) := "malformed signature: " ++ reason
  "invalid signature: " ++
    match fault with
    | .tooShort => malformed "too short"
    | .noSequence => malformed "no sequence marker"
    | .sequenceOverrun => malformed "sequence length exceeds data"
    | .noInteger part => malformed ("no " ++ part.name ++ " integer marker")
    | .emptyInteger part => malformed ("empty " ++ part.name)
    | .integerOverrun part => malformed ("bogus " ++ part.name ++ " length")
    | .tooWide part => malformed (part.name ++ " wider than 32 bytes")
    | .outOfRange => "signature error"

namespace Signature

/-- The signature with the given parts, which have to lie between one and the group order. -/
def ofNats (r s : Nat) : Except SignatureFault Signature :=
  if hr : r < groupOrder then
    if hs : s < groupOrder then
      if hr0 : (⟨r, hr⟩ : Scalar) ≠ 0 then
        if hs0 : (⟨s, hs⟩ : Scalar) ≠ 0 then .ok ⟨⟨r, hr⟩, ⟨s, hs⟩, hr0, hs0⟩
        else .error .outOfRange
      else .error .outOfRange
    else .error .outOfRange
  else .error .outOfRange

/-- The signature with the given parts, in big-endian bytes. -/
def ofScalarBytes (r s : Bytes) : Except SignatureFault Signature :=
  ofNats (BigEndian.decode r) (BigEndian.decode s)

def isLowS (sig : Signature) : Bool :=
  decide (sig.s.val ≤ groupOrder / 2)

/-- The negative of a scalar is zero only for zero. -/
theorem zero_sub_ne_zero {s : Scalar} (h : s ≠ 0) : 0 - s ≠ 0 := by
  intro e
  apply h
  have hs := s.isLt
  have hv : (groupOrder - s.val + 0) % groupOrder = 0 := congrArg Fin.val e
  apply Fin.ext
  show s.val = 0
  rcases Nat.eq_zero_or_pos s.val with h0 | hpos
  · exact h0
  · rw [Nat.add_zero, Nat.mod_eq_of_lt (by omega)] at hv
    omega

/-- The same signature with its second part in the lower half: a part and its negative verify
alike. -/
def normalized (sig : Signature) : Signature :=
  if sig.isLowS then sig
  else ⟨sig.r, 0 - sig.s, sig.r_ne_zero, zero_sub_ne_zero sig.s_ne_zero⟩

/-- A positive integer in DER: no needless leading zeros, and one where the top bit is taken. -/
def derInteger (a : Scalar) : Bytes :=
  let digits := a.toBytes.dropWhile (· = 0)
  let body := if 0x80 ≤ digits.headD 0 then 0x00 :: digits else digits
  0x02 :: UInt8.ofNat body.length :: body

/-- Strict DER of the normalized signature. -/
def toDer (sig : Signature) : Bytes :=
  let low := sig.normalized
  let body := derInteger low.r ++ derInteger low.s
  0x30 :: UInt8.ofNat body.length :: body

/-- One integer at the front of the data, and what follows it. -/
def readInteger (part : Part) (data : Bytes) : Except SignatureFault (Nat × Bytes) :=
  match data with
  | marker :: length :: rest =>
    if marker ≠ 0x02 then .error (.noInteger part)
    else if length = 0 then .error (.emptyInteger part)
    else if rest.length < length.toNat then .error (.integerOverrun part)
    else
      let digits := (rest.take length.toNat).dropWhile (· = 0)
      if 32 < digits.length then .error (.tooWide part)
      else .ok (BigEndian.decode digits, rest.drop length.toNat)
  | _ => .error (.noInteger part)

def ofDer (bs : Bytes) : Except SignatureFault Signature :=
  if bs.length < 8 then .error .tooShort
  else
    match bs with
    | marker :: length :: rest =>
      if marker ≠ 0x30 then .error .noSequence
      else if rest.length < length.toNat then .error .sequenceOverrun
      else do
        let (r, afterR) ← readInteger .r (rest.take length.toNat)
        let (s, _) ← readInteger .s afterR
        ofNats r s
    | _ => .error .tooShort

end Signature

end TxScript.Curve
