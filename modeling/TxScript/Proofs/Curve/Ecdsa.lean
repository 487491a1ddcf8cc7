import Mathlib.Tactic.LinearCombination
import TxScript.Curve.Ecdsa
import TxScript.Proofs.Curve.Group

/-!
# A signature verifies

The point that verifying finds is the one that signing chose, or its negative when the second part
was brought into the lower half. Both have the same first coordinate.
-/

namespace TxScript.Curve

namespace PrivateKey

/-- What signing computes, and where it can stop. -/
theorem sign?_eq_some {key : PrivateKey} {digest : Digest 32} {sig : Signature}
    (h : key.sign? digest = some sig) :
    ∃ nonce r s, ∃ (hr : r ≠ 0) (hs : s ≠ 0),
      nonce? key digest = some nonce
        ∧ (Point.generator.times nonce.secret.val).xScalar? = some r
        ∧ s = inverse nonce.secret * (Scalar.ofDigest digest + r * key.secret)
        ∧ sig = (Signature.mk r s hr hs).normalized := by
  unfold sign? at h
  simp only [Option.bind_eq_bind, Option.bind_eq_some_iff] at h
  rcases h with ⟨nonce, hnonce, r, hr, h⟩
  by_cases hr0 : r ≠ 0
  · rw [dif_pos hr0] at h
    by_cases hs0 : inverse nonce.secret * (Scalar.ofDigest digest + r * key.secret) ≠ 0
    · rw [dif_pos hs0] at h
      exact ⟨nonce, r, _, hr0, hs0, hnonce, hr, rfl, (Option.some.inj h).symm⟩
    · rw [dif_neg hs0] at h
      cases h
  · rw [dif_neg hr0] at h
    cases h

theorem sign?_isSome {key nonce : PrivateKey} {digest : Digest 32} {r : Scalar}
    (hnonce : nonce? key digest = some nonce)
    (hx : (Point.generator.times nonce.secret.val).xScalar? = some r) (hr : r ≠ 0)
    (hs : inverse nonce.secret * (Scalar.ofDigest digest + r * key.secret) ≠ 0) :
    (key.sign? digest).isSome = true := by
  unfold sign?
  simp only [Option.bind_eq_bind, hnonce, Option.bind_some, hx]
  rw [dif_pos hr, dif_pos hs, Option.isSome_some]

end PrivateKey

open scoped Fin.CommRing

namespace Signature

theorem val_zero_sub {s : Scalar} (h : s ≠ 0) : (0 - s).val = groupOrder - s.val := by
  have hpos : 0 < s.val := Nat.pos_of_ne_zero fun hz => h (Fin.ext hz)
  show (groupOrder - s.val + 0) % groupOrder = _
  rw [Nat.add_zero, Nat.mod_eq_of_lt (by omega)]

theorem isLowS_normalized (sig : Signature) : sig.normalized.isLowS = true := by
  unfold normalized
  by_cases hlow : sig.isLowS = true
  · rw [if_pos hlow, hlow]
  · rw [if_neg hlow]
    unfold isLowS at hlow ⊢
    rw [decide_eq_true_iff] at hlow ⊢
    show (0 - sig.s).val ≤ _
    rw [val_zero_sub sig.s_ne_zero]
    omega

@[simp] theorem normalized_normalized (sig : Signature) :
    sig.normalized.normalized = sig.normalized :=
  if_pos (isLowS_normalized sig)

@[simp] theorem normalized_r (sig : Signature) : sig.normalized.r = sig.r := by
  unfold normalized
  split <;> rfl

theorem normalized_s (sig : Signature) :
    sig.normalized.s = sig.s ∨ sig.normalized.s = -sig.s := by
  unfold normalized
  split
  · exact Or.inl rfl
  · exact Or.inr (zero_sub sig.s)

theorem eq_of_parts {sig sig' : Signature} (hr : sig'.r = sig.r) (hs : sig'.s = sig.s) :
    sig' = sig := by
  cases sig
  cases sig'
  cases hr
  cases hs
  rfl

/-- A second part and its negative are brought to the same one of the two: the order is odd, so
just one of them is in the lower half. -/
theorem normalized_eq_normalized {sig sig' : Signature} (hr : sig'.r = sig.r)
    (hs : sig'.s = sig.s ∨ sig'.s.val = groupOrder - sig.s.val) :
    sig'.normalized = sig.normalized := by
  obtain hs | hs := hs
  · rw [eq_of_parts hr hs]
  · have hodd : groupOrder % 2 = 1 := by decide
    have hlt := sig.s.isLt
    have hneg := val_zero_sub sig.s_ne_zero
    have hneg' := val_zero_sub sig'.s_ne_zero
    unfold normalized isLowS
    by_cases hlow : sig.s.val ≤ groupOrder / 2
    · have hhigh : ¬ sig'.s.val ≤ groupOrder / 2 := by omega
      have hback : 0 - sig'.s = sig.s := Fin.ext (by omega)
      simp only [hlow, hhigh, decide_true, decide_false, Bool.false_eq_true, if_true, if_false]
      exact eq_of_parts hr hback
    · have hlow' : sig'.s.val ≤ groupOrder / 2 := by omega
      have hthere : sig'.s = 0 - sig.s := Fin.ext (by omega)
      simp only [hlow, hlow', decide_true, decide_false, Bool.false_eq_true, if_true, if_false]
      exact eq_of_parts hr hthere

end Signature

namespace Point

theorem xScalar?_neg (P : curve.Point) : (ofGroup (-P)).xScalar? = (ofGroup P).xScalar? := by
  cases P <;> rfl

end Point

/-- Every element of the group but the neutral one is a key. -/
theorem PublicKey.exists_ofPoint?_ofGroup {P : curve.Point} (h : P ≠ 0) (compressed : Bool) :
    ∃ key, ofPoint? compressed (Point.ofGroup P) = some key := by
  cases P with
  | zero => exact absurd rfl h
  | some x y hcurve => exact ⟨_, dif_pos ((nonsingular_iff x y).1 hcurve)⟩

namespace PrivateKey

/-- The multiple of the generator by a secret is a key, and is the one that is taken. -/
theorem publicKey_point (key : PrivateKey) :
    key.publicKey.point = Point.ofGroup (multiple key.secret) := by
  obtain ⟨own, hown⟩ := PublicKey.exists_ofPoint?_ofGroup (multiple_ne_zero key.secret_ne_zero) true
  have hpublic : key.publicKey = own := by
    rw [publicKey, ← ofGroup_multiple, hown, Option.getD_some]
  rw [hpublic]
  exact (PublicKey.ofPoint?_eq_some.1 hown).1

end PrivateKey

namespace PublicKey

/-- The point that verifying computes, for a key with a known secret. -/
theorem verify_publicKey (key : PrivateKey) (digest : Digest 32) (sig : Signature) :
    key.publicKey.verify digest sig = decide
      ((Point.ofGroup (multiple
        (Scalar.ofDigest digest * sig.normalized.s⁻¹ + sig.r * sig.normalized.s⁻¹ * key.secret))
        ).xScalar? = some sig.r) := by
  unfold verify
  dsimp only
  rw [key.publicKey_point, ← ofGroup_multiple, ← Point.ofGroup_nsmul, ← multiple_mul,
    ← Point.ofGroup_add, ← map_add, Signature.normalized_r, Scalar.inverse_eq_inv]

/-- Only the normal form is looked at. -/
theorem verify_normalized (key : PublicKey) (digest : Digest 32) (sig : Signature) :
    key.verify digest sig.normalized = key.verify digest sig := by
  unfold verify
  rw [Signature.normalized_normalized]

/-- Only the point of the key and the normal form of the signature are looked at. -/
theorem verify_eq_verify {key key' : PublicKey} {sig sig' : Signature}
    (hpoint : key'.point = key.point) (hnormal : sig'.normalized = sig.normalized)
    (digest : Digest 32) : key'.verify digest sig' = key.verify digest sig := by
  unfold verify
  rw [hpoint, hnormal]

end PublicKey

/-- A signature verifies under the key that made it. -/
theorem PrivateKey.verify_of_sign? {key : PrivateKey} {digest : Digest 32} {sig : Signature}
    (h : key.sign? digest = some sig) : key.publicKey.verify digest sig = true := by
  rcases sign?_eq_some h with ⟨nonce, r, s, hr, hs, -, hx, hsum, hsig⟩
  rw [PublicKey.verify_publicKey, hsig, Signature.normalized_normalized, Signature.normalized_r,
    decide_eq_true_iff]
  rw [← ofGroup_multiple] at hx
  have hscaled : Scalar.ofDigest digest + r * key.secret = nonce.secret * s := by
    rw [hsum, Scalar.inverse_eq_inv, mul_inv_cancel_left₀ nonce.secret_ne_zero]
  have hfound (w : Scalar) : Scalar.ofDigest digest * w + r * w * key.secret
      = nonce.secret * s * w := by
    rw [← hscaled]
    ring
  show (Point.ofGroup (multiple (_ + r * _ * _))).xScalar? = some r
  rcases Signature.normalized_s ⟨r, s, hr, hs⟩ with hsame | hneg
  · rw [hsame, hfound, mul_inv_cancel_right₀ hs, hx]
  · rw [hneg, hfound, inv_neg, mul_neg, mul_inv_cancel_right₀ hs, map_neg, Point.xScalar?_neg, hx]

end TxScript.Curve
