import Mathlib.Algebra.Field.Basic
import Mathlib.Data.Fin.Basic
import Mathlib.Data.ZMod.Defs
import Mathlib.FieldTheory.Finite.Basic
import Mathlib.Tactic.Ring
import TxScript.Proofs.Curve.Modulus

/-!
# Inverses and square roots

The little theorem of Fermat makes numbers modulo an odd prime a field whose inverse is the one
that runs. The field structures are in scope only where the namespace is open, since the general
division of `Fin` is another one.
-/

namespace TxScript.Curve

open scoped Fin.CommRing

theorem power_eq_pow {m : Nat} [NeZero m] (a : Fin m) (exponent : Nat) :
    power a exponent = a ^ exponent := by
  apply Fin.ext
  show powerMod m a.val exponent = _
  rw [powerMod_eq]
  induction exponent with
  | zero => simp
  | succ exponent ih => rw [pow_succ, pow_succ, Fin.val_mul, ← ih, ← Nat.mod_mul_mod]

theorem pow_prime_sub_one {p : Nat} [NeZero p] (hp : p.Prime) {a : Fin p} (ha : a ≠ 0) :
    a ^ (p - 1) = 1 := by
  have hpos : 0 < a.val := Nat.pos_of_ne_zero fun h => ha (Fin.ext h)
  have hcoprime : Nat.Coprime a.val p :=
    Nat.coprime_comm.1 ((Nat.Prime.coprime_iff_not_dvd hp).2 (Nat.not_dvd_of_pos_of_lt hpos a.isLt))
  have hfermat : a.val ^ (p - 1) % p = 1 % p := by
    rw [← Nat.totient_prime hp]
    exact Nat.ModEq.pow_totient hcoprime
  rw [← power_eq_pow]
  apply Fin.ext
  show powerMod p a.val (p - 1) = _
  rw [powerMod_eq, hfermat, Fin.val_one']

abbrev fieldOfPrime {p : Nat} [NeZero p] (hp : p.Prime) (hodd : 2 < p) : Field (Fin p) where
  inv := inverse
  div := fun a b => a * inverse b
  div_eq_mul_inv _ _ := rfl
  exists_pair_ne := by
    have hne : (0 : Fin p) ≠ ⟨1, hp.one_lt⟩ := by
      intro h
      have := congrArg Fin.val h
      simp at this
    exact ⟨0, _, hne⟩
  mul_inv_cancel a ha := by
    have hexp : p - 1 = p - 2 + 1 := by omega
    show a * power a (p - 2) = 1
    rw [power_eq_pow, mul_comm, ← pow_succ, ← hexp, pow_prime_sub_one hp ha]
  inv_zero := by
    show power 0 (p - 2) = 0
    rw [power_eq_pow, zero_pow (by omega)]
  nnqsmul := _
  nnqsmul_def := fun _ _ => rfl
  qsmul := _
  qsmul_def := fun _ _ => rfl

scoped instance : Field FieldElement := fieldOfPrime prime_fieldPrime (by decide)

scoped instance : Field Scalar := fieldOfPrime prime_groupOrder (by decide)

theorem FieldElement.inverse_eq_inv (a : FieldElement) : inverse a = a⁻¹ := rfl

theorem Scalar.inverse_eq_inv (a : Scalar) : inverse a = a⁻¹ := rfl

/-- The root that is found is the one that was squared, or its negative. -/
theorem squareRoot?_mul_self (y : FieldElement) :
    squareRoot? (y * y) = some y ∨ squareRoot? (y * y) = some (0 - y) := by
  have hroot : power (y * y) ((fieldPrime + 1) / 4) * power (y * y) ((fieldPrime + 1) / 4)
      = y * y := by
    by_cases hy : y = 0
    · rw [hy, power_eq_pow, mul_zero, zero_pow (by decide), mul_zero]
    · have hexp : (fieldPrime + 1) / 4 + (fieldPrime + 1) / 4
          + ((fieldPrime + 1) / 4 + (fieldPrime + 1) / 4) = fieldPrime - 1 + 2 := by decide
      rw [power_eq_pow, mul_pow, ← pow_add, ← pow_add, hexp, pow_add,
        pow_prime_sub_one prime_fieldPrime hy, one_mul, pow_two]
  unfold squareRoot?
  rw [if_pos hroot, zero_sub]
  rcases mul_self_eq_mul_self_iff.1 hroot with hsame | hneg
  · exact Or.inl (congrArg some hsame)
  · exact Or.inr (congrArg some hneg)

end TxScript.Curve
