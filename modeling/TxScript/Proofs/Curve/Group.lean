import Mathlib.AlgebraicGeometry.EllipticCurve.Affine.Point
import Mathlib.GroupTheory.OrderOfElement
import TxScript.Curve.Point
import TxScript.Proofs.Curve.Field

/-!
# Points that form the group

The points of y² = x³ + 7 form a group under chord and tangent. Coordinates of such points are
added and multiplied here by the operations that run, and the generator has the agreed order.
-/

namespace TxScript.Curve

open scoped Fin.CommRing

def curve : WeierstrassCurve.Affine FieldElement :=
  ⟨0, 0, 0, 0, 7⟩

theorem discriminant_ne_zero : curve.Δ ≠ 0 := by
  decide +kernel

theorem equation_iff (x y : FieldElement) : curve.Equation x y ↔ Point.OnCurve x y := by
  rw [WeierstrassCurve.Affine.equation_iff]
  unfold Point.OnCurve Point.cubic curve
  constructor
  · intro h
    linear_combination h
  · intro h
    linear_combination h

theorem nonsingular_iff (x y : FieldElement) : curve.Nonsingular x y ↔ Point.OnCurve x y := by
  rw [← equation_iff]
  exact (curve.equation_iff_nonsingular_of_Δ_ne_zero discriminant_ne_zero).symm

theorem negY_eq (x y : FieldElement) : curve.negY x y = -y := by
  simp [WeierstrassCurve.Affine.negY, curve]

theorem addX_eq (x₁ x₂ slope : FieldElement) :
    curve.addX x₁ x₂ slope = slope * slope - x₁ - x₂ := by
  simp only [WeierstrassCurve.Affine.addX, curve]
  ring

theorem addY_eq (x₁ x₂ y₁ slope : FieldElement) :
    curve.addY x₁ x₂ y₁ slope = slope * (x₁ - curve.addX x₁ x₂ slope) - y₁ := by
  simp only [WeierstrassCurve.Affine.addY, WeierstrassCurve.Affine.negAddY, negY_eq]
  ring

namespace Point

/-- A point of the group, as the pair that is computed with. -/
def ofGroup : curve.Point → Point
  | .zero => infinity
  | .some x y _ => affine x y

@[simp] theorem ofGroup_zero : ofGroup 0 = infinity := rfl

theorem ofGroup_injective {P Q : curve.Point} (h : ofGroup P = ofGroup Q) : P = Q := by
  cases P <;> cases Q <;> simp_all [ofGroup]

theorem ofGroup_some_add_some {x₁ y₁ x₂ y₂ : FieldElement} (h₁ : curve.Nonsingular x₁ y₁)
    (h₂ : curve.Nonsingular x₂ y₂) (hxy : ¬(x₁ = x₂ ∧ y₁ = curve.negY x₂ y₂)) :
    ofGroup (.some x₁ y₁ h₁ + .some x₂ y₂ h₂)
      = alongLine (curve.slope x₁ x₂ y₁ y₂) x₁ y₁ x₂ := by
  rw [WeierstrassCurve.Affine.Point.add_some hxy]
  unfold ofGroup alongLine
  simp only [addY_eq, addX_eq]

@[simp] theorem infinity_add (p : Point) : infinity + p = p := by
  cases p <;> rfl

@[simp] theorem add_infinity (p : Point) : p + infinity = p := by
  cases p <;> rfl

theorem affine_add_affine (x₁ y₁ x₂ y₂ : FieldElement) :
    affine x₁ y₁ + affine x₂ y₂ =
      if x₁ = x₂ then
        if y₁ = y₂ ∧ y₁ ≠ 0 then
          alongLine (3 * x₁ * x₁ * inverse (2 * y₁)) x₁ y₁ x₁
        else infinity
      else alongLine ((y₂ - y₁) * inverse (x₂ - x₁)) x₁ y₁ x₂ := rfl

theorem eq_neg_self_iff (y : FieldElement) : y = -y ↔ y = 0 := by
  have htwo : (2 : FieldElement) ≠ 0 := by decide
  constructor
  · intro h
    have hdouble : 2 * y = 0 := by linear_combination h
    exact (mul_eq_zero.1 hdouble).resolve_left htwo
  · intro h
    rw [h, neg_zero]

theorem ofGroup_add (P Q : curve.Point) : ofGroup (P + Q) = ofGroup P + ofGroup Q := by
  cases P with
  | zero => rw [← WeierstrassCurve.Affine.Point.zero_def, zero_add, ofGroup_zero, infinity_add]
  | some x₁ y₁ h₁ =>
      cases Q with
      | zero => rw [← WeierstrassCurve.Affine.Point.zero_def, add_zero, ofGroup_zero, add_infinity]
      | some x₂ y₂ h₂ =>
          have hsum : ofGroup (.some x₁ y₁ h₁) + ofGroup (.some x₂ y₂ h₂)
              = affine x₁ y₁ + affine x₂ y₂ := rfl
          rw [hsum, affine_add_affine]
          by_cases hx : x₁ = x₂
          · rw [if_pos hx]
            have hy : y₁ = y₂ ∨ y₁ = curve.negY x₂ y₂ :=
              WeierstrassCurve.Affine.Y_eq_of_X_eq h₁.1 h₂.1 hx
            by_cases hneg : y₁ = curve.negY x₂ y₂
            · have hopposite : ¬(y₁ = y₂ ∧ y₁ ≠ 0) := by
                intro h
                rw [negY_eq, ← h.1] at hneg
                exact h.2 ((eq_neg_self_iff y₁).1 hneg)
              rw [WeierstrassCurve.Affine.Point.add_of_Y_eq hx hneg, if_neg hopposite, ofGroup_zero]
            · have hsame : y₁ = y₂ := hy.resolve_right hneg
              have hne : y₁ ≠ 0 := by
                intro h
                rw [negY_eq, ← hsame, h, neg_zero] at hneg
                exact hneg rfl
              have hdouble : y₁ - curve.negY x₁ y₁ = 2 * y₁ := by
                rw [negY_eq]
                ring
              have hslope : 3 * x₁ ^ 2 + 2 * curve.a₂ * x₁ + curve.a₄ - curve.a₁ * y₁
                  = 3 * x₁ * x₁ := by
                simp only [curve]
                ring
              rw [ofGroup_some_add_some h₁ h₂ (fun h => hneg h.2), if_pos ⟨hsame, hne⟩,
                WeierstrassCurve.Affine.slope_of_Y_ne hx hneg, hdouble, hslope, div_eq_mul_inv,
                FieldElement.inverse_eq_inv, ← hx]
          · rw [ofGroup_some_add_some h₁ h₂ (fun h => hx h.1), if_neg hx,
              WeierstrassCurve.Affine.slope_of_X_ne hx, div_eq_mul_inv,
              FieldElement.inverse_eq_inv, ← neg_sub y₂, ← neg_sub x₂, inv_neg, neg_mul_neg]

theorem ofGroup_nsmul (k : Nat) (P : curve.Point) : ofGroup (k • P) = (ofGroup P).times k := by
  induction k using Nat.strongRecOn generalizing P with
  | ind k ih =>
      rw [times]
      by_cases hk : k = 0
      · rw [if_pos hk, hk, zero_nsmul, ofGroup_zero]
      · rw [if_neg hk, ← ofGroup_add, ← ih (k / 2) (by omega), ← two_nsmul, ← mul_nsmul']
        have hsplit : k = k / 2 * 2 + k % 2 := by omega
        by_cases hodd : k % 2 = 1
        · rw [hodd] at hsplit
          rw [if_pos hodd, ← ofGroup_add, add_comm, ← succ_nsmul, ← hsplit]
        · have heven : k % 2 = 0 := by omega
          rw [heven, Nat.add_zero] at hsplit
          rw [if_neg hodd, ← hsplit]

/-- Infinity and the pairs on the curve. -/
def InGroup : Point → Prop
  | infinity => True
  | affine x y => OnCurve x y

instance : (p : Point) → Decidable p.InGroup
  | infinity => inferInstanceAs (Decidable True)
  | affine x y => inferInstanceAs (Decidable (OnCurve x y))

def toGroup : (p : Point) → p.InGroup → curve.Point
  | infinity, _ => 0
  | affine x y, h => .some x y ((nonsingular_iff x y).2 h)

@[simp] theorem ofGroup_toGroup (p : Point) (h : p.InGroup) : ofGroup (p.toGroup h) = p := by
  cases p <;> rfl

theorem generator_inGroup : generator.InGroup := by
  decide +kernel

theorem generator_times_groupOrder : generator.times groupOrder = infinity := by
  decide +kernel

end Point

def groupGenerator : curve.Point :=
  Point.generator.toGroup Point.generator_inGroup

theorem addOrderOf_groupGenerator : addOrderOf groupGenerator = groupOrder := by
  have : Fact groupOrder.Prime := ⟨prime_groupOrder⟩
  apply addOrderOf_eq_prime
  · apply Point.ofGroup_injective
    rw [Point.ofGroup_nsmul, groupGenerator, Point.ofGroup_toGroup,
      Point.generator_times_groupOrder, Point.ofGroup_zero]
  · exact WeierstrassCurve.Affine.Point.some_ne_zero _

/-- The multiples of the generator, by scalars. -/
def multiple : Scalar →+ curve.Point where
  toFun a := a.val • groupGenerator
  map_zero' := zero_nsmul groupGenerator
  map_add' a b := by
    have hval : (a + b).val = (a.val + b.val) % addOrderOf groupGenerator := by
      rw [addOrderOf_groupGenerator, Fin.val_add]
    rw [hval, mod_addOrderOf_nsmul, add_nsmul]

theorem multiple_eq (a : Scalar) : multiple a = a.val • groupGenerator := rfl

theorem multiple_mul (a b : Scalar) : multiple (a * b) = a.val • multiple b := by
  have hval : (a * b).val = a.val * b.val % addOrderOf groupGenerator := by
    rw [addOrderOf_groupGenerator, Fin.val_mul]
  rw [multiple_eq, hval, mod_addOrderOf_nsmul, multiple_eq, mul_nsmul']

theorem multiple_ne_zero {a : Scalar} (h : a ≠ 0) : multiple a ≠ 0 := by
  intro hzero
  have hdvd : addOrderOf groupGenerator ∣ a.val := addOrderOf_dvd_of_nsmul_eq_zero hzero
  rw [addOrderOf_groupGenerator] at hdvd
  have hval : a.val = 0 := Nat.eq_zero_of_dvd_of_lt hdvd a.isLt
  exact h (Fin.ext hval)

theorem ofGroup_multiple (a : Scalar) :
    Point.ofGroup (multiple a) = Point.generator.times a.val := by
  rw [multiple_eq, Point.ofGroup_nsmul, groupGenerator, Point.ofGroup_toGroup]

end TxScript.Curve
