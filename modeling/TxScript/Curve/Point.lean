import TxScript.Curve.Field

/-!
# Points of secp256k1

The curve is y² = x³ + 7, with a point at infinity as the neutral element. Addition is by chord and
tangent on affine coordinates.
-/

namespace TxScript.Curve

inductive Point where
  | infinity
  | affine (x y : FieldElement)
  deriving DecidableEq, Repr

namespace Point

/-- The right side of the curve equation. -/
def cubic (x : FieldElement) : FieldElement :=
  x * x * x + 7

def OnCurve (x y : FieldElement) : Prop :=
  y * y = cubic x

instance (x y : FieldElement) : Decidable (OnCurve x y) :=
  inferInstanceAs (Decidable (y * y = cubic x))

/-- The third intersection of a line through (x₁, y₁) with the given slope, mirrored; `x₂` is the
second intersection. -/
def alongLine (slope x₁ y₁ x₂ : FieldElement) : Point :=
  let x₃ := slope * slope - x₁ - x₂
  affine x₃ (slope * (x₁ - x₃) - y₁)

def add : Point → Point → Point
  | infinity, q => q
  | p, infinity => p
  | affine x₁ y₁, affine x₂ y₂ =>
    if x₁ = x₂ then
      if y₁ = y₂ ∧ y₁ ≠ 0 then
        alongLine (3 * x₁ * x₁ * inverse (2 * y₁)) x₁ y₁ x₁
      else infinity
    else alongLine ((y₂ - y₁) * inverse (x₂ - x₁)) x₁ y₁ x₂

instance : Add Point := ⟨add⟩

/-- The `k`-fold sum of a point, by doubling. -/
def times (k : Nat) (p : Point) : Point :=
  if k = 0 then infinity
  else
    let half := times (k / 2) (p + p)
    if k % 2 = 1 then p + half else half
  termination_by k

def generatorX : FieldElement :=
  ⟨0x79be667ef9dcbbac55a06295ce870b07029bfcdb2dce28d959f2815b16f81798, by decide⟩

def generatorY : FieldElement :=
  ⟨0x483ada7726a3c4655da4fbfc0e1108a8fd17b448a68554199c47d08ffb10d4b8, by decide⟩

/-- The agreed point of prime order. -/
def generator : Point :=
  affine generatorX generatorY

/-- The point with the given first coordinate whose second coordinate has the wanted parity. -/
def ofX? (x : FieldElement) (odd : Bool) : Option Point :=
  (squareRoot? (cubic x)).map fun y =>
    affine x (if decide (y.val % 2 = 1) = odd then y else 0 - y)

end Point

end TxScript.Curve
