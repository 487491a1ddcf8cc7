import TxScript.Bytes.Basic

/-!
# The two prime fields of secp256k1

Coordinates of points are numbers modulo the field prime, and secrets, nonces and signature parts
are numbers modulo the order of the group. Both moduli are prime, so a power gives inverses.
-/

namespace TxScript.Curve

def fieldPrime : Nat := 0xfffffffffffffffffffffffffffffffffffffffffffffffffffffffefffffc2f

def groupOrder : Nat := 0xfffffffffffffffffffffffffffffffebaaedce6af48a03bbfd25e8cd0364141

/-- The zero is the numeral, whatever other zeros are in scope. -/
instance : @NeZero Nat Zero.ofOfNat0 fieldPrime := ⟨by decide⟩

instance : @NeZero Nat Zero.ofOfNat0 groupOrder := ⟨by decide⟩

abbrev FieldElement := Fin fieldPrime

abbrev Scalar := Fin groupOrder

variable {m : Nat}

/-- The power of a number modulo another, by the base-16 digits of the exponent. -/
def powerMod (m a exponent : Nat) : Nat :=
  if exponent = 0 then 1 % m
  else Nat.pow (powerMod m a (exponent / 16)) 16 * Nat.pow a (exponent % 16) % m
  termination_by exponent

theorem powerMod_lt (h : 0 < m) (a exponent : Nat) : powerMod m a exponent < m := by
  rw [powerMod]
  split
  · exact Nat.mod_lt _ h
  · exact Nat.mod_lt _ h

def power (a : Fin m) (exponent : Nat) : Fin m :=
  ⟨powerMod m a.val exponent, powerMod_lt a.pos a.val exponent⟩

/-- The inverse modulo a prime, by the little theorem of Fermat; zero goes to zero. -/
def inverse (a : Fin m) : Fin m :=
  power a (m - 2)

/-- A square root, if there is one: the field prime leaves remainder three modulo four. -/
def squareRoot? (a : FieldElement) : Option FieldElement :=
  let root := power a ((fieldPrime + 1) / 4)
  if root * root = a then some root else none

/-- The field element of 32 big-endian bytes, unless they spell the prime or more. -/
def FieldElement.ofBytes? (bs : Bytes) : Option FieldElement :=
  let n := BigEndian.decode bs
  if h : n < fieldPrime then some ⟨n, h⟩ else none

def FieldElement.toBytes (a : FieldElement) : Bytes :=
  BigEndian.encode 32 a.val

def Scalar.toBytes (a : Scalar) : Bytes :=
  BigEndian.encode 32 a.val

end TxScript.Curve
