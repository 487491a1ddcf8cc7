import TxScript.Curve.PublicKey

/-!
# Private keys

A private key is a number below the order of the group, and not zero.
-/

namespace TxScript.Curve

structure PrivateKey where
  secret : Scalar
  secret_ne_zero : secret ≠ 0

namespace PrivateKey

theorem ext {a b : PrivateKey} (h : a.secret = b.secret) : a = b := by
  cases a; cases b; cases h; rfl

instance : DecidableEq PrivateKey := fun a b =>
  if h : a.secret = b.secret then isTrue (ext h) else isFalse fun e => h (congrArg secret e)

def ofNat? (n : Nat) : Option PrivateKey :=
  if h : n < groupOrder then
    if h0 : (⟨n, h⟩ : Scalar) ≠ 0 then some ⟨⟨n, h⟩, h0⟩ else none
  else none

def ofBytes (bs : Bytes) : Except KeyError PrivateKey :=
  if bs.length = 32 then
    match ofNat? (BigEndian.decode bs) with
    | some key => .ok key
    | none => .error .privateOutOfRange
  else .error (.privateLength bs.length)

def ofHex (text : String) : Except KeyError PrivateKey :=
  match Hex.decode text with
  | .ok bs => ofBytes bs
  | .error e => .error (.hex e)

def toBytes (key : PrivateKey) : Bytes :=
  key.secret.toBytes

def toHex (key : PrivateKey) : String :=
  Hex.encode key.toBytes

/-- The public key, in the short form. The multiple of the generator by a secret is a point of the
curve other than infinity, so the generator itself never has to stand in for it. -/
def publicKey (key : PrivateKey) : PublicKey :=
  (PublicKey.ofPoint? true (Point.generator.times key.secret.val)).getD .generator

end PrivateKey

end TxScript.Curve
