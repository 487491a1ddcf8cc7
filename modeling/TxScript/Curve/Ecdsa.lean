import TxScript.Curve.PrivateKey
import TxScript.Curve.Signature
import TxScript.Hash.Hmac

/-!
# Signing and verifying

ECDSA over secp256k1. The nonce is derived from the key and the digest alone, as RFC 6979 lays down
for HMAC-SHA-256, so signing is a function.
-/

namespace TxScript.Curve

open Hash

/-- A digest as a scalar. -/
def Scalar.ofDigest (digest : Digest 32) : Scalar :=
  Fin.ofNat groupOrder (BigEndian.decode digest.bytes)

/-- The key and the chaining value of the deterministic generator. -/
structure NonceState where
  key : Bytes
  value : Bytes

namespace NonceState

def mix (s : NonceState) (tag : UInt8) (data : Bytes) : NonceState :=
  let key := hmacSha256 s.key (s.value ++ tag :: data)
  ⟨key, hmacSha256 key s.value⟩

def start (secret : Scalar) (digest : Digest 32) : NonceState :=
  let seed := secret.toBytes ++ digest.bytes
  let blank : NonceState := ⟨List.replicate 32 0x00, List.replicate 32 0x01⟩
  (blank.mix 0x00 seed).mix 0x01 seed

/-- The first value that is a scalar and not zero, among so many attempts. -/
def draw? : (attempts : Nat) → NonceState → Option PrivateKey
  | 0, _ => none
  | attempts + 1, s =>
    let value := hmacSha256 s.key s.value
    match PrivateKey.ofNat? (BigEndian.decode value) with
    | some nonce => some nonce
    | none => draw? attempts ((NonceState.mk s.key value).mix 0x00 [])

end NonceState

/-- An attempt fails once in 2¹²⁷ times, so the bound on attempts is never met. -/
def nonceAttempts : Nat := 64

def nonce? (key : PrivateKey) (digest : Digest 32) : Option PrivateKey :=
  NonceState.draw? nonceAttempts (NonceState.start key.secret digest)

namespace Point

/-- The first coordinate as a scalar. -/
def xScalar? : Point → Option Scalar
  | infinity => none
  | affine x _ => some (Fin.ofNat groupOrder x.val)

end Point

namespace PrivateKey

/-- The signature of a digest, in normal form. There is none only when the nonce or one of the two
parts comes out as zero. -/
def sign? (key : PrivateKey) (digest : Digest 32) : Option Signature := do
  let z := Scalar.ofDigest digest
  let nonce ← nonce? key digest
  let r ← (Point.generator.times nonce.secret.val).xScalar?
  let s := inverse nonce.secret * (z + r * key.secret)
  if hr : r ≠ 0 then
    if hs : s ≠ 0 then some (Signature.mk r s hr hs).normalized else none
  else none

def sign (key : PrivateKey) (digest : Digest 32) : Except SignatureFault Signature :=
  (key.sign? digest).elim (.error .outOfRange) .ok

end PrivateKey

namespace PublicKey

/-- Whether the signature, in normal form, is one of this key over the digest. -/
def verify (key : PublicKey) (digest : Digest 32) (sig : Signature) : Bool :=
  let low := sig.normalized
  let w := inverse low.s
  let u₁ := Scalar.ofDigest digest * w
  let u₂ := low.r * w
  let sum := Point.generator.times u₁.val + key.point.times u₂.val
  decide (sum.xScalar? = some low.r)

end PublicKey

end TxScript.Curve
