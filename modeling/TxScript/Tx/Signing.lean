import TxScript.Script.Builder
import TxScript.Tx.Spend

/-!
# Signing inputs

A signature on the stack is its DER form with the hash type behind it. An input is signed only
where its digest covers it: the digest of nothing is never signed.
-/

namespace TxScript

open Curve

/-- Why an input cannot be signed. -/
inductive SignError where
  | noInput (index count : Nat)
  | noOutput (index : Nat)
  | digest (cause : Machine.SignatureError)
  | signing (cause : SignatureFault)
  | script (cause : ScriptError)
  deriving DecidableEq, Repr

def SignError.message : SignError → String
  | .noInput index count =>
    "invalid transaction: input index " ++ toString index ++ " out of range (tx has "
      ++ toString count ++ " inputs)"
  | .noOutput index => "signing error: SIGHASH_SINGLE needs an output at index " ++ toString index
  | .digest cause => "signature error: " ++ cause.message
  | .signing cause => "primitives error: " ++ cause.message
  | .script cause => "script error: " ++ cause.message

namespace Transaction

/-- The signature over an input, with the hash type behind it. -/
def signInput (tx : Transaction) (utxo : Output) (index : Nat) (key : PrivateKey) (t : HashType) :
    Except SignError Bytes := do
  if tx.inputs.length ≤ index then .error (.noInput index tx.inputs.length)
  else if t.coverage? = some .single ∧ tx.outputs.length ≤ index then .error (.noOutput index)
  else
    let digest ← (tx.signatureDigest utxo index t).mapError .digest
    let sig ← (key.sign digest).mapError .signing
    return sig.toDer ++ [t.byte]

end Transaction

/-- The holder of a key, who signs under a hash type and shows the key in one of its forms. -/
structure KeyHolder where
  key : PrivateKey
  hashType : HashType
  compressed : Bool := true

namespace KeyHolder

def publicKey (holder : KeyHolder) : PublicKey :=
  { holder.key.publicKey with compressed := holder.compressed }

/-- The unlocking script for an output that pays to the hash of the key: the signature and the
key. -/
def unlock (holder : KeyHolder) (tx : Transaction) (utxo : Output) (index : Nat) :
    Except SignError Script := do
  let signature ← tx.signInput utxo index holder.key holder.hashType
  let signed ← (Script.empty.appendData signature).mapError .script
  (signed.appendData holder.publicKey.toBytes).mapError .script

end KeyHolder

end TxScript
