import TxScript.Curve.Ecdsa
import TxScript.Machine.Run
import TxScript.Tx.ForkIdDigest
import TxScript.Tx.OriginalDigest

/-!
# Spending an output

One input of a transaction, bound to the output that it spends. It answers what scripts ask about
the transaction, and it is authorized when its unlocking script meets the locking script of that
output.
-/

namespace TxScript

open Machine

/-- The digest that a signature over an input covers; the hash type chooses the algorithm. -/
def Transaction.signatureDigest (tx : Transaction) (utxo : Output) (index : Nat) (t : HashType) :
    Except SignatureError (Digest 32) :=
  if t.hasForkId then ForkIdDigest.digest tx utxo index t
  else OriginalDigest.digest tx utxo index t

/-- The bytes that are hashed for a signature. There are none where the original digest has nothing
to sign. -/
def Transaction.signedBytes? (tx : Transaction) (utxo : Output) (index : Nat) (t : HashType) :
    Except SignatureError (Option Bytes) := do
  if t.hasForkId then
    let bytes ← ForkIdDigest.preimage tx utxo index t
    return some bytes
  else
    let coverage ← t.validate
    if OriginalDigest.hasTarget tx index coverage then
      return some (OriginalDigest.message tx utxo index t coverage)
    else return none

structure Spend where
  tx : Transaction
  utxo : Output
  index : Nat
  index_lt : index < tx.inputs.length

namespace Spend

def of (tx : Transaction) (utxo : Output) (index : Nat) : Except SignatureError Spend :=
  if h : index < tx.inputs.length then .ok ⟨tx, utxo, index, h⟩
  else .error (.inputIndexOutOfRange index tx.inputs.length)

/-- The input that spends. -/
def input (spend : Spend) : Input :=
  spend.tx.inputs.get ⟨spend.index, spend.index_lt⟩

/-- Whether a signature, which ends in its hash type, is one of the key over this input. -/
def checkSignature (spend : Spend) (signature key : Bytes) : Except SignatureError Bool :=
  match signature.getLast? with
  | none => .error .emptySignature
  | some last => do
    let sig ← (Curve.Signature.ofDer signature.dropLast).mapError fun e =>
      .invalidSignature e.message
    let key ← (Curve.PublicKey.ofBytes key).mapError fun e => .invalidPublicKey e.message
    let digest ← spend.tx.signatureDigest spend.utxo spend.index ⟨last⟩
    return key.verify digest sig

def checker (spend : Spend) : Checker where
  check := spend.checkSignature
  lockTime := spend.tx.lockTime
  version := spend.tx.version
  sequence := spend.input.sequence

/-- The surroundings in which the scripts of this input run. -/
def env (spend : Spend) (blockTime : UInt32) : Env :=
  { blockTime := blockTime, checker := some spend.checker }

/-- Whether the spend is authorized as of the given time; if not, why. -/
def verify (spend : Spend) (blockTime : UInt32) : Except VerifyError Unit := do
  let unlock ← (Script.parse spend.input.script).mapError .parse
  let lock ← spend.utxo.parseScript.mapError .parse
  match Machine.verify (spend.env blockTime) lock unlock {} with
  | .ok _ => .ok ()
  | .error h => .error h.error

end Spend

/-- Whether an input of a transaction may spend an output; if not, why. -/
def Transaction.verifyInput (tx : Transaction) (index : Nat) (utxo : Output) (blockTime : UInt32) :
    Except VerifyError Unit :=
  match Spend.of tx utxo index with
  | .ok spend => spend.verify blockTime
  | .error _ => .error (.inputIndexOutOfRange index tx.inputs.length)

end TxScript
