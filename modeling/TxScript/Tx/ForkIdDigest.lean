import TxScript.Tx.Basic
import TxScript.Tx.HashType

/-!
# The digest of the fork

The parts that all inputs share are hashed on their own, so that signing many inputs stays linear,
and the value of the spent output is covered too. What the hash type does not cover is replaced by
zero bytes.
-/

namespace TxScript

namespace ForkIdDigest

open Hash

/-- The hash of all outpoints. -/
def hashPrevouts (tx : Transaction) : Digest 32 :=
  sha256d (tx.inputs.flatMap fun i => i.outpoint.encode)

/-- The hash of all sequence numbers. -/
def hashSequence (tx : Transaction) : Digest 32 :=
  sha256d (tx.inputs.flatMap fun i => LittleEndian.encode 4 i.sequence.toNat)

/-- The hash of all outputs. -/
def hashOutputs (tx : Transaction) : Digest 32 :=
  sha256d (tx.outputs.flatMap Output.encode)

/-- The hash of one output, or of nothing if there is none. -/
def hashOutputAt (tx : Transaction) (index : Nat) : Digest 32 :=
  sha256d (((tx.outputs.drop index).take 1).flatMap Output.encode)

def coveredPrevouts (tx : Transaction) (t : HashType) : Digest 32 :=
  if t.anyoneCanPay then Digest.zero else hashPrevouts tx

def coveredSequence (tx : Transaction) (t : HashType) (coverage : Coverage) : Digest 32 :=
  if t.anyoneCanPay || decide (coverage ≠ .all) then Digest.zero else hashSequence tx

def coveredOutputs (tx : Transaction) (signed : Nat) (coverage : Coverage) : Digest 32 :=
  match coverage with
  | .all => hashOutputs tx
  | .none => Digest.zero
  | .single => if signed < tx.outputs.length then hashOutputAt tx signed else Digest.zero

/-- What is hashed for a signed input. -/
def message (tx : Transaction) (utxo : Output) (signed : Nat) (input : Input) (t : HashType)
    (coverage : Coverage) : Bytes :=
  LittleEndian.encode 4 tx.version.toNat
    ++ (coveredPrevouts tx t).bytes
    ++ (coveredSequence tx t coverage).bytes
    ++ input.outpoint.encode
    ++ Wire.encodeVarBytes utxo.script
    ++ LittleEndian.encode 8 utxo.value.toNat
    ++ LittleEndian.encode 4 input.sequence.toNat
    ++ (coveredOutputs tx signed coverage).bytes
    ++ LittleEndian.encode 4 tx.lockTime.toNat
    ++ t.encode

def preimage (tx : Transaction) (utxo : Output) (signed : Nat) (t : HashType) :
    Except Machine.SignatureError Bytes := do
  let coverage ← t.validate
  match tx.inputs[signed]? with
  | some input => return message tx utxo signed input t coverage
  | none => .error (.inputIndexOutOfRange signed tx.inputs.length)

def digest (tx : Transaction) (utxo : Output) (signed : Nat) (t : HashType) :
    Except Machine.SignatureError (Digest 32) := do
  let bytes ← preimage tx utxo signed t
  return sha256d bytes

end ForkIdDigest

end TxScript
