import TxScript.Tx.Basic
import TxScript.Tx.HashType

/-!
# The original signature digest

What is hashed is the transaction itself, with the scripts taken out, the spent script put in at
the signed input, and all that the hash type does not cover blanked. Where there is nothing to
sign, the digest is the number one; signatures over it exist, so it is no error.
-/

namespace TxScript

namespace OriginalDigest

/-- The number one, in little-endian bytes. -/
def one : Digest 32 :=
  ⟨0x01 :: List.replicate 31 0x00, rfl⟩

/-- The locking script without its code separators; a script that cannot be read counts as
empty. -/
def scriptCode (locking : Bytes) : Bytes :=
  match Script.parse locking with
  | .ok s => (s.withoutOpcode .codeSeparator).bytes
  | .error _ => []

/-- An input as the signature sees it. -/
def coverInput (coverage : Coverage) (code : Bytes) (signed i : Nat) (input : Input) : Input :=
  if i = signed then { input with script := code }
  else ⟨input.outpoint, [], if coverage = .all then input.sequence else 0⟩

def coveredInputs (tx : Transaction) (coverage : Coverage) (anyoneCanPay : Bool) (code : Bytes)
    (signed : Nat) : List Input :=
  let inputs := tx.inputs.mapIdx (coverInput coverage code signed)
  if anyoneCanPay then (inputs.drop signed).take 1 else inputs

/-- The outputs as the signature sees them. With the single one go blank ones for those before
it. -/
def coveredOutputs (tx : Transaction) (coverage : Coverage) (signed : Nat) : List Output :=
  match coverage with
  | .all => tx.outputs
  | .none => []
  | .single => List.replicate signed .blank ++ (tx.outputs.drop signed).take 1

def trimmed (tx : Transaction) (utxo : Output) (signed : Nat) (t : HashType)
    (coverage : Coverage) : Transaction :=
  { tx with
    inputs := coveredInputs tx coverage t.anyoneCanPay (scriptCode utxo.script) signed
    outputs := coveredOutputs tx coverage signed }

/-- What is hashed. -/
def message (tx : Transaction) (utxo : Output) (signed : Nat) (t : HashType)
    (coverage : Coverage) : Bytes :=
  (trimmed tx utxo signed t coverage).encode ++ t.encode

/-- Whether there is an input to sign and, for single coverage, an output beside it. -/
def hasTarget (tx : Transaction) (signed : Nat) (coverage : Coverage) : Bool :=
  decide (signed < tx.inputs.length)
    && (decide (coverage ≠ .single) || decide (signed < tx.outputs.length))

def digest (tx : Transaction) (utxo : Output) (signed : Nat) (t : HashType) :
    Except Machine.SignatureError (Digest 32) := do
  let coverage ← t.validate
  if hasTarget tx signed coverage then
    return Hash.sha256d (message tx utxo signed t coverage)
  else return one

end OriginalDigest

end TxScript
