import TxScript.Tx.Basic

/-!
# Reading transactions

Transactions and their parts are read off the front of a byte string. When the bytes end too early,
the error names the field that they end in.
-/

namespace TxScript

/-- The fields of the wire format. -/
inductive TxField where
  | version
  | inputCount
  | outpointHash
  | outpointIndex
  | unlockingScript
  | sequence
  | outputCount
  | value
  | lockingScript
  | lockTime
  deriving DecidableEq, Repr

def TxField.name : TxField → String
  | .version => "version"
  | .inputCount => "input count"
  | .outpointHash => "outpoint hash"
  | .outpointIndex => "outpoint index"
  | .unlockingScript => "unlocking script"
  | .sequence => "sequence number"
  | .outputCount => "output count"
  | .value => "output value"
  | .lockingScript => "locking script"
  | .lockTime => "lock time"

inductive TxReadError where
  | hex (cause : Hex.Error)
  | field (part : TxField) (cause : Wire.ReadError)
  | trailing (count : Nat)
  deriving DecidableEq, Repr

def TxReadError.message (e : TxReadError) : String :=
  "serialization error: " ++
    match e with
    | .hex cause => "invalid hex: " ++ cause.message
    | .field part cause => "reading " ++ part.name ++ ": " ++ cause.message
    | .trailing count => "trailing " ++ toString count ++ " bytes after transaction"

/-- A plain read of one field. -/
def TxField.read {α : Type} (field : TxField) (r : Reader Wire.ReadError α) :
    Reader TxReadError α :=
  r.mapError (.field field)

/-- The id of thirty-two bytes. -/
def TxId.read : Reader Wire.ReadError TxId := fun input =>
  match Wire.take 32 input with
  | .error e rest => .error e rest
  | .ok bs rest =>
    match Digest.ofBytes? bs with
    | some digest => .ok ⟨digest⟩ rest
    | none => .error .endOfData input

def Outpoint.read : Reader TxReadError Outpoint := do
  let txid ← TxField.outpointHash.read TxId.read
  let index ← TxField.outpointIndex.read Wire.u32
  return ⟨txid, index⟩

def Input.read : Reader TxReadError Input := do
  let outpoint ← Outpoint.read
  let script ← TxField.unlockingScript.read Wire.varBytes
  let sequence ← TxField.sequence.read Wire.u32
  return ⟨outpoint, script, sequence⟩

def Output.read : Reader TxReadError Output := do
  let value ← TxField.value.read Wire.u64
  let script ← TxField.lockingScript.read Wire.varBytes
  return ⟨value, script⟩

namespace Transaction

def read : Reader TxReadError Transaction := do
  let version ← TxField.version.read Wire.u32
  let inputCount ← TxField.inputCount.read CompactSize.read
  let inputs ← Input.read.repeated inputCount
  let outputCount ← TxField.outputCount.read CompactSize.read
  let outputs ← Output.read.repeated outputCount
  let lockTime ← TxField.lockTime.read Wire.u32
  return ⟨version, inputs, outputs, lockTime⟩

/-- The transaction that takes up all of the bytes. -/
def ofBytes (bs : Bytes) : Except TxReadError Transaction :=
  match read bs with
  | .error e _ => .error e
  | .ok tx rest => if rest.isEmpty then .ok tx else .error (.trailing rest.length)

def ofHex (text : String) : Except TxReadError Transaction :=
  match Hex.decode text with
  | .ok bs => ofBytes bs
  | .error e => .error (.hex e)

end Transaction

end TxScript
