import TxScript.Script.Basic
import TxScript.Tx.Id
import TxScript.Wire.CompactSize

/-!
# Transactions

A transaction spends outputs of earlier ones and makes new ones. Scripts are kept as raw bytes: one
that cannot be read does not keep its transaction from being read.
-/

namespace TxScript

/-- One output of an earlier transaction. -/
structure Outpoint where
  txid : TxId
  index : UInt32
  deriving DecidableEq

namespace Outpoint

/-- The outpoint of an input that spends nothing. -/
def null : Outpoint := ⟨.zero, 0xffffffff⟩

def isNull (o : Outpoint) : Bool :=
  decide (o.index = 0xffffffff) && o.txid.isZero

def encode (o : Outpoint) : Bytes :=
  o.txid.bytes ++ LittleEndian.encode 4 o.index.toNat

def toText (o : Outpoint) : String :=
  o.txid.toHex ++ ":" ++ toString o.index.toNat

end Outpoint

structure Input where
  outpoint : Outpoint
  /-- The unlocking script. -/
  script : Bytes
  sequence : UInt32
  deriving DecidableEq

namespace Input

/-- An input without a script, and without a relative lock time. -/
def unsigned (outpoint : Outpoint) : Input :=
  ⟨outpoint, [], 0xffffffff⟩

def encode (i : Input) : Bytes :=
  i.outpoint.encode ++ Wire.encodeVarBytes i.script ++ LittleEndian.encode 4 i.sequence.toNat

end Input

structure Output where
  value : UInt64
  /-- The locking script. -/
  script : Bytes
  deriving DecidableEq

namespace Output

/-- No value under an empty script. -/
def blank : Output := ⟨0, []⟩

/-- An amount under a locking script. -/
def paying (value : UInt64) (lock : Script) : Output := ⟨value, lock.bytes⟩

def encode (o : Output) : Bytes :=
  LittleEndian.encode 8 o.value.toNat ++ Wire.encodeVarBytes o.script

def parseScript (o : Output) : Except ParseError Script :=
  Script.parse o.script

end Output

structure Transaction where
  version : UInt32
  inputs : List Input
  outputs : List Output
  /-- The height or the time before which the transaction is not final. -/
  lockTime : UInt32
  deriving DecidableEq

namespace Transaction

/-- A transaction of version one without inputs and outputs. -/
def empty : Transaction := ⟨1, [], [], 0⟩

def encode (tx : Transaction) : Bytes :=
  LittleEndian.encode 4 tx.version.toNat
    ++ (CompactSize.encode tx.inputs.length ++ tx.inputs.flatMap Input.encode)
    ++ (CompactSize.encode tx.outputs.length ++ tx.outputs.flatMap Output.encode)
    ++ LittleEndian.encode 4 tx.lockTime.toNat

def toHex (tx : Transaction) : String :=
  Hex.encode tx.encode

def id (tx : Transaction) : TxId :=
  TxId.hashOf tx.encode

/-- A coinbase has one input, and that spends nothing. -/
def isCoinbase (tx : Transaction) : Bool :=
  match tx.inputs with
  | [only] => only.outpoint.isNull
  | _ => false

/-- The outpoint of one of the outputs of this transaction. -/
def outpoint (tx : Transaction) (index : UInt32) : Outpoint :=
  ⟨tx.id, index⟩

end Transaction

end TxScript
