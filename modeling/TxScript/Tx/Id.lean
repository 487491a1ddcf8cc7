import TxScript.Hash.Sha256
import TxScript.Json.Reading

/-!
# Transaction ids

An id is the double hash of a transaction. On the wire its bytes stand in the order of the digest;
as text they stand in reverse.
-/

namespace TxScript

structure TxId where
  digest : Digest 32
  deriving DecidableEq

/-- Why bytes or text are no id. -/
inductive TxIdError where
  | hex (cause : Hex.Error)
  | length (actual : Nat)
  deriving DecidableEq, Repr

def TxIdError.message : TxIdError → String
  | .hex cause => "invalid hex: " ++ cause.message
  | .length actual =>
    "invalid hash: invalid hash length of " ++ toString actual ++ ", want 32"

namespace TxId

/-- The id of zero bytes, which no transaction has. -/
def zero : TxId := ⟨Digest.zero⟩

def bytes (id : TxId) : Bytes :=
  id.digest.bytes

@[simp] theorem length_bytes (id : TxId) : id.bytes.length = 32 :=
  id.digest.length_bytes

def isZero (id : TxId) : Bool :=
  id.bytes.all (· = 0)

/-- The id of bytes in the order of the wire. -/
def ofBytes (bs : Bytes) : Except TxIdError TxId :=
  match Digest.ofBytes? bs with
  | some digest => .ok ⟨digest⟩
  | none => .error (.length bs.length)

/-- The id of a text, whose bytes stand in reverse. -/
def ofHex (text : String) : Except TxIdError TxId :=
  match Hex.decode text with
  | .ok bs => ofBytes bs.reverse
  | .error e => .error (.hex e)

def toHex (id : TxId) : String :=
  Hex.encode id.bytes.reverse

def hashOf (data : Bytes) : TxId :=
  ⟨Hash.sha256d data⟩

def ofJsonText? (text : String) : Option TxId := do
  let hex ← (← Json.parse? text).text?
  (ofHex hex).toOption

def toJsonText (id : TxId) : String :=
  Json.quotePlain id.toHex

end TxId

end TxScript
