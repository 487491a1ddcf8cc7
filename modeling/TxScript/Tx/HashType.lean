import TxScript.Machine.Error

/-!
# Hash types

The last byte of a signature says what the signature covers. The low five bits name the outputs
covered; two more bits choose the digest and free the other inputs.
-/

namespace TxScript

/-- Which outputs a signature covers: all of them, none, or the one beside its input. -/
inductive Coverage where
  | all
  | none
  | single
  deriving DecidableEq, Repr

def Coverage.name : Coverage → String
  | .all => "ALL"
  | .none => "NONE"
  | .single => "SINGLE"

structure HashType where
  byte : UInt8
  deriving DecidableEq, Repr

namespace HashType

def base (t : HashType) : UInt8 :=
  t.byte &&& 0x1f

def coverage? (t : HashType) : Option Coverage :=
  if t.base = 1 then some .all
  else if t.base = 2 then some .none
  else if t.base = 3 then some .single
  else Option.none

/-- Whether the digest of the fork is asked for. -/
def hasForkId (t : HashType) : Bool :=
  t.byte &&& 0x40 != 0

/-- Whether the other inputs are free. -/
def anyoneCanPay (t : HashType) : Bool :=
  t.byte &&& 0x80 != 0

/-- The four bytes that close what is hashed. -/
def encode (t : HashType) : Bytes :=
  LittleEndian.encode 4 t.byte.toNat

/-- The coverage, which has to be a defined one. -/
def validate (t : HashType) : Except Machine.SignatureError Coverage :=
  match t.coverage? with
  | some coverage => .ok coverage
  | Option.none => .error (.invalidHashType t.byte)

def toText (t : HashType) : String :=
  match t.coverage? with
  | Option.none => "UNDEFINED(0x" ++ Hex.encode [t.byte] ++ ")"
  | some coverage =>
    (if t.hasForkId then "FORKID|" else "") ++ coverage.name
      ++ (if t.anyoneCanPay then "|ANYONECANPAY" else "")

end HashType

end TxScript
