import TxScript.Script.Builder

/-!
# Standard forms

Which of the standard forms a script has, and what it commits to. The forms are those of chunks:
the same opcodes in a row, and pushes at the places of data.
-/

namespace TxScript

/-- The demands of a multisig script. -/
structure MultisigRequirements where
  required : Nat
  keys : List Curve.PublicKey
  deriving DecidableEq, Repr

/-- The hash between the two opcodes of a script that pays to a script hash. Only a direct push of
twenty bytes will do. -/
def scriptHash? : List Chunk → Option Bytes
  | [first, .push .implicit hash, last] =>
    if first = .op .hash160 ∧ hash.length = 20 ∧ last = .op .equal then some hash else none
  | _ => none

namespace Script

/-- The hash that a script paying to a public key hash commits to. -/
def publicKeyHash? (s : Script) : Option Bytes :=
  match s.chunks with
  | [first, second, .push .implicit hash, fourth, fifth] =>
    if first = .op .dup ∧ second = .op .hash160 ∧ hash.length = 20 ∧ fourth = .op .equalVerify
      ∧ fifth = .op .checkSig then some hash
    else none
  | _ => none

def isPayToPublicKeyHash (s : Script) : Bool :=
  s.publicKeyHash?.isSome

def isPayToScriptHash (s : Script) : Bool :=
  (scriptHash? s.chunks).isSome

/-- Whether the last three chunks pay to a script hash. -/
def endsWithPayToScriptHash (s : Script) : Bool :=
  decide (3 ≤ s.chunks.length) && (scriptHash? (s.chunks.drop (s.chunks.length - 3))).isSome

/-- A push of two bytes or more, then a signature check. -/
def isPublicKey (s : Script) : Bool :=
  match s.chunks with
  | [.push _ key, last] => decide (1 < key.length ∧ last = .op .checkSig)
  | _ => false

/-- The two counts of a multisig script: so many signatures of so many keys, all keys pushed. -/
def multisigShape? (s : Script) : Option (Nat × Nat) := do
  let length := s.chunks.length
  if length < 4 ∨ s.chunks[length - 1]? ≠ some (.op .checkMultisig) then none
  let required ← (← s.chunks[0]?).opcode.smallInteger?
  let keys ← (← s.chunks[length - 2]?).opcode.smallInteger?
  if required = 0 ∨ keys < required ∨ length ≠ keys + 3 then none
  if ((s.chunks.drop 1).take keys).all Chunk.isPush then some (required, keys) else none

def isMultisig (s : Script) : Bool :=
  s.multisigShape?.isSome

/-- Multisig with three keys at most. -/
def isStandardMultisig (s : Script) : Bool :=
  match s.multisigShape? with
  | some (_, keys) => decide (keys ≤ 3)
  | none => false

/-- The key that a chunk pushes. -/
def keyOfChunk? (c : Chunk) : Option Curve.PublicKey :=
  c.data?.bind fun data => (Curve.PublicKey.ofBytes data).toOption

def multisigRequirements? (s : Script) : Option MultisigRequirements := do
  let (required, count) ← s.multisigShape?
  let keys ← ((s.chunks.drop 1).take count).mapM keyOfChunk?
  return ⟨required, keys⟩

/-- The data that a script returns, having nothing else. -/
def returnedData? (s : Script) : Option Bytes :=
  match s.chunks with
  | [first, .push _ data] => if first = .op .ret then some data else none
  | _ => none

def isStandardReturn (s : Script) : Bool :=
  s.returnedData?.isSome

def isStandard (s : Script) : Bool :=
  s.isPayToPublicKeyHash || s.isPayToScriptHash || s.isPublicKey || s.isStandardMultisig
    || s.isStandardReturn

/-- Whether the script pushes constants only: no chunk starts above the opcode of sixteen. -/
def isDataOnly (s : Script) : Bool :=
  s.chunks.all fun c => !c.opcode.isCounted

end Script

end TxScript
