import TxScript.Machine.StackOps

/-!
# Checking signatures

One signature against one key, and a row of signatures against a row of keys in the same order.
-/

namespace TxScript.Machine

/-- Whether every signature is one of a key, the keys being taken in order and each at most once.
Each key is tried on the first signature that has none yet. -/
def matchSignatures (valid : (signature key : Bytes) → Bool) : (signatures keys : List Bytes) → Bool
  | [], _ => true
  | _ :: _, [] => false
  | signature :: signatures, key :: keys =>
    if valid signature key then matchSignatures valid signatures keys
    else matchSignatures valid (signature :: signatures) keys

/-- The check of a row of signatures counts one that cannot be read as wrong. -/
def Checker.holds (checker : Checker) (signature key : Bytes) : Bool :=
  match checker.check signature key with
  | .ok valid => valid
  | .error _ => false

/-- Puts the outcome of a check on the stack, and takes it off again when it has to be true. -/
def pushCheck (verify : Bool) (opcode : String) (valid : Bool) (stack : Stack) :
    Except StackFault Stack :=
  let stack := Number.ofBool valid :: stack
  if verify then verifyTop opcode stack else .ok stack

/-- Takes a key and a signature off the stack and puts down whether they belong together. A
signature that is empty or cannot be read is a failure. -/
def checkSig (env : Env) (verify : Bool) (stack : Stack) : Except StackFault Stack :=
  match stack with
  | key :: signature :: rest =>
    match env.checker with
    | none => .error ⟨.noTransaction, rest⟩
    | some checker =>
      if signature.isEmpty then .error ⟨.signature .emptySignature, rest⟩
      else
        match checker.check signature key with
        | .error e => .error ⟨.signature e, rest⟩
        | .ok valid => pushCheck verify "OP_CHECKSIGVERIFY" valid rest
  | _ => missing 2 stack

/-- The count on top of the stack, which may not exceed the bound. -/
def readCount (bound : Nat) (fault : Int → ExecError) (stack : Stack) : Except StackFault Nat :=
  match stack with
  | [] => missing 1 stack
  | top :: _ =>
    match Number.operand? top with
    | none => .error ⟨.numberTooWide, stack⟩
    | some n => if n < 0 ∨ bound < n then .error ⟨fault n, stack⟩ else .ok n.toNat

/-- Takes off a count and so many elements under it; one more element has to lie below. -/
def takeGroup (count : Nat) (stack : Stack) : Except StackFault (List Bytes × Stack) :=
  let below := stack.drop 1
  if below.length < count + 1 then missing (count + 1) below
  else .ok (below.take count, below.drop count)

/-- What follows once the keys are counted: takes off the keys, the signatures and one element
more, and puts down whether the signatures match. -/
def checkGroups (env : Env) (verify : Bool) (keyCount : Nat) (stack : Stack) :
    Except StackFault Stack := do
  let (keys, below) ← takeGroup keyCount stack
  let signatureCount ← readCount keyCount .signatureCount below
  let (signatures, below) ← takeGroup signatureCount below
  let rest := below.drop 1
  match env.checker with
  | none => .error ⟨.noTransaction, rest⟩
  | some checker =>
    let valid := matchSignatures checker.holds signatures.reverse keys.reverse
    pushCheck verify "OP_CHECKMULTISIGVERIFY" valid rest

/-- Checks a row of signatures against a row of keys. Each key counts as an operation. -/
def checkMultisig (env : Env) (verify : Bool) (s : State) : Outcome ExecError State := do
  let keyCount ← s.onMain (readCount env.config.maxMultisigKeys .keyCount s.main)
  let s ← s.countOps env keyCount
  let main ← s.onMain (checkGroups env verify keyCount s.main)
  return { s with main := main }

end TxScript.Machine
