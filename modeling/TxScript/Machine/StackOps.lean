import TxScript.Hash.Ripemd160
import TxScript.Hash.Sha1
import TxScript.Machine.State
import TxScript.Script.Operation

/-!
# Operations on the main stack

Each operation takes the stack apart from the top, and is wrong about nothing below what it takes.
An operation that fails says what it leaves: most look before they take, and leave all of the
stack.
-/

namespace TxScript

def UnaryOp.eval : UnaryOp → Int → Int
  | .increment, a => a + 1
  | .decrement, a => a - 1
  | .negate, a => -a
  | .abs, a => a.natAbs
  | .isZero, a => if a = 0 then 1 else 0
  | .isNotZero, a => if a ≠ 0 then 1 else 0

def BinaryOp.eval : BinaryOp → Int → Int → Int
  | .add, a, b => a + b
  | .sub, a, b => a - b
  | .boolAnd, a, b => if a ≠ 0 ∧ b ≠ 0 then 1 else 0
  | .boolOr, a, b => if a ≠ 0 ∨ b ≠ 0 then 1 else 0
  | .equal, a, b => if a = b then 1 else 0
  | .notEqual, a, b => if a ≠ b then 1 else 0
  | .less, a, b => if a < b then 1 else 0
  | .greater, a, b => if b < a then 1 else 0
  | .lessOrEqual, a, b => if a ≤ b then 1 else 0
  | .greaterOrEqual, a, b => if b ≤ a then 1 else 0
  | .minimum, a, b => min a b
  | .maximum, a, b => max a b

/-- Division goes toward zero, and the remainder takes the sign of the dividend. -/
def DivisionOp.eval : DivisionOp → Int → Int → Int
  | .quotient, a, b => a.tdiv b
  | .remainder, a, b => a.tmod b

def BitOp.eval : BitOp → UInt8 → UInt8 → UInt8
  | .and, a, b => a &&& b
  | .or, a, b => a ||| b
  | .xor, a, b => a ^^^ b

def HashOp.eval : HashOp → Bytes → Bytes
  | .ripemd160, bs => (Hash.ripemd160 bs).bytes
  | .sha1, bs => (Hash.sha1 bs).bytes
  | .sha256, bs => (Hash.sha256 bs).bytes
  | .hash160, bs => (Hash.hash160 bs).bytes
  | .hash256, bs => (Hash.sha256d bs).bytes

namespace Machine

/-- Takes a true element off. A false one stays. -/
def verifyTop (opcode : String) (stack : Stack) : Except StackFault Stack :=
  match stack with
  | [] => missing 1 stack
  | top :: rest =>
    if Number.isTrue top then .ok rest else .error ⟨.verifyFailed opcode, stack⟩

/-- Takes an index off and finds the element so many places below: the index and the stack under
it. -/
def takeIndex (opcode : String) (stack : Stack) : Except StackFault (Nat × Stack) :=
  match stack with
  | top :: x :: rest =>
    match Number.operand? top with
    | none => .error ⟨.numberTooWide, stack⟩
    | some n =>
      if n < 0 then .error ⟨.negativeIndex opcode, x :: rest⟩
      else if (x :: rest).length < n.toNat + 1 then missing (n.toNat + 1) (x :: rest)
      else .ok (n.toNat, x :: rest)
  | _ => missing 2 stack

def applyUnary (op : UnaryOp) (stack : Stack) : Except StackFault Stack :=
  match stack with
  | a :: rest =>
    match Number.operand? a with
    | some n => .ok (Number.encode (op.eval n) :: rest)
    | none => .error ⟨.numberTooWide, stack⟩
  | _ => missing 1 stack

def applyBinary (op : BinaryOp) (stack : Stack) : Except StackFault Stack :=
  match stack with
  | b :: a :: rest =>
    match Number.operand? a, Number.operand? b with
    | some m, some n => .ok (Number.encode (op.eval m n) :: rest)
    | _, _ => .error ⟨.numberTooWide, stack⟩
  | _ => missing 2 stack

/-- The divisor is looked at first. -/
def applyDivision (op : DivisionOp) (stack : Stack) : Except StackFault Stack :=
  match stack with
  | b :: a :: rest =>
    match Number.operand? b with
    | none => .error ⟨.numberTooWide, stack⟩
    | some n =>
      if n = 0 then .error ⟨.divisionByZero, stack⟩
      else
        match Number.operand? a with
        | some m => .ok (Number.encode (op.eval m n) :: rest)
        | none => .error ⟨.numberTooWide, stack⟩
  | _ => missing 2 stack

/-- Whether a number lies between a lower bound, which belongs to the range, and an upper one,
which does not. -/
def applyWithin (stack : Stack) : Except StackFault Stack :=
  match stack with
  | upper :: lower :: x :: rest =>
    match Number.operand? x, Number.operand? lower, Number.operand? upper with
    | some n, some lo, some hi =>
      .ok (Number.ofBool (decide (lo ≤ n ∧ n < hi)) :: rest)
    | _, _, _ => .error ⟨.numberTooWide, stack⟩
  | _ => missing 3 stack

def applySplit (stack : Stack) : Except StackFault Stack :=
  match stack with
  | position :: x :: rest =>
    match Number.operand? position with
    | none => .error ⟨.numberTooWide, stack⟩
    | some n =>
      if n < 0 ∨ x.length < n then .error ⟨.splitOutOfRange, stack⟩
      else .ok (x.drop n.toNat :: x.take n.toNat :: rest)
  | _ => missing 2 stack

def applyNumToBin (maxElementSize : Nat) (stack : Stack) : Except StackFault Stack :=
  match stack with
  | size :: x :: rest =>
    match Number.operand? size with
    | none => .error ⟨.numberTooWide, stack⟩
    | some n =>
      if n < 0 ∨ maxElementSize < n then .error ⟨.resultTooLarge, stack⟩
      else
        let short := Number.minimize x
        if n < short.length then .error ⟨.encodingImpossible, stack⟩
        else .ok (Number.stretch n.toNat short :: rest)
  | _ => missing 2 stack

def applyBinToNum (stack : Stack) : Except StackFault Stack :=
  match stack with
  | x :: rest =>
    let short := Number.minimize x
    if Number.operandWidth < short.length then .error ⟨.notANumber, rest⟩
    else .ok (short :: rest)
  | _ => missing 1 stack

def applyEqual (stack : Stack) : Except StackFault Stack :=
  match stack with
  | b :: a :: rest => .ok (Number.ofBool (decide (a = b)) :: rest)
  | _ => missing 2 stack

end Machine

open Machine

/-- The stack after an operation, under a limit on the size of elements. -/
def StackOp.apply (maxElementSize : Nat) (op : StackOp) (stack : Stack) :
    Except StackFault Stack :=
  match op with
  | .constant n => .ok (Number.encode n :: stack)
  | .verify => verifyTop "OP_VERIFY" stack
  | .fail => .error ⟨.returned, stack⟩
  | .drop count => if count ≤ stack.length then .ok (stack.drop count) else missing count stack
  | .dup count =>
    if count ≤ stack.length then .ok (stack.take count ++ stack) else missing count stack
  | .twoOver =>
    match stack with
    | x₄ :: x₃ :: x₂ :: x₁ :: rest => .ok (x₂ :: x₁ :: x₄ :: x₃ :: x₂ :: x₁ :: rest)
    | _ => missing 4 stack
  | .twoRot =>
    match stack with
    | x₆ :: x₅ :: x₄ :: x₃ :: x₂ :: x₁ :: rest =>
      .ok (x₂ :: x₁ :: x₆ :: x₅ :: x₄ :: x₃ :: rest)
    | _ => missing 6 stack
  | .twoSwap =>
    match stack with
    | x₄ :: x₃ :: x₂ :: x₁ :: rest => .ok (x₂ :: x₁ :: x₄ :: x₃ :: rest)
    | _ => missing 4 stack
  | .ifDup =>
    match stack with
    | x :: rest => .ok (if Number.isTrue x then x :: x :: rest else x :: rest)
    | _ => missing 1 stack
  | .depth => .ok (Number.encode stack.length :: stack)
  | .nip =>
    match stack with
    | x₂ :: _ :: rest => .ok (x₂ :: rest)
    | _ => missing 2 stack
  | .over =>
    match stack with
    | x₂ :: x₁ :: rest => .ok (x₁ :: x₂ :: x₁ :: rest)
    | _ => missing 2 stack
  | .pick => do
    let (n, below) ← takeIndex "OP_PICK" stack
    return below.getD n [] :: below
  | .roll => do
    let (n, below) ← takeIndex "OP_ROLL" stack
    return below.getD n [] :: below.eraseIdx n
  | .rot =>
    match stack with
    | x₃ :: x₂ :: x₁ :: rest => .ok (x₁ :: x₃ :: x₂ :: rest)
    | _ => missing 3 stack
  | .swap =>
    match stack with
    | x₂ :: x₁ :: rest => .ok (x₁ :: x₂ :: rest)
    | _ => missing 2 stack
  | .tuck =>
    match stack with
    | x₂ :: x₁ :: rest => .ok (x₂ :: x₁ :: x₂ :: rest)
    | _ => missing 2 stack
  | .cat =>
    match stack with
    | x₂ :: x₁ :: rest =>
      if maxElementSize < x₁.length + x₂.length then .error ⟨.resultTooLarge, stack⟩
      else .ok ((x₁ ++ x₂) :: rest)
    | _ => missing 2 stack
  | .split => applySplit stack
  | .numToBin => applyNumToBin maxElementSize stack
  | .binToNum => applyBinToNum stack
  | .size =>
    match stack with
    | x :: rest => .ok (Number.encode x.length :: x :: rest)
    | _ => missing 1 stack
  | .bitwise op =>
    match stack with
    | x₂ :: x₁ :: rest =>
      if x₁.length = x₂.length then .ok (List.zipWith op.eval x₁ x₂ :: rest)
      else .error ⟨.operandSizes, rest⟩
    | _ => missing 2 stack
  | .equal => applyEqual stack
  | .equalVerify => applyEqual stack >>= verifyTop "OP_EQUALVERIFY"
  | .unary op => applyUnary op stack
  | .binary op => applyBinary op stack
  | .division op => applyDivision op stack
  | .numEqualVerify => applyBinary .equal stack >>= verifyTop "OP_NUMEQUALVERIFY"
  | .within => applyWithin stack
  | .hash op =>
    match stack with
    | x :: rest => .ok (op.eval x :: rest)
    | _ => missing 1 stack

end TxScript
