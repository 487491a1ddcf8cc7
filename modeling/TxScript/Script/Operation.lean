/-!
# Operations

What an opcode asks the machine to do, as data. Operations on the main stack alone form a type of
their own: they can neither see nor change anything else.
-/

namespace TxScript

/-- Arithmetic on one number. -/
inductive UnaryOp where
  | increment
  | decrement
  | negate
  | abs
  | isZero
  | isNotZero
  deriving DecidableEq, Repr

/-- Arithmetic on two numbers that always has a result. -/
inductive BinaryOp where
  | add
  | sub
  | boolAnd
  | boolOr
  | equal
  | notEqual
  | less
  | greater
  | lessOrEqual
  | greaterOrEqual
  | minimum
  | maximum
  deriving DecidableEq, Repr

/-- Arithmetic on two numbers that needs a divisor. -/
inductive DivisionOp where
  | quotient
  | remainder
  deriving DecidableEq, Repr

inductive BitOp where
  | and
  | or
  | xor
  deriving DecidableEq, Repr

inductive HashOp where
  | ripemd160
  | sha1
  | sha256
  | hash160
  | hash256
  deriving DecidableEq, Repr

/-- Operations that see the main stack only. -/
inductive StackOp where
  | constant (n : Int)
  | verify
  | fail
  | drop (count : Nat)
  | dup (count : Nat)
  | twoOver
  | twoRot
  | twoSwap
  | ifDup
  | depth
  | nip
  | over
  | pick
  | roll
  | rot
  | swap
  | tuck
  | cat
  | split
  | numToBin
  | binToNum
  | size
  | bitwise (op : BitOp)
  | equal
  | equalVerify
  | unary (op : UnaryOp)
  | binary (op : BinaryOp)
  | division (op : DivisionOp)
  | numEqualVerify
  | within
  | hash (op : HashOp)
  deriving DecidableEq, Repr

inductive Operation where
  | stack (op : StackOp)
  | nop
  /-- Opens a branch on the truth of the top element, or on its falsehood when `negated`. -/
  | openBranch (negated : Bool)
  | otherwise
  | closeBranch
  | toAlt
  | fromAlt
  | checkSig (verify : Bool)
  | checkMultisig (verify : Bool)
  | checkLockTime
  | checkSequence
  /-- Announces data, and so is nothing to run on its own. -/
  | announce
  | disabled
  | reserved
  deriving DecidableEq, Repr

/-- When an opcode may run. -/
inductive Availability where
  | always
  /-- Only with the opcodes brought back in May 2018. -/
  | monolith
  | never
  deriving DecidableEq, Repr

end TxScript
