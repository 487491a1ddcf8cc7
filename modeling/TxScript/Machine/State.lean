import TxScript.Machine.Config
import TxScript.Machine.Error
import TxScript.Machine.Number

/-!
# The state of the machine

Two stacks with the top in front, the branches that are open with the innermost in front, and the
operations counted so far. The count stands for a register of 64 bits, so numbers below 2⁶⁴ are
meant; a run stops at its limit on operations long before it would leave them. What surrounds a run
does not change: the limits, the block time and, when a transaction is being checked, what the
scripts may ask about it.
-/

namespace TxScript.Machine

/-- Elements with the top in front. -/
abbrev Stack := List Bytes

/-- What scripts may ask about the transaction that spends. -/
structure Checker where
  /-- Whether the signature is one of the key, for the input being checked. -/
  check : (signature key : Bytes) → Except SignatureError Bool
  lockTime : UInt32
  version : UInt32
  /-- The sequence number of the input being checked. -/
  sequence : UInt32

structure Env where
  config : Config := {}
  blockTime : UInt32 := 0xffffffff
  checker : Option Checker := none

/-- Whether the block is young enough for redeem scripts to be evaluated. -/
def Env.evaluatesRedeem (env : Env) : Bool :=
  decide (env.config.p2shActivation ≤ env.blockTime)

structure State where
  main : Stack := []
  alt : Stack := []
  /-- One flag for each open branch, true while that branch runs. -/
  branches : List Bool := []
  opCount : Nat := 0
  deriving DecidableEq, Repr

/-- The end of a run that failed: why, and with what state. -/
structure Halt (ε : Type) where
  error : ε
  state : State
  deriving DecidableEq, Repr

/-- A computation of the machine: a result, or a halt. -/
abbrev Outcome (ε : Type) := Except (Halt ε)

def halt {ε α : Type} (error : ε) (state : State) : Outcome ε α :=
  .error ⟨error, state⟩

namespace State

/-- Whether no open branch is being skipped. -/
def executing (s : State) : Bool :=
  !s.branches.contains false

/-- Pushes an element of allowed size. -/
def pushData (env : Env) (data : Bytes) (s : State) : Outcome ExecError State :=
  if env.config.maxElementSize < data.length then halt .elementTooLarge s
  else .ok { s with main := data :: s.main }

/-- Counts operations; the count is kept when it exceeds the limit. The sum is exact: where it would
not fit the register, no count is meant. -/
def countOps (env : Env) (count : Nat) (s : State) : Outcome ExecError State :=
  let counted := { s with opCount := s.opCount + count }
  if env.config.maxOps < counted.opCount then halt .tooManyOps counted else .ok counted

/-- Without any elements and open branches. -/
def cleared (s : State) : State :=
  { s with main := [], alt := [], branches := [] }

end State

/-- The failure of an operation on the main stack: why, and what it left there. -/
structure StackFault where
  error : ExecError
  left : Stack
  deriving DecidableEq, Repr

def missing {α : Type} (needed : Nat) (stack : Stack) : Except StackFault α :=
  .error ⟨.missingItems needed, stack⟩

/-- A failure on the main stack, as the end of a run from the given state. -/
def StackFault.halt (fault : StackFault) (s : State) : Halt ExecError :=
  ⟨fault.error, { s with main := fault.left }⟩

/-- Runs something that looks at the main stack only. -/
def State.onMain {α : Type} (s : State) (r : Except StackFault α) : Outcome ExecError α :=
  match r with
  | .ok a => .ok a
  | .error fault => .error (fault.halt s)

end TxScript.Machine
