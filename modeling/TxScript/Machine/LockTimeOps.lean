import TxScript.Machine.State

/-!
# Lock times

A script can demand that the transaction is locked until a height or a time. The demand stays on
the stack. Heights and times never compare with each other.
-/

namespace TxScript.Machine

/-- Lock times below this are heights, the others are times. -/
def lockTimeThreshold : Nat := 500000000

def finalSequence : UInt32 := 0xffffffff

/-- The bit that turns a relative lock time off. -/
def sequenceDisabledBit : Nat := 31

/-- The bit of relative lock times in seconds. -/
def sequenceSecondsFlag : Nat := 0x400000

/-- The bits of a relative lock time that compare. -/
def sequenceMask : Nat := 0x40ffff

/-- Both of a kind, and the required one reached. -/
def compareLockTimes (actual threshold required : Nat) : Except LockTimeFault Unit :=
  if decide (actual < threshold) ≠ decide (required < threshold) then
    .error (.mismatchedKinds actual required)
  else if actual < required then .error (.notReached required actual)
  else .ok ()

/-- The lock time demanded by the top of the stack. -/
def lockTimeOperand (stack : Stack) : Except ExecError Nat :=
  match stack with
  | [] => .error (.missingItems 1)
  | top :: _ =>
    match Number.decode? Number.lockTimeWidth top with
    | none => .error .numberTooWide
    | some n => if n < 0 then .error .negativeLockTime else .ok n.toNat

def Env.requireChecker (env : Env) : Except ExecError Checker :=
  match env.checker with
  | some checker => .ok checker
  | none => .error .noTransaction

/-- Whether the lock time of the transaction meets the demand. A final input makes the lock time of
its transaction meaningless. -/
def checkLockTime (env : Env) (stack : Stack) : Except ExecError Unit := do
  let required ← lockTimeOperand stack
  let checker ← env.requireChecker
  (compareLockTimes checker.lockTime.toNat lockTimeThreshold required).mapError .lockTime
  if checker.sequence = finalSequence then .error (.lockTime .finalInput)
  else .ok ()

/-- Whether the age demanded by the input meets the demand of the script. A demand with the disable
bit asks for nothing. -/
def checkSequence (env : Env) (stack : Stack) : Except ExecError Unit := do
  let required ← lockTimeOperand stack
  if required.testBit sequenceDisabledBit then .ok ()
  else
    let checker ← env.requireChecker
    if checker.version < 2 then .error (.lockTime (.version checker.version))
    else
      let sequence := checker.sequence.toNat
      if sequence.testBit sequenceDisabledBit then
        .error (.lockTime (.sequenceDisabled checker.sequence))
      else
        (compareLockTimes (sequence &&& sequenceMask) sequenceSecondsFlag
          (required &&& sequenceMask)).mapError .lockTime

end TxScript.Machine
