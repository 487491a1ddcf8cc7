import TxScript.Script.Parsing

/-!
# Failures of execution and of verification

A script that cannot be run to its end fails with an execution error. A spend that is not
authorized fails with a verification error; one of its causes is that a script could not be run.
-/

namespace TxScript.Machine

/-- What can be wrong with a signature before it is compared with a key. -/
inductive SignatureError where
  | emptySignature
  | invalidHashType (byte : UInt8)
  | inputIndexOutOfRange (index count : Nat)
  | invalidPublicKey (reason : String)
  | invalidSignature (reason : String)
  deriving DecidableEq, Repr

def indexRangeMessage (index count : Nat) : String :=
  "input index " ++ toString index ++ " out of range for " ++ toString count ++ " inputs"

def SignatureError.message : SignatureError → String
  | .emptySignature => "SigData is empty."
  | .invalidHashType byte => "invalid sighash type 0x" ++ Hex.encode [byte]
  | .inputIndexOutOfRange index count => indexRangeMessage index count
  | .invalidPublicKey reason => "invalid public key: " ++ reason
  | .invalidSignature reason => "invalid signature encoding: " ++ reason

/-- Why a lock time is not reached. -/
inductive LockTimeFault where
  | mismatchedKinds (actual required : Nat)
  | notReached (required actual : Nat)
  | finalInput
  | version (actual : UInt32)
  | sequenceDisabled (sequence : UInt32)
  deriving DecidableEq, Repr

def LockTimeFault.message : LockTimeFault → String
  | .mismatchedKinds actual required =>
    "mismatched lock time types: " ++ toString actual ++ " vs " ++ toString required
  | .notReached required actual =>
    "lock time " ++ toString required ++ " not reached, currently " ++ toString actual
  | .finalInput => "transaction input is finalized"
  | .version actual => "invalid transaction version: " ++ toString actual.toNat
  | .sequenceDisabled sequence =>
    "transaction sequence has the disable bit set: 0x"
      ++ String.ofList (Nat.toDigits 16 sequence.toNat)

inductive ExecError where
  | missingItems (needed : Nat)
  | numberTooWide
  | disabledOpcode (name : String)
  | scriptTooLarge (size : Nat)
  | signature (cause : SignatureError)
  | elementTooLarge
  | missingAltItems (needed : Nat)
  | tooManyOps
  | missingPushData (opcode : String)
  | notExecutable (opcode : String)
  | unopenedElse
  | unopenedEndIf
  | unbalancedBranches
  | verifyFailed (opcode : String)
  | returned
  | divisionByZero
  | resultTooLarge
  | splitOutOfRange
  | encodingImpossible
  | notANumber
  | operandSizes
  | negativeIndex (opcode : String)
  | noTransaction
  | keyCount (count : Int)
  | signatureCount (count : Int)
  | negativeLockTime
  | lockTime (fault : LockTimeFault)
  deriving DecidableEq, Repr

def ExecError.message : ExecError → String
  | .missingItems needed => "Operation requires " ++ toString needed ++ " items on stack."
  | .numberTooWide => "Invalid bignum: numeric operand exceeds 4 bytes."
  | .disabledOpcode name => "Attempt to execute disabled opcode " ++ name ++ "."
  | .scriptTooLarge size => "Script is too large: " ++ toString size ++ " bytes."
  | .signature cause => cause.message
  | .elementTooLarge => "PushedData size is too big."
  | .missingAltItems needed => "Operation requires " ++ toString needed ++ " items on altstack."
  | .tooManyOps => "Exceeded the allowed number of operations per script."
  | .missingPushData opcode => opcode ++ " without push data."
  | .notExecutable opcode => opcode ++ " should not be executed."
  | .unopenedElse => "Expected an OP_IF or OP_NOTIF branch before OP_ELSE."
  | .unopenedEndIf => "Expected an OP_IF or OP_NOTIF branch before OP_ENDIF."
  | .unbalancedBranches => "Condition branches not balanced."
  | .verifyFailed opcode => opcode ++ " failed."
  | .returned => "OP_RETURN was encountered"
  | .divisionByZero => "Division by zero error"
  | .resultTooLarge => "Push value size limit exceeded"
  | .splitOutOfRange => "Invalid OP_SPLIT range"
  | .encodingImpossible => "The requested encoding is impossible to satisfy."
  | .notANumber =>
    "Given operand is not a number within the valid range [-2^31...2^31]"
  | .operandSizes => "Invalid operand size"
  | .negativeIndex opcode => opcode ++ ": n should be greater than or equal to 0."
  | .noTransaction => "The transaction or the utxo to verify is not set."
  | .keyCount count =>
    "Invalid number of keys for OP_CHECKMULTISIG: " ++ toString count ++ "."
  | .signatureCount count =>
    "Invalid number of signatures for OP_CHECKMULTISIG: " ++ toString count ++ "."
  | .negativeLockTime => "NEGATIVE_LOCKTIME"
  | .lockTime fault => "UNSATISFIED_LOCKTIME: " ++ fault.message

inductive VerifyError where
  | emptyStack
  | lastItemFalse
  | p2shNotDataOnly
  | p2shDeserialize (cause : ParseError)
  | parse (cause : ParseError)
  | execution (cause : ExecError)
  | inputIndexOutOfRange (index count : Nat)
  deriving DecidableEq, Repr

def VerifyError.message : VerifyError → String
  | .emptyStack => "Stack is empty after script execution."
  | .lastItemFalse => "Last item on the stack is false."
  | .p2shNotDataOnly => "Input script for P2SH spending must be literals-only."
  | .p2shDeserialize cause => "could not deserialize P2SH redeem script: " ++ cause.message
  | .parse cause => cause.message
  | .execution cause => cause.message
  | .inputIndexOutOfRange index count => indexRangeMessage index count

end TxScript.Machine
