import TxScript.Bytes.Hex
import TxScript.Script.Operation

/-!
# Opcodes

An opcode is a byte. The table gives the assigned ones their names, their operations and when they
may run; the bytes 01 to 4b announce as many bytes of data, and every other byte is unassigned.
-/

namespace TxScript

structure Opcode where
  byte : UInt8
  deriving DecidableEq, Repr

/-- A row of the opcode table. -/
structure OpcodeEntry where
  byte : UInt8
  name : String
  operation : Operation
  availability : Availability
  deriving DecidableEq, Repr

def opcodeTable : List OpcodeEntry := [
  ⟨0x00, "OP_0", .stack (.constant 0), .always⟩,
  ⟨0x4c, "OP_PUSHDATA1", .announce, .always⟩,
  ⟨0x4d, "OP_PUSHDATA2", .announce, .always⟩,
  ⟨0x4e, "OP_PUSHDATA4", .announce, .always⟩,
  ⟨0x4f, "OP_1NEGATE", .stack (.constant (-1)), .always⟩,
  ⟨0x50, "OP_RESERVED", .reserved, .always⟩,
  ⟨0x51, "OP_1", .stack (.constant 1), .always⟩,
  ⟨0x52, "OP_2", .stack (.constant 2), .always⟩,
  ⟨0x53, "OP_3", .stack (.constant 3), .always⟩,
  ⟨0x54, "OP_4", .stack (.constant 4), .always⟩,
  ⟨0x55, "OP_5", .stack (.constant 5), .always⟩,
  ⟨0x56, "OP_6", .stack (.constant 6), .always⟩,
  ⟨0x57, "OP_7", .stack (.constant 7), .always⟩,
  ⟨0x58, "OP_8", .stack (.constant 8), .always⟩,
  ⟨0x59, "OP_9", .stack (.constant 9), .always⟩,
  ⟨0x5a, "OP_10", .stack (.constant 10), .always⟩,
  ⟨0x5b, "OP_11", .stack (.constant 11), .always⟩,
  ⟨0x5c, "OP_12", .stack (.constant 12), .always⟩,
  ⟨0x5d, "OP_13", .stack (.constant 13), .always⟩,
  ⟨0x5e, "OP_14", .stack (.constant 14), .always⟩,
  ⟨0x5f, "OP_15", .stack (.constant 15), .always⟩,
  ⟨0x60, "OP_16", .stack (.constant 16), .always⟩,
  ⟨0x61, "OP_NOP", .nop, .always⟩,
  ⟨0x62, "OP_VER", .reserved, .always⟩,
  ⟨0x63, "OP_IF", .openBranch false, .always⟩,
  ⟨0x64, "OP_NOTIF", .openBranch true, .always⟩,
  ⟨0x65, "OP_VERIF", .reserved, .always⟩,
  ⟨0x66, "OP_VERNOTIF", .reserved, .always⟩,
  ⟨0x67, "OP_ELSE", .otherwise, .always⟩,
  ⟨0x68, "OP_ENDIF", .closeBranch, .always⟩,
  ⟨0x69, "OP_VERIFY", .stack .verify, .always⟩,
  ⟨0x6a, "OP_RETURN", .stack .fail, .always⟩,
  ⟨0x6b, "OP_TOALTSTACK", .toAlt, .always⟩,
  ⟨0x6c, "OP_FROMALTSTACK", .fromAlt, .always⟩,
  ⟨0x6d, "OP_2DROP", .stack (.drop 2), .always⟩,
  ⟨0x6e, "OP_2DUP", .stack (.dup 2), .always⟩,
  ⟨0x6f, "OP_3DUP", .stack (.dup 3), .always⟩,
  ⟨0x70, "OP_2OVER", .stack .twoOver, .always⟩,
  ⟨0x71, "OP_2ROT", .stack .twoRot, .always⟩,
  ⟨0x72, "OP_2SWAP", .stack .twoSwap, .always⟩,
  ⟨0x73, "OP_IFDUP", .stack .ifDup, .always⟩,
  ⟨0x74, "OP_DEPTH", .stack .depth, .always⟩,
  ⟨0x75, "OP_DROP", .stack (.drop 1), .always⟩,
  ⟨0x76, "OP_DUP", .stack (.dup 1), .always⟩,
  ⟨0x77, "OP_NIP", .stack .nip, .always⟩,
  ⟨0x78, "OP_OVER", .stack .over, .always⟩,
  ⟨0x79, "OP_PICK", .stack .pick, .always⟩,
  ⟨0x7a, "OP_ROLL", .stack .roll, .always⟩,
  ⟨0x7b, "OP_ROT", .stack .rot, .always⟩,
  ⟨0x7c, "OP_SWAP", .stack .swap, .always⟩,
  ⟨0x7d, "OP_TUCK", .stack .tuck, .always⟩,
  ⟨0x7e, "OP_CAT", .stack .cat, .monolith⟩,
  ⟨0x7f, "OP_SPLIT", .stack .split, .monolith⟩,
  ⟨0x80, "OP_NUM2BIN", .stack .numToBin, .monolith⟩,
  ⟨0x81, "OP_BIN2NUM", .stack .binToNum, .monolith⟩,
  ⟨0x82, "OP_SIZE", .stack .size, .always⟩,
  ⟨0x83, "OP_INVERT", .disabled, .never⟩,
  ⟨0x84, "OP_AND", .stack (.bitwise .and), .monolith⟩,
  ⟨0x85, "OP_OR", .stack (.bitwise .or), .monolith⟩,
  ⟨0x86, "OP_XOR", .stack (.bitwise .xor), .monolith⟩,
  ⟨0x87, "OP_EQUAL", .stack .equal, .always⟩,
  ⟨0x88, "OP_EQUALVERIFY", .stack .equalVerify, .always⟩,
  ⟨0x89, "OP_RESERVED1", .reserved, .always⟩,
  ⟨0x8a, "OP_RESERVED2", .reserved, .always⟩,
  ⟨0x8b, "OP_1ADD", .stack (.unary .increment), .always⟩,
  ⟨0x8c, "OP_1SUB", .stack (.unary .decrement), .always⟩,
  ⟨0x8d, "OP_2MUL", .disabled, .never⟩,
  ⟨0x8e, "OP_2DIV", .disabled, .never⟩,
  ⟨0x8f, "OP_NEGATE", .stack (.unary .negate), .always⟩,
  ⟨0x90, "OP_ABS", .stack (.unary .abs), .always⟩,
  ⟨0x91, "OP_NOT", .stack (.unary .isZero), .always⟩,
  ⟨0x92, "OP_0NOTEQUAL", .stack (.unary .isNotZero), .always⟩,
  ⟨0x93, "OP_ADD", .stack (.binary .add), .always⟩,
  ⟨0x94, "OP_SUB", .stack (.binary .sub), .always⟩,
  ⟨0x95, "OP_MUL", .disabled, .never⟩,
  ⟨0x96, "OP_DIV", .stack (.division .quotient), .monolith⟩,
  ⟨0x97, "OP_MOD", .stack (.division .remainder), .monolith⟩,
  ⟨0x98, "OP_LSHIFT", .disabled, .never⟩,
  ⟨0x99, "OP_RSHIFT", .disabled, .never⟩,
  ⟨0x9a, "OP_BOOLAND", .stack (.binary .boolAnd), .always⟩,
  ⟨0x9b, "OP_BOOLOR", .stack (.binary .boolOr), .always⟩,
  ⟨0x9c, "OP_NUMEQUAL", .stack (.binary .equal), .always⟩,
  ⟨0x9d, "OP_NUMEQUALVERIFY", .stack .numEqualVerify, .always⟩,
  ⟨0x9e, "OP_NUMNOTEQUAL", .stack (.binary .notEqual), .always⟩,
  ⟨0x9f, "OP_LESSTHAN", .stack (.binary .less), .always⟩,
  ⟨0xa0, "OP_GREATERTHAN", .stack (.binary .greater), .always⟩,
  ⟨0xa1, "OP_LESSTHANOREQUAL", .stack (.binary .lessOrEqual), .always⟩,
  ⟨0xa2, "OP_GREATERTHANOREQUAL", .stack (.binary .greaterOrEqual), .always⟩,
  ⟨0xa3, "OP_MIN", .stack (.binary .minimum), .always⟩,
  ⟨0xa4, "OP_MAX", .stack (.binary .maximum), .always⟩,
  ⟨0xa5, "OP_WITHIN", .stack .within, .always⟩,
  ⟨0xa6, "OP_RIPEMD160", .stack (.hash .ripemd160), .always⟩,
  ⟨0xa7, "OP_SHA1", .stack (.hash .sha1), .always⟩,
  ⟨0xa8, "OP_SHA256", .stack (.hash .sha256), .always⟩,
  ⟨0xa9, "OP_HASH160", .stack (.hash .hash160), .always⟩,
  ⟨0xaa, "OP_HASH256", .stack (.hash .hash256), .always⟩,
  ⟨0xab, "OP_CODESEPARATOR", .nop, .always⟩,
  ⟨0xac, "OP_CHECKSIG", .checkSig false, .always⟩,
  ⟨0xad, "OP_CHECKSIGVERIFY", .checkSig true, .always⟩,
  ⟨0xae, "OP_CHECKMULTISIG", .checkMultisig false, .always⟩,
  ⟨0xaf, "OP_CHECKMULTISIGVERIFY", .checkMultisig true, .always⟩,
  ⟨0xb0, "OP_NOP1", .nop, .always⟩,
  ⟨0xb1, "OP_CHECKLOCKTIMEVERIFY", .checkLockTime, .always⟩,
  ⟨0xb2, "OP_CHECKSEQUENCEVERIFY", .checkSequence, .always⟩,
  ⟨0xb3, "OP_NOP4", .nop, .always⟩,
  ⟨0xb4, "OP_NOP5", .nop, .always⟩,
  ⟨0xb5, "OP_NOP6", .nop, .always⟩,
  ⟨0xb6, "OP_NOP7", .nop, .always⟩,
  ⟨0xb7, "OP_NOP8", .nop, .always⟩,
  ⟨0xb8, "OP_NOP9", .nop, .always⟩,
  ⟨0xb9, "OP_NOP10", .nop, .always⟩,
  ⟨0xfd, "OP_PUBKEYHASH", .reserved, .always⟩,
  ⟨0xfe, "OP_PUBKEY", .reserved, .always⟩,
  ⟨0xff, "OP_INVALIDOPCODE", .reserved, .always⟩]

/-- Names beside those of the table. -/
def opcodeAliases : List (String × UInt8) := [
  ("OP_FALSE", 0x00),
  ("OP_TRUE", 0x51),
  ("OP_NOP2", 0xb1),
  ("OP_NOP3", 0xb2)]

namespace Opcode

def zero : Opcode := ⟨0x00⟩
def pushData1 : Opcode := ⟨0x4c⟩
def pushData2 : Opcode := ⟨0x4d⟩
def pushData4 : Opcode := ⟨0x4e⟩
def sixteen : Opcode := ⟨0x60⟩
def ret : Opcode := ⟨0x6a⟩
def dup : Opcode := ⟨0x76⟩
def equal : Opcode := ⟨0x87⟩
def equalVerify : Opcode := ⟨0x88⟩
def hash160 : Opcode := ⟨0xa9⟩
def codeSeparator : Opcode := ⟨0xab⟩
def checkSig : Opcode := ⟨0xac⟩
def checkMultisig : Opcode := ⟨0xae⟩
def invalid : Opcode := ⟨0xff⟩

def entry? (op : Opcode) : Option OpcodeEntry :=
  opcodeTable.find? (·.byte = op.byte)

/-- The bytes that are their own push length. -/
def isDirectPush (op : Opcode) : Bool :=
  decide (0x01 ≤ op.byte ∧ op.byte ≤ 0x4b)

/-- Bytes without a meaning. -/
def isUnassigned (op : Opcode) : Bool :=
  !op.isDirectPush && op.entry?.isNone

def operation (op : Opcode) : Operation :=
  match op.entry? with
  | some entry => entry.operation
  | none => if op.isDirectPush then .announce else .reserved

def availability (op : Opcode) : Availability :=
  match op.entry? with
  | some entry => entry.availability
  | none => .always

/-- The name of the opcode; direct pushes share one, and so do unassigned bytes. -/
def name (op : Opcode) : String :=
  match op.entry? with
  | some entry => entry.name
  | none => if op.isDirectPush then "OP_PUSHBYTES" else "OP_UNKNOWN"

/-- The mnemonic: the name, with the byte behind it where the name is shared. -/
def mnemonic (op : Opcode) : String :=
  match op.entry? with
  | some entry => entry.name
  | none =>
    if op.isDirectPush then "OP_PUSHBYTES_" ++ toString op.byte.toNat
    else "OP_UNKNOWN_" ++ Hex.encode [op.byte]

/-- The opcode of a name or an alias. -/
def ofName? (name : String) : Option Opcode :=
  match opcodeAliases.find? (·.1 = name) with
  | some (_, byte) => some ⟨byte⟩
  | none => (opcodeTable.find? (·.name = name)).map fun entry => ⟨entry.byte⟩

/-- The opcode that pushes a number from 0 to 16. -/
def ofSmallInteger? (n : Nat) : Option Opcode :=
  if n = 0 then some zero else if n ≤ 16 then some ⟨UInt8.ofNat (0x50 + n)⟩ else none

/-- The number from 0 to 16 that the opcode pushes. -/
def smallInteger? (op : Opcode) : Option Nat :=
  if op = zero then some 0
  else if 0x51 ≤ op.byte ∧ op.byte ≤ 0x60 then some (op.byte.toNat - 0x50)
  else none

/-- The bytes that announce data. -/
def isPush (op : Opcode) : Bool :=
  decide (op.byte ≤ 0x4e)

theorem isPush_ofSmallInteger {n : Nat} {op : Opcode} (h : ofSmallInteger? n = some op)
    (hn : n ≠ 0) : op.isPush = false := by
  unfold ofSmallInteger? at h
  rw [if_neg hn] at h
  split at h
  · rename_i hle
    cases h
    simp only [isPush, decide_eq_false_iff_not, UInt8.le_iff_toNat_le, UInt8.toNat_ofNat',
      UInt8.reduceToNat]
    omega
  · cases h

/-- The opcodes that run in a skipped branch too, so that branches stay paired. -/
def isConditional (op : Opcode) : Bool :=
  decide (0x63 ≤ op.byte ∧ op.byte ≤ 0x68)

/-- Constants are free; every opcode above them counts as an operation. -/
def isCounted (op : Opcode) : Bool :=
  decide (sixteen.byte < op.byte)

/-- Whether the opcode may not run at all, given the switch for the opcodes of May 2018. -/
def isDisabled (op : Opcode) (monolith : Bool) : Bool :=
  match op.availability with
  | .always => false
  | .monolith => !monolith
  | .never => true

end Opcode

end TxScript
