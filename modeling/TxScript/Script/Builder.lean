import TxScript.Curve.PublicKey
import TxScript.Script.Basic

/-!
# Building scripts

Scripts grow by chunks at their end. A building step that fails has no result, so the script that
it was tried on stays as it was.
-/

namespace TxScript

/-- Why a script cannot be built. -/
inductive ScriptError where
  | bareOpcode (name : String)
  | emptyData
  | encodingTooSmall (encoding : PushEncoding) (length : Nat)
  | emptyScript
  | invalidMultisig (required keys : Nat)
  | unknownToken (token : String)
  | parse (cause : ParseError)
  | hex (cause : Hex.Error)
  deriving DecidableEq, Repr

def ScriptError.message : ScriptError → String
  | .bareOpcode name => name ++ " cannot be appended as a bare opcode"
  | .emptyData => "cannot append empty data"
  | .encodingTooSmall enc length => enc.name ++ " cannot encode " ++ toString length ++ " bytes"
  | .emptyScript => "script is empty"
  | .invalidMultisig required keys =>
    "invalid multisig: " ++ toString required ++ " of " ++ toString keys
  | .unknownToken token => "unknown script token '" ++ token ++ "'"
  | .parse cause => cause.message
  | .hex cause => "hex decode error: " ++ cause.message

/-- A push in the given encoding, which has to hold the data. -/
def Chunk.pushWith (data : Bytes) (enc : PushEncoding) : Except ScriptError Chunk :=
  if data.length ≤ enc.capacity then .ok (.push enc data)
  else .error (.encodingTooSmall enc data.length)

theorem Chunk.pushWith_eq_ok {data : Bytes} {enc : PushEncoding} {c : Chunk} :
    pushWith data enc = .ok c ↔ data.length ≤ enc.capacity ∧ c = .push enc data := by
  unfold pushWith
  by_cases h : data.length ≤ enc.capacity
  · simp [h, eq_comm]
  · simp [h]

theorem Chunk.canonical_of_pushWith {data : Bytes} {enc : PushEncoding} {c : Chunk}
    (h : pushWith data enc = .ok c) : c.Canonical := by
  obtain ⟨hfits, rfl⟩ := pushWith_eq_ok.1 h
  exact canonical_push hfits

theorem Chunk.canonical_pushDigest (hash : Digest 20) : (pushMinimal hash.bytes).Canonical :=
  canonical_pushMinimal (Nat.le_trans (Nat.le_of_eq hash.length_bytes) (by decide))

namespace Script

def ofHex (text : String) : Except ScriptError Script :=
  match Hex.decode text with
  | .error e => .error (.hex e)
  | .ok bs =>
    match parse bs with
    | .ok s => .ok s
    | .error e => .error (.parse e)

/-- The script that the bytes of some chunks read back as. -/
def ofChunks (chunks : List Chunk) : Except ScriptError Script :=
  match parse (encodeChunks chunks) with
  | .ok s => .ok s
  | .error e => .error (.parse e)

/-- The opcodes that mean nothing without an operand. -/
def needsOperand (op : Opcode) : Bool :=
  op.isDirectPush || op == .pushData1 || op == .pushData2 || op == .pushData4 || op == .invalid

/-- What can be appended bare does not announce data. -/
theorem isPush_of_needsOperand {op : Opcode} (h : needsOperand op = false) (hzero : op ≠ .zero) :
    op.isPush = false := by
  rcases op with ⟨b⟩
  simp only [needsOperand, Opcode.isDirectPush, Opcode.pushData1, Opcode.pushData2,
    Opcode.pushData4, Bool.or_eq_false_iff, decide_eq_false_iff_not, beq_eq_false_iff_ne, ne_eq,
    Opcode.mk.injEq, UInt8.le_iff_toNat_le, ← UInt8.toNat_inj, UInt8.reduceToNat] at h
  simp only [Opcode.zero, ne_eq, Opcode.mk.injEq, ← UInt8.toNat_inj, UInt8.reduceToNat] at hzero
  simp only [Opcode.isPush, decide_eq_false_iff_not, UInt8.le_iff_toNat_le, UInt8.reduceToNat]
  omega

/-- Appends an opcode; the one that pushes nothing is appended as an empty push. -/
def append (s : Script) (op : Opcode) : Except ScriptError Script :=
  if hneeds : needsOperand op then .error (.bareOpcode op.name)
  else if hzero : op = .zero then .ok (s.push (.pushMinimal []) (by decide))
  else
    .ok (s.push (.op op)
      (Chunk.canonical_op (isPush_of_needsOperand (Bool.eq_false_iff.2 hneeds) hzero)))

/-- Appends a push in the given encoding; there has to be data to push. -/
def appendDataWith (s : Script) (data : Bytes) (enc : PushEncoding) : Except ScriptError Script :=
  if data.isEmpty then .error .emptyData
  else
    match h : Chunk.pushWith data enc with
    | .ok c => .ok (s.push c (Chunk.canonical_of_pushWith h))
    | .error e => .error e

theorem appendDataWith_eq_ok {s t : Script} {data : Bytes} {enc : PushEncoding} :
    s.appendDataWith data enc = .ok t ↔
      data ≠ [] ∧ ∃ h : data.length ≤ enc.capacity,
        t = s.push (.push enc data) (Chunk.canonical_push h) := by
  unfold appendDataWith
  by_cases hempty : data = []
  · simp [hempty]
  · rw [if_neg (by simpa using hempty)]
    split
    · rename_i c hc
      obtain ⟨hfits, rfl⟩ := Chunk.pushWith_eq_ok.1 hc
      simp [hempty, hfits, eq_comm]
    · rename_i e he
      have hlong : ¬ data.length ≤ enc.capacity := by
        intro hfits
        rw [Chunk.pushWith_eq_ok.2 ⟨hfits, rfl⟩] at he
        cases he
      simp [hlong]

/-- Appends a push in the most compact encoding. -/
def appendData (s : Script) (data : Bytes) : Except ScriptError Script :=
  s.appendDataWith data (.minimal data.length)

def appendScript (s other : Script) : Except ScriptError Script :=
  if other.isEmpty then .error .emptyScript else .ok (s ++ other)

/-- Pays to the holder of a key with the given hash. -/
def payToPublicKeyHash (hash : Digest 20) : Script where
  chunks := [.op .dup, .op .hash160, .pushMinimal hash.bytes, .op .equalVerify, .op .checkSig]
  canonical := by
    have hpush := Chunk.canonical_pushDigest hash
    simpa [hpush] using by decide

/-- Pays to whoever meets the script with the given hash. -/
def payToScriptHash (hash : Digest 20) : Script where
  chunks := [.op .hash160, .pushMinimal hash.bytes, .op .equal]
  canonical := by
    have hpush := Chunk.canonical_pushDigest hash
    simpa [hpush] using by decide

/-- The script that commits to this one by its hash. -/
def toP2sh (s : Script) : Script :=
  payToScriptHash (Hash.hash160 s.bytes)

/-- The pushes of some keys, between two counts and in front of the check. -/
theorem canonical_multisig {m n : Opcode} (hm : m.isPush = false) (hn : n.isPush = false)
    (keys : List Curve.PublicKey) :
    ∀ c ∈ Chunk.op m :: keys.map (fun key => .pushMinimal key.toBytes)
        ++ [.op n, .op .checkMultisig], c.Canonical := by
  have hkeys : ∀ c ∈ keys.map (fun key => Chunk.pushMinimal key.toBytes), c.Canonical :=
    List.forall_mem_map.2 fun key _ =>
      Chunk.canonical_pushMinimal (Nat.le_trans key.length_toBytes_le (by decide))
  refine List.forall_mem_append.2 ⟨List.forall_mem_cons.2 ⟨Chunk.canonical_op hm, hkeys⟩, ?_⟩
  exact List.forall_mem_cons.2 ⟨Chunk.canonical_op hn, List.forall_mem_singleton.2 (by decide)⟩

/-- Asks for signatures of `required` among up to sixteen keys. -/
def multisig (required : Nat) (keys : List Curve.PublicKey) : Except ScriptError Script :=
  let fault := ScriptError.invalidMultisig required keys.length
  if h : required = 0 ∨ keys.length < required then .error fault
  else
    match hm : Opcode.ofSmallInteger? required, hn : Opcode.ofSmallInteger? keys.length with
    | some m, some n =>
      .ok ⟨.op m :: keys.map (fun key => .pushMinimal key.toBytes)
          ++ [.op n, .op .checkMultisig],
        canonical_multisig (Opcode.isPush_ofSmallInteger hm (by omega))
          (Opcode.isPush_ofSmallInteger hn (by omega)) keys⟩
    | _, _ => .error fault

end Script

end TxScript
