import TxScript.Script.Assembly

/-!
# Scripts with stored bytes

A script can be kept with its bytes beside its chunks, and be changed in place: the chunks first,
and then the bytes are made anew from them. Only parsing takes both views from the outside.
-/

namespace TxScript

structure StoredScript where
  chunks : List Chunk
  bytes : Bytes
  deriving DecidableEq

/-- Changes a stored script in place. What has been changed before a failure stays changed. -/
abbrev Building := EStateM ScriptError StoredScript

namespace StoredScript

/-! ## Making scripts -/

def empty : StoredScript := ⟨[], []⟩

def parse (input : Bytes) : Except ParseError StoredScript := do
  let chunks ← parseChunks input
  return ⟨chunks, input⟩

def ofHex (text : String) : Except ScriptError StoredScript := do
  let input ← (Hex.decode text).mapError .hex
  (parse input).mapError .parse

/-- Serialized chunks are parsed again. -/
def ofChunks (chunks : List Chunk) : Except ScriptError StoredScript :=
  (parse (encodeChunks chunks)).mapError .parse

/-- Chunks that are taken to be canonical, and are not parsed again. -/
def ofParts (chunks : List Chunk) : StoredScript :=
  ⟨chunks, encodeChunks chunks⟩

def payToPublicKeyHash (hash : Digest 20) : StoredScript :=
  ofParts (Script.payToPublicKeyHash hash).chunks

def multisig (required : Nat) (keys : List Curve.PublicKey) : Except ScriptError StoredScript := do
  let s ← Script.multisig required keys
  return ofParts s.chunks

def toP2sh (s : StoredScript) : StoredScript :=
  ofParts (Script.payToScriptHash (Hash.hash160 s.bytes)).chunks

def dropChunks (s : StoredScript) (index : Nat) : StoredScript :=
  ofParts (s.chunks.drop index)

def takeChunks (s : StoredScript) (index : Nat) : StoredScript :=
  ofParts (s.chunks.take index)

/-! ## Changing scripts -/

def changeChunks (f : List Chunk → List Chunk) : Building Unit :=
  modify fun s => { s with chunks := f s.chunks }

/-- Makes the bytes anew from the chunks. -/
def rebuild : Building Unit :=
  modify fun s => { s with bytes := encodeChunks s.chunks }

def append (op : Opcode) : Building Unit := do
  if op = .zero then
    changeChunks (· ++ [.pushMinimal []])
  else if Script.needsOperand op then
    throw (.bareOpcode op.name)
  else
    changeChunks (· ++ [.op op])
  rebuild

def appendDataWith (data : Bytes) (enc : PushEncoding) : Building Unit := do
  if data.isEmpty then
    throw .emptyData
  let chunk ← MonadExcept.ofExcept (Chunk.pushWith data enc)
  changeChunks (· ++ [chunk])
  rebuild

def appendData (data : Bytes) : Building Unit :=
  appendDataWith data (.minimal data.length)

def appendScript (other : StoredScript) : Building Unit := do
  if other.bytes.isEmpty then
    throw .emptyScript
  changeChunks (· ++ other.chunks)
  rebuild

def deleteData (data : Bytes) : Building Unit := do
  if data.isEmpty then
    return
  changeChunks (·.filter fun c => c.data? != some data)
  rebuild

def deleteOpcode (op : Opcode) : Building Unit := do
  changeChunks (·.filter fun c => c.opcode != op)
  rebuild

def appendToken (token : String) : Building Unit :=
  match Opcode.ofName? token with
  | some op => append op
  | none =>
    match Hex.decode token with
    | .ok data => appendData data
    | .error _ => throw (.unknownToken token)

def appendTokens : List String → Building Unit
  | [] => return
  | token :: rest => do
    appendToken token
    appendTokens rest

/-- What a chain of changes has made of a script, if none of them failed. -/
def made (r : EStateM.Result ScriptError StoredScript Unit) : Except ScriptError StoredScript :=
  match r with
  | .ok () s => .ok s
  | .error e _ => .error e

def ofAsm (text : String) : Except ScriptError StoredScript :=
  made (appendTokens (Text.words text) empty)

/-! ## Text forms -/

def toHex (s : StoredScript) : String :=
  Hex.encode s.bytes

def toJsonText (s : StoredScript) : String :=
  Json.quotePlain s.toHex

def ofJsonText? (text : String) : Option StoredScript := do
  let hex ← (← Json.parse? text).text?
  (ofHex hex).toOption

end StoredScript

/-! ## Sequences of steps -/

/-- A call that changes a script in place. -/
inductive BuilderCall where
  | append (op : Opcode)
  | appendData (data : Bytes)
  | appendDataWith (data : Bytes) (enc : PushEncoding)
  | appendScript (other : StoredScript)
  | deleteData (data : Bytes)
  | deleteOpcode (op : Opcode)

namespace BuilderCall

def perform : BuilderCall → Building Unit
  | .append op => StoredScript.append op
  | .appendData data => StoredScript.appendData data
  | .appendDataWith data enc => StoredScript.appendDataWith data enc
  | .appendScript other => StoredScript.appendScript other
  | .deleteData data => StoredScript.deleteData data
  | .deleteOpcode op => StoredScript.deleteOpcode op

/-- The scripts that the call takes chunks from. -/
def arguments : BuilderCall → List StoredScript
  | .appendScript other => [other]
  | _ => []

/-- The script that the call leaves, whether or not it succeeds. -/
def left (call : BuilderCall) (s : StoredScript) : StoredScript :=
  match call.perform s with
  | .ok () t => t
  | .error _ t => t

end BuilderCall

end TxScript
