import TxScript.Script.PushEncoding

/-!
# Chunks

A script is a row of chunks: bare opcodes, and pushes of data together with the encoding of their
length. A push whose encoding cannot hold its data is written in the most compact encoding.
-/

namespace TxScript

inductive Chunk where
  | op (opcode : Opcode)
  | push (encoding : PushEncoding) (data : Bytes)
  deriving DecidableEq, Repr

namespace Chunk

/-- A push in the most compact encoding. -/
def pushMinimal (data : Bytes) : Chunk :=
  .push (.minimal data.length) data

/-- The opcode that the chunk starts with. -/
def opcode : Chunk → Opcode
  | .op o => o
  | .push enc data => (enc.fitted data.length).opcode data.length

def data? : Chunk → Option Bytes
  | .op _ => none
  | .push _ data => some data

def isPush : Chunk → Bool
  | .op _ => false
  | .push _ _ => true

/-- Number of bytes that the chunk takes. -/
def size : Chunk → Nat
  | .op _ => 1
  | .push enc data => (enc.fitted data.length).headerLength + data.length

def encode : Chunk → Bytes
  | .op o => [o.byte]
  | .push enc data => (enc.fitted data.length).header data.length ++ data

/-- The form in which a chunk reads back. -/
def Canonical : Chunk → Prop
  | .op o => o.isPush = false
  | .push enc data => data.length ≤ enc.capacity

instance (c : Chunk) : Decidable c.Canonical :=
  match c with
  | .op o => inferInstanceAs (Decidable (o.isPush = false))
  | .push enc data => inferInstanceAs (Decidable (data.length ≤ enc.capacity))

theorem canonical_op {o : Opcode} (h : o.isPush = false) : (op o).Canonical := h

theorem canonical_push {enc : PushEncoding} {data : Bytes} (h : data.length ≤ enc.capacity) :
    (push enc data).Canonical := h

/-- The mnemonic form: a name for opcodes and empty pushes, and hexadecimal data for the others. -/
def mnemonic : Chunk → String
  | .op o => o.mnemonic
  | .push _ data => if data.isEmpty then Opcode.zero.name else Hex.encode data

theorem length_encode (c : Chunk) : c.encode.length = c.size := by
  cases c with
  | op o => rfl
  | push enc data => simp [encode, size]

theorem size_pos (c : Chunk) : 0 < c.size := by
  cases c with
  | op o => simp [size]
  | push enc data => simp only [size, PushEncoding.headerLength]; omega

theorem canonical_pushMinimal {data : Bytes} (h : data.length ≤ 0xffffffff) :
    (pushMinimal data).Canonical :=
  canonical_push (PushEncoding.minimal_of_le h)

end Chunk

/-- The bytes of a row of chunks. -/
def encodeChunks (chunks : List Chunk) : Bytes :=
  chunks.flatMap Chunk.encode

@[simp] theorem encodeChunks_nil : encodeChunks [] = [] := rfl

@[simp] theorem encodeChunks_cons (c : Chunk) (cs : List Chunk) :
    encodeChunks (c :: cs) = c.encode ++ encodeChunks cs := by
  simp [encodeChunks]

@[simp] theorem encodeChunks_append (as bs : List Chunk) :
    encodeChunks (as ++ bs) = encodeChunks as ++ encodeChunks bs := by
  simp [encodeChunks]

end TxScript
