import TxScript.Script.Parsing

/-!
# Scripts

A script is its row of chunks, each of them in the form in which it reads back. Its bytes are those
of the chunks, so the two views never part.
-/

namespace TxScript

@[ext] structure Script where
  chunks : List Chunk
  canonical : ∀ c ∈ chunks, c.Canonical := by decide +zetaReduce
  deriving DecidableEq, Repr

namespace Script

def empty : Script where
  chunks := []

/-- One script behind the other. -/
instance : Append Script where
  append s t := ⟨s.chunks ++ t.chunks, List.forall_mem_append.2 ⟨s.canonical, t.canonical⟩⟩

@[simp] theorem chunks_append (s t : Script) : (s ++ t).chunks = s.chunks ++ t.chunks := rfl

/-- With one more chunk at the end. -/
def push (s : Script) (c : Chunk) (h : c.Canonical) : Script :=
  ⟨s.chunks ++ [c], List.forall_mem_append.2 ⟨s.canonical, List.forall_mem_singleton.2 h⟩⟩

/-- The chunks that are asked to stay. -/
def filter (s : Script) (keeps : Chunk → Bool) : Script :=
  ⟨s.chunks.filter keeps, fun c hc => s.canonical c (List.mem_filter.1 hc).1⟩

def bytes (s : Script) : Bytes :=
  encodeChunks s.chunks

theorem bytes_append (s t : Script) : (s ++ t).bytes = s.bytes ++ t.bytes :=
  encodeChunks_append s.chunks t.chunks

theorem bytes_push (s : Script) {c : Chunk} (h : c.Canonical) :
    (s.push c h).bytes = s.bytes ++ c.encode := by
  simp [push, bytes]

/-- Number of bytes. -/
def size (s : Script) : Nat :=
  s.bytes.length

def isEmpty (s : Script) : Bool :=
  s.bytes.isEmpty

def toHex (s : Script) : String :=
  Hex.encode s.bytes

def parse (input : Bytes) : Except ParseError Script :=
  match h : parseChunks input with
  | .ok chunks => .ok ⟨chunks, (encodeChunks_of_parseChunksAt h).2⟩
  | .error e => .error e

theorem map_chunks_parse (input : Bytes) : (parse input).map chunks = parseChunks input := by
  unfold parse
  split <;> simp_all [Except.map]

/-- The mnemonic form: the chunks, with single spaces between them. -/
def toAsm (s : Script) : String :=
  " ".intercalate (s.chunks.map Chunk.mnemonic)

/-- The position that an index names; negative indices count back from the end. -/
def position? (s : Script) (index : Int) : Option Nat :=
  let length : Int := s.chunks.length
  let at_ := if index < 0 then length + index else index
  if 0 ≤ at_ ∧ at_ < length then some at_.toNat else none

def chunk? (s : Script) (index : Int) : Option Chunk :=
  (s.position? index).bind fun i => s.chunks[i]?

def opcode? (s : Script) (index : Int) : Option Opcode :=
  (s.chunk? index).map Chunk.opcode

def data? (s : Script) (index : Int) : Option Bytes :=
  (s.chunk? index).bind Chunk.data?

/-- The chunks from an index on. -/
def dropChunks (s : Script) (index : Nat) : Script :=
  ⟨s.chunks.drop index, fun c hc => s.canonical c (List.mem_of_mem_drop hc)⟩

/-- The chunks in front of an index. -/
def takeChunks (s : Script) (index : Nat) : Script :=
  ⟨s.chunks.take index, fun c hc => s.canonical c (List.mem_of_mem_take hc)⟩

/-- Without the pushes of exactly this data. Pushes of nothing are always kept. -/
def withoutData (s : Script) (data : Bytes) : Script :=
  if data.isEmpty then s else s.filter fun c => c.data? != some data

/-- Without the chunks that start with this opcode. -/
def withoutOpcode (s : Script) (op : Opcode) : Script :=
  s.filter fun c => c.opcode != op

end Script

end TxScript
