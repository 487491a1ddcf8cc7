import TxScript.Hash.Sha256

/-!
# RIPEMD-160

Two lines of eighty rounds run over the same block and are added together crosswise at the end. A
line is data: for each round the word that it reads and the rotation, for each group of sixteen the
mixing function and the constant.
-/

namespace TxScript.Hash.Ripemd160

structure State where
  a : UInt32
  b : UInt32
  c : UInt32
  d : UInt32
  e : UInt32

def initial : State :=
  ⟨0x67452301, 0xefcdab89, 0x98badcfe, 0x10325476, 0xc3d2e1f0⟩

/-- One group of sixteen rounds. -/
structure Group where
  mix : UInt32 → UInt32 → UInt32 → UInt32
  constant : UInt32
  order : List Nat
  rotations : List UInt32

def mix1 (x y z : UInt32) : UInt32 := x ^^^ y ^^^ z

def mix2 (x y z : UInt32) : UInt32 := (x &&& y) ||| (~~~x &&& z)

def mix3 (x y z : UInt32) : UInt32 := (x ||| ~~~y) ^^^ z

def mix4 (x y z : UInt32) : UInt32 := (x &&& z) ||| (y &&& ~~~z)

def mix5 (x y z : UInt32) : UInt32 := x ^^^ (y ||| ~~~z)

def leftLine : List Group := [
  ⟨mix1, 0x00000000,
    [0, 1, 2, 3, 4, 5, 6, 7, 8, 9, 10, 11, 12, 13, 14, 15],
    [11, 14, 15, 12, 5, 8, 7, 9, 11, 13, 14, 15, 6, 7, 9, 8]⟩,
  ⟨mix2, 0x5a827999,
    [7, 4, 13, 1, 10, 6, 15, 3, 12, 0, 9, 5, 2, 14, 11, 8],
    [7, 6, 8, 13, 11, 9, 7, 15, 7, 12, 15, 9, 11, 7, 13, 12]⟩,
  ⟨mix3, 0x6ed9eba1,
    [3, 10, 14, 4, 9, 15, 8, 1, 2, 7, 0, 6, 13, 11, 5, 12],
    [11, 13, 6, 7, 14, 9, 13, 15, 14, 8, 13, 6, 5, 12, 7, 5]⟩,
  ⟨mix4, 0x8f1bbcdc,
    [1, 9, 11, 10, 0, 8, 12, 4, 13, 3, 7, 15, 14, 5, 6, 2],
    [11, 12, 14, 15, 14, 15, 9, 8, 9, 14, 5, 6, 8, 6, 5, 12]⟩,
  ⟨mix5, 0xa953fd4e,
    [4, 0, 5, 9, 7, 12, 2, 10, 14, 1, 3, 8, 11, 6, 15, 13],
    [9, 15, 5, 11, 6, 8, 13, 12, 5, 12, 13, 14, 11, 8, 5, 6]⟩]

def rightLine : List Group := [
  ⟨mix5, 0x50a28be6,
    [5, 14, 7, 0, 9, 2, 11, 4, 13, 6, 15, 8, 1, 10, 3, 12],
    [8, 9, 9, 11, 13, 15, 15, 5, 7, 7, 8, 11, 14, 14, 12, 6]⟩,
  ⟨mix4, 0x5c4dd124,
    [6, 11, 3, 7, 0, 13, 5, 10, 14, 15, 8, 12, 4, 9, 1, 2],
    [9, 13, 15, 7, 12, 8, 9, 11, 7, 7, 12, 7, 6, 15, 13, 11]⟩,
  ⟨mix3, 0x6d703ef3,
    [15, 5, 1, 3, 7, 14, 6, 9, 11, 8, 12, 2, 10, 0, 4, 13],
    [9, 7, 15, 11, 8, 6, 6, 14, 12, 13, 5, 14, 13, 13, 7, 5]⟩,
  ⟨mix2, 0x7a6d76e9,
    [8, 6, 4, 1, 3, 11, 15, 0, 5, 12, 2, 13, 9, 7, 10, 14],
    [15, 5, 8, 11, 14, 14, 6, 14, 6, 9, 12, 9, 12, 5, 15, 8]⟩,
  ⟨mix1, 0x00000000,
    [12, 15, 10, 4, 1, 5, 8, 7, 6, 2, 13, 14, 0, 3, 9, 11],
    [8, 5, 12, 9, 12, 5, 14, 6, 8, 13, 6, 5, 15, 13, 11, 11]⟩]

def round (g : Group) (block : List UInt32) (s : State) (step : Nat × UInt32) : State :=
  let t := rotateLeft (s.a + g.mix s.b s.c s.d + block.getD step.1 0 + g.constant) step.2 + s.e
  ⟨s.e, t, s.b, rotateLeft s.c 10, s.d⟩

def Group.run (g : Group) (block : List UInt32) (s : State) : State :=
  (g.order.zip g.rotations).foldl (round g block) s

def runLine (line : List Group) (block : List UInt32) (s : State) : State :=
  line.foldl (fun state g => g.run block state) s

def compress (s : State) (bytes : Bytes) : State :=
  let block := words LittleEndian.decode bytes
  let l := runLine leftLine block s
  let r := runLine rightLine block s
  ⟨s.b + l.c + r.d, s.c + l.d + r.e, s.d + l.e + r.a, s.e + l.a + r.b, s.a + l.b + r.c⟩

def State.toBytes (s : State) : Bytes :=
  [s.a, s.b, s.c, s.d, s.e].flatMap (fun w => LittleEndian.encode 4 w.toNat)

theorem State.length_toBytes (s : State) : s.toBytes.length = 20 := by
  simp [State.toBytes]

end Ripemd160

def ripemd160 (message : Bytes) : Digest 20 :=
  let state :=
    digestBlocks Ripemd160.compress Ripemd160.initial (pad (LittleEndian.encode 8) message)
  ⟨state.toBytes, state.length_toBytes⟩

/-- RIPEMD-160 of SHA-256: the hash that addresses commit to. -/
def hash160 (message : Bytes) : Digest 20 :=
  ripemd160 (sha256 message).bytes

end TxScript.Hash
