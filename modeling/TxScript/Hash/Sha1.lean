import TxScript.Hash.Digest
import TxScript.Hash.Padding

/-!
# SHA-1

Eighty rounds in four groups of twenty, over a moving window of sixteen words.
-/

namespace TxScript.Hash.Sha1

structure State where
  a : UInt32
  b : UInt32
  c : UInt32
  d : UInt32
  e : UInt32

def initial : State :=
  ⟨0x67452301, 0xefcdab89, 0x98badcfe, 0x10325476, 0xc3d2e1f0⟩

def nextWord (window : List UInt32) : UInt32 :=
  rotateLeft (window.getD 13 0 ^^^ window.getD 8 0 ^^^ window.getD 2 0 ^^^ window.headD 0) 1

/-- The mixing function and the constant of a group of rounds. -/
structure Group where
  mix : UInt32 → UInt32 → UInt32 → UInt32
  constant : UInt32

def choice (b c d : UInt32) : UInt32 :=
  (b &&& c) ||| (~~~b &&& d)

def parity (b c d : UInt32) : UInt32 :=
  b ^^^ c ^^^ d

def majority (b c d : UInt32) : UInt32 :=
  (b &&& c) ||| (b &&& d) ||| (c &&& d)

def groups : List Group :=
  [⟨choice, 0x5a827999⟩, ⟨parity, 0x6ed9eba1⟩, ⟨majority, 0x8f1bbcdc⟩, ⟨parity, 0xca62c1d6⟩]

def round (s : State) (group : Group) (word : UInt32) : State :=
  ⟨rotateLeft s.a 5 + group.mix s.b s.c s.d + s.e + group.constant + word,
    s.a, rotateLeft s.b 30, s.c, s.d⟩

def rounds : List Group → (window : List UInt32) → State → State
  | [], _, s => s
  | group :: rest, window, s =>
    rounds rest (window.drop 1 ++ [nextWord window]) (round s group (window.headD 0))

def schedule : List Group :=
  groups.flatMap (List.replicate 20)

def compress (s : State) (block : Bytes) : State :=
  let t := rounds schedule (words BigEndian.decode block) s
  ⟨s.a + t.a, s.b + t.b, s.c + t.c, s.d + t.d, s.e + t.e⟩

def State.toBytes (s : State) : Bytes :=
  [s.a, s.b, s.c, s.d, s.e].flatMap (fun w => BigEndian.encode 4 w.toNat)

theorem State.length_toBytes (s : State) : s.toBytes.length = 20 := by
  simp [State.toBytes]

end Sha1

def sha1 (message : Bytes) : Digest 20 :=
  let state := digestBlocks Sha1.compress Sha1.initial (pad (BigEndian.encode 8) message)
  ⟨state.toBytes, state.length_toBytes⟩

end TxScript.Hash
