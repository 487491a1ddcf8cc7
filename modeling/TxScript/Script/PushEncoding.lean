import TxScript.Script.Opcode

/-!
# Push encodings

How a push spells out the length of its data: the opcode byte itself, or one of three opcodes with
a little-endian length behind it. Each encoding has a capacity, and the most compact one for a
length is the first that holds it.
-/

namespace TxScript

inductive PushEncoding where
  | implicit
  | pushData1
  | pushData2
  | pushData4
  deriving DecidableEq, Repr

namespace PushEncoding

/-- The longest data that the encoding can announce. -/
def capacity : PushEncoding → Nat
  | .implicit => 75
  | .pushData1 => 0xff
  | .pushData2 => 0xffff
  | .pushData4 => 0xffffffff

/-- Bytes of the length field behind the opcode. -/
def lengthWidth : PushEncoding → Nat
  | .implicit => 0
  | .pushData1 => 1
  | .pushData2 => 2
  | .pushData4 => 4

/-- Bytes in front of the data: the opcode and the length field. -/
def headerLength (enc : PushEncoding) : Nat :=
  1 + enc.lengthWidth

def name : PushEncoding → String
  | .implicit => "implicit push"
  | .pushData1 => "OP_PUSHDATA1"
  | .pushData2 => "OP_PUSHDATA2"
  | .pushData4 => "OP_PUSHDATA4"

/-- The most compact encoding for data of the given length. -/
def minimal (length : Nat) : PushEncoding :=
  if length ≤ 75 then .implicit
  else if length ≤ 0xff then .pushData1
  else if length ≤ 0xffff then .pushData2
  else .pushData4

/-- The encoding itself where it holds the length, and otherwise the most compact one. -/
def fitted (enc : PushEncoding) (length : Nat) : PushEncoding :=
  if length ≤ enc.capacity then enc else minimal length

/-- The opcode of a push of the given length. -/
def opcode (enc : PushEncoding) (length : Nat) : Opcode :=
  match enc with
  | .implicit => ⟨UInt8.ofNat length⟩
  | .pushData1 => .pushData1
  | .pushData2 => .pushData2
  | .pushData4 => .pushData4

/-- What stands in front of data of the given length. -/
def header (enc : PushEncoding) (length : Nat) : Bytes :=
  (enc.opcode length).byte :: LittleEndian.encode enc.lengthWidth length

/-- The encoding that a byte up to 4e announces. -/
def ofByte (byte : UInt8) : PushEncoding :=
  if byte = Opcode.pushData1.byte then .pushData1
  else if byte = Opcode.pushData2.byte then .pushData2
  else if byte = Opcode.pushData4.byte then .pushData4
  else .implicit

@[simp] theorem length_header (enc : PushEncoding) (length : Nat) :
    (enc.header length).length = enc.headerLength := by
  simp [header, headerLength, Nat.add_comm]

theorem minimal_of_le {length : Nat} (h : length ≤ 0xffffffff) :
    length ≤ (minimal length).capacity := by
  unfold minimal
  split
  · simpa [capacity]
  · split
    · simpa [capacity]
    · split
      · simpa [capacity]
      · simpa [capacity]

theorem fitted_of_le {enc : PushEncoding} {length : Nat} (h : length ≤ enc.capacity) :
    enc.fitted length = enc := by
  simp [fitted, h]

/-- A byte up to 4e is the opcode of the encoding that it announces. -/
theorem opcode_ofByte {byte : UInt8} (h : byte ≤ 0x4e) :
    (ofByte byte).opcode byte.toNat = ⟨byte⟩ ∧
      (ofByte byte = .implicit → byte.toNat ≤ 75) := by
  unfold ofByte
  split
  · rename_i e; subst e; exact ⟨rfl, nofun⟩
  · split
    · rename_i e; subst e; exact ⟨rfl, nofun⟩
    · split
      · rename_i e; subst e; exact ⟨rfl, nofun⟩
      · rename_i h1 h2 h3
        have h4 := UInt8.le_iff_toNat_le.1 h
        simp only [Opcode.pushData1, Opcode.pushData2, Opcode.pushData4, ← UInt8.toNat_inj,
          UInt8.reduceToNat] at h1 h2 h3 h4
        exact ⟨by simp [opcode], fun _ => by omega⟩

/-- Only direct pushes have an opcode that depends on the length. -/
theorem opcode_eq_of_ne {enc : PushEncoding} (h : enc ≠ .implicit) (m n : Nat) :
    enc.opcode m = enc.opcode n := by
  cases enc with
  | implicit => exact absurd rfl h
  | _ => rfl

/-- A length field spells no more than the capacity. -/
theorem le_capacity_of_lt {enc : PushEncoding} (h : enc ≠ .implicit) {n : Nat}
    (hn : n < LittleEndian.limit enc.lengthWidth) : n ≤ enc.capacity := by
  cases enc with
  | implicit => exact absurd rfl h
  | pushData1 => exact Nat.le_of_lt_succ hn
  | pushData2 => exact Nat.le_of_lt_succ hn
  | pushData4 => exact Nat.le_of_lt_succ hn

end PushEncoding

end TxScript
