import TxScript.Proofs.Indexed.Cursor
import TxScript.Proofs.Wire.Positions

/-!
# Items read by position

Items of any kinds are read one after another with a cursor, whatever becomes of each. However large
a length is announced, no sum wraps, so the position moves as it does for the reader that takes
bytes off the front: a read that fails takes nothing, the first byte of a compact size, or the whole
size.
-/

namespace TxScript.Indexed

open Wire (Item Kind ReadError)

variable {bound : Option Nat}

namespace Cursor

variable (bound : Option Nat)

def read : Kind → Action Cursor ReadError Item
  | .u8 => return .u8 (← u8 bound)
  | .u16 => return .u16 (← u16 bound)
  | .u32 => return .u32 (← u32 bound)
  | .u64 => return .u64 (← u64 bound)
  | .compactSize => return .compactSize (UInt64.ofNat (← compactSize bound))
  | .bytes count => return .bytes (← take bound count)
  | .varBytes => return .varBytes (← varBytes bound)

def readEach : List Kind → Action Cursor ReadError (List (Except ReadError Item × Nat))
  | [] => return []
  | kind :: kinds => do
    let result ← attempt (read bound kind)
    let left ← remaining
    let steps ← readEach kinds
    return (result, left) :: steps

end Cursor

namespace Reads

theorem read (kind : Kind) : Reads bound (Cursor.read bound kind) kind.read := by
  cases kind with
  | u8 => exact u8.bind fun v => .pure (Item.u8 v)
  | u16 => exact u16.bind fun v => .pure (Item.u16 v)
  | u32 => exact u32.bind fun v => .pure (Item.u32 v)
  | u64 => exact u64.bind fun v => .pure (Item.u64 v)
  | compactSize => exact compactSize.bind fun n => .pure (Item.compactSize (UInt64.ofNat n))
  | bytes count => exact (take count).bind fun data => .pure (Item.bytes data)
  | varBytes => exact varBytes.bind fun data => .pure (Item.varBytes data)

theorem readEach (kinds : List Kind) :
    Reads bound (Cursor.readEach bound kinds) (Wire.readEach kinds) := by
  induction kinds with
  | nil => exact .pure []
  | cons kind kinds ih =>
      exact (read kind).attempt.bind fun result =>
        remaining.bind fun left => ih.bind fun steps => .pure ((result, left) :: steps)

end Reads

/-- Any reads one after another, also behind ones that fail, keep the position inside of the bytes.
One that succeeds gives what the bytes spell between the position in front of it and the one behind
it. One that fails leaves the position where it was if it is of a fixed width. Otherwise it leaves
it behind the first byte of a compact size, if there is one, or behind the whole size where only
the payload is missing. The same happens at addresses, whatever the greatest one is: no sum of two
wraps, no slice lies outside of the bytes, and an array is read as so many bytes. -/
theorem readEach_by_position {bytes : Bytes} {top : Nat} (htop : bytes.length ≤ top)
    (kinds : List Kind) :
    (∃ steps last, Wire.Passes bytes 0 kinds steps last ∧ last ≤ bytes.length ∧
      Wire.readEach kinds bytes = .ok steps (bytes.drop last) ∧
      Cursor.readEach (some top) kinds ⟨bytes, 0⟩ = some (.ok steps ⟨bytes, last⟩)) ∧
    ∀ width, Cursor.array (some top) width = Cursor.take (some top) width := by
  have hpos : 0 ≤ bytes.length := Nat.zero_le _
  have hread := Reads.readEach kinds bytes 0 (isAddress_some htop) hpos
  obtain ⟨steps, last, hsteps, hlast, hpasses⟩ := Wire.passes_of_readEach kinds hpos
  rw [hsteps] at hread
  rw [List.drop_zero] at hsteps
  exact ⟨⟨steps, last, hpasses, hlast, hsteps, hread.eq_of_ok hlast⟩, Cursor.array_eq_take (some top)⟩

/-- The greatest length that can be announced, one of which only a part is there, and a marker at
the very end. -/
theorem readEach_by_position_huge_length :
    let bytes : Bytes :=
      [0xff, 0xff, 0xff, 0xff, 0xff, 0xff, 0xff, 0xff, 0xff, 0x05, 0xaa, 0xbb, 0xfd]
    let top := 0xffffffffffffffff
    let kinds : List Kind := [.varBytes, .u64, .varBytes, .u16, .compactSize, .varBytes]
    let steps : List (Except ReadError Item × Nat) :=
      [(.error .endOfData, 4), (.error .endOfData, 4), (.error .endOfData, 3),
        (.ok (.u16 0xbbaa), 1), (.error .endOfData, 0), (.error .endOfData, 0)]
    bytes.length ≤ top ∧ Wire.Passes bytes 0 kinds steps 13 ∧
      Wire.readEach kinds bytes = .ok steps [] ∧
      Cursor.readEach (some top) kinds ⟨bytes, 0⟩ = some (.ok steps ⟨bytes, 13⟩) := by
  intro bytes top kinds steps
  have htop : bytes.length ≤ top := by decide
  obtain ⟨⟨steps', last, hpasses, hlast, hread, hat⟩, -⟩ := readEach_by_position htop kinds
  have heval : Wire.readEach kinds bytes = .ok steps [] := rfl
  rw [heval] at hread
  injection hread with hsteps hleft
  have hend : bytes.length ≤ last := List.drop_eq_nil_iff.1 hleft.symm
  have hlast : last = 13 := Nat.le_antisymm hlast hend
  subst hsteps hlast
  exact ⟨htop, hpasses, heval, hat⟩

end TxScript.Indexed
