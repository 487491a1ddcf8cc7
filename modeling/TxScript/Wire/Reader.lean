import TxScript.Bytes.Basic

/-!
# Readers

A reader takes bytes off the front of its input. It is a state computation over the unread bytes,
so a reader that fails leaves behind exactly what it had not taken yet, and the next one goes on
from there.
-/

namespace TxScript

abbrev Reader (ε α : Type) := EStateM ε Bytes α

namespace Reader

variable {ε ε' α : Type}

/-- The same reads, with the error put into a larger context. -/
def mapError (f : ε → ε') (r : Reader ε α) : Reader ε' α := fun input =>
  match r input with
  | .ok a rest => .ok a rest
  | .error e rest => .error (f e) rest

/-- The same reader `count` times over. -/
def repeated (r : Reader ε α) : (count : Nat) → Reader ε (List α)
  | 0 => pure []
  | count + 1 => do
    let a ← r
    let rest ← repeated r count
    return a :: rest

/-- The read with its failure as a result. -/
def attempt (r : Reader ε α) : Reader ε (Except ε α) := fun input =>
  match r input with
  | .ok a rest => .ok (.ok a) rest
  | .error e rest => .ok (.error e) rest

/-- How many bytes are left. -/
def remaining : Reader ε Nat := fun input => .ok input.length input

end Reader

namespace Wire

/-- The one way in which a plain read fails. -/
inductive ReadError where
  | endOfData
  deriving DecidableEq, Repr

def ReadError.message : ReadError → String
  | .endOfData => "unexpected end of data"

/-- Takes `count` bytes, or none of them when fewer are left. -/
def take (count : Nat) : Reader ReadError Bytes := fun input =>
  if count ≤ input.length then .ok (input.take count) (input.drop count)
  else .error .endOfData input

/-- A little-endian number of `width` bytes. -/
def number (width : Nat) : Reader ReadError Nat := do
  let bs ← take width
  return LittleEndian.decode bs

def u8 : Reader ReadError UInt8 := do
  let n ← number 1
  return UInt8.ofNat n

def u16 : Reader ReadError UInt16 := do
  let n ← number 2
  return UInt16.ofNat n

def u32 : Reader ReadError UInt32 := do
  let n ← number 4
  return UInt32.ofNat n

def u64 : Reader ReadError UInt64 := do
  let n ← number 8
  return UInt64.ofNat n

theorem take_append {count : Nat} {bs : Bytes} (h : bs.length = count) (rest : Bytes) :
    take count (bs ++ rest) = .ok bs rest := by
  subst h
  simp [take]

theorem take_of_lt {count : Nat} {input : Bytes} (h : input.length < count) :
    take count input = .error .endOfData input := by
  simp [take, Nat.not_le.2 h]

theorem number_append {width n : Nat} (h : n < LittleEndian.limit width) (rest : Bytes) :
    number width (LittleEndian.encode width n ++ rest) = .ok n rest := by
  simp [number, bind, EStateM.bind, take_append (LittleEndian.length_encode width n), pure,
    EStateM.pure, LittleEndian.decode_encode h]

theorem u8_cons (b : UInt8) (rest : Bytes) : u8 (b :: rest) = .ok b rest := by
  have h := @number_append 1 b.toNat b.toNat_lt rest
  simp [LittleEndian.encode] at h
  simp [u8, bind, EStateM.bind, h, pure, EStateM.pure]

end Wire

end TxScript
